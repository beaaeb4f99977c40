import CtrlPt.Uri.Dots

/-! `remove_dots` on a string in which no slash stands first once the leading dots are gone: its
first byte is never overwritten by one. -/
namespace CtrlPt
namespace Uri
open CText Rounds Memory

theorem dotsRound_inl {n : ℕ} {d t : Dots} (h : dotsRound n d = .ok (.inl t)) :
    ∃ c, load d.mem d.copyFrom = .ok c ∧ d.copyFrom < n ∧
      ((dotsAt d.mem n d.copyFrom = .ok 1 ∧ t = { d with copyFrom := d.copyFrom+2 }) ∨
        (∃ start, 0 < d.lastSegment ∧ load d.segments (d.lastSegment-1).toNat = .ok start ∧
          t = { d with
            copyFrom := d.copyFrom+3, copyTo := start, lastSegment := d.lastSegment-1 }) ∨
        ∃ u, noteSegment d c = .ok u ∧ copyByte u = .ok t) := by
  rw [dotsRound] at h
  split at h
  swap
  · cases h
  rename_i hlt
  rcases of_bind_ok h with ⟨c,hc,h⟩
  refine ⟨c,hc,hlt,?_⟩
  split at h
  · cases h
  rcases of_bind_ok h with ⟨dots,hdots,h⟩
  split at h
  · rename_i h1
    cases h
    exact .inl ⟨by rw [hdots,h1],rfl⟩
  split at h
  · split at h
    · rename_i hlast
      rcases of_bind_ok h with ⟨start,hstart,h⟩
      cases h
      exact .inr (.inl ⟨start,hlast,hstart,rfl⟩)
    · cases h
  · rcases of_bind_ok h with ⟨u,hu,h⟩
    rcases of_bind_ok h with ⟨v,hv,h⟩
    cases h
    exact .inr (.inr ⟨u,hu,hv⟩)

theorem dotsRound_inr {n : ℕ} {d : Dots} {r : Bool × Dots} (h : dotsRound n d = .ok (.inr r)) :
    r.2 = d ∧ (r.1 = true → n ≤ d.copyFrom ∨
      ∃ c, load d.mem d.copyFrom = .ok c ∧ isPathEnd c = true) := by
  rw [dotsRound] at h
  split at h
  swap
  · rename_i hlt
    cases h
    exact ⟨rfl,fun _ => .inl (Nat.not_lt.mp hlt)⟩
  rcases of_bind_ok h with ⟨c,hc,h⟩
  split at h
  · rename_i hend
    cases h
    exact ⟨rfl,fun _ => .inr ⟨c,hc,hend⟩⟩
  rcases of_bind_ok h with ⟨dots,-,h⟩
  split at h
  · cases h
  split at h
  · split at h
    · rcases of_bind_ok h with ⟨start,-,h⟩
      cases h
    · cases h
      exact ⟨rfl,by rintro ⟨⟩⟩
  · rcases of_bind_ok h with ⟨u,-,h⟩
    rcases of_bind_ok h with ⟨v,-,h⟩
    cases h

theorem dotsAt_one {mem : List UInt8} {n i : ℕ} (h : dotsAt mem n i = .ok 1) :
    load mem i = .ok 46 ∧ (i+1 = n ∨ load mem (i+1) = .ok 47) := by
  rw [dotsAt] at h
  rcases of_bind_ok h with ⟨c,hc,h⟩
  split at h
  swap
  · cases h
  rename_i hdot
  subst hdot
  rcases of_bind_ok h with ⟨begins,-,h⟩
  split at h
  swap
  · cases h
  rcases of_bind_ok h with ⟨one,hone,h⟩
  split at h
  · rename_i hend
    refine ⟨hc,?_⟩
    rw [segmentEnds] at hone
    split at hone
    · exact .inl ‹_›
    · rcases of_bind_ok hone with ⟨e,he,hone⟩
      obtain rfl : e = 47 := by
        have := Except.ok.inj hone
        rw [hend] at this
        exact beq_iff_eq.mp this
      exact .inr he
  · rcases of_bind_ok h with ⟨e,-,h⟩
    split at h
    · rcases of_bind_ok h with ⟨two,-,h⟩
      cases two <;> cases h
    · cases h

/-- A byte other than a slash is written first and stays there. -/
structure Relative (d : Dots) : Prop where
  head : d.mem.head? ≠ some 47
  copyTo : 0 < d.copyTo

theorem head?_set {m : List UInt8} {i : ℕ} (hi : 0 < i) (c : UInt8) : (m.set i c).head? = m.head? := by
  cases m with
  | nil => rfl
  | cons a m =>
    obtain ⟨k,rfl⟩ : ∃ k, i = k+1 := ⟨i-1,by omega⟩
    rfl

theorem copyByte_ok {d t : Dots} (h : copyByte d = .ok t) :
    ∃ c, load d.mem d.copyFrom = .ok c ∧ t = { d with
      mem := d.mem.set d.copyTo c, copyTo := d.copyTo+1, copyFrom := d.copyFrom+1 } := by
  rw [copyByte] at h
  rcases of_bind_ok h with ⟨c,hc,h⟩
  rcases of_bind_ok h with ⟨mem,hmem,h⟩
  cases h
  exact ⟨c,hc,by rw [of_store_ok hmem]⟩

theorem Relative.copy {d t : Dots} (h : Relative d) (hc : copyByte d = .ok t) : Relative t := by
  rcases copyByte_ok hc with ⟨c,-,rfl⟩
  exact ⟨by rw [head?_set h.copyTo]; exact h.head,Nat.succ_pos _⟩

theorem relative_of_copy {d t : Dots} {c : UInt8} (hto : d.copyTo = 0)
    (hc : load d.mem d.copyFrom = .ok c) (hne : c ≠ 47) (h : copyByte d = .ok t) : Relative t := by
  rcases copyByte_ok h with ⟨c',hc',rfl⟩
  obtain rfl := Except.ok.inj (hc'.symm.trans hc)
  refine ⟨?_,Nat.succ_pos _⟩
  rw [hto]
  cases d.mem with
  | nil => simp
  | cons a m => simpa using hne

/-- The segments begin behind the first byte. -/
def SegmentsBehind (d : Dots) : Prop :=
  ∀ i : ℕ, (i : ℤ) ≤ d.lastSegment → ∀ k, d.segments[i]? = some k → 0 < k

theorem noteSegment_ok {d u : Dots} {c : UInt8} (h : noteSegment d c = .ok u) :
    u.mem = d.mem ∧ u.copyTo = d.copyTo ∧ u.copyFrom = d.copyFrom ∧
      (SegmentsBehind d → SegmentsBehind u) := by
  rw [noteSegment] at h
  split at h
  · rcases of_bind_ok h with ⟨segments,hs,h⟩
    cases h
    refine ⟨rfl,rfl,rfl,fun hd i hi k hk => ?_⟩
    rw [of_store_ok hs] at hk
    by_cases he : (d.lastSegment+1).toNat = i
    · rw [List.getElem?_set,if_pos he] at hk
      split at hk
      · rw [← Option.some.inj hk]
        exact Nat.succ_pos _
      · cases hk
    · rw [List.getElem?_set_ne he] at hk
      exact hd i (by simp only at hi; omega) k hk
  · cases h
    exact ⟨rfl,rfl,rfl,id⟩

theorem Relative.round {n : ℕ} {d t : Dots} (h : Relative d) (hs : SegmentsBehind d)
    (hr : dotsRound n d = .ok (.inl t)) : Relative t ∧ SegmentsBehind t := by
  rcases dotsRound_inl hr with ⟨c,-,-,⟨-,rfl⟩ | ⟨start,hlast,hstart,rfl⟩ | ⟨u,hu,ht⟩⟩
  · exact ⟨⟨h.head,h.copyTo⟩,hs⟩
  · refine ⟨⟨h.head,hs _ ?_ _ (of_load_ok hstart)⟩,fun i hi => hs i ?_⟩
    · omega
    · simp only at hi
      omega
  · rcases noteSegment_ok hu with ⟨hmem,hto,-,hsegs⟩
    have hrel : Relative u := ⟨by rw [hmem]; exact h.head,by rw [hto]; exact h.copyTo⟩
    refine ⟨hrel.copy ht,?_⟩
    rcases copyByte_ok ht with ⟨c,-,rfl⟩
    exact hsegs hs

/-- Nothing is written, and no slash will be the first. -/
def Unwritten (n : ℕ) (d : Dots) : Prop :=
  d.copyTo = 0 ∧ (n ≤ d.copyFrom ∨ ∃ c, load d.mem d.copyFrom = .ok c ∧ c ≠ 47)

theorem Leading.relative {p z x : List UInt8} {d t : Dots} (h : Leading p z x d)
    (hx : (dropDots x).head? ≠ some 47) (hr : dotsRound p.length d = .ok (.inl t)) :
    (∃ r, Leading p z r t ∧ dropDots r = dropDots x) ∨ (t.copyTo = 0 ∧ p.length ≤ t.copyFrom) ∨
      Relative t ∧ SegmentsBehind t := by
  rcases h with ⟨pre,hp,hpre,rfl⟩
  rcases dotsRound_inl hr with ⟨c,hc,hlt,hcase⟩
  simp only at hc hlt
  have hlen := congrArg List.length hp
  rw [List.length_append] at hlen
  obtain ⟨e,x,rfl⟩ := List.exists_cons_of_ne_nil (List.ne_nil_of_length_pos (l := x) (by omega))
  have hmem : p++0::z = pre++e::(x++0::z) := by
    rw [hp]
    simp
  rw [hmem,load_mid] at hc
  obtain rfl := Except.ok.inj hc
  rcases hcase with ⟨hdots,rfl⟩ | ⟨start,hlast,-⟩ | ⟨u,hu,ht⟩
  · rcases dotsAt_one hdots with ⟨hdot,hend⟩
    rw [hmem,load_mid] at hdot
    obtain rfl := Except.ok.inj hdot
    rw [List.length_cons] at hlen
    rcases hend with hend | hend
    · exact .inr (.inl ⟨rfl,by simp only at hend ⊢; omega⟩)
    cases x with
    | nil =>
      refine .inr (.inl ⟨rfl,?_⟩)
      simp only [List.length_nil] at hlen ⊢
      omega
    | cons f r =>
      rw [hmem,List.cons_append,load_behind (k := 1) (a := f) pre rfl] at hend
      obtain rfl := Except.ok.inj hend
      refine .inl ⟨r,⟨pre++[46,47],?_,.inr ⟨pre++[46],?_⟩,?_⟩,?_⟩
      · rw [hp]
        simp
      · simp
      · simp
      · rw [dropDots,if_pos ⟨rfl,rfl⟩]
  · cases hlast
  · have hne : e ≠ 47 := by
      rintro rfl
      exact hx (by rw [dropDots_slash rfl]; rfl)
    rw [noteSegment,if_neg hne] at hu
    cases hu
    right
    right
    refine ⟨relative_of_copy rfl ?_ hne ht,?_⟩
    · rw [hmem]
      exact load_mid _ _ _
    · rcases copyByte_ok ht with ⟨c,-,rfl⟩
      intro i hi
      simp only at hi
      omega

/-- What is left of such a string begins with something else. -/
theorem removeDots_relative {p z mem : List UInt8} (hp : (dropDots p).head? ≠ some 47)
    (h : removeDots (p++0::z) p.length = .ok (upnpESuccess,mem)) : mem.head? ≠ some 47 := by
  rw [removeDots] at h
  rcases of_bind_ok h with ⟨segments,hsegs,h⟩
  rw [of_store_ok hsegs] at h
  rcases of_bind_ok h with ⟨r,hr,h⟩
  split at h
  swap
  · cases h
  rename_i hdone
  rcases of_bind_ok h with ⟨t,ht,h⟩
  rcases of_bind_ok h with ⟨m,hm,h⟩
  cases h
  have hleft : Relative r.2 ∨ Unwritten p.length r.2 := by
    refine rounds_ok (I := fun d => (∃ x, Leading p z x d ∧ dropDots x = dropDots p) ∨
      (d.copyTo = 0 ∧ p.length ≤ d.copyFrom) ∨ Relative d ∧ SegmentsBehind d)
      (Q := fun r => r.1 = true → Relative r.2 ∨ Unwritten p.length r.2) ?_ ?_
      (.inl ⟨p,⟨[],rfl,.inl rfl,rfl⟩,rfl⟩) hr hdone
    · rintro s t (⟨x,hs,hx⟩ | ⟨-,hs⟩ | ⟨hs,hsegs⟩) hst
      · rcases hs.relative (by rw [hx]; exact hp) hst with ⟨r,hr,hrx⟩ | ht | ht
        · exact .inl ⟨r,hr,hrx.trans hx⟩
        · exact .inr (.inl ht)
        · exact .inr (.inr ht)
      · rcases dotsRound_inl hst with ⟨-,-,hlt,-⟩
        omega
      · exact .inr (.inr (hs.round hsegs hst))
    · rintro s a hs hsa ha
      rcases dotsRound_inr hsa with ⟨rfl,hend⟩
      have hcases : p.length ≤ a.2.copyFrom ∨ ∃ c, load a.2.mem a.2.copyFrom = .ok c ∧ c ≠ 47 := by
        refine (hend ha).imp_right ?_
        rintro ⟨c,hc,he⟩
        refine ⟨c,hc,?_⟩
        rintro rfl
        cases he
      rcases hs with ⟨x,⟨pre,-,-,hs⟩,-⟩ | ⟨hto,-⟩ | ⟨hs,-⟩
      · exact .inr ⟨by rw [hs],hcases⟩
      · exact .inr ⟨hto,hcases⟩
      · exact .inl hs
  have htail : Relative t ∨ t.copyTo = 0 := by
    refine rounds_ok (I := fun d => Relative d ∨ Unwritten p.length d)
      (Q := fun t => Relative t ∨ t.copyTo = 0) ?_ ?_ hleft ht
    · rintro s t hs hst
      rw [tailRound] at hst
      split at hst
      swap
      · cases hst
      rename_i hlt
      rcases of_bind_ok hst with ⟨u,hu,hst⟩
      cases hst
      rcases hs with hs | ⟨hto,hend⟩
      · exact .inl (hs.copy hu)
      · obtain ⟨c,hc,hne⟩ := hend.resolve_left (by omega)
        exact .inl (relative_of_copy hto hc hne hu)
    · rintro s a hs hsa
      rw [tailRound] at hsa
      split at hsa
      · rcases of_bind_ok hsa with ⟨u,-,hsa⟩
        cases hsa
      · cases hsa
        exact hs.imp_right And.left
  rw [of_store_ok hm]
  rcases htail with ht | ht
  · rw [head?_set ht.copyTo]
    exact ht.head
  · rw [ht]
    cases t.mem <;> simp

end Uri
end CtrlPt
