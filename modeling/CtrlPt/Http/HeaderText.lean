import CtrlPt.Http.Chunked
import CtrlPt.Http.Fragmentation

/-! The text of a header block: field names, linear white space, values that may be folded, and
the lines the header loop reads from it. -/
namespace CtrlPt
namespace Http

open CText

/-- Linear white space: blanks, and line breaks in front of them. -/
inductive Lws : List UInt8 → Prop
  | nil : Lws []
  | blank (c : UInt8) (w : List UInt8) (hc : isBlank c = true) (h : Lws w) : Lws (c::w)
  | fold (brk : List UInt8) (c : UInt8) (w : List UInt8) (hb : LineBreak brk)
      (hc : isBlank c = true) (h : Lws w) : Lws (brk++c::w)

/-- `RawText u w`: a value `w` in front of `u`. A line break stands inside quotes, or it is folded. -/
inductive RawText (u : List UInt8) : List UInt8 → Prop
  | nil : RawText u []
  | plain (c : UInt8) (w : List UInt8) (hc : isPlainChar c = true) (h : RawText u w) :
      RawText u (c::w)
  | loneCr (d : UInt8) (v w : List UInt8) (hw : w++u = d::v) (hd : d ≠ lf) (h : RawText u w) :
      RawText u (cr::w)
  | quoted (q w : List UInt8) (hq : QuotedText q) (h : RawText u w) : RawText u (34::(q++34::w))
  | fold (brk : List UInt8) (c : UInt8) (w : List UInt8) (hb : LineBreak brk)
      (hc : isBlank c = true) (h : RawText u w) : RawText u (brk++c::w)

theorem RawText.append {u x y : List UInt8} (hx : RawText (y++u) x) (hy : RawText u y) :
    RawText u (x++y) := by
  induction hx with
  | nil => exact hy
  | plain c w hc _ ih => exact .plain c _ hc ih
  | loneCr d v w hw hd _ ih => exact .loneCr d v (w++y) (by rw [List.append_assoc,hw]) hd ih
  | quoted q w hq _ ih =>
    rw [List.cons_append,List.append_assoc,List.cons_append]
    exact .quoted q _ hq ih
  | fold brk c w hb hc _ ih =>
    rw [List.append_assoc,List.cons_append]
    exact .fold brk c _ hb hc ih

theorem Lws.append {x y : List UInt8} (hx : Lws x) (hy : Lws y) : Lws (x++y) := by
  induction hx with
  | nil => exact hy
  | blank c w hc _ ih => exact .blank c _ hc ih
  | fold brk c w hb hc _ ih =>
    rw [List.append_assoc,List.cons_append]
    exact .fold brk c _ hb hc ih

theorem Lws.of_blanks {w : List UInt8} (h : ∀ c ∈ w, isBlank c = true) : Lws w := by
  induction w with
  | nil => exact .nil
  | cons c w ih => exact .blank c w (h c (by simp)) (ih fun d hd => h d (by simp [hd]))

theorem RawText.of_plain {u w : List UInt8} (h : ∀ c ∈ w, isPlainChar c = true) : RawText u w := by
  induction w with
  | nil => exact .nil
  | cons c w ih => exact .plain c w (h c (by simp)) (ih fun d hd => h d (by simp [hd]))

theorem quotedText_of_end {n m : ℕ} {r : List UInt8} (h : quotedEnd n r = .ok () m) :
    ∃ q v, r = q++34::v ∧ QuotedText q ∧ m = n+q.length+1 := by
  induction n, r using quotedEnd.induct with
  | case1 n => simp [quotedEnd] at h
  | case2 n cs =>
    rw [quotedEnd_cons,if_pos rfl,Scan.ok.injEq] at h
    exact ⟨[],cs,rfl,.nil,h.2.symm⟩
  | case3 n h34 => simp [quotedEnd_cons] at h
  | case4 n d ds h34 ih =>
    rw [quotedEnd_cons,if_neg h34,if_pos rfl] at h
    rcases ih h with ⟨q,v,rfl,hq,rfl⟩
    refine ⟨92::d::q,v,rfl,.escaped d q hq,?_⟩
    simp only [List.length_cons]
    omega
  | case5 n c cs h34 h92 hc ih =>
    rw [quotedEnd_cons,if_neg h34,if_neg h92,if_pos hc] at h
    rcases ih h with ⟨q,v,rfl,hq,rfl⟩
    refine ⟨c::q,v,rfl,.text c q hc h34 h92 hq,?_⟩
    simp only [List.length_cons]
    omega
  | case6 n c cs h34 h92 hc => simp [quotedEnd_cons,h34,h92,hc] at h

theorem isPlainChar_token (c : UInt8) :
    (isIdentifierChar c = true → isPlainChar c = true) ∧
      (isBlank c = true → isPlainChar c = true) ∧
      (isSeparatorChar c = true → c ≠ 34 → isPlainChar c = true) ∧
      (isControlChar c = true → c ≠ cr → c ≠ lf → isPlainChar c = true) :=
  byte_forall (P := fun c => (isIdentifierChar c = true → isPlainChar c = true) ∧
    (isBlank c = true → isPlainChar c = true) ∧
    (isSeparatorChar c = true → c ≠ 34 → isPlainChar c = true) ∧
    (isControlChar c = true → c ≠ cr → c ≠ lf → isPlainChar c = true)) (by decide +kernel) c

theorem scannerGetToken_text {loaded : Bool} {r : List UInt8} {t : Token} {k : ℕ}
    (h : scannerGetToken loaded r = .ok t k) :
    (t.type = .crlf ∧ LineBreak (r.take k)) ∨
    (t.type = .whitespace ∧ (∃ c w, r.take k = c::w) ∧ ∀ c ∈ r.take k, isBlank c = true) ∨
    (t.type ≠ .crlf ∧ t.type ≠ .whitespace ∧ RawText (r.drop k) (r.take k) ∧
      ∃ c w, r = c::w ∧ isBlank c = false ∧ c ≠ lf) := by
  have hrun : ∀ (p : UInt8 → Bool) (c : UInt8) (cs : List UInt8), p c = true →
      (c::cs).take ((cs.takeWhile p).length+1) = c::cs.takeWhile p ∧
        ∀ d ∈ c::cs.takeWhile p, p d = true := by
    intro p c cs hc
    constructor
    · rw [List.take_succ_cons,List.prefix_iff_eq_take.mp (List.takeWhile_prefix p)]
      simp
    · intro d hd
      rcases List.mem_cons.mp hd with rfl | hd
      · exact hc
      · exact List.all_eq_true.mp List.all_takeWhile d hd
  have hid : ∀ c, isIdentifierChar c = true → isBlank c = false ∧ c ≠ lf := fun c =>
    byte_forall (P := fun c => isIdentifierChar c = true → isBlank c = false ∧ c ≠ lf)
      (by decide +kernel) c
  have hsep : ∀ c, isSeparatorChar c = true → c ≠ lf := fun c =>
    byte_forall (P := fun c => isSeparatorChar c = true → c ≠ lf) (by decide +kernel) c
  cases scannerGetToken_at h with
  | crlf cs => exact .inl ⟨rfl,.inl rfl⟩
  | lf cs => exact .inl ⟨rfl,.inr rfl⟩
  | whitespace c cs hc hend =>
    rcases hrun isBlank c cs hc with ⟨htake,hall⟩
    rw [htake]
    exact .inr (.inl ⟨rfl,⟨c,_,rfl⟩,hall⟩)
  | identifier c cs hc hend =>
    rcases hrun isIdentifierChar c cs hc with ⟨htake,hall⟩
    rw [htake]
    refine .inr (.inr ⟨(by rintro ⟨⟩),(by rintro ⟨⟩),?_,c,cs,rfl,hid c hc⟩)
    exact .of_plain fun d hd => (isPlainChar_token d).1 (hall d hd)
  | loneCr d cs hd =>
    refine .inr (.inr ⟨(by rintro ⟨⟩),(by rintro ⟨⟩),?_,cr,d::cs,rfl,by decide⟩)
    exact .loneCr d cs [] rfl hd .nil
  | quoted cs n hq =>
    rcases quotedText_of_end hq with ⟨q,v,rfl,hqt,rfl⟩
    refine .inr (.inr ⟨(by rintro ⟨⟩),(by rintro ⟨⟩),?_,34,_,rfl,by decide⟩)
    have htake : (34::(q++34::v)).take (1+q.length+1) = 34::(q++34::[]) := by
      rw [show 1+q.length+1 = (q.length+1)+1 by omega,List.take_succ_cons,List.take_append]
      simp
    rw [htake]
    exact .quoted q [] hqt .nil
  | separator c cs hc hb hq =>
    refine .inr (.inr ⟨(by rintro ⟨⟩),(by rintro ⟨⟩),?_,c,cs,rfl,hb,hsep c hc⟩)
    exact .plain c [] ((isPlainChar_token c).2.2.1 hc hq) .nil
  | ctrl c cs hc hb hcr hlf =>
    refine .inr (.inr ⟨(by rintro ⟨⟩),(by rintro ⟨⟩),?_,c,cs,rfl,hb,hlf⟩)
    exact .plain c [] ((isPlainChar_token c).2.2.2 hc hcr hlf) .nil

theorem scannerGetToken_blank {loaded : Bool} {c : UInt8} {v : List UInt8} {t : Token} {k : ℕ}
    (h : scannerGetToken loaded (c::v) = .ok t k) (hc : isBlank c = true) :
    t.type = .whitespace := by
  rcases scannerGetToken_text h with ⟨hty,hb⟩ | ⟨hty,-,-⟩ | ⟨-,-,-,d,w,he,hd,-⟩
  · have hk := (scannerGetToken_ok h).1
    obtain ⟨j,rfl⟩ : ∃ j, k = j+1 := ⟨k-1,by omega⟩
    rw [List.take_succ_cons] at hb
    rcases hb.head with ⟨d,u,he,hd⟩
    simp only [List.cons.injEq] at he
    rw [he.1] at hc
    rcases hd with rfl | rfl <;> exact absurd hc (by decide)
  · exact hty
  · simp only [List.cons.injEq] at he
    rw [← he.1,hc] at hd
    cases hd

theorem LineBreak.ne_nil {b : List UInt8} (h : LineBreak b) : b ≠ [] := by
  rcases h with rfl | rfl <;> simp

/-- Nothing of linear white space begins here. -/
structure NoLws (s : List UInt8) : Prop where
  blank : ∀ c v, s = c::v → isBlank c = false
  fold : ∀ brk c v, LineBreak brk → s = brk++c::v → isBlank c = false

theorem LineBreak.append_inj {b b' u u' : List UInt8} (hb : LineBreak b) (hb' : LineBreak b')
    (h : b++u = b'++u') : b = b' ∧ u = u' := by
  have hne : cr ≠ lf := by decide
  rcases hb with rfl | rfl <;> rcases hb' with rfl | rfl
  · simpa using h
  · simp only [List.cons_append,List.cons.injEq] at h
    exact absurd h.1 hne
  · simp only [List.cons_append,List.cons.injEq] at h
    exact absurd h.1.symm hne
  · simpa using h

theorem drop_of_take {r mid : List UInt8} {q n : ℕ} (h : r.take n = r.take q++mid) :
    r.drop q = mid++r.drop n := by
  have hr : r.take q++r.drop q = r.take q++(mid++r.drop n) := by
    rw [← List.append_assoc,← h,List.take_append_drop,List.take_append_drop]
  exact List.append_cancel_left hr

theorem Lws.of_token {mid w : List UInt8} (hm : mid = [] ∨ LineBreak mid) (hne : w ≠ [])
    (hw : ∀ c ∈ w, isBlank c = true) : Lws (mid++w) := by
  rcases hm with rfl | hm
  · exact .of_blanks hw
  · cases w with
    | nil => exact absurd rfl hne
    | cons c w => exact .fold mid c w hm (hw c (by simp)) (.of_blanks fun d hd => hw d (by simp [hd]))

theorem RawText.of_lws {u w : List UInt8} (h : Lws w) : RawText u w := by
  induction h with
  | nil => exact .nil
  | blank c w hc _ ih => exact .plain c w ((isPlainChar_token c).2.1 hc) ih
  | fold brk c w hb hc _ ih => exact .fold brk c w hb hc ih

/-- The end of linear white space: a token other than a blank, behind at most one line break. -/
theorem NoLws.of_token {mid s : List UInt8} {t : Token} {k : ℕ} (hm : mid = [] ∨ LineBreak mid)
    (ht : scannerGetToken false s = .ok t k) (hw : t.type ≠ .whitespace)
    (hc : mid = [] → t.type ≠ .crlf) : NoLws (mid++s) := by
  have hblank : ∀ c v, s = c::v → isBlank c = false := by
    rintro c v rfl
    by_contra hb
    exact hw (scannerGetToken_blank ht (by simpa using hb))
  constructor
  · intro c v he
    rcases hm with rfl | hm
    · exact hblank c v he
    · rcases hm.head with ⟨d,u,rfl,hd⟩
      rw [List.cons_append,List.cons.injEq] at he
      rw [← he.1]
      rcases hd with rfl | rfl <;> decide
  · intro brk c v hb he
    rcases hm with rfl | hm
    · have htok := hb.token (c::v)
      rw [← he,List.nil_append,ht] at htok
      cases htok
      exact absurd rfl (hc rfl)
    · exact hblank c v (hm.append_inj hb he).2

/-- What `LWS*` takes. -/
theorem skipLws_ok {r : List UInt8} {a : ℕ} (h : skipLws false r = .ok () a) :
    Lws (r.take a) ∧ NoLws (r.drop a) := by
  revert h
  refine readFrom_rule (f := _) r
    (I := fun (s : ℕ × Bool) n => Lws (r.take s.1) ∧ (s.2 = false → s.1 = n) ∧
      ∃ mid, r.take n = r.take s.1++mid ∧ (mid = [] ∨ LineBreak mid) ∧ (mid = [] → s.2 = false))
    (Q := fun x : Scan Unit => x = .ok () a → _) ?_ ?_ ?_ (0,false) 0 (Nat.zero_le _)
    ⟨.nil,fun _ => rfl,[],rfl,.inl rfl,fun _ => rfl⟩
  · rintro ⟨q,f⟩ n t k s' hnk ht ⟨hl,hqn,mid,hmid,hm,hf⟩ ho
    have htake : r.take (n+k) = r.take n++(r.drop n).take k := List.take_add
    have hlen : t.text.length = k := by
      rw [(scannerGetToken_ok ht).2.2,List.length_take,List.length_drop]
      omega
    simp only at ho hl hqn hmid hf
    split at ho
    · rename_i hty
      cases ho
      rcases scannerGetToken_text ht with ⟨hc,-⟩ | ⟨-,⟨c,w,hcw⟩,hb⟩ | ⟨-,hc,-,-⟩
      · rw [hty] at hc
        cases hc
      · simp only [hlen]
        refine ⟨?_,fun _ => trivial,[],by simp,.inl rfl,fun _ => trivial⟩
        rw [htake,hmid,List.append_assoc]
        exact hl.append (.of_token hm (by simp [hcw]) hb)
      · exact absurd hty hc
    split at ho
    · rename_i hty
      cases ho
      obtain rfl := hqn hty.2
      rcases scannerGetToken_text ht with ⟨-,hb⟩ | ⟨hc,-,-⟩ | ⟨hc,-,-,-⟩
      · exact ⟨hl,(by rintro ⟨⟩),_,htake,.inr hb,fun he => absurd he hb.ne_nil⟩
      · rw [hty.1] at hc
        cases hc
      · exact absurd hty.1 hc
    · cases ho
  · rintro ⟨q,f⟩ n t k x hnk ht ⟨hl,hqn,mid,hmid,hm,hf⟩ ho he
    simp only at ho hl hqn hmid hf
    split at ho
    · cases ho
    rename_i hw
    split at ho
    · cases ho
    rename_i hc
    cases ho
    cases he
    refine ⟨hl,?_⟩
    rw [drop_of_take hmid]
    exact .of_token hm ht hw fun hnil hty => hc ⟨hty,hf hnil⟩
  · rintro ⟨q,f⟩ n st k hn ht - he
    simp at he

/-- What `%R` has read: text, or text and a line break that may end it. -/
def RawRead (r : List UInt8) : Option ℕ → ℕ → Prop
  | none, n => RawText (r.drop n) (r.take n)
  | some q, n => RawText (r.drop q) (r.take q) ∧ ∃ brk, LineBreak brk ∧ r.take n = r.take q++brk

/-- What `%R` takes, up to the line break that ends it. -/
theorem rawValueLength_text {r : List UInt8} {len q : ℕ}
    (h : rawValueLength false r = .ok len q) :
    ∃ brk, RawText (r.drop q) (r.take q) ∧ LineBreak brk ∧ r.take len = r.take q++brk ∧
      ∀ c v, r.drop len = c::v → isBlank c = false := by
  revert h
  refine readFrom_rule (f := _) r (I := RawRead r) (Q := fun x : Scan ℕ => x = .ok len q → _)
    ?_ ?_ ?_ none 0 (Nat.zero_le _) .nil
  · rintro s n t k s' hnk ht hs ho
    have htake : r.take (n+k) = r.take n++(r.drop n).take k := List.take_add
    have hdrop : r.drop n = (r.drop n).take k++r.drop (n+k) := by
      rw [← List.drop_drop,List.take_append_drop]
    cases s with
    | none =>
      simp only [RawRead] at ho hs
      rcases scannerGetToken_text ht with ⟨hty,hb⟩ | ⟨hty,-,hb⟩ | ⟨hty,-,hraw,-⟩
      · rw [if_pos hty] at ho
        cases ho
        exact ⟨hs,_,hb,htake⟩
      · rw [if_neg (by rw [hty]; decide)] at ho
        cases ho
        simp only [RawRead]
        rw [htake]
        rw [hdrop] at hs
        exact hs.append (.of_lws (.of_blanks hb))
      · rw [if_neg hty] at ho
        cases ho
        simp only [RawRead]
        rw [htake]
        rw [List.drop_drop] at hraw
        rw [hdrop] at hs
        exact hs.append hraw
    | some q =>
      simp only [RawRead] at ho hs
      split at ho
      · rename_i hty
        cases ho
        rcases hs with ⟨hs,brk,hb,hbrk⟩
        rcases scannerGetToken_text ht with ⟨hc,-⟩ | ⟨-,⟨c,w,hcw⟩,hbl⟩ | ⟨-,hc,-,-⟩
        · rw [hty] at hc
          cases hc
        · simp only [RawRead]
          rw [htake,hbrk,List.append_assoc]
          rw [drop_of_take hbrk,hdrop,← List.append_assoc] at hs
          exact hs.append (.of_lws (.of_token (.inr hb) (by simp [hcw]) hbl))
        · exact absurd hty hc
      · cases ho
  · rintro s n t k x hnk ht hs ho he
    cases s with
    | none =>
      simp only at ho
      split at ho <;> cases ho
    | some q =>
      simp only [RawRead] at ho hs
      split at ho
      · cases ho
      · rename_i hw
        cases ho
        cases he
        rcases hs with ⟨hs,brk,hb,hbrk⟩
        refine ⟨brk,hs,hb,hbrk,fun c v hcv => ?_⟩
        rw [hcv] at ht
        by_contra hbl
        exact hw (scannerGetToken_blank ht (by simpa using hbl))
  · rintro s n st k hn ht hs he
    simp at he

theorem trimRight_append {w t : List UInt8}
    (h : ∀ c ∈ t, (c == 32 || c == 9 || c == cr || c == lf) = true) :
    trimRight (w++t) = trimRight w := by
  unfold trimRight
  rw [List.reverse_append,List.dropWhile_append_of_pos fun c hc => h c (List.mem_reverse.mp hc)]

/-- A header line in front of `rest`: a name, a colon, and a value that ends at the first line
break outside quotes that is not folded. -/
structure HeaderLine (line rest name value : List UInt8) : Prop where
  name_ne : name ≠ []
  name_chars : ∀ c ∈ name, isIdentifierChar c = true
  parts : ∃ a b raw brk, line = name++(a++58::(b++(raw++brk))) ∧ Lws a ∧ Lws b ∧ LineBreak brk ∧
    NoLws (raw++(brk++rest)) ∧ RawText (brk++rest) raw ∧ value = trimRight raw
  unfolded : ∀ c v, rest = c::v → isBlank c = false

/-- A header block in front of `rest`, and its fields in order. -/
inductive HeaderBlock : List UInt8 → List (List UInt8 × List UInt8) → List UInt8 → Prop
  | done (brk rest : List UInt8) (hb : LineBreak brk) : HeaderBlock (brk++rest) [] rest
  | line (line name value r rest : List UInt8) (fields : List (List UInt8 × List UInt8))
      (hl : HeaderLine line r name value) (h : HeaderBlock r fields rest) :
      HeaderBlock (line++r) ((name,value)::fields) rest

theorem headerFmt_ok {r : List UInt8} (h : (scannerMatch headerFmt r).status = .ok) :
    ∃ a b raw brk, r = (a++58::(b++(raw++brk)))++r.drop (scannerMatch headerFmt r).used ∧ Lws a ∧
      Lws b ∧ LineBreak brk ∧ NoLws (raw++(brk++r.drop (scannerMatch headerFmt r).used)) ∧
      RawText (brk++r.drop (scannerMatch headerFmt r).used) raw ∧
      ((scannerMatch headerFmt r).textAt 0).2 = trimRight raw ∧
      ∀ c v, r.drop (scannerMatch headerFmt r).used = c::v → isBlank c = false := by
  have hfmt : headerFmt = [.lws,.char 58,.lws,.raw,.crlf] := rfl
  simp only [scannerMatch,vfmatch,hfmt,vfmatchFrom,directive] at h ⊢
  cases h1 : skipLws false r with
  | stop st k => simp only [h1] at h; exact absurd h (status_ne_ok st)
  | ok u1 a =>
  simp only [h1] at h ⊢
  cases h2 : matchChar 58 (nextCase true .lws) (r.drop a) with
  | stop st k => simp only [h2] at h; exact absurd h (status_ne_ok st)
  | ok u2 k2 =>
  simp only [h2] at h ⊢
  cases h3 : skipLws false ((r.drop a).drop k2) with
  | stop st k => simp only [h3] at h; exact absurd h (status_ne_ok st)
  | ok u3 b =>
  simp only [h3] at h ⊢
  cases h4 : matchRawValue false (((r.drop a).drop k2).drop b) with
  | stop st k => simp only [h4,Scan.store] at h; exact absurd h (status_ne_ok st)
  | ok v q =>
  simp only [h4,Scan.store] at h ⊢
  cases h5 : expectToken false .crlf ((((r.drop a).drop k2).drop b).drop q) with
  | stop st k => simp only [h5] at h; exact absurd h (status_ne_ok st)
  | ok t k =>
  simp only
  have hcolon : ∃ v, r.drop a = 58::v ∧ k2 = 1 := by
    cases hr : r.drop a with
    | nil => simp [hr,matchChar] at h2
    | cons d v =>
      simp only [hr,matchChar,nextCase,if_true] at h2
      split at h2
      · rename_i hd
        cases h2
        exact ⟨v,by rw [hd],rfl⟩
      · cases h2
  rcases hcolon with ⟨r₂,hr₂,rfl⟩
  have hdrop : (r.drop a).drop 1 = r₂ := by rw [hr₂]; rfl
  rw [hdrop] at h3 h4 h5
  rcases skipLws_ok h1 with ⟨ha,-⟩
  rcases skipLws_ok h3 with ⟨hb,hno⟩
  generalize hr₃ : r₂.drop b = r₃ at h4 h5 hno
  have hraw : ∃ len, rawValueLength false r₃ = .ok len q ∧ v = trimRight (r₃.take len) := by
    simp only [matchRawValue] at h4
    split at h4
    · rename_i len n hl
      cases h4
      exact ⟨len,hl,rfl⟩
    · cases h4
  rcases hraw with ⟨len,hlen,rfl⟩
  rcases rawValueLength_text hlen with ⟨brk,hraw,hbrk,htake,hrest⟩
  have hq := drop_of_take htake
  have hk : k = brk.length := by
    have htok := hbrk.token (r₃.drop len)
    rw [← hq,(expectToken_ok h5).1] at htok
    cases htok
    rfl
  have hused : r.drop (0+a+1+b+q+k) = r₃.drop len := by
    rw [Nat.zero_add,← List.drop_drop,← List.drop_drop,← List.drop_drop,← List.drop_drop,hdrop,hr₃,
      hq,hk,List.drop_left]
  have hsplit : r₃ = r₃.take q++(brk++r₃.drop len) := by rw [← hq,List.take_append_drop]
  rw [hused]
  refine ⟨r.take a,r₂.take b,r₃.take q,brk,?_,ha,hb,hbrk,?_,?_,?_,hrest⟩
  · have hr : r = r.take a++58::r₂ := by rw [← hr₂,List.take_append_drop]
    have hr2 : r₂ = r₂.take b++r₃ := by rw [← hr₃,List.take_append_drop]
    nth_rewrite 1 [hr,hr2,hsplit]
    simp only [List.append_assoc,List.cons_append]
  · rwa [← hsplit]
  · rwa [← hq]
  · have hbreak : ∀ c ∈ brk, (c == 32 || c == 9 || c == cr || c == lf) = true := by
      rcases hbrk with rfl | rfl <;> decide
    change trimRight (r₃.take len) = trimRight (r₃.take q)
    rw [htake,trimRight_append hbreak]

theorem headerRound_line {p q : HttpParser} (h : headerRound p = .inl q) :
    ∃ line name value, p.rest = line++q.rest ∧ HeaderLine line q.rest name value ∧
      q.msg.headers = addHeader p.msg.headers name value := by
  rcases headerRound_cases p with ⟨st,n,-,he⟩ | ⟨t,n,ht,⟨-,he⟩ | ⟨-,-,he⟩ | ⟨hty,hm,he⟩ | ⟨-,-,he⟩⟩ <;>
    rw [he] at h <;> cases h
  rcases headerFmt_ok hm with ⟨a,b,raw,brk,hr,ha,hb,hbrk,hno,hraw,hv,hrest⟩
  have hname : t.text = p.rest.take n ∧ t.text ≠ [] ∧ ∀ c ∈ t.text, isIdentifierChar c = true := by
    refine ⟨(scannerGetToken_ok ht).2.2,?_⟩
    rcases scannerGetToken_identifier ht hty with ⟨c,s,d,u,-,-,htext,hall,-⟩
    rw [htext]
    exact ⟨by simp,hall⟩
  rcases hname with ⟨htext,hne,hall⟩
  have hq : ∀ k : ℕ, (addHeaderLine ((p.advance n).advance k) t.text
      ((scannerMatch headerFmt (p.advance n).rest).textAt 0).2).rest = (p.advance n).rest.drop k := by
    intro k
    exact HttpParser.rest_advance (p.advance n) k
  refine ⟨t.text++(a++58::(b++(raw++brk))),t.text,_,?_,?_,rfl⟩
  · rw [hq,List.append_assoc,← hr,HttpParser.rest_advance,htext,List.take_append_drop]
  · refine ⟨hne,hall,⟨a,b,raw,brk,rfl,ha,hb,hbrk,?_,?_,hv⟩,?_⟩
    · rwa [hq]
    · rwa [hq]
    · rwa [hq]

/-- An accepted header block, and the list that is made of it. -/
theorem parserParseHeaders_block {p : HttpParser}
    (h : (parserParseHeaders p).1 = .ok ∨ (parserParseHeaders p).1 = .success) :
    ∃ fields, HeaderBlock p.rest fields (parserParseHeaders p).2.rest ∧
      (parserParseHeaders p).2.msg.headers =
        fields.foldl (fun l f => addHeader l f.1 f.2) p.msg.headers := by
  have hrun := Loop.run_induction headerRound_descends
    (e := fun q : HttpParser => (ParseStatus.failure,q))
    (P := fun p r => (r.1 = .ok ∨ r.1 = .success) → ∃ fields, HeaderBlock p.rest fields r.2.rest ∧
      r.2.msg.headers = fields.foldl (fun l f => addHeader l f.1 f.2) p.msg.headers) ?_ ?_ p
  · exact hrun h
  · intro p r hr hok
    rcases headerRound_cases p with
      ⟨st,n,-,he⟩ | ⟨t,n,ht,⟨hty,he⟩ | ⟨-,hm,he⟩ | ⟨-,-,he⟩ | ⟨-,-,he⟩⟩ <;> rw [he] at hr <;> cases hr
    · exfalso
      cases st <;> rcases hok with hok | hok <;> cases hok
    · have hend : (endHeaders (p.advance n)).2.rest = p.rest.drop n ∧
          (endHeaders (p.advance n)).2.msg.headers = p.msg.headers := by
        rw [← HttpParser.rest_advance]
        unfold endHeaders
        split <;> exact ⟨rfl,rfl⟩
      refine ⟨[],?_,hend.2⟩
      have hbrk : LineBreak (p.rest.take n) := by
        rcases scannerGetToken_text ht with ⟨-,hb⟩ | ⟨hc,-,-⟩ | ⟨hc,-,-,-⟩
        · exact hb
        · rw [hty] at hc
          cases hc
        · exact absurd hty hc
      rw [hend.1]
      nth_rewrite 1 [← List.take_append_drop n p.rest]
      exact .done _ _ hbrk
    · exfalso
      rcases scannerMatch_status headerFmt (p.advance n).rest with hs | ⟨st,hs⟩
      · exact hm hs
      · simp only [hs] at hok
        cases st <;> rcases hok with hok | hok <;> cases hok
    · rcases hok with hok | hok <;> cases hok
  · intro p q hq ih hok
    rcases headerRound_line hq with ⟨line,name,value,hr,hl,hh⟩
    rcases ih hok with ⟨fields,hb,hf⟩
    refine ⟨(name,value)::fields,?_,?_⟩
    · rw [hr]
      exact .line line name value _ _ fields hl hb
    · rw [hf,hh]
      rfl

theorem takeWhile_append_stop {p : UInt8 → Bool} {x y : List UInt8} (hx : ∀ c ∈ x, p c = true)
    (hy : ∀ c v, y = c::v → p c = false) : (x++y).takeWhile p = x := by
  rw [List.takeWhile_append_of_pos hx]
  cases y with
  | nil => rw [List.takeWhile_nil,List.append_nil]
  | cons c v => rw [List.takeWhile_cons_of_neg (by simp [hy c v rfl]),List.append_nil]

theorem run_unique {p : UInt8 → Bool} {x x' y y' : List UInt8} (h : x++y = x'++y')
    (hx : ∀ c ∈ x, p c = true) (hx' : ∀ c ∈ x', p c = true)
    (hy : ∀ c v, y = c::v → p c = false) (hy' : ∀ c v, y' = c::v → p c = false) :
    x = x' ∧ y = y' := by
  have hrun : x = x' := by
    rw [← takeWhile_append_stop hx hy,h,takeWhile_append_stop hx' hy']
  subst hrun
  exact ⟨rfl,List.append_cancel_left h⟩

theorem LineBreak.chars {b : List UInt8} (h : LineBreak b) : ∀ c ∈ b, c = cr ∨ c = lf := by
  rcases h with rfl | rfl <;> simp

theorem not_blank_of_break {c : UInt8} (h : c = cr ∨ c = lf) :
    isBlank c = false ∧ isIdentifierChar c = false ∧ isPlainChar c = false ∧ c ≠ 34 := by
  rcases h with rfl | rfl <;> decide

theorem isIdentifierChar_of_blank (c : UInt8) (h : isBlank c = true) :
    isIdentifierChar c = false := by
  revert h
  exact byte_forall (P := fun c => isBlank c = true → isIdentifierChar c = false)
    (by decide +kernel) c

theorem Lws.chars {a : List UInt8} (h : Lws a) :
    ∀ c ∈ a, (isBlank c || c == cr || c == lf) = true := by
  induction h with
  | nil => simp
  | blank c w hc _ ih =>
    intro d hd
    rcases List.mem_cons.mp hd with rfl | hd
    · simp [hc]
    · exact ih d hd
  | fold brk c w hb hc _ ih =>
    intro d hd
    rcases List.mem_append.mp hd with hd | hd
    · rcases hb.chars d hd with rfl | rfl <;> decide
    · rcases List.mem_cons.mp hd with rfl | hd
      · simp [hc]
      · exact ih d hd

theorem Lws.unique {a a' u u' : List UInt8} (h : Lws a) (h' : Lws a') (he : a++u = a'++u')
    (hu : NoLws u) (hu' : NoLws u') : a = a' ∧ u = u' := by
  induction h generalizing a' with
  | nil =>
    cases h' with
    | nil => exact ⟨rfl,he⟩
    | blank c w hc _ =>
      have hb := hu.blank c (w++u') he
      rw [hc] at hb
      cases hb
    | fold brk c w hb hc _ =>
      have hf := hu.fold brk c (w++u') hb (by simpa using he)
      rw [hc] at hf
      cases hf
  | blank c w hc _ ih =>
    cases h' with
    | nil =>
      have hb := hu'.blank c (w++u) he.symm
      rw [hc] at hb
      cases hb
    | blank c' w' _ hw' =>
      simp only [List.cons_append,List.cons.injEq] at he
      rcases ih hw' he.2 with ⟨rfl,rfl⟩
      exact ⟨by rw [he.1],rfl⟩
    | fold brk c' w' hb _ _ =>
      rcases hb.head with ⟨d,v,rfl,hd⟩
      simp only [List.cons_append,List.cons.injEq] at he
      rw [he.1,(not_blank_of_break hd).1] at hc
      cases hc
  | fold brk c w hb hc _ ih =>
    cases h' with
    | nil =>
      have hf := hu'.fold brk c (w++u) hb (by simpa using he.symm)
      rw [hc] at hf
      cases hf
    | blank c' w' hc' _ =>
      rcases hb.head with ⟨d,v,rfl,hd⟩
      simp only [List.cons_append,List.cons.injEq] at he
      rw [← he.1,(not_blank_of_break hd).1] at hc'
      cases hc'
    | fold brk' c' w' hb' _ hw' =>
      rw [List.append_assoc,List.append_assoc] at he
      rcases hb.append_inj hb' he with ⟨rfl,hw⟩
      simp only [List.cons_append,List.cons.injEq] at hw
      rcases ih hw' hw.2 with ⟨rfl,rfl⟩
      exact ⟨by rw [hw.1],rfl⟩

/-- A line break that no blank follows. -/
structure LineEnd (u : List UInt8) : Prop where
  parts : ∃ brk r, u = brk++r ∧ LineBreak brk ∧ ∀ c v, r = c::v → isBlank c = false

/-- The bytes that belong together at the head of a value, none at the end of its line. -/
def rawPiece : List UInt8 → ℕ
  | [] => 0
  | c::r =>
    if c = 34 then
      match quotedEnd 1 r with
      | .ok _ n => n
      | .stop _ _ => 0
    else if c = cr then
      if r.headD 0 ≠ lf then 1
      else if isBlank (r.tail.headD 0) then 3 else 0
    else if c = lf then
      if isBlank (r.headD 0) then 2 else 0
    else 1

theorem LineEnd.piece {u : List UInt8} (h : LineEnd u) : rawPiece u = 0 := by
  rcases h.parts with ⟨brk,r,rfl,hb,hr⟩
  have hblank : isBlank (r.head?.getD 0) = false := by
    cases r with
    | nil => rfl
    | cons c v => exact hr c v rfl
  have hcr : cr ≠ 34 ∧ lf ≠ 34 ∧ lf ≠ cr := by decide
  rcases hb with rfl | rfl
  · simp [rawPiece,hcr,hblank]
  · simp [rawPiece,hcr,hblank]

theorem RawText.piece {u w : List UInt8} (h : RawText u w) (hw : w ≠ []) :
    0 < rawPiece (w++u) ∧ rawPiece (w++u) ≤ w.length ∧
      RawText u (w.drop (rawPiece (w++u))) := by
  have hcr : cr ≠ 34 ∧ lf ≠ 34 ∧ lf ≠ cr := by decide
  cases h with
  | nil => exact absurd rfl hw
  | plain c w hc h =>
    have hne : c ≠ 34 ∧ c ≠ cr ∧ c ≠ lf := by
      refine ⟨?_,?_,?_⟩ <;> (rintro rfl; exact absurd hc (by decide))
    have hp : rawPiece (c::w++u) = 1 := by simp [rawPiece,hne]
    rw [hp]
    exact ⟨Nat.one_pos,by simp,h⟩
  | loneCr d v w hd hlf h =>
    have hp : rawPiece (cr::w++u) = 1 := by simp [rawPiece,hcr,hd,hlf]
    rw [hp]
    exact ⟨Nat.one_pos,by simp,h⟩
  | quoted q w hq h =>
    have hq' : quotedEnd 1 ((q++34::w)++u) = .ok () (1+q.length+1) := by
      rw [List.append_assoc,List.cons_append]
      exact hq.quotedEnd 1 (w++u)
    have hp : rawPiece (34::(q++34::w)++u) = 1+q.length+1 := by
      simp only [List.cons_append,rawPiece,if_true,hq']
    have hdrop : (34::(q++34::w)).drop (1+q.length+1) = w := by
      rw [show 1+q.length+1 = (q++[34]).length+1 by simp; omega,List.drop_succ_cons,
        show q++34::w = (q++[34])++w by simp,List.drop_left]
    rw [hp,hdrop]
    refine ⟨by omega,?_,h⟩
    simp only [List.length_cons,List.length_append]
    omega
  | fold brk c w hb hc h =>
    have hp : rawPiece (brk++c::w++u) = brk.length+1 := by
      rcases hb with rfl | rfl
      · simp [rawPiece,hcr,hc]
      · simp [rawPiece,hcr,hc]
    have hdrop : (brk++c::w).drop (brk.length+1) = w := by
      rw [← List.drop_drop,List.drop_left]
      rfl
    rw [hp,hdrop]
    refine ⟨Nat.succ_pos _,?_,h⟩
    simp only [List.length_append,List.length_cons]
    omega

/-- A value ends at the first line break outside quotes that is not folded. -/
theorem RawText.unique {u u' w w' : List UInt8} (h : RawText u w) (h' : RawText u' w')
    (he : w++u = w'++u') (hu : LineEnd u) (hu' : LineEnd u') : u = u' := by
  induction hn : w.length using Nat.strong_induction_on generalizing w w' with
  | _ n ih =>
    subst hn
    by_cases hw : w = []
    · subst hw
      by_cases hw' : w' = []
      · simpa [hw'] using he
      · have hp := (h'.piece hw').1
        rw [← he,List.nil_append,hu.piece] at hp
        exact absurd hp (Nat.lt_irrefl 0)
    · have hp := h.piece hw
      have hw' : w' ≠ [] := by
        rintro rfl
        rw [he,List.nil_append,hu'.piece] at hp
        exact absurd hp.1 (Nat.lt_irrefl 0)
      have hp' := h'.piece hw'
      rw [← he] at hp'
      refine ih _ ?_ hp.2.2 hp'.2.2 ?_ rfl
      · rw [List.length_drop]
        have hpos : 0 < w.length := List.length_pos_of_ne_nil hw
        omega
      · rw [← List.drop_append_of_le_length hp.2.1,← List.drop_append_of_le_length hp'.2.1,he]

theorem HeaderLine.unique {line line' r r' name name' value value' : List UInt8}
    (h : HeaderLine line r name value) (h' : HeaderLine line' r' name' value')
    (he : line++r = line'++r') : r = r' := by
  rcases h.parts with ⟨a,b,raw,brk,rfl,ha,hb,hbrk,hno,hraw,-⟩
  rcases h'.parts with ⟨a',b',raw',brk',rfl,ha',hb',hbrk',hno',hraw',-⟩
  have hcolon : isIdentifierChar 58 = false ∧
      (isBlank 58 || (58 : UInt8) == cr || (58 : UInt8) == lf) = false := by decide
  have hstop : ∀ {a t : List UInt8}, Lws a → ∀ c v, a++58::t = c::v → isIdentifierChar c = false := by
    intro a t ha c v hcv
    cases ha with
    | nil =>
      simp only [List.nil_append,List.cons.injEq] at hcv
      rw [← hcv.1]
      exact hcolon.1
    | blank d w hd _ =>
      simp only [List.cons_append,List.cons.injEq] at hcv
      rw [← hcv.1]
      exact isIdentifierChar_of_blank d hd
    | fold brk d w hb _ _ =>
      rcases hb.head with ⟨e,v',rfl,hev⟩
      simp only [List.cons_append,List.cons.injEq] at hcv
      rw [← hcv.1]
      exact (not_blank_of_break hev).2.1
  simp only [List.append_assoc,List.cons_append] at he
  rcases run_unique he h.name_chars h'.name_chars (hstop ha) (hstop ha') with ⟨-,hea⟩
  have hend : ∀ t c v, (58 : UInt8)::t = c::v → (isBlank c || c == cr || c == lf) = false := by
    rintro t c v hcv
    rw [List.cons.injEq] at hcv
    rw [← hcv.1]
    exact hcolon.2
  rcases run_unique hea ha.chars ha'.chars (hend _) (hend _) with ⟨-,heb⟩
  simp only [List.cons.injEq,true_and] at heb
  have her := (hb.unique hb' heb hno hno').2
  have hu := hraw.unique hraw' her ⟨brk,r,rfl,hbrk,h.unfolded⟩ ⟨brk',r',rfl,hbrk',h'.unfolded⟩
  exact (hbrk.append_inj hbrk' hu).2

/-- A header block ends at one place only. -/
theorem HeaderBlock.unique {r w w' : List UInt8} {f f' : List (List UInt8 × List UInt8)}
    (h : HeaderBlock r f w) (h' : HeaderBlock r f' w') : w = w' := by
  have hline : ∀ {brk rest line r name value : List UInt8}, LineBreak brk →
      HeaderLine line r name value → brk++rest ≠ line++r := by
    intro brk rest line r name value hb hl he
    rcases hl.parts with ⟨a,b,raw,brk',rfl,-⟩
    obtain ⟨c,n,hn⟩ := List.exists_cons_of_ne_nil hl.name_ne
    rcases hb.head with ⟨d,v,rfl,hd⟩
    have hc := hl.name_chars c (by simp [hn])
    simp only [hn,List.cons_append,List.cons.injEq] at he
    rw [← he.1,(not_blank_of_break hd).2.1] at hc
    cases hc
  generalize hr : r = s at h'
  induction h generalizing s f' with
  | done brk rest hb =>
    cases h' with
    | done brk' rest' hb' => exact (hb.append_inj hb' hr).2
    | line line name value r rest fields hl _ => exact absurd hr (hline hb hl)
  | line line name value r rest fields hl _ ih =>
    cases h' with
    | done brk' rest' hb' => exact absurd hr.symm (hline hb' hl)
    | line line' name' value' r' rest' fields' hl' h' => exact ih _ (hl.unique hl' hr) h'

end Http
end CtrlPt
