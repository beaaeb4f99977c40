import CtrlPt.CText

/-! The segments of a path and what is left of them when `.` and `..` are resolved. -/
namespace CtrlPt
namespace Uri

/-- A path ends at its query or at the fragment. -/
def isPathEnd (c : UInt8) : Bool := c == 63 || c == 35

def pathPart (s : List UInt8) : List UInt8 := s.takeWhile fun c => !isPathEnd c

def pathRest (s : List UInt8) : List UInt8 := s.dropWhile fun c => !isPathEnd c

/-- The segments of a path that begins with a slash. -/
def pathSegments (s : List UInt8) : List (List UInt8) := (pathPart s).tail.splitOn 47

def joinPath (segs : List (List UInt8)) : List UInt8 := segs.flatMap fun seg => 47::seg

def isDots (seg : List UInt8) : Bool := seg == [46] || seg == [46,46]

/-- One segment and the stack of those before it; `..` at the root is an error. -/
def dotStep (acc : List (List UInt8)) (seg : List UInt8) : Option (List (List UInt8)) :=
  if seg = [46] then some acc
  else if seg = [46,46] then if acc = [] then none else some acc.tail
  else some (seg::acc)

/-- All segments from left to right; `.` or `..` at the end leaves an empty segment. -/
def removeDotSegments (segs : List (List UInt8)) : Option (List (List UInt8)) :=
  (segs.foldlM dotStep []).map fun acc =>
    (if isDots (segs.getLastD []) then []::acc else acc).reverse

/-- A path with its dots resolved, and what follows it. -/
def withoutDots (s : List UInt8) : Option (List UInt8) :=
  (removeDotSegments (pathSegments s)).map fun segs => joinPath segs++pathRest s

/-- The bytes a segment may have. -/
def SegmentChars (seg : List UInt8) : Prop := ∀ c ∈ seg, c ≠ 47 ∧ isPathEnd c = false

example : removeDotSegments [[97],[46,46],[98],[46]] = some [[98],[]] := by decide

@[simp] theorem pathPart_append (s : List UInt8) : pathPart s++pathRest s = s :=
  List.takeWhile_append_dropWhile

theorem pathRest_head (s : List UInt8) : ∀ c v, pathRest s = c::v → isPathEnd c = true := by
  intro c v h
  have hne := List.head_dropWhile_not (fun c => !isPathEnd c) (l := s) (by rw [pathRest] at h; simp [h])
  simpa [← pathRest.eq_1,h] using hne

theorem joinPath_intercalate (w : List UInt8) (ws : List (List UInt8)) :
    joinPath (w::ws) = 47::[47].intercalate (w::ws) := by
  induction ws generalizing w with
  | nil => simp [joinPath]
  | cons v ws ih =>
    rw [joinPath,List.flatMap_cons,← joinPath,ih]
    simp

theorem joinPath_pathSegments {s : List UInt8} (h : s.head? = some 47) :
    joinPath (pathSegments s) = pathPart s := by
  obtain ⟨v,rfl⟩ : ∃ v, s = 47::v := by
    cases s with
    | nil => cases h
    | cons c v => exact ⟨v,by rw [Option.some.inj h]⟩
  have hpart : pathPart (47::v) = 47::pathPart v := rfl
  rw [pathSegments,hpart,List.tail_cons]
  obtain ⟨w,ws,hw⟩ := List.exists_cons_of_ne_nil (List.splitOn_ne_nil 47 (pathPart v))
  rw [hw,joinPath_intercalate,← hw,List.intercalate_splitOn]

theorem splitOn_mem {a : UInt8} {l : List UInt8} :
    ∀ seg ∈ l.splitOn a, a ∉ seg ∧ ∀ c ∈ seg, c ∈ l := by
  induction l with
  | nil =>
    intro seg hseg
    rw [List.splitOn_nil,List.mem_singleton] at hseg
    rw [hseg]
    simp
  | cons x l ih =>
    intro seg hseg
    rw [List.splitOn_cons_eq_if_modifyHead] at hseg
    split at hseg
    · rcases List.mem_cons.mp hseg with rfl | hseg
      · simp
      · exact ⟨(ih seg hseg).1,fun c hc => .tail _ ((ih seg hseg).2 c hc)⟩
    · rename_i hx
      obtain ⟨w,ws,hw⟩ := List.exists_cons_of_ne_nil (List.splitOn_ne_nil a l)
      rw [hw] at hseg ih
      rcases List.mem_cons.mp hseg with rfl | hseg
      · have hi := ih w (.head _)
        refine ⟨?_,?_⟩
        · intro ha
          rcases List.mem_cons.mp ha with rfl | ha
          · exact hx (beq_self_eq_true _)
          · exact hi.1 ha
        · intro c hc
          rcases List.mem_cons.mp hc with rfl | hc
          · exact .head _
          · exact .tail _ (hi.2 c hc)
      · have hi := ih seg (.tail _ hseg)
        exact ⟨hi.1,fun c hc => .tail _ (hi.2 c hc)⟩

theorem pathSegments_chars (s : List UInt8) : ∀ seg ∈ pathSegments s, SegmentChars seg := by
  intro seg hseg c hc
  have h := splitOn_mem seg hseg
  refine ⟨fun he => h.1 (he ▸ hc),?_⟩
  have hmem := List.mem_of_mem_tail (h.2 c hc)
  simpa using List.all_eq_true.mp List.all_takeWhile c hmem

theorem pathSegments_ne_nil (s : List UInt8) : pathSegments s ≠ [] := List.splitOn_ne_nil _ _

/-- What a path is put together from is found again. -/
theorem joinPath_read {segs : List (List UInt8)} {rest : List UInt8} (hne : segs ≠ [])
    (hchars : ∀ seg ∈ segs, SegmentChars seg) (hrest : ∀ c v, rest = c::v → isPathEnd c = true) :
    pathPart (joinPath segs++rest) = joinPath segs ∧ pathRest (joinPath segs++rest) = rest ∧
      pathSegments (joinPath segs++rest) = segs := by
  have hplain : ∀ c ∈ joinPath segs, (!isPathEnd c) = true := by
    intro c hc
    rcases List.mem_flatMap.mp hc with ⟨seg,hseg,hc⟩
    rcases List.mem_cons.mp hc with rfl | hc
    · rfl
    · rw [(hchars seg hseg c hc).2]
      rfl
  have htake : rest.takeWhile (fun c => !isPathEnd c) = [] := by
    cases rest with
    | nil => rfl
    | cons c v => rw [List.takeWhile_cons,hrest c v rfl]; rfl
  have hpart : pathPart (joinPath segs++rest) = joinPath segs := by
    rw [pathPart,List.takeWhile_append_of_pos hplain,htake,List.append_nil]
  have happ := pathPart_append (joinPath segs++rest)
  rw [hpart] at happ
  refine ⟨hpart,List.append_cancel_left happ,?_⟩
  obtain ⟨w,ws,rfl⟩ := List.exists_cons_of_ne_nil hne
  rw [pathSegments,hpart,joinPath_intercalate,List.tail_cons]
  exact List.splitOn_intercalate 47 (fun l hl h => (hchars l hl 47 h).1 rfl) hne

theorem isDots_false {seg : List UInt8} (h₁ : seg ≠ [46]) (h₂ : seg ≠ [46,46]) :
    isDots seg = false := by
  rw [isDots,beq_eq_false_iff_ne.mpr h₁,beq_eq_false_iff_ne.mpr h₂]
  rfl

theorem dotStep_plain {acc : List (List UInt8)} {seg : List UInt8} (h : isDots seg = false) :
    dotStep acc seg = some (seg::acc) := by
  simp only [isDots,Bool.or_eq_false_iff,beq_eq_false_iff_ne] at h
  rw [dotStep,if_neg h.1,if_neg h.2]

theorem removeDotSegments_concat (init : List (List UInt8)) (last : List UInt8) :
    removeDotSegments (init++[last]) = (init.foldlM dotStep []).bind fun acc =>
      (dotStep acc last).map fun acc => (if isDots last then []::acc else acc).reverse := by
  rw [removeDotSegments,List.foldlM_append]
  simp only [List.foldlM_cons,List.foldlM_nil,List.getLastD_eq_getLast?,List.getLast?_concat,
    Option.getD_some]
  cases init.foldlM dotStep [] with
  | none => rfl
  | some acc =>
    simp only [Option.bind_some,Option.bind_eq_bind]
    cases dotStep acc last <;> rfl

theorem dotStep_mem {acc acc' : List (List UInt8)} {seg : List UInt8}
    (h : dotStep acc seg = some acc') : ∀ v ∈ acc', v ∈ acc ∨ v = seg := by
  intro v hv
  rw [dotStep] at h
  split at h
  · exact .inl (Option.some.inj h ▸ hv)
  · split at h
    · split at h
      · cases h
      · exact .inl (List.mem_of_mem_tail (Option.some.inj h ▸ hv))
    · rw [← Option.some.inj h] at hv
      exact (List.mem_cons.mp hv).symm

theorem foldlM_mem {segs acc acc' : List (List UInt8)} (h : segs.foldlM dotStep acc = some acc') :
    ∀ v ∈ acc', v ∈ acc ∨ v ∈ segs := by
  induction segs generalizing acc with
  | nil => exact fun v hv => .inl (Option.some.inj h ▸ hv)
  | cons seg segs ih =>
    intro v hv
    rw [List.foldlM_cons] at h
    rcases Option.bind_eq_some_iff.mp h with ⟨a,ha,h⟩
    rcases ih h v hv with hv | hv
    · rcases dotStep_mem ha v hv with hv | rfl
      · exact .inl hv
      · exact .inr (.head _)
    · exact .inr (.tail _ hv)

/-- What is kept from step to step: none of the segments is dots, and they are not longer. -/
structure Stacked (n : ℕ) (acc : List (List UInt8)) : Prop where
  plain : ∀ seg ∈ acc, isDots seg = false
  length : (joinPath acc).length ≤ n

theorem dotStep_stacked {n : ℕ} {acc acc' : List (List UInt8)} {seg : List UInt8}
    (h : Stacked n acc) (hs : dotStep acc seg = some acc') :
    Stacked (n+seg.length+1) acc' ∧ (isDots seg = true → Stacked n acc') := by
  have hmore : ∀ {a}, Stacked n a → Stacked (n+seg.length+1) a := fun ha =>
    ⟨ha.plain,by have := ha.length; omega⟩
  have htail : Stacked n acc.tail := by
    refine ⟨fun s hs => h.plain s (List.mem_of_mem_tail hs),?_⟩
    have hlen := h.length
    cases acc with
    | nil => exact hlen
    | cons a acc =>
      rw [joinPath,List.flatMap_cons,List.length_append] at hlen
      exact Nat.le_trans (Nat.le_add_left _ _) hlen
  by_cases hd : isDots seg = true
  · have hk : Stacked n acc' := by
      rw [dotStep] at hs
      split at hs
      · exact Option.some.inj hs ▸ h
      · split at hs
        · split at hs
          · cases hs
          · exact Option.some.inj hs ▸ htail
        · rename_i h₁ h₂
          rw [isDots_false h₁ h₂] at hd
          cases hd
    exact ⟨hmore hk,fun _ => hk⟩
  · rw [Bool.not_eq_true] at hd
    rw [dotStep_plain hd,Option.some.injEq] at hs
    subst hs
    refine ⟨⟨?_,?_⟩,fun he => by rw [hd] at he; cases he⟩
    · intro s hs
      rcases List.mem_cons.mp hs with rfl | hs
      · exact hd
      · exact h.plain s hs
    · have := h.length
      rw [joinPath,List.flatMap_cons,List.length_append,List.length_cons,← joinPath]
      omega

theorem dotStep_dots_length {acc acc' : List (List UInt8)} {seg : List UInt8}
    (hd : isDots seg = true) (hs : dotStep acc seg = some acc') :
    (joinPath acc').length ≤ (joinPath acc).length := by
  rw [dotStep] at hs
  split at hs
  · rw [Option.some.inj hs]
  · split at hs
    · split at hs
      · cases hs
      · rw [← Option.some.inj hs]
        cases acc with
        | nil => exact Nat.le_refl _
        | cons a acc =>
          rw [List.tail_cons,joinPath,joinPath,List.flatMap_cons,List.length_append]
          exact Nat.le_add_left _ _
    · rename_i h₁ h₂
      rw [isDots_false h₁ h₂] at hd
      cases hd

theorem foldlM_stacked {segs acc acc' : List (List UInt8)} {n : ℕ} (h : Stacked n acc)
    (hs : segs.foldlM dotStep acc = some acc') : Stacked (n+(joinPath segs).length) acc' := by
  induction segs generalizing n acc with
  | nil => exact Option.some.inj hs ▸ h
  | cons seg segs ih =>
    rw [List.foldlM_cons] at hs
    rcases Option.bind_eq_some_iff.mp hs with ⟨a,ha,hs⟩
    have hk := ih (dotStep_stacked h ha).1 hs
    rw [joinPath,List.flatMap_cons,List.length_append,List.length_cons,← joinPath]
    rwa [show n+(seg.length+1+(joinPath segs).length) = n+seg.length+1+(joinPath segs).length
      by omega]

@[simp] theorem joinPath_reverse_length (segs : List (List UInt8)) :
    (joinPath segs.reverse).length = (joinPath segs).length := by
  rw [joinPath,joinPath,List.length_flatMap,List.length_flatMap,List.map_reverse,
    List.sum_reverse]

theorem exists_concat {segs : List (List UInt8)} (hne : segs ≠ []) :
    ∃ init last, segs = init++[last] :=
  ⟨segs.dropLast,segs.getLast hne,(List.dropLast_append_getLast hne).symm⟩

theorem removeDotSegments_mem {segs out : List (List UInt8)} (hne : segs ≠ [])
    (h : removeDotSegments segs = some out) : ∀ v ∈ out, v ∈ segs ∨ v = [] := by
  obtain ⟨init,last,rfl⟩ := exists_concat hne
  rw [removeDotSegments_concat] at h
  rcases Option.bind_eq_some_iff.mp h with ⟨acc,hacc,h⟩
  rcases Option.map_eq_some_iff.mp h with ⟨a,ha,rfl⟩
  intro v hv
  have hmem : v ∈ a ∨ v = [] := by
    rw [List.mem_reverse] at hv
    split at hv
    · exact (List.mem_cons.mp hv).symm
    · exact .inl hv
  rcases hmem with hv | hv
  · rcases dotStep_mem ha v hv with hv | rfl
    · rcases foldlM_mem hacc v hv with hv | hv
      · cases hv
      · exact .inl (by simp [hv])
    · exact .inl (by simp)
  · exact .inr hv

/-- What is left is a path without dots, and not longer than it was. -/
theorem removeDotSegments_clean {segs out : List (List UInt8)} (hne : segs ≠ [])
    (h : removeDotSegments segs = some out) :
    out ≠ [] ∧ (∀ seg ∈ out, isDots seg = false) ∧
      (joinPath out).length ≤ (joinPath segs).length := by
  obtain ⟨init,last,rfl⟩ := exists_concat hne
  rw [removeDotSegments_concat] at h
  rcases Option.bind_eq_some_iff.mp h with ⟨acc,hacc,h⟩
  rcases Option.map_eq_some_iff.mp h with ⟨a,ha,rfl⟩
  have hstack : Stacked (joinPath init).length acc := by
    have hk := foldlM_stacked (n := 0) ⟨by simp,by simp [joinPath]⟩ hacc
    rwa [Nat.zero_add] at hk
  rcases dotStep_stacked hstack ha with ⟨hk,hkd⟩
  have hlen : (joinPath (init++[last])).length = (joinPath init).length+last.length+1 := by
    rw [joinPath,List.flatMap_append,List.length_append,← joinPath]
    simp
    omega
  rw [hlen]
  refine ⟨?_,?_,?_⟩
  · split
    · simp
    · rename_i hd
      rw [Bool.not_eq_true] at hd
      rw [dotStep_plain hd,Option.some.injEq] at ha
      rw [← ha]
      simp
  · intro seg hs
    rw [List.mem_reverse] at hs
    split at hs
    · rcases List.mem_cons.mp hs with rfl | hs
      · rfl
      · exact hk.plain seg hs
    · exact hk.plain seg hs
  · rw [joinPath_reverse_length]
    split
    · rename_i hd
      have hl := (hkd hd).length
      have hpos : 0 < last.length := by
        cases last with
        | nil => cases hd
        | cons c v => simp
      rw [joinPath,List.flatMap_cons,List.length_append,← joinPath]
      simp
      omega
    · exact hk.length

/-- A path without dots stays as it is. -/
theorem removeDotSegments_plain {segs : List (List UInt8)} (hne : segs ≠ [])
    (h : ∀ seg ∈ segs, isDots seg = false) : removeDotSegments segs = some segs := by
  have hfold : ∀ (l acc : List (List UInt8)), (∀ seg ∈ l, isDots seg = false) →
      l.foldlM dotStep acc = some (l.reverse++acc) := by
    intro l
    induction l with
    | nil =>
      intro acc _
      rfl
    | cons seg l ih =>
      intro acc hl
      rw [List.foldlM_cons,dotStep_plain (hl seg (.head _))]
      simp only [Option.bind_eq_bind,Option.bind_some,List.reverse_cons,List.append_assoc]
      exact ih _ fun s hs => hl s (.tail _ hs)
  obtain ⟨init,last,rfl⟩ := exists_concat hne
  have hlast := h last (by simp)
  rw [removeDotSegments_concat,hfold init [] fun s hs => h s (by simp [hs])]
  simp [dotStep_plain hlast,hlast]

theorem dotStep_above {acc acc' : List (List UInt8)} {seg : List UInt8}
    (h : dotStep acc seg = some acc') (below : List (List UInt8)) :
    dotStep (acc++below) seg = some (acc'++below) := by
  rw [dotStep] at h ⊢
  split at h
  · rename_i h₁
    rw [if_pos h₁,Option.some.inj h]
  · rename_i h₁
    rw [if_neg h₁]
    split at h
    · rename_i h₂
      rw [if_pos h₂]
      split at h
      · cases h
      · rename_i hne
        rw [if_neg (by simp [hne]),← Option.some.inj h,List.tail_append_of_ne_nil hne]
    · rename_i h₂
      rw [if_neg h₂,← Option.some.inj h]
      rfl

theorem foldlM_above {segs acc acc' : List (List UInt8)} (h : segs.foldlM dotStep acc = some acc')
    (below : List (List UInt8)) : segs.foldlM dotStep (acc++below) = some (acc'++below) := by
  induction segs generalizing acc with
  | nil =>
    rw [List.foldlM_nil] at h ⊢
    rw [Option.some.inj h]
    rfl
  | cons seg segs ih =>
    rw [List.foldlM_cons] at h ⊢
    rcases Option.bind_eq_some_iff.mp h with ⟨a,ha,h⟩
    exact Option.bind_eq_some_iff.mpr ⟨a++below,dotStep_above ha below,ih h⟩

/-- A segment is on the stack if it was put there and what follows it resolves by itself. -/
theorem foldlM_kept_iff {segs above acc : List (List UInt8)} {v : List UInt8} :
    segs.foldlM dotStep [] = some (above++v::acc) ↔
      ∃ before after, segs = before++v::after ∧ before.foldlM dotStep [] = some acc ∧
        isDots v = false ∧ after.foldlM dotStep [] = some above := by
  constructor
  · intro h
    induction segs using List.reverseRecOn generalizing above with
    | nil =>
      rw [List.foldlM_nil] at h
      have := Option.some.inj h
      simp at this
    | append_singleton init last ih =>
      rw [List.foldlM_append] at h
      rcases Option.bind_eq_some_iff.mp h with ⟨a,ha,h⟩
      rw [List.foldlM_cons] at h
      rcases Option.bind_eq_some_iff.mp h with ⟨a',ha',h⟩
      rw [List.foldlM_nil] at h
      obtain rfl := Option.some.inj h
      -- `last` is dots, or the top of the stack
      have hdots : ∀ x, a = x++v::acc → dotStep x last = some above →
          ∃ before after, init++[last] = before++v::after ∧ before.foldlM dotStep [] = some acc ∧
            isDots v = false ∧ after.foldlM dotStep [] = some above := by
        rintro x rfl hx
        rcases ih ha with ⟨before,after,rfl,hb,hv,hafter⟩
        refine ⟨before,after++[last],by simp,hb,hv,?_⟩
        rw [List.foldlM_append]
        refine Option.bind_eq_some_iff.mpr ⟨x,hafter,?_⟩
        rw [List.foldlM_cons]
        exact Option.bind_eq_some_iff.mpr ⟨above,hx,rfl⟩
      rw [dotStep] at ha'
      split at ha'
      · rename_i h₁
        exact hdots above (Option.some.inj ha') (by rw [dotStep,if_pos h₁])
      · rename_i h₁
        split at ha'
        · rename_i h₂
          split at ha'
          · cases ha'
          · rename_i hne
            obtain ⟨y,a,rfl⟩ := List.exists_cons_of_ne_nil hne
            rw [List.tail_cons,Option.some.injEq] at ha'
            refine hdots (y::above) (by rw [ha']; rfl) ?_
            rw [dotStep,if_neg h₁,if_pos h₂,if_neg (List.cons_ne_nil _ _)]
            rfl
        · rename_i h₂
          have hlast := isDots_false h₁ h₂
          cases above with
          | nil =>
            have hc := Option.some.inj ha'
            injection hc with hv hacc
            subst hv hacc
            exact ⟨init,[],rfl,ha,hlast,rfl⟩
          | cons y above =>
            have hc := Option.some.inj ha'
            injection hc with hy hacc
            subst hy
            exact hdots above hacc (by rw [dotStep_plain hlast])
  · rintro ⟨before,after,rfl,hb,hv,hafter⟩
    rw [List.foldlM_append]
    refine Option.bind_eq_some_iff.mpr ⟨acc,hb,?_⟩
    rw [List.foldlM_cons,dotStep_plain hv]
    exact foldlM_above hafter (v::acc)

end Uri
end CtrlPt
