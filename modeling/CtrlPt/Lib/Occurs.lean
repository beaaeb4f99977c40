import CtrlPt.CText

/-! Where a pattern occurs in a text. A character that is not in the pattern cuts the text: no
occurrence lies across it. -/
namespace CtrlPt
namespace CText

/-- An occurrence in two parts with `d` between them, where the second part is not reached. -/
theorem isPrefix_across {α : Type} {s x y : List α} {d : α} (hd : d ∉ s) (h : s <+: x++d::y) :
    s <+: x := by
  rcases h with ⟨t,ht⟩
  rcases List.append_eq_append_iff.mp ht with ⟨a,hx,-⟩ | ⟨c,hs,hy⟩
  · exact ⟨a,hx.symm⟩
  · cases c with
    | nil =>
      rw [List.append_nil] at hs
      rw [hs]
    | cons e c =>
      rw [List.cons_append,List.cons.injEq] at hy
      refine absurd ?_ hd
      rw [hs,hy.1]
      exact List.mem_append_right _ List.mem_cons_self

theorem infix_cut {α : Type} {s x y : List α} {d : α} (hd : d ∉ s) :
    s <:+: x++d::y ↔ s <:+: x ∨ s <:+: y := by
  constructor
  · intro h
    induction x with
    | nil =>
      rcases List.infix_cons_iff.mp h with h | h
      · exact .inl (isPrefix_across (x := []) hd h).isInfix
      · exact .inr h
    | cons a x ih =>
      rcases List.infix_cons_iff.mp h with h | h
      · exact .inl (isPrefix_across (x := a::x) hd h).isInfix
      · rcases ih h with h | h
        · exact .inl (h.trans (List.suffix_cons a x).isInfix)
        · exact .inr h
  · rintro (⟨a,b,rfl⟩ | ⟨a,b,rfl⟩)
    · exact ⟨a,b++d::y,by simp⟩
    · exact ⟨x++d::a,b,by simp⟩

theorem strstr_eq_some {r s : List UInt8} {i : ℕ} :
    strstr r s = some i ↔
      i ≤ r.length ∧ s <+: r.drop i ∧ ∀ j < i, ¬s <+: r.drop j := by
  rw [strstr,List.find?_range_eq_some,List.mem_range,Nat.lt_succ_iff]
  simp only [List.isPrefixOf_iff_prefix,Bool.not_eq_eq_eq_not,Bool.not_true,
    ← Bool.not_eq_true]
  exact ⟨fun h => ⟨h.2.1,h.1,h.2.2⟩,fun h => ⟨h.2.1,h.1,h.2.2⟩⟩

theorem singleton_prefix_drop {l : List UInt8} {c : UInt8} {j : ℕ} (h : [c] <+: l.drop j) :
    l[j]? = some c := by
  rcases h with ⟨t,ht⟩
  rw [← List.head?_drop,← ht]
  rfl

theorem strstr_char {x : List UInt8} {c : UInt8} (hx : c ∉ x) (y : List UInt8) :
    strstr (x++c::y) [c] = some x.length := by
  rw [strstr_eq_some]
  refine ⟨by simp,?_,fun j hj hp => hx ?_⟩
  · rw [List.drop_left]
    exact ⟨y,rfl⟩
  · have hget := singleton_prefix_drop hp
    rw [List.getElem?_append_left hj] at hget
    exact List.mem_of_getElem? hget

theorem strstr_char_none {x : List UInt8} {c : UInt8} (hx : c ∉ x) : strstr x [c] = none := by
  cases hs : strstr x [c] with
  | none => rfl
  | some i =>
    exact absurd (List.mem_of_getElem? (singleton_prefix_drop (strstr_eq_some.mp hs).2.1)) hx

/-- The first occurrence is the one behind `x` and `d` when there is none in `x`. -/
theorem strstr_behind {x s : List UInt8} {d : UInt8} (hd : d ∉ s) (y : List UInt8)
    (hx : ¬s <:+: x) : strstr (x++d::(s++y)) s = some (x.length+1) := by
  rw [strstr_eq_some]
  refine ⟨by simp,?_,fun j hj hp => hx ?_⟩
  · rw [← List.drop_drop,List.drop_left]
    exact List.prefix_append _ _
  · rw [List.drop_append_of_le_length (by omega)] at hp
    have hpre := isPrefix_across hd hp
    exact hpre.isInfix.trans (List.drop_suffix _ _).isInfix

/-- When there is one in `x`, the first one is in `x`. -/
theorem strstr_within {x s : List UInt8} (y : List UInt8) (hx : s <:+: x) :
    ∃ i, strstr (x++y) s = some i ∧ i+s.length ≤ x.length := by
  rcases hx with ⟨a,b,rfl⟩
  have ha : s <+: (a++s++b++y).drop a.length := by
    rw [List.append_assoc,List.append_assoc,List.drop_left]
    exact List.prefix_append _ _
  cases hs : strstr (a++s++b++y) s with
  | none =>
    have hno := List.find?_range_eq_none.mp hs a.length (by
      simp only [List.length_append]
      omega)
    rw [List.isPrefixOf_iff_prefix.mpr ha] at hno
    cases hno
  | some i =>
    have hle : i ≤ a.length := by
      by_contra hlt
      exact (strstr_eq_some.mp hs).2.2 a.length (by omega) ha
    refine ⟨i,rfl,?_⟩
    simp only [List.length_append]
    omega

end CText
end CtrlPt
