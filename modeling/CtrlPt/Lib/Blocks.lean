import CtrlPt.Lib.Loop

/-! Folds over the blocks of a stream. A state takes up `n` elements at a time; what is left
over of an input waits for the next one. -/
namespace CtrlPt
namespace Blocks

variable {σ β : Type}

def absorb (n : ℕ) (f : σ → List β → σ) : ℕ → σ → List β → σ
  | 0, s, _ => s
  | k+1, s, l => absorb n f k (f s (l.take n)) (l.drop n)

/-- The state behind all whole blocks. -/
def absorbed (n : ℕ) (f : σ → List β → σ) (s : σ) (l : List β) : σ :=
  absorb n f (l.length/n) s l

/-- What is left behind the whole blocks. -/
def leftOver (n : ℕ) (l : List β) : List β := l.drop (n*(l.length/n))

@[simp] theorem leftOver_length (n : ℕ) (l : List β) : (leftOver n l).length = l.length % n := by
  have hdiv := Nat.div_add_mod l.length n
  rw [leftOver,List.length_drop]
  omega

theorem leftOver_short {n : ℕ} {l : List β} (h : l.length < n) : leftOver n l = l := by
  rw [leftOver,Nat.div_eq_of_lt h,Nat.mul_zero,List.drop_zero]

theorem absorbed_short {n : ℕ} {f : σ → List β → σ} {s : σ} {l : List β} (h : l.length < n) :
    absorbed n f s l = s := by
  rw [absorbed,Nat.div_eq_of_lt h]
  rfl

theorem absorbed_block {n : ℕ} (hn : 0 < n) (f : σ → List β → σ) (s : σ) {b : List β}
    (hb : b.length = n) (l : List β) : absorbed n f s (b++l) = absorbed n f (f s b) l := by
  have hlen : (b++l).length/n = l.length/n+1 := by
    rw [List.length_append,hb,Nat.add_div_left _ hn]
  rw [absorbed,hlen,absorb,List.take_left' hb,List.drop_left' hb,absorbed]

theorem leftOver_block {n : ℕ} (hn : 0 < n) {b : List β} (hb : b.length = n) (l : List β) :
    leftOver n (b++l) = leftOver n l := by
  have hlen : (b++l).length/n = l.length/n+1 := by
    rw [List.length_append,hb,Nat.add_div_left _ hn]
  rw [leftOver,hlen,Nat.mul_add_one,Nat.add_comm,← List.drop_drop,List.drop_left' hb,leftOver]

/-- An input in two parts: the second one is taken up behind what the first one left. -/
theorem absorbed_append {n : ℕ} (hn : 0 < n) (f : σ → List β → σ) (s : σ) (l m : List β) :
    absorbed n f s (l++m) = absorbed n f (absorbed n f s l) (leftOver n l++m) ∧
      leftOver n (l++m) = leftOver n (leftOver n l++m) := by
  induction hk : l.length using Nat.strong_induction_on generalizing s l with
  | _ k ih =>
    subst hk
    by_cases hl : l.length < n
    · rw [absorbed_short hl,leftOver_short hl]
      exact ⟨rfl,rfl⟩
    · have hb : (l.take n).length = n := by
        rw [List.length_take]
        omega
      have hd : (l.drop n).length < l.length := by
        rw [List.length_drop]
        omega
      rcases ih _ hd (f s (l.take n)) (l.drop n) rfl with ⟨ha,hr⟩
      have he : leftOver n l = leftOver n (l.drop n) := by
        rw [← leftOver_block hn hb (l.drop n),List.take_append_drop]
      have hs : absorbed n f s l = absorbed n f (f s (l.take n)) (l.drop n) := by
        rw [← absorbed_block hn f s hb (l.drop n),List.take_append_drop]
      have hlm : l++m = l.take n++(l.drop n++m) := by
        rw [← List.append_assoc,List.take_append_drop]
      rw [hs,he,hlm,absorbed_block hn f s hb,leftOver_block hn hb]
      exact ⟨ha,hr⟩

/-- The state is the one behind the blocks of `l`, and `rest` waits. -/
structure Taken (n : ℕ) (f : σ → List β → σ) (start : σ) (l : List β) (s : σ) (rest : List β) :
    Prop where
  state : s = absorbed n f start l
  rest : rest = leftOver n l

theorem Taken.nil {n : ℕ} (hn : 0 < n) (f : σ → List β → σ) (start : σ) :
    Taken n f start [] start [] := by
  constructor
  · rw [absorbed_short (show ([] : List β).length < n from hn)]
  · rw [leftOver_short (show ([] : List β).length < n from hn)]

theorem Taken.rest_lt {n : ℕ} (hn : 0 < n) {f : σ → List β → σ} {start s : σ} {l rest : List β}
    (h : Taken n f start l s rest) : rest.length < n := by
  rw [h.rest,leftOver_length]
  exact Nat.mod_lt _ hn

theorem Taken.rest_length {n : ℕ} {f : σ → List β → σ} {start s : σ} {l rest : List β}
    (h : Taken n f start l s rest) : rest.length = l.length % n := by
  rw [h.rest,leftOver_length]

/-- What waits and the next input are taken up together. -/
theorem Taken.append {n : ℕ} (hn : 0 < n) {f : σ → List β → σ} {start s : σ} {l rest : List β}
    (h : Taken n f start l s rest) (m : List β) :
    Taken n f start (l++m) (absorbed n f s (rest++m)) (leftOver n (rest++m)) := by
  rcases absorbed_append hn f start l m with ⟨ha,hr⟩
  rw [h.state,h.rest]
  exact ⟨ha.symm,hr.symm⟩

def round (n : ℕ) (f : σ → List β → σ) (input : List β) (s : ℕ × σ) : (ℕ × σ) ⊕ (ℕ × σ) :=
  if s.1+n ≤ input.length then .inl (s.1+n,f s.2 ((input.drop s.1).take n)) else .inr s

theorem round_descends {n : ℕ} (hn : 0 < n) (f : σ → List β → σ) (input : List β) :
    Loop.Descends (fun s : ℕ × σ => input.length-s.1) (round n f input) := by
  intro s t h
  unfold round at h
  split at h
  · cases h
    dsimp only
    omega
  · cases h

/-- The loop takes up all whole blocks behind its place. -/
theorem run_round {n : ℕ} (hn : 0 < n) (f : σ → List β → σ) (input : List β) (s : ℕ × σ) :
    (Loop.run (fun s : ℕ × σ => input.length-s.1) (round n f input) id s).2 =
        absorbed n f s.2 (input.drop s.1) ∧
      input.drop (Loop.run (fun s : ℕ × σ => input.length-s.1) (round n f input) id s).1 =
        leftOver n (input.drop s.1) := by
  refine Loop.run_induction (round_descends hn f input) (e := id)
    (P := fun s r => r.2 = absorbed n f s.2 (input.drop s.1) ∧
      input.drop r.1 = leftOver n (input.drop s.1)) ?_ ?_ s
  · intro s r hb
    unfold round at hb
    split at hb
    · cases hb
    · cases hb
      have hshort : (input.drop s.1).length < n := by
        rw [List.length_drop]
        omega
      rw [absorbed_short hshort,leftOver_short hshort]
      exact ⟨rfl,rfl⟩
  · intro s t hb ih
    unfold round at hb
    split at hb
    · cases hb
      have hblock : ((input.drop s.1).take n).length = n := by
        rw [List.length_take,List.length_drop]
        omega
      have hcut : input.drop s.1 = (input.drop s.1).take n++input.drop (s.1+n) := by
        rw [← List.drop_drop,List.take_append_drop]
      have ha : absorbed n f s.2 (input.drop s.1) =
          absorbed n f (f s.2 ((input.drop s.1).take n)) (input.drop (s.1+n)) := by
        conv_lhs => rw [hcut]
        exact absorbed_block hn f s.2 hblock _
      have hr : leftOver n (input.drop s.1) = leftOver n (input.drop (s.1+n)) := by
        conv_lhs => rw [hcut]
        exact leftOver_block hn hblock _
      rw [ha,hr]
      exact ih
    · cases hb

end Blocks
end CtrlPt
