import Mathlib.Tactic

/-! Loops with a measure. A `while` loop is given by its body, which either moves
to the next state or leaves with a result; the fuel it runs on is computed from
the measure, so the loop evaluates and still obeys its own unfolding equation. -/
namespace CtrlPt
namespace Loop

/-- Run `body` at most `n` times; `spent` is the answer if that was not enough. -/
def fuelled {σ α : Type} (body : σ → σ ⊕ α) (spent : σ → α) : ℕ → σ → α
  | 0, s => spent s
  | n+1, s =>
    match body s with
    | .inl t => fuelled body spent n t
    | .inr a => a

/-- The loop itself: one more round than the measure of its first state. -/
def run {σ α : Type} (μ : σ → ℕ) (body : σ → σ ⊕ α) (spent : σ → α) (s : σ) : α :=
  fuelled body spent (μ s + 1) s

/-- Every round that does not leave the loop lowers the measure. -/
def Descends {σ α : Type} (μ : σ → ℕ) (body : σ → σ ⊕ α) : Prop :=
  ∀ s t, body s = .inl t → μ t < μ s

theorem fuelled_eq_fuelled {σ α : Type} {μ : σ → ℕ} {body : σ → σ ⊕ α} {e : σ → α}
    (h : Descends μ body) (n m : ℕ) (s : σ) (hn : μ s < n) (hm : μ s < m) :
    fuelled body e n s = fuelled body e m s := by
  induction n generalizing m s with
  | zero => omega
  | succ n ih =>
    cases m with
    | zero => omega
    | succ m =>
      simp only [fuelled]
      cases hb : body s with
      | inr a => rfl
      | inl t =>
        have ht := h s t hb
        exact ih m t (by omega) (by omega)

/-- The fuel is never spent: the loop unfolds as the source's `while` does. -/
theorem run_eq {σ α : Type} {μ : σ → ℕ} {body : σ → σ ⊕ α} {e : σ → α}
    (h : Descends μ body) (s : σ) :
    run μ body e s =
      match body s with
      | .inl t => run μ body e t
      | .inr a => a := by
  unfold run
  rw [fuelled]
  cases hb : body s with
  | inr a => rfl
  | inl t =>
    have ht := h s t hb
    exact fuelled_eq_fuelled h _ _ t ht (by omega)

theorem run_inr {σ α : Type} {μ : σ → ℕ} {body : σ → σ ⊕ α} {e : σ → α}
    {s : σ} {a : α} (hb : body s = .inr a) : run μ body e s = a := by
  simp [run,fuelled,hb]

theorem run_inl {σ α : Type} {μ : σ → ℕ} {body : σ → σ ⊕ α} {e : σ → α}
    (h : Descends μ body) {s t : σ} (hb : body s = .inl t) :
    run μ body e s = run μ body e t := by
  rw [run_eq h s,hb]

/-- Induction on the rounds of a loop: what holds of every leaving round and is
handed back through every other round holds of the loop. -/
theorem run_induction {σ α : Type} {μ : σ → ℕ} {body : σ → σ ⊕ α} {e : σ → α}
    (h : Descends μ body) {P : σ → α → Prop}
    (leave : ∀ s a, body s = .inr a → P s a)
    (next : ∀ s t, body s = .inl t → P t (run μ body e t) → P s (run μ body e t))
    (s : σ) : P s (run μ body e s) := by
  induction hk : μ s using Nat.strong_induction_on generalizing s with
  | _ k ih =>
    subst hk
    cases hb : body s with
    | inr a =>
      rw [run_inr hb]
      exact leave s a hb
    | inl t =>
      rw [run_inl h hb]
      exact next s t hb (ih (μ t) (h s t hb) t rfl)

/-- From `s` the rounds come to an end, with `a`. -/
inductive Leaves {σ α : Type} (body : σ → σ ⊕ α) : σ → α → Prop
  | here {s : σ} {a : α} (h : body s = .inr a) : Leaves body s a
  | next {s t : σ} {a : α} (h : body s = .inl t) (ht : Leaves body t a) : Leaves body s a

theorem run_leaves {σ α : Type} {μ : σ → ℕ} {body : σ → σ ⊕ α} {e : σ → α}
    (h : Descends μ body) (s : σ) : Leaves body s (run μ body e s) :=
  run_induction h (fun _ _ hb => .here hb) (fun _ _ hb ih => .next hb ih) s

/-- The state in which the loop is left. -/
def last {σ α : Type} (μ : σ → ℕ) (body : σ → σ ⊕ α) (s : σ) : σ :=
  run μ (fun t => (body t).map id fun _ => t) id s

theorem last_descends {σ α : Type} {μ : σ → ℕ} {body : σ → σ ⊕ α} (h : Descends μ body) :
    Descends μ fun t => (body t).map id fun _ => t := by
  intro s t ht
  cases hb : body s with
  | inl t' =>
    simp only [hb,Sum.map_inl,id,Sum.inl.injEq] at ht
    exact ht ▸ h s t' hb
  | inr a => simp [hb] at ht

/-- What is kept by every round holds where the loop is left, and there it gives its result. -/
theorem last_spec {σ α : Type} {μ : σ → ℕ} {body : σ → σ ⊕ α} {e : σ → α} {I : σ → Prop}
    (h : Descends μ body) (keep : ∀ s t, I s → body s = .inl t → I t) (s : σ) (hs : I s) :
    I (last μ body s) ∧ body (last μ body s) = .inr (run μ body e s) := by
  revert hs
  refine run_induction h (e := e)
    (P := fun s a => I s → I (last μ body s) ∧ body (last μ body s) = .inr a) ?_ ?_ s
  · intro s a hb hs
    have hl : last μ body s = s := run_inr (by simp [hb])
    rw [hl]
    exact ⟨hs,hb⟩
  · intro s t hb ih hs
    have hl : last μ body s = last μ body t := run_inl (last_descends h) (by simp [hb])
    rw [hl]
    exact ih (keep s t hs hb)

/-- The body of a `do … while`: run `f`, and once more while its answer is `again`. -/
def doWhile {σ ι : Type} (again : ι → Bool) (f : σ → ι × σ) (s : σ) : σ ⊕ (ι × σ) :=
  if again (f s).1 then .inl (f s).2 else .inr (f s)

theorem doWhile_inl {σ ι : Type} {again : ι → Bool} {f : σ → ι × σ} {s t : σ}
    (h : doWhile again f s = .inl t) : again (f s).1 = true ∧ (f s).2 = t := by
  unfold doWhile at h
  split at h
  · rename_i ha
    cases h
    exact ⟨ha,rfl⟩
  · cases h

theorem doWhile_inr {σ ι : Type} {again : ι → Bool} {f : σ → ι × σ} {s : σ} {r : ι × σ}
    (h : doWhile again f s = .inr r) : again r.1 = false ∧ f s = r := by
  unfold doWhile at h
  split at h
  · cases h
  · rename_i ha
    cases h
    exact ⟨by simpa using ha,rfl⟩

end Loop
end CtrlPt
