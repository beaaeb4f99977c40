import CtrlPt.Lib.Loop

/-! Loops of a program that can go wrong. A loop is given a number of rounds, and one
that goes on after them is an error like any other; that a loop terminates is then said
by the number of rounds that is enough for it. -/
namespace CtrlPt
namespace Rounds

@[simp] theorem ok_bind {ε α β : Type} (a : α) (f : α → Except ε β) :
    (Except.ok a >>= f) = f a := rfl

@[simp] theorem error_bind {ε α β : Type} (e : ε) (f : α → Except ε β) :
    ((Except.error e : Except ε α) >>= f) = .error e := rfl

/-- A computation that gives a value has given one in its first part. -/
theorem of_bind_ok {ε α β : Type} {x : Except ε α} {f : α → Except ε β} {b : β}
    (h : x >>= f = .ok b) : ∃ a, x = .ok a ∧ f a = .ok b := by
  cases x with
  | error e => cases h
  | ok a => exact ⟨a,rfl,h⟩

/-- At most `n` rounds of `body`; `spent` is the error of a loop that needs more. -/
def rounds {ε σ α : Type} (spent : ε) (body : σ → Except ε (σ ⊕ α)) : ℕ → σ → Except ε α
  | 0, _ => .error spent
  | n+1, s => do
    match ← body s with
    | .inl t => rounds spent body n t
    | .inr a => .ok a

theorem rounds_leave {ε σ α : Type} {spent : ε} {body : σ → Except ε (σ ⊕ α)} {n : ℕ} {s : σ}
    {a : α} (hn : 0 < n) (h : body s = .ok (.inr a)) : rounds spent body n s = .ok a := by
  cases n with
  | zero => omega
  | succ n => simp [rounds,h]

theorem rounds_next {ε σ α : Type} {spent : ε} {body : σ → Except ε (σ ⊕ α)} {n : ℕ} {s t : σ}
    (h : body s = .ok (.inl t)) : rounds spent body (n+1) s = rounds spent body n t := by
  simp [rounds,h]

/-- A loop and what is done with its answer. Every round leaves with an answer that gives
the value `f` has here, or goes on, lower, where `f` has the same value: the loop ends, and
the whole has that value. -/
theorem rounds_bind {ε σ α β : Type} {spent : ε} {body : σ → Except ε (σ ⊕ α)}
    {k : α → Except ε β} {I : σ → Prop} {μ : σ → ℕ} {f : σ → β}
    (h : ∀ s, I s → (∃ a, body s = .ok (.inr a) ∧ k a = .ok (f s)) ∨
      ∃ t, body s = .ok (.inl t) ∧ I t ∧ μ t < μ s ∧ f t = f s)
    {n : ℕ} {s : σ} (hs : I s) (hn : μ s < n) : (rounds spent body n s >>= k) = .ok (f s) := by
  induction n generalizing s with
  | zero => omega
  | succ n ih =>
    rcases h s hs with ⟨a,hb,hk⟩ | ⟨t,hb,ht,hμ,hf⟩
    · rw [rounds_leave (Nat.succ_pos n) hb,ok_bind,hk]
    · rw [rounds_next hb,ih ht (by omega),hf]

theorem rounds_eq {ε σ α : Type} {spent : ε} {body : σ → Except ε (σ ⊕ α)} {I : σ → Prop}
    {μ : σ → ℕ} {f : σ → α}
    (h : ∀ s, I s → body s = .ok (.inr (f s)) ∨
      ∃ t, body s = .ok (.inl t) ∧ I t ∧ μ t < μ s ∧ f t = f s)
    {n : ℕ} {s : σ} (hs : I s) (hn : μ s < n) : rounds spent body n s = .ok (f s) := by
  have hb : (rounds spent body n s >>= Except.ok) = .ok (f s) :=
    rounds_bind (fun s hs => (h s hs).imp_left fun hb => ⟨f s,hb,rfl⟩) hs hn
  cases hr : rounds spent body n s with
  | ok a => rwa [hr,ok_bind] at hb
  | error e =>
    rw [hr] at hb
    cases hb

/-- A loop no round of which goes wrong is the loop of its rounds. -/
theorem rounds_run {ε σ α : Type} {spent : ε} {body : σ → Except ε (σ ⊕ α)} {b : σ → σ ⊕ α}
    {e : σ → α} {I : σ → Prop} {μ : σ → ℕ} (hd : Loop.Descends μ b)
    (hb : ∀ s, I s → body s = .ok (b s)) (keep : ∀ s t, I s → b s = .inl t → I t)
    {n : ℕ} {s : σ} (hs : I s) (hn : μ s < n) :
    rounds spent body n s = .ok (Loop.run μ b e s) := by
  refine rounds_eq (I := I) (μ := μ) (f := Loop.run μ b e) ?_ hs hn
  intro s hs
  rw [hb s hs]
  cases hbs : b s with
  | inr a =>
    left
    rw [Loop.run_inr hbs]
  | inl t => exact .inr ⟨t,rfl,keep s t hs hbs,hd s t hbs,(Loop.run_inl hd hbs).symm⟩

/-- Every round leaves with an answer that is right or goes on, lower: the loop ends with an
answer that is right. -/
theorem rounds_post {ε σ α : Type} {spent : ε} {body : σ → Except ε (σ ⊕ α)} {I : σ → Prop}
    {μ : σ → ℕ} {Q : α → Prop}
    (h : ∀ s, I s → (∃ a, body s = .ok (.inr a) ∧ Q a) ∨
      ∃ t, body s = .ok (.inl t) ∧ I t ∧ μ t < μ s)
    {n : ℕ} {s : σ} (hs : I s) (hn : μ s < n) : ∃ a, rounds spent body n s = .ok a ∧ Q a := by
  induction n generalizing s with
  | zero => omega
  | succ n ih =>
    rcases h s hs with ⟨a,hb,hq⟩ | ⟨t,hb,ht,hμ⟩
    · exact ⟨a,rounds_leave (Nat.succ_pos n) hb,hq⟩
    · rcases ih ht (by omega) with ⟨a,ha,hq⟩
      exact ⟨a,(rounds_next hb).trans ha,hq⟩

/-- What every round keeps holds when the loop is left, if it is left. -/
theorem rounds_ok {ε σ α : Type} {spent : ε} {body : σ → Except ε (σ ⊕ α)} {I : σ → Prop}
    {Q : α → Prop} (keep : ∀ s t, I s → body s = .ok (.inl t) → I t)
    (leave : ∀ s a, I s → body s = .ok (.inr a) → Q a)
    {n : ℕ} {s : σ} {a : α} (hs : I s) (h : rounds spent body n s = .ok a) : Q a := by
  induction n generalizing s with
  | zero => cases h
  | succ n ih =>
    rcases of_bind_ok h with ⟨r,hr,h⟩
    cases r with
    | inl t => exact ih (keep s t hs hr) h
    | inr b =>
      cases h
      exact leave s a hs hr

end Rounds
end CtrlPt
