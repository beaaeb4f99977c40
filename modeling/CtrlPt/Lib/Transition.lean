import Mathlib.Tactic

/-! Transition systems. A step is a partial function of the state and an event; runs are
those whose steps all meet a condition, so that a condition may rule some of them out. -/
namespace CtrlPt
namespace Transition

variable {σ ε : Type}

/-- The states a run from `s` reaches when each of its steps meets `ok`. -/
inductive Runs (step : σ → ε → Option σ) (ok : σ → ε → Prop) (s : σ) : σ → Prop
  | refl : Runs step ok s s
  | tail {t u : σ} (e : ε) (h : Runs step ok s t) (hok : ok t e) (hstep : step t e = some u) :
      Runs step ok s u

/-- The condition that every step meets. -/
def free (_ : σ) (_ : ε) : Prop := True

instance : DecidableRel (free : σ → ε → Prop) := fun _ _ => isTrue trivial

/-- The run of a list of events; `none` when one cannot be taken or does not meet `ok`. -/
def run (step : σ → ε → Option σ) (ok : σ → ε → Prop) [DecidableRel ok] (s : σ) :
    List ε → Option σ
  | [] => some s
  | e::es => if ok s e then (step s e).bind fun t => run step ok t es else none

theorem Runs.trans {step : σ → ε → Option σ} {ok : σ → ε → Prop} {s t u : σ}
    (h : Runs step ok s t) (h' : Runs step ok t u) : Runs step ok s u := by
  induction h' with
  | refl => exact h
  | tail e _ hok hstep ih => exact Runs.tail e ih hok hstep

theorem Runs.of_run {step : σ → ε → Option σ} {ok : σ → ε → Prop} [DecidableRel ok] {s t : σ}
    (es : List ε) (h : run step ok s es = some t) : Runs step ok s t := by
  induction es generalizing s with
  | nil =>
    cases h
    exact Runs.refl
  | cons e es ih =>
    simp only [run] at h
    split at h
    · rename_i hok
      rcases Option.bind_eq_some_iff.mp h with ⟨u,hu,hr⟩
      exact (Runs.tail e Runs.refl hok hu).trans (ih hr)
    · cases h

/-- What every step that meets `ok` preserves holds along every run. -/
theorem Runs.invariant {step : σ → ε → Option σ} {ok : σ → ε → Prop} {I : σ → Prop} {s t : σ}
    (h : Runs step ok s t) (hs : I s)
    (keep : ∀ s e t, I s → ok s e → step s e = some t → I t) : I t := by
  induction h with
  | refl => exact hs
  | tail e _ hok hstep ih => exact keep _ e _ ih hok hstep

/-- A run under a stronger condition is one under a weaker condition. -/
theorem Runs.mono {step : σ → ε → Option σ} {ok ok' : σ → ε → Prop} {s t : σ}
    (h : Runs step ok s t) (himp : ∀ s e, ok s e → ok' s e) : Runs step ok' s t := by
  induction h with
  | refl => exact Runs.refl
  | tail e _ hok hstep ih => exact Runs.tail e ih (himp _ _ hok) hstep

/-- A list without its `i`-th member. -/
theorem perm_eraseIdx {α : Type} {l : List α} {i : ℕ} {a : α} (h : l[i]? = some a) :
    l.Perm (a::l.eraseIdx i) := by
  rcases List.getElem?_eq_some_iff.mp h with ⟨hi,rfl⟩
  exact (List.getElem_cons_eraseIdx_perm hi).symm

end Transition
end CtrlPt
