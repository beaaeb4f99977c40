import CtrlPt.Lib.Loop

/-! Incremental machines. Input arrives in pieces; each piece is appended to the
state, which is then processed as far as it goes. A machine is resumable when
what it answers on a state does not depend on having stopped there before, and
then the answer depends only on the concatenation of the pieces. -/
namespace CtrlPt
namespace Resume

/-- A machine over states `σ`, input symbols `β` and answers `ι`. -/
structure Machine (σ β ι : Type) where
  append : σ → List β → σ
  process : σ → ι × σ
  /-- Answers after which the machine waits for its next piece. -/
  waits : ι → Bool

/-- Feed the pieces in order, up to the first answer that is not waiting. -/
def feed {σ β ι : Type} (m : Machine σ β ι) (s : σ) : List (List β) → ι × σ
  | [] => m.process s
  | [x] => m.process (m.append s x)
  | x::y::xs =>
    let r := m.process (m.append s x)
    if m.waits r.1 then feed m r.2 (y::xs) else r

/-- `inv` is kept by the machine, and `obs` cannot tell a state that was processed
in between from one that was not. -/
structure Resumable {σ β ι ω : Type} (m : Machine σ β ι) (inv : σ → Prop)
    (obs : ι × σ → ω) : Prop where
  append_append : ∀ s x y, m.append (m.append s x) y = m.append s (x++y)
  keep_append : ∀ s x, inv s → inv (m.append s x)
  keep_process : ∀ s, inv s → m.waits (m.process s).1 = true → inv (m.process s).2
  resume : ∀ s x, inv s → m.waits (m.process s).1 = true →
    obs (m.process (m.append (m.process s).2 x)) = obs (m.process (m.append s x))
  final : ∀ s x, inv s → m.waits (m.process s).1 = false →
    obs (m.process (m.append s x)) = obs (m.process s)

/-- The same where the invariant may speak of the input that is still to come. -/
structure ResumableOn {σ β ι ω : Type} (m : Machine σ β ι) (inv : σ → List β → Prop)
    (obs : ι × σ → ω) : Prop where
  append_append : ∀ s x y, m.append (m.append s x) y = m.append s (x++y)
  keep_append : ∀ s x y, inv s (x++y) → inv (m.append s x) y
  keep_process : ∀ s x, inv s x → m.waits (m.process s).1 = true → inv (m.process s).2 x
  resume : ∀ s x, inv s x → m.waits (m.process s).1 = true →
    obs (m.process (m.append (m.process s).2 x)) = obs (m.process (m.append s x))
  final : ∀ s x, inv s x → m.waits (m.process s).1 = false →
    obs (m.process (m.append s x)) = obs (m.process s)

theorem Resumable.on {σ β ι ω : Type} {m : Machine σ β ι} {inv : σ → Prop} {obs : ι × σ → ω}
    (h : Resumable m inv obs) : ResumableOn m (fun s _ => inv s) obs where
  append_append := h.append_append
  keep_append s x _ hs := h.keep_append s x hs
  keep_process s _ hs hw := h.keep_process s hs hw
  resume := h.resume
  final := h.final

theorem ResumableOn.feed_flatten {σ β ι ω : Type} {m : Machine σ β ι} {inv : σ → List β → Prop}
    {obs : ι × σ → ω} (h : ResumableOn m inv obs) (xs : List (List β)) (hx : xs ≠ [])
    (s : σ) (hs : inv s xs.flatten) :
    obs (feed m s xs) = obs (m.process (m.append s xs.flatten)) := by
  induction xs generalizing s with
  | nil => exact absurd rfl hx
  | cons x xs ih =>
    cases xs with
    | nil => simp [feed]
    | cons y xs =>
      rw [List.flatten_cons] at hs ⊢
      have ha := h.keep_append s x _ hs
      simp only [feed]
      rw [← h.append_append]
      split
      · rename_i hw
        rw [ih (by simp) _ (h.keep_process _ _ ha hw)]
        exact h.resume _ _ ha hw
      · rename_i hw
        exact (h.final _ _ ha (by simpa using hw)).symm

/-- Feeding pieces is observed as processing their concatenation at once. -/
theorem Resumable.feed_flatten {σ β ι ω : Type} {m : Machine σ β ι} {inv : σ → Prop}
    {obs : ι × σ → ω} (h : Resumable m inv obs) (xs : List (List β)) (hx : xs ≠ [])
    (s : σ) (hs : inv s) :
    obs (feed m s xs) = obs (m.process (m.append s xs.flatten)) :=
  h.on.feed_flatten xs hx s hs

/-- Two ways of cutting the same input are observed alike. -/
theorem Resumable.feed_congr {σ β ι ω : Type} {m : Machine σ β ι} {inv : σ → Prop}
    {obs : ι × σ → ω} (h : Resumable m inv obs) {xs ys : List (List β)}
    (hx : xs ≠ []) (hy : ys ≠ []) (he : xs.flatten = ys.flatten) (s : σ) (hs : inv s) :
    obs (feed m s xs) = obs (feed m s ys) := by
  rw [h.feed_flatten xs hx s hs,h.feed_flatten ys hy s hs,he]

structure ExactAt {σ β ι : Type} (append : σ → List β → σ) (waits : ι → Bool)
    (f : σ → ι × σ) (s : σ) : Prop where
  final : waits (f s).1 = false → ∀ x, f (append s x) = ((f s).1,append (f s).2 x)
  resume : waits (f s).1 = true → ∀ x, f (append (f s).2 x) = f (append s x)

/-- The same for one `x` that comes next. -/
structure ExactOn {σ β ι : Type} (append : σ → List β → σ) (waits : ι → Bool)
    (f : σ → ι × σ) (s : σ) (x : List β) : Prop where
  final : waits (f s).1 = false → f (append s x) = ((f s).1,append (f s).2 x)
  resume : waits (f s).1 = true → f (append (f s).2 x) = f (append s x)

theorem ExactAt.of_on {σ β ι : Type} {append : σ → List β → σ} {waits : ι → Bool}
    {f : σ → ι × σ} {s : σ} (h : ∀ x, ExactOn append waits f s x) : ExactAt append waits f s :=
  ⟨fun hw x => (h x).final hw,fun hw x => (h x).resume hw⟩

theorem ExactAt.on {σ β ι : Type} {append : σ → List β → σ} {waits : ι → Bool}
    {f : σ → ι × σ} {s : σ} (h : ExactAt append waits f s) (x : List β) :
    ExactOn append waits f s x :=
  ⟨fun hw => h.final hw x,fun hw => h.resume hw x⟩

/-- One round of a loop: if it goes on it does so with any more input, and its answers
are alike under `view x`, the view of an answer behind which `x` is still to come. -/
structure RoundAt {σ β ι ω : Type} (append : σ → List β → σ) (waits : ι → Bool)
    (view : List β → ι × σ → ω) (step : σ → σ ⊕ (ι × σ)) (s : σ) : Prop where
  go : ∀ t, step s = .inl t → ∀ x, step (append s x) = .inl (append t x)
  final : ∀ r, step s = .inr r → waits r.1 = false → ∀ x,
    ∃ r', step (append s x) = .inr r' ∧ view [] r' = view x r
  resume : ∀ r, step s = .inr r → waits r.1 = true → ∀ x,
    step (append r.2 x) = step (append s x) ∨
      ∃ r₁ r₂, step (append r.2 x) = .inr r₁ ∧ step (append s x) = .inr r₂ ∧
        view [] r₁ = view [] r₂

def carry {σ β ι : Type} (append : σ → List β → σ) (x : List β) (r : ι × σ) : ι × σ :=
  (r.1,append r.2 x)

/-- A round that can be resumed when `x` is what comes next. -/
structure RoundOn {σ β ι ω : Type} (append : σ → List β → σ) (waits : ι → Bool)
    (view : List β → ι × σ → ω) (step : σ → σ ⊕ (ι × σ)) (s : σ) (x : List β) : Prop where
  go : ∀ t, step s = .inl t → step (append s x) = .inl (append t x)
  final : ∀ r, step s = .inr r → waits r.1 = false →
    ∃ r', step (append s x) = .inr r' ∧ view [] r' = view x r
  resume : ∀ r, step s = .inr r → waits r.1 = true →
    step (append r.2 x) = step (append s x) ∨
      ∃ r₁ r₂, step (append r.2 x) = .inr r₁ ∧ step (append s x) = .inr r₂ ∧
        view [] r₁ = view [] r₂

theorem RoundAt.on {σ β ι ω : Type} {append : σ → List β → σ} {waits : ι → Bool}
    {view : List β → ι × σ → ω} {step : σ → σ ⊕ (ι × σ)} {s : σ}
    (h : RoundAt append waits view step s) (x : List β) : RoundOn append waits view step s x :=
  ⟨fun t ht => h.go t ht x,fun r hr hw => h.final r hr hw x,fun r hr hw => h.resume r hr hw x⟩

theorem RoundAt.of_on {σ β ι ω : Type} {append : σ → List β → σ} {waits : ι → Bool}
    {view : List β → ι × σ → ω} {step : σ → σ ⊕ (ι × σ)} {s : σ}
    (h : ∀ x, RoundOn append waits view step s x) : RoundAt append waits view step s :=
  ⟨fun t ht x => (h x).go t ht,fun r hr hw x => (h x).final r hr hw,
    fun r hr hw x => (h x).resume r hr hw⟩

theorem ExactOn.round {σ β ι ω : Type} {append : σ → List β → σ} {waits again : ι → Bool}
    {view : List β → ι × σ → ω} {f : σ → ι × σ} {s : σ} {x : List β}
    (h : ExactOn append waits f s x) (hagain : ∀ i, again i = true → waits i = false)
    (hview : again (f s).1 = false → waits (f s).1 = false →
      view [] (carry append x (f s)) = view x (f s)) :
    RoundOn append waits view (Loop.doWhile again f) s x where
  go := by
    intro t ht
    rcases Loop.doWhile_inl ht with ⟨ha,rfl⟩
    simp [Loop.doWhile,h.final (hagain _ ha),ha]
  final := by
    intro r hr hw
    rcases Loop.doWhile_inr hr with ⟨ha,rfl⟩
    exact ⟨carry append x (f s),by simp [Loop.doWhile,carry,h.final hw,ha],hview ha hw⟩
  resume := by
    intro r hr hw
    rcases Loop.doWhile_inr hr with ⟨ha,rfl⟩
    left
    simp only [Loop.doWhile,h.resume hw]

theorem ExactAt.round {σ β ι ω : Type} {append : σ → List β → σ} {waits again : ι → Bool}
    {view : List β → ι × σ → ω} {f : σ → ι × σ} {s : σ} (h : ExactAt append waits f s)
    (hagain : ∀ i, again i = true → waits i = false)
    (hview : again (f s).1 = false → waits (f s).1 = false → ∀ x,
      view [] (carry append x (f s)) = view x (f s)) :
    RoundAt append waits view (Loop.doWhile again f) s :=
  .of_on fun x => (h.on x).round hagain fun ha hw => hview ha hw x

/-- What rounds that can be resumed say of the whole loop. -/
theorem run_of_rounds_on {σ β ι ω : Type} {append : σ → List β → σ} {waits : ι → Bool}
    {view : List β → ι × σ → ω} {step : σ → σ ⊕ (ι × σ)} {μ : σ → ℕ} {e : σ → ι × σ}
    {I : σ → List β → Prop} (hd : Loop.Descends μ step)
    (keep_go : ∀ s t x, I s x → step s = .inl t → I t x)
    (keep_wait : ∀ s r x, I s x → step s = .inr r → waits r.1 = true → I r.2 x)
    (round : ∀ s x, I s x → RoundOn append waits view step s x) (s : σ) (x : List β) (hs : I s x) :
    (waits (Loop.run μ step e s).1 = true → I (Loop.run μ step e s).2 x ∧
      view [] (Loop.run μ step e (append (Loop.run μ step e s).2 x)) =
        view [] (Loop.run μ step e (append s x))) ∧
    (waits (Loop.run μ step e s).1 = false →
      view [] (Loop.run μ step e (append s x)) = view x (Loop.run μ step e s)) := by
  revert hs
  refine Loop.run_induction hd (P := fun s a => I s x →
    (waits a.1 = true → I a.2 x ∧ view [] (Loop.run μ step e (append a.2 x)) =
      view [] (Loop.run μ step e (append s x))) ∧
    (waits a.1 = false → view [] (Loop.run μ step e (append s x)) = view x a)) ?_ ?_ s
  · intro s a hs hi
    have hr := round s x hi
    refine ⟨fun hw => ⟨keep_wait s a x hi hs hw,?_⟩,fun hw => ?_⟩
    · rcases hr.resume a hs hw with he | ⟨r₁,r₂,h₁,h₂,ho⟩
      · rw [Loop.run_eq hd (append a.2 x),Loop.run_eq hd (append s x),he]
      · rw [Loop.run_inr h₁,Loop.run_inr h₂,ho]
    · rcases hr.final a hs hw with ⟨r',h',ho⟩
      rw [Loop.run_inr h',ho]
  · intro s t hs ih hi
    have hx := Loop.run_inl (e := e) hd ((round s x hi).go t hs)
    rcases ih (keep_go s t x hi hs) with ⟨hr,hf⟩
    refine ⟨fun hw => ⟨(hr hw).1,?_⟩,fun hw => ?_⟩
    · rw [(hr hw).2,hx]
    · rw [hx,hf hw]

theorem run_of_rounds {σ β ι ω : Type} {append : σ → List β → σ} {waits : ι → Bool}
    {view : List β → ι × σ → ω} {step : σ → σ ⊕ (ι × σ)} {μ : σ → ℕ} {e : σ → ι × σ}
    {I : σ → Prop} (hd : Loop.Descends μ step)
    (keep_go : ∀ s t, I s → step s = .inl t → I t)
    (keep_wait : ∀ s r, I s → step s = .inr r → waits r.1 = true → I r.2)
    (round : ∀ s, I s → RoundAt append waits view step s) (s : σ) (hs : I s) :
    (waits (Loop.run μ step e s).1 = true → I (Loop.run μ step e s).2 ∧ ∀ x,
      view [] (Loop.run μ step e (append (Loop.run μ step e s).2 x)) =
        view [] (Loop.run μ step e (append s x))) ∧
    (waits (Loop.run μ step e s).1 = false → ∀ x,
      view [] (Loop.run μ step e (append s x)) = view x (Loop.run μ step e s)) := by
  have h := fun x => run_of_rounds_on (e := e) hd (I := fun s _ => I s)
    (fun s t _ => keep_go s t) (fun s r _ => keep_wait s r) (fun s x hi => (round s hi).on x) s x hs
  exact ⟨fun hw => ⟨((h []).1 hw).1,fun x => ((h x).1 hw).2⟩,fun hw x => (h x).2 hw⟩

/-- A loop whose rounds are exact is exact. -/
theorem exactAt_run {σ β ι : Type} {append : σ → List β → σ} {waits : ι → Bool}
    {step : σ → σ ⊕ (ι × σ)} {μ : σ → ℕ} {e : σ → ι × σ} {I : σ → Prop}
    (hd : Loop.Descends μ step) (append_nil : ∀ s, append s [] = s)
    (keep_go : ∀ s t, I s → step s = .inl t → I t)
    (keep_wait : ∀ s r, I s → step s = .inr r → waits r.1 = true → I r.2)
    (round : ∀ s, I s → RoundAt append waits (carry append) step s) (s : σ) (hs : I s) :
    ExactAt append waits (Loop.run μ step e) s := by
  have h := run_of_rounds (e := e) hd keep_go keep_wait round s hs
  simp only [carry,append_nil] at h
  exact ⟨h.2,fun hw => (h.1 hw).2⟩

/-- A loop whose rounds can be resumed is a resumable machine. -/
theorem resumable_of_rounds {σ β ι ω : Type} {append : σ → List β → σ} {waits : ι → Bool}
    {obs : ι × σ → ω} {step : σ → σ ⊕ (ι × σ)} {μ : σ → ℕ} {e : σ → ι × σ} {I : σ → Prop}
    (hd : Loop.Descends μ step)
    (append_append : ∀ s x y, append (append s x) y = append s (x++y))
    (keep_append : ∀ s x, I s → I (append s x))
    (keep_go : ∀ s t, I s → step s = .inl t → I t)
    (keep_wait : ∀ s r, I s → step s = .inr r → waits r.1 = true → I r.2)
    (round : ∀ s, I s → RoundAt append waits (fun _ => obs) step s) :
    Resumable ⟨append,Loop.run μ step e,waits⟩ I obs := by
  have h := run_of_rounds (e := e) hd keep_go keep_wait round
  exact {
    append_append := append_append
    keep_append := keep_append
    keep_process := fun s hs hw => ((h s hs).1 hw).1
    resume := fun s x hs hw => ((h s hs).1 hw).2 x
    final := fun s x hs hw => (h s hs).2 hw x }

theorem resumableOn_of_rounds {σ β ι ω : Type} {append : σ → List β → σ} {waits : ι → Bool}
    {obs : ι × σ → ω} {step : σ → σ ⊕ (ι × σ)} {μ : σ → ℕ} {e : σ → ι × σ}
    {I : σ → List β → Prop} (hd : Loop.Descends μ step)
    (append_append : ∀ s x y, append (append s x) y = append s (x++y))
    (keep_append : ∀ s x y, I s (x++y) → I (append s x) y)
    (keep_go : ∀ s t x, I s x → step s = .inl t → I t x)
    (keep_wait : ∀ s r x, I s x → step s = .inr r → waits r.1 = true → I r.2 x)
    (round : ∀ s x, I s x → RoundOn append waits (fun _ => obs) step s x) :
    ResumableOn ⟨append,Loop.run μ step e,waits⟩ I obs := by
  have h := run_of_rounds_on (e := e) hd keep_go keep_wait round
  exact {
    append_append := append_append
    keep_append := keep_append
    keep_process := fun s x hs hw => ((h s x hs).1 hw).1
    resume := fun s x hs hw => ((h s x hs).1 hw).2
    final := fun s x hs hw => (h s x hs).2 hw }

/-- `r` is the answer once `taken` has been read, in whatever pieces: it is observed like the
one on `taken` at once, and from it the machine goes on as if it had not stopped. -/
structure Reached {σ β ι ω : Type} (m : Machine σ β ι) (inv : σ → Prop) (obs : ι × σ → ω)
    (s : σ) (taken : List β) (r : ι × σ) : Prop where
  now : obs (m.process (m.append s taken)) = obs r
  keep : m.waits r.1 = true → inv r.2
  goOn : m.waits r.1 = true → ∀ x,
    obs (m.process (m.append r.2 x)) = obs (m.process (m.append s (taken++x)))
  final : m.waits r.1 = false → ∀ x, obs (m.process (m.append s (taken++x))) = obs r

theorem Resumable.reached_next {σ β ι ω : Type} {m : Machine σ β ι} {inv : σ → Prop}
    {obs : ι × σ → ω} (h : Resumable m inv obs) {s : σ} {taken : List β} {r : ι × σ}
    (hr : Reached m inv obs s taken r) (hw : m.waits r.1 = true) (x : List β) :
    Reached m inv obs s (taken++x) (m.process (m.append r.2 x)) where
  now := (hr.goOn hw x).symm
  keep := h.keep_process _ (h.keep_append r.2 x (hr.keep hw))
  goOn hw' y := by
    rw [h.resume _ y (h.keep_append r.2 x (hr.keep hw)) hw',h.append_append,hr.goOn hw,
      List.append_assoc]
  final hw' y := by
    rw [List.append_assoc,← hr.goOn hw,← h.append_append,
      h.final _ y (h.keep_append r.2 x (hr.keep hw)) hw']

end Resume
end CtrlPt
