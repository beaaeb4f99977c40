import CtrlPt.Lib.Transition

/-! Locks that are taken and given up by threads side by side. A thread is the locks it holds and
the actions it has still to make; a lock can be shared by readers. -/
namespace CtrlPt
namespace Locks

variable {ι : Type}

inductive Mode
  | shared | exclusive
  deriving DecidableEq, Repr

/-- Two holders of one lock exclude each other. -/
def Mode.excludes (m m' : Mode) : Prop := ¬(m = .shared ∧ m' = .shared)

instance excludesDecidable (m m' : Mode) : Decidable (m.excludes m') :=
  inferInstanceAs (Decidable (¬(m = .shared ∧ m' = .shared)))

inductive Action (ι : Type)
  | acquire (lock : ι) (mode : Mode)
  | release (lock : ι)
  deriving DecidableEq, Repr

structure Thread (ι : Type) where
  held : List (ι × Mode)
  todo : List (Action ι)
  deriving DecidableEq, Repr

/-- The `i`-th thread wants a lock that the `j`-th one holds. -/
def WaitsFor (ts : List (Thread ι)) (i j : ℕ) : Prop :=
  ∃ t u lock mode rest mode', ts[i]? = some t ∧ ts[j]? = some u ∧
    t.todo = .acquire lock mode::rest ∧ (lock,mode') ∈ u.held ∧ mode.excludes mode'

/-- Each thread of a set waits for another one of it. -/
def Deadlock (ts : List (Thread ι)) : Prop :=
  ∃ d : Set ℕ, d.Nonempty ∧ ∀ i ∈ d, ∃ j ∈ d, j ≠ i ∧ WaitsFor ts i j

/-- Threads that wait only for threads of a higher rank are in no deadlock. -/
theorem no_deadlock_of_rank {ts : List (Thread ι)} (rank : ℕ → ℕ)
    (h : ∀ i j, WaitsFor ts i j → rank i < rank j) : ¬Deadlock ts := by
  rintro ⟨d,hne,hwait⟩
  have hfinite : d.Finite := by
    refine (Set.finite_lt_nat ts.length).subset fun i hi => ?_
    rcases hwait i hi with ⟨j,-,-,t,u,lock,mode,rest,mode',hti,-⟩
    exact (List.getElem?_eq_some_iff.mp hti).1
  rcases Set.exists_max_image d rank hfinite hne with ⟨i,hi,hmax⟩
  rcases hwait i hi with ⟨j,hj,-,hij⟩
  exact absurd (hmax j hj) (not_le.mpr (h i j hij))

/-- Two threads that wait for each other are. -/
theorem deadlock_of_pair {ts : List (Thread ι)} {i j : ℕ} (hne : i ≠ j) (h : WaitsFor ts i j)
    (h' : WaitsFor ts j i) : Deadlock ts := by
  refine ⟨{i,j},⟨i,Set.mem_insert _ _⟩,fun k hk => ?_⟩
  rcases hk with rfl | rfl
  · exact ⟨j,Set.mem_insert_of_mem _ rfl,hne.symm,h⟩
  · exact ⟨i,Set.mem_insert _ _,hne,h'⟩

variable [DecidableEq ι]

/-- The locks a thread holds after an action. -/
def hold (held : List (ι × Mode)) : Action ι → List (ι × Mode)
  | .acquire lock mode => (lock,mode)::held
  | .release lock => held.eraseP fun x => x.1 = lock

def Thread.next (t : Thread ι) : Thread ι :=
  match t.todo with
  | [] => t
  | action::rest => ⟨hold t.held action,rest⟩

def Grants (ts : List (Thread ι)) (lock : ι) (mode : Mode) : Prop :=
  ∀ t ∈ ts, ∀ x ∈ t.held, x.1 = lock → ¬mode.excludes x.2

instance grantsDecidable (ts : List (Thread ι)) (lock : ι) (mode : Mode) :
    Decidable (Grants ts lock mode) :=
  inferInstanceAs (Decidable (∀ t ∈ ts, ∀ x ∈ t.held, x.1 = lock → ¬mode.excludes x.2))

/-- The next of these actions can be made. -/
def Ready (ts : List (Thread ι)) : List (Action ι) → Prop
  | [] => False
  | .acquire lock mode::_ => Grants ts lock mode
  | .release _::_ => True

instance readyDecidable (ts : List (Thread ι)) : (todo : List (Action ι)) → Decidable (Ready ts todo)
  | [] => instDecidableFalse
  | .acquire lock mode::_ => inferInstanceAs (Decidable (Grants ts lock mode))
  | .release _::_ => instDecidableTrue

/-- A thread begins with a path of actions, or one goes on. -/
inductive Event (ι : Type)
  | begin (path : List (Action ι))
  | act (i : ℕ)
  deriving DecidableEq, Repr

def step (ts : List (Thread ι)) : Event ι → Option (List (Thread ι))
  | .begin path => some (ts++[⟨[],path⟩])
  | .act i => (ts[i]?).bind fun t => if Ready ts t.todo then some (ts.set i t.next) else none

/-- Along a path every action meets `P`, given the locks that are held, and in the end none is. -/
def Along (P : List (ι × Mode) → Action ι → Prop) :
    List (ι × Mode) → List (Action ι) → Prop
  | held, [] => held = []
  | held, action::rest => P held action ∧ Along P (hold held action) rest

instance alongDecidable {P : List (ι × Mode) → Action ι → Prop} [∀ h a, Decidable (P h a)] :
    (held : List (ι × Mode)) → (path : List (Action ι)) → Decidable (Along P held path)
  | held, [] => inferInstanceAs (Decidable (held = []))
  | held, action::rest => @instDecidableAnd _ _ _ (alongDecidable (hold held action) rest)

variable {P : List (ι × Mode) → Action ι → Prop} {ts ts' : List (Thread ι)} {t : Thread ι}

theorem Along.next (h : Along P t.held t.todo) : Along P t.next.held t.next.todo := by
  unfold Thread.next
  split
  · rename_i htodo
    rw [htodo] at h ⊢
    exact h
  · rename_i htodo
    rw [htodo] at h
    exact h.2

/-- The paths of a run that begins with sound ones stay sound. -/
theorem Along.step {e : Event ι} (h : ∀ t ∈ ts, Along P t.held t.todo)
    (hbegin : ∀ path, e = .begin path → Along P [] path) (hs : step ts e = some ts') :
    ∀ t ∈ ts', Along P t.held t.todo := by
  cases e with
  | begin path =>
    cases hs
    intro t ht
    rcases List.mem_append.mp ht with ht | ht
    · exact h t ht
    · cases List.mem_singleton.mp ht
      exact hbegin path rfl
  | act i =>
    rcases Option.bind_eq_some_iff.mp hs with ⟨u,hu,hs⟩
    rcases Option.ite_none_right_eq_some.mp hs with ⟨-,hs⟩
    cases hs
    intro t ht
    rcases List.mem_or_eq_of_mem_set ht with ht | rfl
    · exact h t ht
    · exact (h u (List.mem_of_getElem? hu)).next

end Locks
end CtrlPt
