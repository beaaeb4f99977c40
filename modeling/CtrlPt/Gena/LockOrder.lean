import CtrlPt.Lib.Locks

/-! The locks of the GENA calls: the reader/writer lock of the handle table and the mutex of
`SubscribeLock`. A call is the locks it takes and gives up along one of its branches. -/
namespace CtrlPt
namespace LockOrder

open Locks Transition

/-- `GlobalHndRWLock` and `GlobalClientSubscribeMutex` -/
inductive GenaLock
  | handle | subscribe
  deriving DecidableEq, Repr

def handleLock : Action GenaLock := .acquire .handle .exclusive
def handleReadLock : Action GenaLock := .acquire .handle .shared
def handleUnlock : Action GenaLock := .release .handle
def subscribeLock : Action GenaLock := .acquire .subscribe .exclusive
def subscribeUnlock : Action GenaLock := .release .subscribe

inductive SubscribeBranch
  | badHandle | transferFailed | handleGone | sidTooLong | outOfMemory | scheduled
  deriving DecidableEq, Repr

/-- Behind `error_handler`, which every branch comes to. -/
def errorHandler : List (Action GenaLock) := [handleUnlock,subscribeUnlock]

def genaSubscribe : SubscribeBranch → List (Action GenaLock)
  | .badHandle => [handleReadLock,subscribeLock]++errorHandler
  | .transferFailed | .handleGone | .sidTooLong | .outOfMemory | .scheduled =>
    [handleReadLock,handleUnlock,subscribeLock,handleLock]++errorHandler

/-- `first` is an event with key 0 whose SID is not known at once. -/
inductive NotifyBranch
  | badHeaders | noClient | found | unknownSid | firstNoClient | firstUnknownSid | firstFound
  deriving DecidableEq, Repr

def genaProcessNotificationEvent : NotifyBranch → List (Action GenaLock)
  | .badHeaders => []
  | .noClient | .found | .unknownSid => [handleLock,handleUnlock]
  | .firstNoClient | .firstUnknownSid | .firstFound =>
    [handleLock,handleUnlock,subscribeLock,handleLock,subscribeUnlock,handleUnlock]

inductive ExchangeBranch
  | badHandle | badSid | handleGone | networkFailure | sidGone | done
  deriving DecidableEq, Repr

/-- `genaRenewSubscription` and `genaUnSubscribe` lock the handles before and behind their
exchange. -/
def exchangePath : ExchangeBranch → List (Action GenaLock)
  | .badHandle | .badSid => [handleLock,handleUnlock]
  | .handleGone | .networkFailure | .sidGone | .done =>
    [handleLock,handleUnlock,handleLock,handleUnlock]

def genaRenewSubscription : ExchangeBranch → List (Action GenaLock) := exchangePath

def genaUnSubscribe : ExchangeBranch → List (Action GenaLock) := exchangePath

/-- A round for every subscription, and the one that finds none or no client. -/
def genaUnregisterClient : ℕ → List (Action GenaLock)
  | 0 => [handleLock,handleUnlock]
  | rounds+1 => handleLock::handleUnlock::genaUnregisterClient rounds

inductive Call
  | genaSubscribe (branch : SubscribeBranch)
  | genaProcessNotificationEvent (branch : NotifyBranch)
  | genaRenewSubscription (branch : ExchangeBranch)
  | genaUnSubscribe (branch : ExchangeBranch)
  | genaUnregisterClient (rounds : ℕ)
  deriving DecidableEq, Repr

def Call.path : Call → List (Action GenaLock)
  | .genaSubscribe branch => LockOrder.genaSubscribe branch
  | .genaProcessNotificationEvent branch => LockOrder.genaProcessNotificationEvent branch
  | .genaRenewSubscription branch => LockOrder.genaRenewSubscription branch
  | .genaUnSubscribe branch => LockOrder.genaUnSubscribe branch
  | .genaUnregisterClient rounds => LockOrder.genaUnregisterClient rounds

/-- A call begins, or one in progress goes on. -/
inductive Event
  | begin (call : Call)
  | act (i : ℕ)
  deriving DecidableEq, Repr

def Event.locks : Event → Locks.Event GenaLock
  | .begin call => .begin call.path
  | .act i => .act i

def step (ts : List (Thread GenaLock)) (e : Event) : Option (List (Thread GenaLock)) :=
  Locks.step ts e.locks

/-- What every action of a call may rely on: a lock that is given up is held, and a lock is only
waited for without the other one or with the one that is named here. -/
def Lawful (held : List (GenaLock × Mode)) : Action GenaLock → Prop
  | .acquire .handle mode =>
    held = [] ∨ held = [(.subscribe,.exclusive)] ∧ mode = .exclusive
  | .acquire .subscribe mode =>
    (held = [] ∨ held = [(.handle,.shared)]) ∧ mode = .exclusive
  | .release lock => ∃ x ∈ held, x.1 = lock

instance lawfulDecidable (held : List (GenaLock × Mode)) :
    (action : Action GenaLock) → Decidable (Lawful held action)
  | .acquire .handle mode =>
    inferInstanceAs (Decidable (held = [] ∨ held = [(.subscribe,.exclusive)] ∧ mode = .exclusive))
  | .acquire .subscribe mode =>
    inferInstanceAs (Decidable ((held = [] ∨ held = [(.handle,.shared)]) ∧ mode = .exclusive))
  | .release lock => inferInstanceAs (Decidable (∃ x ∈ held, x.1 = lock))

theorem genaUnregisterClient_lawful (rounds : ℕ) : Along Lawful [] (genaUnregisterClient rounds) := by
  induction rounds with
  | zero => decide
  | succ rounds ih => exact ⟨.inl rfl,⟨_,List.mem_cons_self,rfl⟩,ih⟩

theorem Call.lawful (call : Call) : Along Lawful [] call.path := by
  cases call with
  | genaSubscribe branch => cases branch <;> decide
  | genaProcessNotificationEvent branch => cases branch <;> decide
  | genaRenewSubscription branch => cases branch <;> decide
  | genaUnSubscribe branch => cases branch <;> decide
  | genaUnregisterClient rounds => exact genaUnregisterClient_lawful rounds

/-- `genaSubscribe` with a bad handle, between its two locks. -/
def Crossing (t : Thread GenaLock) : Prop :=
  t.held = [(.handle,.shared)] ∧ t.todo.head? = some subscribeLock

/-- A call that has the mutex and wants the handle lock. -/
def Nested (t : Thread GenaLock) : Prop :=
  t.held = [(.subscribe,.exclusive)] ∧ t.todo.head? = some handleLock

instance crossingDecidable (t : Thread GenaLock) : Decidable (Crossing t) :=
  inferInstanceAs (Decidable (t.held = [(.handle,.shared)] ∧ t.todo.head? = some subscribeLock))

instance nestedDecidable (t : Thread GenaLock) : Decidable (Nested t) :=
  inferInstanceAs (Decidable (t.held = [(.subscribe,.exclusive)] ∧ t.todo.head? = some handleLock))

/-- No call goes to where it is crossing while another one is nested, or the other way round. -/
def Apart (ts : List (Thread GenaLock)) : Event → Prop
  | .begin _ => True
  | .act i => ∀ t ∈ ts[i]?, (Crossing t.next → ∀ u ∈ ts, ¬Nested u) ∧
    (Nested t.next → ∀ u ∈ ts, ¬Crossing u)

instance apartDecidable : DecidableRel Apart := fun ts e =>
  match e with
  | .begin _ => isTrue trivial
  | .act i => inferInstanceAs (Decidable (∀ t ∈ ts[i]?, (Crossing t.next → ∀ u ∈ ts, ¬Nested u) ∧
    (Nested t.next → ∀ u ∈ ts, ¬Crossing u)))

/-- No deadlock; a call that has returned holds no lock; what is unlocked is held. -/
structure LocksSafe (ts : List (Thread GenaLock)) : Prop where
  noDeadlock : ¬Deadlock ts
  returned : ∀ t ∈ ts, t.todo = [] → t.held = []
  unlocks : ∀ t ∈ ts, ∀ lock rest, t.todo = .release lock::rest → ∃ x ∈ t.held, x.1 = lock

structure Inv (ts : List (Thread GenaLock)) : Prop where
  lawful : ∀ t ∈ ts, Along Lawful t.held t.todo
  apart : ∀ t ∈ ts, ∀ u ∈ ts, Crossing t → ¬Nested u

/-- How far a waiting call is from one that goes on. -/
def rankOf (t : Thread GenaLock) : ℕ :=
  match t.todo.head? with
  | some (.acquire lock _) => if t.held = [] then 0 else if lock = .subscribe then 1 else 2
  | _ => 3

variable {ts : List (Thread GenaLock)}

/-- A waiting call that holds a lock is crossing or nested. -/
theorem waiting_cases {t : Thread GenaLock} (h : Along Lawful t.held t.todo) {lock : GenaLock}
    {mode : Mode} {rest : List (Action GenaLock)} (htodo : t.todo = .acquire lock mode::rest) :
    t.held = [] ∨ Crossing t ∧ lock = .subscribe ∨ Nested t ∧ lock = .handle := by
  rw [htodo] at h
  have hlawful := h.1
  cases lock with
  | handle =>
    rcases hlawful with hheld | ⟨hheld,rfl⟩
    · exact .inl hheld
    · exact .inr (.inr ⟨⟨hheld,by rw [htodo]; rfl⟩,rfl⟩)
  | subscribe =>
    rcases hlawful with ⟨hheld | hheld,rfl⟩
    · exact .inl hheld
    · exact .inr (.inl ⟨⟨hheld,by rw [htodo]; rfl⟩,rfl⟩)

theorem rankOf_free {t : Thread GenaLock} {lock : GenaLock} {mode : Mode}
    {rest : List (Action GenaLock)} (htodo : t.todo = .acquire lock mode::rest)
    (hheld : t.held = []) : rankOf t = 0 := by
  rw [rankOf,htodo]
  exact if_pos hheld

theorem rankOf_crossing {t : Thread GenaLock} (h : Crossing t) : rankOf t = 1 := by
  rw [rankOf,h.2,subscribeLock,h.1]
  rfl

theorem rankOf_nested {t : Thread GenaLock} (h : Nested t) : rankOf t = 2 := by
  rw [rankOf,h.2,handleLock,h.1]
  rfl

theorem rankOf_going {t : Thread GenaLock}
    (h : ∀ lock mode rest, t.todo ≠ .acquire lock mode::rest) : rankOf t = 3 := by
  unfold rankOf
  split
  · rename_i lock mode hhead
    cases htodo : t.todo with
    | nil =>
      rw [htodo] at hhead
      cases hhead
    | cons action rest =>
      rw [htodo] at hhead
      cases hhead
      exact absurd htodo (h _ _ _)
  · rfl

/-- Where no call is crossing beside a nested one, waiting goes up. -/
theorem Inv.rank_lt (h : Inv ts) {i j : ℕ} (hw : WaitsFor ts i j) :
    rankOf (ts.getD i ⟨[],[]⟩) < rankOf (ts.getD j ⟨[],[]⟩) := by
  rcases hw with ⟨t,u,lock,mode,rest,mode',hi,hj,htodo,hheld,hex⟩
  rw [List.getD_eq_getElem?_getD,List.getD_eq_getElem?_getD,hi,hj]
  show rankOf t < rankOf u
  have ht := List.mem_of_getElem? hi
  have hu := List.mem_of_getElem? hj
  have hle : rankOf t ≤ 2 := by
    rcases waiting_cases (h.lawful t ht) htodo with hfree | ⟨hc,-⟩ | ⟨hn,-⟩
    · rw [rankOf_free htodo hfree]
      omega
    · rw [rankOf_crossing hc]
      omega
    · rw [rankOf_nested hn]
  by_cases hgoing : ∀ lock mode rest, u.todo ≠ .acquire lock mode::rest
  · rw [rankOf_going hgoing]
    omega
  · push Not at hgoing
    rcases hgoing with ⟨lock₂,mode₂,rest₂,hutodo⟩
    rcases waiting_cases (h.lawful u hu) hutodo with hfree | ⟨hc,-⟩ | ⟨hn,-⟩
    · rw [hfree] at hheld
      cases hheld
    · -- the handle lock is what the other one waits for
      rw [hc.1,List.mem_singleton] at hheld
      cases hheld
      rw [rankOf_crossing hc]
      rcases waiting_cases (h.lawful t ht) htodo with hfree | ⟨-,hl⟩ | ⟨hn,-⟩
      · rw [rankOf_free htodo hfree]
        omega
      · cases hl
      · exact absurd hn (h.apart u hu t ht hc)
    · rw [hn.1,List.mem_singleton] at hheld
      cases hheld
      rw [rankOf_nested hn]
      rcases waiting_cases (h.lawful t ht) htodo with hfree | ⟨hc,-⟩ | ⟨-,hl⟩
      · rw [rankOf_free htodo hfree]
        omega
      · rw [rankOf_crossing hc]
        omega
      · cases hl

theorem Inv.safe (h : Inv ts) : LocksSafe ts where
  noDeadlock := no_deadlock_of_rank (fun i => rankOf (ts.getD i ⟨[],[]⟩)) fun _ _ => h.rank_lt
  returned := by
    intro t ht htodo
    have hlawful := h.lawful t ht
    rw [htodo] at hlawful
    exact hlawful
  unlocks := by
    intro t ht lock rest htodo
    have hlawful := h.lawful t ht
    rw [htodo] at hlawful
    exact hlawful.1

theorem Inv.step {ts' : List (Thread GenaLock)} (h : Inv ts) (e : Event) (hok : Apart ts e)
    (hs : step ts e = some ts') : Inv ts' := by
  refine ⟨Along.step h.lawful ?_ hs,?_⟩
  · rintro path hpath
    cases e with
    | begin call =>
      cases hpath
      exact call.lawful
    | act i => cases hpath
  · cases e with
    | begin call =>
      cases hs
      intro t ht u hu hc hn
      rcases List.mem_append.mp ht with ht | ht
      · rcases List.mem_append.mp hu with hu | hu
        · exact h.apart t ht u hu hc hn
        · cases List.mem_singleton.mp hu
          cases hn.1
      · cases List.mem_singleton.mp ht
        cases hc.1
    | act i =>
      rcases Option.bind_eq_some_iff.mp hs with ⟨v,hv,hs⟩
      rcases Option.ite_none_right_eq_some.mp hs with ⟨-,hs⟩
      cases hs
      rcases hok v hv with ⟨hcross,hnest⟩
      intro t ht u hu hc hn
      rcases List.mem_or_eq_of_mem_set ht with ht | rfl
      · rcases List.mem_or_eq_of_mem_set hu with hu | rfl
        · exact h.apart t ht u hu hc hn
        · exact hnest hn t ht hc
      · rcases List.mem_or_eq_of_mem_set hu with hu | rfl
        · exact hcross hc u hu hn
        · have hheld := hc.1
          rw [hn.1] at hheld
          cases hheld

/-- A crossing call beside a nested one is a deadlock at once. -/
theorem entangled_deadlock {t u : Thread GenaLock} (ht : t ∈ ts) (hu : u ∈ ts) (hc : Crossing t)
    (hn : Nested u) : Deadlock ts := by
  rcases List.mem_iff_getElem?.mp ht with ⟨i,hi⟩
  rcases List.mem_iff_getElem?.mp hu with ⟨j,hj⟩
  have hne : i ≠ j := by
    rintro rfl
    rw [hi] at hj
    cases hj
    have hheld := hc.1
    rw [hn.1] at hheld
    cases hheld
  rcases List.head?_eq_some_iff.mp hc.2 with ⟨rest,htodo⟩
  rcases List.head?_eq_some_iff.mp hn.2 with ⟨rest',htodo'⟩
  refine deadlock_of_pair hne ?_ ?_
  · exact ⟨t,u,.subscribe,.exclusive,rest,.exclusive,hi,hj,htodo,by rw [hn.1]; exact .head _,by decide⟩
  · exact ⟨u,t,.handle,.exclusive,rest',.shared,hj,hi,htodo',by rw [hc.1]; exact .head _,by decide⟩

/-- In a run that keeps the two apart the locks are safe. -/
theorem genaLocks_apart_safe (ts : List (Thread GenaLock)) (h : Runs LockOrder.step Apart [] ts) :
    LocksSafe ts := by
  have hinit : Inv [] :=
    ⟨fun t ht => absurd ht List.not_mem_nil,fun t ht => absurd ht List.not_mem_nil⟩
  exact Inv.safe (h.invariant hinit fun _ e _ hs hok ht => hs.step e hok ht)

theorem genaLocks_apart_safe_two :
    ∃ ts, run LockOrder.step Apart [] [.begin (.genaSubscribe .scheduled),
        .begin (.genaSubscribe .badHandle),.act 1,.act 0,.act 1,.act 0,.act 1,.act 1,.act 0,.act 0,
        .act 0,.act 0] = some ts ∧ ts.map Thread.todo = [[],[]] ∧ LocksSafe ts := by
  have hrun : run LockOrder.step Apart [] [.begin (.genaSubscribe .scheduled),
      .begin (.genaSubscribe .badHandle),.act 1,.act 0,.act 1,.act 0,.act 1,.act 1,.act 0,.act 0,
      .act 0,.act 0] = some [⟨[],[]⟩,⟨[],[]⟩] := by decide
  exact ⟨_,hrun,rfl,genaLocks_apart_safe _ (Runs.of_run _ hrun)⟩

/-- A subscription waits for its reply, and another one has a bad handle. -/
theorem badHandle_deadlock :
    ∃ ts, Runs LockOrder.step Transition.free [] ts ∧ ¬LocksSafe ts := by
  have hrun : run LockOrder.step Transition.free [] [.begin (.genaSubscribe .scheduled),
      .begin (.genaSubscribe .badHandle),.act 0,.act 0,.act 0,.act 1] =
        some [⟨[(.subscribe,.exclusive)],[handleLock,handleUnlock,subscribeUnlock]⟩,
          ⟨[(.handle,.shared)],[subscribeLock,handleUnlock,subscribeUnlock]⟩] := by decide
  refine ⟨_,Runs.of_run _ hrun,fun h => h.noDeadlock ?_⟩
  exact entangled_deadlock (.tail _ (.head _)) (.head _) ⟨rfl,rfl⟩ ⟨rfl,rfl⟩

end LockOrder
end CtrlPt
