import CtrlPt.Lib.EventQueue
import CtrlPt.Thread.Pool

/-! The timer thread of `TimerThread.c`. Jobs wait in `eventQ` for their time. -/
namespace CtrlPt
namespace Thread

open CText EventQueue

/-- `-10 & 1<<29` -/
def invalidEventId : ℤ := 2^29

inductive TimeoutType
  | absSec | relSec
  deriving DecidableEq, Repr

inductive Duration
  | shortTerm | persistent
  deriving DecidableEq, Repr

structure TimerEvent (α : Type) where
  job : α
  persistent : Duration
  eventTime : ℤ
  id : ℤ
  deriving DecidableEq, Repr

structure TimerThread (α : Type) where
  /-- An `int` of the source, which counts alike up to `2^31` (`TimerThread.Valid.int`). -/
  lastEventId : ℤ
  eventQ : List (TimerEvent α)
  shutdown : Bool
  deriving DecidableEq, Repr

variable {α : Type}

def TimerThread.init : TimerThread α := ⟨0,[],false⟩

/-- Whether the two allocations of `TimerThreadSchedule` succeed, that of the event and that of
its list node. -/
structure TimerAlloc where
  event : Bool
  node : Bool
  deriving DecidableEq, Repr

/-- What is returned, the id that is stored, and the timer. -/
structure Scheduled (α : Type) where
  rc : ℤ
  id : ℤ
  timer : TimerThread α
  deriving DecidableEq, Repr

/-- `time` answers `now`. -/
def calculateEventTime (now timeout : ℤ) : TimeoutType → ℤ
  | .absSec => timeout
  | .relSec => timeout+now

/-- An event that gets no list node uses up an id. -/
def timerThreadSchedule (timer : TimerThread α) (now timeout : ℤ) (type : TimeoutType) (job : α)
    (duration : Duration) (alloc : TimerAlloc) : Scheduled α :=
  let newEvent : TimerEvent α :=
    ⟨job,duration,calculateEventTime now timeout type,timer.lastEventId⟩
  if alloc.event = false then ⟨eoutofmem,invalidEventId,timer⟩
  else if alloc.node = false then
    ⟨eoutofmem,timer.lastEventId,{ timer with lastEventId := timer.lastEventId+1 }⟩
  else
    ⟨0,timer.lastEventId,{ timer with
      lastEventId := timer.lastEventId+1
      eventQ := insert TimerEvent.eventTime newEvent timer.eventQ }⟩

/-- The job that is taken out; `none` for `INVALID_EVENT_ID`. -/
def timerThreadRemove (timer : TimerThread α) (id : ℤ) : Option α × TimerThread α :=
  match take TimerEvent.id id timer.eventQ with
  | some (event,eventQ) => (some event.job,{ timer with eventQ := eventQ })
  | none => (none,timer)

/-- A round of the loop of `TimerThreadWorker` that finds an event whose time has come. -/
def nextEvent (timer : TimerThread α) (currentTime : ℤ) :
    Option (TimerEvent α × TimerThread α) :=
  match timer.eventQ with
  | [] => none
  | head::rest =>
    if head.eventTime ≤ currentTime then some (head,{ timer with eventQ := rest }) else none

/-- What holds of a timer that was filled by `TimerThreadSchedule`. -/
structure TimerThread.Valid (timer : TimerThread α) : Prop where
  sorted : Sorted TimerEvent.eventTime timer.eventQ
  distinct : Distinct TimerEvent.id timer.eventQ
  stamped : ∀ e ∈ timer.eventQ, 0 ≤ e.id ∧ e.id < timer.lastEventId
  counted : 0 ≤ timer.lastEventId

theorem TimerThread.Valid.init : (TimerThread.init : TimerThread α).Valid where
  sorted := List.Pairwise.nil
  distinct := List.nodup_nil
  stamped := by
    intro e he
    cases he
  counted := le_rfl

/-- A queue that only loses events stays as it should be. -/
theorem TimerThread.Valid.sublist {timer : TimerThread α} (h : timer.Valid)
    {eventQ : List (TimerEvent α)} (hs : eventQ.Sublist timer.eventQ) :
    ({ timer with eventQ := eventQ } : TimerThread α).Valid where
  sorted := h.sorted.sublist hs
  distinct := h.distinct.sublist hs
  stamped := fun e he => h.stamped e (hs.subset he)
  counted := h.counted

/-- Scheduling succeeds when both allocations do, and stores an event then. -/
theorem timerThreadSchedule_ok (timer : TimerThread α) (now timeout : ℤ) (type : TimeoutType) (job : α)
    (duration : Duration)
    {alloc : TimerAlloc} (h : alloc.event = true ∧ alloc.node = true) :
    timerThreadSchedule timer now timeout type job duration alloc =
      ⟨0,timer.lastEventId,{ timer with
        lastEventId := timer.lastEventId+1
        eventQ := insert TimerEvent.eventTime
          ⟨job,duration,calculateEventTime now timeout type,timer.lastEventId⟩ timer.eventQ }⟩ := by
  rw [timerThreadSchedule,h.1,h.2]
  rfl

theorem timerThreadSchedule_fail (timer : TimerThread α) (now timeout : ℤ) (type : TimeoutType) (job : α)
    (duration : Duration)
    {alloc : TimerAlloc} (h : ¬(alloc.event = true ∧ alloc.node = true)) :
    (timerThreadSchedule timer now timeout type job duration alloc).rc = eoutofmem ∧
      (timerThreadSchedule timer now timeout type job duration alloc).timer.eventQ =
        timer.eventQ := by
  unfold timerThreadSchedule
  split
  · exact ⟨rfl,rfl⟩
  · split
    · exact ⟨rfl,rfl⟩
    · rename_i he hn
      exact absurd ⟨by simpa using he,by simpa using hn⟩ h

theorem timerThreadSchedule_id (timer : TimerThread α) (now timeout : ℤ) (type : TimeoutType)
    (job : α) (duration : Duration) (alloc : TimerAlloc) :
    (timerThreadSchedule timer now timeout type job duration alloc).id =
      if alloc.event = false then invalidEventId else timer.lastEventId := by
  unfold timerThreadSchedule
  split
  · rfl
  · split <;> rfl

/-- The one event that may be new has the id that is stored. -/
theorem timerThreadSchedule_spec (timer : TimerThread α) (now timeout : ℤ) (type : TimeoutType)
    (job : α) (duration : Duration) (alloc : TimerAlloc) :
    let r := timerThreadSchedule timer now timeout type job duration alloc
    (∀ e ∈ r.timer.eventQ, e ∈ timer.eventQ ∨
      r.rc = 0 ∧ e = ⟨job,duration,calculateEventTime now timeout type,r.id⟩) ∧
    timer.lastEventId ≤ r.timer.lastEventId ∧
    (r.rc = 0 → r.id = timer.lastEventId ∧ r.id < r.timer.lastEventId) := by
  dsimp only
  unfold timerThreadSchedule
  dsimp only
  split
  · exact ⟨fun e he => .inl he,le_rfl,by rintro ⟨⟩⟩
  · split
    · exact ⟨fun e he => .inl he,Int.le_add_one le_rfl,by rintro ⟨⟩⟩
    · refine ⟨fun e he => ?_,Int.le_add_one le_rfl,fun _ => ⟨rfl,Int.lt_succ _⟩⟩
      rcases mem_insert.mp he with rfl | he
      · exact .inr ⟨rfl,rfl⟩
      · exact .inl he

section

variable {timer : TimerThread α} {now timeout : ℤ} {type : TimeoutType} {job : α}
  {duration : Duration} {alloc : TimerAlloc}

theorem mem_schedule {e : TimerEvent α} (h : e ∈ timer.eventQ) :
    e ∈ (timerThreadSchedule timer now timeout type job duration alloc).timer.eventQ := by
  unfold timerThreadSchedule
  dsimp only
  split
  · exact h
  · split
    · exact h
    · exact mem_insert.mpr (.inr h)

theorem TimerThread.Valid.schedule (h : timer.Valid) :
    (timerThreadSchedule timer now timeout type job duration alloc).timer.Valid := by
  have hcount := h.counted
  unfold timerThreadSchedule
  split
  · exact h
  · split
    · refine ⟨h.sorted,h.distinct,fun e he => ⟨(h.stamped e he).1,?_⟩,Int.le_add_one hcount⟩
      exact Int.lt_add_one_of_le (h.stamped e he).2.le
    · refine ⟨h.sorted.insert _,h.distinct.insert ?_,?_,Int.le_add_one hcount⟩
      · intro e he
        exact (h.stamped e he).2.ne
      · intro e he
        rcases mem_insert.mp he with rfl | he
        · exact ⟨hcount,Int.lt_succ _⟩
        · exact ⟨(h.stamped e he).1,Int.lt_add_one_of_le (h.stamped e he).2.le⟩

/-- The counter of the source has not overflowed. -/
theorem TimerThread.Valid.int (h : timer.Valid) (hroom : timer.lastEventId+1 < 2^31) :
    toInt (timerThreadSchedule timer now timeout type job duration alloc).timer.lastEventId =
      (timerThreadSchedule timer now timeout type job duration alloc).timer.lastEventId := by
  have hv : (timerThreadSchedule timer now timeout type job duration alloc).timer.Valid := h.schedule
  have hcount := hv.counted
  have hle : (timerThreadSchedule timer now timeout type job duration alloc).timer.lastEventId ≤
      timer.lastEventId+1 := by
    unfold timerThreadSchedule
    split
    · exact Int.le_add_one le_rfl
    · split <;> exact le_rfl
  unfold toInt
  rw [Int.bmod_eq_of_le] <;> omega

theorem TimerThread.Valid.remove (h : timer.Valid) (id : ℤ) :
    (timerThreadRemove timer id).2.Valid := by
  unfold timerThreadRemove
  split
  · rename_i ht
    exact h.sublist (take_some ht).2.2
  · exact h

theorem nextEvent_some {event : TimerEvent α} {rest : TimerThread α}
    (h : nextEvent timer now = some (event,rest)) :
    ∃ eventQ, timer.eventQ = event::eventQ ∧ event.eventTime ≤ now ∧
      rest = { timer with eventQ := eventQ } := by
  unfold nextEvent at h
  split at h
  · cases h
  · rename_i hq
    split at h
    · rename_i hdue
      cases h
      exact ⟨_,hq,hdue,rfl⟩
    · cases h

theorem TimerThread.Valid.next (h : timer.Valid) {event : TimerEvent α} {rest : TimerThread α}
    (hn : nextEvent timer now = some (event,rest)) : rest.Valid := by
  rcases nextEvent_some hn with ⟨eventQ,hq,-,rfl⟩
  refine h.sublist ?_
  rw [hq]
  exact List.sublist_cons_self _ _

end

end Thread
end CtrlPt
