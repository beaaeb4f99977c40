import CtrlPt.Thread.Timer

/-! Runs of the timer thread. A step is a region that runs under `timer->mutex`. -/
namespace CtrlPt
namespace Thread

open EventQueue Transition

/-- What `free_func` is called with. -/
structure FreeCall where
  func : ℕ
  arg : ℕ
  deriving DecidableEq, Repr

/-- What became of an event. `others` were pending beside it at that moment. -/
inductive Fate
  | handed (duration : Duration) (time : ℤ) (others : List (TimerEvent ThreadPoolJob))
  | refused (time : ℤ) (others : List (TimerEvent ThreadPoolJob)) (freed : Option FreeCall)
  | removed
  | shutDown (freed : Option FreeCall)
  deriving DecidableEq, Repr

structure Outcome where
  id : ℤ
  job : ThreadPoolJob
  fate : Fate
  deriving DecidableEq, Repr

/-- How far `TimerThreadShutdown` is. -/
inductive TimerPhase
  | running | stopping | stopped
  deriving DecidableEq, Repr

/-- `accepted` has the events `TimerThreadSchedule` returned 0 for, with the identifier it
stored. -/
structure TimerRun where
  timer : TimerThread ThreadPoolJob
  time : ℤ
  worker : Bool
  phase : TimerPhase
  accepted : List (TimerEvent ThreadPoolJob)
  outcomes : List Outcome
  deriving DecidableEq, Repr

def TimerRun.init (time : ℤ) : TimerRun := ⟨.init,time,true,.running,[],[]⟩

/-- The pool has not taken the job; a null argument is 0. -/
def refusedFree (job : ThreadPoolJob) : Option FreeCall :=
  if job.arg ≠ 0 then job.freeFunc.map fun f => ⟨f,job.arg⟩ else none

def shutdownFree (job : ThreadPoolJob) : Option FreeCall :=
  job.freeFunc.map fun f => ⟨f,job.arg⟩

namespace TimerRun

/-- The clock was read before the mutex was taken, at `asked`. -/
def schedule (r : TimerRun) (asked timeout : ℤ) (type : TimeoutType) (job : ThreadPoolJob)
    (duration : Duration) (alloc : TimerAlloc) : TimerRun :=
  let s := timerThreadSchedule r.timer asked timeout type job duration alloc
  { r with
    timer := s.timer
    accepted :=
      if s.rc = 0 then ⟨job,duration,calculateEventTime asked timeout type,s.id⟩::r.accepted
      else r.accepted }

def remove (r : TimerRun) (id : ℤ) : TimerRun :=
  let x := timerThreadRemove r.timer id
  { r with
    timer := x.2
    outcomes := (x.1.map fun job => ⟨id,job,.removed⟩).toList ++ r.outcomes }

/-- A round of `TimerThreadWorker`, up to where it waits or begins again. `taken` is whether the
pool takes the job. -/
def round (r : TimerRun) (taken : Bool) : TimerRun :=
  if r.timer.shutdown then
    { r with worker := false, timer := { r.timer with shutdown := false } }
  else
    match nextEvent r.timer r.time with
    | none => r
    | some (event,timer) =>
      { r with
        timer := timer
        outcomes := ⟨event.id,event.job,
          if taken then .handed event.persistent r.time timer.eventQ
          else .refused r.time timer.eventQ (refusedFree event.job)⟩::r.outcomes }

/-- `TimerThreadShutdown` up to its wait. -/
def shutdown (r : TimerRun) : TimerRun :=
  { r with
    timer := { r.timer with shutdown := true, eventQ := [] }
    phase := .stopping
    outcomes :=
      (r.timer.eventQ.map fun e => ⟨e.id,e.job,.shutDown (shutdownFree e.job)⟩) ++ r.outcomes }

end TimerRun

inductive TimerAction
  | pass (seconds : ℕ)
  | schedule (asked timeout : ℤ) (type : TimeoutType) (job : ThreadPoolJob) (duration : Duration)
    (alloc : TimerAlloc)
  | remove (id : ℤ)
  | round (taken : Bool)
  | shutdown
  | shutdownReturns
  deriving DecidableEq, Repr

/-- Nothing is scheduled once the shutdown has begun, and the mutex is gone when it returns. -/
def TimerRun.step (r : TimerRun) : TimerAction → Option TimerRun
  | .pass seconds => some { r with time := r.time+seconds }
  | .schedule asked timeout type job duration alloc =>
    if r.phase = .running then some (r.schedule asked timeout type job duration alloc) else none
  | .remove id => if r.phase = .stopped then none else some (r.remove id)
  | .round taken => if r.worker then some (r.round taken) else none
  | .shutdown => if r.phase = .running then some r.shutdown else none
  | .shutdownReturns =>
    if r.phase = .stopping ∧ r.timer.shutdown = false then some { r with phase := .stopped }
    else none

/-- The event was due, nothing beside it was earlier, and its argument was freed as the pool's
answer asks for. -/
def Fate.Fair (e : TimerEvent ThreadPoolJob) : Fate → Prop
  | .handed duration time others =>
    duration = e.persistent ∧ e.eventTime ≤ time ∧ ∀ b ∈ others, e.eventTime ≤ b.eventTime
  | .refused time others freed =>
    e.eventTime ≤ time ∧ (∀ b ∈ others, e.eventTime ≤ b.eventTime) ∧ freed = refusedFree e.job
  | .removed => True
  | .shutDown freed => freed = shutdownFree e.job

/-- An event is known by its identifier and carries its job. -/
def TimerEvent.tag (e : TimerEvent ThreadPoolJob) : ℤ × ThreadPoolJob := (e.id,e.job)

def Outcome.tag (o : Outcome) : ℤ × ThreadPoolJob := (o.id,o.job)

/-- What was accepted is pending or has one outcome. -/
structure TimerSound (r : TimerRun) : Prop where
  sorted : Sorted TimerEvent.eventTime r.timer.eventQ
  distinct : Distinct TimerEvent.id r.timer.eventQ
  returned : ∀ e ∈ r.timer.eventQ, e ∈ r.accepted
  fates : (r.accepted.map TimerEvent.tag).Perm
    (r.timer.eventQ.map TimerEvent.tag ++ r.outcomes.map Outcome.tag)
  once : (r.timer.eventQ.map TimerEvent.id ++ r.outcomes.map Outcome.id).Nodup
  fair : ∀ o ∈ r.outcomes, ∃ e ∈ r.accepted, e.tag = o.tag ∧ o.fate.Fair e
  ended : r.phase ≠ .running → r.timer.eventQ = []

structure TimerRun.Inv (r : TimerRun) : Prop where
  valid : r.timer.Valid
  stamped : ∀ e ∈ r.accepted, e.id < r.timer.lastEventId
  unique : Distinct TimerEvent.id r.accepted
  returned : ∀ e ∈ r.timer.eventQ, e ∈ r.accepted
  fates : (r.accepted.map TimerEvent.tag).Perm
    (r.timer.eventQ.map TimerEvent.tag ++ r.outcomes.map Outcome.tag)
  fair : ∀ o ∈ r.outcomes, ∃ e ∈ r.accepted, e.tag = o.tag ∧ o.fate.Fair e
  ended : r.phase ≠ .running → r.timer.eventQ = []

theorem TimerRun.Inv.init (time : ℤ) : (TimerRun.init time).Inv where
  valid := .init
  stamped := fun _ he => absurd he List.not_mem_nil
  unique := List.nodup_nil
  returned := fun _ he => absurd he List.not_mem_nil
  fates := List.Perm.nil
  fair := fun _ ho => absurd ho List.not_mem_nil
  ended := fun _ => rfl

theorem TimerRun.Inv.sound {r : TimerRun} (h : r.Inv) : TimerSound r where
  sorted := h.valid.sorted
  distinct := h.valid.distinct
  returned := h.returned
  fates := h.fates
  once := by
    have hp := h.fates.map Prod.fst
    rw [List.map_append,List.map_map,List.map_map,List.map_map] at hp
    exact hp.nodup_iff.mp h.unique
  fair := h.fair
  ended := h.ended

/-- Events leave the queue and get their outcomes. -/
theorem TimerRun.Inv.retire {r : TimerRun} (h : r.Inv) {timer : TimerThread ThreadPoolJob}
    (new : List Outcome) {phase : TimerPhase} (hv : timer.Valid)
    (hcount : timer.lastEventId = r.timer.lastEventId)
    (hperm : (r.timer.eventQ.map TimerEvent.tag).Perm
      (timer.eventQ.map TimerEvent.tag ++ new.map Outcome.tag))
    (hsub : ∀ e ∈ timer.eventQ, e ∈ r.timer.eventQ)
    (hfair : ∀ o ∈ new, ∃ e ∈ r.timer.eventQ, e.tag = o.tag ∧ o.fate.Fair e)
    (hended : phase ≠ .running → timer.eventQ = []) :
    ({ r with timer := timer, phase := phase, outcomes := new ++ r.outcomes } : TimerRun).Inv where
  valid := hv
  stamped := by
    intro e he
    rw [hcount]
    exact h.stamped e he
  unique := h.unique
  returned := fun e he => h.returned e (hsub e he)
  fates := by
    refine h.fates.trans ?_
    rw [List.map_append,← List.append_assoc]
    exact hperm.append_right _
  fair := by
    intro o ho
    rcases List.mem_append.mp ho with ho | ho
    · rcases hfair o ho with ⟨e,he,h'⟩
      exact ⟨e,h.returned e he,h'⟩
    · exact h.fair o ho
  ended := hended

theorem TimerRun.Inv.schedule {r : TimerRun} (h : r.Inv) (hphase : r.phase = .running)
    (asked timeout : ℤ) (type : TimeoutType) (job : ThreadPoolJob) (duration : Duration)
    (alloc : TimerAlloc) : (r.schedule asked timeout type job duration alloc).Inv := by
  have hv : (r.schedule asked timeout type job duration alloc).timer.Valid := h.valid.schedule
  by_cases ha : alloc.event = true ∧ alloc.node = true
  · have hs := timerThreadSchedule_ok r.timer asked timeout type job duration ha
    rw [TimerRun.schedule,hs] at hv ⊢
    rw [if_pos rfl]
    have hperm : (insert TimerEvent.eventTime
        ⟨job,duration,calculateEventTime asked timeout type,r.timer.lastEventId⟩
          r.timer.eventQ).Perm _ := insert_perm _ _
    refine ⟨hv,?_,?_,?_,?_,?_,?_⟩
    · intro e he
      rcases List.mem_cons.mp he with rfl | he
      · exact Int.lt_succ _
      · exact Int.lt_add_one_of_le (h.stamped e he).le
    · refine List.nodup_cons.mpr ⟨fun hm => ?_,h.unique⟩
      rcases List.mem_map.mp hm with ⟨e,he,hid⟩
      exact (h.stamped e he).ne hid
    · intro e he
      rcases mem_insert.mp he with rfl | he
      · exact List.mem_cons_self
      · exact List.mem_cons_of_mem _ (h.returned e he)
    · exact (h.fates.cons _).trans ((hperm.map _).symm.append_right _)
    · intro o ho
      rcases h.fair o ho with ⟨e,he,h'⟩
      exact ⟨e,List.mem_cons_of_mem _ he,h'⟩
    · exact fun hne => absurd hphase hne
  · rcases timerThreadSchedule_fail r.timer asked timeout type job duration ha with ⟨hrc,hq⟩
    have hle := (timerThreadSchedule_spec r.timer asked timeout type job duration alloc).2.1
    have hacc : (r.schedule asked timeout type job duration alloc).accepted = r.accepted := by
      rw [TimerRun.schedule,hrc]
      rfl
    refine ⟨hv,?_,?_,?_,?_,?_,?_⟩
    · intro e he
      rw [hacc] at he
      exact lt_of_lt_of_le (h.stamped e he) hle
    · rw [hacc]
      exact h.unique
    · intro e he
      rw [hacc]
      exact h.returned e (hq ▸ he)
    · rw [hacc,show (r.schedule asked timeout type job duration alloc).timer.eventQ = _ from hq]
      exact h.fates
    · intro o ho
      rw [hacc]
      exact h.fair o ho
    · exact fun hne => absurd hphase hne

theorem TimerRun.Inv.remove {r : TimerRun} (h : r.Inv) (id : ℤ) : (r.remove id).Inv := by
  unfold TimerRun.remove timerThreadRemove
  rcases ht : take TimerEvent.id id r.timer.eventQ with _ | ⟨event,eventQ⟩
  · exact h
  · rcases take_some ht with ⟨hid,hperm,hsub⟩
    refine h.retire [_] (h.valid.sublist hsub) rfl ?_ (fun e he => hsub.subset he) ?_ ?_
    · rw [← hid]
      exact (hperm.map _).trans (List.perm_append_singleton _ _).symm
    · intro o ho
      cases List.mem_singleton.mp ho
      refine ⟨event,hperm.mem_iff.mpr List.mem_cons_self,?_,trivial⟩
      rw [← hid]
      rfl
    · intro hne
      have hq := h.ended hne
      rw [hq] at hsub
      exact List.sublist_nil.mp hsub

/-- A worker that sees the flag leaves and clears it. -/
theorem TimerRun.Inv.round {r : TimerRun} (h : r.Inv) (taken : Bool) : (r.round taken).Inv := by
  unfold TimerRun.round
  split
  · exact ⟨⟨h.valid.sorted,h.valid.distinct,h.valid.stamped,h.valid.counted⟩,h.stamped,h.unique,
      h.returned,h.fates,h.fair,h.ended⟩
  · rcases hn : nextEvent r.timer r.time with _ | ⟨event,timer⟩
    · exact h
    · rcases nextEvent_some hn with ⟨rest,hq,hdue,rfl⟩
      have hmem : event ∈ r.timer.eventQ := by
        rw [hq]
        exact List.mem_cons_self
      have hfirst : ∀ b ∈ rest, event.eventTime ≤ b.eventTime := by
        have hsorted := h.valid.sorted
        rw [hq] at hsorted
        exact hsorted.head_le
      refine h.retire [_] (h.valid.next hn) rfl ?_ ?_ ?_ ?_
      · rw [hq]
        exact (List.perm_append_singleton _ _).symm
      · intro e he
        rw [hq]
        exact List.mem_cons_of_mem _ he
      · intro o ho
        cases List.mem_singleton.mp ho
        refine ⟨event,hmem,rfl,?_⟩
        cases taken with
        | true => exact ⟨rfl,hdue,hfirst⟩
        | false => exact ⟨hdue,hfirst,rfl⟩
      · intro hne
        have he := h.ended hne
        rw [hq] at he
        cases he

theorem TimerRun.Inv.shutdown {r : TimerRun} (h : r.Inv) : r.shutdown.Inv := by
  have hv : r.shutdown.timer.Valid := by
    have hv := h.valid.sublist (List.nil_sublist _)
    exact ⟨hv.sorted,hv.distinct,hv.stamped,hv.counted⟩
  refine h.retire _ hv rfl ?_ (fun e he => absurd he List.not_mem_nil) ?_ fun _ => rfl
  · rw [List.map_map]
    exact List.Perm.refl _
  · intro o ho
    rcases List.mem_map.mp ho with ⟨e,he,rfl⟩
    exact ⟨e,he,rfl,rfl⟩

theorem TimerRun.Inv.step {r r' : TimerRun} (h : r.Inv) (a : TimerAction)
    (hs : r.step a = some r') : r'.Inv := by
  cases a with
  | pass seconds =>
    cases hs
    exact ⟨h.valid,h.stamped,h.unique,h.returned,h.fates,h.fair,h.ended⟩
  | schedule asked timeout type job duration alloc =>
    rcases Option.ite_none_right_eq_some.mp hs with ⟨hphase,hs⟩
    cases hs
    exact h.schedule hphase asked timeout type job duration alloc
  | remove id =>
    rcases Option.ite_none_left_eq_some.mp hs with ⟨-,hs⟩
    cases hs
    exact h.remove id
  | round taken =>
    rcases Option.ite_none_right_eq_some.mp hs with ⟨-,hs⟩
    cases hs
    exact h.round taken
  | shutdown =>
    rcases Option.ite_none_right_eq_some.mp hs with ⟨-,hs⟩
    cases hs
    exact h.shutdown
  | shutdownReturns =>
    rcases Option.ite_none_right_eq_some.mp hs with ⟨hphase,hs⟩
    cases hs
    refine ⟨h.valid,h.stamped,h.unique,h.returned,h.fates,h.fair,fun _ => h.ended ?_⟩
    rw [hphase.1]
    decide

/-- Every event that was accepted is pending or meets one fate. -/
theorem timerThread_fates (time : ℤ) (r : TimerRun)
    (h : Runs TimerRun.step Transition.free (.init time) r) : TimerSound r := by
  refine TimerRun.Inv.sound (h.invariant (TimerRun.Inv.init time) ?_)
  intro s a t hs _ ht
  exact hs.step a ht

/-- One event is removed, one is handed to the pool, one is refused and one is left to the
shutdown. -/
def fourEvents : List TimerAction :=
  let job := { ThreadPoolJob.ofFunc 1 with arg := 7, freeFunc := some 2 }
  [.schedule 100 30 .relSec job .shortTerm ⟨true,true⟩,
    .schedule 100 105 .absSec job .persistent ⟨true,true⟩,
    .schedule 100 10 .relSec job .shortTerm ⟨true,true⟩,
    .schedule 100 500 .absSec job .shortTerm ⟨true,true⟩,
    .remove 2,.pass 10,.round true,.pass 40,.round false,.round true,.shutdown,.round true,
    .shutdownReturns]

theorem timerThread_fates_four :
    ∃ r, run TimerRun.step Transition.free (.init 100) fourEvents = some r ∧
      r.accepted.length = 4 ∧ r.outcomes.length = 4 ∧ TimerSound r := by
  refine ⟨_,rfl,by decide,by decide,?_⟩
  exact timerThread_fates 100 _ (Runs.of_run fourEvents rfl)

end Thread
end CtrlPt
