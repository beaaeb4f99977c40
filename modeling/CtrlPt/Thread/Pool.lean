import CtrlPt.Lib.Loop
import CtrlPt.Lib.Transition
import CtrlPt.CText

/-! The thread pool of `ThreadPool.c`. A step is a region that runs under `tp->mutex`: it
begins when a caller or a worker has the mutex and ends where the mutex is given up, at the
end of the call or at a wait for a condition. A waiting thread may wake at any time, as
condition variables allow. -/
namespace CtrlPt
namespace Thread

open CText

def emaxthreads : ℤ := 2^29
def eoutofmem : ℤ := 2^29
def invalidJobId : ℤ := 2^29
def einval : ℤ := 22
def infiniteThreads : ℤ := -1

structure Timeval where
  sec : ℤ
  usec : ℤ
  deriving DecidableEq, Repr

/-- `DiffMillis` drops the fraction. -/
def diffMillis (time1 time2 : Timeval) : ℤ :=
  Int.tdiv ((time1.sec-time2.sec)*1000000+(time1.usec-time2.usec)) 1000

inductive ThreadPriority
  | low | med | high
  deriving DecidableEq, Repr

/-- A function and its argument are known by number. `copy` is the number of the allocation
the job lives in, which the program does not see. -/
structure ThreadPoolJob where
  func : ℕ
  arg : ℕ
  freeFunc : Option ℕ
  requestTime : Timeval
  priority : ThreadPriority
  jobId : ℤ
  copy : ℕ
  deriving DecidableEq, Repr

def ThreadPoolJob.ofFunc (func : ℕ) : ThreadPoolJob := ⟨func,0,none,⟨0,0⟩,.med,0,0⟩

structure ThreadPoolAttr where
  minThreads : ℤ
  maxThreads : ℤ
  maxIdleTime : ℤ
  jobsPerThread : ℤ
  maxJobsTotal : ℤ
  starvationTime : ℤ
  deriving DecidableEq, Repr

structure ThreadPool where
  lastJobId : ℤ
  shutdown : Bool
  totalThreads : ℤ
  pendingWorkerThreadStart : Bool
  busyThreads : ℤ
  persistentThreads : ℤ
  lowJobQ : List ThreadPoolJob
  medJobQ : List ThreadPoolJob
  highJobQ : List ThreadPoolJob
  persistentJob : Option ThreadPoolJob
  attr : ThreadPoolAttr
  deriving DecidableEq, Repr

/-- What the system answers within one region: `ithread_create`, `ithread_detach`, the time,
and whether each allocation succeeds, in their order; those not listed do. -/
structure Env where
  create : ℤ
  detach : ℤ
  now : Timeval
  alloc : List Bool
  deriving DecidableEq, Repr

def Env.calm : Env := ⟨0,0,⟨0,0⟩,[]⟩

def Env.allocates (env : Env) (i : ℕ) : Bool := env.alloc.getD i true

namespace ThreadPool

def queued (tp : ThreadPool) : List ThreadPoolJob := tp.highJobQ ++ tp.medJobQ ++ tp.lowJobQ

def totalJobs (tp : ThreadPool) : ℤ :=
  tp.highJobQ.length+tp.lowJobQ.length+tp.medJobQ.length

/-- `ListAddTail` to the queue of the job's priority. -/
def enqueue (tp : ThreadPool) (job : ThreadPoolJob) : ThreadPool :=
  match job.priority with
  | .high => { tp with highJobQ := tp.highJobQ ++ [job] }
  | .med => { tp with medJobQ := tp.medJobQ ++ [job] }
  | .low => { tp with lowJobQ := tp.lowJobQ ++ [job] }

end ThreadPool

/-- One round of the loop of `BumpPriority`, which has asked for `x.1` nodes so far. A job
whose node cannot be allocated is in no queue any more. -/
def bumpRound (env : Env) (x : ℕ × ThreadPool) : (ℕ × ThreadPool) ⊕ ThreadPool :=
  let tp := x.2
  let low : (ℕ × ThreadPool) ⊕ ThreadPool :=
    match tp.lowJobQ with
    | [] => .inr tp
    | job::rest =>
      if tp.attr.maxIdleTime ≤ diffMillis env.now job.requestTime then
        .inl (x.1+1,{ tp with
          lowJobQ := rest
          medJobQ := if env.allocates x.1 then tp.medJobQ ++ [job] else tp.medJobQ })
      else .inr tp
  match tp.medJobQ with
  | [] => low
  | job::rest =>
    if tp.attr.starvationTime ≤ diffMillis env.now job.requestTime then
      .inl (x.1+1,{ tp with
        medJobQ := rest
        highJobQ := if env.allocates x.1 then tp.highJobQ ++ [job] else tp.highJobQ })
    else low

/-- A low job can be bumped twice, a med job once. -/
def bumpMeasure (x : ℕ × ThreadPool) : ℕ := 2*x.2.lowJobQ.length+x.2.medJobQ.length

def bumpPriority (env : Env) (tp : ThreadPool) : ThreadPool :=
  Loop.run bumpMeasure (bumpRound env) Prod.snd (0,tp)

/-- `CreateThreadPoolJob`, once its allocation has succeeded. -/
def createThreadPoolJob (job : ThreadPoolJob) (id : ℤ) (now : Timeval) (copy : ℕ) :
    ThreadPoolJob :=
  { job with jobId := id, requestTime := now, copy := copy }

/-- How `CreateWorker` goes on: it waits for another worker that is being started, it
returns, or it has created a worker and waits for it to start. -/
inductive Creation
  | starting
  | failed (rc : ℤ)
  | created (rc : ℤ)
  deriving DecidableEq, Repr

def createWorker (env : Env) (tp : ThreadPool) : Creation :=
  if tp.pendingWorkerThreadStart then .starting
  else if tp.attr.maxThreads ≠ infiniteThreads ∧ tp.attr.maxThreads < tp.totalThreads+1 then
    .failed emaxthreads
  else if env.create ≠ 0 then .failed env.create
  else .created (if env.detach = einval then 0 else env.detach)

/-- Where a worker thread is, with the job it holds and whether that came from
`persistentJob`. -/
inductive Worker
  | created
  | started
  | waiting
  | running (job : ThreadPoolJob) (persistent : Bool)
  | returned (job : ThreadPoolJob) (persistent : Bool)
  deriving DecidableEq, Repr

/-- The calls of `CreateWorker`: from `ThreadPoolInit`, which has `i` workers, from
`AddWorker` in a `ThreadPoolAdd` that will return `rc`, and from
`ThreadPoolAddPersistent`. -/
inductive Caller
  | init (i : ℤ)
  | add (jobs threads rc : ℤ) (copy : ℕ)
  | addPersistent (job : ThreadPoolJob)
  deriving DecidableEq, Repr

/-- The places at which a call waits: at the first and at the second loop of
`CreateWorker`, for the pickup of its persistent job, for the threads to finish, and, for
`ThreadPoolInit`, before its first region and before the cleanup. -/
inductive Waiting
  | starting (c : Caller)
  | started (c : Caller) (rc : ℤ)
  | pickup (copy : ℕ)
  | shutdown
  | init
  | initFailed
  deriving DecidableEq, Repr

/-- What a call of `ThreadPoolAdd` or `ThreadPoolAddPersistent` returned, the last value it
has written to `*jobId`, and the job it has created. -/
structure Ret where
  code : ℤ
  jobId : Option ℤ
  copy : Option ℕ
  deriving DecidableEq, Repr

/-- The pool, its workers, the calls that wait inside it, and a record of what has happened
so far: the number of jobs created, the calls that have returned, and the jobs that were
run, removed (with the id asked for) and released. -/
structure Sys where
  tp : ThreadPool
  workers : List Worker
  calls : List Waiting
  copies : ℕ
  rets : List Ret
  ran : List ThreadPoolJob
  removed : List (ℤ × ThreadPoolJob)
  released : List ThreadPoolJob
  ready : Bool
  destroyed : Bool
  /-- `AddWorker` has divided by a number of threads that was not positive. -/
  divFault : Bool
  deriving DecidableEq, Repr

namespace Sys

/-- `ThreadPoolInit` has been called. -/
def init (attr : ThreadPoolAttr) : Sys where
  tp := ⟨0,false,0,false,0,0,[],[],[],none,attr⟩
  workers := []
  calls := [.init]
  copies := 0
  rets := []
  ran := []
  removed := []
  released := []
  ready := false
  destroyed := false
  divFault := false

def wait (s : Sys) (w : Waiting) : Sys := { s with calls := w::s.calls }

def setPool (s : Sys) (tp : ThreadPool) : Sys := { s with tp := tp }

def spawn (s : Sys) : Sys :=
  { s with tp := { s.tp with pendingWorkerThreadStart := true }, workers := .created::s.workers }

def ret (s : Sys) (code : ℤ) (jobId : Option ℤ) (copy : Option ℕ) : Sys :=
  { s with rets := ⟨code,jobId,copy⟩::s.rets }

/-- The end of a call that has created a job: `*jobId = tp->lastJobId++`. -/
def endAdd (s : Sys) (rc : ℤ) (copy : ℕ) : Sys :=
  (s.setPool { s.tp with lastJobId := toInt (s.tp.lastJobId+1) }).ret rc (some s.tp.lastJobId)
    (some copy)

/-- `ThreadPoolAddPersistent` after its `CreateWorker`: the job is put into the slot, and
the call waits until it is no longer there. -/
def storePersistent (s : Sys) (job : ThreadPoolJob) (env : Env) : Sys :=
  if env.allocates 0 then
    let temp := createThreadPoolJob job s.tp.lastJobId env.now s.copies
    ({ s with
      tp := { s.tp with persistentJob := some temp }
      copies := s.copies+1 }).wait (.pickup s.copies)
  else s.ret eoutofmem (some invalidJobId) none

/-- What the callers do after a `CreateWorker` that returned an error. -/
def createFailed (s : Sys) (c : Caller) (env : Env) : Sys :=
  match c with
  | .init _ => s.wait .initFailed
  | .add _ _ rc copy => s.endAdd rc copy
  | .addPersistent job => s.storePersistent job env

def enterCreateWorker (s : Sys) (c : Caller) (env : Env) : Sys :=
  match createWorker env s.tp with
  | .starting => s.wait (.starting c)
  | .failed _ => s.createFailed c env
  | .created rc => s.spawn.wait (.started c rc)

/-- The test of `AddWorker` asks for `jobs / threads` only if `threads` is not zero. -/
def noteDivision (s : Sys) (threads : ℤ) : Sys :=
  { s with divFault := s.divFault || decide (threads < 0) }

def addWorker (s : Sys) (jobs threads rc : ℤ) (copy : ℕ) (env : Env) : Sys :=
  let s := s.noteDivision threads
  if threads = 0 ∨ s.tp.attr.jobsPerThread ≤ Int.tdiv jobs threads ∨
      s.tp.totalThreads = s.tp.busyThreads then
    s.enterCreateWorker (.add jobs threads rc copy) env
  else s.endAdd rc copy

def initLoop (s : Sys) (i : ℤ) (env : Env) : Sys :=
  if i < s.tp.attr.minThreads then s.enterCreateWorker (.init i) env
  else { s with ready := true }

/-- What the callers do after a `CreateWorker` that has started a worker. -/
def createReturned (s : Sys) (c : Caller) (rc : ℤ) (env : Env) : Sys :=
  if rc ≠ 0 then s.createFailed c env
  else
    match c with
    | .init i => s.initLoop (i+1) env
    | .add jobs threads rc copy => s.addWorker jobs (threads+1) rc copy env
    | .addPersistent job => s.storePersistent job env

def threadPoolAdd (s : Sys) (job : ThreadPoolJob) (env : Env) : Sys :=
  if s.tp.attr.maxJobsTotal ≤ s.tp.totalJobs then s.ret eoutofmem none none
  else if env.allocates 0 then
    let temp := createThreadPoolJob job s.tp.lastJobId env.now s.copies
    let s' := { s with
      tp := if env.allocates 1 then s.tp.enqueue temp else s.tp
      copies := s.copies+1 }
    s'.addWorker s'.tp.totalJobs (s'.tp.totalThreads-s'.tp.persistentThreads)
      (if env.allocates 1 then 0 else eoutofmem) s.copies env
  else s.ret eoutofmem (some invalidJobId) none

def threadPoolAddPersistent (s : Sys) (job : ThreadPoolJob) (env : Env) : Sys :=
  if s.tp.totalThreads < s.tp.attr.maxThreads then s.enterCreateWorker (.addPersistent job) env
  else if s.tp.totalThreads-s.tp.persistentThreads-1 = 0 then
    s.ret emaxthreads (some invalidJobId) none
  else s.storePersistent job env

end Sys

/-- `ListFind` by id and `ListDelNode`. -/
def takeJob (id : ℤ) : List ThreadPoolJob → Option (ThreadPoolJob × List ThreadPoolJob)
  | [] => none
  | job::rest =>
    if job.jobId = id then some (job,rest)
    else (takeJob id rest).map fun r => (r.1,job::r.2)

/-- The job `ThreadPoolRemove` finds, and the pool without it. -/
def ThreadPool.findJob (tp : ThreadPool) (id : ℤ) : Option (ThreadPoolJob × ThreadPool) :=
  match takeJob id tp.highJobQ with
  | some (job,q) => some (job,{ tp with highJobQ := q })
  | none =>
    match takeJob id tp.medJobQ with
    | some (job,q) => some (job,{ tp with medJobQ := q })
    | none =>
      match takeJob id tp.lowJobQ with
      | some (job,q) => some (job,{ tp with lowJobQ := q })
      | none =>
        match tp.persistentJob with
        | some job => if job.jobId = id then some (job,{ tp with persistentJob := none }) else none
        | none => none

/-- The job a worker picks up, and whether it is the persistent one. -/
def ThreadPool.pickJob (tp : ThreadPool) : Option (ThreadPoolJob × Bool × ThreadPool) :=
  match tp.persistentJob with
  | some job => some
    (job,true,{ tp with persistentJob := none, persistentThreads := tp.persistentThreads+1 })
  | none =>
    match tp.highJobQ with
    | job::rest => some (job,false,{ tp with highJobQ := rest })
    | [] =>
      match tp.medJobQ with
      | job::rest => some (job,false,{ tp with medJobQ := rest })
      | [] =>
        match tp.lowJobQ with
        | job::rest => some (job,false,{ tp with lowJobQ := rest })
        | [] => none

def ThreadPool.idle (tp : ThreadPool) : Bool :=
  tp.lowJobQ.isEmpty && tp.medJobQ.isEmpty && tp.highJobQ.isEmpty && tp.persistentJob.isNone &&
    !tp.shutdown

/-- A worker that is not needed any more dies. -/
def ThreadPool.dies (tp : ThreadPool) (timedOut : Bool) : Bool :=
  (timedOut && decide (tp.attr.minThreads < tp.totalThreads)) ||
    decide (tp.attr.maxThreads ≠ infiniteThreads ∧ tp.attr.maxThreads < tp.totalThreads)

def ThreadPool.exitWorker (tp : ThreadPool) : ThreadPool :=
  { tp with totalThreads := tp.totalThreads-1 }

/-- A worker at the inner loop of `WorkerThread`: it exits, waits or takes a job. -/
def workerCheck (timedOut : Bool) (env : Env) (tp : ThreadPool) : Option Worker × ThreadPool :=
  if tp.idle then
    if tp.dies timedOut then (none,tp.exitWorker) else (some .waiting,tp)
  else
    let tp := bumpPriority env tp
    if tp.shutdown then (none,tp.exitWorker)
    else
      match tp.pickJob with
      | some (job,persistent,tp) =>
        (some (.running job persistent),{ tp with busyThreads := tp.busyThreads+1 })
      | none => (none,tp.exitWorker)

def ThreadPool.freeJob (tp : ThreadPool) (persistent : Bool) : ThreadPool :=
  { tp with
    busyThreads := tp.busyThreads-1
    persistentThreads := if persistent then tp.persistentThreads-1 else tp.persistentThreads }

namespace Sys

def workerRegion (s : Sys) (timedOut : Bool) (env : Env) : Sys :=
  let r := workerCheck timedOut env s.tp
  { s with tp := r.2, workers := r.1.toList ++ s.workers }

/-- The loop at the end of `ThreadPoolShutdown`. -/
def awaitThreads (s : Sys) : Sys :=
  if 0 < s.tp.totalThreads then s.wait .shutdown else { s with destroyed := true }

/-- All jobs that have not been picked up are released. -/
def threadPoolShutdown (s : Sys) : Sys :=
  ({ s with
    tp := { s.tp with
      highJobQ := [], medJobQ := [], lowJobQ := [], persistentJob := none, shutdown := true }
    released := s.tp.queued ++ s.tp.persistentJob.toList ++ s.released }).awaitThreads

def resume (s : Sys) (w : Waiting) (env : Env) : Sys :=
  match w with
  | .starting c => s.enterCreateWorker c env
  | .started c rc =>
    if s.tp.pendingWorkerThreadStart then s.wait (.started c rc) else s.createReturned c rc env
  | .pickup copy =>
    if s.tp.persistentJob.isSome then s.wait (.pickup copy) else s.endAdd 0 copy
  | .shutdown => s.awaitThreads
  | .init => s.initLoop 0 env
  | .initFailed => s.threadPoolShutdown

end Sys

/-- A region of a call or of a worker, and the return of a job's function. -/
inductive Event
  | add (job : ThreadPoolJob) (env : Env)
  | addPersistent (job : ThreadPoolJob) (env : Env)
  | remove (id : ℤ)
  | shutdown
  | resume (i : ℕ) (env : Env)
  | start (i : ℕ)
  | loop (i : ℕ) (timedOut : Bool) (env : Env)
  | finish (i : ℕ)
  deriving DecidableEq, Repr

/-- The pool may be called once `ThreadPoolInit` has returned; after `ThreadPoolShutdown`
has returned nothing is left of it. -/
def step (s : Sys) (e : Event) : Option Sys :=
  if s.destroyed then none
  else
    match e with
    | .add job env => if s.ready then some (s.threadPoolAdd job env) else none
    | .addPersistent job env => if s.ready then some (s.threadPoolAddPersistent job env) else none
    | .remove id =>
      if s.ready then
        match s.tp.findJob id with
        | some (job,tp) => some { s with tp := tp, removed := (id,job)::s.removed }
        | none => some s
      else none
    | .shutdown => if s.ready then some s.threadPoolShutdown else none
    | .resume i env =>
      (s.calls[i]?).map fun w => ({ s with calls := s.calls.eraseIdx i }).resume w env
    | .start i =>
      match s.workers[i]? with
      | some .created => some { s with
          tp := { s.tp with
            totalThreads := s.tp.totalThreads+1, pendingWorkerThreadStart := false }
          workers := .started::s.workers.eraseIdx i }
      | _ => none
    | .loop i timedOut env =>
      match s.workers[i]? with
      | some .started => some
        (({ s with workers := s.workers.eraseIdx i }).workerRegion false env)
      | some .waiting => some
        (({ s with workers := s.workers.eraseIdx i }).workerRegion timedOut env)
      | some (.returned _ persistent) => some
        (({ s with
          tp := s.tp.freeJob persistent
          workers := s.workers.eraseIdx i }).workerRegion false env)
      | _ => none
    | .finish i =>
      match s.workers[i]? with
      | some (.running job persistent) => some { s with
          workers := .returned job persistent::s.workers.eraseIdx i
          ran := job::s.ran }
      | _ => none

end Thread
end CtrlPt
