import CtrlPt.Thread.Regions

/-! The counters of the thread pool count its workers, whenever the mutex is free. -/
namespace CtrlPt
namespace Thread

open Transition

/-- A worker counts from its first region on. -/
def Worker.counts : Worker → Bool
  | .created => false
  | _ => true

def Worker.isCreated : Worker → Bool
  | .created => true
  | _ => false

def Worker.holdsJob : Worker → Bool
  | .running _ _ => true
  | .returned _ _ => true
  | _ => false

/-- The job the worker holds came from `persistentJob`. -/
def Worker.holdsPersistent : Worker → Bool
  | .running _ persistent => persistent
  | .returned _ persistent => persistent
  | _ => false

/-- The counters count the workers `ws`, which are inside a region, and those of `s`. -/
structure Counted (ws : List Worker) (s : Sys) : Prop where
  total : s.tp.totalThreads = (ws++s.workers).countP Worker.counts
  pending : (ws++s.workers).countP Worker.isCreated =
    if s.tp.pendingWorkerThreadStart then 1 else 0
  busy : s.tp.busyThreads = (ws++s.workers).countP Worker.holdsJob
  persistent : s.tp.persistentThreads = (ws++s.workers).countP Worker.holdsPersistent
  limit : s.tp.attr.maxThreads ≠ infiniteThreads →
    s.tp.totalThreads+(if s.tp.pendingWorkerThreadStart then 1 else 0) ≤
      max s.tp.attr.maxThreads 0
  jobs : s.tp.totalJobs ≤ max s.tp.attr.maxJobsTotal 0
  noFault : s.divFault = false

/-- The number of threads `AddWorker` goes by is not negative. -/
def Caller.threadsOk : Caller → Prop
  | .add _ threads _ _ => 0 ≤ threads
  | _ => True

def Waiting.threadsOk : Waiting → Prop
  | .starting c => c.threadsOk
  | .started c _ => c.threadsOk
  | _ => True

structure Counters (attr : ThreadPoolAttr) (s : Sys) : Prop where
  counted : Counted [] s
  calls : ∀ w ∈ s.calls, w.threadsOk
  attr : s.tp.attr = attr

theorem Counted.order {ws : List Worker} {s : Sys} (h : Counted ws s) :
    0 ≤ s.tp.persistentThreads ∧ s.tp.persistentThreads ≤ s.tp.busyThreads ∧
      s.tp.busyThreads ≤ s.tp.totalThreads := by
  have hp : (ws++s.workers).countP Worker.holdsPersistent ≤ (ws++s.workers).countP Worker.holdsJob := by
    apply List.countP_mono_left
    intro w _ hw
    cases w <;> first | rfl | cases hw
  have hb : (ws++s.workers).countP Worker.holdsJob ≤ (ws++s.workers).countP Worker.counts := by
    apply List.countP_mono_left
    intro w _ hw
    cases w <;> first | rfl | cases hw
  rw [h.total,h.busy,h.persistent]
  omega

theorem Counted.congr {ws : List Worker} {s s' : Sys} (h : Counted ws s)
    (hw : s'.workers = s.workers) (hc : SameCounters s.tp s'.tp)
    (hj : s'.tp.totalJobs ≤ max s.tp.attr.maxJobsTotal 0) (hf : s'.divFault = s.divFault) :
    Counted ws s' := by
  constructor
  · rw [hw,hc.totalThreads,h.total]
  · rw [hw,hc.pending,h.pending]
  · rw [hw,hc.busyThreads,h.busy]
  · rw [hw,hc.persistentThreads,h.persistent]
  · rw [hc.attr,hc.totalThreads,hc.pending]
    exact h.limit
  · rw [hc.attr]
    exact hj
  · rw [hf,h.noFault]

theorem Counted.same {ws : List Worker} {s s' : Sys} (h : Counted ws s)
    (hw : s'.workers = s.workers) (hc : SameCounters s.tp s'.tp)
    (hq : s'.tp.queued.length ≤ s.tp.queued.length) (hf : s'.divFault = s.divFault) :
    Counted ws s' := by
  refine h.congr hw hc ?_ hf
  have hj := h.jobs
  rw [totalJobs_eq] at hj ⊢
  omega

theorem counters_rule (attr : ThreadPoolAttr) :
    CallRule (Counters attr) (Counters attr) (fun _ w => w.threadsOk) (fun _ => True) where
  waits s w hs hw := by
    refine ⟨hs.counted.same rfl (SameCounters.refl _) (Nat.le_refl _) rfl,?_,hs.attr⟩
    intro w' hw'
    rcases List.mem_cons.mp hw' with rfl | hw'
    · exact hw
    · exact hs.calls w' hw'
  spawned s hs hp hroom := by
    have h := hs.counted
    refine ⟨⟨?_,?_,?_,?_,?_,h.jobs,h.noFault⟩,hs.calls,hs.attr⟩
    · exact h.total
    · have hn := h.pending
      rw [hp] at hn
      simp only [Sys.spawn,List.nil_append,List.countP_cons,Worker.isCreated] at hn ⊢
      simp [hn]
    · exact h.busy
    · exact h.persistent
    · intro hne
      have hr := hroom hne
      simp only [Sys.spawn,if_true]
      omega
  started s c rc h := h
  starting s c rc h := h
  divided s jobs threads rc copy hs hw := by
    have hlt : decide (threads < 0) = false := by
      have h0 : 0 ≤ threads := hw
      simp only [decide_eq_false_iff_not]
      omega
    have hf : (s.noteDivision threads).divFault = s.divFault := by
      simp only [Sys.noteDivision,hlt,Bool.or_false]
    exact ⟨⟨hs.counted.same rfl (SameCounters.refl _) (Nat.le_refl _) hf,hs.calls,hs.attr⟩,hw⟩
  counted s jobs threads rc copy hw := by
    have h0 : 0 ≤ threads := hw
    show 0 ≤ threads+1
    omega
  ended s jobs threads rc copy hs _ :=
    ⟨⟨hs.counted.total,hs.counted.pending,hs.counted.busy,hs.counted.persistent,
      hs.counted.limit,hs.counted.jobs,hs.counted.noFault⟩,hs.calls,hs.attr⟩
  pickedUp s copy hs _ _ :=
    ⟨⟨hs.counted.total,hs.counted.pending,hs.counted.busy,hs.counted.persistent,
      hs.counted.limit,hs.counted.jobs,hs.counted.noFault⟩,hs.calls,hs.attr⟩
  stored s job env hs _ _ ha := by
    unfold Sys.storePersistent
    rw [if_pos ha]
    refine ⟨hs.counted.same rfl ⟨rfl,rfl,rfl,rfl,rfl,rfl,rfl⟩ (Nat.le_refl _) rfl,?_,hs.attr⟩
    intro w hw
    rcases List.mem_cons.mp hw with rfl | hw
    · trivial
    · exact hs.calls w hw
  refused s job code id hs _ _ :=
    ⟨hs.counted.same rfl (SameCounters.refl _) (Nat.le_refl _) rfl,hs.calls,hs.attr⟩
  init s _ := trivial
  initNext s i _ := trivial
  initFailed s i _ := trivial
  ready s i hs _ := ⟨hs.counted.same rfl (SameCounters.refl _) (Nat.le_refl _) rfl,hs.calls,hs.attr⟩
  shutdown s hs _ := by
    have h := hs.counted
    have hd : Counters attr { s with
        tp := { s.tp with
          highJobQ := [], medJobQ := [], lowJobQ := [], persistentJob := none, shutdown := true }
        released := s.tp.queued ++ s.tp.persistentJob.toList ++ s.released } :=
      ⟨⟨h.total,h.pending,h.busy,h.persistent,h.limit,Int.le_max_right _ _,h.noFault⟩,hs.calls,hs.attr⟩
    unfold Sys.threadPoolShutdown Sys.awaitThreads
    split
    · refine ⟨hd.counted.same rfl (SameCounters.refl _) (Nat.le_refl _) rfl,?_,hs.attr⟩
      intro w hw
      rcases List.mem_cons.mp hw with rfl | hw
      · trivial
      · exact hs.calls w hw
    · exact ⟨hd.counted.same rfl (SameCounters.refl _) (Nat.le_refl _) rfl,hs.calls,hs.attr⟩
  destroyed s hs _ := ⟨hs.counted.same rfl (SameCounters.refl _) (Nat.le_refl _) rfl,hs.calls,hs.attr⟩

/-- A worker that holds no job decides what to do next. -/
theorem workerRegion_counted {s : Sys} {w : Worker} (timedOut : Bool) (env : Env)
    (h : Counted [w] s) (hw : w = .started ∨ w = .waiting) :
    Counted [] (s.workerRegion timedOut env) := by
  have hidle : w.counts = true ∧ w.isCreated = false ∧ w.holdsJob = false ∧
      w.holdsPersistent = false := by
    rcases hw with rfl | rfl <;> decide
  have ht := h.total
  have hp := h.pending
  have hb := h.busy
  have hq := h.persistent
  simp only [List.singleton_append,List.countP_cons,hidle,Bool.false_eq_true,if_true,if_false,
    Nat.add_zero] at ht hp hb hq
  have hexit : ∀ tp, SameCounters s.tp tp → tp.queued.length ≤ s.tp.queued.length →
      Counted [] { s with tp := tp.exitWorker, workers := [] ++ s.workers } := by
    intro tp hc hle
    have hj := h.jobs
    have hl := h.limit
    rw [totalJobs_eq] at hj
    refine ⟨?_,?_,?_,?_,?_,?_,h.noFault⟩
    · simp only [ThreadPool.exitWorker,hc.totalThreads,ht,List.nil_append]
      omega
    · simp only [ThreadPool.exitWorker,hc.pending,hp,List.nil_append]
    · simp only [ThreadPool.exitWorker,hc.busyThreads,hb,List.nil_append]
    · simp only [ThreadPool.exitWorker,hc.persistentThreads,hq,List.nil_append]
    · simp only [ThreadPool.exitWorker,hc.attr,hc.totalThreads,hc.pending]
      intro hne
      have := hl hne
      omega
    · show tp.totalJobs ≤ max tp.attr.maxJobsTotal 0
      rw [totalJobs_eq,hc.attr]
      omega
  have hbump := bumpPriority_bumped env s.tp
  rcases workerCheck_cases timedOut env s.tp with he | he | he | ⟨job,persistent,tp',hpick,he⟩ <;>
    simp only [Sys.workerRegion,he]
  · exact hexit s.tp (SameCounters.refl _) (Nat.le_refl _)
  · refine ⟨?_,?_,?_,?_,h.limit,h.jobs,h.noFault⟩
    · simp [ht,List.countP_cons,Worker.counts]
    · simp [hp,Worker.isCreated]
    · simp [hb,Worker.holdsJob]
    · simp [hq,Worker.holdsPersistent]
  · exact hexit _ hbump.counters hbump.queued.length_le
  · rcases pickJob_spec hpick with ⟨-,-,hle,hc⟩
    have hc' := hbump.counters
    have hj := h.jobs
    have hl := h.limit
    have hlen := hbump.queued.length_le
    rw [totalJobs_eq] at hj
    refine ⟨?_,?_,?_,?_,?_,?_,h.noFault⟩
    · simp only [hc.totalThreads,hc'.totalThreads,ht,Option.toList_some,List.nil_append,
        List.singleton_append,List.countP_cons,Worker.counts,if_true]
    · simp [hc.pending,hc'.pending,hp,Worker.isCreated]
    · simp only [hc.busyThreads,hc'.busyThreads,hb,Option.toList_some,List.nil_append,
        List.singleton_append,List.countP_cons,Worker.holdsJob,if_true]
      rfl
    · simp only [hc.persistentThreads,hc'.persistentThreads,hq,Option.toList_some,
        List.nil_append,List.singleton_append,List.countP_cons,Worker.holdsPersistent]
      cases persistent <;> simp
    · simp only [hc.attr,hc'.attr,hc.totalThreads,hc'.totalThreads,hc.pending,hc'.pending]
      exact hl
    · show tp'.totalJobs ≤ max tp'.attr.maxJobsTotal 0
      rw [totalJobs_eq,hc.attr,hc'.attr]
      omega

theorem Counted.taken {s : Sys} {i : ℕ} {w : Worker} (h : Counted [] s)
    (hi : s.workers[i]? = some w) : Counted [w] { s with workers := s.workers.eraseIdx i } := by
  have hp := perm_eraseIdx hi
  refine ⟨?_,?_,?_,?_,h.limit,h.jobs,h.noFault⟩
  · exact h.total.trans (congrArg Int.ofNat (hp.countP_eq _))
  · exact (hp.countP_eq _).symm.trans h.pending
  · exact h.busy.trans (congrArg Int.ofNat (hp.countP_eq _))
  · exact h.persistent.trans (congrArg Int.ofNat (hp.countP_eq _))

theorem Counted.freeJob {s : Sys} {job : ThreadPoolJob} {persistent : Bool}
    (h : Counted [.returned job persistent] s) :
    Counted [.started] { s with tp := s.tp.freeJob persistent } := by
  have hb := h.busy
  have hq := h.persistent
  have ht := h.total
  have hp := h.pending
  simp only [List.singleton_append,List.countP_cons,Worker.counts,Worker.isCreated,
    Worker.holdsJob,Worker.holdsPersistent,if_true,Bool.false_eq_true,if_false,
    Nat.add_zero] at hb hq ht hp
  refine ⟨?_,?_,?_,?_,h.limit,h.jobs,h.noFault⟩
  · simpa only [List.singleton_append,List.countP_cons,Worker.counts,if_true,
      ThreadPool.freeJob] using ht
  · simp only [List.singleton_append,List.countP_cons,Worker.isCreated,Bool.false_eq_true,
      if_false,Nat.add_zero,ThreadPool.freeJob]
    exact hp
  · simp [Worker.holdsJob,ThreadPool.freeJob]
    omega
  · simp only [List.singleton_append,List.countP_cons,Worker.holdsPersistent,
      Bool.false_eq_true,if_false,Nat.add_zero,ThreadPool.freeJob]
    cases persistent with
    | true =>
      simp only [if_true] at hq ⊢
      omega
    | false => simpa only [Bool.false_eq_true,if_false,Nat.add_zero] using hq

theorem workerRegion_counters {attr : ThreadPoolAttr} {s : Sys} {w : Worker} (timedOut : Bool)
    (env : Env) (h : Counted [w] s) (hw : w = .started ∨ w = .waiting)
    (hcalls : ∀ w ∈ s.calls, w.threadsOk) (ha : s.tp.attr = attr) :
    Counters attr (s.workerRegion timedOut env) :=
  ⟨workerRegion_counted timedOut env h hw,hcalls,(workerCheck_attr timedOut env s.tp).trans ha⟩

theorem threadPoolAdd_counters {attr : ThreadPoolAttr} {s : Sys} (job : ThreadPoolJob) (env : Env)
    (h : Counters attr s) : Counters attr (s.threadPoolAdd job env) := by
  unfold Sys.threadPoolAdd
  split
  · exact (counters_rule attr).refused s job _ _ h trivial (by decide)
  rename_i hroom
  split
  · have hs' : Counters attr { s with
        tp := if env.allocates 1 then
            s.tp.enqueue (createThreadPoolJob job s.tp.lastJobId env.now s.copies)
          else s.tp
        copies := s.copies+1 } := by
      have hc : SameCounters s.tp (if env.allocates 1 then
            s.tp.enqueue (createThreadPoolJob job s.tp.lastJobId env.now s.copies)
          else s.tp) := by
        split
        · exact enqueue_counters _ _
        · exact SameCounters.refl _
      refine ⟨h.counted.congr rfl hc ?_ rfl,h.calls,hc.attr.trans h.attr⟩
      · split
        · rw [totalJobs_eq] at hroom ⊢
          rw [(enqueue_queued _ _).length_eq,List.length_cons]
          omega
        · exact h.counted.jobs
    refine (counters_rule attr).addWorker env hs' ?_
    have ho := hs'.counted.order
    exact Int.sub_nonneg_of_le (ho.2.1.trans ho.2.2)
  · exact (counters_rule attr).refused s job _ _ h trivial (by decide)

theorem step_counters {attr : ThreadPoolAttr} (s : Sys) (e : Event) (t : Sys) (h : Counters attr s)
    (_ : free s e) (hstep : step s e = some t) : Counters attr t := by
  cases (step_stepped hstep).2 with
  | add job env => exact threadPoolAdd_counters job env h
  | addPersistent job env =>
    exact (counters_rule attr).threadPoolAddPersistent job env h trivial fun _ _ => trivial
  | absent id => exact h
  | remove id hfound =>
    rcases findJob_spec hfound with ⟨-,-,hc,hl,-⟩
    exact ⟨h.counted.same rfl hc hl rfl,h.calls,hc.attr.trans h.attr⟩
  | shutdown => exact (counters_rule attr).shutdown s h trivial
  | resume i env hcall =>
    have hs : Counters attr { s with calls := s.calls.eraseIdx i } :=
      ⟨h.counted.same rfl (SameCounters.refl _) (Nat.le_refl _) rfl,
        fun w hw => h.calls w (List.mem_of_mem_eraseIdx hw),h.attr⟩
    exact (counters_rule attr).resume env hs (h.calls _ (List.mem_of_getElem? hcall))
      fun _ => trivial
  | start i hworker =>
    have hc := h.counted.taken hworker
    have ht := hc.total
    have hp := hc.pending
    simp only [List.singleton_append,List.countP_cons,Worker.counts,Worker.isCreated,if_true,
      Bool.false_eq_true,if_false,Nat.add_zero] at ht hp
    have hpend : s.tp.pendingWorkerThreadStart = true := by
      by_contra hne
      rw [if_neg hne] at hp
      omega
    rw [if_pos hpend] at hp
    refine ⟨⟨?_,?_,?_,?_,?_,hc.jobs,hc.noFault⟩,h.calls,h.attr⟩
    · simp only [List.nil_append,List.countP_cons,Worker.counts,if_true]
      omega
    · simp only [List.nil_append,List.countP_cons,Worker.isCreated,Bool.false_eq_true,if_false]
      omega
    · exact hc.busy
    · exact hc.persistent
    · intro hne
      have hl := hc.limit hne
      simp only [hpend,if_true,Bool.false_eq_true,if_false,Int.add_zero] at hl ⊢
      exact hl
  | started i timedOut env hworker =>
    exact workerRegion_counters false env (h.counted.taken hworker) (.inl rfl) h.calls h.attr
  | waiting i timedOut env hworker =>
    exact workerRegion_counters timedOut env (h.counted.taken hworker) (.inr rfl) h.calls h.attr
  | returned i timedOut env hworker =>
    exact workerRegion_counters false env (h.counted.taken hworker).freeJob (.inl rfl) h.calls h.attr
  | finish i hworker =>
    have hc := h.counted.taken hworker
    exact ⟨⟨hc.total,hc.pending,hc.busy,hc.persistent,hc.limit,hc.jobs,hc.noFault⟩,
      h.calls,h.attr⟩

theorem init_counters (attr : ThreadPoolAttr) : Counters attr (Sys.init attr) := by
  refine ⟨⟨rfl,rfl,rfl,rfl,fun _ => Int.le_max_right _ _,Int.le_max_right _ _,rfl⟩,?_,rfl⟩
  intro w hw
  rw [List.mem_singleton.mp hw]
  trivial

/-- What the counters of a pool mean while the mutex is free. -/
structure CountersHold (s : Sys) (maxThreads maxJobs : ℤ) : Prop where
  persistentNonneg : 0 ≤ s.tp.persistentThreads
  persistentLe : s.tp.persistentThreads ≤ s.tp.busyThreads
  busyLe : s.tp.busyThreads ≤ s.tp.totalThreads
  totalLe : s.tp.attr.maxThreads ≠ infiniteThreads → s.tp.totalThreads ≤ maxThreads
  busy : s.tp.busyThreads = s.workers.countP Worker.holdsJob
  persistent : s.tp.persistentThreads = s.workers.countP Worker.holdsPersistent
  jobs : s.tp.totalJobs ≤ maxJobs
  noFault : s.divFault = false

theorem Counters.hold {attr : ThreadPoolAttr} {s : Sys} (h : Counters attr s) :
    CountersHold s (max attr.maxThreads 0) (max attr.maxJobsTotal 0) := by
  rw [← h.attr]
  rcases h.counted.order with ⟨h1,h2,h3⟩
  refine ⟨h1,h2,h3,fun hne => ?_,h.counted.busy,h.counted.persistent,h.counted.jobs,
    h.counted.noFault⟩
  have hl := h.counted.limit hne
  split at hl <;> omega

/-- The counters of a pool whose attributes are not changed. `ThreadPoolInit` accepts any
limit; a negative one admits no thread and no job. -/
theorem run_countersHold {attr : ThreadPoolAttr} {s : Sys} (h : Runs step free (Sys.init attr) s) :
    CountersHold s (max attr.maxThreads 0) (max attr.maxJobsTotal 0) :=
  (h.invariant (init_counters attr) step_counters).hold

theorem run_countersHold_running : ∃ s, Runs step free (Sys.init ⟨1,2,10000,10,100,500⟩) s ∧
    s.tp.busyThreads = 1 ∧ CountersHold s 2 100 := by
  have h : ∃ s, run step free (Sys.init ⟨1,2,10000,10,100,500⟩) [.resume 0 .calm,.start 0,
      .resume 0 .calm,.loop 0 false .calm,.add (.ofFunc 7) .calm,.loop 0 false .calm] = some s ∧
      s.tp.busyThreads = 1 := ⟨_,rfl,rfl⟩
  rcases h with ⟨s,hs,hb⟩
  exact ⟨s,.of_run _ hs,hb,run_countersHold (.of_run _ hs)⟩

/-- A pool without threads has more of them than a limit of -5 allows. -/
theorem countersHold_negative_limit : ¬ ∀ (attr : ThreadPoolAttr) (s : Sys),
    Runs step free (Sys.init attr) s → s.ready = true →
      CountersHold s attr.maxThreads attr.maxJobsTotal := by
  intro h
  have hr : Runs step free (Sys.init ⟨0,-5,10000,10,100,500⟩)
      { Sys.init ⟨0,-5,10000,10,100,500⟩ with calls := [], ready := true } :=
    .of_run [.resume 0 .calm] rfl
  exact absurd ((h _ _ hr rfl).totalLe (by decide)) (by decide)

end Thread
end CtrlPt
