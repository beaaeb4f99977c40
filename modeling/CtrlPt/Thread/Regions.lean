import CtrlPt.Thread.Pool

/-! What the regions of the thread pool can do, said once for each of its functions, and the
rule by which a property is carried through the calls of `CreateWorker`. -/
namespace CtrlPt
namespace Thread

/-- The jobs that are in a queue or in the slot of the persistent job. -/
def ThreadPool.held (tp : ThreadPool) : List ThreadPoolJob :=
  tp.queued ++ tp.persistentJob.toList

@[simp] theorem mem_held {tp : ThreadPool} {job : ThreadPoolJob} :
    job ∈ tp.held ↔ job ∈ tp.queued ∨ tp.persistentJob = some job := by
  simp [ThreadPool.held]

@[simp] theorem count_held (tp : ThreadPool) (job : ThreadPoolJob) :
    tp.held.count job = tp.queued.count job+tp.persistentJob.toList.count job :=
  List.count_append

/-- Only the places of jobs differ. -/
structure SameCounters (tp tp' : ThreadPool) : Prop where
  lastJobId : tp'.lastJobId = tp.lastJobId
  shutdown : tp'.shutdown = tp.shutdown
  totalThreads : tp'.totalThreads = tp.totalThreads
  pending : tp'.pendingWorkerThreadStart = tp.pendingWorkerThreadStart
  busyThreads : tp'.busyThreads = tp.busyThreads
  persistentThreads : tp'.persistentThreads = tp.persistentThreads
  attr : tp'.attr = tp.attr

theorem SameCounters.refl (tp : ThreadPool) : SameCounters tp tp :=
  ⟨rfl,rfl,rfl,rfl,rfl,rfl,rfl⟩

theorem SameCounters.trans {tp tp' tp'' : ThreadPool} (h : SameCounters tp tp')
    (h' : SameCounters tp' tp'') : SameCounters tp tp'' :=
  ⟨h'.lastJobId.trans h.lastJobId,h'.shutdown.trans h.shutdown,
    h'.totalThreads.trans h.totalThreads,h'.pending.trans h.pending,
    h'.busyThreads.trans h.busyThreads,h'.persistentThreads.trans h.persistentThreads,
    h'.attr.trans h.attr⟩

theorem totalJobs_eq (tp : ThreadPool) : tp.totalJobs = tp.queued.length := by
  simp only [ThreadPool.totalJobs,ThreadPool.queued,List.length_append]
  omega

theorem enqueue_counters (tp : ThreadPool) (job : ThreadPoolJob) :
    SameCounters tp (tp.enqueue job) := by
  unfold ThreadPool.enqueue
  split <;> exact ⟨rfl,rfl,rfl,rfl,rfl,rfl,rfl⟩

@[simp] theorem enqueue_persistentJob (tp : ThreadPool) (job : ThreadPoolJob) :
    (tp.enqueue job).persistentJob = tp.persistentJob := by
  unfold ThreadPool.enqueue
  split <;> rfl

theorem enqueue_queued (tp : ThreadPool) (job : ThreadPoolJob) :
    (tp.enqueue job).queued.Perm (job::tp.queued) := by
  rw [List.perm_iff_count]
  intro a
  unfold ThreadPool.enqueue ThreadPool.queued
  split <;> simp only [List.count_append,List.count_cons,List.count_nil] <;> omega

/-- A bump moves a job to the next queue, or loses it when no node can be allocated. -/
structure Bumped (env : Env) (tp tp' : ThreadPool) : Prop where
  counters : SameCounters tp tp'
  slot : tp'.persistentJob = tp.persistentJob
  queued : tp'.queued.Subperm tp.queued
  keeps : (∀ i, env.allocates i = true) → tp'.queued.Perm tp.queued

theorem Bumped.refl (env : Env) (tp : ThreadPool) : Bumped env tp tp :=
  ⟨SameCounters.refl tp,rfl,List.Subperm.refl _,fun _ => List.Perm.refl _⟩

theorem Bumped.trans {env : Env} {tp tp' tp'' : ThreadPool} (h : Bumped env tp tp')
    (h' : Bumped env tp' tp'') : Bumped env tp tp'' :=
  ⟨h.counters.trans h'.counters,h'.slot.trans h.slot,h'.queued.trans h.queued,
    fun ha => (h'.keeps ha).trans (h.keeps ha)⟩

/-- Taking the head of one queue and appending it to another one. -/
theorem bump_move (ok : Bool) (a b c : List ThreadPoolJob) (job : ThreadPoolJob) :
    (a ++ (if ok then b++[job] else b) ++ c).Subperm (a ++ b ++ job::c) ∧
      (ok = true → (a ++ (if ok then b++[job] else b) ++ c).Perm (a ++ b ++ job::c)) := by
  cases ok with
  | true => simp [List.Subperm.refl]
  | false =>
    simp only [Bool.false_eq_true,if_false,false_implies,and_true]
    exact ((List.sublist_cons_self job c).append_left (a++b)).subperm

def waited (env : Env) (millis : ℤ) (job : ThreadPoolJob) : Bool :=
  decide (millis ≤ diffMillis env.now job.requestTime)

theorem bumpRound_low {env : Env} {n : ℕ} {tp : ThreadPool}
    (hm : tp.medJobQ.takeWhile (waited env tp.attr.starvationTime) = []) :
    (∃ job rest, tp.lowJobQ = job::rest ∧ waited env tp.attr.maxIdleTime job = true ∧
        bumpRound env (n,tp) = .inl (n+1,{ tp with
          lowJobQ := rest
          medJobQ := if env.allocates n then tp.medJobQ ++ [job] else tp.medJobQ })) ∨
      tp.lowJobQ.takeWhile (waited env tp.attr.maxIdleTime) = [] ∧
        bumpRound env (n,tp) = .inr tp := by
  have hfresh : ∀ {job rest}, tp.medJobQ = job::rest →
      ¬tp.attr.starvationTime ≤ diffMillis env.now job.requestTime := by
    intro job rest hq hw
    have hwaited : waited env tp.attr.starvationTime job = true := decide_eq_true hw
    rw [hq,List.takeWhile_cons_of_pos hwaited] at hm
    cases hm
  cases hq : tp.lowJobQ with
  | nil =>
    refine .inr ⟨rfl,?_⟩
    cases hmq : tp.medJobQ with
    | nil => simp only [bumpRound,hmq,hq]
    | cons job rest => simp only [bumpRound,hmq,hq,if_neg (hfresh hmq)]
  | cons job rest =>
    by_cases hw : tp.attr.maxIdleTime ≤ diffMillis env.now job.requestTime
    · refine .inl ⟨job,rest,rfl,decide_eq_true hw,?_⟩
      cases hmq : tp.medJobQ with
      | nil => simp only [bumpRound,hmq,hq,if_pos hw]
      | cons job' rest' => simp only [bumpRound,hmq,hq,if_neg (hfresh hmq),if_pos hw]
    · refine .inr ⟨List.takeWhile_cons_of_neg (by simpa [waited] using hw),?_⟩
      cases hmq : tp.medJobQ with
      | nil => simp only [bumpRound,hmq,hq,if_neg hw]
      | cons job' rest' => simp only [bumpRound,hmq,hq,if_neg (hfresh hmq),if_neg hw]

/-- Of the med queue only the head is looked at, and then of the low queue. -/
theorem bumpRound_cases (env : Env) (n : ℕ) (tp : ThreadPool) :
    (∃ job rest, tp.medJobQ = job::rest ∧ waited env tp.attr.starvationTime job = true ∧
        bumpRound env (n,tp) = .inl (n+1,{ tp with
          medJobQ := rest
          highJobQ := if env.allocates n then tp.highJobQ ++ [job] else tp.highJobQ })) ∨
      tp.medJobQ.takeWhile (waited env tp.attr.starvationTime) = [] := by
  cases hq : tp.medJobQ with
  | nil => exact .inr rfl
  | cons job rest =>
    by_cases hw : tp.attr.starvationTime ≤ diffMillis env.now job.requestTime
    · refine .inl ⟨job,rest,rfl,decide_eq_true hw,?_⟩
      simp only [bumpRound,hq,if_pos hw]
    · refine .inr (List.takeWhile_cons_of_neg ?_)
      simpa [waited] using hw

theorem bumpRound_inl {env : Env} {n n' : ℕ} {tp tp' : ThreadPool}
    (h : bumpRound env (n,tp) = .inl (n',tp')) :
    Bumped env tp tp' ∧ bumpMeasure (n',tp') < bumpMeasure (n,tp) := by
  rcases bumpRound_cases env n tp with ⟨job,rest,hq,-,hr⟩ | hm
  · rw [hr] at h
    cases h
    have hmove := bump_move (env.allocates n) [] tp.highJobQ (rest++tp.lowJobQ) job
    simp only [List.nil_append] at hmove
    refine ⟨⟨⟨rfl,rfl,rfl,rfl,rfl,rfl,rfl⟩,rfl,?_,fun ha => ?_⟩,?_⟩
    · simpa only [ThreadPool.queued,hq,List.append_assoc,List.cons_append] using hmove.1
    · simpa only [ThreadPool.queued,hq,List.append_assoc,List.cons_append] using hmove.2 (ha n)
    · simp only [bumpMeasure,hq,List.length_cons]
      omega
  · rcases bumpRound_low hm with ⟨job,rest,hq,-,hr⟩ | ⟨-,hr⟩
    · rw [hr] at h
      cases h
      have hmove := bump_move (env.allocates n) tp.highJobQ tp.medJobQ rest job
      refine ⟨⟨⟨rfl,rfl,rfl,rfl,rfl,rfl,rfl⟩,rfl,?_,fun ha => ?_⟩,?_⟩
      · simp only [ThreadPool.queued,hq]
        exact hmove.1
      · simp only [ThreadPool.queued,hq]
        exact hmove.2 (ha n)
      · simp only [bumpMeasure,hq,List.length_cons]
        split
        · rw [List.length_append,List.length_singleton]
          omega
        · omega
    · rw [hr] at h
      cases h

theorem bumpRound_inr {env : Env} {n : ℕ} {tp tp' : ThreadPool}
    (h : bumpRound env (n,tp) = .inr tp') : tp' = tp := by
  rcases bumpRound_cases env n tp with ⟨job,rest,-,-,hr⟩ | hm
  · rw [hr] at h
    cases h
  · rcases bumpRound_low hm with ⟨job,rest,-,-,hr⟩ | ⟨-,hr⟩
    · rw [hr] at h
      cases h
    · rw [hr] at h
      exact (Sum.inr.inj h).symm

theorem bumpRound_descends (env : Env) : Loop.Descends bumpMeasure (bumpRound env) := by
  rintro ⟨n,tp⟩ ⟨n',tp'⟩ h
  exact (bumpRound_inl h).2

theorem bumpPriority_bumped (env : Env) (tp : ThreadPool) : Bumped env tp (bumpPriority env tp) := by
  refine Loop.run_induction (bumpRound_descends env) (e := Prod.snd)
    (P := fun x tp' => Bumped env x.2 tp') ?_ ?_ (0,tp)
  · rintro ⟨n,tp⟩ tp' h
    rw [bumpRound_inr h]
    exact Bumped.refl env tp
  · rintro ⟨n,tp⟩ ⟨n',tp'⟩ h ih
    exact (bumpRound_inl h).1.trans ih

theorem pickJob_spec {tp tp' : ThreadPool} {job : ThreadPoolJob} {persistent : Bool}
    (h : tp.pickJob = some (job,persistent,tp')) :
    tp.held.Perm (job::tp'.held) ∧ tp'.persistentJob = none ∧
      tp'.queued.length ≤ tp.queued.length ∧
      SameCounters { tp with
        persistentThreads := if persistent then tp.persistentThreads+1 else tp.persistentThreads }
        tp' := by
  unfold ThreadPool.pickJob at h
  cases hp : tp.persistentJob with
  | some job' =>
    simp only [hp,Option.some.injEq,Prod.mk.injEq] at h
    rcases h with ⟨rfl,rfl,rfl⟩
    refine ⟨?_,rfl,Nat.le_refl _,⟨rfl,rfl,rfl,rfl,rfl,rfl,rfl⟩⟩
    rw [List.perm_iff_count]
    intro a
    simp [ThreadPool.queued,hp,List.count_cons]
  | none =>
    simp only [hp] at h
    cases hh : tp.highJobQ with
    | cons job' rest =>
      simp only [hh,Option.some.injEq,Prod.mk.injEq] at h
      rcases h with ⟨rfl,rfl,rfl⟩
      refine ⟨?_,rfl,?_,⟨rfl,rfl,rfl,rfl,rfl,rfl,rfl⟩⟩
      · simp [ThreadPool.held,ThreadPool.queued,hp,hh]
      · simp [ThreadPool.queued,hh]
    | nil =>
      simp only [hh] at h
      cases hm : tp.medJobQ with
      | cons job' rest =>
        simp only [hm,Option.some.injEq,Prod.mk.injEq] at h
        rcases h with ⟨rfl,rfl,rfl⟩
        refine ⟨?_,rfl,?_,⟨rfl,rfl,rfl,rfl,rfl,rfl,rfl⟩⟩
        · simp [ThreadPool.held,ThreadPool.queued,hp,hh,hm]
        · simp [ThreadPool.queued,hh,hm]
      | nil =>
        simp only [hm] at h
        cases hl : tp.lowJobQ with
        | cons job' rest =>
          simp only [hl,Option.some.injEq,Prod.mk.injEq] at h
          rcases h with ⟨rfl,rfl,rfl⟩
          refine ⟨?_,rfl,?_,⟨rfl,rfl,rfl,rfl,rfl,rfl,rfl⟩⟩
          · simp [ThreadPool.held,ThreadPool.queued,hp,hh,hm,hl]
          · simp [ThreadPool.queued,hh,hm,hl]
        | nil => simp [hl] at h

theorem takeJob_spec {id : ℤ} {q q' : List ThreadPoolJob} {job : ThreadPoolJob}
    (h : takeJob id q = some (job,q')) : job.jobId = id ∧ q.Perm (job::q') := by
  induction q generalizing q' with
  | nil => simp [takeJob] at h
  | cons a rest ih =>
    simp only [takeJob] at h
    split at h
    · rename_i hid
      cases h
      exact ⟨hid,List.Perm.refl _⟩
    · rcases Option.map_eq_some_iff.mp h with ⟨⟨b,r⟩,hr,he⟩
      simp only [Prod.mk.injEq] at he
      rcases he with ⟨rfl,rfl⟩
      have hi := ih hr
      exact ⟨hi.1,(hi.2.cons a).trans (List.Perm.swap _ _ _)⟩

theorem takeJob_found {tp tp' : ThreadPool} {id : ℤ} {job : ThreadPoolJob} {q q' : List ThreadPoolJob}
    (h : takeJob id q = some (job,q'))
    (hcount : ∀ a, tp'.held.count a+q.count a = tp.held.count a+q'.count a)
    (hlen : tp'.queued.length+q.length = tp.queued.length+q'.length) :
    job.jobId = id ∧ tp.held.Perm (job::tp'.held) ∧ tp'.queued.length ≤ tp.queued.length := by
  have hs := takeJob_spec h
  refine ⟨hs.1,List.perm_iff_count.mpr fun a => ?_,?_⟩
  · have ha := hs.2.count_eq a
    have hc := hcount a
    rw [List.count_cons] at ha ⊢
    omega
  · have hl := hs.2.length_eq
    rw [List.length_cons] at hl
    omega

/-- `ThreadPoolRemove` takes out one job, with the id it was asked for. -/
theorem findJob_spec {tp tp' : ThreadPool} {id : ℤ} {job : ThreadPoolJob}
    (h : tp.findJob id = some (job,tp')) :
    job.jobId = id ∧ tp.held.Perm (job::tp'.held) ∧ SameCounters tp tp' ∧
      tp'.queued.length ≤ tp.queued.length ∧
      ∀ job', tp'.persistentJob = some job' → tp.persistentJob = some job' := by
  unfold ThreadPool.findJob at h
  split at h
  · rename_i job' q hfound
    cases h
    have hcount : ∀ a, ({ tp with highJobQ := q } : ThreadPool).held.count a+tp.highJobQ.count a =
        tp.held.count a+q.count a := by
      intro a
      simp [ThreadPool.queued]
      omega
    have hlen : ({ tp with highJobQ := q } : ThreadPool).queued.length+tp.highJobQ.length =
        tp.queued.length+q.length := by
      simp only [ThreadPool.queued,List.length_append]
      omega
    rcases takeJob_found hfound hcount hlen with ⟨hid,hperm,hl⟩
    exact ⟨hid,hperm,⟨rfl,rfl,rfl,rfl,rfl,rfl,rfl⟩,hl,fun _ h => h⟩
  split at h
  · rename_i job' q hfound
    cases h
    have hcount : ∀ a, ({ tp with medJobQ := q } : ThreadPool).held.count a+tp.medJobQ.count a =
        tp.held.count a+q.count a := by
      intro a
      simp [ThreadPool.queued]
      omega
    have hlen : ({ tp with medJobQ := q } : ThreadPool).queued.length+tp.medJobQ.length =
        tp.queued.length+q.length := by
      simp only [ThreadPool.queued,List.length_append]
      omega
    rcases takeJob_found hfound hcount hlen with ⟨hid,hperm,hl⟩
    exact ⟨hid,hperm,⟨rfl,rfl,rfl,rfl,rfl,rfl,rfl⟩,hl,fun _ h => h⟩
  split at h
  · rename_i job' q hfound
    cases h
    have hcount : ∀ a, ({ tp with lowJobQ := q } : ThreadPool).held.count a+tp.lowJobQ.count a =
        tp.held.count a+q.count a := by
      intro a
      simp [ThreadPool.queued]
      omega
    have hlen : ({ tp with lowJobQ := q } : ThreadPool).queued.length+tp.lowJobQ.length =
        tp.queued.length+q.length := by
      simp only [ThreadPool.queued,List.length_append]
      omega
    rcases takeJob_found hfound hcount hlen with ⟨hid,hperm,hl⟩
    exact ⟨hid,hperm,⟨rfl,rfl,rfl,rfl,rfl,rfl,rfl⟩,hl,fun _ h => h⟩
  split at h
  · rename_i job' hp
    split at h
    · rename_i hid
      cases h
      refine ⟨hid,List.perm_iff_count.mpr fun a => ?_,⟨rfl,rfl,rfl,rfl,rfl,rfl,rfl⟩,Nat.le_refl _,
        fun _ h => (by cases h)⟩
      simp [ThreadPool.queued,hp,List.count_cons]
    · cases h
  · cases h

/-- What a worker can do at its inner loop: die of idleness, wait, exit when the pool shuts
down or a bump has lost its job, or take a job. -/
theorem workerCheck_cases (timedOut : Bool) (env : Env) (tp : ThreadPool) :
    workerCheck timedOut env tp = (none,tp.exitWorker) ∨
    workerCheck timedOut env tp = (some .waiting,tp) ∨
    workerCheck timedOut env tp = (none,(bumpPriority env tp).exitWorker) ∨
    ∃ job persistent tp', (bumpPriority env tp).pickJob = some (job,persistent,tp') ∧
      workerCheck timedOut env tp =
        (some (.running job persistent),{ tp' with busyThreads := tp'.busyThreads+1 }) := by
  unfold workerCheck
  split
  · split
    · exact .inl rfl
    · exact .inr (.inl rfl)
  · simp only
    split
    · exact .inr (.inr (.inl rfl))
    · cases hp : (bumpPriority env tp).pickJob with
      | none => exact .inr (.inr (.inl rfl))
      | some x =>
        rcases x with ⟨job,persistent,tp'⟩
        exact .inr (.inr (.inr ⟨job,persistent,tp',rfl,rfl⟩))

@[simp] theorem workerCheck_attr (timedOut : Bool) (env : Env) (tp : ThreadPool) :
    (workerCheck timedOut env tp).2.attr = tp.attr := by
  have hbump := (bumpPriority_bumped env tp).counters.attr
  rcases workerCheck_cases timedOut env tp with he | he | he | ⟨job,persistent,tp',hpick,he⟩ <;>
    rw [he]
  · rfl
  · exact hbump
  · exact (pickJob_spec hpick).2.2.2.attr.trans hbump

def Creation.isFailed : Creation → Bool
  | .failed _ => true
  | _ => false

/-- The region in which a waiting call goes on puts a persistent job into the slot. -/
def Waiting.stores (w : Waiting) (env : Env) (tp : ThreadPool) : Bool :=
  match w with
  | .starting (.addPersistent _) => (createWorker env tp).isFailed && env.allocates 0
  | .started (.addPersistent _) _ => !tp.pendingWorkerThreadStart && env.allocates 0
  | _ => false

/-- The limit `CreateWorker` checks before it creates a worker. -/
def ThreadPool.hasRoom (tp : ThreadPool) : Prop :=
  tp.attr.maxThreads ≠ infiniteThreads → tp.totalThreads+1 ≤ tp.attr.maxThreads

theorem createWorker_created {env : Env} {tp : ThreadPool} {rc : ℤ}
    (h : createWorker env tp = .created rc) :
    tp.pendingWorkerThreadStart = false ∧ tp.hasRoom := by
  unfold createWorker at h
  split at h
  · cases h
  · rename_i hp
    split at h
    · cases h
    · rename_i hm
      refine ⟨by simpa using hp,fun hne => ?_⟩
      by_contra hlt
      exact hm ⟨hne,by omega⟩

/-- How the regions of the calls lead from `P` to `Q`. `W` is what holds of a call that waits, or
that runs and has been taken out of the list, and `G` what has to hold where a persistent job is
stored. -/
structure CallRule (P Q : Sys → Prop) (W : Sys → Waiting → Prop) (G : Sys → Prop) : Prop where
  waits : ∀ s w, P s → W s w → Q (s.wait w)
  spawned : ∀ s, P s → s.tp.pendingWorkerThreadStart = false → s.tp.hasRoom → P s.spawn
  started : ∀ s c rc, W s (.starting c) → W s.spawn (.started c rc)
  starting : ∀ s c rc, W s (.started c rc) → W s (.starting c)
  divided : ∀ s jobs threads rc copy, P s → W s (.starting (.add jobs threads rc copy)) →
    P (s.noteDivision threads) ∧
      W (s.noteDivision threads) (.starting (.add jobs threads rc copy))
  counted : ∀ s jobs threads rc copy, W s (.starting (.add jobs threads rc copy)) →
    W s (.starting (.add jobs (threads+1) rc copy))
  ended : ∀ s jobs threads rc copy, P s → W s (.starting (.add jobs threads rc copy)) →
    Q (s.endAdd rc copy)
  pickedUp : ∀ s copy, P s → W s (.pickup copy) → s.tp.persistentJob = none →
    Q (s.endAdd 0 copy)
  stored : ∀ s job env, P s → W s (.starting (.addPersistent job)) → G s →
    env.allocates 0 = true → Q (s.storePersistent job env)
  refused : ∀ s job code id, P s → W s (.starting (.addPersistent job)) → code ≠ 0 →
    Q (s.ret code id none)
  init : ∀ s, W s .init → W s (.starting (.init 0))
  initNext : ∀ s i, W s (.starting (.init i)) → W s (.starting (.init (i+1)))
  initFailed : ∀ s i, W s (.starting (.init i)) → W s .initFailed
  ready : ∀ s i, P s → W s (.starting (.init i)) → Q { s with ready := true }
  shutdown : ∀ s, P s → W s .initFailed → Q s.threadPoolShutdown
  destroyed : ∀ s, P s → W s .shutdown → Q { s with destroyed := true }

namespace CallRule

variable {P Q : Sys → Prop} {W : Sys → Waiting → Prop} {G : Sys → Prop}

theorem storePersistent (h : CallRule P Q W G) {s : Sys} (job : ThreadPoolJob) (env : Env)
    (hs : P s) (hw : W s (.starting (.addPersistent job))) (hg : env.allocates 0 = true → G s) :
    Q (s.storePersistent job env) := by
  by_cases ha : env.allocates 0 = true
  · exact h.stored s job env hs hw (hg ha) ha
  · unfold Sys.storePersistent
    rw [if_neg ha]
    exact h.refused s job _ _ hs hw (by decide)

theorem createFailed (h : CallRule P Q W G) {s : Sys} {c : Caller} (env : Env) (hs : P s)
    (hc : W s (.starting c))
    (hg : ∀ job, c = .addPersistent job → env.allocates 0 = true → G s) :
    Q (s.createFailed c env) := by
  cases c with
  | init i => exact h.waits s _ hs (h.initFailed s i hc)
  | add jobs threads rc copy => exact h.ended s jobs threads rc copy hs hc
  | addPersistent job => exact h.storePersistent job env hs hc (hg job rfl)

theorem enterCreateWorker (h : CallRule P Q W G) {s : Sys} {c : Caller} (env : Env) (hs : P s)
    (hc : W s (.starting c)) (hg : (Waiting.starting c).stores env s.tp = true → G s) :
    Q (s.enterCreateWorker c env) := by
  unfold Sys.enterCreateWorker
  cases hw : createWorker env s.tp with
  | starting => exact h.waits s _ hs hc
  | failed rc =>
    refine h.createFailed env hs hc ?_
    rintro job rfl ha
    apply hg
    simp only [Waiting.stores,hw,Creation.isFailed,ha,Bool.and_self]
  | created rc =>
    have hr := createWorker_created hw
    exact h.waits s.spawn _ (h.spawned s hs hr.1 hr.2) (h.started s c rc hc)

theorem addWorker (h : CallRule P Q W G) {s : Sys} {jobs threads rc : ℤ} {copy : ℕ} (env : Env)
    (hs : P s) (hc : W s (.starting (.add jobs threads rc copy))) :
    Q (s.addWorker jobs threads rc copy env) := by
  rcases h.divided s jobs threads rc copy hs hc with ⟨hs',hc'⟩
  unfold Sys.addWorker
  simp only
  split
  · exact h.enterCreateWorker env hs' hc' (by rintro ⟨⟩)
  · exact h.ended _ jobs threads rc copy hs' hc'

theorem initLoop (h : CallRule P Q W G) {s : Sys} (i : ℤ) (env : Env) (hs : P s)
    (hc : W s (.starting (.init i))) : Q (s.initLoop i env) := by
  unfold Sys.initLoop
  split
  · exact h.enterCreateWorker env hs hc (by rintro ⟨⟩)
  · exact h.ready s i hs hc

theorem createReturned (h : CallRule P Q W G) {s : Sys} {c : Caller} (rc : ℤ) (env : Env)
    (hs : P s) (hc : W s (.starting c))
    (hg : ∀ job, c = .addPersistent job → env.allocates 0 = true → G s) :
    Q (s.createReturned c rc env) := by
  unfold Sys.createReturned
  split
  · exact h.createFailed env hs hc hg
  · cases c with
    | init i => exact h.initLoop (i+1) env hs (h.initNext s i hc)
    | add jobs threads rc copy => exact h.addWorker env hs (h.counted s jobs threads rc copy hc)
    | addPersistent job => exact h.storePersistent job env hs hc (hg job rfl)

theorem resume (h : CallRule P Q W G) {s : Sys} {w : Waiting} (env : Env) (hs : P s)
    (hw : W s w) (hg : w.stores env s.tp = true → G s) : Q (s.resume w env) := by
  cases w with
  | starting c => exact h.enterCreateWorker env hs hw hg
  | started c rc =>
    unfold Sys.resume
    simp only
    split
    · exact h.waits s _ hs hw
    · rename_i hp
      refine h.createReturned rc env hs (h.starting s c rc hw) ?_
      rintro job rfl ha
      apply hg
      simp [Waiting.stores,ha,Bool.not_eq_true _ ▸ hp]
  | pickup copy =>
    unfold Sys.resume
    simp only
    split
    · exact h.waits s _ hs hw
    · rename_i hslot
      rw [Bool.not_eq_true,Option.isSome_eq_false_iff,Option.isNone_iff_eq_none] at hslot
      exact h.pickedUp s copy hs hw hslot
  | shutdown =>
    unfold Sys.resume Sys.awaitThreads
    simp only
    split
    · exact h.waits s _ hs hw
    · exact h.destroyed s hs hw
  | init => exact h.initLoop 0 env hs (h.init s hw)
  | initFailed => exact h.shutdown s hs hw

theorem threadPoolAddPersistent (h : CallRule P Q W G) {s : Sys} (job : ThreadPoolJob) (env : Env)
    (hs : P s) (hc : W s (.starting (.addPersistent job)))
    (hg : (if s.tp.totalThreads < s.tp.attr.maxThreads then (createWorker env s.tp).isFailed
      else decide (s.tp.totalThreads-s.tp.persistentThreads-1 ≠ 0)) = true →
      env.allocates 0 = true → G s) : Q (s.threadPoolAddPersistent job env) := by
  unfold Sys.threadPoolAddPersistent
  split
  · rename_i hlt
    rw [if_pos hlt] at hg
    refine h.enterCreateWorker env hs hc fun hst => ?_
    simp only [Waiting.stores,Bool.and_eq_true] at hst
    exact hg hst.1 hst.2
  · rename_i hlt
    rw [if_neg hlt] at hg
    split
    · exact h.refused s job _ _ hs hc (by decide)
    · rename_i hne
      exact h.storePersistent job env hs hc (hg (by simpa using hne))

end CallRule

def Sys.stores (s : Sys) : Event → Bool
  | .addPersistent _ env =>
    (if s.tp.totalThreads < s.tp.attr.maxThreads then (createWorker env s.tp).isFailed
      else decide (s.tp.totalThreads-s.tp.persistentThreads-1 ≠ 0)) && env.allocates 0
  | .resume i env =>
    match s.calls[i]? with
    | some w => w.stores env s.tp
    | none => false
  | _ => false

/-- What a step can do: a region of a call, one of a worker, or the return of a job's function. -/
inductive Stepped (s : Sys) : Event → Sys → Prop
  | add (job : ThreadPoolJob) (env : Env) : Stepped s (.add job env) (s.threadPoolAdd job env)
  | addPersistent (job : ThreadPoolJob) (env : Env) :
    Stepped s (.addPersistent job env) (s.threadPoolAddPersistent job env)
  | absent (id : ℤ) : Stepped s (.remove id) s
  | remove (id : ℤ) {job : ThreadPoolJob} {tp : ThreadPool}
    (hfound : s.tp.findJob id = some (job,tp)) :
    Stepped s (.remove id) { s with tp := tp, removed := (id,job)::s.removed }
  | shutdown : Stepped s .shutdown s.threadPoolShutdown
  | resume (i : ℕ) (env : Env) {w : Waiting} (hcall : s.calls[i]? = some w) :
    Stepped s (.resume i env) (({ s with calls := s.calls.eraseIdx i }).resume w env)
  | start (i : ℕ) (hworker : s.workers[i]? = some .created) :
    Stepped s (.start i) { s with
      tp := { s.tp with
        totalThreads := s.tp.totalThreads+1, pendingWorkerThreadStart := false }
      workers := .started::s.workers.eraseIdx i }
  | started (i : ℕ) (timedOut : Bool) (env : Env) (hworker : s.workers[i]? = some .started) :
    Stepped s (.loop i timedOut env)
      (({ s with workers := s.workers.eraseIdx i }).workerRegion false env)
  | waiting (i : ℕ) (timedOut : Bool) (env : Env) (hworker : s.workers[i]? = some .waiting) :
    Stepped s (.loop i timedOut env)
      (({ s with workers := s.workers.eraseIdx i }).workerRegion timedOut env)
  | returned (i : ℕ) (timedOut : Bool) (env : Env) {job : ThreadPoolJob} {persistent : Bool}
    (hworker : s.workers[i]? = some (.returned job persistent)) :
    Stepped s (.loop i timedOut env) (({ s with
      tp := s.tp.freeJob persistent, workers := s.workers.eraseIdx i }).workerRegion false env)
  | finish (i : ℕ) {job : ThreadPoolJob} {persistent : Bool}
    (hworker : s.workers[i]? = some (.running job persistent)) :
    Stepped s (.finish i) { s with
      workers := .returned job persistent::s.workers.eraseIdx i
      ran := job::s.ran }

theorem step_stepped {s t : Sys} {e : Event} (h : step s e = some t) :
    s.destroyed = false ∧ Stepped s e t := by
  unfold step at h
  split at h
  · cases h
  rename_i hlive
  refine ⟨Bool.not_eq_true _ ▸ hlive,?_⟩
  cases e with
  | add job env =>
    rcases Option.ite_none_right_eq_some.mp h with ⟨-,he⟩
    cases he
    exact .add job env
  | addPersistent job env =>
    rcases Option.ite_none_right_eq_some.mp h with ⟨-,he⟩
    cases he
    exact .addPersistent job env
  | remove id =>
    rcases Option.ite_none_right_eq_some.mp h with ⟨-,he⟩
    cases hf : s.tp.findJob id with
    | none =>
      simp only [hf,Option.some.injEq] at he
      exact he ▸ .absent id
    | some x =>
      simp only [hf,Option.some.injEq] at he
      exact he ▸ .remove id hf
  | shutdown =>
    rcases Option.ite_none_right_eq_some.mp h with ⟨-,he⟩
    cases he
    exact .shutdown
  | resume i env =>
    rcases Option.map_eq_some_iff.mp h with ⟨w,hi,he⟩
    exact he ▸ .resume i env hi
  | start i =>
    simp only at h
    split at h
    · rename_i hi
      cases h
      exact .start i hi
    · cases h
  | loop i timedOut env =>
    simp only at h
    split at h
    · rename_i hi
      cases h
      exact .started i timedOut env hi
    · rename_i hi
      cases h
      exact .waiting i timedOut env hi
    · rename_i job persistent hi
      cases h
      exact .returned i timedOut env hi
    · cases h
  | finish i =>
    simp only at h
    split at h
    · rename_i job persistent hi
      cases h
      exact .finish i hi
    · cases h

end Thread
end CtrlPt
