import CtrlPt.Thread.Starvation

/-! Where the jobs of the thread pool are. No job is lost and none is in two places as long as
no call overwrites the slot, queues a job behind a shutdown or is refused a node by
`BumpPriority`. -/
namespace CtrlPt
namespace Thread

open CText Transition

def Worker.running? : Worker → Option ThreadPoolJob
  | .running job _ => some job
  | _ => none

/-- The jobs that are in a queue or in the slot, run by a worker, run already, handed back or
released, each as often as it is there. -/
def Sys.places (s : Sys) : List ThreadPoolJob :=
  s.tp.held ++ s.workers.filterMap Worker.running? ++ s.ran ++ s.removed.map Prod.snd ++ s.released

@[simp] theorem mem_places {s : Sys} {job : ThreadPoolJob} :
    job ∈ s.places ↔ job ∈ s.tp.held ∨ job ∈ s.workers.filterMap Worker.running? ∨ job ∈ s.ran ∨
      job ∈ s.removed.map Prod.snd ∨ job ∈ s.released := by
  simp only [Sys.places,List.mem_append,or_assoc]

@[simp] theorem count_places (s : Sys) (job : ThreadPoolJob) :
    s.places.count job = s.tp.held.count job+(s.workers.filterMap Worker.running?).count job+
      s.ran.count job+(s.removed.map Prod.snd).count job+s.released.count job := by
  simp only [Sys.places,List.count_append]

def Sys.copiesPlaced (s : Sys) : List ℕ := s.places.map ThreadPoolJob.copy

/-- A call that has returned 0 has created this job. -/
def Sys.accepted (s : Sys) (copy : ℕ) : Prop := ∃ r ∈ s.rets, r.code = 0 ∧ r.copy = some copy

/-- Each accepted job is in one place, and none is left in the pool by `ThreadPoolShutdown`. -/
structure JobsConserved (s : Sys) : Prop where
  placed : ∀ r ∈ s.rets, r.code = 0 → ∃ copy, r.copy = some copy ∧ s.copiesPlaced.count copy = 1
  emptied : s.destroyed = true → ∀ job ∈ s.tp.held, ¬s.accepted job.copy

/-- The step puts a job into a queue. -/
def Sys.enqueues (s : Sys) : Event → Bool
  | .add _ env =>
    decide (s.tp.totalJobs < s.tp.attr.maxJobsTotal) && env.allocates 0 && env.allocates 1
  | _ => false

/-- Every node that `BumpPriority` asks for in the step is allocated. -/
def Sys.nodesGranted (s : Sys) : Event → Bool
  | .loop _ _ env => (List.range (bumps env s.tp)).all env.allocates
  | _ => true

/-- The step loses no job. -/
structure Safe (s : Sys) (e : Event) : Prop where
  slotFree : s.stores e = true → s.tp.persistentJob = none
  live : s.enqueues e = true → s.tp.shutdown = false
  granted : s.nodesGranted e = true

instance : DecidableRel Safe := fun s e =>
  decidable_of_iff ((s.stores e = true → s.tp.persistentJob = none) ∧
    (s.enqueues e = true → s.tp.shutdown = false) ∧ s.nodesGranted e = true)
    ⟨fun h => ⟨h.1,h.2.1,h.2.2⟩,fun h => ⟨h.slotFree,h.live,h.granted⟩⟩

/-- What holds of a call that waits or runs. The job of a `ThreadPoolAdd` is in its place, and
not in the slot. -/
def CallKept (s : Sys) : Waiting → Prop
  | .starting (.add _ _ rc copy) => rc = 0 → copy ∈ s.copiesPlaced ∧
    ∀ job, s.tp.persistentJob = some job → job.copy ≠ copy
  | .started (.add _ _ rc copy) _ => rc = 0 → copy ∈ s.copiesPlaced ∧
    ∀ job, s.tp.persistentJob = some job → job.copy ≠ copy
  | .pickup copy => copy ∈ s.copiesPlaced
  | .shutdown => s.tp.shutdown = true
  | _ => True

structure Conserved (s : Sys) : Prop where
  once : s.copiesPlaced.Nodup
  fresh : ∀ copy ∈ s.copiesPlaced, copy < s.copies
  calls : ∀ w ∈ s.calls, CallKept s w
  accepted : ∀ r ∈ s.rets, r.code = 0 → ∃ copy, r.copy = some copy ∧ copy ∈ s.copiesPlaced
  slot : ∀ job, s.tp.persistentJob = some job → ¬s.accepted job.copy
  shut : s.tp.shutdown = true → s.tp.queued = []
  closed : s.destroyed = true → s.tp.shutdown = true

theorem Conserved.jobs {s : Sys} (h : Conserved s) : JobsConserved s := by
  constructor
  · intro r hr hcode
    rcases h.accepted r hr hcode with ⟨copy,hcopy,hplaced⟩
    exact ⟨copy,hcopy,List.count_eq_one_of_mem h.once hplaced⟩
  · intro hd job hjob
    rw [ThreadPool.held,h.shut (h.closed hd),List.nil_append,Option.mem_toList] at hjob
    exact h.slot job hjob

/-- Jobs go from one place to another one, and `new` comes in. -/
structure Moved (new : Option ThreadPoolJob) (s s' : Sys) : Prop where
  places : s'.places.Perm (new.toList++s.places)
  created : ∀ job, new = some job → s.copies ≤ job.copy ∧ job.copy < s'.copies
  copies : s.copies ≤ s'.copies
  rets : s'.rets = s.rets
  calls : ∀ w ∈ s'.calls, w ∈ s.calls
  slot : ∀ job, s'.tp.persistentJob = some job → s.tp.persistentJob = some job ∨ new = some job
  shutdown : s.tp.shutdown = true → s'.tp.shutdown = true
  shut : s'.tp.shutdown = true → s'.tp.queued = [] ∨
    s.tp.shutdown = true ∧ s'.tp.queued.length ≤ s.tp.queued.length
  closed : s'.destroyed = true → s.destroyed = true ∨ s'.tp.shutdown = true

theorem Moved.copiesPlaced {new : Option ThreadPoolJob} {s s' : Sys} (h : Moved new s s') :
    s'.copiesPlaced.Perm (new.toList.map ThreadPoolJob.copy++s.copiesPlaced) := by
  have hp := h.places.map ThreadPoolJob.copy
  rwa [List.map_append] at hp

theorem Moved.mem {new : Option ThreadPoolJob} {s s' : Sys} (h : Moved new s s') {copy : ℕ}
    (hc : copy ∈ s.copiesPlaced) : copy ∈ s'.copiesPlaced :=
  h.copiesPlaced.mem_iff.mpr (List.mem_append_right _ hc)

theorem Moved.callKept {new : Option ThreadPoolJob} {s s' : Sys} (h : Moved new s s')
    (hs : Conserved s) {w : Waiting} (hw : CallKept s w) : CallKept s' w := by
  have hadd : ∀ {rc : ℤ} {copy : ℕ}, (rc = 0 → copy ∈ s.copiesPlaced ∧
      ∀ job, s.tp.persistentJob = some job → job.copy ≠ copy) →
      rc = 0 → copy ∈ s'.copiesPlaced ∧
        ∀ job, s'.tp.persistentJob = some job → job.copy ≠ copy := by
    intro rc copy hw hrc
    rcases hw hrc with ⟨hplaced,hslot⟩
    refine ⟨h.mem hplaced,fun job hjob => ?_⟩
    rcases h.slot job hjob with hold | hnew
    · exact hslot job hold
    · have hlt := hs.fresh copy hplaced
      have hge := (h.created job hnew).1
      omega
  cases w with
  | starting c =>
    cases c with
    | add jobs threads rc copy => exact hadd hw
    | init i => trivial
    | addPersistent job => trivial
  | started c code =>
    cases c with
    | add jobs threads rc copy => exact hadd hw
    | init i => trivial
    | addPersistent job => trivial
  | pickup copy => exact h.mem hw
  | shutdown => exact h.shutdown hw
  | init => trivial
  | initFailed => trivial

theorem Conserved.moved {new : Option ThreadPoolJob} {s s' : Sys} (hs : Conserved s)
    (h : Moved new s s') : Conserved s' := by
  have hnew : ∀ copy ∈ new.toList.map ThreadPoolJob.copy, s.copies ≤ copy ∧ copy < s'.copies := by
    intro copy hc
    rcases List.mem_map.mp hc with ⟨job,hjob,rfl⟩
    exact h.created job (Option.mem_toList.mp hjob)
  refine ⟨?_,?_,?_,?_,?_,?_,?_⟩
  · rw [h.copiesPlaced.nodup_iff,List.nodup_append]
    refine ⟨?_,hs.once,?_⟩
    · cases new with
      | none => exact List.nodup_nil
      | some job => exact List.nodup_singleton _
    · rintro a ha b hb rfl
      have hge := (hnew a ha).1
      have hlt := hs.fresh a hb
      omega
  · intro copy hc
    rcases List.mem_append.mp (h.copiesPlaced.mem_iff.mp hc) with hn | ho
    · exact (hnew copy hn).2
    · exact (hs.fresh copy ho).trans_le h.copies
  · intro w hw
    exact h.callKept hs (hs.calls w (h.calls w hw))
  · intro r hr hcode
    rcases hs.accepted r (h.rets ▸ hr) hcode with ⟨copy,hcopy,hplaced⟩
    exact ⟨copy,hcopy,h.mem hplaced⟩
  · rintro job hjob ⟨r,hr,hcode,hcopy⟩
    rw [h.rets] at hr
    rcases h.slot job hjob with hold | hn
    · exact hs.slot job hold ⟨r,hr,hcode,hcopy⟩
    · rcases hs.accepted r hr hcode with ⟨copy,hc,hplaced⟩
      rw [hcopy] at hc
      cases hc
      have hge := (h.created job hn).1
      have hlt := hs.fresh _ hplaced
      omega
  · intro hshut
    rcases h.shut hshut with he | ⟨hold,hle⟩
    · exact he
    · rw [hs.shut hold,List.length_nil,Nat.le_zero] at hle
      exact List.length_eq_zero_iff.mp hle
  · intro hd
    rcases h.closed hd with hold | hnew
    · exact h.shutdown (hs.closed hold)
    · exact hnew

/-- A step that leaves the slot, the flags and the record of the calls alone. -/
theorem Moved.of_places {s s' : Sys} (hp : s'.places.Perm s.places) (hcopies : s'.copies = s.copies)
    (hrets : s'.rets = s.rets) (hcalls : ∀ w ∈ s'.calls, w ∈ s.calls)
    (hslot : ∀ job, s'.tp.persistentJob = some job → s.tp.persistentJob = some job)
    (hshut : s'.tp.shutdown = s.tp.shutdown)
    (hle : s'.tp.queued.length ≤ s.tp.queued.length) (hd : s'.destroyed = s.destroyed) :
    Moved none s s' where
  places := hp
  created := fun _ h => (by cases h)
  copies := hcopies.ge
  rets := hrets
  calls := hcalls
  slot job hjob := .inl (hslot job hjob)
  shutdown h := hshut.trans h
  shut h := .inr ⟨hshut.symm.trans h,hle⟩
  closed h := .inl (hd.symm.trans h)

theorem Conserved.wait {s : Sys} (hs : Conserved s) {w : Waiting} (hw : CallKept s w) :
    Conserved (s.wait w) := by
  refine ⟨hs.once,hs.fresh,?_,hs.accepted,hs.slot,hs.shut,hs.closed⟩
  intro w' hw'
  rcases List.mem_cons.mp hw' with rfl | hw'
  · exact hw
  · exact hs.calls w' hw'

/-- A call returns; the job it has created is in its place, and not in the slot. -/
theorem Conserved.ret {s : Sys} (hs : Conserved s) {code : ℤ} {id : Option ℤ} {copy : Option ℕ}
    (h : code = 0 → ∃ c, copy = some c ∧ c ∈ s.copiesPlaced ∧
      ∀ job, s.tp.persistentJob = some job → job.copy ≠ c) : Conserved (s.ret code id copy) := by
  refine ⟨hs.once,hs.fresh,hs.calls,?_,?_,hs.shut,hs.closed⟩
  · intro r hr hcode
    rcases List.mem_cons.mp hr with rfl | hr
    · rcases h hcode with ⟨c,hc,hplaced,-⟩
      exact ⟨c,hc,hplaced⟩
    · exact hs.accepted r hr hcode
  · rintro job hjob ⟨r,hr,hcode,hcopy⟩
    rcases List.mem_cons.mp hr with rfl | hr
    · rcases h hcode with ⟨c,hc,-,hslot⟩
      have he : job.copy = c := Option.some.inj (hcopy.symm.trans hc)
      exact hslot job hjob he
    · exact hs.slot job hjob ⟨r,hr,hcode,hcopy⟩

theorem Conserved.endAdd {s : Sys} (hs : Conserved s) {rc : ℤ} {copy : ℕ}
    (h : rc = 0 → copy ∈ s.copiesPlaced ∧ ∀ job, s.tp.persistentJob = some job → job.copy ≠ copy) :
    Conserved (s.endAdd rc copy) := by
  have hset : Conserved (s.setPool { s.tp with lastJobId := toInt (s.tp.lastJobId+1) }) :=
    ⟨hs.once,hs.fresh,hs.calls,hs.accepted,hs.slot,hs.shut,hs.closed⟩
  exact hset.ret fun hrc => ⟨copy,rfl,h hrc⟩

theorem storePersistent_moved {s : Sys} (job : ThreadPoolJob) (env : Env)
    (h : s.tp.persistentJob = none) :
    let temp := createThreadPoolJob job s.tp.lastJobId env.now s.copies
    Moved (some temp) s
      { s with tp := { s.tp with persistentJob := some temp }, copies := s.copies+1 } where
  places := by
    rw [List.perm_iff_count]
    intro a
    simp [ThreadPool.queued,h,List.count_cons]
    omega
  created job' hjob := by
    cases hjob
    exact ⟨Nat.le_refl _,Nat.lt_succ_self _⟩
  copies := Nat.le_succ _
  rets := rfl
  calls _ hw := hw
  slot _ hjob := .inr hjob
  shutdown hshut := hshut
  shut hshut := .inr ⟨hshut,Nat.le_refl _⟩
  closed hd := .inl hd

theorem enqueue_moved {s : Sys} (job : ThreadPoolJob) (hcopy : job.copy = s.copies)
    (h : s.tp.shutdown = false) :
    Moved (some job) s { s with tp := s.tp.enqueue job, copies := s.copies+1 } where
  places := by
    have hq := (enqueue_queued s.tp job).append_right s.tp.persistentJob.toList
    simp only [Sys.places,ThreadPool.held,enqueue_persistentJob]
    exact (((hq.append_right _).append_right _).append_right _).append_right _
  created job' hjob := by
    cases hjob
    exact ⟨hcopy.ge,hcopy ▸ Nat.lt_succ_self _⟩
  copies := Nat.le_succ _
  rets := rfl
  calls _ hw := hw
  slot job' hjob := .inl (by rwa [enqueue_persistentJob] at hjob)
  shutdown hshut := (by rw [h] at hshut; cases hshut)
  shut hshut := by
    rw [(enqueue_counters s.tp job).shutdown,h] at hshut
    cases hshut
  closed hd := .inl hd

/-- `ThreadPoolShutdown` releases what is in the pool. -/
theorem shutdown_moved (s : Sys) : Moved none s { s with
    tp := { s.tp with
      highJobQ := [], medJobQ := [], lowJobQ := [], persistentJob := none, shutdown := true }
    released := s.tp.queued ++ s.tp.persistentJob.toList ++ s.released } where
  places := by
    rw [List.perm_iff_count]
    intro a
    simp [ThreadPool.queued]
    omega
  created _ h := by cases h
  copies := Nat.le_refl _
  rets := rfl
  calls _ hw := hw
  slot _ h := by cases h
  shutdown _ := rfl
  shut _ := .inl rfl
  closed hd := .inl hd

theorem threadPoolShutdown_conserved {s : Sys} (hs : Conserved s) :
    Conserved s.threadPoolShutdown := by
  have hd := hs.moved (shutdown_moved s)
  unfold Sys.threadPoolShutdown Sys.awaitThreads
  split
  · exact hd.wait rfl
  · exact ⟨hd.once,hd.fresh,hd.calls,hd.accepted,hd.slot,hd.shut,fun _ => rfl⟩

theorem conserved_rule :
    CallRule Conserved Conserved CallKept (fun s => s.tp.persistentJob = none) where
  waits s w hs hw := hs.wait hw
  spawned s hs _ _ := hs.moved (.of_places (.refl _) rfl rfl (fun _ h => h) (fun _ h => h) rfl
    (Nat.le_refl _) rfl)
  started s c rc hc := by
    cases c <;> exact hc
  starting s c rc hc := by
    cases c <;> exact hc
  divided s jobs threads rc copy hs hw :=
    ⟨⟨hs.once,hs.fresh,hs.calls,hs.accepted,hs.slot,hs.shut,hs.closed⟩,hw⟩
  counted s jobs threads rc copy hw := hw
  ended s jobs threads rc copy hs hw := hs.endAdd hw
  pickedUp s copy hs hw hslot := hs.endAdd fun _ => ⟨hw,fun job hjob => by
    rw [hslot] at hjob
    cases hjob⟩
  stored s job env hs _ hslot ha := by
    have hmoved := storePersistent_moved job env hslot
    unfold Sys.storePersistent
    rw [if_pos ha]
    refine (hs.moved hmoved).wait ?_
    exact hmoved.copiesPlaced.mem_iff.mpr List.mem_cons_self
  refused s job code id hs _ hcode := hs.ret fun h => absurd h hcode
  init s _ := trivial
  initNext s i _ := trivial
  initFailed s i _ := trivial
  ready s i hs _ := ⟨hs.once,hs.fresh,hs.calls,hs.accepted,hs.slot,hs.shut,hs.closed⟩
  shutdown s hs _ := threadPoolShutdown_conserved hs
  destroyed s hs hw :=
    ⟨hs.once,hs.fresh,hs.calls,hs.accepted,hs.slot,hs.shut,fun _ => hw⟩

theorem threadPoolAdd_conserved {s : Sys} (job : ThreadPoolJob) (env : Env) (hs : Conserved s)
    (hlive : s.enqueues (.add job env) = true → s.tp.shutdown = false) :
    Conserved (s.threadPoolAdd job env) := by
  unfold Sys.threadPoolAdd
  split
  · exact hs.ret fun h => (by cases h)
  rename_i hroom
  split
  · rename_i ha
    simp only
    by_cases hnode : env.allocates 1 = true
    · have hshut : s.tp.shutdown = false := hlive <| by
        simp only [Sys.enqueues,ha,hnode,Bool.and_true,decide_eq_true_eq]
        omega
      have hmoved := enqueue_moved (createThreadPoolJob job s.tp.lastJobId env.now s.copies) rfl hshut
      simp only [if_pos hnode]
      refine conserved_rule.addWorker env (hs.moved hmoved) fun _ => ⟨?_,?_⟩
      · exact hmoved.copiesPlaced.mem_iff.mpr List.mem_cons_self
      · -- the job of the slot is an older one
        intro job' hjob
        rw [enqueue_persistentJob] at hjob
        have hheld : job' ∈ s.places := by
          simp [hjob]
        exact (hs.fresh _ (List.mem_map_of_mem hheld)).ne
    · simp only [if_neg hnode]
      have hmoved : Moved none s { s with copies := s.copies+1 } :=
        ⟨.refl _,fun _ h => (by cases h),Nat.le_succ _,rfl,fun _ h => h,fun _ h => .inl h,
          fun h => h,fun h => .inr ⟨h,Nat.le_refl _⟩,fun h => .inl h⟩
      exact conserved_rule.addWorker env (hs.moved hmoved) fun h => (by cases h)
  · exact hs.ret fun h => (by cases h)

theorem Conserved.taken {s : Sys} {i : ℕ} {w : Worker} (hs : Conserved s)
    (hi : s.workers[i]? = some w) (hw : w.running? = none) :
    Conserved { s with workers := s.workers.eraseIdx i } := by
  refine hs.moved (.of_places ?_ rfl rfl (fun _ h => h) (fun _ h => h) rfl (Nat.le_refl _) rfl)
  have hp := (perm_eraseIdx hi).filterMap Worker.running?
  rw [List.filterMap_cons_none hw] at hp
  simp only [Sys.places]
  exact (((hp.symm.append_left _).append_right _).append_right _).append_right _

/-- The region of a worker, when each bumped job gets its node. -/
theorem workerRegion_conserved {s : Sys} (timedOut : Bool) (env : Env) (hs : Conserved s)
    (h : ∀ i < bumps env s.tp, env.allocates i = true) :
    Conserved (s.workerRegion timedOut env) := by
  have hbump := bumpPriority_bumped env s.tp
  have hqueued : (bumpPriority env s.tp).queued.Perm s.tp.queued := by
    rw [bumpPriority_eq h]
    exact (moves_bumpedPool env s.tp).perm
  have hheld : (bumpPriority env s.tp).held.Perm s.tp.held := by
    rw [ThreadPool.held,hbump.slot]
    exact hqueued.append_right _
  rcases workerCheck_cases timedOut env s.tp with he | he | he | ⟨job,persistent,tp',hpick,he⟩ <;>
    simp only [Sys.workerRegion,he]
  · exact hs.moved (.of_places (.refl _) rfl rfl (fun _ h => h) (fun _ h => h) rfl (Nat.le_refl _)
      rfl)
  · exact hs.moved (.of_places (.refl _) rfl rfl (fun _ h => h) (fun _ h => h) rfl (Nat.le_refl _)
      rfl)
  · refine hs.moved (.of_places ?_ rfl rfl (fun _ h => h) ?_ hbump.counters.shutdown
      hqueued.length_eq.le rfl)
    · simp only [Sys.places]
      exact (((hheld.append_right _).append_right _).append_right _).append_right _
    · intro job hjob
      exact hbump.slot ▸ hjob
  · rcases pickJob_spec hpick with ⟨hp,hslot,hle,hc⟩
    refine hs.moved (.of_places ?_ rfl rfl (fun _ h => h) ?_ (hc.shutdown.trans hbump.counters.shutdown)
      (hle.trans hqueued.length_eq.le) rfl)
    · have hsplit : s.tp.held.Perm (job::tp'.held) := hheld.symm.trans hp
      have hcount := List.perm_iff_count.mp hsplit
      rw [List.perm_iff_count]
      intro a
      have ha := hcount a
      have hsame : ThreadPool.held { tp' with busyThreads := tp'.busyThreads+1 } = tp'.held := rfl
      simp only [count_places,hsame,Option.toList_some,List.singleton_append,
        List.filterMap_cons,Worker.running?,List.count_cons] at ha ⊢
      omega
    · intro job' hjob
      rw [show tp'.persistentJob = some job' from hjob] at hslot
      cases hslot

theorem step_conserved (s : Sys) (e : Event) (t : Sys) (hs : Conserved s) (hok : Safe s e)
    (hstep : step s e = some t) : Conserved t := by
  have hbumps : ∀ i timedOut env, e = .loop i timedOut env →
      ∀ j < bumps env s.tp, env.allocates j = true := by
    rintro i timedOut env rfl j hj
    exact List.all_eq_true.mp hok.granted j (List.mem_range.mpr hj)
  cases (step_stepped hstep).2 with
  | add job env => exact threadPoolAdd_conserved job env hs hok.live
  | addPersistent job env =>
    refine conserved_rule.threadPoolAddPersistent job env hs trivial fun hst ha => hok.slotFree ?_
    simp only [Sys.stores,hst,ha,Bool.and_self]
  | absent id => exact hs
  | remove id hfound =>
    rcases findJob_spec hfound with ⟨-,hp,hc,hle,hslot⟩
    refine hs.moved (.of_places ?_ rfl rfl (fun _ h => h) hslot hc.shutdown hle rfl)
    · have hcount := List.perm_iff_count.mp hp
      rw [List.perm_iff_count]
      intro a
      have ha := hcount a
      simp only [count_places,List.map_cons,List.count_cons] at ha ⊢
      omega
  | shutdown => exact threadPoolShutdown_conserved hs
  | resume i env hcall =>
    have hs' : Conserved { s with calls := s.calls.eraseIdx i } :=
      hs.moved (.of_places (.refl _) rfl rfl (fun w hw => List.mem_of_mem_eraseIdx hw)
        (fun _ h => h) rfl (Nat.le_refl _) rfl)
    refine conserved_rule.resume env hs' (hs.calls _ (List.mem_of_getElem? hcall)) fun hst => ?_
    refine hok.slotFree ?_
    simp only [Sys.stores,hcall]
    exact hst
  | start i hworker =>
    have hs' := hs.taken hworker rfl
    exact hs'.moved (.of_places (.refl _) rfl rfl (fun _ h => h) (fun _ h => h) rfl (Nat.le_refl _)
      rfl)
  | started i timedOut env hworker =>
    exact workerRegion_conserved false env (hs.taken hworker rfl) (hbumps i timedOut env rfl)
  | waiting i timedOut env hworker =>
    exact workerRegion_conserved timedOut env (hs.taken hworker rfl) (hbumps i timedOut env rfl)
  | returned i timedOut env hworker =>
    rename_i job persistent
    have hs' : Conserved { s with
        tp := s.tp.freeJob persistent, workers := s.workers.eraseIdx i } :=
      (hs.taken hworker rfl).moved (.of_places (.refl _) rfl rfl (fun _ h => h) (fun _ h => h) rfl
        (Nat.le_refl _) rfl)
    exact workerRegion_conserved false env hs' (hbumps i timedOut env rfl)
  | finish i hworker =>
    rename_i job persistent
    refine hs.moved (.of_places ?_ rfl rfl (fun _ h => h) (fun _ h => h) rfl (Nat.le_refl _) rfl)
    have hp := (perm_eraseIdx hworker).filterMap Worker.running?
    have hcount := List.perm_iff_count.mp hp
    rw [List.perm_iff_count]
    intro a
    have ha := hcount a
    simp only [List.filterMap_cons,Worker.running?,List.count_cons] at ha
    simp only [count_places,List.filterMap_cons,Worker.running?,List.count_cons]
    omega

theorem init_conserved (attr : ThreadPoolAttr) : Conserved (Sys.init attr) where
  once := List.nodup_nil
  fresh _ h := by cases h
  calls w hw := by
    rw [List.mem_singleton.mp hw]
    trivial
  accepted _ h := by cases h
  slot _ h := by cases h
  shut h := rfl
  closed h := by cases h

/-- In a run whose steps lose no job, every accepted job is in one place. -/
theorem run_jobsConserved {attr : ThreadPoolAttr} {s : Sys}
    (h : Runs step Safe (Sys.init attr) s) : JobsConserved s :=
  (h.invariant (init_conserved attr) step_conserved).jobs

theorem run_jobsConserved_ran : ∃ s, Runs step Safe (Sys.init ⟨1,1,10000,10,100,500⟩) s ∧
    s.accepted 0 ∧ s.ran.map ThreadPoolJob.copy = [0] ∧ JobsConserved s := by
  have h : ∃ s, run step Safe (Sys.init ⟨1,1,10000,10,100,500⟩) [.resume 0 .calm,.start 0,
      .resume 0 .calm,.loop 0 false .calm,.add (.ofFunc 7) .calm,.loop 0 false .calm,
      .finish 0] = some s ∧ (⟨0,some 0,some 0⟩ : Ret) ∈ s.rets ∧
        s.ran.map ThreadPoolJob.copy = [0] := ⟨_,rfl,by decide,rfl⟩
  rcases h with ⟨s,hs,hr,hran⟩
  exact ⟨s,.of_run _ hs,⟨_,hr,rfl,rfl⟩,hran,run_jobsConserved (.of_run _ hs)⟩

/-- Two calls of `ThreadPoolAddPersistent` store their jobs before a worker looks at the slot.
Both return 0, and nothing is left of the first job. -/
theorem persistent_job_overwritten : ¬∀ (attr : ThreadPoolAttr) (s : Sys),
    Runs step free (Sys.init attr) s → JobsConserved s := by
  intro h
  have hrun : ∃ s, run step free (Sys.init ⟨2,2,10000,10,100,500⟩) [.resume 0 .calm,.start 0,
      .resume 0 .calm,.start 0,.resume 0 .calm,.addPersistent (.ofFunc 7) .calm,
      .addPersistent (.ofFunc 8) .calm,.loop 0 false .calm,.resume 0 .calm,
      .resume 0 .calm] = some s ∧ (⟨0,some 1,some 0⟩ : Ret) ∈ s.rets ∧
        s.copiesPlaced = [1] := ⟨_,rfl,by decide,rfl⟩
  rcases hrun with ⟨s,hs,hr,hplaced⟩
  rcases (h _ _ (.of_run _ hs)).placed _ hr rfl with ⟨copy,hcopy,hone⟩
  cases hcopy
  rw [hplaced] at hone
  exact absurd hone (by decide)

end Thread
end CtrlPt
