import CtrlPt.Thread.Conservation

/-! The ids of jobs. A job is stamped with `lastJobId` before the calls that may wait, and
`lastJobId` is counted up behind them: ids are unique as long as no job is created while a call
waits that has created one. -/
namespace CtrlPt
namespace Thread

open CText Transition

/-- The jobs that are in a queue or in the slot, or run by a worker. -/
def Sys.live (s : Sys) : List ThreadPoolJob :=
  s.tp.held ++ s.workers.filterMap Worker.running?

/-- Ids tell the jobs apart that are in the pool. A call that has returned 0 has given the id of the
job it has created, and `ThreadPoolRemove` takes out the job whose id it was given. -/
structure JobIdentity (s : Sys) : Prop where
  distinct : (s.live.map ThreadPoolJob.jobId).Nodup
  returned : ∀ r ∈ s.rets, r.code = 0 → ∃ copy, r.copy = some copy ∧
    ∀ job ∈ s.places, job.copy = copy → r.jobId = some job.jobId
  removed : ∀ p ∈ s.removed, ∀ r ∈ s.rets, r.code = 0 → r.jobId = some p.1 →
    r.copy = some p.2.copy

def Waiting.pending : Waiting → List ℕ
  | .starting (.add _ _ _ copy) => [copy]
  | .started (.add _ _ _ copy) _ => [copy]
  | .pickup copy => [copy]
  | _ => []

def Sys.pending (s : Sys) : List ℕ := s.calls.flatMap Waiting.pending

def Sys.creates (s : Sys) : Event → Bool
  | .add _ env => decide (s.tp.totalJobs < s.tp.attr.maxJobsTotal) && env.allocates 0
  | e => s.stores e

/-- Fewer jobs than `INVALID_JOB_ID` have been created, and none is created while a call waits that
has created one. -/
def Alone (s : Sys) (e : Event) : Prop :=
  s.creates e = true → s.pending = [] ∧ (s.copies : ℤ) < invalidJobId

instance : DecidableRel Alone := fun s e =>
  inferInstanceAs (Decidable (s.creates e = true → s.pending = [] ∧ (s.copies : ℤ) < invalidJobId))

/-- The job is stamped with its number. -/
def Stamped (n : ℕ) (job : ThreadPoolJob) : Prop := job.jobId = job.copy ∧ job.copy < n

/-- What holds of jobs and of calls that have returned. -/
structure Identified (s : Sys) : Prop where
  once : (s.live.map ThreadPoolJob.copy).Nodup
  stamped : ∀ job ∈ s.places, Stamped s.copies job
  rets : ∀ r ∈ s.rets, r.code = 0 → ∃ copy : ℕ, r.copy = some copy ∧ r.jobId = some (copy : ℤ)
  removed : ∀ p ∈ s.removed, p.2.jobId = p.1
  few : (s.copies : ℤ) ≤ invalidJobId

/-- At most one call has created a job that `lastJobId` does not count yet, the last one. -/
structure Numbered (s : Sys) (pending : List ℕ) : Prop where
  one : pending.length ≤ 1
  last : s.tp.lastJobId+pending.length = s.copies
  top : ∀ copy ∈ pending, copy+1 = s.copies

theorem Numbered.perm {s : Sys} {l l' : List ℕ} (h : Numbered s l) (hp : l'.Perm l) : Numbered s l' :=
  ⟨by rw [hp.length_eq]; exact h.one,by rw [hp.length_eq]; exact h.last,
    fun copy hc => h.top copy (hp.mem_iff.mp hc)⟩

theorem live_subset {s : Sys} {job : ThreadPoolJob} (h : job ∈ s.live) : job ∈ s.places := by
  simp only [Sys.live,mem_places,List.mem_append] at h ⊢
  tauto

theorem Identified.identity {s : Sys} (h : Identified s) : JobIdentity s := by
  refine ⟨?_,?_,?_⟩
  · have heq : s.live.map ThreadPoolJob.jobId = (s.live.map ThreadPoolJob.copy).map Nat.cast := by
      rw [List.map_map]
      refine List.map_congr_left fun job hjob => ?_
      exact (h.stamped job (live_subset hjob)).1
    rw [heq]
    exact h.once.map Nat.cast_injective
  · intro r hr hcode
    rcases h.rets r hr hcode with ⟨copy,hcopy,hid⟩
    refine ⟨copy,hcopy,fun job hjob he => ?_⟩
    rw [hid,(h.stamped job hjob).1,he]
  · intro p hp r hr hcode hid
    rcases h.rets r hr hcode with ⟨copy,hcopy,hret⟩
    have hplaced : p.2 ∈ s.places := by
      have hmem := List.mem_map_of_mem (f := Prod.snd) hp
      exact mem_places.mpr (.inr (.inr (.inr (.inl hmem))))
    have hcast : (copy : ℤ) = (p.2.copy : ℤ) := by
      rw [← (h.stamped p.2 hplaced).1,h.removed p hp]
      exact Option.some.inj (hret.symm.trans hid)
    rw [hcopy,Nat.cast_injective hcast]

/-- What a step does to the jobs that creates none. -/
structure Shifted (s s' : Sys) : Prop where
  live : s'.live.Subperm s.live
  places : ∀ job ∈ s'.places, job ∈ s.places
  rets : s'.rets = s.rets
  removed : ∀ p ∈ s'.removed, p ∈ s.removed ∨ p.2.jobId = p.1
  copies : s'.copies = s.copies

theorem Identified.shifted {s s' : Sys} (h : Identified s) (hs : Shifted s s') : Identified s' := by
  refine ⟨?_,?_,?_,?_,?_⟩
  · obtain ⟨l,hl,hsub⟩ := hs.live
    exact (hl.map _).nodup_iff.mp (h.once.sublist (hsub.map _))
  · intro job hjob
    rw [hs.copies]
    exact h.stamped job (hs.places job hjob)
  · intro r hr
    rw [hs.rets] at hr
    exact h.rets r hr
  · intro p hp
    rcases hs.removed p hp with hold | hnew
    · exact h.removed p hold
    · exact hnew
  · rw [hs.copies]
    exact h.few

def IdentifiedAt (s : Sys) : Prop := Identified s ∧ Numbered s s.pending

/-- What holds of a call that runs and has been taken out of the list. -/
def NumberedWith (s : Sys) (w : Waiting) : Prop := Numbered s (w.pending++s.pending)

theorem identified_wait {s : Sys} {w : Waiting} (h : Identified s) (hw : NumberedWith s w) :
    IdentifiedAt (s.wait w) := by
  refine ⟨⟨h.once,h.stamped,h.rets,h.removed,h.few⟩,?_⟩
  have hp : (s.wait w).pending = w.pending++s.pending := List.flatMap_cons
  rw [hp]
  exact ⟨hw.one,hw.last,hw.top⟩

theorem identified_ret {s : Sys} {code : ℤ} {id : Option ℤ} {copy : Option ℕ} (h : Identified s)
    (hc : code = 0 → ∃ c : ℕ, copy = some c ∧ id = some (c : ℤ)) : Identified (s.ret code id copy) := by
  refine ⟨h.once,h.stamped,?_,h.removed,h.few⟩
  intro r hr hcode
  rcases List.mem_cons.mp hr with rfl | hr
  · exact hc hcode
  · exact h.rets r hr hcode

/-- The call that has created the last job returns its id. -/
theorem identified_endAdd {s : Sys} {rc : ℤ} {copy : ℕ} (h : Identified s)
    (hw : Numbered s (copy::s.pending)) : IdentifiedAt (s.endAdd rc copy) := by
  have hone := hw.one
  have hlast := hw.last
  have htop := hw.top copy (.head _)
  rw [List.length_cons] at hone hlast
  have hnil : s.pending = [] := List.length_eq_zero_iff.mp (by omega)
  rw [hnil] at hlast
  simp only [List.length_nil] at hlast
  have hid : s.tp.lastJobId = (copy : ℤ) := by omega
  have hfew := h.few
  have hint : toInt (s.tp.lastJobId+1) = s.tp.lastJobId+1 := by
    have hbound : invalidJobId = 2^29 := rfl
    rw [toInt,Int.bmod_eq_of_le] <;> omega
  have hset : Identified (s.setPool { s.tp with lastJobId := toInt (s.tp.lastJobId+1) }) :=
    ⟨h.once,h.stamped,h.rets,h.removed,h.few⟩
  refine ⟨identified_ret hset fun _ => ⟨copy,rfl,by rw [hid]⟩,?_⟩
  have hp : (s.endAdd rc copy).pending = [] := hnil
  rw [hp]
  refine ⟨Nat.zero_le _,?_,by simp⟩
  simp only [Sys.endAdd,Sys.ret,Sys.setPool,hint,List.length_nil]
  omega

/-- A new job comes in; a job that was in the slot may be lost. -/
structure Born (job : ThreadPoolJob) (s s' : Sys) : Prop where
  live : s'.live.Subperm (job::s.live)
  places : ∀ job' ∈ s'.places, job' = job ∨ job' ∈ s.places
  copy : job.copy = s.copies
  id : job.jobId = s.tp.lastJobId
  rets : s'.rets = s.rets
  removed : s'.removed = s.removed
  copies : s'.copies = s.copies+1

theorem Identified.born {s s' : Sys} {job : ThreadPoolJob} (h : Identified s) (hb : Born job s s')
    (hlast : s.tp.lastJobId = s.copies) (hfew : (s.copies : ℤ) < invalidJobId) : Identified s' := by
  have hbound : invalidJobId = 2^29 := rfl
  refine ⟨?_,?_,?_,?_,?_⟩
  · obtain ⟨l,hl,hsub⟩ := hb.live
    refine (hl.map _).nodup_iff.mp (List.Nodup.sublist (hsub.map _) ?_)
    refine List.nodup_cons.mpr ⟨fun hin => ?_,h.once⟩
    rcases List.mem_map.mp hin with ⟨job',hjob,he⟩
    have hlt := (h.stamped job' (live_subset hjob)).2
    rw [he,hb.copy] at hlt
    exact Nat.lt_irrefl _ hlt
  · intro job' hjob
    rw [hb.copies]
    rcases hb.places job' hjob with rfl | hold
    · exact ⟨by rw [hb.id,hb.copy,hlast],by rw [hb.copy]; exact Nat.lt_succ_self _⟩
    · have hst := h.stamped job' hold
      exact ⟨hst.1,Nat.lt_succ_of_lt hst.2⟩
  · intro r hr
    rw [hb.rets] at hr
    exact h.rets r hr
  · intro p hp
    rw [hb.removed] at hp
    exact h.removed p hp
  · rw [hb.copies]
    push_cast
    omega

/-- The new job is the only one that is not counted yet. -/
theorem counted_born {s : Sys} {tp : ThreadPool} (hlast : tp.lastJobId = s.copies)
    (hnil : s.pending = []) :
    Numbered { s with tp := tp, copies := s.copies+1 } ([s.copies]++s.pending) := by
  rw [hnil]
  refine ⟨Nat.le_refl _,?_,?_⟩
  · simp [hlast]
  · intro copy hc
    rw [List.mem_singleton.mp hc]

theorem storePersistent_born (s : Sys) (job : ThreadPoolJob) (now : Timeval) :
    let temp := createThreadPoolJob job s.tp.lastJobId now s.copies
    Born temp s
      { s with tp := { s.tp with persistentJob := some temp }, copies := s.copies+1 } where
  live := by
    simp only [Sys.live,ThreadPool.held,Option.toList_some]
    have hsub : (s.tp.queued++s.workers.filterMap Worker.running?).Sublist
        (s.tp.queued++s.tp.persistentJob.toList++s.workers.filterMap Worker.running?) :=
      (List.sublist_append_left _ _).append (List.Sublist.refl _)
    refine List.Subperm.trans ?_ (hsub.cons_cons _).subperm
    rw [List.append_assoc,List.singleton_append]
    exact List.perm_middle.subperm
  places job' hjob := by
    simp [ThreadPool.queued] at hjob ⊢
    grind
  copy := rfl
  id := rfl
  rets := rfl
  removed := rfl
  copies := rfl

theorem enqueue_born (s : Sys) (job : ThreadPoolJob) (now : Timeval) (node : Bool) :
    let temp := createThreadPoolJob job s.tp.lastJobId now s.copies
    Born temp s
      { s with tp := if node then s.tp.enqueue temp else s.tp, copies := s.copies+1 } where
  live := by
    cases node with
    | false => exact (List.sublist_cons_self _ _).subperm
    | true =>
      simp only [if_true,Sys.live,ThreadPool.held,enqueue_persistentJob]
      exact (((enqueue_queued _ _).append_right _).append_right _).subperm
  places job' hjob := by
    cases node with
    | false => exact .inr hjob
    | true =>
      have hq : ∀ a, a ∈ (s.tp.enqueue (createThreadPoolJob job s.tp.lastJobId now s.copies)).queued ↔
          a = createThreadPoolJob job s.tp.lastJobId now s.copies ∨ a ∈ s.tp.queued := fun a => by
        rw [(enqueue_queued _ _).mem_iff,List.mem_cons]
      simp only [if_true,mem_places,mem_held,enqueue_persistentJob,hq] at hjob ⊢
      tauto
  copy := rfl
  id := rfl
  rets := rfl
  removed := rfl
  copies := rfl

theorem Shifted.trans {s s' s'' : Sys} (h : Shifted s s') (h' : Shifted s' s'') : Shifted s s'' where
  live := h'.live.trans h.live
  places job hjob := h.places job (h'.places job hjob)
  rets := h'.rets.trans h.rets
  removed p hp := (h'.removed p hp).elim (h.removed p) .inr
  copies := h'.copies.trans h.copies

/-- Jobs may only leave the pool. -/
theorem Shifted.of_live {s s' : Sys} (hlive : s'.live.Subperm s.live) (hran : s'.ran = s.ran)
    (hrets : s'.rets = s.rets) (hremoved : s'.removed = s.removed)
    (hreleased : s'.released = s.released) (hcopies : s'.copies = s.copies) : Shifted s s' where
  live := hlive
  places job hjob := by
    have hsplit : ∀ s : Sys, s.places = s.live++s.ran++s.removed.map Prod.snd++s.released :=
      fun _ => rfl
    rw [hsplit,hran,hremoved,hreleased] at hjob
    rw [hsplit]
    simp only [List.mem_append] at hjob ⊢
    exact hjob.imp_left (Or.imp_left (Or.imp_left fun h => hlive.subset h))
  rets := hrets
  removed p hp := .inl (hremoved ▸ hp)
  copies := hcopies

/-- Nothing but the pool's counters, the flags and the calls is changed. -/
theorem Shifted.same {s s' : Sys} (hheld : s'.tp.held = s.tp.held)
    (hworkers : s'.workers.filterMap Worker.running? = s.workers.filterMap Worker.running?)
    (hran : s'.ran = s.ran) (hrets : s'.rets = s.rets) (hremoved : s'.removed = s.removed)
    (hreleased : s'.released = s.released) (hcopies : s'.copies = s.copies) : Shifted s s' := by
  refine .of_live ?_ hran hrets hremoved hreleased hcopies
  rw [Sys.live,hheld,hworkers]
  exact List.Subperm.refl _

theorem shutdown_shifted (s : Sys) : Shifted s { s with
    tp := { s.tp with
      highJobQ := [], medJobQ := [], lowJobQ := [], persistentJob := none, shutdown := true }
    released := s.tp.queued ++ s.tp.persistentJob.toList ++ s.released } where
  live := by
    simp only [Sys.live,ThreadPool.held,ThreadPool.queued,Option.toList_none,List.nil_append]
    exact (List.sublist_append_right _ _).subperm
  places job hjob := by
    simp [ThreadPool.queued] at hjob ⊢
    grind
  rets := rfl
  removed _ hp := .inl hp
  copies := rfl

theorem identified_awaitThreads {s : Sys} (h : IdentifiedAt s) : IdentifiedAt s.awaitThreads := by
  unfold Sys.awaitThreads
  split
  · exact identified_wait h.1 h.2
  · exact ⟨h.1.shifted (.same rfl rfl rfl rfl rfl rfl rfl),⟨h.2.one,h.2.last,h.2.top⟩⟩

theorem identified_shutdown {s : Sys} (h : IdentifiedAt s) : IdentifiedAt s.threadPoolShutdown :=
  identified_awaitThreads ⟨h.1.shifted (shutdown_shifted s),⟨h.2.one,h.2.last,h.2.top⟩⟩

theorem identified_rule : CallRule Identified IdentifiedAt NumberedWith
    (fun s => s.pending = [] ∧ (s.copies : ℤ) < invalidJobId) where
  waits s w hs hw := identified_wait hs hw
  spawned s hs _ _ := hs.shifted (.same rfl rfl rfl rfl rfl rfl rfl)
  started s c rc hc := by
    cases c <;> exact ⟨hc.one,hc.last,hc.top⟩
  starting s c rc hc := by
    cases c <;> exact hc
  divided s jobs threads rc copy hs hw :=
    ⟨hs.shifted (.same rfl rfl rfl rfl rfl rfl rfl),⟨hw.one,hw.last,hw.top⟩⟩
  counted s jobs threads rc copy hw := hw
  ended s jobs threads rc copy hs hw := identified_endAdd hs hw
  pickedUp s copy hs hw _ := identified_endAdd hs hw
  stored s job env hs hw hg ha := by
    have hlast : s.tp.lastJobId = s.copies := by
      have h := hw.last
      rw [hg.1] at h
      simpa [Waiting.pending] using h
    unfold Sys.storePersistent
    rw [if_pos ha]
    exact identified_wait (hs.born (storePersistent_born s job env.now) hlast hg.2)
      (counted_born hlast hg.1)
  refused s job code id hs hw hcode :=
    ⟨identified_ret hs fun h => absurd h hcode,⟨hw.one,hw.last,hw.top⟩⟩
  init s hw := hw
  initNext s i hw := hw
  initFailed s i hw := hw
  ready s i hs hw := ⟨hs.shifted (.same rfl rfl rfl rfl rfl rfl rfl),⟨hw.one,hw.last,hw.top⟩⟩
  shutdown s hs hw := identified_shutdown ⟨hs,hw⟩
  destroyed s hs hw := ⟨hs.shifted (.same rfl rfl rfl rfl rfl rfl rfl),⟨hw.one,hw.last,hw.top⟩⟩

theorem identified_add {s : Sys} (job : ThreadPoolJob) (env : Env) (hs : IdentifiedAt s)
    (hok : Alone s (.add job env)) : IdentifiedAt (s.threadPoolAdd job env) := by
  unfold Sys.threadPoolAdd
  split
  · exact ⟨identified_ret hs.1 fun h => (by cases h),⟨hs.2.one,hs.2.last,hs.2.top⟩⟩
  rename_i hroom
  split
  · rename_i ha
    rcases hok (by simp only [Sys.creates,ha,Bool.and_true,decide_eq_true_eq]; omega) with ⟨hnil,hfew⟩
    have hlast : s.tp.lastJobId = s.copies := by
      have h := hs.2.last
      rw [hnil] at h
      simpa using h
    have hborn := hs.1.born (enqueue_born s job env.now (env.allocates 1)) hlast hfew
    refine identified_rule.addWorker env hborn (counted_born ?_ hnil)
    split
    · exact (enqueue_counters _ _).lastJobId.trans hlast
    · exact hlast
  · exact ⟨identified_ret hs.1 fun h => (by cases h),⟨hs.2.one,hs.2.last,hs.2.top⟩⟩

theorem worker_taken {s : Sys} {i : ℕ} {w : Worker} (hi : s.workers[i]? = some w)
    (hw : w.running? = none) : Shifted s { s with workers := s.workers.eraseIdx i } := by
  have hp := (perm_eraseIdx hi).filterMap Worker.running?
  rw [List.filterMap_cons_none hw] at hp
  exact .of_live (hp.symm.append_left _).subperm rfl rfl rfl rfl rfl

theorem workerRegion_shifted (s : Sys) (timedOut : Bool) (env : Env) :
    Shifted s (s.workerRegion timedOut env) := by
  have hbump := bumpPriority_bumped env s.tp
  have hheld : (bumpPriority env s.tp).held.Subperm s.tp.held := by
    rw [ThreadPool.held,hbump.slot]
    exact hbump.queued.append (List.Subperm.refl _)
  rcases workerCheck_cases timedOut env s.tp with he | he | he | ⟨job,persistent,tp',hpick,he⟩ <;>
    simp only [Sys.workerRegion,he]
  · exact .same rfl rfl rfl rfl rfl rfl rfl
  · exact .same rfl rfl rfl rfl rfl rfl rfl
  · exact .of_live (hheld.append (List.Subperm.refl _)) rfl rfl rfl rfl rfl
  · refine .of_live ?_ rfl rfl rfl rfl rfl
    have hmoved : (tp'.held++job::s.workers.filterMap Worker.running?).Perm
        ((bumpPriority env s.tp).held++s.workers.filterMap Worker.running?) :=
      List.perm_middle.trans ((pickJob_spec hpick).1.symm.append_right _)
    exact hmoved.subperm.trans (hheld.append (List.Subperm.refl _))

@[simp] theorem workerCheck_lastJobId (timedOut : Bool) (env : Env) (tp : ThreadPool) :
    (workerCheck timedOut env tp).2.lastJobId = tp.lastJobId := by
  have hbump := (bumpPriority_bumped env tp).counters.lastJobId
  rcases workerCheck_cases timedOut env tp with he | he | he | ⟨job,persistent,tp',hpick,he⟩ <;>
    rw [he]
  · rfl
  · exact hbump
  · exact (pickJob_spec hpick).2.2.2.lastJobId.trans hbump

theorem finish_shifted {s : Sys} {i : ℕ} {job : ThreadPoolJob} {persistent : Bool}
    (hi : s.workers[i]? = some (.running job persistent)) : Shifted s { s with
      workers := .returned job persistent::s.workers.eraseIdx i, ran := job::s.ran } := by
  have hp := (perm_eraseIdx hi).filterMap Worker.running?
  have hrun : (s.workers.filterMap Worker.running?).Perm
      (job::(s.workers.eraseIdx i).filterMap Worker.running?) := hp
  refine ⟨?_,?_,rfl,fun _ h => .inl h,rfl⟩
  · have hsub := (List.sublist_cons_self job ((s.workers.eraseIdx i).filterMap Worker.running?)).subperm
    exact (List.Subperm.refl s.tp.held).append (hsub.trans hrun.symm.subperm)
  · intro job' hjob
    have hcons : (Worker.returned job persistent::s.workers.eraseIdx i).filterMap Worker.running? =
        (s.workers.eraseIdx i).filterMap Worker.running? := rfl
    simp only [mem_places,hcons,List.mem_cons,hrun.mem_iff] at hjob ⊢
    tauto

/-- The removed job has the id that was asked for. -/
theorem remove_shifted {s : Sys} {id : ℤ} {job : ThreadPoolJob} {tp : ThreadPool}
    (h : s.tp.findJob id = some (job,tp)) :
    Shifted s { s with tp := tp, removed := (id,job)::s.removed } := by
  rcases findJob_spec h with ⟨hid,hp,-⟩
  refine ⟨?_,?_,rfl,?_,rfl⟩
  · have hsub := ((List.sublist_cons_self job tp.held).subperm).trans hp.symm.subperm
    exact hsub.append (List.Subperm.refl _)
  · intro job' hjob
    simp only [mem_places,List.map_cons,List.mem_cons,hp.mem_iff] at hjob ⊢
    tauto
  · intro p hp
    rcases List.mem_cons.mp hp with rfl | hp
    · exact .inr hid
    · exact .inl hp

theorem step_identified (s : Sys) (e : Event) (t : Sys) (hs : IdentifiedAt s) (hok : Alone s e)
    (hstep : step s e = some t) : IdentifiedAt t := by
  have hkeep : ∀ {t : Sys}, Shifted s t → t.tp.lastJobId = s.tp.lastJobId → t.calls = s.calls →
      IdentifiedAt t := by
    intro t hshift hlast hcalls
    refine ⟨hs.1.shifted hshift,?_⟩
    rw [Sys.pending,hcalls]
    exact ⟨hs.2.one,by rw [hlast,hshift.copies]; exact hs.2.last,by rw [hshift.copies]; exact hs.2.top⟩
  cases (step_stepped hstep).2 with
  | add job env => exact identified_add job env hs hok
  | addPersistent job env =>
    refine identified_rule.threadPoolAddPersistent job env hs.1 hs.2 fun hst ha => hok ?_
    simp only [Sys.creates,Sys.stores,hst,ha,Bool.and_self]
  | absent id => exact hs
  | remove id hfound =>
    exact hkeep (remove_shifted hfound) (findJob_spec hfound).2.2.1.lastJobId rfl
  | shutdown => exact identified_shutdown hs
  | resume i env hcall =>
    rename_i w
    have hperm : (w.pending++Sys.pending { s with calls := s.calls.eraseIdx i }).Perm s.pending :=
      ((perm_eraseIdx hcall).flatMap_right Waiting.pending).symm
    have hs' : Identified { s with calls := s.calls.eraseIdx i } :=
      hs.1.shifted (.same rfl rfl rfl rfl rfl rfl rfl)
    have hw : NumberedWith { s with calls := s.calls.eraseIdx i } w := by
      have hc := hs.2.perm hperm
      exact ⟨hc.one,hc.last,hc.top⟩
    refine identified_rule.resume env hs' hw fun hst => ?_
    rcases hok (by simp only [Sys.creates,Sys.stores,hcall]; exact hst) with ⟨hnil,hfew⟩
    rw [hnil] at hperm
    exact ⟨(List.append_eq_nil_iff.mp hperm.eq_nil).2,hfew⟩
  | start i hworker =>
    have h := worker_taken hworker rfl
    exact hkeep ⟨h.live,h.places,h.rets,h.removed,h.copies⟩ rfl rfl
  | started i timedOut env hworker =>
    exact hkeep ((worker_taken hworker rfl).trans (workerRegion_shifted _ false env))
      (workerCheck_lastJobId false env s.tp) rfl
  | waiting i timedOut env hworker =>
    exact hkeep ((worker_taken hworker rfl).trans (workerRegion_shifted _ timedOut env))
      (workerCheck_lastJobId timedOut env s.tp) rfl
  | returned i timedOut env hworker =>
    rename_i job persistent
    have h := worker_taken hworker rfl
    have hfree : Shifted s { s with tp := s.tp.freeJob persistent, workers := s.workers.eraseIdx i } :=
      ⟨h.live,h.places,h.rets,h.removed,h.copies⟩
    exact hkeep (hfree.trans (workerRegion_shifted _ false env))
      (workerCheck_lastJobId false env (s.tp.freeJob persistent)) rfl
  | finish i hworker => exact hkeep (finish_shifted hworker) rfl rfl

theorem init_identified (attr : ThreadPoolAttr) : IdentifiedAt (Sys.init attr) :=
  ⟨⟨List.nodup_nil,fun _ h => (by cases h),fun _ h => (by cases h),fun _ h => (by cases h),
    (by decide : (0 : ℤ) ≤ invalidJobId)⟩,⟨Nat.zero_le _,rfl,fun _ h => (by cases h)⟩⟩

/-- In a run in which no job is created while a call waits that has created one, ids are unique and
right. -/
theorem run_jobIdentity {attr : ThreadPoolAttr} {s : Sys}
    (h : Runs step Alone (Sys.init attr) s) : JobIdentity s :=
  (h.invariant (init_identified attr) step_identified).1.identity

theorem run_jobIdentity_removed : ∃ s, Runs step Alone (Sys.init ⟨1,1,10000,10,100,500⟩) s ∧
    s.rets = [⟨0,some 1,some 1⟩,⟨0,some 0,some 0⟩] ∧ s.removed.map (fun p => p.2.copy) = [1] ∧
    JobIdentity s := by
  have h : ∃ s, run step Alone (Sys.init ⟨1,1,10000,10,100,500⟩) [.resume 0 .calm,.start 0,
      .resume 0 .calm,.add (.ofFunc 7) .calm,.add (.ofFunc 8) .calm,.remove 1] = some s ∧
        s.rets = [⟨0,some 1,some 1⟩,⟨0,some 0,some 0⟩] ∧
        s.removed.map (fun p => p.2.copy) = [1] := ⟨_,rfl,rfl,rfl⟩
  rcases h with ⟨s,hs,hr,hremoved⟩
  exact ⟨s,.of_run _ hs,hr,hremoved,run_jobIdentity (.of_run _ hs)⟩

/-- The first call waits for its worker while the second one stamps its job with the same id. Both
return 0, and the id of the second job takes out the first one. -/
theorem same_id_twice : ¬∀ (attr : ThreadPoolAttr) (s : Sys),
    Runs step free (Sys.init attr) s → (s.copies : ℤ) < invalidJobId → JobIdentity s := by
  intro h
  have hrun : ∃ s, run step free (Sys.init ⟨1,2,10000,1,100,500⟩) [.resume 0 .calm,.start 0,
      .resume 0 .calm,.add (.ofFunc 7) .calm,.add (.ofFunc 8) .calm,.start 0,.resume 0 .calm,
      .resume 0 .calm,.remove 0] = some s ∧ (⟨0,some 0,some 1⟩ : Ret) ∈ s.rets ∧
        s.removed.map (fun p => (p.1,p.2.copy)) = [(0,0)] ∧ (s.copies : ℤ) < invalidJobId :=
    ⟨_,rfl,by decide,rfl,by decide⟩
  rcases hrun with ⟨s,hs,hr,hremoved,hfew⟩
  obtain ⟨p,hp,hpair⟩ := List.map_eq_singleton_iff.mp hremoved
  have hwrong := (h _ _ (.of_run _ hs) hfew).removed p (by rw [hp]; exact .head _) _ hr rfl
  rw [show p.1 = 0 from congrArg Prod.fst hpair,show p.2.copy = 0 from congrArg Prod.snd hpair]
    at hwrong
  exact absurd (hwrong rfl) (by decide)

end Thread
end CtrlPt
