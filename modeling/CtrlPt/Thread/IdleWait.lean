import CtrlPt.Thread.Pool

/-! How long an idle worker waits: the deadline of `SetRelTimeout` and the inner loop of
`WorkerThread`. -/
namespace CtrlPt
namespace Thread

structure Timespec where
  sec : ℤ
  nsec : ℤ
  deriving DecidableEq, Repr

/-- `SetRelTimeout` adds the fractions of the seconds and carries nothing. -/
def setRelTimeout (now : Timeval) (relMillis : ℤ) : Timespec :=
  let sec := Int.tdiv relMillis 1000
  let milliSeconds := Int.tmod relMillis 1000
  ⟨now.sec+sec,(Int.tdiv now.usec 1000+milliSeconds)*1000000⟩

/-- A deadline as `ithread_cond_timedwait` requires it. -/
def Timespec.Normalised (t : Timespec) : Prop := 0 ≤ t.nsec ∧ t.nsec < 10^9

instance (t : Timespec) : Decidable t.Normalised :=
  inferInstanceAs (Decidable (0 ≤ t.nsec ∧ t.nsec < 10^9))

def Timespec.nanos (t : Timespec) : ℤ := t.sec*10^9+t.nsec

/-- The time in milliseconds, without the rest. -/
def Timeval.millis (t : Timeval) : ℤ := t.sec*1000+t.usec/1000

def Timeval.nanos (t : Timeval) : ℤ := t.sec*10^9+t.usec*1000

/-- How a round of the inner loop ends: there is work, or a shutdown; the worker dies; it waits
until the deadline; or the call comes back at once and the loop goes on with its code. -/
inductive IdleRound
  | leaves | dies
  | waits (deadline : Timespec)
  | again (retCode : ℤ)
  deriving DecidableEq, Repr

def etimedout : ℤ := 110

/-- `ithread_cond_timedwait`, called at the time `now` with nobody to signal the condition. A
deadline that is not normalised is refused before the mutex is given up; one that has passed is a
time-out. -/
def condTimedwait (now : Timeval) (deadline : Timespec) : IdleRound :=
  if ¬deadline.Normalised then .again einval
  else if deadline.nanos ≤ now.nanos then .again etimedout
  else .waits deadline

/-- The two readings of the clock in a round: by `SetRelTimeout`, and by the wait behind it. -/
structure Clock where
  now : Timeval
  called : Timeval
  deriving DecidableEq, Repr

def idleRound (tp : ThreadPool) (retCode : ℤ) (clock : Clock) : IdleRound :=
  if ¬tp.idle then .leaves
  else if tp.dies (decide (retCode = etimedout)) then .dies
  else condTimedwait clock.called (setRelTimeout clock.now tp.attr.maxIdleTime)

/-- The rounds of a worker, with the times they find; `none` when the worker has not waited and
has neither left the loop nor died in any of them. -/
def idleLoop (tp : ThreadPool) : ℤ → List Clock → Option IdleRound
  | _, [] => none
  | retCode, clock::later =>
    match idleRound tp retCode clock with
    | .again rc => idleLoop tp rc later
    | r => some r

/-- The deadline of an idle worker is right, and the worker waits for it, if it gets to the wait in
the millisecond in which it has read the time, or before its idle time is over. -/
structure IdleDeadline (now : Timeval) (relMillis : ℤ) : Prop where
  normalised : (setRelTimeout now relMillis).Normalised
  denotes : (setRelTimeout now relMillis).nanos = (now.millis+relMillis)*10^6
  waits : ∀ tp retCode called later, tp.attr.maxIdleTime = relMillis →
    called.millis = now.millis ∨ called.millis < now.millis+relMillis →
    idleLoop tp retCode (⟨now,called⟩::later) ≠ none

/-- The fractions of the seconds make up a second. -/
def carries (now : Timeval) (relMillis : ℤ) : Prop := 1000 ≤ now.usec/1000+relMillis%1000

instance (now : Timeval) (relMillis : ℤ) : Decidable (carries now relMillis) :=
  inferInstanceAs (Decidable (1000 ≤ now.usec/1000+relMillis%1000))

theorem setRelTimeout_eq {now : Timeval} {relMillis : ℤ} (hnow : 0 ≤ now.usec)
    (hrel : 0 ≤ relMillis) : setRelTimeout now relMillis =
      ⟨now.sec+relMillis/1000,(now.usec/1000+relMillis%1000)*1000000⟩ := by
  unfold setRelTimeout
  rw [Int.tdiv_eq_ediv_of_nonneg hrel,Int.tmod_eq_emod_of_nonneg hrel,
    Int.tdiv_eq_ediv_of_nonneg hnow]

theorem setRelTimeout_spec {now : Timeval} {relMillis : ℤ} (h₀ : 0 ≤ now.usec)
    (hrel : 0 ≤ relMillis) :
    (setRelTimeout now relMillis).nanos = (now.millis+relMillis)*10^6 ∧
      ((setRelTimeout now relMillis).Normalised ↔ ¬carries now relMillis) := by
  rw [setRelTimeout_eq h₀ hrel]
  constructor
  · simp only [Timespec.nanos,Timeval.millis]
    omega
  · simp only [Timespec.Normalised,carries]
    omega

theorem Timeval.nanos_lt (t : Timeval) : t.nanos < (t.millis+1)*10^6 := by
  simp only [nanos,millis]
  omega

theorem Timeval.millis_le_nanos (t : Timeval) : t.millis*10^6 ≤ t.nanos := by
  simp only [nanos,millis]
  omega

theorem condTimedwait_again {now : Timeval} {deadline : Timespec} :
    (∃ rc, condTimedwait now deadline = .again rc) ↔
      (deadline.Normalised → deadline.nanos ≤ now.nanos) := by
  unfold condTimedwait
  by_cases hn : deadline.Normalised
  · by_cases hp : deadline.nanos ≤ now.nanos <;> simp [hn,hp]
  · simp [hn]

/-- A worker that cannot die spins exactly while every deadline is refused or has passed. -/
theorem idleLoop_none_iff {tp : ThreadPool} (hidle : tp.idle = true) (hlive : tp.dies true = false)
    (retCode : ℤ) (clocks : List Clock) :
    idleLoop tp retCode clocks = none ↔ ∀ clock ∈ clocks,
      (setRelTimeout clock.now tp.attr.maxIdleTime).Normalised →
        (setRelTimeout clock.now tp.attr.maxIdleTime).nanos ≤ clock.called.nanos := by
  have hnever : ∀ timedOut, tp.dies timedOut = false := by
    rintro (_ | _)
    · unfold ThreadPool.dies at hlive ⊢
      rw [Bool.or_eq_false_iff] at hlive
      exact hlive.2
    · exact hlive
  induction clocks generalizing retCode with
  | nil => simp [idleLoop]
  | cons clock later ih =>
    have hround : idleRound tp retCode clock =
        condTimedwait clock.called (setRelTimeout clock.now tp.attr.maxIdleTime) := by
      simp [idleRound,hidle,hnever]
    rw [idleLoop,hround,List.forall_mem_cons,← condTimedwait_again]
    cases hwait : condTimedwait clock.called (setRelTimeout clock.now tp.attr.maxIdleTime) with
    | again rc => simpa using ih rc
    | leaves | dies | waits deadline => simp

theorem idleRound_not_again {tp : ThreadPool} {retCode : ℤ} {clock : Clock}
    (hn : (setRelTimeout clock.now tp.attr.maxIdleTime).Normalised)
    (hfuture : clock.called.nanos < (setRelTimeout clock.now tp.attr.maxIdleTime).nanos) (rc : ℤ) :
    idleRound tp retCode clock ≠ .again rc := by
  unfold idleRound
  split
  · rintro ⟨⟩
  · split
    · rintro ⟨⟩
    · exact fun hr => Int.not_le.mpr hfuture (condTimedwait_again.mp ⟨rc,hr⟩ hn)

/-- The region of a worker dies or waits as the round says; a wait that fails is one that wakes at
once. -/
theorem workerCheck_idle {tp : ThreadPool} (h : tp.idle = true) (retCode : ℤ) (env : Env)
    (called : Timeval) : workerCheck (decide (retCode = etimedout)) env tp =
      if idleRound tp retCode ⟨env.now,called⟩ = .dies then (none,tp.exitWorker)
      else (some .waiting,tp) := by
  rw [workerCheck,if_pos h,idleRound,if_neg (not_not_intro h)]
  by_cases hd : tp.dies (decide (retCode = etimedout)) = true
  · rw [if_pos hd,if_pos hd,if_pos rfl]
  · rw [if_neg hd,if_neg hd,if_neg]
    unfold condTimedwait
    split
    · rintro ⟨⟩
    · split <;> rintro ⟨⟩

def idlePool (maxIdleTime : ℤ) : ThreadPool :=
  ⟨0,false,1,false,0,0,[],[],[],none,⟨1,1,maxIdleTime,10,100,500⟩⟩

/-- The deadline is right, and is waited for, exactly when there is a time to wait and the fractions
of the seconds stay below a second. -/
theorem idleDeadline_iff {now : Timeval} {relMillis : ℤ} (hnow : 0 ≤ now.usec)
    (hrel : 0 ≤ relMillis) :
    IdleDeadline now relMillis ↔ 0 < relMillis ∧ now.usec/1000+relMillis%1000 < 1000 := by
  rcases setRelTimeout_spec hnow hrel with ⟨hdenotes,hnorm⟩
  have hcarry : now.usec/1000+relMillis%1000 < 1000 ↔ ¬carries now relMillis := Int.not_le.symm
  rw [hcarry,← hnorm]
  constructor
  · intro h
    refine ⟨?_,h.normalised⟩
    by_contra hpos
    -- without a time to wait the deadline has passed when it is set
    obtain rfl : relMillis = 0 := by omega
    refine h.waits (idlePool 0) 0 now [] rfl (.inl rfl) ((idleLoop_none_iff rfl rfl 0 _).mpr ?_)
    rintro clock hc _
    rw [List.mem_singleton.mp hc]
    refine (Int.le_of_eq (h.denotes.trans ?_)).trans (now.millis_le_nanos)
    rw [Int.add_zero]
  · rintro ⟨hpos,hn⟩
    refine ⟨hn,hdenotes,?_⟩
    rintro tp retCode called later rfl hmillis hnone
    have hfuture : called.nanos < (setRelTimeout now tp.attr.maxIdleTime).nanos := by
      have hlt := called.nanos_lt
      rw [hdenotes]
      omega
    rw [idleLoop] at hnone
    cases hr : idleRound tp retCode ⟨now,called⟩ with
    | again rc => exact idleRound_not_again hn hfuture rc hr
    | leaves | dies | waits deadline =>
      rw [hr] at hnone
      cases hnone

theorem idleDeadline_default : IdleDeadline ⟨5,250000⟩ 10000 :=
  (idleDeadline_iff (by decide) (by decide)).mpr (by decide)

/-- In the last millisecond of a second a wait of a millisecond is refused, over and over, and at
any time a wait of none is over before it begins. -/
theorem idle_worker_spins :
    idleLoop (idlePool 1) 0
        [⟨⟨5,999000⟩,⟨5,999001⟩⟩,⟨⟨5,999400⟩,⟨5,999401⟩⟩,⟨⟨5,999999⟩,⟨5,999999⟩⟩] = none ∧
      idleLoop (idlePool 0) 0 [⟨⟨5,0⟩,⟨5,1⟩⟩,⟨⟨5,2⟩,⟨5,3⟩⟩,⟨⟨5,4⟩,⟨5,5⟩⟩] = none ∧
      ¬∀ (now : Timeval) (relMillis : ℤ), 0 ≤ now.usec → now.usec < 10^6 → 0 ≤ relMillis →
        IdleDeadline now relMillis := by
  refine ⟨?_,?_,fun h => ?_⟩
  · rw [idleLoop_none_iff rfl rfl]
    decide
  · rw [idleLoop_none_iff rfl rfl]
    decide
  · have hn := (h ⟨5,999000⟩ 1 (by decide) (by decide) (by decide)).normalised
    exact absurd hn (by decide)

end Thread
end CtrlPt
