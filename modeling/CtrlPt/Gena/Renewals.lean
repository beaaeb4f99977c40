import CtrlPt.Gena.Calls

/-! When renewals are due. The publisher chooses the timeout of every lease. -/
namespace CtrlPt
namespace Subscriptions

open CText Http Memory Sdk Thread Transition

/-- What a region under the handle lock does to the timer thread: events may go, and the one of the
call that was made may come. -/
structure TimerStep (now : ℤ) (call : Option TimerCall) (s s' : State) : Prop where
  events : ∀ e ∈ s'.gTimerThread.eventQ, ∀ event, e.job = .genaAutoRenewSubscription event →
    e ∈ s.gTimerThread.eventQ ∨
      ∃ c, call = some c ∧ c.rc = 0 ∧ e.id = c.id ∧ e.eventTime = now+c.delay
  count : s.gTimerThread.lastEventId ≤ s'.gTimerThread.lastEventId
  stamp : ∀ c, call = some c → c.rc = 0 →
    s.gTimerThread.lastEventId ≤ c.id ∧ c.id < s'.gTimerThread.lastEventId

theorem TimerStep.refl (now : ℤ) (s : State) : TimerStep now none s s :=
  ⟨fun _ he _ _ => .inl he,le_rfl,by rintro c ⟨⟩⟩

theorem TimerStep.trans {now : ℤ} {call : Option TimerCall} {s t u v : State}
    (h₁ : TimerStep now none s t) (h₂ : TimerStep now call t u) (h₃ : TimerStep now none u v) :
    TimerStep now call s v where
  events := by
    intro e he event hjob
    rcases h₃.events e he event hjob with he | ⟨c,hc,-⟩
    · rcases h₂.events e he event hjob with he | h
      · rcases h₁.events e he event hjob with he | ⟨c,hc,-⟩
        · exact .inl he
        · cases hc
      · exact .inr h
    · cases hc
  count := le_trans h₁.count (le_trans h₂.count h₃.count)
  stamp := by
    intro c hc hrc
    rcases h₂.stamp c hc hrc with ⟨hl,hr⟩
    exact ⟨le_trans h₁.count hl,lt_of_lt_of_le hr h₃.count⟩

theorem TimerStep.removeEvent (now : ℤ) (s : State) (id : ℤ) :
    TimerStep now none s (removeEvent s id) := by
  refine ⟨fun e he _ _ => .inl ?_,?_,by rintro c ⟨⟩⟩
  · revert he
    unfold Subscriptions.removeEvent timerThreadRemove
    dsimp only
    split
    · rename_i ht
      exact fun he => (EventQueue.take_some ht).2.2.subset he
    · exact fun he => he
  · unfold Subscriptions.removeEvent timerThreadRemove
    dsimp only
    split <;> exact le_rfl

theorem TimerStep.freeSubscription (now : ℤ) (s : State) (a : ℕ) (sub : ClientSubscription) :
    TimerStep now none s (freeSubscription s a sub) := by
  unfold Subscriptions.freeSubscription
  dsimp only
  split
  · have h := TimerStep.removeEvent now s sub.renewEventId
    exact ⟨h.events,h.count,h.stamp⟩
  · have h := TimerStep.refl now s
    exact ⟨h.events,h.count,h.stamp⟩

theorem TimerStep.removeClientSub (now : ℤ) {s : State} {sid : List UInt8} {list : List ℕ}
    {r : List ℕ × State} (h : removeClientSubClientSid s sid list = .ok r) :
    TimerStep now none s r.2 := by
  induction list generalizing r with
  | nil =>
    cases h
    exact TimerStep.refl now s
  | cons a list ih =>
    rcases Rounds.of_bind_ok h with ⟨sub,-,h⟩
    split at h
    · cases h
      exact TimerStep.freeSubscription now s a sub
    · rcases Rounds.of_bind_ok h with ⟨r',hr',h⟩
      cases h
      have hs := ih hr'
      exact hs

theorem TimerStep.removeSubscription (now : ℤ) {s s' : State} {hnd : ℤ} {info : HandleInfo}
    {sid : List UInt8} (h : removeSubscription s hnd info sid = .ok s') :
    TimerStep now none s s' := by
  rcases Rounds.of_bind_ok h with ⟨r,hr,h⟩
  cases h
  have hr := TimerStep.removeClientSub now hr
  exact ⟨hr.events,hr.count,hr.stamp⟩

theorem TimerStep.beginRenew (now : ℤ) {s : State} {hnd : ℤ} {inSid : List UInt8}
    {r : Except ℤ ClientSubscription × State} (h : beginRenew s hnd inSid = .ok r) :
    TimerStep now none s r.2 := by
  unfold Subscriptions.beginRenew at h
  split at h
  · cases h
    exact TimerStep.refl now s
  · rcases Rounds.of_bind_ok h with ⟨o,-,h⟩
    cases o with
    | none =>
      cases h
      exact TimerStep.refl now s
    | some a =>
      rcases Rounds.of_bind_ok h with ⟨sub,-,h⟩
      cases h
      have h := TimerStep.removeEvent now s sub.renewEventId
      exact ⟨h.events,h.count,h.stamp⟩

theorem TimerStep.schedule {s : State} {hnd timeOut : ℤ} {a : ℕ} {env : RenewEnv}
    {r : RenewResult} (h : scheduleGenaAutoRenew s hnd timeOut a env = .ok r) :
    TimerStep env.now r.call s r.state ∧
      ∀ c, r.call = some c → timeOut ≠ upnpInfinite ∧ c.delay = renewDelay timeOut := by
  rcases Rounds.of_bind_ok h with ⟨sub,-,h⟩
  by_cases hinf : timeOut = upnpInfinite
  · rw [if_pos hinf] at h
    cases h
    exact ⟨TimerStep.refl _ s,by rintro c ⟨⟩⟩
  rw [if_neg hinf] at h
  by_cases halloc : env.eventStruct = false ∨ env.event = false
  · rw [if_pos halloc] at h
    cases h
    exact ⟨TimerStep.refl _ s,by rintro c ⟨⟩⟩
  rw [if_neg halloc] at h
  dsimp only at h
  rcases timerThreadSchedule_spec s.gTimerThread env.now (renewDelay timeOut) .relSec
    (.genaAutoRenewSubscription (renewEvent hnd timeOut sub)) .shortTerm env.timer with
    ⟨hevents,hcount,hstamp⟩
  split at h
  · rename_i hrc
    cases h
    refine ⟨⟨fun e he _ _ => ?_,hcount,?_⟩,?_⟩
    · exact .inl ((hevents e he).resolve_right fun h => hrc h.1)
    · rintro c hc h0
      cases hc
      exact absurd h0 hrc
    · rintro c hc
      cases hc
      exact ⟨hinf,rfl⟩
  · cases h
    refine ⟨⟨fun e he _ _ => ?_,hcount,?_⟩,?_⟩
    · rcases hevents e he with he | ⟨hrc,rfl⟩
      · exact .inl he
      · exact .inr ⟨_,rfl,hrc,rfl,Int.add_comm _ _⟩
    · rintro c hc h0
      cases hc
      exact ⟨(hstamp h0).1.ge,(hstamp h0).2⟩
    · rintro c hc
      cases hc
      exact ⟨hinf,rfl⟩

theorem TimerStep.finishRenew {s : State} {hnd : ℤ} {inSid : List UInt8} {answer : GenaAnswer}
    {env : RenewEnv} {r : RenewResult} (h : finishRenew s hnd inSid answer env = .ok r) :
    TimerStep env.now r.call s r.state ∧
      ∀ c, r.call = some c → answer.ret = upnpESuccess ∧ answer.timeout ≠ upnpInfinite ∧
        c.delay = renewDelay answer.timeout := by
  unfold Subscriptions.finishRenew at h
  split at h
  · cases h
    exact ⟨TimerStep.refl _ s,by rintro c ⟨⟩⟩
  · rename_i info _
    split at h
    · rcases Rounds.of_bind_ok h with ⟨s',hs',h⟩
      cases h
      exact ⟨TimerStep.removeSubscription _ hs',by rintro c ⟨⟩⟩
    · rename_i hret
      rcases Rounds.of_bind_ok h with ⟨o,-,h⟩
      cases o with
      | none =>
        cases h
        exact ⟨TimerStep.refl _ s,by rintro c ⟨⟩⟩
      | some a =>
        rcases Rounds.of_bind_ok h with ⟨sub,-,h⟩
        rcases Rounds.of_bind_ok h with ⟨scheduled,hsched,h⟩
        rcases TimerStep.schedule hsched with ⟨hstep,hdelay⟩
        have hfirst := TimerStep.refl env.now s
        have hstep' : TimerStep env.now scheduled.call s scheduled.state :=
          ⟨hstep.events,hstep.count,hstep.stamp⟩
        have hcall : ∀ c, scheduled.call = some c → answer.ret = upnpESuccess ∧
            answer.timeout ≠ upnpInfinite ∧ c.delay = renewDelay answer.timeout := fun c hc =>
          ⟨not_not.mp hret,hdelay c hc⟩
        split at h
        · rcases Rounds.of_bind_ok h with ⟨s',hs',h⟩
          cases h
          exact ⟨hfirst.trans hstep' (TimerStep.removeSubscription _ hs'),hcall⟩
        · cases h
          exact ⟨hstep',hcall⟩

theorem TimerStep.finishSubscribe {s : State} {hnd : ℤ} {publisherUrl : List UInt8}
    {answer : GenaAnswer} {env : SubscribeEnv} {r : SubscribeResult}
    (h : finishSubscribe s hnd publisherUrl answer env = .ok r) :
    TimerStep env.renew.now r.call s r.state ∧ r.timeOut = answer.timeout ∧
      ∀ c, r.call = some c → answer.ret = upnpESuccess ∧ answer.timeout ≠ upnpInfinite ∧
        c.delay = renewDelay answer.timeout := by
  unfold Subscriptions.finishSubscribe at h
  split at h
  · cases h
    exact ⟨TimerStep.refl _ s,rfl,by rintro c ⟨⟩⟩
  · rename_i hret
    split at h
    · cases h
      exact ⟨TimerStep.refl _ s,rfl,by rintro c ⟨⟩⟩
    · dsimp only at h
      split at h
      · cases h
        exact ⟨TimerStep.refl _ s,rfl,by rintro c ⟨⟩⟩
      · rcases Rounds.of_bind_ok h with ⟨scheduled,hsched,h⟩
        rcases TimerStep.schedule hsched with ⟨hstep,hdelay⟩
        have hcall : ∀ c, scheduled.call = some c → answer.ret = upnpESuccess ∧
            answer.timeout ≠ upnpInfinite ∧ c.delay = renewDelay answer.timeout := fun c hc =>
          ⟨not_not.mp hret,hdelay c hc⟩
        split at h
        · cases h
          exact ⟨⟨hstep.events,hstep.count,hstep.stamp⟩,rfl,hcall⟩
        · cases h
          exact ⟨⟨hstep.events,hstep.count,hstep.stamp⟩,rfl,hcall⟩

def grantedTimeout (v : List UInt8) : Option ℤ :=
  if (matchstr v timeoutFmt).status = .ok then (matchstr v timeoutFmt).intAt 0
  else if memptrCmpNocase v (cstr "Second-infinite") = 0 then some upnpInfinite
  else none

def IsInt (n : ℤ) : Prop := -2^31 ≤ n ∧ n < 2^31

theorem isInt_toInt (n : ℤ) : IsInt (toInt n) := by
  have hl := Int.le_bmod (x := n) (m := 2^32) (by decide)
  have hr := Int.bmod_lt (x := n) (m := 2^32) (by decide)
  unfold IsInt toInt
  omega

theorem matchInt_ok {loaded : Bool} {base : ℕ} {r : List UInt8} {o : Option ℤ} {n : ℕ}
    (h : matchInt loaded base r = (o,.ok () n)) : ∃ z, o = some z ∧ IsInt z := by
  unfold matchInt at h
  split at h
  · split at h
    · dsimp only at h
      split at h
      · cases h
      · cases h
        exact ⟨_,rfl,isInt_toInt _⟩
    · cases h
  · cases h

theorem timeoutFmt_ok {v : List UInt8} (h : (matchstr v timeoutFmt).status = .ok) :
    ∃ z, (matchstr v timeoutFmt).intAt 0 = some z ∧ IsInt z := by
  have hfmt : matchstr v timeoutFmt =
      vfmatchFrom true ((cstr "Second-").map .char++seqFmt) false 0 v := rfl
  rw [hfmt] at h ⊢
  rcases literal_match (cstr "Second-") seqFmt 0 v with ⟨pre,ds,-,-,he⟩ | ⟨-,hst,-⟩
  · rw [he] at h ⊢
    rw [seqFmt,vfmatchFrom] at h ⊢
    rcases hm : matchInt true 10 ds with ⟨o,st⟩
    cases st with
    | stop st n =>
      simp only [directive,hm] at h
      exact absurd h (status_ne_ok st)
    | ok u n =>
      rcases matchInt_ok hm with ⟨z,rfl,hz⟩
      exact ⟨z,by simp only [directive,hm]; rfl,hz⟩
  · exact absurd h hst

theorem grantedTimeout_isInt {v : List UInt8} {timeOut : ℤ} (h : grantedTimeout v = some timeOut) :
    IsInt timeOut := by
  unfold grantedTimeout at h
  split at h
  · rename_i hst
    rcases timeoutFmt_ok hst with ⟨z,hz,hint⟩
    rw [hz] at h
    rw [← Option.some.inj h]
    exact hint
  split at h
  · rw [← Option.some.inj h]
    unfold IsInt
    decide
  · cases h

theorem httpFixStrUrl_error {res : Uri.Resolver} {url : List UInt8} {n : ℕ} {e : ℤ}
    (h : httpFixStrUrl res url n = .error e) : e ≠ upnpESuccess := by
  have hfix : ∀ u, httpFixUrl u = .error e → e ≠ upnpESuccess := by
    intro u hu
    unfold httpFixUrl at hu
    split at hu
    · cases hu
      decide
    split at hu
    · cases hu
      decide
    split at hu
    · cases hu
    · cases hu
  unfold httpFixStrUrl at h
  split at h
  · cases h
    decide
  · exact hfix _ h

theorem subscribeRequest_error {sys : Setup} {dest : Uri.UriType} {sid : Option (List UInt8)}
    {timeout : List UInt8} {e : ℤ}
    (h : subscribeRequest sys dest sid timeout = .error (.code e)) : e ≠ upnpESuccess := by
  unfold subscribeRequest at h
  split at h
  · exact httpMakeMessage_error h
  · exact httpMakeMessage_error h

theorem exchangeSubscribe_granted {sys : Setup} {url : List UInt8} {timeout : ℤ}
    {sid : Option (List UInt8)} {reply : Reply} {answer : GenaAnswer}
    (h : exchangeSubscribe sys url timeout sid reply = .ok answer)
    (hret : answer.ret = upnpESuccess) :
    ∃ v, findHdr reply.msg.headers .timeout = some v ∧
      grantedTimeout v = some answer.timeout := by
  unfold exchangeSubscribe at h
  split at h
  · rename_i he
    cases h
    exact absurd hret (httpFixStrUrl_error he)
  split at h
  · cases h
  · rename_i he
    cases h
    exact absurd hret (subscribeRequest_error he)
  split at h
  · rename_i hr
    cases h
    exact absurd hret hr
  split at h
  · cases h
    cases hret
  rw [Except.ok.injEq] at h
  subst h
  unfold readLease at hret ⊢
  split at hret
  · rename_i sidHdr v hs hv
    refine ⟨v,hv,?_⟩
    dsimp only at hret ⊢
    rw [grantedTimeout]
    split at hret
    · cases hret
    rename_i hlen
    rw [if_neg hlen]
    split at hret
    · rename_i hst
      rcases timeoutFmt_ok hst with ⟨z,hz,-⟩
      rw [if_pos hst,if_pos hst,hz,Match.storeTo,hz]
      rfl
    rename_i hst
    rw [if_neg hst,if_neg hst]
    split at hret
    · rename_i hinf
      rw [if_pos hinf,if_pos hinf]
      rfl
    · cases hret
  · cases hret

/-- The lease does not end, or it is longer than the time it is renewed ahead of its end. -/
def LongLease (reply : Reply) : Prop :=
  ∀ v ∈ findHdr reply.msg.headers .timeout, ∀ timeOut ∈ grantedTimeout v,
    timeOut = upnpInfinite ∨ autoRenewTime < timeOut

instance (reply : Reply) : Decidable (LongLease reply) :=
  inferInstanceAs (Decidable (∀ v ∈ _, ∀ timeOut ∈ _, _))

/-- The delay is inside the lease exactly when the lease is longer than `AUTO_RENEW_TIME`. -/
theorem renewDelay_iff {timeOut : ℤ} (h : IsInt timeOut) :
    (0 < renewDelay timeOut ∧ renewDelay timeOut < timeOut) ↔ autoRenewTime < timeOut := by
  unfold renewDelay toInt autoRenewTime
  unfold IsInt at h
  by_cases hlow : -2^31 ≤ timeOut-10
  · rw [Int.bmod_eq_of_le (by omega) (by omega)]
    omega
  · have hb : Int.bmod (timeOut-10) (2^32) = timeOut-10+2^32 := by
      rw [← Int.add_bmod_right,Int.bmod_eq_of_le (by push_cast; omega) (by push_cast; omega)]
      push_cast
      rfl
    rw [hb]
    omega

/-- The replies that grant a lease grant a long one. -/
def LongLeases (_ : System) : Event → Prop
  | .subscribed _ env => LongLease env.reply
  | .renewed _ reply _ => LongLease reply
  | _ => True

instance : DecidableRel LongLeases
  | _, .subscribed _ env => inferInstanceAs (Decidable (LongLease env.reply))
  | _, .renewed _ reply _ => inferInstanceAs (Decidable (LongLease reply))
  | _, .tick _ | _, .register _ _ | _, .subscribe _ _ _ | _, .renew _ _ _ | _, .unSubscribe _ _
  | _, .unregister _ | _, .proceed _ | _, .expire _ | _, .autoRenew _ | _, .search _ _ _ =>
    isTrue trivial

/-- Every delay that is passed to the timer is inside its lease; a renewal that is pending is due
before its lease ends; and an automatic renewal comes later than the one before it. -/
structure RenewedInTime (x : System) : Prop where
  delays : ∀ p ∈ x.passed, 0 < p.2 ∧ p.2 < p.1
  pending : ∀ e ∈ x.sdk.gTimerThread.eventQ, ∀ event, e.job = .genaAutoRenewSubscription event →
    ∃ l ∈ x.leases, l.eventId = e.id ∧ l.since < e.eventTime ∧ e.eventTime < l.since+l.timeOut
  apart : ∀ l ∈ x.leases, ∀ t ∈ l.renewal, ∀ r ∈ x.renewals, r.1 = l.eventId → t < r.2

/-- A job that was fired had its lease's delay behind it. -/
def CallOk (leases : List Lease) (now : ℤ) : Call → Prop
  | .fired id _ => ∃ l ∈ leases, l.eventId = id ∧ l.since+l.delay ≤ now
  | .renewing _ _ _ _ auto => ∀ t ∈ auto, t ≤ now
  | _ => True

/-- What holds along a run with long leases. -/
structure Inv (x : System) : Prop where
  delays : ∀ p ∈ x.passed, 0 < p.2 ∧ p.2 < p.1
  inside : ∀ l ∈ x.leases, 0 < l.delay ∧ l.delay < l.timeOut
  since : ∀ l ∈ x.leases, l.since ≤ x.now ∧ ∀ t ∈ l.renewal, t ≤ l.since
  stamped : ∀ l ∈ x.leases, l.eventId < x.sdk.gTimerThread.lastEventId
  unique : ∀ l ∈ x.leases, ∀ l' ∈ x.leases, l.eventId = l'.eventId → l = l'
  pending : ∀ e ∈ x.sdk.gTimerThread.eventQ, ∀ event, e.job = .genaAutoRenewSubscription event →
    ∃ l ∈ x.leases, l.eventId = e.id ∧ e.eventTime = l.since+l.delay
  calls : ∀ c ∈ x.calls, CallOk x.leases x.now c
  renewals : ∀ r ∈ x.renewals, ∃ l ∈ x.leases, l.eventId = r.1 ∧ l.since+l.delay ≤ r.2

theorem Inv.init : Inv System.init := by
  constructor <;> rintro a ⟨⟩

theorem Inv.inTime {x : System} (h : Inv x) : RenewedInTime x where
  delays := h.delays
  pending := by
    intro e he event hjob
    rcases h.pending e he event hjob with ⟨l,hl,hid,htime⟩
    have hin := h.inside l hl
    exact ⟨l,hl,hid,by omega,by omega⟩
  apart := by
    intro l hl t ht r hr hid
    rcases h.renewals r hr with ⟨l',hl',hid',hle⟩
    obtain rfl := h.unique l hl l' hl' (hid.symm.trans hid'.symm)
    have hin := h.inside l hl
    have hsince := (h.since l hl).2 t ht
    omega

theorem CallOk.mono {leases leases' : List Lease} {now now' : ℤ} {c : Call}
    (h : CallOk leases now c) (hl : ∀ l ∈ leases, l ∈ leases') (hn : now ≤ now') :
    CallOk leases' now' c := by
  cases c with
  | fired id event =>
    rcases h with ⟨l,hm,hid,hle⟩
    exact ⟨l,hl l hm,hid,by omega⟩
  | renewing hnd inSid timeOut copy auto => exact fun t ht => le_trans (h t ht) hn
  | _ => trivial

/-- A region keeps the invariant: the timer step, what is recorded of it, and the calls that are
left. -/
theorem Inv.region {x : System} (h : Inv x) {s : State} {calls : List Call} {timeOut : ℤ}
    {auto : Option ℤ} {call : Option TimerCall} (hstep : TimerStep x.now call x.sdk s)
    (hdelay : ∀ c, call = some c → 0 < c.delay ∧ c.delay < timeOut) (hauto : ∀ t ∈ auto, t ≤ x.now)
    (hcalls : ∀ c ∈ calls, c ∈ x.calls ∨ CallOk x.leases x.now c) :
    Inv (({ x with sdk := s, calls := calls } : System).record timeOut auto call) := by
  have hcalls' : ∀ c ∈ calls, CallOk x.leases x.now c := by
    intro c hc
    rcases hcalls c hc with hc | hc
    · exact h.calls c hc
    · exact hc
  have hstamped : ∀ l ∈ x.leases, l.eventId < s.gTimerThread.lastEventId := fun l hl =>
    lt_of_lt_of_le (h.stamped l hl) hstep.count
  have hold : (∀ e ∈ s.gTimerThread.eventQ, ∀ event, e.job = .genaAutoRenewSubscription event →
      e ∈ x.sdk.gTimerThread.eventQ) → Inv { x with sdk := s, calls := calls } := by
    intro hq
    refine ⟨h.delays,h.inside,h.since,hstamped,h.unique,?_,hcalls',h.renewals⟩
    intro e he event hjob
    exact h.pending e (hq e he event hjob) event hjob
  cases call with
  | none =>
    refine hold fun e he event hjob => ?_
    rcases hstep.events e he event hjob with he | ⟨c,hc,-⟩
    · exact he
    · cases hc
  | some c =>
    have hd := hdelay c rfl
    have hpassed : ∀ p ∈ (timeOut,c.delay)::x.passed, 0 < p.2 ∧ p.2 < p.1 := by
      intro p hp
      rcases List.mem_cons.mp hp with rfl | hp
      · exact hd
      · exact h.delays p hp
    dsimp only [System.record]
    by_cases hrc : c.rc = 0
    · rw [if_pos hrc]
      have hstamp := hstep.stamp c rfl hrc
      -- the new lease and those before it
      have hall : ∀ (P : Lease → Prop), P ⟨c.id,x.now,timeOut,c.delay,auto⟩ →
          (∀ l ∈ x.leases, P l) →
          ∀ l ∈ (⟨c.id,x.now,timeOut,c.delay,auto⟩ : Lease)::x.leases, P l := by
        intro P h₁ h₂ l hl
        rcases List.mem_cons.mp hl with rfl | hl
        · exact h₁
        · exact h₂ l hl
      have hnew : ∀ l ∈ x.leases, l.eventId ≠ c.id := by
        intro l hl he
        have := h.stamped l hl
        omega
      refine ⟨hpassed,hall _ hd h.inside,hall _ ⟨le_rfl,hauto⟩ h.since,hall _ hstamp.2 hstamped,
        ?_,?_,?_,?_⟩
      · refine hall _ (hall _ (fun _ => rfl) fun l hl he => absurd he.symm (hnew l hl)) ?_
        intro l hl
        exact hall _ (fun he => absurd he (hnew l hl)) (h.unique l hl)
      · intro e he event hjob
        rcases hstep.events e he event hjob with he | ⟨c',hc,-,hid,htime⟩
        · rcases h.pending e he event hjob with ⟨l,hl,hl'⟩
          exact ⟨l,.tail _ hl,hl'⟩
        · cases hc
          exact ⟨_,.head _,hid.symm,htime⟩
      · intro c' hc'
        exact (hcalls' c' hc').mono (fun l hl => .tail _ hl) le_rfl
      · intro r hr
        rcases h.renewals r hr with ⟨l,hl,hl'⟩
        exact ⟨l,.tail _ hl,hl'⟩
    · rw [if_neg hrc]
      have hsame := hold fun e he event hjob => by
        rcases hstep.events e he event hjob with he | ⟨c',hc,h0,-⟩
        · exact he
        · cases hc
          exact absurd h0 hrc
      exact { hsame with delays := hpassed }

theorem Inv.quiet {x : System} (h : Inv x) {s : State} {calls : List Call}
    (hstep : TimerStep x.now none x.sdk s)
    (hcalls : ∀ c ∈ calls, c ∈ x.calls ∨ CallOk x.leases x.now c) :
    Inv { x with sdk := s, calls := calls } := by
  have hr : Inv (({ x with sdk := s, calls := calls } : System).record 0 none none) :=
    h.region hstep (by rintro c ⟨⟩) (by rintro t ⟨⟩) hcalls
  exact hr

theorem Inv.begin {x : System} (h : Inv x) {s : State} {call : Call}
    (hstep : TimerStep x.now none x.sdk s) (hcall : CallOk x.leases x.now call) :
    Inv (x.begin s call) := by
  refine h.quiet hstep fun c hc => ?_
  rcases List.mem_cons.mp hc with rfl | hc
  · exact .inr hcall
  · exact .inl hc

theorem Inv.finish {x : System} (h : Inv x) {s : State} (hstep : TimerStep x.now none x.sdk s)
    (i : ℕ) : Inv (x.finish s i) :=
  h.quiet hstep fun _ hc => .inl (List.mem_of_mem_eraseIdx hc)

/-- A lease that is granted is renewed inside it. -/
theorem LongLease.delay {sys : Setup} {url : List UInt8} {timeout : ℤ} {sid : Option (List UInt8)}
    {reply : Reply} {answer : GenaAnswer} (h : LongLease reply)
    (hex : exchangeSubscribe sys url timeout sid reply = .ok answer)
    (hret : answer.ret = upnpESuccess) (hne : answer.timeout ≠ upnpInfinite) :
    0 < renewDelay answer.timeout ∧ renewDelay answer.timeout < answer.timeout := by
  rcases exchangeSubscribe_granted hex hret with ⟨v,hv,hg⟩
  exact (renewDelay_iff (grantedTimeout_isInt hg)).mpr
    ((h v hv answer.timeout hg).resolve_left hne)

theorem Inv.subscribed {sys : Setup} {x y : System} {i : ℕ} {env : SubscribeEnv} {call : Call}
    (h : Inv x) (hlong : LongLease env.reply) (hs : stepSubscribed sys x i env call = some y) :
    Inv y := by
  cases call with
  | subscribing hnd publisherUrl timeOut =>
    rcases Option.map_eq_some_iff.mp hs with ⟨r,hr,rfl⟩
    rcases Rounds.of_bind_ok (toOption_some hr) with ⟨answer,hex,hfin⟩
    rcases TimerStep.finishSubscribe hfin with ⟨hstep,htime,hcall⟩
    refine h.region hstep ?_ (by rintro t ⟨⟩) fun _ hc => .inl (List.mem_of_mem_eraseIdx hc)
    intro c hc
    rcases hcall c hc with ⟨hret,hne,hdelay⟩
    rw [hdelay,htime]
    exact hlong.delay hex hret hne
  | _ => cases hs

theorem Inv.renewed {sys : Setup} {x y : System} {i : ℕ} {reply : Reply} {env : RenewEnv}
    {call : Call} (h : Inv x) (hcall : CallOk x.leases x.now call) (hlong : LongLease reply)
    (hs : stepRenewed sys x i reply env call = some y) : Inv y := by
  cases call with
  | renewing hnd inSid timeOut copy auto =>
    rcases Rounds.of_bind_ok (toOption_some hs) with ⟨answer,hex,hfin⟩
    cases hr : finishRenew x.sdk hnd inSid answer { env with now := x.now } with
    | error f =>
      rw [hr] at hfin
      cases hfin
    | ok r =>
      rw [hr] at hfin
      cases hfin
      rcases TimerStep.finishRenew hr with ⟨hstep,hcalled⟩
      refine h.region hstep ?_ hcall fun _ hc => .inl (List.mem_of_mem_eraseIdx hc)
      intro c hc
      rcases hcalled c hc with ⟨hret,hne,hdelay⟩
      rw [hdelay]
      exact hlong.delay hex hret hne
  | _ => cases hs

theorem Inv.renew {x y : System} {hnd timeOut : ℤ} {inSid : List UInt8} {auto : Option ℤ}
    (h : Inv x) (hauto : ∀ t ∈ auto, t ≤ x.now)
    (hs : stepRenew x hnd inSid timeOut auto = some y) : Inv y := by
  rcases Option.map_eq_some_iff.mp hs with ⟨r,hr,rfl⟩
  have hstep := TimerStep.beginRenew x.now (toOption_some hr)
  split
  · exact h.begin hstep hauto
  · exact h.quiet hstep fun _ hc => .inl hc

theorem Inv.autoRenew {x y : System} {i : ℕ} {call : Call} (h : Inv x)
    (hcall : CallOk x.leases x.now call) (hs : stepAutoRenew x i call = some y) : Inv y := by
  cases call with
  | fired id event =>
    refine Inv.renew (x := { x with
      calls := x.calls.eraseIdx i
      renewals := (id,x.now)::x.renewals }) ?_ ?_ hs
    · refine ⟨h.delays,h.inside,h.since,h.stamped,h.unique,h.pending,
        fun c hc => h.calls c (List.mem_of_mem_eraseIdx hc),?_⟩
      intro r hr
      rcases List.mem_cons.mp hr with rfl | hr
      · exact hcall
      · exact h.renewals r hr
    · rintro t ⟨⟩
      exact le_rfl
  | _ => cases hs

theorem TimerStep.unregisterRound (now : ℤ) {s : State} {hnd : ℤ} {r : UnregisterRound × State}
    (h : unregisterRound s hnd = .ok r) : TimerStep now none s r.2 := by
  unfold Subscriptions.unregisterRound at h
  split at h
  · cases h
    exact TimerStep.refl now s
  · split at h
    · cases h
      exact TimerStep.refl now s
    · rcases Rounds.of_bind_ok h with ⟨sub,-,h⟩
      rcases Rounds.of_bind_ok h with ⟨s',hs',h⟩
      cases h
      exact TimerStep.removeSubscription now hs'

theorem Inv.unregister {x y : System} {hnd : ℤ} (h : Inv x) (hs : stepUnregister x hnd = some y) :
    Inv y := by
  rcases Option.map_eq_some_iff.mp hs with ⟨r,hr,rfl⟩
  have hstep := TimerStep.unregisterRound x.now (toOption_some hr)
  split
  · exact h.begin hstep trivial
  · split
    · exact h.begin hstep trivial
    · exact h.quiet hstep fun _ hc => .inl hc

theorem Inv.proceed {x y : System} {i : ℕ} {call : Call} (h : Inv x)
    (hs : stepCall x i call = some y) : Inv y := by
  cases call with
  | unsubscribing hnd inSid =>
    rcases Option.map_eq_some_iff.mp hs with ⟨s,hr,rfl⟩
    have hr := toOption_some hr
    unfold finishUnSubscribe at hr
    split at hr
    · cases hr
      exact h.finish (TimerStep.refl _ _) i
    · exact h.finish (TimerStep.removeSubscription _ hr) i
  | unregistering hnd =>
    exact Inv.unregister (h.quiet (TimerStep.refl _ _) fun _ hc =>
      .inl (List.mem_of_mem_eraseIdx hc)) hs
  | unregistered hnd =>
    simp only [stepCall] at hs
    split at hs
    · cases hs
      have hf := h.finish (s := Subscriptions.freeHandle x.sdk hnd)
        ⟨fun _ he _ _ => .inl he,le_rfl,by rintro c ⟨⟩⟩ i
      exact { hf with }
    · cases hs
      exact h.finish (TimerStep.refl _ _) i
  | _ => cases hs

theorem Inv.expire {x y : System} {accepted : Bool} (h : Inv x)
    (hs : stepExpire x accepted = some y) : Inv y := by
  rcases Option.map_eq_some_iff.mp hs with ⟨⟨e,s⟩,hr,rfl⟩
  rcases dispatch_some hr with ⟨hq,htime,hcount,-⟩
  have he : e ∈ x.sdk.gTimerThread.eventQ := by
    rw [hq]
    exact .head _
  have hsub : ∀ e' ∈ s.gTimerThread.eventQ, e' ∈ x.sdk.gTimerThread.eventQ := by
    intro e' he'
    rw [hq]
    exact .tail _ he'
  have hstep : TimerStep x.now none x.sdk s :=
    ⟨fun e' he' _ _ => .inl (hsub e' he'),hcount.ge,by rintro c ⟨⟩⟩
  dsimp only
  split
  · rename_i event hjob
    split
    · refine h.begin hstep ?_
      rcases h.pending e he event hjob with ⟨l,hl,hid,hdue⟩
      exact ⟨l,hl,hid,by omega⟩
    · exact h.quiet hstep fun _ hc => .inl hc
  · exact h.quiet hstep fun _ hc => .inl hc

theorem Inv.step {sys : Setup} {x y : System} {e : Event} (h : Inv x) (hlong : LongLeases x e)
    (hs : step sys x e = some y) : Inv y := by
  cases e with
  | tick now =>
    simp only [Subscriptions.step] at hs
    split at hs
    · rename_i hle
      cases hs
      refine ⟨h.delays,h.inside,fun l hl => ?_,h.stamped,h.unique,h.pending,fun c hc => ?_,
        h.renewals⟩
      · exact ⟨le_trans (h.since l hl).1 hle,(h.since l hl).2⟩
      · exact (h.calls c hc).mono (fun _ hl => hl) hle
    · cases hs
  | register callback cookie =>
    cases hs
    unfold stepRegister
    split
    · exact h
    · split
      · exact h
      · exact { h with }
  | subscribe hnd publisherUrl timeOut =>
    simp only [Subscriptions.step] at hs
    split at hs
    · cases hs
      exact h
    · cases hs
      exact h.begin (TimerStep.refl _ _) trivial
  | subscribed i env =>
    rcases Option.bind_eq_some_iff.mp hs with ⟨call,-,hs⟩
    exact h.subscribed hlong hs
  | renew hnd inSid timeOut => exact Inv.renew h (by rintro t ⟨⟩) hs
  | renewed i reply env =>
    rcases Option.bind_eq_some_iff.mp hs with ⟨call,hc,hs⟩
    exact h.renewed (h.calls call (List.mem_of_getElem? hc)) hlong hs
  | unSubscribe hnd inSid =>
    rcases Option.map_eq_some_iff.mp hs with ⟨r,-,rfl⟩
    split
    · exact h.begin (TimerStep.refl _ _) trivial
    · exact h
  | unregister hnd =>
    simp only [Subscriptions.step] at hs
    split at hs
    · exact h.unregister hs
    · cases hs
      exact h
  | proceed i =>
    rcases Option.bind_eq_some_iff.mp hs with ⟨call,-,hs⟩
    exact h.proceed hs
  | expire accepted => exact h.expire hs
  | autoRenew i =>
    rcases Option.bind_eq_some_iff.mp hs with ⟨call,hc,hs⟩
    exact h.autoRenew (h.calls call (List.mem_of_getElem? hc)) hs
  | search id timeTillRead alloc =>
    cases hs
    rcases timerThreadSchedule_spec x.sdk.gTimerThread x.now timeTillRead .relSec
      (.searchExpired id) .shortTerm alloc with ⟨hevents,hcount,-⟩
    refine h.quiet ⟨fun e he event hjob => .inl ?_,hcount,by rintro c ⟨⟩⟩ fun _ hc => .inl hc
    refine (hevents e he).resolve_right fun hnew => ?_
    rw [hnew.2] at hjob
    cases hjob

/-- With long leases every renewal is in time, in every run. -/
theorem renewals_inTime {sys : Setup} {x : System} (h : Runs (step sys) LongLeases System.init x) :
    RenewedInTime x :=
  (h.invariant Inv.init fun _ _ _ hi hok hs => hi.step hok hs).inTime

def leaseRun (timeout : List UInt8) (due : ℤ) : List Event :=
  [.register 1 0,.subscribe 1 (cstr "http://1.2.3.4/e") 0,
    .subscribed 0 ⟨true,leaseReply (cstr "uuid:p") timeout,cstr "c",RenewEnv.calm⟩,.tick due,
    .expire true,.autoRenew 0,.renewed 0 (leaseReply (cstr "uuid:p") timeout) RenewEnv.calm]

theorem renewals_inTime_thirty :
    ∃ x, Runs (step someSetup) LongLeases System.init x ∧
      x.leases = [⟨1,20,30,20,some 20⟩,⟨0,0,30,20,none⟩] ∧ x.renewals = [(0,20)] ∧
      RenewedInTime x := by
  have h : (run (step someSetup) LongLeases System.init (leaseRun (cstr "Second-30") 20)).map
      (fun x => (x.leases,x.renewals)) =
        some ([⟨1,20,30,20,some 20⟩,⟨0,0,30,20,none⟩],[(0,20)]) := by decide +kernel
  rcases Option.map_eq_some_iff.mp h with ⟨x,hx,he⟩
  rw [Prod.mk.injEq] at he
  exact ⟨x,Runs.of_run _ hx,he.1,he.2,renewals_inTime (Runs.of_run _ hx)⟩

/-- A publisher that grants five seconds is asked again at once. -/
theorem shortLease_renewed_at_once :
    ∃ x, Runs (step someSetup) free System.init x ∧ x.passed = [(5,-5),(5,-5)] ∧
      x.renewals = [(0,0)] ∧ ¬RenewedInTime x := by
  have h : (run (step someSetup) free System.init (leaseRun (cstr "Second-5") 0)).map
      (fun x => (x.passed,x.renewals)) = some ([(5,-5),(5,-5)],[(0,0)]) := by decide +kernel
  rcases Option.map_eq_some_iff.mp h with ⟨x,hx,he⟩
  rw [Prod.mk.injEq] at he
  refine ⟨x,Runs.of_run _ hx,he.1,he.2,fun ht => ?_⟩
  have hp := (ht.delays (5,-5) (by rw [he.1]; exact .head _)).1
  revert hp
  decide

end Subscriptions
end CtrlPt
