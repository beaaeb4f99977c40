import CtrlPt.Gena.Linked

/-! Leases, and what each region keeps of the subscriptions and their renewals, whatever calls are
on their way. -/
namespace CtrlPt
namespace Subscriptions

open CText Http Memory Sdk Thread Transition

/-- The answer of the publisher to a call that is in its exchange. -/
def answerTo (sys : Setup) (reply : Reply) : Call → Option GenaAnswer
  | .subscribing _ publisherUrl timeOut =>
    (exchangeSubscribe sys publisherUrl timeOut none reply).toOption
  | .renewing _ _ timeOut copy _ =>
    (exchangeSubscribe sys copy.eventUrl timeOut (some copy.actualSid) reply).toOption
  | _ => none

/-- The address of the subscription that a lease is granted to. -/
def lessee (s : State) : Call → Option ℕ
  | .subscribing _ _ _ => some s.subs.length
  | .renewing hnd inSid _ _ _ => (getHandleInfo s.handleTable hnd).bind fun info =>
    (getClientSubClientSid s.subs inSid info.clientSubList).toOption.join
  | _ => none

def lease (granted : ℕ → ℤ) (answer : GenaAnswer) (a : Option ℕ) : ℕ → ℤ :=
  if answer.ret = upnpESuccess then
    a.elim granted fun a => Function.update granted a answer.timeout
  else granted

/-- A subscription that is put in the list has a SID of its own, and its renewal is scheduled. -/
def LinksWell (s : State) (answer : GenaAnswer) (env : SubscribeEnv) : Call → Prop
  | .subscribing hnd _ _ => ∀ info ∈ getHandleInfo s.handleTable hnd,
    (cstr "uuid:"++env.tempSid).length < upnpSidSize → RenewalScheduled answer.timeout env.renew ∧
      ∀ a ∈ info.clientSubList, ∀ sub ∈ s.subs.getD a none, sub.sid ≠ cstr "uuid:"++env.tempSid
  | _ => True

/-- A renewal that is scheduled finds no event of its subscription. -/
def RenewsWell (s : State) (answer : GenaAnswer) (env : RenewEnv) : Call → Prop
  | .renewing hnd inSid _ _ _ => answer.timeout ≠ upnpInfinite →
    RenewalScheduled answer.timeout env → ∀ info ∈ getHandleInfo s.handleTable hnd,
      ∀ a ∈ info.clientSubList, ∀ sub ∈ s.subs.getD a none, sub.sid = inSid →
        ∀ e ∈ s.gTimerThread.eventQ, e.id ≠ sub.renewEventId
  | _ => True

/-- The handle that is freed has no renewal pending. -/
def FreesWell (s : State) : Call → Prop
  | .unregistered hnd => (getHandleInfo s.handleTable hnd).isSome = true →
    ∀ e ∈ s.gTimerThread.eventQ, ∀ event ∈ renewal e.job, event.handle ≠ hnd
  | _ => True

instance (s : State) (answer : GenaAnswer) (env : SubscribeEnv) :
    DecidablePred (LinksWell s answer env)
  | .subscribing _ _ _ => inferInstanceAs (Decidable (∀ info ∈ getHandleInfo _ _, _))
  | .renewing _ _ _ _ _ | .fired _ _ | .unsubscribing _ _ | .unregistering _ | .unregistered _ =>
    isTrue trivial

instance (s : State) (answer : GenaAnswer) (env : RenewEnv) :
    DecidablePred (RenewsWell s answer env)
  | .renewing _ _ _ _ _ => inferInstanceAs (Decidable (_ → _ → ∀ info ∈ getHandleInfo _ _, _))
  | .subscribing _ _ _ | .fired _ _ | .unsubscribing _ _ | .unregistering _ | .unregistered _ =>
    isTrue trivial

instance (s : State) : DecidablePred (FreesWell s)
  | .unregistered _ => inferInstanceAs (Decidable (_ → ∀ e ∈ s.gTimerThread.eventQ, _))
  | .subscribing _ _ _ | .fired _ _ | .unsubscribing _ _ | .unregistering _
  | .renewing _ _ _ _ _ => isTrue trivial

/-- The only client has the handle 1. -/
structure Tied (s : State) (registered : Bool) (granted : ℕ → ℤ) (covered : List UInt8 → Prop) :
    Prop where
  size : s.handleTable.length = numHandle.toNat
  single : ∀ hnd info, getHandleInfo s.handleTable hnd = some info → hnd = 1 ∧ registered = true
  linked : Linked ((clientSubs s 1).getD []) s.subs s.gTimerThread granted covered

section

variable {s s' : State} {registered : Bool} {granted granted' : ℕ → ℤ}
  {covered covered' : List UInt8 → Prop} {hnd : ℤ} {inSid : List UInt8} {info info' : HandleInfo}

theorem clientSubs_some (h : getHandleInfo s.handleTable 1 = some info) :
    (clientSubs s 1).getD [] = info.clientSubList := by
  rw [clientSubs,h]
  rfl

theorem Tied.list (h : Tied s registered granted covered)
    (hinfo : getHandleInfo s.handleTable hnd = some info) :
    Linked info.clientSubList s.subs s.gTimerThread granted covered := by
  obtain rfl := (h.single hnd info hinfo).1
  rw [← clientSubs_some hinfo]
  exact h.linked

theorem Tied.set (h : Tied s registered granted covered)
    (hinfo : getHandleInfo s.handleTable hnd = some info)
    (htable : s'.handleTable = setHandleInfo s.handleTable hnd info')
    (hlinked : Linked info'.clientSubList s'.subs s'.gTimerThread granted' covered') :
    Tied s' registered granted' covered' := by
  obtain ⟨rfl,hreg⟩ := h.single hnd info hinfo
  have hset : getHandleInfo s'.handleTable 1 = some info' := by
    rw [htable]
    exact getHandleInfo_set hinfo info'
  refine ⟨?_,?_,?_⟩
  · rw [htable,setHandleInfo,List.length_set]
    exact h.size
  · intro hnd' info'' h'
    by_cases hne : (1 : ℤ) = hnd'
    · exact ⟨hne.symm,hreg⟩
    · rw [htable,getHandleInfo_set_ne info' hne le_rfl] at h'
      exact h.single hnd' info'' h'
  · rw [clientSubs_some hset]
    exact hlinked

theorem Tied.same (h : Tied s registered granted covered) (htable : s'.handleTable = s.handleTable)
    (hlinked : Linked ((clientSubs s 1).getD []) s.subs s.gTimerThread granted covered →
      Linked ((clientSubs s 1).getD []) s'.subs s'.gTimerThread granted' covered') :
    Tied s' registered granted' covered' := by
  refine ⟨htable ▸ h.size,htable ▸ h.single,?_⟩
  rw [clientSubs,htable]
  exact hlinked h.linked

theorem Tied.mono (h : Tied s registered granted covered)
    (hcov : ∀ sid, covered sid → covered' sid) : Tied s registered granted covered' :=
  h.same rfl fun hl => hl.mono (fun _ _ => .inl rfl) fun _ _ _ _ hc => .inr (hcov _ hc)

/-- Without a client there is no subscription that a call could stand for. -/
theorem Tied.unregistered (h : Tied s registered granted covered)
    (hinfo : getHandleInfo s.handleTable hnd = none)
    (hcov : ∀ sid, covered sid → covered' sid ∨ hnd = 1 ∧ sid = inSid) :
    Tied s registered granted covered' := by
  refine h.same rfl fun hl => hl.mono (fun _ _ => .inl rfl) fun a ha sub _ hc => .inr ?_
  rcases hcov _ hc with hc | ⟨rfl,-⟩
  · exact hc
  · rw [clientSubs,hinfo] at ha
    cases ha

theorem Tied.remove (h : Tied s registered granted covered)
    (hinfo : getHandleInfo s.handleTable hnd = some info)
    (hcov : ∀ sid, sid ≠ inSid → covered sid → covered' sid)
    (hr : removeSubscription s hnd info inSid = .ok s') :
    Tied s' registered granted covered' := by
  have hlinked := h.list hinfo
  rcases Rounds.of_bind_ok hr with ⟨r,hremoved,he⟩
  cases he
  have hcount := (TimerStep.removeClientSub 0 hremoved).count
  rcases removeClientSubClientSid_ok hremoved with ⟨rfl,hnone⟩ | ⟨pre,a,post,sub,hlist,hs,hsid,rfl⟩
  · exact h.set hinfo rfl (hlinked.mono (fun _ _ => .inl rfl) fun a ha sub hs hc =>
      .inr (hcov _ (hnone a ha sub hs) hc))
  · rcases freeSubscription_spec s a sub with ⟨htable,hsubs,hq⟩
    rw [hlist] at hlinked
    have htable' := congrArg (fun t => setHandleInfo t hnd { info with clientSubList := pre++post })
      htable
    refine h.set hinfo htable' ?_
    have hdrop := hlinked.drop s.valid hs hcount (fun e he => (hq e).mp he)
      (fun e he hne => (hq e).mpr ⟨he,hne⟩) fun sid hne hc => hcov sid (hsid ▸ hne) hc
    rw [← hsubs] at hdrop
    exact hdrop

/-- A renewal takes the event of its subscription, and stands for it then. -/
theorem Tied.beginRenew {r : Except ℤ ClientSubscription × State}
    (h : Tied s registered granted covered)
    (hcov : ∀ sid, covered sid → covered' sid ∨ hnd = 1 ∧ sid = inSid)
    (hr : beginRenew s hnd inSid = .ok r)
    (hbegun : ∀ copy, r.1 = .ok copy → hnd = 1 → covered' inSid) :
    Tied r.2 registered granted covered' := by
  unfold Subscriptions.beginRenew at hr
  split at hr
  · rename_i hinfo
    cases hr
    exact h.unregistered hinfo hcov
  rename_i info hinfo
  obtain rfl := (h.single hnd info hinfo).1
  rcases Rounds.of_bind_ok hr with ⟨o,ho,hr⟩
  cases o with
  | none =>
    cases hr
    have hnone := getClientSubClientSid_none ho
    rw [← clientSubs_some hinfo] at hnone
    refine h.same rfl fun hl => hl.mono (fun _ _ => .inl rfl) fun a ha sub hs hc => .inr ?_
    exact (hcov _ hc).resolve_right fun he => hnone a ha sub hs he.2
  | some a =>
    rcases Rounds.of_bind_ok hr with ⟨sub,hsub,hr⟩
    cases hr
    rcases getClientSubClientSid_some ho with ⟨ha,sub',hs,hsid⟩
    cases (readSub_ok hsub).symm.trans hs
    rw [← clientSubs_some hinfo] at ha
    refine h.same rfl fun hl => ?_
    have hcounted := s.valid.counted
    have hcount := (TimerStep.removeEvent 0 s sub.renewEventId).count
    refine hl.update s.valid ha hs rfl hcount (by dsimp only [copySubscription]; omega)
      (.inr (.inl rfl)) ?_ (fun e he hne => mem_removeEvent.mpr ⟨he,hne⟩) ?_ (fun _ _ => rfl) ?_
    · intro e he event _
      rcases mem_removeEvent.mp he with ⟨he,hne⟩
      exact .inl ⟨he,fun hid => absurd hid hne⟩
    · rw [hsid]
      exact .inr (.inl (hbegun _ rfl rfl))
    · intro sid hne hc
      exact (hcov sid hc).resolve_right fun he => hne (he.2.trans hsid.symm)

theorem lease_fail {answer : GenaAnswer} (h : answer.ret ≠ upnpESuccess) (a : Option ℕ) :
    lease granted answer a = granted := if_neg h

theorem lease_some {answer : GenaAnswer} (h : answer.ret = upnpESuccess) (a : ℕ) :
    lease granted answer (some a) = Function.update granted a answer.timeout := if_pos h

/-- A subscription whose lease was granted gets its event, or leaves the list. -/
theorem Tied.schedule {a : ℕ} {sub : ClientSubscription} {timeOut : ℤ} {env : RenewEnv}
    {r : RenewResult} (h : Tied s registered granted covered)
    (hinfo : getHandleInfo s.handleTable 1 = some info) (ha : a ∈ info.clientSubList)
    (hs : s.subs.getD a none = some sub) (hgrant : granted a = timeOut)
    (hfree : timeOut ≠ upnpInfinite → RenewalScheduled timeOut env →
      ∀ e ∈ s.gTimerThread.eventQ, e.id ≠ sub.renewEventId)
    (hcov : ∀ sid, sid ≠ sub.sid → covered sid → covered' sid)
    (hr : (do
      let scheduled ← scheduleGenaAutoRenew s 1 timeOut a env
      if scheduled.ret ≠ upnpESuccess then do
        let s ← removeSubscription scheduled.state 1 info sub.sid
        .ok { scheduled with state := s }
      else .ok scheduled) = .ok r) :
    Tied r.state registered granted covered' := by
  rcases Rounds.of_bind_ok hr with ⟨scheduled,hsched,hr⟩
  by_cases hok : RenewalScheduled timeOut env
  · rcases (h.list hinfo).scheduled ha hs hgrant hok (fun hne => hfree hne hok) hcov hsched with
      ⟨hsuccess,htable,hl⟩
    rw [if_neg (not_not.mpr hsuccess)] at hr
    cases hr
    refine h.same htable fun _ => ?_
    rw [clientSubs_some hinfo]
    exact hl
  · rcases scheduleGenaAutoRenew_spec 1 timeOut env hs with ⟨rc,call,s₁,he,htable,-,-,hfail⟩
    rcases hfail hok with ⟨hrc,hsubs,hq⟩
    have hcount := (TimerStep.schedule hsched).1.count
    cases he.symm.trans hsched
    rw [if_pos hrc] at hr
    rcases Rounds.of_bind_ok hr with ⟨s₂,hs₂,hr⟩
    cases hr
    have h₁ : Tied s₁ registered granted covered := by
      refine h.same htable fun hl => ?_
      rw [hsubs]
      exact hl.events hcount (fun e he _ _ => hq ▸ he) (fun e he _ _ => .inl (hq ▸ he))
        fun _ _ _ _ hc => hc
    have hinfo₁ : getHandleInfo s₁.handleTable 1 = some info := by
      rw [htable]
      exact hinfo
    exact h₁.remove hinfo₁ hcov hs₂

/-- A renewal is over: its subscription has an event, needs none or is gone. -/
theorem Tied.finishRenew {answer : GenaAnswer} {env : RenewEnv} {r : RenewResult}
    {timeOut : ℤ} {copy : ClientSubscription} {auto : Option ℤ}
    (h : Tied s registered granted covered)
    (hcov : ∀ sid, covered sid → covered' sid ∨ hnd = 1 ∧ sid = inSid)
    (hwell : answer.ret = upnpESuccess →
      RenewsWell s answer env (.renewing hnd inSid timeOut copy auto))
    (hr : finishRenew s hnd inSid answer env = .ok r) :
    Tied r.state registered
      (lease granted answer (lessee s (.renewing hnd inSid timeOut copy auto))) covered' := by
  unfold Subscriptions.finishRenew at hr
  split at hr
  · rename_i hinfo
    cases hr
    have hlease : lease granted answer (lessee s (.renewing hnd inSid timeOut copy auto)) =
        granted := by
      rw [lessee,hinfo]
      exact ite_self _
    rw [hlease]
    exact h.unregistered hinfo hcov
  rename_i info hinfo
  obtain rfl := (h.single hnd info hinfo).1
  have hother : ∀ sid, sid ≠ inSid → covered sid → covered' sid := fun sid hne hc =>
    (hcov sid hc).resolve_right fun he => hne he.2
  by_cases hret : answer.ret ≠ upnpESuccess
  · rw [if_pos hret] at hr
    rcases Rounds.of_bind_ok hr with ⟨s',hs',hr⟩
    cases hr
    rw [lease_fail hret]
    exact h.remove hinfo hother hs'
  rw [if_neg hret] at hr
  rw [not_not] at hret
  rcases Rounds.of_bind_ok hr with ⟨o,ho,hr⟩
  have hlessee : lessee s (.renewing 1 inSid timeOut copy auto) = o := by
    rw [lessee,hinfo,Option.bind_some,ho]
    rfl
  rw [hlessee]
  cases o with
  | none =>
    cases hr
    have hnone := getClientSubClientSid_none ho
    rw [← clientSubs_some hinfo] at hnone
    have hlease : lease granted answer none = granted := ite_self _
    rw [hlease]
    exact h.same rfl fun hl => hl.mono (fun _ _ => .inl rfl) fun a ha sub hs hc =>
      .inr (hother _ (hnone a ha sub hs) hc)
  | some a =>
    rcases Rounds.of_bind_ok hr with ⟨sub,hsub,hr⟩
    rcases getClientSubClientSid_some ho with ⟨ha,sub',hs,hsid⟩
    cases (readSub_ok hsub).symm.trans hs
    rw [lease_some hret]
    have hgranted : Tied { s with
        subs := s.subs.set a (some { sub with actualSid := answer.sid }) } registered
        (Function.update granted a answer.timeout) (fun sid => covered' sid ∨ sid = inSid) := by
      rw [← clientSubs_some hinfo] at ha
      exact h.same rfl fun hl => hl.grant s.valid ha hs answer.sid answer.timeout
        (fun sid hne hc => .inl (hother sid (hsid ▸ hne) hc)) (.inr hsid)
    have hs' := (subAt_set (b := a) (o := some { sub with actualSid := answer.sid }) hs).mpr
      (.inl ⟨rfl,rfl⟩)
    exact hgranted.schedule hinfo ha hs' (Function.update_self _ _ _)
      (fun hne hok => hwell hret hne hok info hinfo a ha sub hs hsid)
      (fun sid hne hc => hc.resolve_right fun he => hne (he.trans hsid.symm)) hr

theorem Tied.finishSubscribe {publisherUrl : List UInt8} {timeOut : ℤ} {answer : GenaAnswer}
    {env : SubscribeEnv} {r : SubscribeResult} (h : Tied s registered granted covered)
    (hwell : answer.ret = upnpESuccess →
      LinksWell s answer env (.subscribing hnd publisherUrl timeOut))
    (hr : finishSubscribe s hnd publisherUrl answer env = .ok r) :
    Tied r.state registered (lease granted answer (some s.subs.length)) covered := by
  unfold Subscriptions.finishSubscribe at hr
  by_cases hret : answer.ret ≠ upnpESuccess
  · rw [if_pos hret] at hr
    cases hr
    rw [lease_fail hret]
    exact h
  rw [if_neg hret] at hr
  rw [not_not] at hret
  rw [lease_some hret]
  -- the new address is in no list
  have hgrant : ∀ {list : List ℕ} {subs : List (Option ClientSubscription)}
      {timer : TimerThread TimerJob}, Linked list subs timer granted covered → ∀ a ∈ list,
        Function.update granted subs.length answer.timeout a = granted a := fun hl a ha =>
    Function.update_of_ne (hl.allocated a ha).ne _ _
  have hunlinked : Tied s registered (Function.update granted s.subs.length answer.timeout)
      covered := h.same rfl fun hl =>
    hl.mono (fun a ha => .inl (hgrant hl a ha)) fun _ _ _ _ hc => .inr hc
  split at hr
  · cases hr
    exact hunlinked
  rename_i info hinfo
  obtain rfl := (h.single hnd info hinfo).1
  dsimp only at hr
  split at hr
  · cases hr
    exact hunlinked
  rename_i hlen
  rw [not_le] at hlen
  rcases hwell hret info hinfo hlen with ⟨hok,hown⟩
  rcases Rounds.of_bind_ok hr with ⟨scheduled,hsched,hr⟩
  have hl := h.list hinfo
  obtain ⟨new,hnew⟩ : ∃ new : ClientSubscription,
      new = ⟨-1,cstr "uuid:"++env.tempSid,answer.sid,publisherUrl⟩ := ⟨_,rfl⟩
  have hsid : new.sid = cstr "uuid:"++env.tempSid := by rw [hnew]
  rw [← hnew] at hsched
  rw [← hsid] at hlen hown
  have hl₁ : Linked (s.subs.length::info.clientSubList) (s.subs++[some new]) s.gTimerThread
      (Function.update granted s.subs.length answer.timeout)
      (fun sid => covered sid ∨ sid = new.sid) :=
    hl.link s.valid hlen (by rw [hnew]) hown (hgrant hl) (fun _ hc => .inl hc) (.inr rfl)
  have hnone : answer.timeout ≠ upnpInfinite →
      ∀ e ∈ s.gTimerThread.eventQ, e.id ≠ new.renewEventId := by
    intro _ e he
    have hle := (s.valid.stamped e he).1
    rw [hnew]
    dsimp only
    omega
  rcases Linked.scheduled (s := linkSubscription s 1 info new) hl₁ (.head _)
    (readSub_link s 1 info new) (Function.update_self _ _ _) hok hnone
    (fun sid hne hc => hc.resolve_right hne) hsched with ⟨hsuccess,htable,hl₂⟩
  rw [if_neg (not_not.mpr hsuccess)] at hr
  cases hr
  exact h.set hinfo htable hl₂

end

theorem Tied.unregisterRound {s : State} {registered : Bool} {granted : ℕ → ℤ}
    {covered : List UInt8 → Prop} {hnd : ℤ} {r : UnregisterRound × State}
    (h : Tied s registered granted covered) (hr : unregisterRound s hnd = .ok r) :
    Tied r.2 registered granted covered := by
  unfold Subscriptions.unregisterRound at hr
  split at hr
  · cases hr
    exact h
  rename_i info hinfo
  split at hr
  · cases hr
    exact h
  · rcases Rounds.of_bind_ok hr with ⟨sub,-,hr⟩
    rcases Rounds.of_bind_ok hr with ⟨s',hs',hr⟩
    cases hr
    exact h.remove hinfo (fun _ _ hc => hc) hs'

theorem Tied.free {s : State} {registered : Bool} {granted : ℕ → ℤ}
    {covered : List UInt8 → Prop} {hnd : ℤ} {info : HandleInfo}
    (h : Tied s registered granted covered) (hinfo : getHandleInfo s.handleTable hnd = some info)
    (hfree : ∀ e ∈ s.gTimerThread.eventQ, ∀ event ∈ renewal e.job, event.handle ≠ hnd) :
    Tied (freeHandle s hnd) false granted covered := by
  obtain rfl := (h.single hnd info hinfo).1
  rcases getHandleInfo_some hinfo with ⟨hle,hlt,hentry⟩
  have hnone : ∀ hnd', getHandleInfo (freeHandle s 1).handleTable hnd' = none := by
    intro hnd'
    by_cases hne : (1 : ℤ) = hnd'
    · rw [← hne]
      exact getHandleInfo_entry hle hlt (List.getElem?_eq_some_iff.mp hentry).1 none
    · rw [freeHandle,getHandleInfo_entry_ne hne le_rfl]
      cases hget : getHandleInfo s.handleTable hnd' with
      | none => rfl
      | some info' => exact absurd (h.single hnd' info' hget).1.symm hne
  refine ⟨?_,?_,?_⟩
  · rw [freeHandle,List.length_set]
    exact h.size
  · intro hnd' info' hget
    rw [hnone] at hget
    cases hget
  · rw [clientSubs,hnone]
    refine Linked.empty _ _ _ fun e he event hjob => ?_
    exact hfree e he event hjob (h.linked.pending e he event hjob).1

theorem Tied.register {s : State} {granted : ℕ → ℤ} {covered : List UInt8 → Prop} {hnd : ℤ}
    {callback cookie : ℕ} (h : Tied s false granted covered)
    (hhnd : getFreeHandle s.handleTable = some hnd) :
    Tied { s with handleTable := setHandleInfo s.handleTable hnd ⟨callback,cookie,[],[]⟩ } true
      granted covered := by
  have hnone : ∀ hnd', getHandleInfo s.handleTable hnd' = none := by
    intro hnd'
    cases hget : getHandleInfo s.handleTable hnd' with
    | none => rfl
    | some info =>
      have hreg := (h.single hnd' info hget).2
      cases hreg
  have hone : hnd = 1 := by
    have hrange : (do let i ← List.range numHandle.toNat; pure (i : ℤ)) =
        0::1::(List.range' 2 198).map fun i => (i : ℤ) := by decide +kernel
    rw [getFreeHandle,hrange,List.find?_cons_of_neg (by simp),
      List.find?_cons_of_pos (by rw [hnone]; rfl)] at hhnd
    exact (Option.some.inj hhnd).symm
  subst hone
  have hlt : (1 : ℤ).toNat < s.handleTable.length := by
    rw [h.size]
    decide
  have hset : getHandleInfo (setHandleInfo s.handleTable 1 ⟨callback,cookie,[],[]⟩) 1 =
      some ⟨callback,cookie,[],[]⟩ := getHandleInfo_entry le_rfl (by decide) hlt _
  have hlist : clientSubs s 1 = none := by
    rw [clientSubs,hnone]
    rfl
  have hlinked := h.linked
  rw [hlist] at hlinked
  refine ⟨?_,?_,?_⟩
  · rw [setHandleInfo,List.length_set]
    exact h.size
  · intro hnd' info hget
    by_cases hne : (1 : ℤ) = hnd'
    · exact ⟨hne.symm,rfl⟩
    · rw [getHandleInfo_set_ne _ hne le_rfl,hnone] at hget
      cases hget
  · rw [clientSubs,hset]
    exact hlinked

end Subscriptions
end CtrlPt
