import CtrlPt.Gena.Leases

/-! A subscription whose lease ends has one renewal pending, and a pending renewal is one of a
subscription. The leases that were granted are recorded beside the run. -/
namespace CtrlPt
namespace Subscriptions

open CText Http Memory Sdk Thread Transition

/-- Everything together, and the timeout that was granted last to the subscription at an
address. -/
structure Leased where
  sys : System
  granted : ℕ → ℤ

def Leased.init : Leased := ⟨System.init,fun _ => upnpInfinite⟩

def Leased.answered (sys : Setup) (x : Leased) (i : ℕ) (reply : Reply) : ℕ → ℤ :=
  (x.sys.calls[i]?).elim x.granted fun call => (answerTo sys reply call).elim x.granted fun answer =>
    lease x.granted answer (lessee x.sys.sdk call)

def leasedStep (sys : Setup) (x : Leased) (e : Event) : Option Leased :=
  (step sys x.sys e).map fun y => ⟨y,match e with
    | .subscribed i env => x.answered sys i env.reply
    | .renewed i reply _ => x.answered sys i reply
    | _ => x.granted⟩

/-- Whether the event renews the subscription. -/
def renews (hnd : ℤ) (sid : List UInt8) (e : TimerEvent TimerJob) : Bool :=
  (renewal e.job).any fun event => event.handle = hnd ∧ event.sid = sid

/-- A subscription with a finite timeout has exactly one renewal pending, the one with its
`RenewEventId`; and a renewal that is pending belongs to a subscription of a registered client. -/
structure Bijective (x : Leased) : Prop where
  scheduled : ∀ hnd info, getHandleInfo x.sys.sdk.handleTable hnd = some info →
    ∀ a ∈ info.clientSubList, ∃ sub, x.sys.sdk.subs.getD a none = some sub ∧
      (x.granted a ≠ upnpInfinite → ∃ e,
        x.sys.sdk.gTimerThread.eventQ.filter (renews hnd sub.sid) = [e] ∧ e.id = sub.renewEventId)
  owned : ∀ e ∈ x.sys.sdk.gTimerThread.eventQ, ∀ event, renewal e.job = some event →
    ∃ info, getHandleInfo x.sys.sdk.handleTable event.handle = some info ∧
      ∃ a ∈ info.clientSubList, ∃ sub, x.sys.sdk.subs.getD a none = some sub ∧
        sub.sid = event.sid ∧ sub.renewEventId = e.id

/-- The call is a renewal of the subscription. -/
def Call.Renews (hnd : ℤ) (sid : List UInt8) : Call → Prop
  | .renewing hnd' inSid _ _ _ => hnd' = hnd ∧ inSid = sid
  | .fired _ event => event.handle = hnd ∧ event.sid = sid
  | _ => False

instance (hnd : ℤ) (sid : List UInt8) : DecidablePred (Call.Renews hnd sid)
  | .renewing _ _ _ _ _ => inferInstanceAs (Decidable (_ ∧ _))
  | .fired _ _ => inferInstanceAs (Decidable (_ ∧ _))
  | .subscribing _ _ _ | .unsubscribing _ _ | .unregistering _ | .unregistered _ =>
    isFalse not_false

def Renewing (calls : List Call) (hnd : ℤ) (sid : List UInt8) : Prop :=
  ∃ c ∈ calls, c.Renews hnd sid

instance (calls : List Call) (hnd : ℤ) (sid : List UInt8) : Decidable (Renewing calls hnd sid) :=
  inferInstanceAs (Decidable (∃ c ∈ _, _))

/-- The renewal may be lost: another one is on its way, or the lease does not end. -/
def Spared (x : Leased) (event : UpnpTimeout) : Prop :=
  Renewing x.sys.calls event.handle event.sid ∨
    ∀ info ∈ getHandleInfo x.sys.sdk.handleTable event.handle, ∀ a ∈ info.clientSubList,
      ∀ sub ∈ x.sys.sdk.subs.getD a none, sub.sid = event.sid → x.granted a = upnpInfinite

/-- No two renewals of a subscription overlap, and none is lost. -/
def Orderly (sys : Setup) (x : Leased) : Event → Prop
  | .subscribed i env => ∀ call ∈ x.sys.calls[i]?, ∀ answer ∈ answerTo sys env.reply call,
    answer.ret = upnpESuccess → LinksWell x.sys.sdk answer env call
  | .renewed i reply env => ∀ call ∈ x.sys.calls[i]?, ∀ answer ∈ answerTo sys reply call,
    answer.ret = upnpESuccess → RenewsWell x.sys.sdk answer env call
  | .proceed i => ∀ call ∈ x.sys.calls[i]?, FreesWell x.sys.sdk call
  | .expire accepted => accepted = true ∨ ∀ e ∈ x.sys.sdk.gTimerThread.eventQ.head?,
    ∀ event ∈ renewal e.job, Spared x event
  | _ => True

instance (x : Leased) : DecidablePred (Spared x) := fun _ =>
  inferInstanceAs (Decidable (_ ∨ ∀ info ∈ getHandleInfo _ _, _))

instance (sys : Setup) : DecidableRel (Orderly sys)
  | _, .subscribed _ _ => inferInstanceAs (Decidable (∀ call ∈ _, ∀ answer ∈ answerTo _ _ _, _))
  | _, .renewed _ _ _ => inferInstanceAs (Decidable (∀ call ∈ _, ∀ answer ∈ answerTo _ _ _, _))
  | _, .proceed _ => inferInstanceAs (Decidable (∀ call ∈ _, FreesWell _ _))
  | _, .expire _ => inferInstanceAs (Decidable (_ ∨ ∀ e ∈ List.head? _, _))
  | _, .tick _ | _, .register _ _ | _, .subscribe _ _ _ | _, .renew _ _ _ | _, .unSubscribe _ _
  | _, .unregister _ | _, .autoRenew _ | _, .search _ _ _ => isTrue trivial

def Kept (x : System) (granted : ℕ → ℤ) : Prop :=
  Tied x.sdk x.clientRegistered granted (Renewing x.calls 1)

theorem Kept.init : Kept System.init fun _ => upnpInfinite := by
  have hnone : ∀ hnd, getHandleInfo System.init.sdk.handleTable hnd = none := by
    intro hnd
    cases hget : getHandleInfo System.init.sdk.handleTable hnd with
    | none => rfl
    | some info =>
      have hentry := List.mem_of_getElem? (getHandleInfo_some hget).2.2
      cases List.eq_of_mem_replicate hentry
  refine ⟨List.length_replicate,fun hnd info hget => ?_,?_⟩
  · rw [hnone] at hget
    cases hget
  · rw [clientSubs,hnone]
    refine Linked.empty _ _ _ ?_
    rintro e ⟨⟩

theorem Renewing.cons {calls : List Call} {hnd : ℤ} {sid : List UInt8}
    (h : Renewing calls hnd sid) (c : Call) : Renewing (c::calls) hnd sid := by
  rcases h with ⟨c',hc',hr⟩
  exact ⟨c',.tail _ hc',hr⟩

/-- A call that goes on may have been the one that stood for the subscription. -/
theorem Renewing.erase {calls : List Call} {i : ℕ} {call : Call} {hnd : ℤ} {sid : List UInt8}
    (h : Renewing calls hnd sid) (hi : calls[i]? = some call) :
    Renewing (calls.eraseIdx i) hnd sid ∨ call.Renews hnd sid := by
  rcases h with ⟨c,hc,hr⟩
  rcases List.mem_cons.mp ((perm_eraseIdx hi).mem_iff.mp hc) with rfl | hc
  · exact .inr hr
  · exact .inl ⟨c,hc,hr⟩

theorem Kept.record {x : System} {granted : ℕ → ℤ} (h : Kept x granted) (timeOut : ℤ)
    (auto : Option ℤ) (call : Option TimerCall) : Kept (x.record timeOut auto call) granted := by
  cases call with
  | none => exact h
  | some c => exact h

section

variable {sys : Setup} {x y : System} {granted : ℕ → ℤ} {i : ℕ} {call : Call}

theorem Kept.finish (h : Kept x granted) (hi : x.calls[i]? = some call)
    (hcall : ∀ sid, ¬call.Renews 1 sid) {s : State}
    (hs : Tied x.sdk x.clientRegistered granted (Renewing (x.calls.eraseIdx i) 1) →
      Tied s x.clientRegistered granted (Renewing (x.calls.eraseIdx i) 1)) :
    Kept (x.finish s i) granted :=
  hs (h.mono fun sid hc => (hc.erase hi).resolve_right (hcall sid))

theorem Kept.begin {s : State} (h : Tied s x.clientRegistered granted (Renewing x.calls 1))
    (c : Call) : Kept (x.begin s c) granted :=
  h.mono fun _ hc => hc.cons c

theorem Kept.subscribed {env : SubscribeEnv} (h : Kept x granted) (hi : x.calls[i]? = some call)
    (hok : ∀ answer ∈ answerTo sys env.reply call, answer.ret = upnpESuccess →
      LinksWell x.sdk answer env call) (hs : stepSubscribed sys x i env call = some y) :
    Kept y ((answerTo sys env.reply call).elim granted fun answer =>
      lease granted answer (lessee x.sdk call)) := by
  cases call with
  | subscribing hnd publisherUrl timeOut =>
    rcases Option.map_eq_some_iff.mp hs with ⟨r,hr,rfl⟩
    rcases Rounds.of_bind_ok (toOption_some hr) with ⟨answer,hex,hfin⟩
    have hanswer : answerTo sys env.reply (.subscribing hnd publisherUrl timeOut) = some answer := by
      rw [answerTo,hex]
      rfl
    rw [hanswer]
    have hwell : answer.ret = upnpESuccess → LinksWell x.sdk answer
        { env with renew := { env.renew with now := x.now } }
        (.subscribing hnd publisherUrl timeOut) := hok answer hanswer
    refine Kept.record (x := x.finish r.state i) ?_ _ _ _
    refine Tied.finishSubscribe ?_ hwell hfin
    exact h.mono fun sid hc => (hc.erase hi).resolve_right not_false
  | _ => cases hs

theorem Kept.renewed {reply : Reply} {env : RenewEnv} (h : Kept x granted)
    (hi : x.calls[i]? = some call)
    (hok : ∀ answer ∈ answerTo sys reply call, answer.ret = upnpESuccess →
      RenewsWell x.sdk answer env call) (hs : stepRenewed sys x i reply env call = some y) :
    Kept y ((answerTo sys reply call).elim granted fun answer =>
      lease granted answer (lessee x.sdk call)) := by
  cases call with
  | renewing hnd inSid timeOut copy auto =>
    rcases Rounds.of_bind_ok (toOption_some hs) with ⟨answer,hex,hfin⟩
    have hanswer : answerTo sys reply (.renewing hnd inSid timeOut copy auto) = some answer := by
      rw [answerTo,hex]
      rfl
    rw [hanswer]
    cases hr : finishRenew x.sdk hnd inSid answer { env with now := x.now } with
    | error f =>
      rw [hr] at hfin
      cases hfin
    | ok r =>
      rw [hr] at hfin
      cases hfin
      have hwell : answer.ret = upnpESuccess → RenewsWell x.sdk answer { env with now := x.now }
          (.renewing hnd inSid timeOut copy auto) := hok answer hanswer
      refine Kept.record (x := x.finish r.state i) ?_ _ _ _
      refine Tied.finishRenew h (fun sid hc => ?_) hwell hr
      rcases hc.erase hi with hc | ⟨hhnd,hsid⟩
      · exact .inl hc
      · exact .inr ⟨hhnd,hsid.symm⟩
  | _ => cases hs

theorem Kept.renew {hnd timeOut : ℤ} {inSid : List UInt8} {auto : Option ℤ}
    {covered : List UInt8 → Prop} (h : Tied x.sdk x.clientRegistered granted covered)
    (hcov : ∀ sid, covered sid → Renewing x.calls 1 sid ∨ hnd = 1 ∧ sid = inSid)
    (hs : stepRenew x hnd inSid timeOut auto = some y) : Kept y granted := by
  rcases Option.map_eq_some_iff.mp hs with ⟨r,hr,rfl⟩
  have hr := toOption_some hr
  split
  · refine h.beginRenew (fun sid hc => ?_) hr fun _ _ hhnd => ⟨_,.head _,hhnd,rfl⟩
    exact (hcov sid hc).imp_left fun hc => hc.cons _
  · rename_i he
    refine h.beginRenew hcov hr fun copy hcopy => ?_
    rw [he] at hcopy
    cases hcopy

theorem Kept.autoRenew (h : Kept x granted) (hi : x.calls[i]? = some call)
    (hs : stepAutoRenew x i call = some y) : Kept y granted := by
  cases call with
  | fired id event =>
    refine Kept.renew (x := { x with
      calls := x.calls.eraseIdx i
      renewals := (id,x.now)::x.renewals }) h (fun sid hc => ?_) hs
    rcases hc.erase hi with hc | ⟨hhnd,hsid⟩
    · exact .inl hc
    · exact .inr ⟨hhnd,hsid.symm⟩
  | _ => cases hs

theorem Kept.unregister {hnd : ℤ} (h : Kept x granted) (hs : stepUnregister x hnd = some y) :
    Kept y granted := by
  rcases Option.map_eq_some_iff.mp hs with ⟨r,hr,rfl⟩
  have ht := h.unregisterRound (toOption_some hr)
  split
  · exact Kept.begin ht _
  · split
    · exact Kept.begin ht _
    · exact ht

theorem Kept.proceed (h : Kept x granted) (hi : x.calls[i]? = some call)
    (hok : FreesWell x.sdk call) (hs : stepCall x i call = some y) : Kept y granted := by
  cases call with
  | unsubscribing hnd inSid =>
    rcases Option.map_eq_some_iff.mp hs with ⟨s,hr,rfl⟩
    have hr := toOption_some hr
    refine h.finish hi (fun _ => not_false) fun ht => ?_
    unfold finishUnSubscribe at hr
    split at hr
    · cases hr
      exact ht
    · rename_i hinfo
      exact ht.remove hinfo (fun _ _ hc => hc) hr
  | unregistering hnd =>
    exact Kept.unregister (h.finish hi (fun _ => not_false) id) hs
  | unregistered hnd =>
    simp only [stepCall] at hs
    cases hinfo : getHandleInfo x.sdk.handleTable hnd with
    | none =>
      rw [hinfo] at hs
      cases hs
      exact h.finish hi (fun _ => not_false) id
    | some info =>
      rw [hinfo] at hs
      cases hs
      have ht := h.mono fun sid hc => (hc.erase hi).resolve_right not_false
      exact ht.free hinfo (hok (by rw [hinfo]; rfl))
  | _ => cases hs

/-- The renewal that is fired stands for its subscription, and one that is refused may be lost. -/
theorem Kept.expire {accepted : Bool} (h : Kept x granted)
    (hok : accepted = true ∨ ∀ e ∈ x.sdk.gTimerThread.eventQ.head?, ∀ event ∈ renewal e.job,
      Spared ⟨x,granted⟩ event) (hs : stepExpire x accepted = some y) : Kept y granted := by
  rcases Option.map_eq_some_iff.mp hs with ⟨⟨e,s⟩,hr,rfl⟩
  rcases dispatch_some hr with ⟨hq,-,hcount,htable,-⟩
  have hsubs := dispatch_subs hr
  have hlost : ∀ calls : List Call, (∀ sid, Renewing x.calls 1 sid → Renewing calls 1 sid) →
      (∀ event, renewal e.job = some event → ∀ a ∈ (clientSubs x.sdk 1).getD [], ∀ sub,
        x.sdk.subs.getD a none = some sub → sub.sid = event.sid →
          granted a = upnpInfinite ∨ Renewing calls 1 event.sid) →
      Tied s x.clientRegistered granted (Renewing calls 1) := by
    intro calls hcalls hgone
    refine Tied.same h htable fun hl => ?_
    rw [hsubs]
    refine hl.events hcount.ge (fun e' he' _ _ => ?_) (fun e' he' event hjob => ?_)
      fun _ _ _ _ hc => hcalls _ hc
    · rw [hq]
      exact .tail _ he'
    · rw [hq] at he'
      rcases List.mem_cons.mp he' with rfl | he'
      · exact .inr (hgone event hjob)
      · exact .inl he'
  dsimp only
  split
  · rename_i event hjob
    have hevent : renewal e.job = some event := by
      rw [hjob]
      rfl
    have hmem : e ∈ x.sdk.gTimerThread.eventQ := by
      rw [hq]
      exact .head _
    have hone := (h.linked.pending e hmem event hevent).1
    split
    · refine hlost _ (fun _ hc => hc.cons _) fun event' he' _ _ _ _ _ => .inr ?_
      cases hevent.symm.trans he'
      exact ⟨_,.head _,hone,rfl⟩
    · rename_i hrefused
      refine hlost _ (fun _ hc => hc) fun event' he' a ha sub hsub hsid => ?_
      cases hevent.symm.trans he'
      have hspared := hok.resolve_left hrefused e (by rw [hq]; rfl) event hevent
      rw [Spared,hone] at hspared
      rcases hspared with hc | hinf
      · exact .inr hc
      · rw [clientSubs] at ha
        cases hinfo : getHandleInfo x.sdk.handleTable 1 with
        | none =>
          rw [hinfo] at ha
          cases ha
        | some info =>
          rw [hinfo] at ha
          exact .inl (hinf info hinfo a ha sub hsub hsid)
  · rename_i hjob
    refine hlost _ (fun _ hc => hc) fun event' he' => ?_
    rw [hjob] at he'
    cases he'

end

theorem Kept.step {sys : Setup} {x y : Leased} {e : Event} (h : Kept x.sys x.granted)
    (hok : Orderly sys x e) (hs : leasedStep sys x e = some y) : Kept y.sys y.granted := by
  rcases Option.map_eq_some_iff.mp hs with ⟨y,hy,rfl⟩
  cases e with
  | tick now =>
    simp only [Subscriptions.step] at hy
    split at hy
    · cases hy
      exact h
    · cases hy
  | register callback cookie =>
    cases hy
    unfold stepRegister
    split
    · exact h
    · rename_i hreg
      split
      · exact h
      · rename_i hnd hhnd
        rw [Bool.not_eq_true] at hreg
        rw [Kept,hreg] at h
        exact Tied.register h hhnd
  | subscribe hnd publisherUrl timeOut =>
    simp only [Subscriptions.step] at hy
    split at hy
    · cases hy
      exact h
    · cases hy
      exact Kept.begin h _
  | subscribed i env =>
    rcases Option.bind_eq_some_iff.mp hy with ⟨call,hi,hy⟩
    dsimp only [Leased.answered]
    rw [hi]
    exact h.subscribed hi (hok call hi) hy
  | renew hnd inSid timeOut => exact Kept.renew h (fun _ hc => .inl hc) hy
  | renewed i reply env =>
    rcases Option.bind_eq_some_iff.mp hy with ⟨call,hi,hy⟩
    dsimp only [Leased.answered]
    rw [hi]
    exact h.renewed hi (hok call hi) hy
  | unSubscribe hnd inSid =>
    rcases Option.map_eq_some_iff.mp hy with ⟨r,-,rfl⟩
    split
    · exact Kept.begin h _
    · exact h
  | unregister hnd =>
    simp only [Subscriptions.step] at hy
    split at hy
    · exact h.unregister hy
    · cases hy
      exact h
  | proceed i =>
    rcases Option.bind_eq_some_iff.mp hy with ⟨call,hi,hy⟩
    exact h.proceed hi (hok call hi) hy
  | expire accepted => exact h.expire hok hy
  | autoRenew i =>
    rcases Option.bind_eq_some_iff.mp hy with ⟨call,hi,hy⟩
    exact h.autoRenew hi hy
  | search id timeTillRead alloc =>
    cases hy
    rcases timerThreadSchedule_spec x.sys.sdk.gTimerThread x.sys.now timeTillRead .relSec
      (.searchExpired id) .shortTerm alloc with ⟨hevents,hcount,-⟩
    refine Tied.same h rfl fun hl => hl.events hcount (fun e he event hjob => ?_)
      (fun e he _ _ => .inl (mem_schedule he)) fun _ _ _ _ hc => hc
    rcases hevents e he with he | ⟨-,rfl⟩
    · exact he
    · cases hjob

theorem eq_singleton {α : Type} {l : List α} {a : α} (hl : l.Nodup) (ha : a ∈ l)
    (h : ∀ b ∈ l, b = a) : l = [a] := by
  have hmem : ∀ b, b ∈ l ↔ b ∈ [a] := fun b =>
    ⟨fun hb => List.mem_singleton.mpr (h b hb),fun hb => List.mem_singleton.mp hb ▸ ha⟩
  exact List.perm_singleton.mp ((List.perm_ext_iff_of_nodup hl (List.nodup_singleton a)).mpr hmem)

theorem renews_iff {hnd : ℤ} {sid : List UInt8} {e : TimerEvent TimerJob} :
    renews hnd sid e = true ↔
      ∃ event, renewal e.job = some event ∧ event.handle = hnd ∧ event.sid = sid := by
  unfold renews
  cases renewal e.job with
  | none => simp
  | some event => simp

/-- Between the calls no subscription is covered by one. -/
theorem Kept.bijective {x : Leased} (h : Kept x.sys x.granted) (hidle : x.sys.calls = []) :
    Bijective x := by
  have hl := h.linked
  have hv := x.sys.sdk.valid
  have hcalls : ∀ sid, ¬Renewing x.sys.calls 1 sid := by
    intro sid
    rw [hidle]
    rintro ⟨c,⟨⟩,-⟩
  constructor
  · intro hnd info hinfo a ha
    have hlist := h.list hinfo
    obtain rfl := (h.single hnd info hinfo).1
    rcases hlist.member a ha with ⟨sub,hs,-⟩
    refine ⟨sub,hs,fun hfinite => ?_⟩
    rcases hlist.due a ha sub hs with hinf | hc | ⟨e,he,event,hjob,hsid,hid⟩
    · exact absurd hinf hfinite
    · exact absurd hc (hcalls _)
    · refine ⟨e,eq_singleton (hv.distinct.of_map.filter _) ?_ fun e' he' => ?_,hid⟩
      · have hhnd := (hlist.pending e he event hjob).1
        exact List.mem_filter.mpr ⟨he,renews_iff.mpr ⟨event,hjob,hhnd,hsid⟩⟩
      · rcases List.mem_filter.mp he' with ⟨he',hr⟩
        rcases renews_iff.mp hr with ⟨event',hjob',-,hsid'⟩
        rcases hlist.pending e' he' event' hjob' with ⟨-,b,hb,sub',hs',hes,hid'⟩
        obtain rfl := hlist.sid_inj hb ha hs' hs (hes.trans hsid')
        cases hs.symm.trans hs'
        exact hv.distinct.eq he' he (hid'.symm.trans hid.symm)
  · intro e he event hjob
    rcases hl.pending e he event hjob with ⟨hhnd,a,ha,sub,hs,hes,hid⟩
    rw [hhnd]
    rw [clientSubs] at ha
    cases hinfo : getHandleInfo x.sys.sdk.handleTable 1 with
    | none =>
      rw [hinfo] at ha
      cases ha
    | some info =>
      rw [hinfo] at ha
      exact ⟨info,rfl,a,ha,sub,hs,hes,hid⟩

/-- In a run without a lost or an overlapping renewal, whenever no call is on its way. -/
theorem renewals_bijective {sys : Setup} {x : Leased}
    (h : Runs (leasedStep sys) (Orderly sys) Leased.init x) (hidle : x.sys.calls = []) :
    Bijective x :=
  Kept.bijective (h.invariant (I := fun x => Kept x.sys x.granted) Kept.init
    fun _ _ _ hk hok hs => hk.step hok hs) hidle

theorem renewals_bijective_renewed :
    ∃ x, Runs (leasedStep someSetup) (Orderly someSetup) Leased.init x ∧ x.sys.calls = [] ∧
      clientSubs x.sys.sdk 1 = some [0] ∧ x.granted 0 = 30 ∧
      x.sys.sdk.gTimerThread.eventQ.map TimerEvent.id = [1] ∧ Bijective x := by
  have h : (run (leasedStep someSetup) (Orderly someSetup) Leased.init
      (leaseRun (cstr "Second-30") 20)).map (fun x => (x.sys.calls,clientSubs x.sys.sdk 1,x.granted 0,
        x.sys.sdk.gTimerThread.eventQ.map TimerEvent.id)) = some ([],some [0],30,[1]) := by
    decide +kernel
  rcases Option.map_eq_some_iff.mp h with ⟨x,hx,he⟩
  obtain ⟨hidle,hlist,hgrant,hq⟩ : x.sys.calls = [] ∧ clientSubs x.sys.sdk 1 = some [0] ∧
      x.granted 0 = 30 ∧ x.sys.sdk.gTimerThread.eventQ.map TimerEvent.id = [1] := by
    simpa only [Prod.mk.injEq] using he
  exact ⟨x,Runs.of_run _ hx,hidle,hlist,hgrant,hq,renewals_bijective (Runs.of_run _ hx) hidle⟩

def overlappingRenewals : List Event :=
  [.register 1 0,.subscribe 1 (cstr "http://1.2.3.4/e") 0,
    .subscribed 0 ⟨true,leaseReply (cstr "uuid:p") (cstr "Second-30"),cstr "c",RenewEnv.calm⟩,
    .renew 1 (cstr "uuid:c") 30,.renew 1 (cstr "uuid:c") 30,
    .renewed 0 (leaseReply (cstr "uuid:p") (cstr "Second-30")) RenewEnv.calm,
    .renewed 0 (leaseReply (cstr "uuid:p") (cstr "Second-30")) RenewEnv.calm]

theorem overlapping_two_events :
    ∃ x, Runs (leasedStep someSetup) free Leased.init x ∧ x.sys.calls = [] ∧
      clientSubs x.sys.sdk 1 = some [0] ∧
      (x.sys.sdk.subs.getD 0 none).map ClientSubscription.renewEventId = some 2 ∧
      (x.sys.sdk.gTimerThread.eventQ.filter (renews 1 (cstr "uuid:c"))).map TimerEvent.id = [2,1] ∧
      ¬Bijective x := by
  have h : (run (leasedStep someSetup) free Leased.init overlappingRenewals).map (fun x =>
      (x.sys.calls,clientSubs x.sys.sdk 1,
        (x.sys.sdk.subs.getD 0 none).map ClientSubscription.renewEventId,
        (x.sys.sdk.gTimerThread.eventQ.filter (renews 1 (cstr "uuid:c"))).map TimerEvent.id)) =
      some ([],some [0],some 2,[2,1]) := by decide +kernel
  rcases Option.map_eq_some_iff.mp h with ⟨x,hx,he⟩
  obtain ⟨hidle,hlist,hsub,hq⟩ : x.sys.calls = [] ∧ clientSubs x.sys.sdk 1 = some [0] ∧
      (x.sys.sdk.subs.getD 0 none).map ClientSubscription.renewEventId = some 2 ∧
      (x.sys.sdk.gTimerThread.eventQ.filter (renews 1 (cstr "uuid:c"))).map TimerEvent.id =
        [2,1] := by
    simpa only [Prod.mk.injEq] using he
  refine ⟨x,Runs.of_run _ hx,hidle,hlist,hsub,hq,fun hb => ?_⟩
  -- the event of the renewal that came first
  have hfirst : (1 : ℤ) ∈ (x.sys.sdk.gTimerThread.eventQ.filter
      (renews 1 (cstr "uuid:c"))).map TimerEvent.id := by
    rw [hq]
    decide
  rcases List.mem_map.mp hfirst with ⟨e,he,hid⟩
  rcases List.mem_filter.mp he with ⟨he,hrenews⟩
  rcases renews_iff.mp hrenews with ⟨event,hjob,hhnd,-⟩
  rcases hb.owned e he event hjob with ⟨info,hinfo,a,ha,sub,hs,-,hown⟩
  rw [hhnd] at hinfo
  rw [clientSubs,hinfo,Option.map_some,Option.some.injEq] at hlist
  rw [hlist,List.mem_singleton] at ha
  rw [ha] at hs
  rw [hs,Option.map_some,Option.some.injEq,hown,hid] at hsub
  revert hsub
  decide

end Subscriptions
end CtrlPt
