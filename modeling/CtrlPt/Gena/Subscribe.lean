import CtrlPt.Http.Download
import CtrlPt.Http.Fields
import CtrlPt.Http.MakeMessage
import CtrlPt.Http.Parser
import CtrlPt.Lib.Memory
import CtrlPt.Sdk

/-! Subscribing: the exchange with the publisher, the event that renews the subscription and the
entry in the list of the client. -/
namespace CtrlPt
namespace Subscriptions

open CText Http Memory Sdk Thread

def autoRenewTime : ℤ := 10
def cpMinimumSubscriptionTime : ℤ := autoRenewTime+5
def upnpInfinite : ℤ := -1

def upnpSidSize : ℕ := 44
def nameSize : ℕ := 256

/-- The addresses and ports the miniserver listens on. -/
structure LocalAddress where
  ifIpv4 : List UInt8
  portV4 : ℤ
  ifIpv6 : List UInt8
  ifIpv6UlaGua : List UInt8
  portV6 : ℤ
  deriving DecidableEq, Repr

/-- What the calls use of the rest of the system. -/
structure Setup where
  res : Uri.Resolver
  platform : Platform
  addr : LocalAddress

/-- `http_RequestAndResponse`: what it returns and the message it has parsed. -/
structure Reply where
  ret : ℤ
  msg : HttpMessage
  deriving DecidableEq, Repr

def timeoutStr (timeout : ℤ) : List UInt8 :=
  if timeout < 0 then cstr "infinite"
  else if timeout < cpMinimumSubscriptionTime then printInt cpMinimumSubscriptionTime
  else printInt timeout

def isLinkLocal (addr : List UInt8) : Bool :=
  addr.getD 0 0 == 0xfe && (addr.getD 1 0) &&& 0xc0 == 0x80

/-- The SUBSCRIBE message, for a renewal if there is a SID. -/
def subscribeRequest (sys : Setup) (dest : Uri.UriType) (renewalSid : Option (List UInt8))
    (timeout : List UInt8) : Except BuildError (List UInt8) :=
  match renewalSid with
  | some sid =>
    httpMakeMessage sys.platform 1 1 [.q,.s,.s,.c,.s,.s,.c,.c]
      [.method .subscribe,.uri dest,.str (cstr "SID: "),.str sid,.str (cstr "TIMEOUT: Second-"),
        .str timeout]
  | none =>
    let callback : List UInt8 × List UInt8 × List UInt8 × ℤ :=
      if dest.hostport.ipAddress.family = .inet6 then
        (cstr "CALLBACK: <http://[",
          if isLinkLocal dest.hostport.ipAddress.addr ∨ sys.addr.ifIpv6UlaGua.length = 0 then
            sys.addr.ifIpv6
          else sys.addr.ifIpv6UlaGua,
          cstr "]:",sys.addr.portV6)
      else (cstr "CALLBACK: <http://",sys.addr.ifIpv4,cstr ":",sys.addr.portV4)
    httpMakeMessage sys.platform 1 1 [.q,.s,.s,.s,.d,.s,.c,.s,.c,.s,.s,.c,.c]
      [.method .subscribe,.uri dest,.str callback.1,.str callback.2.1,.str callback.2.2.1,
        .int callback.2.2.2,.str (cstr "/>"),.str (cstr "NT: upnp:event"),
        .str (cstr "TIMEOUT: Second-"),.str timeout]

/-- What `gena_subscribe` returns, what it leaves in `timeout` and `sid`, and what it sends. -/
structure GenaAnswer where
  ret : ℤ
  timeout : ℤ
  sid : List UInt8
  request : Option (List UInt8)
  deriving DecidableEq, Repr

/-- The headers of a response with status 200. -/
def readLease (timeout : ℤ) (headers : List HttpHeader) (request : List UInt8) : GenaAnswer :=
  match findHdr headers .sid, findHdr headers .timeout with
  | some sidHdr, some timeoutHdr =>
    if sidHdr.length = 0 ∨ timeoutHdr.length = 0 then ⟨upnpEBadResponse,timeout,[],some request⟩
    else
      let m := matchstr timeoutHdr timeoutFmt
      if m.status = .ok then ⟨upnpESuccess,m.storeTo timeout,untilNul sidHdr,some request⟩
      else if memptrCmpNocase timeoutHdr (cstr "Second-infinite") = 0 then
        ⟨upnpESuccess,-1,untilNul sidHdr,some request⟩
      else ⟨upnpEBadResponse,m.storeTo timeout,[],some request⟩
  | _, _ => ⟨upnpEBadResponse,timeout,[],some request⟩

def exchangeSubscribe (sys : Setup) (url : List UInt8) (timeout : ℤ)
    (renewalSid : Option (List UInt8)) (reply : Reply) : Except Fault GenaAnswer :=
  match httpFixStrUrl sys.res url url.length with
  | .error e => .ok ⟨e,timeout,[],none⟩
  | .ok dest =>
    match subscribeRequest sys dest renewalSid (timeoutStr timeout) with
    | .error .abort => .error .assertion
    | .error (.code e) => .ok ⟨e,timeout,[],none⟩
    | .ok request =>
      if reply.ret ≠ 0 then .ok ⟨reply.ret,timeout,[],some request⟩
      else if reply.msg.statusCode ≠ 200 then
        .ok ⟨upnpESubscribeUnaccepted,timeout,[],some request⟩
      else .ok (readLease timeout reply.msg.headers request)

/-- The allocations of `ScheduleGenaAutoRenew` and those of the timer, and the time. -/
structure RenewEnv where
  eventStruct : Bool
  event : Bool
  timer : TimerAlloc
  now : ℤ
  deriving DecidableEq, Repr

def RenewEnv.calm : RenewEnv := ⟨true,true,⟨true,true⟩,0⟩

/-- A subscription on the heap; one that is freed must not be read. -/
def readSub (subs : List (Option ClientSubscription)) (a : ℕ) : Except Fault ClientSubscription :=
  (subs.getD a none).elim (.error .load) .ok

/-- The delay `TimerThreadSchedule` is given, an `int`. -/
def renewDelay (timeOut : ℤ) : ℤ := toInt (timeOut-autoRenewTime)

def renewEvent (hnd timeOut : ℤ) (sub : ClientSubscription) : UpnpTimeout :=
  ⟨hnd,sub.sid.take (upnpSidSize-1),upnpESuccess,timeOut,sub.eventUrl.take (nameSize-1)⟩

/-- A call of `TimerThreadSchedule`: the delay it is given, what it returns and the id it
stores. -/
structure TimerCall where
  delay : ℤ
  rc : ℤ
  id : ℤ
  deriving DecidableEq, Repr

/-- What is returned, the call of the timer that was made, and the state. -/
structure RenewResult where
  ret : ℤ
  call : Option TimerCall
  state : State
  deriving DecidableEq

/-- The subscription `a` gets an event, unless its lease does not end. -/
def scheduleGenaAutoRenew (s : State) (hnd timeOut : ℤ) (a : ℕ) (env : RenewEnv) :
    Except Fault RenewResult := do
  let sub ← readSub s.subs a
  if timeOut = upnpInfinite then .ok ⟨upnpESuccess,none,s⟩
  else if env.eventStruct = false ∨ env.event = false then .ok ⟨upnpEOutofMemory,none,s⟩
  else
    let scheduled := timerThreadSchedule s.gTimerThread env.now (renewDelay timeOut) .relSec
      (.genaAutoRenewSubscription (renewEvent hnd timeOut sub)) .shortTerm env.timer
    let call : TimerCall := ⟨renewDelay timeOut,scheduled.rc,scheduled.id⟩
    let s : State := { s with gTimerThread := scheduled.timer, valid := s.valid.schedule }
    if scheduled.rc ≠ 0 then .ok ⟨scheduled.rc,some call,s⟩
    else
      .ok ⟨upnpESuccess,some call,{ s with
        subs := s.subs.set a (some { sub with renewEventId := scheduled.id }) }⟩

/-- What `genaSubscribe` is answered: whether its subscription is allocated, the reply of the
publisher, the string of a new uuid. -/
structure SubscribeEnv where
  newSubscription : Bool
  reply : Reply
  tempSid : List UInt8
  renew : RenewEnv
  deriving DecidableEq, Repr

structure SubscribeResult where
  ret : ℤ
  timeOut : ℤ
  outSid : List UInt8
  call : Option TimerCall
  state : State
  deriving DecidableEq

/-- The new subscription is put in front of the list. -/
def linkSubscription (s : State) (hnd : ℤ) (info : HandleInfo) (sub : ClientSubscription) : State :=
  { s with
    subs := s.subs++[some sub]
    handleTable := setHandleInfo s.handleTable hnd
      { info with clientSubList := s.subs.length::info.clientSubList } }

/-- The part of `genaSubscribe` behind the exchange, under the handle lock. The subscription is
the caller's own until it is linked, and is put on the heap there. -/
def finishSubscribe (s : State) (hnd : ℤ) (publisherUrl : List UInt8) (answer : GenaAnswer)
    (env : SubscribeEnv) : Except Fault SubscribeResult :=
  if answer.ret ≠ upnpESuccess then .ok ⟨answer.ret,answer.timeout,[],none,s⟩
  else
    match getHandleInfo s.handleTable hnd with
    | none => .ok ⟨upnpEInvalidHandle,answer.timeout,[],none,s⟩
    | some info =>
      let tempSid2 := cstr "uuid:"++env.tempSid
      if upnpSidSize ≤ tempSid2.length then .ok ⟨upnpEOutofMemory,answer.timeout,[],none,s⟩
      else do
        let scheduled ← scheduleGenaAutoRenew
          (linkSubscription s hnd info ⟨-1,tempSid2,answer.sid,publisherUrl⟩) hnd answer.timeout
          s.subs.length env.renew
        if scheduled.ret ≠ upnpESuccess then
          .ok ⟨scheduled.ret,answer.timeout,tempSid2,scheduled.call,{ scheduled.state with
            subs := scheduled.state.subs.set s.subs.length none }⟩
        else .ok ⟨scheduled.ret,answer.timeout,tempSid2,scheduled.call,scheduled.state⟩

/-- `before` is the state when the handle lock is held first, `after` when it is held again behind
the exchange. -/
def genaSubscribe (sys : Setup) (before after : State) (hnd : ℤ) (publisherUrl : List UInt8)
    (timeOut : ℤ) (env : SubscribeEnv) : Except Fault SubscribeResult :=
  -- the constructor writes to what it has allocated
  if env.newSubscription = false then .error .store
  else
    match getHandleInfo before.handleTable hnd with
    | none => .ok ⟨upnpEInvalidHandle,timeOut,[],none,before⟩
    | some _ => do
      let answer ← exchangeSubscribe sys publisherUrl timeOut none env.reply
      finishSubscribe after hnd publisherUrl answer env

def clientSubs (s : State) (hnd : ℤ) : Option (List ℕ) :=
  (getHandleInfo s.handleTable hnd).map HandleInfo.clientSubList

/-- No subscription in the list is freed. -/
def Intact (s : State) (hnd : ℤ) : Prop :=
  ∀ subs ∈ clientSubs s hnd, ∀ a ∈ subs, (s.subs.getD a none).isSome = true

/-- The list of the client is as it was, its members too, and so are the pending events. -/
structure NoTrace (hnd : ℤ) (s s' : State) : Prop where
  list : clientSubs s' hnd = clientSubs s hnd
  members : ∀ subs ∈ clientSubs s hnd, ∀ a ∈ subs, s'.subs.getD a none = s.subs.getD a none
  intact : Intact s hnd → Intact s' hnd
  events : s'.gTimerThread.eventQ = s.gTimerThread.eventQ

theorem NoTrace.refl (hnd : ℤ) (s : State) : NoTrace hnd s s :=
  ⟨rfl,fun _ _ _ _ => rfl,id,rfl⟩

/-- The state at which the call last takes the handle lock. -/
def lockedState (before after : State) (hnd : ℤ) : State :=
  if (getHandleInfo before.handleTable hnd).isSome then after else before

/-- The call gets as far as linking its subscription. -/
structure Links (sys : Setup) (before after : State) (hnd : ℤ) (publisherUrl : List UInt8)
    (timeOut : ℤ) (env : SubscribeEnv) (answer : GenaAnswer) : Prop where
  allocated : env.newSubscription = true
  registered : (getHandleInfo before.handleTable hnd).isSome = true
  accepted : exchangeSubscribe sys publisherUrl timeOut none env.reply = .ok answer
  success : answer.ret = upnpESuccess
  still : (getHandleInfo after.handleTable hnd).isSome = true
  sidFits : (cstr "uuid:"++env.tempSid).length < upnpSidSize

/-- The lease does not end, or its event is allocated and the timer takes it. -/
def RenewalScheduled (timeOut : ℤ) (env : RenewEnv) : Prop :=
  timeOut = upnpInfinite ∨ env.eventStruct = true ∧ env.event = true ∧ env.timer.event = true ∧
    env.timer.node = true

instance (timeOut : ℤ) (env : RenewEnv) : Decidable (RenewalScheduled timeOut env) :=
  inferInstanceAs (Decidable (_ ∨ _))

theorem upnpEOutofMemory_ne : upnpEOutofMemory ≠ upnpESuccess := by decide

theorem eoutofmem_ne : eoutofmem ≠ upnpESuccess := by decide

/-- A renewal is scheduled, or there is an error and no event more. -/
theorem scheduleGenaAutoRenew_spec {s : State} (hnd timeOut : ℤ) {a : ℕ} (env : RenewEnv)
    {sub : ClientSubscription} (h : s.subs.getD a none = some sub) :
    ∃ rc call s', scheduleGenaAutoRenew s hnd timeOut a env = .ok ⟨rc,call,s'⟩ ∧
      s'.handleTable = s.handleTable ∧ s'.ids = s.ids ∧
      (RenewalScheduled timeOut env → rc = upnpESuccess) ∧
      (¬RenewalScheduled timeOut env → rc ≠ upnpESuccess ∧ s'.subs = s.subs ∧
        s'.gTimerThread.eventQ = s.gTimerThread.eventQ) := by
  unfold scheduleGenaAutoRenew
  rw [readSub,h]
  simp only [Option.elim_some,bind,Except.bind]
  by_cases hinf : timeOut = upnpInfinite
  · rw [if_pos hinf]
    exact ⟨_,_,_,rfl,rfl,rfl,fun _ => rfl,fun hn => absurd (.inl hinf) hn⟩
  rw [if_neg hinf]
  by_cases halloc : env.eventStruct = false ∨ env.event = false
  · rw [if_pos halloc]
    refine ⟨_,_,_,rfl,rfl,rfl,fun hs => ?_,fun _ => ⟨upnpEOutofMemory_ne,rfl,rfl⟩⟩
    rcases halloc with he | he
    · rw [RenewalScheduled,he] at hs
      simp [hinf] at hs
    · rw [RenewalScheduled,he] at hs
      simp [hinf] at hs
  rw [if_neg halloc]
  rw [not_or,Bool.not_eq_false,Bool.not_eq_false] at halloc
  by_cases htimer : env.timer.event = true ∧ env.timer.node = true
  · have hsched : RenewalScheduled timeOut env := .inr ⟨halloc.1,halloc.2,htimer.1,htimer.2⟩
    rw [if_neg (by rw [timerThreadSchedule_ok _ _ _ _ _ _ htimer]; exact fun h => h rfl)]
    exact ⟨_,_,_,rfl,rfl,rfl,fun _ => rfl,fun hn => absurd hsched hn⟩
  · have hfail := timerThreadSchedule_fail s.gTimerThread env.now (renewDelay timeOut) .relSec
      (.genaAutoRenewSubscription (renewEvent hnd timeOut sub)) .shortTerm htimer
    rw [if_pos (by rw [hfail.1]; decide)]
    refine ⟨_,_,_,rfl,rfl,rfl,fun hs => ?_,fun _ => ⟨?_,rfl,hfail.2⟩⟩
    · rcases hs with hs | hs
      · exact absurd hs hinf
      · exact absurd ⟨hs.2.2.1,hs.2.2.2⟩ htimer
    · rw [hfail.1]
      exact eoutofmem_ne

theorem readSub_link (s : State) (hnd : ℤ) (info : HandleInfo) (sub : ClientSubscription) :
    (linkSubscription s hnd info sub).subs.getD s.subs.length none = some sub := by
  rw [linkSubscription,List.getD_eq_getElem?_getD,List.getElem?_append_right le_rfl,Nat.sub_self]
  rfl

theorem clientSubs_link {s : State} {hnd : ℤ} {info : HandleInfo}
    (h : getHandleInfo s.handleTable hnd = some info) (sub : ClientSubscription) :
    clientSubs (linkSubscription s hnd info sub) hnd = some (s.subs.length::info.clientSubList) := by
  rw [clientSubs,linkSubscription]
  simp only [getHandleInfo_set h,Option.map_some]

/-- Behind the exchange the call leaves no trace of a failure unless it gets to the renewal and
that is not scheduled. -/
theorem finishSubscribe_noTrace {s : State} {hnd : ℤ} {publisherUrl : List UInt8}
    {answer : GenaAnswer} {env : SubscribeEnv} :
    (∀ r, finishSubscribe s hnd publisherUrl answer env = .ok r → r.ret ≠ upnpESuccess →
        NoTrace hnd s r.state) ↔
      (answer.ret = upnpESuccess → (getHandleInfo s.handleTable hnd).isSome = true →
        (cstr "uuid:"++env.tempSid).length < upnpSidSize →
          RenewalScheduled answer.timeout env.renew) := by
  unfold finishSubscribe
  by_cases hret : answer.ret = upnpESuccess
  swap
  · rw [if_pos hret]
    refine iff_of_true ?_ fun h => absurd h hret
    rintro r ⟨⟩ -
    exact NoTrace.refl hnd s
  rw [if_neg (not_not.mpr hret)]
  cases hinfo : getHandleInfo s.handleTable hnd with
  | none =>
    refine iff_of_true ?_ (by rintro - ⟨⟩)
    rintro r ⟨⟩ -
    exact NoTrace.refl hnd s
  | some info =>
    dsimp only
    by_cases hsid : upnpSidSize ≤ (cstr "uuid:"++env.tempSid).length
    · rw [if_pos hsid]
      refine iff_of_true ?_ fun _ _ h => absurd h (Nat.not_lt.mpr hsid)
      rintro r ⟨⟩ -
      exact NoTrace.refl hnd s
    rw [if_neg hsid]
    obtain ⟨rc,call,s',hsch,htable,-,hok,hfail⟩ := scheduleGenaAutoRenew_spec hnd
      answer.timeout env.renew (readSub_link s hnd info
        ⟨-1,cstr "uuid:"++env.tempSid,answer.sid,publisherUrl⟩)
    rw [hsch]
    simp only [bind,Except.bind]
    by_cases hrenew : RenewalScheduled answer.timeout env.renew
    · refine iff_of_true ?_ fun _ _ _ => hrenew
      rw [if_neg (not_not.mpr (hok hrenew))]
      rintro r ⟨⟩ hne
      exact absurd (hok hrenew) hne
    · refine iff_of_false ?_ fun h => hrenew (h hret rfl (Nat.not_le.mp hsid))
      rw [if_pos (hfail hrenew).1]
      intro h
      -- the list still begins with the subscription that is freed
      have hlist := (h _ rfl (hfail hrenew).1).list
      have hbefore : clientSubs s hnd = some info.clientSubList := by
        rw [clientSubs,hinfo]
        rfl
      have hafter := clientSubs_link hinfo
        ⟨-1,cstr "uuid:"++env.tempSid,answer.sid,publisherUrl⟩
      rw [clientSubs,← htable] at hafter
      rw [hbefore,clientSubs] at hlist
      have hlen := congrArg List.length (Option.some.inj (hafter.symm.trans hlist))
      simp at hlen

theorem genaSubscribe_noTrace_iff (sys : Setup) (before after : State) (hnd : ℤ)
    (publisherUrl : List UInt8) (timeOut : ℤ) (env : SubscribeEnv) :
    (∀ r, genaSubscribe sys before after hnd publisherUrl timeOut env = .ok r →
        r.ret ≠ upnpESuccess → NoTrace hnd (lockedState before after hnd) r.state) ↔
      ∀ answer, Links sys before after hnd publisherUrl timeOut env answer →
        RenewalScheduled answer.timeout env.renew := by
  unfold genaSubscribe
  by_cases hnew : env.newSubscription = false
  · rw [if_pos hnew]
    refine iff_of_true (by rintro r ⟨⟩) fun answer h => ?_
    rw [h.allocated] at hnew
    cases hnew
  rw [if_neg hnew]
  rw [Bool.not_eq_false] at hnew
  cases hbefore : getHandleInfo before.handleTable hnd with
  | none =>
    have hlocked : lockedState before after hnd = before := by
      rw [lockedState,hbefore]
      rfl
    rw [hlocked]
    refine iff_of_true ?_ fun answer h => ?_
    · rintro r ⟨⟩ -
      exact NoTrace.refl hnd before
    · have hreg := h.registered
      rw [hbefore] at hreg
      cases hreg
  | some info =>
    have hlocked : lockedState before after hnd = after := by
      rw [lockedState,hbefore]
      rfl
    rw [hlocked]
    cases hex : exchangeSubscribe sys publisherUrl timeOut none env.reply with
    | error f =>
      refine iff_of_true (by rintro r ⟨⟩) fun answer h => ?_
      have hacc := h.accepted
      rw [hex] at hacc
      cases hacc
    | ok answer =>
      refine finishSubscribe_noTrace.trans ⟨fun h answer' h' => ?_,fun h hret hstill hsid => ?_⟩
      · have hacc := h'.accepted
        rw [hex,Except.ok.injEq] at hacc
        subst hacc
        exact h h'.success h'.still h'.sidFits
      · exact h answer ⟨hnew,by rw [hbefore]; rfl,hex,hret,hstill,hsid⟩

def someSetup : Setup where
  res := ⟨fun _ => none,fun _ _ => some [1,2,3,4],0⟩
  platform := ⟨⟨[],[]⟩,0,fun _ => none⟩
  addr := ⟨cstr "1.2.3.5",49152,[],[],49152⟩

def leaseReply (sid timeout : List UInt8) : Reply where
  ret := 0
  msg := {
    isRequest := false
    method := .unknown
    uri := Uri.UriType.cleared
    urlbuf := []
    requestMethod := .subscribe
    majorVersion := 1
    minorVersion := 1
    statusCode := 200
    statusMsg := cstr "OK"
    amountDiscarded := 0
    headers := [⟨cstr "SID",.sid,sid⟩,⟨cstr "TIMEOUT",.timeout,timeout⟩]
    entity := ⟨0,0⟩
    msg := [] }

/-- When the timer refuses the renewal, the subscription that is freed stays in the list. -/
theorem refusedRenewal_keeps_freed :
    ∃ r, genaSubscribe someSetup idleClient idleClient 1 (cstr "http://1.2.3.4/e") 1800
        ⟨true,leaseReply (cstr "uuid:p") (cstr "Second-1800"),cstr "c",
          { RenewEnv.calm with timer := ⟨false,true⟩ }⟩ = .ok r ∧
      r.ret = eoutofmem ∧ clientSubs idleClient 1 = some [] ∧ clientSubs r.state 1 = some [0] ∧
      r.state.subs = [none] ∧ ¬NoTrace 1 idleClient r.state := by
  have h : ∀ s', clientSubs s' 1 = some [0] → ¬NoTrace 1 idleClient s' := by
    intro s' hs hn
    have hl := hn.list
    rw [hs] at hl
    revert hl
    decide
  have hr : (genaSubscribe someSetup idleClient idleClient 1 (cstr "http://1.2.3.4/e") 1800
        ⟨true,leaseReply (cstr "uuid:p") (cstr "Second-1800"),cstr "c",
          { RenewEnv.calm with timer := ⟨false,true⟩ }⟩).toOption.map
        (fun r => (r.ret,clientSubs r.state 1,r.state.subs)) =
      some (eoutofmem,some [0],[none]) := by decide
  rcases Option.map_eq_some_iff.mp hr with ⟨r,hok,he⟩
  obtain ⟨hret,hlist,hsubs⟩ : r.ret = eoutofmem ∧ clientSubs r.state 1 = some [0] ∧
      r.state.subs = [none] := by
    simpa only [Prod.mk.injEq] using he
  refine ⟨r,?_,hret,by decide,hlist,hsubs,h _ hlist⟩
  cases hg : genaSubscribe someSetup idleClient idleClient 1 (cstr "http://1.2.3.4/e") 1800
      ⟨true,leaseReply (cstr "uuid:p") (cstr "Second-1800"),cstr "c",
        { RenewEnv.calm with timer := ⟨false,true⟩ }⟩ with
  | error f =>
    rw [hg] at hok
    cases hok
  | ok r' =>
    rw [hg] at hok
    rw [Option.some.inj hok]

end Subscriptions
end CtrlPt
