import CtrlPt.Gena.Subscribe
import CtrlPt.Lib.Transition

/-! The GENA calls of the control point side by side. A step is a region under the handle lock,
which is given up for every exchange with a publisher, or a round of the timer thread. -/
namespace CtrlPt
namespace Subscriptions

open CText Http Memory Sdk Thread

def getClientSubClientSid (subs : List (Option ClientSubscription)) (sid : List UInt8) :
    List ℕ → Except Fault (Option ℕ)
  | [] => .ok none
  | a::list => do
    let sub ← readSub subs a
    if sub.sid = sid then .ok (some a) else getClientSubClientSid subs sid list

def removeEvent (s : State) (id : ℤ) : State :=
  { s with
    gTimerThread := (timerThreadRemove s.gTimerThread id).2
    valid := s.valid.remove id }

def freeSubscription (s : State) (a : ℕ) (sub : ClientSubscription) : State :=
  let s := if sub.renewEventId ≠ -1 then removeEvent s sub.renewEventId else s
  { s with subs := s.subs.set a none }

/-- `RemoveClientSubClientSID`: the list without its first subscription with the SID, which is
freed. -/
def removeClientSubClientSid (s : State) (sid : List UInt8) :
    List ℕ → Except Fault (List ℕ × State)
  | [] => .ok ([],s)
  | a::list => do
    let sub ← readSub s.subs a
    if sub.sid = sid then .ok (list,freeSubscription s a sub)
    else do
      let r ← removeClientSubClientSid s sid list
      .ok (a::r.1,r.2)

def removeSubscription (s : State) (hnd : ℤ) (info : HandleInfo) (sid : List UInt8) :
    Except Fault State := do
  let r ← removeClientSubClientSid s sid info.clientSubList
  .ok { r.2 with
    handleTable := setHandleInfo r.2.handleTable hnd { info with clientSubList := r.1 } }

/-- `UpnpClientSubscription_assign`: the copy has no event. -/
def copySubscription (sub : ClientSubscription) : ClientSubscription :=
  { sub with renewEventId := -1 }

/-- `genaRenewSubscription` up to the exchange: an error, or the copy it goes on with. -/
def beginRenew (s : State) (hnd : ℤ) (inSid : List UInt8) :
    Except Fault (Except ℤ ClientSubscription × State) :=
  match getHandleInfo s.handleTable hnd with
  | none => .ok (.error upnpEInvalidHandle,s)
  | some info => do
    match ← getClientSubClientSid s.subs inSid info.clientSubList with
    | none => .ok (.error upnpEInvalidSid,s)
    | some a => do
      let sub ← readSub s.subs a
      let s := removeEvent s sub.renewEventId
      .ok (.ok (copySubscription sub),{ s with subs := s.subs.set a (some (copySubscription sub)) })

def finishRenew (s : State) (hnd : ℤ) (inSid : List UInt8) (answer : GenaAnswer) (env : RenewEnv) :
    Except Fault RenewResult :=
  match getHandleInfo s.handleTable hnd with
  | none => .ok ⟨upnpEInvalidHandle,none,s⟩
  | some info =>
    if answer.ret ≠ upnpESuccess then do
      let s ← removeSubscription s hnd info inSid
      .ok ⟨answer.ret,none,s⟩
    else do
      match ← getClientSubClientSid s.subs inSid info.clientSubList with
      | none => .ok ⟨upnpEInvalidSid,none,s⟩
      | some a => do
        let sub ← readSub s.subs a
        let s : State := { s with subs := s.subs.set a (some { sub with actualSid := answer.sid }) }
        let scheduled ← scheduleGenaAutoRenew s hnd answer.timeout a env
        if scheduled.ret ≠ upnpESuccess then do
          let s ← removeSubscription scheduled.state hnd info sub.sid
          .ok { scheduled with state := s }
        else .ok scheduled

/-- `genaUnSubscribe` up to the exchange, which needs only a copy. -/
def beginUnSubscribe (s : State) (hnd : ℤ) (inSid : List UInt8) :
    Except Fault (Except ℤ ClientSubscription) :=
  match getHandleInfo s.handleTable hnd with
  | none => .ok (.error upnpEInvalidHandle)
  | some info => do
    match ← getClientSubClientSid s.subs inSid info.clientSubList with
    | none => .ok (.error upnpEInvalidSid)
    | some a => do
      let sub ← readSub s.subs a
      .ok (.ok (copySubscription sub))

def finishUnSubscribe (s : State) (hnd : ℤ) (inSid : List UInt8) : Except Fault State :=
  match getHandleInfo s.handleTable hnd with
  | none => .ok s
  | some info => removeSubscription s hnd info inSid

/-- Where a round of `genaUnregisterClient` ends. -/
inductive UnregisterRound
  | returned (ret : ℤ)
  /-- In the exchange for the subscription that was taken out. -/
  | unsubscribing (copy : ClientSubscription)
  deriving DecidableEq, Repr

def unregisterRound (s : State) (hnd : ℤ) : Except Fault (UnregisterRound × State) :=
  match getHandleInfo s.handleTable hnd with
  | none => .ok (.returned upnpEInvalidHandle,s)
  | some info =>
    match info.clientSubList with
    | [] => .ok (.returned upnpESuccess,s)
    | a::_ => do
      let sub ← readSub s.subs a
      let s ← removeSubscription s hnd info sub.sid
      .ok (.unsubscribing (copySubscription sub),s)

def freeHandle (s : State) (hnd : ℤ) : State :=
  { s with handleTable := s.handleTable.set hnd.toNat none }

def getFreeHandle (handleTable : List (Option HandleInfo)) : Option ℤ :=
  ((List.range numHandle.toNat).find? fun i =>
    0 < i ∧ (getHandleInfo handleTable i).isNone = true).map fun i => (i : ℤ)

/-- A call that is not under the handle lock: in an exchange, between `genaUnregisterClient` and
`FreeHandle`, or a renewal the timer thread has handed to the pool. `auto` is the time at which an
automatic renewal began. -/
inductive Call
  | subscribing (hnd : ℤ) (publisherUrl : List UInt8) (timeOut : ℤ)
  | renewing (hnd : ℤ) (inSid : List UInt8) (timeOut : ℤ) (copy : ClientSubscription)
      (auto : Option ℤ)
  | unsubscribing (hnd : ℤ) (inSid : List UInt8)
  | unregistering (hnd : ℤ)
  | unregistered (hnd : ℤ)
  | fired (id : ℤ) (event : UpnpTimeout)
  deriving DecidableEq, Repr

/-- A lease whose renewal was scheduled: the timeout that was granted, when, and the automatic
renewal it was granted to, if it was one. -/
structure Lease where
  eventId : ℤ
  since : ℤ
  timeOut : ℤ
  delay : ℤ
  renewal : Option ℤ
  deriving DecidableEq, Repr

/-- Everything together. `passed`, `leases` and `renewals` record what was done: the timeouts and
delays `TimerThreadSchedule` was called with, the leases, and the automatic renewals by the id of
their event and the time they began at. -/
structure System where
  sdk : State
  clientRegistered : Bool
  now : ℤ
  calls : List Call
  passed : List (ℤ × ℤ)
  leases : List Lease
  renewals : List (ℤ × ℤ)
  deriving DecidableEq

def System.init : System where
  sdk := ⟨List.replicate numHandle.toNat none,[],[],TimerThread.init,TimerThread.Valid.init⟩
  clientRegistered := false
  now := 0
  calls := []
  passed := []
  leases := []
  renewals := []

inductive Event
  | tick (now : ℤ)
  | register (callback cookie : ℕ)
  | subscribe (hnd : ℤ) (publisherUrl : List UInt8) (timeOut : ℤ)
  | subscribed (i : ℕ) (env : SubscribeEnv)
  | renew (hnd : ℤ) (inSid : List UInt8) (timeOut : ℤ)
  | renewed (i : ℕ) (reply : Reply) (env : RenewEnv)
  | unSubscribe (hnd : ℤ) (inSid : List UInt8)
  | unregister (hnd : ℤ)
  /-- A call that needs no reply goes on. -/
  | proceed (i : ℕ)
  /-- The pool takes the job of the next event, or refuses it. -/
  | expire (accepted : Bool)
  | autoRenew (i : ℕ)
  /-- A search has its event scheduled. -/
  | search (id : ℕ) (timeTillRead : ℤ) (alloc : TimerAlloc)
  deriving DecidableEq, Repr

def System.record (x : System) (timeOut : ℤ) (auto : Option ℤ) : Option TimerCall → System
  | none => x
  | some c => { x with
      passed := (timeOut,c.delay)::x.passed
      leases := if c.rc = 0 then ⟨c.id,x.now,timeOut,c.delay,auto⟩::x.leases else x.leases }

def System.begin (x : System) (s : State) (call : Call) : System :=
  { x with sdk := s, calls := call::x.calls }

def System.finish (x : System) (s : State) (i : ℕ) : System :=
  { x with sdk := s, calls := x.calls.eraseIdx i }

/-- A fault ends the run. -/
def stepSubscribed (sys : Setup) (x : System) (i : ℕ) (env : SubscribeEnv) : Call → Option System
  | .subscribing hnd publisherUrl timeOut =>
    ((exchangeSubscribe sys publisherUrl timeOut none env.reply).bind fun answer =>
      finishSubscribe x.sdk hnd publisherUrl answer
        { env with renew := { env.renew with now := x.now } }).toOption.map fun r =>
      (x.finish r.state i).record r.timeOut none r.call
  | _ => none

def stepRenewed (sys : Setup) (x : System) (i : ℕ) (reply : Reply) (env : RenewEnv) :
    Call → Option System
  | .renewing hnd inSid timeOut copy auto =>
    ((exchangeSubscribe sys copy.eventUrl timeOut (some copy.actualSid) reply).bind fun answer =>
      (finishRenew x.sdk hnd inSid answer { env with now := x.now }).map fun r =>
        (x.finish r.state i).record answer.timeout auto r.call).toOption
  | _ => none

def stepRenew (x : System) (hnd : ℤ) (inSid : List UInt8) (timeOut : ℤ) (auto : Option ℤ) :
    Option System :=
  (beginRenew x.sdk hnd inSid).toOption.map fun r =>
    match r.1 with
    | .ok copy => x.begin r.2 (.renewing hnd inSid timeOut copy auto)
    | .error _ => { x with sdk := r.2 }

/-- The fired job is `GenaAutoRenewSubscription`. -/
def stepAutoRenew (x : System) (i : ℕ) : Call → Option System
  | .fired id event =>
    stepRenew { x with
      calls := x.calls.eraseIdx i
      renewals := (id,x.now)::x.renewals } event.handle event.sid event.timeOut (some x.now)
  | _ => none

def stepUnregister (x : System) (hnd : ℤ) : Option System :=
  (unregisterRound x.sdk hnd).toOption.map fun r =>
    match r.1 with
    | .unsubscribing _ => x.begin r.2 (.unregistering hnd)
    | .returned ret =>
      if ret = upnpESuccess then x.begin r.2 (.unregistered hnd) else { x with sdk := r.2 }

def stepCall (x : System) (i : ℕ) : Call → Option System
  | .unsubscribing hnd inSid =>
    (finishUnSubscribe x.sdk hnd inSid).toOption.map fun s => x.finish s i
  | .unregistering hnd => stepUnregister { x with calls := x.calls.eraseIdx i } hnd
  | .unregistered hnd =>
    if (getHandleInfo x.sdk.handleTable hnd).isSome then
      some { x.finish (Subscriptions.freeHandle x.sdk hnd) i with clientRegistered := false }
    else some (x.finish x.sdk i)
  | _ => none

def stepExpire (x : System) (accepted : Bool) : Option System :=
  (dispatch x.sdk x.now).map fun r =>
    match r.1.job with
    | .genaAutoRenewSubscription event =>
      if accepted then x.begin r.2 (.fired r.1.id event) else { x with sdk := r.2 }
    | .searchExpired _ => { x with sdk := r.2 }

def stepRegister (x : System) (callback cookie : ℕ) : System :=
  if x.clientRegistered then x
  else
    match getFreeHandle x.sdk.handleTable with
    | none => x
    | some hnd =>
      { x with
        clientRegistered := true
        sdk := { x.sdk with
          handleTable := setHandleInfo x.sdk.handleTable hnd ⟨callback,cookie,[],[]⟩ } }

def step (sys : Setup) (x : System) : Event → Option System
  | .tick now => if x.now ≤ now then some { x with now := now } else none
  | .register callback cookie => some (stepRegister x callback cookie)
  | .subscribe hnd publisherUrl timeOut =>
    match getHandleInfo x.sdk.handleTable hnd with
    | none => some x
    | some _ => some (x.begin x.sdk (.subscribing hnd publisherUrl timeOut))
  | .subscribed i env => (x.calls[i]?).bind (stepSubscribed sys x i env)
  | .renew hnd inSid timeOut => stepRenew x hnd inSid timeOut none
  | .renewed i reply env => (x.calls[i]?).bind (stepRenewed sys x i reply env)
  | .unSubscribe hnd inSid =>
    (beginUnSubscribe x.sdk hnd inSid).toOption.map fun r =>
      match r with
      | .ok _ => x.begin x.sdk (.unsubscribing hnd inSid)
      | .error _ => x
  | .unregister hnd => if x.clientRegistered then stepUnregister x hnd else some x
  | .proceed i => (x.calls[i]?).bind (stepCall x i)
  | .expire accepted => stepExpire x accepted
  | .autoRenew i => (x.calls[i]?).bind (stepAutoRenew x i)
  | .search id timeTillRead alloc =>
    let scheduled := timerThreadSchedule x.sdk.gTimerThread x.now timeTillRead .relSec
      (.searchExpired id) .shortTerm alloc
    some { x with sdk := { x.sdk with gTimerThread := scheduled.timer, valid := x.sdk.valid.schedule } }

end Subscriptions
end CtrlPt
