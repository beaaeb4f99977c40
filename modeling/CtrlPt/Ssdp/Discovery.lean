import CtrlPt.Http.Download
import CtrlPt.Http.Parser
import CtrlPt.Lib.CharArray
import CtrlPt.Ssdp.Search
import Mathlib.Data.List.ReduceOption

/-! Datagrams of `ssdp_server.c` and what `ssdp_handle_ctrlpt_msg` makes of them. -/
namespace CtrlPt
namespace Ssdp

open CText Http Memory Sdk

def lineSize : ℕ := 180

def ohmSearchType : List UInt8 := cstr "urn:device:ohm:1"

def ssdpHosts : List (List UInt8) :=
  [cstr "239.255.255.250:1900",cstr "[FF02::C]:1900",cstr "[ff02::c]:1900",
   cstr "[FF05::C]:1900",cstr "[ff05::c]:1900"]

def validSsdpMsg (hmsg : HttpMessage) : Bool :=
  if hmsg.method ≠ .notify ∧ hmsg.method ≠ .msearch ∧ hmsg.requestMethod ≠ .msearch then false
  else if hmsg.requestMethod ≠ .msearch then
    let path := hmsg.uri.pathquery.text
    if hmsg.uri.type ≠ .relative ∨ strncmp (cstr "*") path path.length ≠ 0 then false
    else ((findHdr hmsg.headers .host).map fun v => ssdpHosts.any fun h => memptrCmp v h == 0).getD false
  else true

/-- The parser `readFromSSDPSocket` fills; replies come to the socket of the searches. -/
def ssdpParser (searchSocket : Bool) (datagram : List UInt8) : HttpParser :=
  (if searchSocket then parserResponseInit .msearch else parserRequestInit).append datagram

/-- The message, when it is not thrown away. A NOTIFY needs no length. -/
def startEventHandler (res : Uri.Resolver) (p : HttpParser) : Option HttpMessage :=
  let r := parserParse res p
  let parsed :=
    if r.1 = .failure then r.2.msg.method = .notify ∧ r.2.validSsdpNotifyHack = true
    else r.1 = .success
  if parsed ∧ validSsdpMsg r.2.msg = true then some r.2.msg else none

/-- The message `ssdp_event_handler_thread` hands to the control point. -/
def ctrlptMessage (res : Uri.Resolver) (searchSocket : Bool) (datagram : List UInt8) :
    Option HttpMessage :=
  (startEventHandler res (ssdpParser searchSocket datagram)).filter fun hmsg =>
    hmsg.method == .notify || hmsg.requestMethod == .msearch

structure UpnpDiscovery where
  errCode : ℤ
  uid : CharArray lineSize
  deviceType : CharArray lineSize
  location : CharArray lineSize
  destAddr : Uri.SockAddr
  deriving DecidableEq

def emptyDiscovery : UpnpDiscovery :=
  ⟨0,CharArray.zero lineSize,CharArray.zero lineSize,CharArray.zero lineSize,
    Uri.SockAddr.cleared⟩

inductive DiscoveryEvent
  | advertisementAlive | advertisementByebye | searchResult | searchTimeout
  deriving DecidableEq, Repr

/-- A call of the callback `func` of the client. -/
structure Callback where
  func : ℕ
  event : DiscoveryEvent
  param : Option UpnpDiscovery
  cookie : ℕ
  deriving DecidableEq

structure ResultData where
  param : UpnpDiscovery
  cookie : ℕ
  ctrlptCallback : ℕ
  deriving DecidableEq

def sendSearchResult (data : ResultData) : Callback :=
  ⟨data.ctrlptCallback,.searchResult,some data.param,data.cookie⟩

def linecopylen (dest : CharArray lineSize) (src : List UInt8) (srclen : ℕ) :
    Except Fault (CharArray lineSize) := do
  let len := if srclen < lineSize-1 then srclen else lineSize-1
  let dest ← dest.strncpy src len
  dest.write len [0]

/-- A header goes to its cleared field with the length it has. -/
def copyHdr (headers : List HttpHeader) (id : HdrId) : Except Fault (CharArray lineSize) :=
  match findHdr headers id with
  | some v => (CharArray.zero lineSize).strncpy v v.length
  | none => .ok (CharArray.zero lineSize)

def copyLocation (location : CharArray lineSize) (headers : List HttpHeader) :
    Except Fault (CharArray lineSize) := do
  let location ← location.write 0 [0]
  match findHdr headers .location with
  | some v => linecopylen location v v.length
  | none => .ok location

/-- `stack` is what `param` held before. -/
def discoveryParam (stack : UpnpDiscovery) (destAddr : Uri.SockAddr) (headers : List HttpHeader) :
    Except Fault UpnpDiscovery := do
  let location ← copyLocation stack.location headers
  let deviceType ← copyHdr headers .dt
  let uid ← copyHdr headers .uid
  .ok ⟨upnpESuccess,uid,deviceType,location,destAddr⟩

def isOhm (v : List UInt8) : Bool := strncmp v ohmSearchType ohmSearchType.length == 0

/-- What a message is good for. -/
inductive Verdict
  | drop
  | advertise (event : DiscoveryEvent)
  | reply (st : List UInt8)
  deriving DecidableEq, Repr

def judgeAdvert (headers : List HttpHeader) (param : UpnpDiscovery) : Except Fault Verdict :=
  let ntFound := ((findHdr headers .nt).map isOhm).getD false
  match findHdr headers .nts with
  | none => .ok .drop
  | some v =>
    if memptrCmp v (cstr "ssdp:alive") = 0 then
      if ntFound = false then .ok .drop
      else do
        let n ← param.location.strlen
        .ok (if n = 0 then .drop else .advertise .advertisementAlive)
    else if memptrCmp v (cstr "ssdp:byebye") = 0 then
      .ok (if ntFound then .advertise .advertisementByebye else .drop)
    else .ok .drop

def judgeReply (hmsg : HttpMessage) (param : UpnpDiscovery) : Except Fault Verdict :=
  if hmsg.statusCode ≠ 200 then .ok .drop
  else do
    let n ← param.location.strlen
    match findHdr hmsg.headers .st with
    | some st => .ok (if n ≠ 0 ∧ isOhm st = true then .reply st else .drop)
    | none => .ok .drop

def judgeMsg (hmsg : HttpMessage) (param : UpnpDiscovery) : Except Fault Verdict :=
  if hmsg.isRequest then judgeAdvert hmsg.headers param else judgeReply hmsg param

/-- Whether a search is answered; its target may be a null pointer. -/
def matchSearch (arg : SsdpSearchArg) (st : List UInt8) : Except Fault Bool :=
  let compare (n : List UInt8 → ℕ) : Except Fault Bool :=
    match arg.searchTarget with
    | some target => .ok (strncmp target st (n target) == 0)
    | none => .error .load
  match arg.requestType with
  | .all => .ok true
  | .deviceudn => compare fun _ => st.length
  | .devicetype | .service => compare fun target => min st.length target.length
  | _ => .ok false

/-- The walk over the searches, with the job each one gets. `taken` is whether the job of a search
could be allocated and added to the pool. -/
def queueResults (callback : ℕ) (param : UpnpDiscovery) (st : List UInt8) :
    List SsdpSearchArg → List Bool → Except Fault (List (Option ResultData))
  | [], _ => .ok []
  | arg::rest, taken => do
    let matched ← matchSearch arg st
    let jobs ← queueResults callback param st rest taken.tail
    .ok ((if matched && taken.headD true then some ⟨param,arg.cookie,callback⟩ else none)::jobs)

/-- What a message has led to where the handle lock is taken again. -/
inductive Begun
  | made (callbacks : List Callback)
  | reply (callback : ℕ) (param : UpnpDiscovery) (st : List UInt8)
  deriving DecidableEq

/-- `ssdp_handle_ctrlpt_msg` up to the walk over the searches. -/
def beginMsg (handleTable : List (Option HandleInfo)) (stack : UpnpDiscovery)
    (destAddr : Uri.SockAddr) (hmsg : HttpMessage) (timeout : Bool) (cookie : ℕ) :
    Except Fault Begun :=
  match getClientHandleInfo handleTable with
  | none => .ok (.made [])
  | some (_,info) =>
    if timeout then .ok (.made [⟨info.callback,.searchTimeout,none,cookie⟩])
    else do
      let param ← discoveryParam stack destAddr hmsg.headers
      let verdict ← judgeMsg hmsg param
      .ok (match verdict with
        | .drop => .made []
        | .advertise event => .made [⟨info.callback,event,some param,info.cookie⟩]
        | .reply st => .reply info.callback param st)

def finishReply (handleTable : List (Option HandleInfo)) (callback : ℕ) (param : UpnpDiscovery)
    (st : List UInt8) (taken : List Bool) : Except Fault (List (Option ResultData)) :=
  match getClientHandleInfo handleTable with
  | none => .ok []
  | some (_,info) => queueResults callback param st info.ssdpSearchList taken

/-- The callbacks that are made and the jobs that are added to `gRecvThreadPool`. The handle table
is read twice, as `first` and as `second`. -/
def ssdpHandleCtrlptMsg (first second : List (Option HandleInfo)) (stack : UpnpDiscovery)
    (destAddr : Uri.SockAddr) (hmsg : HttpMessage) (timeout : Bool) (cookie : ℕ)
    (taken : List Bool) : Except Fault (List Callback × List ResultData) := do
  let begun ← beginMsg first stack destAddr hmsg timeout cookie
  match begun with
  | .made callbacks => .ok (callbacks,[])
  | .reply callback param st => do
    let jobs ← finishReply second callback param st taken
    .ok ([],jobs.reduceOption)

end Ssdp
end CtrlPt
