import CtrlPt.Http.MakeMessage
import CtrlPt.Lib.Memory
import CtrlPt.Sdk
import CtrlPt.Uri.Dots

/-! `SearchByTarget`: the request packets, the search list of the client and the event that ends
the search. -/
namespace CtrlPt
namespace Ssdp

open CText Memory Sdk Thread

def commandLen : ℕ := 300
def bufSize : ℕ := 2500
def numSsdpCopy : ℕ := 2
def minSearchTime : ℤ := 2
def maxSearchTime : ℤ := 80

def ssdpIp : List UInt8 := cstr "239.255.255.250"
def ssdpIpv6Linklocal : List UInt8 := cstr "FF02::C"
def ssdpIpv6Sitelocal : List UInt8 := cstr "FF05::C"
def ssdpPort : ℤ := 1900

def ssdpRequestType1 (cmd : List UInt8) : SsdpSearchType :=
  if (strstr cmd (cstr ":all")).isSome then .all
  else if (strstr cmd (cstr "urn:")).isSome ∧ (strstr cmd (cstr ":device:")).isSome then .devicetype
  else .serror

/-- `snprintf` to `TempBuf`, whose result is compared with its size. -/
def printTemp (text : List UInt8) : Except ℤ (List UInt8) :=
  if commandLen ≤ text.length then .error upnpEInternalError else .ok text

/-- `strcat` to `RqstBuf`, when it fits with its NUL. -/
def catRequest (rqstBufSize : ℕ) (rqst text : List UInt8) : Except ℤ (List UInt8) :=
  if rqstBufSize ≤ rqst.length+text.length then .error upnpEBufferTooSmall else .ok (rqst++text)

def hostLine (ipv6 : List UInt8) : Uri.Family → Except ℤ (List UInt8)
  | .inet => printTemp (cstr "HOST: "++ssdpIp++cstr ":"++Http.printInt ssdpPort++cstr "\r\n")
  | .inet6 => printTemp (cstr "HOST: ["++ipv6++cstr "]:"++Http.printInt ssdpPort++cstr "\r\n")
  | _ => .error upnpEInvalidArgument

/-- The line of `MX`, if it is positive. -/
def catMx (rqstBufSize : ℕ) (mx : ℤ) (rqst : List UInt8) : Except ℤ (List UInt8) :=
  if 0 < mx then do
    let line ← printTemp (cstr "MX: "++Http.printInt mx++cstr "\r\n")
    catRequest rqstBufSize rqst line
  else .ok rqst

/-- The line of `ST`, if the target is not NULL. -/
def catTarget (rqstBufSize : ℕ) (rqst : List UInt8) :
    Option (List UInt8) → Except ℤ (List UInt8)
  | some target => do
    let line ← printTemp (cstr "ST: "++target++cstr "\r\n")
    catRequest rqstBufSize rqst line
  | none => .ok rqst

/-- The packet with the address `ipv6` as its host if the family is `AF_INET6`. -/
def requestPacket (ipv6 : List UInt8) (rqstBufSize : ℕ) (mx : ℤ) (searchTarget : Option (List UInt8))
    (addressFamily : Uri.Family) : Except ℤ (List UInt8) :=
  let command := cstr "M-SEARCH * HTTP/1.1\r\n"
  let man := cstr "MAN: \"ssdp:discover\"\r\n"
  if rqstBufSize ≤ command.length then .error upnpEInternalError
  else do
    let host ← hostLine ipv6 addressFamily
    let rqst ← catRequest rqstBufSize command host
    let rqst ← catRequest rqstBufSize rqst man
    let rqst ← catMx rqstBufSize mx rqst
    let rqst ← catTarget rqstBufSize rqst searchTarget
    catRequest rqstBufSize rqst (cstr "\r\n")

def createClientRequestPacket : ℕ → ℤ → Option (List UInt8) → Uri.Family → Except ℤ (List UInt8) :=
  requestPacket ssdpIpv6Linklocal

def createClientRequestPacketUlaGua :
    ℕ → ℤ → Option (List UInt8) → Uri.Family → Except ℤ (List UInt8) :=
  requestPacket ssdpIpv6Sitelocal

/-- `ReqBufv4`, and `ReqBufv6` and `ReqBufv6UlaGua` of a build with IPv6. -/
structure RequestBuffers where
  reqBufv4 : List UInt8
  ipv6 : Option (List UInt8 × List UInt8)
  deriving DecidableEq, Repr

def createRequests (ipv6 : Bool) (mx : ℤ) (st : List UInt8) : Except ℤ RequestBuffers := do
  let reqBufv4 ← createClientRequestPacket bufSize mx (some st) .inet
  if ipv6 then do
    let reqBufv6 ← createClientRequestPacket bufSize mx (some st) .inet6
    let reqBufv6UlaGua ← createClientRequestPacketUlaGua bufSize mx (some st) .inet6
    .ok ⟨reqBufv4,some (reqBufv6,reqBufv6UlaGua)⟩
  else .ok ⟨reqBufv4,none⟩

def timeTillRead (mx : ℤ) : ℤ :=
  if mx < minSearchTime then minSearchTime else if maxSearchTime < mx then maxSearchTime else mx

/-- What the system answers: the allocations of the search, of its target, of the id and of the
list node, those of the timer, the time, whether `select` succeeds and which sockets can be
written. -/
structure SearchEnv where
  newArg : Bool
  searchTarget : Bool
  id : Bool
  timer : TimerAlloc
  node : Bool
  now : ℤ
  select : Bool
  writable4 : Bool
  writable6 : Bool
  deriving DecidableEq, Repr

def SearchEnv.calm : SearchEnv := ⟨true,true,true,⟨true,true⟩,true,0,true,true,true⟩

/-- The datagrams and the addresses they go to. -/
def datagrams (env : SearchEnv) (bufs : RequestBuffers) : List (List UInt8 × List UInt8) :=
  (if env.writable6 then
    (bufs.ipv6.map fun b =>
      List.replicate numSsdpCopy (ssdpIpv6Sitelocal,b.2)++
        List.replicate numSsdpCopy (ssdpIpv6Linklocal,b.1)).getD []
  else [])++
  if env.writable4 then List.replicate numSsdpCopy (ssdpIp,bufs.reqBufv4) else []

/-- What is returned, what is left of the state, and what is sent. -/
structure SearchResult where
  ret : ℤ
  state : State
  sent : List (List UInt8 × List UInt8)
  deriving DecidableEq

/-- The search is listed and its event scheduled; neither result is looked at. -/
def addSearch (s : State) (handle : ℤ) (info : HandleInfo) (mx : ℤ) (st : List UInt8) (cookie : ℕ)
    (env : SearchEnv) : State :=
  let scheduled := timerThreadSchedule s.gTimerThread env.now (timeTillRead mx) .relSec
    (.searchExpired s.ids.length) .shortTerm env.timer
  let newArg : SsdpSearchArg :=
    ⟨scheduled.id,if env.searchTarget then some st else none,cookie,ssdpRequestType1 st⟩
  { s with
    handleTable := setHandleInfo s.handleTable handle { info with
      ssdpSearchList :=
        if env.node then info.ssdpSearchList++[newArg] else info.ssdpSearchList }
    ids := s.ids++[some scheduled.id]
    gTimerThread := scheduled.timer
    valid := s.valid.schedule }

/-- A null pointer is written or read when an allocation fails. -/
def searchByTarget (ipv6 : Bool) (s : State) (mx : ℤ) (st : List UInt8) (cookie : ℕ)
    (env : SearchEnv) : Except Fault SearchResult :=
  if ssdpRequestType1 st = .serror then .ok ⟨upnpEInvalidParam,s,[]⟩
  else
    match createRequests ipv6 (timeTillRead mx) st with
    | .error e => .ok ⟨e,s,[]⟩
    | .ok bufs =>
      match getClientHandleInfo s.handleTable with
      | none => .ok ⟨upnpEInternalError,s,[]⟩
      | some (handle,info) =>
        if env.newArg = false then .error .store
        else if env.id = false then .error .load
        else if env.select = false then
          .ok ⟨upnpEInternalError,addSearch s handle info mx st cookie env,[]⟩
        else .ok ⟨1,addSearch s handle info mx st cookie env,datagrams env bufs⟩

def searchList (s : State) : Option (List SsdpSearchArg) :=
  (getClientHandleInfo s.handleTable).map fun client => client.2.ssdpSearchList

/-- The ids a pending event gives to `searchExpired`. -/
def expires (s : State) (id : ℤ) (e : TimerEvent TimerJob) : Bool :=
  match e.job with
  | .searchExpired a => e.id == id && s.ids[a]? == some (some id)
  | _ => false

/-- A search that fails leaves the list and the timer queue alone; one that succeeds adds an entry
and the one event that ends it. -/
structure AllOrNothing (s : State) (r : SearchResult) : Prop where
  nothing : r.ret ≠ 1 → searchList r.state = searchList s ∧
    r.state.gTimerThread.eventQ = s.gTimerThread.eventQ
  all : r.ret = 1 → ∃ searches arg, searchList s = some searches ∧
    searchList r.state = some (searches++[arg]) ∧
    (∃ e, r.state.gTimerThread.eventQ.Perm (e::s.gTimerThread.eventQ) ∧
      expires r.state arg.timeoutEventId e = true) ∧
    (∀ e ∈ s.gTimerThread.eventQ, e.id ≠ arg.timeoutEventId) ∧
    ∀ b ∈ searches, b.timeoutEventId ≠ arg.timeoutEventId

/-- The timer takes the event. -/
def Schedules (env : SearchEnv) : Prop := env.timer.event = true ∧ env.timer.node = true

/-- The search ends before anything is added, or its pointers are null, or every step succeeds
and the id is not in the list yet, or none of the steps does. -/
def Completes (ipv6 : Bool) (s : State) (mx : ℤ) (st : List UInt8) (env : SearchEnv) : Prop :=
  ssdpRequestType1 st = .serror ∨ (∀ bufs, createRequests ipv6 (timeTillRead mx) st ≠ .ok bufs) ∨
    searchList s = none ∨ env.newArg = false ∨ env.id = false ∨
    (Schedules env ∧ env.node = true ∧ env.select = true ∧
      ∀ searches ∈ searchList s, ∀ b ∈ searches, b.timeoutEventId ≠ s.gTimerThread.lastEventId) ∨
    ¬Schedules env ∧ env.node = false ∧ env.select = false

section

variable {ipv6 : Bool} {s : State} {mx : ℤ} {st : List UInt8} {cookie : ℕ} {env : SearchEnv}

theorem createRequests_error {e : ℤ} (h : createRequests ipv6 mx st = .error e) :
    ∀ bufs, createRequests ipv6 mx st ≠ .ok bufs := by
  intro bufs hb
  rw [h] at hb
  cases hb

theorem AllOrNothing.early {ret : ℤ} (h : ret ≠ 1) : AllOrNothing s ⟨ret,s,[]⟩ where
  nothing := fun _ => ⟨rfl,rfl⟩
  all := fun h' => absurd h' h

variable {handle : ℤ} {info : HandleInfo}

theorem searchList_some (h : getClientHandleInfo s.handleTable = some (handle,info)) :
    searchList s = some info.ssdpSearchList := by
  rw [searchList,h]
  rfl

theorem searchList_add (mx : ℤ) (st : List UInt8) (cookie : ℕ) (env : SearchEnv)
    (h : getClientHandleInfo s.handleTable = some (handle,info)) :
    searchList (addSearch s handle info mx st cookie env) =
      some (if env.node then info.ssdpSearchList++
        [⟨(timerThreadSchedule s.gTimerThread env.now (timeTillRead mx) .relSec
            (.searchExpired s.ids.length) .shortTerm env.timer).id,
          if env.searchTarget then some st else none,cookie,ssdpRequestType1 st⟩]
        else info.ssdpSearchList) := by
  rw [searchList,addSearch]
  simp only [getClientHandleInfo_set h,Option.map_some]

theorem eventQ_add_fail (h : ¬Schedules env) :
    (addSearch s handle info mx st cookie env).gTimerThread.eventQ = s.gTimerThread.eventQ :=
  (timerThreadSchedule_fail _ _ _ _ _ _ h).2

/-- The event that is scheduled, and its id in the list entry and where its argument points. -/
theorem eventQ_add (s : State) (handle : ℤ) (info : HandleInfo) (mx : ℤ) (st : List UInt8)
    (cookie : ℕ) (h : Schedules env) :
    ∃ e, (addSearch s handle info mx st cookie env).gTimerThread.eventQ.Perm
        (e::s.gTimerThread.eventQ) ∧
      expires (addSearch s handle info mx st cookie env) s.gTimerThread.lastEventId e = true := by
  have hsch := timerThreadSchedule_ok s.gTimerThread env.now (timeTillRead mx) .relSec
    (.searchExpired s.ids.length) .shortTerm h
  refine ⟨⟨.searchExpired s.ids.length,.shortTerm,
    calculateEventTime env.now (timeTillRead mx) .relSec,s.gTimerThread.lastEventId⟩,?_,?_⟩
  · rw [addSearch]
    simp only [hsch]
    exact EventQueue.insert_perm _ _
  · rw [addSearch]
    simp only [hsch,expires,beq_self_eq_true,Bool.true_and]
    rw [List.getElem?_append_right le_rfl,Nat.sub_self]
    exact beq_self_eq_true _

theorem addSearch_success (h : getClientHandleInfo s.handleTable = some (handle,info))
    (sent : List (List UInt8 × List UInt8)) :
    AllOrNothing s ⟨1,addSearch s handle info mx st cookie env,sent⟩ ↔
      Schedules env ∧ env.node = true ∧
        ∀ b ∈ info.ssdpSearchList, b.timeoutEventId ≠ s.gTimerThread.lastEventId := by
  have hlist := searchList_add mx st cookie env h
  constructor
  · intro hall
    rcases hall.all rfl with ⟨searches,arg,hs,hs',⟨e,hperm,-⟩,-,hfresh⟩
    rw [searchList_some h,Option.some.injEq] at hs
    subst hs
    have hsch : Schedules env := by
      by_contra hn
      rw [eventQ_add_fail hn] at hperm
      have := hperm.length_eq
      simp at this
    rw [hlist,Option.some.injEq] at hs'
    have hnode : env.node = true := by
      by_contra hn
      rw [if_neg hn] at hs'
      have := congrArg List.length hs'
      simp at this
    rw [if_pos hnode,timerThreadSchedule_ok _ _ _ _ _ _ hsch] at hs'
    have harg := List.append_cancel_left hs'
    rw [← (List.cons.inj harg).1] at hfresh
    exact ⟨hsch,hnode,hfresh⟩
  · rintro ⟨hsch,hnode,hfresh⟩
    refine ⟨fun hne => absurd rfl hne,fun _ => ?_⟩
    rw [if_pos hnode,timerThreadSchedule_ok _ _ _ _ _ _ hsch] at hlist
    refine ⟨_,_,searchList_some h,hlist,eventQ_add s handle info mx st cookie hsch,?_,hfresh⟩
    intro e he
    exact (s.valid.stamped e he).2.ne

theorem addSearch_failure (h : getClientHandleInfo s.handleTable = some (handle,info)) {ret : ℤ}
    (hret : ret ≠ 1) (sent : List (List UInt8 × List UInt8)) :
    AllOrNothing s ⟨ret,addSearch s handle info mx st cookie env,sent⟩ ↔
      ¬Schedules env ∧ env.node = false := by
  have hlist := searchList_add mx st cookie env h
  constructor
  · intro hall
    rcases hall.nothing hret with ⟨hs,hq⟩
    constructor
    · intro hsch
      rcases eventQ_add s handle info mx st cookie hsch with ⟨e,hperm,-⟩
      have := hperm.length_eq
      rw [hq] at this
      simp at this
    · by_contra hn
      rw [Bool.not_eq_false] at hn
      rw [hlist,searchList_some h,Option.some.injEq,if_pos hn] at hs
      have := congrArg List.length hs
      simp at this
  · rintro ⟨hsch,hnode⟩
    refine ⟨fun _ => ⟨?_,eventQ_add_fail hsch⟩,fun h' => absurd h' hret⟩
    rw [hlist,searchList_some h,hnode]
    rfl

theorem bind_error_ne {α β : Type} {x : Except ℤ α} {f : α → Except ℤ β}
    (hx : ∀ e, x = .error e → e ≠ 1) (hf : ∀ a e, f a = .error e → e ≠ 1) :
    ∀ e, (x >>= f) = .error e → e ≠ 1 := by
  intro e h
  cases x with
  | error e' =>
    cases h
    exact hx e rfl
  | ok a => exact hf a e h

theorem printTemp_ne (text : List UInt8) : ∀ e, printTemp text = .error e → e ≠ 1 := by
  intro e h
  unfold printTemp at h
  split at h
  · cases h
    decide
  · cases h

theorem catRequest_ne (n : ℕ) (rqst text : List UInt8) :
    ∀ e, catRequest n rqst text = .error e → e ≠ 1 := by
  intro e h
  unfold catRequest at h
  split at h
  · cases h
    decide
  · cases h

theorem requestPacket_ne (addr : List UInt8) (n : ℕ) (m : ℤ) (target : Option (List UInt8))
    (family : Uri.Family) : ∀ e, requestPacket addr n m target family = .error e → e ≠ 1 := by
  intro e h
  unfold requestPacket at h
  dsimp only at h
  split at h
  · cases h
    decide
  revert e h
  refine bind_error_ne ?_ fun host => bind_error_ne (catRequest_ne _ _ _) fun rqst =>
    bind_error_ne (catRequest_ne _ _ _) fun rqst => bind_error_ne ?_ fun rqst =>
      bind_error_ne ?_ fun rqst => catRequest_ne _ _ _
  · intro e h
    unfold hostLine at h
    split at h
    · exact printTemp_ne _ e h
    · exact printTemp_ne _ e h
    · cases h
      decide
  · unfold catMx
    split
    · exact bind_error_ne (printTemp_ne _) fun line => catRequest_ne _ _ _
    · rintro e ⟨⟩
  · cases target with
    | some target => exact bind_error_ne (printTemp_ne _) fun line => catRequest_ne _ _ _
    | none => rintro e ⟨⟩

theorem createRequests_ne : ∀ e, createRequests ipv6 mx st = .error e → e ≠ 1 := by
  unfold createRequests
  refine bind_error_ne (requestPacket_ne _ _ _ _ _) fun reqBufv4 => ?_
  split
  · exact bind_error_ne (requestPacket_ne _ _ _ _ _) fun reqBufv6 =>
      bind_error_ne (requestPacket_ne _ _ _ _ _) fun reqBufv6UlaGua => by rintro e ⟨⟩
  · rintro e ⟨⟩

/-- A search is all or nothing exactly when it completes. -/
theorem searchByTarget_allOrNothing_iff (ipv6 : Bool) (s : State) (mx : ℤ) (st : List UInt8)
    (cookie : ℕ) (env : SearchEnv) :
    (∀ r, searchByTarget ipv6 s mx st cookie env = .ok r → AllOrNothing s r) ↔
      Completes ipv6 s mx st env := by
  unfold searchByTarget
  by_cases htype : ssdpRequestType1 st = .serror
  · rw [if_pos htype]
    refine iff_of_true ?_ (.inl htype)
    intro r h
    cases h
    exact AllOrNothing.early (by decide)
  rw [if_neg htype]
  cases hreq : createRequests ipv6 (timeTillRead mx) st with
  | error e =>
    refine iff_of_true ?_ (.inr (.inl (createRequests_error hreq)))
    intro r h
    cases h
    exact AllOrNothing.early (createRequests_ne e hreq)
  | ok bufs =>
    cases hclient : getClientHandleInfo s.handleTable with
    | none =>
      refine iff_of_true ?_ (.inr (.inr (.inl (by rw [searchList,hclient]; rfl))))
      intro r h
      cases h
      exact AllOrNothing.early (by decide)
    | some client =>
      obtain ⟨handle,info⟩ := client
      have hlist := searchList_some hclient
      dsimp only
      by_cases harg : env.newArg = false
      · rw [if_pos harg]
        refine iff_of_true ?_ (.inr (.inr (.inr (.inl harg))))
        intro r h
        cases h
      by_cases hid : env.id = false
      · rw [if_neg harg,if_pos hid]
        refine iff_of_true ?_ (.inr (.inr (.inr (.inr (.inl hid)))))
        intro r h
        cases h
      rw [if_neg harg,if_neg hid]
      -- the search is added, and only `select` is left
      have hcompletes : Completes ipv6 s mx st env ↔
          (Schedules env ∧ env.node = true ∧ env.select = true ∧
            ∀ b ∈ info.ssdpSearchList, b.timeoutEventId ≠ s.gTimerThread.lastEventId) ∨
          ¬Schedules env ∧ env.node = false ∧ env.select = false := by
        rw [Completes,hlist,hreq]
        simp [htype,harg,hid,forall_eq']
      rw [hcompletes]
      by_cases hselect : env.select = false
      · rw [if_pos hselect]
        constructor
        · intro h
          have hfail := (addSearch_failure hclient (by decide) _).mp (h _ rfl)
          exact .inr ⟨hfail.1,hfail.2,hselect⟩
        · rintro (h | h) r hr
          · rw [hselect] at h
            cases h.2.2.1
          · cases hr
            exact (addSearch_failure hclient (by decide) _).mpr ⟨h.1,h.2.1⟩
      · rw [if_neg hselect]
        rw [Bool.not_eq_false] at hselect
        constructor
        · intro h
          rcases (addSearch_success hclient _).mp (h _ rfl) with ⟨hsch,hnode,hfresh⟩
          exact .inl ⟨hsch,hnode,hselect,hfresh⟩
        · rintro (h | h) r hr
          · cases hr
            exact (addSearch_success hclient _).mpr ⟨h.1,h.2.1,h.2.2.2⟩
          · rw [hselect] at h
            cases h.2.2

end

/-- When `select` fails the search and its event are left behind. -/
theorem failedSelect_keeps_search :
    ∃ r, searchByTarget false idleClient 5 (cstr "ssdp:all") 7
        { SearchEnv.calm with select := false } = .ok r ∧
      r.ret = upnpEInternalError ∧ searchList idleClient = some [] ∧
      searchList r.state = some [⟨0,some (cstr "ssdp:all"),7,.all⟩] ∧
      r.state.gTimerThread.eventQ = [⟨.searchExpired 0,.shortTerm,5,0⟩] ∧
      ¬AllOrNothing idleClient r := by
  refine ⟨⟨upnpEInternalError,addSearch idleClient 1 ⟨1,0,[],[]⟩ 5 (cstr "ssdp:all") 7
    { SearchEnv.calm with select := false },[]⟩,by decide,rfl,by decide,
    by decide,by decide,?_⟩
  intro h
  have hq := (h.nothing (by decide)).2
  revert hq
  decide

def defaultMx : ℤ := 5

structure SearchContext where
  upnpSdkInit : ℤ
  ipv6 : Bool
  state : State
  env : SearchEnv

def upnpSearchAsync (ctx : SearchContext) (hnd mx : ℤ) (target : Option (List UInt8))
    (cookie : ℕ) : Except Fault SearchResult :=
  if ctx.upnpSdkInit ≠ 1 then .ok ⟨upnpEFinish,ctx.state,[]⟩
  else
    match getHandleInfo ctx.state.handleTable hnd, target with
    | none, _ => .ok ⟨upnpEInvalidHandle,ctx.state,[]⟩
    | some _, none => .ok ⟨upnpEInvalidParam,ctx.state,[]⟩
    | some _, some target => do
      let r ← searchByTarget ctx.ipv6 ctx.state (if mx < 1 then defaultMx else mx) target cookie ctx.env
      .ok (if r.ret ≠ 1 then r else { r with ret := upnpESuccess })

/-- A target of no known type is refused, whatever the state. -/
theorem upnpSearchAsync_serror {target : List UInt8} (h : ssdpRequestType1 target = .serror)
    (ctx : SearchContext) (hnd mx : ℤ) (cookie : ℕ) :
    ∃ e, upnpSearchAsync ctx hnd mx (some target) cookie = .ok ⟨e,ctx.state,[]⟩ ∧
      e ≠ upnpESuccess := by
  unfold upnpSearchAsync
  by_cases hinit : ctx.upnpSdkInit ≠ 1
  · rw [if_pos hinit]
    exact ⟨_,rfl,by decide⟩
  · rw [if_neg hinit]
    cases getHandleInfo ctx.state.handleTable hnd with
    | none => exact ⟨_,rfl,by decide⟩
    | some info =>
      refine ⟨upnpEInvalidParam,?_,by decide⟩
      dsimp only
      rw [searchByTarget,if_pos h]
      rfl

end Ssdp
end CtrlPt
