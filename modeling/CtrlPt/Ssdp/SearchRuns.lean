import CtrlPt.Lib.Transition
import CtrlPt.Ssdp.Discovery

/-! The life of searches: they are started, answered and expire, in any order. Answers and the
expiry are jobs of two thread pools. -/
namespace CtrlPt
namespace Ssdp

open CText Http Memory Sdk Thread Transition

/-- `searchExpired` up to where it gives up the handle lock, with the place of the search in the
list and its callback. -/
def searchExpired (s : State) (arg : ℕ) : Except Fault (Option (ℕ × Callback) × State) :=
  let freed := { s with ids := s.ids.set arg none }
  match getClientHandleInfo s.handleTable with
  | none => .ok (none,freed)
  | some (handle,info) =>
    if info.ssdpSearchList = [] then .ok (none,freed)
    else
      match s.ids.getD arg none with
      | none => .error .load
      | some id =>
        match info.ssdpSearchList.findIdx? fun item => item.timeoutEventId == id with
        | none => .ok (none,freed)
        | some i =>
          let cookie := ((info.ssdpSearchList[i]?).map SsdpSearchArg.cookie).getD 0
          let handleTable := setHandleInfo s.handleTable handle
            { info with ssdpSearchList := info.ssdpSearchList.eraseIdx i }
          .ok (some (i,⟨info.callback,.searchTimeout,none,cookie⟩),
            { freed with handleTable := handleTable })

/-- A reply between the two regions of `ssdp_handle_ctrlpt_msg`. -/
structure PendingReply where
  callback : ℕ
  param : UpnpDiscovery
  st : List UInt8
  deriving DecidableEq

/-- The searches are numbered by the address of their id. `numbers` has those of the list, in its
order, and `cookies` the cookie each of them was started with. `fired` are the `searchExpired`
jobs in the pool, `expiring` those that are about to call back, and `log` the callbacks so far, the
last one first. -/
structure SearchRun where
  sdk : State
  numbers : List ℕ
  cookies : List (ℕ × ℕ)
  fired : List ℕ
  expiring : List (ℕ × Callback)
  replies : List PendingReply
  queued : List (ℕ × ResultData)
  log : List (ℕ × Callback)
  deriving DecidableEq

def SearchRun.init (s : State) : SearchRun := ⟨s,[],[],[],[],[],[],[]⟩

inductive SearchAction
  | search (ipv6 : Bool) (mx : ℤ) (st : List UInt8) (cookie : ℕ) (env : SearchEnv)
  /-- The timer thread hands a job to the pool, which may refuse it. -/
  | fire (now : ℤ) (taken : Bool)
  | expire (i : ℕ)
  | timeoutCallback (i : ℕ)
  | receive (stack : UpnpDiscovery) (destAddr : Uri.SockAddr) (hmsg : HttpMessage)
  | answer (i : ℕ) (taken : List Bool)
  | resultCallback (i : ℕ)
  deriving DecidableEq

namespace SearchRun

/-- A search that got as far as the list has its id. -/
def started (r : SearchRun) (s : State) (cookie : ℕ) (env : SearchEnv) : SearchRun :=
  if s.ids.length = r.sdk.ids.length then { r with sdk := s }
  else
    { r with
      sdk := s
      numbers := if env.node then r.numbers++[r.sdk.ids.length] else r.numbers
      cookies := (r.sdk.ids.length,cookie)::r.cookies }

def fire (r : SearchRun) (taken : Bool) (job : TimerJob) (s : State) : SearchRun :=
  match job with
  | .genaAutoRenewSubscription _ => { r with sdk := s }
  | .searchExpired arg =>
    if taken then { r with sdk := s, fired := arg::r.fired }
    else { r with sdk := { s with ids := s.ids.set arg none } }

def expire (r : SearchRun) (i arg : ℕ) (x : Option (ℕ × Callback) × State) : SearchRun :=
  let r := { r with sdk := x.2, fired := r.fired.eraseIdx i }
  match x.1 with
  | none => r
  | some (j,callback) =>
    { r with numbers := r.numbers.eraseIdx j, expiring := (arg,callback)::r.expiring }

def receive (r : SearchRun) : Begun → SearchRun
  | .made _ => r
  | .reply callback param st => { r with replies := ⟨callback,param,st⟩::r.replies }

def answer (r : SearchRun) (i : ℕ) (jobs : List (Option ResultData)) : SearchRun :=
  { r with
    replies := r.replies.eraseIdx i
    queued := ((r.numbers.zip jobs).filterMap fun x => x.2.map fun d => (x.1,d))++r.queued }

end SearchRun

/-- A fault ends the run. -/
def SearchRun.step (r : SearchRun) : SearchAction → Option SearchRun
  | .search ipv6 mx st cookie env =>
    (searchByTarget ipv6 r.sdk mx st cookie env).toOption.map fun x =>
      r.started x.state cookie env
  | .fire now taken => (dispatch r.sdk now).map fun x => r.fire taken x.1.job x.2
  | .expire i => (r.fired[i]?).bind fun arg =>
    (searchExpired r.sdk arg).toOption.map fun x => r.expire i arg x
  | .timeoutCallback i => (r.expiring[i]?).map fun x =>
    { r with expiring := r.expiring.eraseIdx i, log := x::r.log }
  | .receive stack destAddr hmsg =>
    (beginMsg r.sdk.handleTable stack destAddr hmsg false 0).toOption.map r.receive
  | .answer i taken => (r.replies[i]?).bind fun reply =>
    (finishReply r.sdk.handleTable reply.callback reply.param reply.st taken).toOption.map fun jobs =>
      r.answer i jobs
  | .resultCallback i => (r.queued[i]?).map fun x =>
    { r with queued := r.queued.eraseIdx i, log := (x.1,sendSearchResult x.2)::r.log }

def Paired {α β : Type} (l : List α) (m : List β) (a : α) (b : β) : Prop :=
  ∃ i : ℕ, l[i]? = some a ∧ m[i]? = some b

theorem Paired.left {α β : Type} {l : List α} {m : List β} {a : α} {b : β} (h : Paired l m a b) :
    a ∈ l := by
  rcases h with ⟨i,h,-⟩
  exact List.mem_of_getElem? h

theorem Paired.right {α β : Type} {l : List α} {m : List β} {a : α} {b : β} (h : Paired l m a b) :
    b ∈ m := by
  rcases h with ⟨i,-,h⟩
  exact List.mem_of_getElem? h

theorem Paired.eraseIdx {α β : Type} {l : List α} {m : List β} {a : α} {b : β} {j : ℕ}
    (h : Paired (l.eraseIdx j) (m.eraseIdx j) a b) : Paired l m a b := by
  rcases h with ⟨i,hl,hm⟩
  rw [List.getElem?_eraseIdx] at hl hm
  split at hl
  · rename_i hlt
    rw [if_pos hlt] at hm
    exact ⟨i,hl,hm⟩
  · rename_i hlt
    rw [if_neg hlt] at hm
    exact ⟨i+1,hl,hm⟩

theorem Paired.append {α β : Type} {l : List α} {m : List β} {a a' : α} {b b' : β}
    (hlen : l.length = m.length) (h : Paired (l++[a']) (m++[b']) a b) :
    Paired l m a b ∨ a = a' ∧ b = b' := by
  rcases h with ⟨i,hl,hm⟩
  by_cases hi : i < l.length
  · rw [List.getElem?_append_left hi] at hl
    rw [List.getElem?_append_left (hlen ▸ hi)] at hm
    exact .inl ⟨i,hl,hm⟩
  · rw [List.getElem?_append_right (not_lt.mp hi)] at hl
    rw [List.getElem?_append_right (hlen ▸ not_lt.mp hi),← hlen] at hm
    have hz : i-l.length = 0 := by
      have hlt := (List.getElem?_eq_some_iff.mp hl).1
      rw [List.length_singleton] at hlt
      omega
    rw [hz] at hl hm
    exact .inr ⟨(Option.some.inj hl).symm,(Option.some.inj hm).symm⟩

/-- The job of a search whose time runs. -/
def expireArg (e : TimerEvent TimerJob) : Option ℕ :=
  match e.job with
  | .searchExpired arg => some arg
  | .genaAutoRenewSubscription _ => none

namespace SearchRun

def listed (r : SearchRun) : List SsdpSearchArg := (searchList r.sdk).getD []

def live (r : SearchRun) : List ℕ := r.sdk.gTimerThread.eventQ.filterMap expireArg++r.fired

/-- The searches that have called back with `UPNP_DISCOVERY_SEARCH_TIMEOUT`. -/
def timedOut (r : SearchRun) : List ℕ :=
  (r.log.filter fun x => x.2.event == .searchTimeout).map Prod.fst

end SearchRun

/-- No search shares its id with another one that is going to expire, and no result of a search
waits in the pool when its timeout is reported. -/
def Settled (r : SearchRun) : SearchAction → Prop
  | .search _ _ _ _ env =>
    (env.timer.event = false → ∀ arg ∈ r.live, r.sdk.ids.getD arg none ≠ some invalidEventId) ∧
    (env.timer.event = true ∧ env.timer.node = true →
      ∀ item ∈ r.listed, item.timeoutEventId ≠ r.sdk.gTimerThread.lastEventId)
  | .timeoutCallback i => ∀ x ∈ r.expiring[i]?, ∀ q ∈ r.queued, q.1 ≠ x.1
  | _ => True

/-- No result of a search comes behind its timeout. -/
def InOrder (later earlier : ℕ × Callback) : Prop :=
  earlier.2.event = .searchTimeout → later.2.event = .searchResult → later.1 ≠ earlier.1

/-- A search times out once, its callbacks carry its cookie, and none comes after the timeout. -/
structure SearchLife (r : SearchRun) : Prop where
  once : r.timedOut.Nodup
  distinct : (r.cookies.map Prod.fst).Nodup
  own : ∀ x ∈ r.log, (x.1,x.2.cookie) ∈ r.cookies
  ended : r.log.Pairwise InOrder

structure SearchRun.Inv (r : SearchRun) : Prop where
  sized : r.numbers.length = r.listed.length
  known : ∀ n arg, Paired r.numbers r.listed n arg → (n,arg.cookie) ∈ r.cookies
  owned : ∀ a ∈ r.live, ∀ n arg, Paired r.numbers r.listed n arg →
    r.sdk.ids.getD a none = some arg.timeoutEventId → n = a
  fresh : ∀ a ∈ r.live, a < r.sdk.ids.length ∧
    ∀ id, r.sdk.ids.getD a none = some id → id < r.sdk.gTimerThread.lastEventId
  places : (r.numbers++r.expiring.map Prod.fst++r.timedOut).Nodup
  expiring : ∀ x ∈ r.expiring, x.2.event = .searchTimeout ∧ (x.1,x.2.cookie) ∈ r.cookies
  queued : ∀ q ∈ r.queued, (q.1,q.2.cookie) ∈ r.cookies ∧ q.1 ∉ r.timedOut
  distinct : (r.cookies.map Prod.fst).Nodup
  old : ∀ x ∈ r.cookies, x.1 < r.sdk.ids.length
  own : ∀ x ∈ r.log, (x.1,x.2.cookie) ∈ r.cookies
  ended : r.log.Pairwise InOrder

structure Idle (s : State) : Prop where
  list : (searchList s).getD [] = []
  events : s.gTimerThread.eventQ.filterMap expireArg = []

theorem SearchRun.Inv.init {s : State} (h : Idle s) : (SearchRun.init s).Inv where
  sized := by
    rw [SearchRun.listed]
    exact (congrArg List.length h.list).symm
  known := fun n arg hp => absurd hp.left List.not_mem_nil
  owned := fun a _ n arg hp => absurd hp.left List.not_mem_nil
  fresh := by
    intro a ha
    rw [SearchRun.live,SearchRun.init,h.events] at ha
    exact absurd ha List.not_mem_nil
  places := List.nodup_nil
  expiring := fun x hx => absurd hx List.not_mem_nil
  queued := fun q hq => absurd hq List.not_mem_nil
  distinct := List.nodup_nil
  old := fun x hx => absurd hx List.not_mem_nil
  own := fun x hx => absurd hx List.not_mem_nil
  ended := List.Pairwise.nil

theorem SearchRun.Inv.life {r : SearchRun} (h : r.Inv) : SearchLife r where
  once := h.places.of_append_right
  distinct := h.distinct
  own := h.own
  ended := h.ended

theorem searchByTarget_state {ipv6 : Bool} {s : State} {mx : ℤ} {st : List UInt8} {cookie : ℕ}
    {env : SearchEnv} {x : SearchResult} (h : searchByTarget ipv6 s mx st cookie env = .ok x) :
    x.state = s ∨ ∃ handle info, getClientHandleInfo s.handleTable = some (handle,info) ∧
      x.state = addSearch s handle info mx st cookie env := by
  unfold searchByTarget at h
  split at h
  · cases h
    exact .inl rfl
  · split at h
    · cases h
      exact .inl rfl
    · split at h
      · cases h
        exact .inl rfl
      · rename_i handle info hclient
        split at h
        · cases h
        · split at h
          · cases h
          · split at h
            · cases h
              exact .inr ⟨handle,info,hclient,rfl⟩
            · cases h
              exact .inr ⟨handle,info,hclient,rfl⟩

theorem getD_append_left {α : Type} {l : List α} {i : ℕ} (h : i < l.length) (m : List α) (d : α) :
    (l++m).getD i d = l.getD i d := by
  rw [List.getD_eq_getElem?_getD,List.getD_eq_getElem?_getD,List.getElem?_append_left h]

/-- The searches that are going to expire once a search is added. -/
theorem live_add {r : SearchRun} {handle : ℤ} {info : HandleInfo} {mx : ℤ} {st : List UInt8}
    {cookie : ℕ} {env : SearchEnv} {a : ℕ}
    (h : a ∈ (addSearch r.sdk handle info mx st cookie env).gTimerThread.eventQ.filterMap expireArg++
      r.fired) : a ∈ r.live ∨ (env.timer.event = true ∧ env.timer.node = true) ∧
        a = r.sdk.ids.length := by
  rcases List.mem_append.mp h with h | h
  · rcases List.mem_filterMap.mp h with ⟨e,he,hex⟩
    rcases (timerThreadSchedule_spec r.sdk.gTimerThread env.now (timeTillRead mx) .relSec
      (.searchExpired r.sdk.ids.length) .shortTerm env.timer).1 e he with he | ⟨hrc,he⟩
    · exact .inl (List.mem_append_left _ (List.mem_filterMap.mpr ⟨e,he,hex⟩))
    · rw [he] at hex
      cases hex
      refine .inr ⟨?_,rfl⟩
      by_contra hn
      rw [(timerThreadSchedule_fail _ _ _ _ _ _ hn).1] at hrc
      exact absurd hrc (by decide)
  · exact .inl (List.mem_append_right _ h)

section

variable {r : SearchRun}

theorem SearchRun.Inv.numbers_old (h : r.Inv) : ∀ n ∈ r.numbers, n < r.sdk.ids.length := by
  intro n hn
  rcases List.getElem_of_mem hn with ⟨i,hi,rfl⟩
  exact h.old _ (h.known _ _ ⟨i,List.getElem?_eq_getElem hi,
    List.getElem?_eq_getElem (h.sized ▸ hi)⟩)

theorem SearchRun.Inv.places_old (h : r.Inv) :
    ∀ n ∈ r.numbers++r.expiring.map Prod.fst++r.timedOut, n < r.sdk.ids.length := by
  intro n hn
  rcases List.mem_append.mp hn with hn | hn
  · rcases List.mem_append.mp hn with hn | hn
    · exact h.numbers_old n hn
    · rcases List.mem_map.mp hn with ⟨x,hx,rfl⟩
      exact h.old _ (h.expiring x hx).2
  · rcases List.mem_map.mp hn with ⟨x,hx,rfl⟩
    exact h.old _ (h.own x (List.mem_filter.mp hx).1)

/-- What `addSearch` does to the list and the ids; `arg` is the new member, if there is one. -/
structure Adding (r : SearchRun) (env : SearchEnv) (cookie : ℕ) (s : State) (arg : SsdpSearchArg) :
    Prop where
  cookie : arg.cookie = cookie
  listed : (searchList s).getD [] = if env.node then r.listed++[arg] else r.listed
  length : s.ids.length = r.sdk.ids.length+1
  old : ∀ a, a < r.sdk.ids.length → s.ids.getD a none = r.sdk.ids.getD a none
  new : s.ids.getD r.sdk.ids.length none = some arg.timeoutEventId
  id : arg.timeoutEventId =
    if env.timer.event = false then invalidEventId else r.sdk.gTimerThread.lastEventId
  count : r.sdk.gTimerThread.lastEventId ≤ s.gTimerThread.lastEventId
  scheduled : env.timer.event = true ∧ env.timer.node = true →
    arg.timeoutEventId < s.gTimerThread.lastEventId

theorem exists_adding {handle : ℤ} {info : HandleInfo} (mx : ℤ) (st : List UInt8) (cookie : ℕ)
    (env : SearchEnv) (hclient : getClientHandleInfo r.sdk.handleTable = some (handle,info)) :
    ∃ arg, Adding r env cookie (addSearch r.sdk handle info mx st cookie env) arg := by
  have hlisted : r.listed = info.ssdpSearchList := by
    rw [SearchRun.listed,searchList_some hclient]
    rfl
  have hspec := timerThreadSchedule_spec r.sdk.gTimerThread env.now (timeTillRead mx) .relSec
    (.searchExpired r.sdk.ids.length) .shortTerm env.timer
  refine ⟨⟨_,if env.searchTarget then some st else none,cookie,ssdpRequestType1 st⟩,rfl,?_,
    List.length_append,fun a ha => getD_append_left ha _ _,?_,timerThreadSchedule_id _ _ _ _ _ _ _,
    hspec.2.1,fun hsch => (hspec.2.2 ?_).2⟩
  · rw [searchList_add mx st cookie env hclient,hlisted]
    rfl
  · rw [addSearch,List.getD_eq_getElem?_getD,List.getElem?_append_right le_rfl,Nat.sub_self]
    rfl
  · rw [timerThreadSchedule_ok _ _ _ _ _ _ hsch]

theorem Adding.paired {env : SearchEnv} {cookie : ℕ} {s : State} {arg : SsdpSearchArg}
    (hadd : Adding r env cookie s arg) (h : r.Inv) {n : ℕ} {item : SsdpSearchArg}
    (hp : Paired (if env.node then r.numbers++[r.sdk.ids.length] else r.numbers)
      ((searchList s).getD []) n item) :
    Paired r.numbers r.listed n item ∨ n = r.sdk.ids.length ∧ item = arg := by
  rw [hadd.listed] at hp
  cases hnode : env.node with
  | true =>
    rw [hnode,if_pos rfl,if_pos rfl] at hp
    exact Paired.append h.sized hp
  | false =>
    rw [hnode] at hp
    exact .inl hp

/-- The new number is nowhere yet. -/
theorem SearchRun.Inv.places_add (h : r.Inv) (node : Bool) :
    ((if node then r.numbers++[r.sdk.ids.length] else r.numbers)++r.expiring.map Prod.fst++
      r.timedOut).Nodup := by
  have hnot : r.sdk.ids.length ∉ r.numbers++r.expiring.map Prod.fst++r.timedOut := fun hm =>
    absurd (h.places_old _ hm) (lt_irrefl _)
  cases node with
  | true =>
    rw [if_pos rfl,List.append_assoc,List.append_assoc,List.singleton_append]
    refine List.perm_middle.nodup_iff.mpr (List.nodup_cons.mpr ⟨?_,?_⟩)
    · rwa [← List.append_assoc]
    · rw [← List.append_assoc]
      exact h.places
  | false => exact h.places

/-- An id that is going to expire is not given to a new search, and a new id not to an old one. -/
theorem Adding.owned {env : SearchEnv} {cookie : ℕ} {s : State} {arg : SsdpSearchArg}
    (hadd : Adding r env cookie s arg) (h : r.Inv)
    (hevent : env.timer.event = false →
      ∀ arg ∈ r.live, r.sdk.ids.getD arg none ≠ some invalidEventId)
    (hlist : env.timer.event = true ∧ env.timer.node = true →
      ∀ item ∈ r.listed, item.timeoutEventId ≠ r.sdk.gTimerThread.lastEventId)
    {a n : ℕ} {item : SsdpSearchArg}
    (ha : a ∈ r.live ∨ (env.timer.event = true ∧ env.timer.node = true) ∧ a = r.sdk.ids.length)
    (hp : Paired r.numbers r.listed n item ∨ n = r.sdk.ids.length ∧ item = arg)
    (heq : s.ids.getD a none = some item.timeoutEventId) : n = a := by
  rcases ha with ha | ⟨hsch,rfl⟩
  · have hfresh := h.fresh a ha
    rw [hadd.old a hfresh.1] at heq
    rcases hp with hp | ⟨rfl,rfl⟩
    · exact h.owned a ha n item hp heq
    · rw [hadd.id] at heq
      split at heq
      · rename_i he
        exact absurd heq (hevent he a ha)
      · exact absurd (hfresh.2 _ heq) (lt_irrefl _)
  · rw [hadd.new] at heq
    rcases hp with hp | ⟨rfl,rfl⟩
    · have hne := hlist hsch item hp.right
      rw [← Option.some.inj heq,hadd.id,if_neg (by rw [hsch.1]; decide)] at hne
      exact absurd rfl hne
    · rfl

/-- The search that is added is the only one with its number, and nothing else has its id. -/
theorem SearchRun.Inv.added (h : r.Inv) {handle : ℤ} {info : HandleInfo} {mx : ℤ}
    {st : List UInt8} {cookie : ℕ} {env : SearchEnv}
    (hclient : getClientHandleInfo r.sdk.handleTable = some (handle,info))
    (hevent : env.timer.event = false →
      ∀ arg ∈ r.live, r.sdk.ids.getD arg none ≠ some invalidEventId)
    (hlist : env.timer.event = true ∧ env.timer.node = true →
      ∀ item ∈ r.listed, item.timeoutEventId ≠ r.sdk.gTimerThread.lastEventId) :
    (r.started (addSearch r.sdk handle info mx st cookie env) cookie env).Inv := by
  obtain ⟨arg,hadd⟩ := exists_adding mx st cookie env hclient
  have hlength := hadd.length
  rw [SearchRun.started,if_neg (by omega)]
  refine ⟨?_,?_,?_,?_,h.places_add env.node,?_,?_,?_,?_,?_,h.ended⟩
  · rw [SearchRun.listed,hadd.listed]
    cases env.node with
    | true => exact (List.length_append.trans (congrArg (·+1) h.sized)).trans List.length_append.symm
    | false => exact h.sized
  · intro n item hp
    rcases hadd.paired h hp with hp | ⟨rfl,rfl⟩
    · exact List.mem_cons_of_mem _ (h.known n item hp)
    · rw [hadd.cookie]
      exact List.mem_cons_self
  · intro a ha n item hp heq
    exact hadd.owned h hevent hlist (live_add ha) (hadd.paired h hp) heq
  · intro a ha
    change a < (addSearch r.sdk handle info mx st cookie env).ids.length ∧ ∀ id,
      (addSearch r.sdk handle info mx st cookie env).ids.getD a none = some id →
        id < (addSearch r.sdk handle info mx st cookie env).gTimerThread.lastEventId
    rw [hlength]
    rcases live_add ha with ha | ⟨hsch,rfl⟩
    · rcases h.fresh a ha with ⟨hlt,hfresh⟩
      rw [hadd.old a hlt]
      exact ⟨Nat.lt_succ_of_lt hlt,fun id hi => lt_of_lt_of_le (hfresh id hi) hadd.count⟩
    · rw [hadd.new]
      refine ⟨Nat.lt_succ_self _,fun id hi => ?_⟩
      cases hi
      exact hadd.scheduled hsch
  · intro x hx
    rcases h.expiring x hx with ⟨he,hc⟩
    exact ⟨he,List.mem_cons_of_mem _ hc⟩
  · intro q hq
    rcases h.queued q hq with ⟨hc,ht⟩
    exact ⟨List.mem_cons_of_mem _ hc,ht⟩
  · refine List.nodup_cons.mpr ⟨fun hm => ?_,h.distinct⟩
    rcases List.mem_map.mp hm with ⟨x,hx,he⟩
    exact (h.old x hx).ne he
  · intro x hx
    rcases List.mem_cons.mp hx with rfl | hx
    · exact hlength ▸ Nat.lt_succ_self _
    · exact hlength ▸ Nat.lt_succ_of_lt (h.old x hx)
  · intro x hx
    exact List.mem_cons_of_mem _ (h.own x hx)

theorem SearchRun.Inv.settle (h : r.Inv) (s : State) (fired : List ℕ) (replies : List PendingReply)
    (htable : s.handleTable = r.sdk.handleTable) (hlen : s.ids.length = r.sdk.ids.length)
    (hids : ∀ a id, s.ids.getD a none = some id → r.sdk.ids.getD a none = some id)
    (hlast : s.gTimerThread.lastEventId = r.sdk.gTimerThread.lastEventId)
    (hlive : ∀ a ∈ s.gTimerThread.eventQ.filterMap expireArg++fired, a ∈ r.live) :
    ({ r with sdk := s, fired := fired, replies := replies } : SearchRun).Inv := by
  have hlisted : ({ r with sdk := s, fired := fired, replies := replies } : SearchRun).listed =
      r.listed := by
    rw [SearchRun.listed,searchList,htable]
    rfl
  refine ⟨?_,?_,?_,?_,h.places,h.expiring,h.queued,h.distinct,?_,h.own,h.ended⟩
  · rw [hlisted]
    exact h.sized
  · rw [hlisted]
    exact h.known
  · rw [hlisted]
    exact fun a ha n item hp heq => h.owned a (hlive a ha) n item hp (hids a _ heq)
  · intro a ha
    rcases h.fresh a (hlive a ha) with ⟨hlt,hfresh⟩
    exact ⟨hlen.symm ▸ hlt,fun id hi => hlast.symm ▸ hfresh id (hids a id hi)⟩
  · intro x hx
    exact hlen.symm ▸ h.old x hx

theorem getD_set_none {α : Type} {l : List (Option α)} {i j : ℕ} {a : α}
    (h : (l.set i none).getD j none = some a) : l.getD j none = some a := by
  rw [List.getD_eq_getElem?_getD,List.getElem?_set] at h
  rw [List.getD_eq_getElem?_getD]
  split at h
  · split at h <;> cases h
  · exact h

theorem SearchRun.Inv.takeOut (h : r.Inv) {handle : ℤ} {info : HandleInfo}
    (hclient : getClientHandleInfo r.sdk.handleTable = some (handle,info)) {j n : ℕ}
    {item : SsdpSearchArg} (hn : r.numbers[j]? = some n) (hi : info.ssdpSearchList[j]? = some item)
    {callback : Callback} (hevent : callback.event = .searchTimeout)
    (hcookie : callback.cookie = item.cookie) :
    ({ r with
      sdk := { r.sdk with
        handleTable := setHandleInfo r.sdk.handleTable handle
          { info with ssdpSearchList := info.ssdpSearchList.eraseIdx j } }
      numbers := r.numbers.eraseIdx j
      expiring := (n,callback)::r.expiring } : SearchRun).Inv := by
  have hlisted : r.listed = info.ssdpSearchList := by
    rw [SearchRun.listed,searchList_some hclient]
    rfl
  have hpair : Paired r.numbers r.listed n item := ⟨j,hn,hlisted.symm ▸ hi⟩
  have hlisted' : ∀ s : State, s.handleTable = setHandleInfo r.sdk.handleTable handle
      { info with ssdpSearchList := info.ssdpSearchList.eraseIdx j } →
      (searchList s).getD [] = r.listed.eraseIdx j := by
    intro s hs
    rw [searchList,hs,getClientHandleInfo_set hclient,hlisted]
    rfl
  have hperm : r.numbers.Perm (n::r.numbers.eraseIdx j) := perm_eraseIdx hn
  refine ⟨?_,?_,?_,h.fresh,?_,?_,h.queued,h.distinct,h.old,h.own,h.ended⟩
  · rw [SearchRun.listed,hlisted' _ rfl]
    have hsized := h.sized
    have hlt := (List.getElem?_eq_some_iff.mp hn).1
    rw [List.length_eraseIdx_of_lt hlt,List.length_eraseIdx_of_lt (hsized ▸ hlt),hsized]
  · intro m arg hp
    rw [SearchRun.listed,hlisted' _ rfl] at hp
    exact h.known m arg hp.eraseIdx
  · intro a ha m arg hp
    rw [SearchRun.listed,hlisted' _ rfl] at hp
    exact h.owned a ha m arg hp.eraseIdx
  · have hplaces : (r.numbers.eraseIdx j++(n::r.expiring.map Prod.fst)++r.timedOut).Perm
        (r.numbers++r.expiring.map Prod.fst++r.timedOut) := by
      refine List.Perm.append_right _ (List.perm_middle.trans ?_)
      exact (hperm.append_right _).symm
    exact hplaces.nodup_iff.mpr h.places
  · intro x hx
    rcases List.mem_cons.mp hx with rfl | hx
    · exact ⟨hevent,hcookie.symm ▸ h.known n item hpair⟩
    · exact h.expiring x hx

/-- What `searchExpired` does: the id is freed, and the search that has it leaves the list. -/
theorem searchExpired_ok {s : State} {arg : ℕ} {x : Option (ℕ × Callback) × State}
    (h : searchExpired s arg = .ok x) :
    x = (none,{ s with ids := s.ids.set arg none }) ∨
      ∃ handle info j item, getClientHandleInfo s.handleTable = some (handle,info) ∧
        s.ids.getD arg none = some item.timeoutEventId ∧ info.ssdpSearchList[j]? = some item ∧
        x = (some (j,⟨info.callback,.searchTimeout,none,item.cookie⟩),
          { s with
            ids := s.ids.set arg none
            handleTable := setHandleInfo s.handleTable handle
              { info with ssdpSearchList := info.ssdpSearchList.eraseIdx j } }) := by
  unfold searchExpired at h
  dsimp only at h
  split at h
  · cases h
    exact .inl rfl
  · rename_i handle info hclient
    split at h
    · cases h
      exact .inl rfl
    · split at h
      · cases h
      · rename_i id hid
        split at h
        · cases h
          exact .inl rfl
        · rename_i j hj
          cases h
          rcases List.findIdx?_eq_some_iff_getElem.mp hj with ⟨hlt,hfound,-⟩
          have hget : info.ssdpSearchList[j]? = some info.ssdpSearchList[j] :=
            List.getElem?_eq_getElem hlt
          refine .inr ⟨handle,info,j,info.ssdpSearchList[j],hclient,?_,hget,?_⟩
          · rw [hid,eq_of_beq hfound]
          · rw [hget]
            rfl

theorem SearchRun.Inv.expired (h : r.Inv) {i arg : ℕ} (hi : r.fired[i]? = some arg)
    {x : Option (ℕ × Callback) × State} (hx : searchExpired r.sdk arg = .ok x) :
    (r.expire i arg x).Inv := by
  have hfreed := h.settle { r.sdk with ids := r.sdk.ids.set arg none } (r.fired.eraseIdx i) r.replies
    rfl List.length_set
    (fun a id ha => getD_set_none ha) rfl (by
      intro a ha
      rcases List.mem_append.mp ha with ha | ha
      · exact List.mem_append_left _ ha
      · exact List.mem_append_right _ (List.mem_of_mem_eraseIdx ha))
  rcases searchExpired_ok hx with rfl | ⟨handle,info,j,item,hclient,hid,hitem,rfl⟩
  · exact hfreed
  · have hlisted : r.listed = info.ssdpSearchList := by
      rw [SearchRun.listed,searchList_some hclient]
      rfl
    have hlive : arg ∈ r.live := List.mem_append_right _ (List.mem_of_getElem? hi)
    have hlt : j < r.numbers.length := by
      rw [h.sized,hlisted]
      exact (List.getElem?_eq_some_iff.mp hitem).1
    have hn : r.numbers[j]? = some r.numbers[j] := List.getElem?_eq_getElem hlt
    -- the search that is found is the one the event was scheduled for
    have howner : r.numbers[j] = arg :=
      h.owned arg hlive _ item ⟨j,hn,hlisted.symm ▸ hitem⟩ hid
    rw [howner] at hn
    exact hfreed.takeOut hclient hn hitem rfl rfl

theorem SearchRun.Inv.fire (h : r.Inv) {now : ℤ} {e : TimerEvent TimerJob} {s : State}
    (hd : dispatch r.sdk now = some (e,s)) (taken : Bool) : (r.fire taken e.job s).Inv := by
  rcases dispatch_some hd with ⟨hq,-,hlast,htable,hids⟩
  have hids' : ∀ a id, s.ids.getD a none = some id → r.sdk.ids.getD a none = some id := by
    rw [hids]
    exact fun a id hi => hi
  have hrest : ∀ a ∈ s.gTimerThread.eventQ.filterMap expireArg++r.fired, a ∈ r.live := by
    intro a ha
    rw [SearchRun.live,hq]
    rcases List.mem_append.mp ha with ha | ha
    · rcases List.mem_filterMap.mp ha with ⟨e',he',hex⟩
      exact List.mem_append_left _ (List.mem_filterMap.mpr ⟨e',List.mem_cons_of_mem _ he',hex⟩)
    · exact List.mem_append_right _ ha
  unfold SearchRun.fire
  split
  · exact h.settle _ _ _ htable (congrArg List.length hids) hids' hlast hrest
  · rename_i arg hjob
    have harg : arg ∈ r.live := by
      rw [SearchRun.live,hq]
      refine List.mem_append_left _ (List.mem_filterMap.mpr ⟨e,List.mem_cons_self,?_⟩)
      rw [expireArg,hjob]
    cases taken with
    | true =>
      refine h.settle _ _ _ htable (congrArg List.length hids) hids' hlast fun a ha => ?_
      rcases List.mem_append.mp ha with ha | ha
      · exact hrest a (List.mem_append_left _ ha)
      · rcases List.mem_cons.mp ha with rfl | ha
        · exact harg
        · exact hrest a (List.mem_append_right _ ha)
    | false =>
      refine h.settle _ _ _ htable (List.length_set.trans (congrArg List.length hids)) ?_ hlast hrest
      exact fun a id hi => hids' a id (getD_set_none hi)

theorem SearchRun.Inv.timeoutCallback (h : r.Inv) {i : ℕ} {x : ℕ × Callback}
    (hi : r.expiring[i]? = some x) (hquiet : ∀ q ∈ r.queued, q.1 ≠ x.1) :
    ({ r with expiring := r.expiring.eraseIdx i, log := x::r.log } : SearchRun).Inv := by
  rcases h.expiring x (List.mem_of_getElem? hi) with ⟨hevent,hcookie⟩
  have htimed : ({ r with expiring := r.expiring.eraseIdx i, log := x::r.log } : SearchRun).timedOut =
      x.1::r.timedOut := by
    rw [SearchRun.timedOut,List.filter_cons_of_pos (by rw [hevent]; decide)]
    rfl
  have hperm : r.expiring.Perm (x::r.expiring.eraseIdx i) := perm_eraseIdx hi
  refine ⟨h.sized,h.known,h.owned,h.fresh,?_,?_,?_,h.distinct,h.old,?_,?_⟩
  · rw [htimed]
    have hplaces : (r.numbers++(r.expiring.eraseIdx i).map Prod.fst++x.1::r.timedOut).Perm
        (r.numbers++r.expiring.map Prod.fst++r.timedOut) := by
      rw [List.append_assoc,List.append_assoc]
      refine List.Perm.append_left _ (List.perm_middle.trans ?_)
      exact ((hperm.map Prod.fst).append_right _).symm
    exact hplaces.nodup_iff.mpr h.places
  · exact fun y hy => h.expiring y (List.mem_of_mem_eraseIdx hy)
  · intro q hq
    rcases h.queued q hq with ⟨hc,ht⟩
    rw [htimed]
    exact ⟨hc,List.not_mem_cons_of_ne_of_not_mem (hquiet q hq) ht⟩
  · intro y hy
    rcases List.mem_cons.mp hy with rfl | hy
    · exact hcookie
    · exact h.own y hy
  · refine List.pairwise_cons.mpr ⟨fun y _ _ hres => ?_,h.ended⟩
    rw [hevent] at hres
    cases hres

theorem SearchRun.Inv.resultCallback (h : r.Inv) {i : ℕ} {x : ℕ × ResultData}
    (hi : r.queued[i]? = some x) :
    ({ r with
      queued := r.queued.eraseIdx i
      log := (x.1,sendSearchResult x.2)::r.log } : SearchRun).Inv := by
  rcases h.queued x (List.mem_of_getElem? hi) with ⟨hcookie,hnot⟩
  refine ⟨h.sized,h.known,h.owned,h.fresh,h.places,h.expiring,?_,h.distinct,h.old,?_,?_⟩
  · exact fun q hq => h.queued q (List.mem_of_mem_eraseIdx hq)
  · intro y hy
    rcases List.mem_cons.mp hy with rfl | hy
    · exact hcookie
    · exact h.own y hy
  · refine List.pairwise_cons.mpr ⟨fun y hy htimeout _ heq => hnot ?_,h.ended⟩
    refine List.mem_map.mpr ⟨y,List.mem_filter.mpr ⟨hy,?_⟩,heq.symm⟩
    rw [htimeout]
    decide

/-- Each job carries the cookie of its search. -/
theorem queueResults_cookie {callback : ℕ} {param : UpnpDiscovery} {st : List UInt8}
    {searches : List SsdpSearchArg} {taken : List Bool} {jobs : List (Option ResultData)}
    (h : queueResults callback param st searches taken = .ok jobs) {i : ℕ} {d : ResultData}
    (hd : jobs[i]? = some (some d)) :
    ∃ item, searches[i]? = some item ∧ d.cookie = item.cookie := by
  induction searches generalizing taken jobs i with
  | nil =>
    cases h
    cases hd
  | cons item rest ih =>
    rcases Rounds.of_bind_ok h with ⟨matched,-,h⟩
    rcases Rounds.of_bind_ok h with ⟨jobs',hjobs,h⟩
    cases h
    cases i with
    | zero =>
      rw [List.getElem?_cons_zero] at hd
      split at hd
      · cases hd
        exact ⟨item,rfl,rfl⟩
      · cases hd
    | succ i => exact ih hjobs hd

theorem SearchRun.Inv.answered (h : r.Inv) (i : ℕ) {reply : PendingReply} {taken : List Bool}
    {jobs : List (Option ResultData)}
    (hj : finishReply r.sdk.handleTable reply.callback reply.param reply.st taken = .ok jobs) :
    (r.answer i jobs).Inv := by
  have hjob : ∀ n d, (n,d) ∈ (r.numbers.zip jobs).filterMap
      (fun x => x.2.map fun d => (x.1,d)) → (n,d.cookie) ∈ r.cookies ∧ n ∈ r.numbers := by
    intro n d hmem
    rcases List.mem_filterMap.mp hmem with ⟨⟨m,o⟩,hzip,ho⟩
    rcases Option.map_eq_some_iff.mp ho with ⟨d',rfl,he⟩
    cases he
    rcases List.mem_iff_getElem?.mp hzip with ⟨k,hk⟩
    rcases List.getElem?_zip_eq_some.mp hk with ⟨hn,hd⟩
    unfold finishReply at hj
    split at hj
    · cases hj
      cases hd
    · rename_i handle info hclient
      rcases queueResults_cookie hj hd with ⟨item,hitem,hcookie⟩
      have hlisted : r.listed = info.ssdpSearchList := by
        rw [SearchRun.listed,searchList_some hclient]
        rfl
      rw [hcookie]
      exact ⟨h.known _ item ⟨k,hn,hlisted.symm ▸ hitem⟩,List.mem_of_getElem? hn⟩
  refine ⟨h.sized,h.known,h.owned,h.fresh,h.places,h.expiring,?_,h.distinct,h.old,h.own,h.ended⟩
  rintro ⟨n,d⟩ hq
  rcases List.mem_append.mp hq with hq | hq
  · rcases hjob n d hq with ⟨hc,hn⟩
    refine ⟨hc,fun ht => ?_⟩
    have hdisjoint := List.nodup_append.mp h.places
    exact hdisjoint.2.2 n (List.mem_append_left _ hn) n ht rfl
  · exact h.queued _ hq

theorem SearchRun.Inv.step {r' : SearchRun} (h : r.Inv) (a : SearchAction) (hok : Settled r a)
    (hs : r.step a = some r') : r'.Inv := by
  cases a with
  | search ipv6 mx st cookie env =>
    rcases Option.map_eq_some_iff.mp hs with ⟨x,hx,rfl⟩
    rcases searchByTarget_state (toOption_some hx) with he | ⟨handle,info,hclient,he⟩
    · rw [he,SearchRun.started,if_pos rfl]
      exact h
    · rw [he]
      exact h.added hclient hok.1 hok.2
  | fire now taken =>
    rcases Option.map_eq_some_iff.mp hs with ⟨⟨e,s⟩,hd,rfl⟩
    exact h.fire hd taken
  | expire i =>
    rcases Option.bind_eq_some_iff.mp hs with ⟨arg,hi,hs⟩
    rcases Option.map_eq_some_iff.mp hs with ⟨x,hx,rfl⟩
    exact h.expired hi (toOption_some hx)
  | timeoutCallback i =>
    rcases Option.map_eq_some_iff.mp hs with ⟨x,hi,rfl⟩
    exact h.timeoutCallback hi (hok x hi)
  | receive stack destAddr hmsg =>
    rcases Option.map_eq_some_iff.mp hs with ⟨begun,-,rfl⟩
    cases begun with
    | made callbacks => exact h
    | reply callback param st => exact h.settle _ _ _ rfl rfl (fun _ _ hi => hi) rfl fun _ ha => ha
  | answer i taken =>
    rcases Option.bind_eq_some_iff.mp hs with ⟨reply,-,hs⟩
    rcases Option.map_eq_some_iff.mp hs with ⟨jobs,hj,rfl⟩
    exact h.answered i (toOption_some hj)
  | resultCallback i =>
    rcases Option.map_eq_some_iff.mp hs with ⟨x,hi,rfl⟩
    exact h.resultCallback hi

end

/-- In a run whose steps are all settled, searches live as they should. -/
theorem searchLife_settled (s : State) (hidle : Idle s) (r : SearchRun)
    (h : Runs SearchRun.step Settled (.init s) r) : SearchLife r :=
  SearchRun.Inv.life (h.invariant (SearchRun.Inv.init hidle) fun _ a _ hs hok ht => hs.step a hok ht)

theorem idleClient_idle : Idle idleClient := ⟨rfl,rfl⟩

instance settledDecidable : DecidableRel Settled := fun r a =>
  match a with
  | .search _ _ _ _ env => inferInstanceAs (Decidable
      ((env.timer.event = false → ∀ arg ∈ r.live, r.sdk.ids.getD arg none ≠ some invalidEventId) ∧
      (env.timer.event = true ∧ env.timer.node = true →
        ∀ item ∈ r.listed, item.timeoutEventId ≠ r.sdk.gTimerThread.lastEventId)))
  | .timeoutCallback i => inferInstanceAs (Decidable
      (∀ x ∈ r.expiring[i]?, ∀ q ∈ r.queued, q.1 ≠ x.1))
  | .fire _ _ | .expire _ | .receive _ _ _ | .answer _ _ | .resultCallback _ => isTrue trivial

def someReply : HttpMessage :=
  { httpmsgInit with
    requestMethod := .msearch
    statusCode := 200
    headers := [⟨cstr "LOCATION",.location,cstr "http://10.0.0.1/"⟩,⟨cstr "ST",.st,ohmSearchType⟩] }

def answeredSearch : List SearchAction :=
  [.search false 5 ohmSearchType 7 SearchEnv.calm,.receive emptyDiscovery Uri.SockAddr.cleared someReply,
   .answer 0 [],.fire 5 true,.expire 0]

theorem searchLife_settled_ordered :
    ∃ r, run SearchRun.step Settled (.init idleClient)
        (answeredSearch++[.resultCallback 0,.timeoutCallback 0]) = some r ∧
      r.log.map (fun x => x.2.event) = [.searchTimeout,.searchResult] ∧ SearchLife r := by
  have hrun : ∃ r, run SearchRun.step Settled (.init idleClient)
      (answeredSearch++[.resultCallback 0,.timeoutCallback 0]) = some r ∧
        r.log.map (fun x => x.2.event) = [.searchTimeout,.searchResult] := by
    have hlog : (run SearchRun.step Settled (.init idleClient)
        (answeredSearch++[.resultCallback 0,.timeoutCallback 0])).map
          (fun r => r.log.map fun x => x.2.event) = some [.searchTimeout,.searchResult] := by
      decide
    exact Option.map_eq_some_iff.mp hlog
  rcases hrun with ⟨r,hr,hlog⟩
  exact ⟨r,hr,hlog,searchLife_settled idleClient idleClient_idle r (Runs.of_run _ hr)⟩

/-- The pool runs the job of the reply after the search has expired. -/
theorem lateResult_after_timeout :
    ∃ r, Idle idleClient ∧ Runs SearchRun.step Transition.free (.init idleClient) r ∧
      ¬SearchLife r := by
  have hlog : (run SearchRun.step Transition.free (.init idleClient)
      (answeredSearch++[.timeoutCallback 0,.resultCallback 0])).map
        (fun r => r.log.map fun x => (x.1,x.2.event)) =
          some [(0,.searchResult),(0,.searchTimeout)] := by decide
  rcases Option.map_eq_some_iff.mp hlog with ⟨r,hr,hl⟩
  refine ⟨r,idleClient_idle,Runs.of_run _ hr,fun h => ?_⟩
  have hpair : r.log.Pairwise InOrder := h.ended
  rcases List.map_eq_cons_iff.mp hl with ⟨a,l,hal,ha,hl⟩
  rcases List.map_eq_cons_iff.mp hl with ⟨b,l',hbl,hb,-⟩
  rw [hal,hbl] at hpair
  have horder := (List.pairwise_cons.mp hpair).1 b List.mem_cons_self
  refine horder (congrArg Prod.snd hb) (congrArg Prod.snd ha) ?_
  exact (congrArg Prod.fst ha).trans (congrArg Prod.fst hb).symm

end Ssdp
end CtrlPt
