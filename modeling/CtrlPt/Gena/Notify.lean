import CtrlPt.Http.Fields
import CtrlPt.Http.Parser

/-! Incoming events: which subscription of the client a NOTIFY message is given to. -/
namespace CtrlPt
namespace Gena

open CText Http

def httpOk : ℕ := 200
def httpPreconditionFailed : ℕ := 412

/-- The string in an `Upnp_SID`, an array of 44 bytes. -/
structure UpnpSid where
  text : List UInt8
  fits : text.length < 44 ∧ 0 ∉ text
  deriving DecidableEq, Repr

/-- A client subscription; `beyond` is the memory behind the string of its ActualSID. -/
structure ClientSubscription where
  sid : UpnpSid
  actualSid : List UInt8
  beyond : ℕ → UInt8
  no_nul : 0 ∉ actualSid

/-- The bytes `memcmp` is given for an ActualSID. -/
def ClientSubscription.stored (s : ClientSubscription) (n : ℕ) : List UInt8 :=
  (s.actualSid++0::(List.range n).map s.beyond).take n

/-- `!memcmp(actualSID,sid->buff,sid->size)` -/
def ClientSubscription.hits (s : ClientSubscription) (sid : List UInt8) : Bool :=
  s.stored sid.length == sid

def getClientSubActualSID (head : List ClientSubscription) (sid : List UInt8) :
    Option ClientSubscription :=
  head.find? fun s => s.hits sid

/-- The subscriptions of a client: every ActualSID is there once, and none is empty. -/
structure ClientSubList where
  subs : List ClientSubscription
  ne_nil : ∀ s ∈ subs, s.actualSid ≠ []
  distinct : (subs.map ClientSubscription.actualSid).Nodup

/-- The client's `Handle_Info`; the callback and its cookie are pointers. -/
structure HandleInfo where
  callback : ℕ
  cookie : ℕ
  clientSubList : ClientSubList

structure UpnpEvent where
  sid : List UInt8
  eventKey : ℤ
  deriving DecidableEq, Repr

/-- `callback(UPNP_EVENT_RECEIVED,&event_struct,cookie)` -/
structure EventCallback where
  callback : ℕ
  event : UpnpEvent
  cookie : ℕ
  deriving DecidableEq, Repr

/-- The status that is responded, and the callback that is made. -/
structure Outcome where
  respond : ℕ
  callback : Option EventCallback
  deriving DecidableEq, Repr

/-- `memset` and `strncpy` of 43 bytes. -/
def sidField (s : UpnpSid) : List UInt8 := s.text.take 43++List.replicate (44-(s.text.take 43).length) 0

/-- The event struct is filled and handed to the client. -/
def notifyClient (info : HandleInfo) (sub : ClientSubscription) (key : ℤ) : Outcome :=
  ⟨httpOk,some ⟨info.callback,⟨sidField sub.sid,key⟩,info.cookie⟩⟩

/-- The lookups under the handle lock. `before` is the client's handle the first time the lock is
held, `after` the second time, when a subscription that was in progress is finished. -/
def routeEvent (before after : Option HandleInfo) (sid : List UInt8) (key : ℤ) : Outcome :=
  match before with
  | none => ⟨httpPreconditionFailed,none⟩
  | some info =>
    match getClientSubActualSID info.clientSubList.subs sid with
    | some sub => notifyClient info sub key
    | none =>
      if key = 0 then
        match after with
        | none => ⟨httpPreconditionFailed,none⟩
        | some info =>
          match getClientSubActualSID info.clientSubList.subs sid with
          | some sub => notifyClient info sub key
          | none => ⟨httpPreconditionFailed,none⟩
      else ⟨httpPreconditionFailed,none⟩

/-- The event key, when the header is accepted. -/
def eventKeyOf (seq : List UInt8) : Option ℤ :=
  let m := matchstr seq seqFmt
  if m.status = .ok then some (m.storeTo 0) else none

def genaProcessNotificationEvent (event : HttpMessage) (before after : Option HandleInfo) :
    Outcome :=
  match findHdr event.headers .sid with
  | none => ⟨httpPreconditionFailed,none⟩
  | some sid =>
    match (findHdr event.headers .seq).bind eventKeyOf with
    | none => ⟨httpBadRequest,none⟩
    | some key =>
      match findHdr event.headers .nt,findHdr event.headers .nts with
      | some nt,some nts =>
        if memptrCmp nt (cstr "upnp:event") ≠ 0 ∨ memptrCmp nts (cstr "upnp:propchange") ≠ 0 then
          ⟨httpPreconditionFailed,none⟩
        else routeEvent before after sid key
      | _,_ => ⟨httpBadRequest,none⟩

structure Accepted (event : HttpMessage) (sid : List UInt8) (key : ℤ) : Prop where
  sid : findHdr event.headers .sid = some sid
  seq : ∃ seq, findHdr event.headers .seq = some seq ∧ eventKeyOf seq = some key
  nt : ∃ nt, findHdr event.headers .nt = some nt ∧ untilNul nt = cstr "upnp:event"
  nts : ∃ nts, findHdr event.headers .nts = some nts ∧ untilNul nts = cstr "upnp:propchange"

/-- The subscription an event is meant for: the one with its SID, in the list as it is or, for the
first event of a subscription, as it is after the wait. -/
inductive Meant (before after : Option HandleInfo) (sid : List UInt8) (key : ℤ)
    (sub : ClientSubscription) : Prop
  | atOnce (info : HandleInfo) (hb : before = some info) (hs : sub ∈ info.clientSubList.subs)
      (hsid : sub.actualSid = sid)
  | afterWait (info info' : HandleInfo) (hk : key = 0) (hb : before = some info)
      (hno : ∀ u ∈ info.clientSubList.subs, u.actualSid ≠ sid) (ha : after = some info')
      (hs : sub ∈ info'.clientSubList.subs) (hsid : sub.actualSid = sid)

/-- The callback is made for the events that are meant for a subscription, with its client SID. -/
structure Routes (event : HttpMessage) (before after : Option HandleInfo) : Prop where
  made : (genaProcessNotificationEvent event before after).callback.isSome = true ↔
    ∃ sid key sub, Accepted event sid key ∧ Meant before after sid key sub
  carries : ∀ c sid key sub, (genaProcessNotificationEvent event before after).callback = some c →
    Accepted event sid key → Meant before after sid key sub →
    untilNul c.event.sid = sub.sid.text ∧ c.event.eventKey = key

/-- The first subscription whose stored bytes begin with the SID. -/
def FirstHit (subs : List ClientSubscription) (sid : List UInt8) (sub : ClientSubscription) : Prop :=
  ∃ pre post, subs = pre++sub::post ∧ sub.hits sid = true ∧ ∀ u ∈ pre, u.hits sid = false

/-- The subscription the lookups end at. -/
inductive Found (before after : Option HandleInfo) (sid : List UInt8) (key : ℤ)
    (info : HandleInfo) (sub : ClientSubscription) : Prop
  | atOnce (hb : before = some info) (hs : FirstHit info.clientSubList.subs sid sub)
  | afterWait (first : HandleInfo) (hk : key = 0) (hb : before = some first)
      (hno : ∀ u ∈ first.clientSubList.subs, u.hits sid = false) (ha : after = some info)
      (hs : FirstHit info.clientSubList.subs sid sub)

/-- The lookups end at a subscription with another ActualSID, and another client SID than the
subscription that is meant, if there is one. -/
def Strays (event : HttpMessage) (before after : Option HandleInfo) : Prop :=
  ∃ sid key info sub, Accepted event sid key ∧ Found before after sid key info sub ∧
    sub.actualSid ≠ sid ∧ ∀ u, Meant before after sid key u → u.sid ≠ sub.sid

theorem getClientSubActualSID_some {subs : List ClientSubscription} {sid : List UInt8}
    {sub : ClientSubscription} :
    getClientSubActualSID subs sid = some sub ↔ FirstHit subs sid sub := by
  unfold getClientSubActualSID FirstHit
  rw [List.find?_eq_some_iff_append]
  constructor
  · rintro ⟨hs,pre,post,he,hp⟩
    exact ⟨pre,post,he,hs,fun u hu => by simpa using hp u hu⟩
  · rintro ⟨pre,post,he,hs,hp⟩
    exact ⟨hs,pre,post,he,fun u hu => by simpa using hp u hu⟩

theorem getClientSubActualSID_none {subs : List ClientSubscription} {sid : List UInt8} :
    getClientSubActualSID subs sid = none ↔ ∀ u ∈ subs, u.hits sid = false := by
  unfold getClientSubActualSID
  rw [List.find?_eq_none]
  constructor
  · intro h u hu
    simpa using h u hu
  · intro h u hu
    simp [h u hu]

theorem hits_self {sub : ClientSubscription} {sid : List UInt8} (h : sub.actualSid = sid) :
    sub.hits sid = true := by
  subst h
  simp [ClientSubscription.hits,ClientSubscription.stored]

theorem FirstHit.mem {subs : List ClientSubscription} {sid : List UInt8} {sub : ClientSubscription}
    (h : FirstHit subs sid sub) : sub ∈ subs := by
  rcases h with ⟨pre,post,rfl,-,-⟩
  simp

theorem exists_firstHit {subs : List ClientSubscription} {sid : List UInt8}
    {sub : ClientSubscription} (hs : sub ∈ subs) (hh : sub.hits sid = true) :
    ∃ first, FirstHit subs sid first := by
  cases hg : getClientSubActualSID subs sid with
  | some first => exact ⟨first,getClientSubActualSID_some.mp hg⟩
  | none =>
    have hno := getClientSubActualSID_none.mp hg sub hs
    rw [hh] at hno
    cases hno

theorem ClientSubList.eq_of_actualSid (l : ClientSubList) {s t : ClientSubscription}
    (hs : s ∈ l.subs) (ht : t ∈ l.subs) (h : s.actualSid = t.actualSid) : s = t :=
  List.inj_on_of_nodup_map l.distinct hs ht h

@[simp] theorem untilNul_sidField (s : UpnpSid) : untilNul (sidField s) = s.text := by
  have htake : s.text.take 43 = s.text := List.take_of_length_le (by have := s.fits.1; omega)
  have hlen : 44-s.text.length = (43-s.text.length)+1 := by
    have := s.fits.1
    omega
  have hne : ∀ c ∈ s.text, (c != 0) = true := by
    intro c hc
    rw [bne_iff_ne]
    rintro rfl
    exact s.fits.2 hc
  rw [sidField,htake,hlen,List.replicate_succ,untilNul,List.takeWhile_append_of_pos hne]
  simp

/-- The callback of the lookups is the one for the subscription they end at. -/
theorem routeEvent_callback {before after : Option HandleInfo} {sid : List UInt8} {key : ℤ}
    {c : EventCallback} : (routeEvent before after sid key).callback = some c ↔
      ∃ info sub, Found before after sid key info sub ∧
        c = ⟨info.callback,⟨sidField sub.sid,key⟩,info.cookie⟩ := by
  constructor
  · intro h
    unfold routeEvent at h
    split at h
    · cases h
    · rename_i info
      split at h
      · rename_i sub hs
        exact ⟨info,sub,.atOnce rfl (getClientSubActualSID_some.mp hs),(Option.some.inj h).symm⟩
      · rename_i hno
        split at h
        · rename_i hk
          split at h
          · cases h
          · rename_i info'
            split at h
            · rename_i sub hs
              exact ⟨info',sub,.afterWait info hk rfl (getClientSubActualSID_none.mp hno) rfl
                (getClientSubActualSID_some.mp hs),(Option.some.inj h).symm⟩
            · cases h
        · cases h
  · rintro ⟨info,sub,hf,rfl⟩
    cases hf with
    | atOnce hb hs =>
      have hg := getClientSubActualSID_some.mpr hs
      simp only [routeEvent,hb,hg,notifyClient]
    | afterWait first hk hb hno ha hs =>
      have hn := getClientSubActualSID_none.mpr hno
      have hg := getClientSubActualSID_some.mpr hs
      simp only [routeEvent,hb,hn,hk,if_true,ha,hg,notifyClient]

theorem genaProcessNotificationEvent_callback {event : HttpMessage}
    {before after : Option HandleInfo} {c : EventCallback} :
    (genaProcessNotificationEvent event before after).callback = some c ↔
      ∃ sid key, Accepted event sid key ∧ (routeEvent before after sid key).callback = some c := by
  have hnt : ∀ nt, memptrCmp nt (cstr "upnp:event") = 0 ↔ untilNul nt = cstr "upnp:event" :=
    fun nt => memptrCmp_eq_zero (by decide)
  have hnts : ∀ nts, memptrCmp nts (cstr "upnp:propchange") = 0 ↔
      untilNul nts = cstr "upnp:propchange" := fun nts => memptrCmp_eq_zero (by decide)
  constructor
  · intro h
    unfold genaProcessNotificationEvent at h
    split at h
    · cases h
    rename_i sid hsid
    split at h
    · cases h
    rename_i key hkey
    split at h
    · rename_i nt nts hn hs
      split at h
      · cases h
      · rename_i hok
        simp only [ne_eq,not_or,not_not,hnt,hnts] at hok
        exact ⟨sid,key,⟨hsid,Option.bind_eq_some_iff.mp hkey,⟨nt,hn,hok.1⟩,⟨nts,hs,hok.2⟩⟩,h⟩
    · cases h
  · rintro ⟨sid,key,ha,h⟩
    rcases ha.nt with ⟨nt,hn,he⟩
    rcases ha.nts with ⟨nts,hs,he'⟩
    have hkey : (findHdr event.headers .seq).bind eventKeyOf = some key :=
      Option.bind_eq_some_iff.mpr ha.seq
    have hok : ¬(memptrCmp nt (cstr "upnp:event") ≠ 0 ∨
        memptrCmp nts (cstr "upnp:propchange") ≠ 0) := by
      simp only [ne_eq,not_or,not_not,hnt,hnts]
      exact ⟨he,he'⟩
    simp only [genaProcessNotificationEvent,ha.sid,hkey,hn,hs,if_neg hok]
    exact h

theorem Accepted.unique {event : HttpMessage} {sid sid' : List UInt8} {key key' : ℤ}
    (h : Accepted event sid key) (h' : Accepted event sid' key') : sid = sid' ∧ key = key' := by
  rcases h.seq with ⟨seq,hs,hk⟩
  rcases h'.seq with ⟨seq',hs',hk'⟩
  obtain rfl : seq = seq' := Option.some.inj (hs.symm.trans hs')
  exact ⟨Option.some.inj (h.sid.symm.trans h'.sid),Option.some.inj (hk.symm.trans hk')⟩

theorem Meant.unique {before after : Option HandleInfo} {sid : List UInt8} {key : ℤ}
    {s t : ClientSubscription} (hs : Meant before after sid key s)
    (ht : Meant before after sid key t) : s = t := by
  cases hs with
  | atOnce info hb hs hsid =>
    cases ht with
    | atOnce info' hb' ht htsid =>
      obtain rfl : info = info' := Option.some.inj (hb.symm.trans hb')
      exact info.clientSubList.eq_of_actualSid hs ht (hsid.trans htsid.symm)
    | afterWait info' info'' hk hb' hno ha ht htsid =>
      obtain rfl : info = info' := Option.some.inj (hb.symm.trans hb')
      exact absurd hsid (hno s hs)
  | afterWait info info₂ hk hb hno ha hs hsid =>
    cases ht with
    | atOnce info' hb' ht htsid =>
      obtain rfl : info = info' := Option.some.inj (hb.symm.trans hb')
      exact absurd htsid (hno t ht)
    | afterWait info' info'' hk hb' hno' ha' ht htsid =>
      obtain rfl : info₂ = info'' := Option.some.inj (ha.symm.trans ha')
      exact info₂.clientSubList.eq_of_actualSid hs ht (hsid.trans htsid.symm)

theorem Meant.found {before after : Option HandleInfo} {sid : List UInt8} {key : ℤ}
    {t : ClientSubscription} (h : Meant before after sid key t) :
    ∃ info sub, Found before after sid key info sub := by
  cases h with
  | atOnce info hb hs hsid =>
    rcases exists_firstHit hs (hits_self hsid) with ⟨sub,hf⟩
    exact ⟨info,sub,.atOnce hb hf⟩
  | afterWait info info' hk hb hno ha hs hsid =>
    cases hg : getClientSubActualSID info.clientSubList.subs sid with
    | some sub => exact ⟨info,sub,.atOnce hb (getClientSubActualSID_some.mp hg)⟩
    | none =>
      rcases exists_firstHit hs (hits_self hsid) with ⟨sub,hf⟩
      exact ⟨info',sub,.afterWait info hk hb (getClientSubActualSID_none.mp hg) ha hf⟩

theorem Found.meant {before after : Option HandleInfo} {sid : List UInt8} {key : ℤ}
    {info : HandleInfo} {sub : ClientSubscription} (h : Found before after sid key info sub)
    (hsid : sub.actualSid = sid) : Meant before after sid key sub := by
  cases h with
  | atOnce hb hs => exact .atOnce info hb hs.mem hsid
  | afterWait first hk hb hno ha hs =>
    refine .afterWait first info hk hb (fun u hu he => ?_) ha hs.mem hsid
    have hu' := hno u hu
    rw [hits_self he] at hu'
    cases hu'

/-- Events are routed as they are meant to be unless a lookup ends at a subscription whose stored
bytes only begin with the SID of the message. -/
theorem genaProcessNotificationEvent_routes_iff (event : HttpMessage)
    (before after : Option HandleInfo) : Routes event before after ↔ ¬Strays event before after := by
  constructor
  · rintro hr ⟨sid,key,info,sub,ha,hf,-,hno⟩
    have hc := genaProcessNotificationEvent_callback.mpr
      ⟨sid,key,ha,routeEvent_callback.mpr ⟨info,sub,hf,rfl⟩⟩
    rcases hr.made.mp (by rw [hc]; rfl) with ⟨sid',key',t,ha',ht⟩
    rcases ha.unique ha' with ⟨rfl,rfl⟩
    have hcar := (hr.carries _ sid key t hc ha ht).1
    rw [untilNul_sidField] at hcar
    have heq : ∀ x y : UpnpSid, x.text = y.text → x = y := by
      rintro ⟨x,hx⟩ ⟨y,hy⟩ rfl
      rfl
    exact hno t ht (heq _ _ hcar.symm)
  · intro hno
    have hsame : ∀ sid key info sub, Accepted event sid key →
        Found before after sid key info sub →
        ∃ t, Meant before after sid key t ∧ t.sid = sub.sid := by
      intro sid key info sub ha hf
      by_cases hsid : sub.actualSid = sid
      · exact ⟨sub,hf.meant hsid,rfl⟩
      · by_contra hall
        exact hno ⟨sid,key,info,sub,ha,hf,hsid,fun u hu he => hall ⟨u,hu,he⟩⟩
    constructor
    · constructor
      · intro hc
        rcases Option.isSome_iff_exists.mp hc with ⟨c,hc⟩
        rcases genaProcessNotificationEvent_callback.mp hc with ⟨sid,key,ha,hr⟩
        rcases routeEvent_callback.mp hr with ⟨info,sub,hf,-⟩
        rcases hsame sid key info sub ha hf with ⟨t,ht,-⟩
        exact ⟨sid,key,t,ha,ht⟩
      · rintro ⟨sid,key,t,ha,ht⟩
        rcases ht.found with ⟨info,sub,hf⟩
        rw [genaProcessNotificationEvent_callback.mpr
          ⟨sid,key,ha,routeEvent_callback.mpr ⟨info,sub,hf,rfl⟩⟩]
        rfl
    · intro c sid key t hc ha ht
      rcases genaProcessNotificationEvent_callback.mp hc with ⟨sid',key',ha',hr⟩
      rcases ha.unique ha' with ⟨rfl,rfl⟩
      rcases routeEvent_callback.mp hr with ⟨info,sub,hf,rfl⟩
      rcases hsame sid key info sub ha hf with ⟨u,hu,he⟩
      obtain rfl := ht.unique hu
      exact ⟨by rw [untilNul_sidField,he],rfl⟩

def oneSubscription : HandleInfo where
  callback := 1
  cookie := 2
  clientSubList :=
    { subs := [⟨⟨cstr "uuid:client",by decide⟩,cstr "uuid:12",fun _ => 0,by decide⟩]
      ne_nil := by simp [cstr]
      distinct := by simp }

def prefixEvent : HttpMessage :=
  { httpmsgInit with
    isRequest := true
    method := .notify
    headers := [⟨cstr "NT",.nt,cstr "upnp:event"⟩,⟨cstr "NTS",.nts,cstr "upnp:propchange"⟩,
      ⟨cstr "SID",.sid,cstr "uuid:1"⟩,⟨cstr "SEQ",.seq,cstr "7"⟩] }

theorem prefixEvent_routed : ¬ ∀ (event : HttpMessage) (before after : Option HandleInfo),
    Routes event before after := by
  intro h
  have hr := h prefixEvent (some oneSubscription) none
  rcases hr.made.mp (by decide) with ⟨sid,key,t,ha,ht⟩
  obtain rfl : cstr "uuid:1" = sid := Option.some.inj ha.sid
  cases ht with
  | atOnce info hb hs hsid =>
    cases hb
    rw [List.mem_singleton.mp hs] at hsid
    exact absurd hsid (by decide)
  | afterWait info info' hk hb hno ha hs hsid => cases ha

end Gena
end CtrlPt
