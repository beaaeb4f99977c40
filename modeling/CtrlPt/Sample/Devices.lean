import CtrlPt.Lib.LinkedList
import CtrlPt.Ssdp.Discovery

/-! The device list of the sample control point. It is filled from the events of the discovery,
whose strings come from the headers of datagrams. -/
namespace CtrlPt
namespace Sample

open CText CharArray Http Linked Memory Sdk Ssdp

def ohmDeviceType : List UInt8 := cstr "OhmSwitch"

def ohmFieldSize : ℕ := 250

structure OhmDevice where
  uid : CharArray ohmFieldSize
  deviceType : CharArray ohmFieldSize
  location : CharArray ohmFieldSize
  advrTimeOut : ℤ
  deriving DecidableEq

abbrev Devices := Chain OhmDevice

/-- `strcmp` with the UID of a device. -/
def sameUid (uid : List UInt8) (d : OhmDevice) : Except Fault Bool := strcmpEq d.uid.bytes uid

/-- `node` is the memory of a new device. The list may be walked along three times: to find the
device, to its end, and here. -/
def ctrlPointAddDevice (globalDeviceList : Devices) (node : OhmDevice) (event : UpnpDiscovery) :
    Except Fault Devices := do
  let ohm ← strcmpEq event.deviceType.bytes (ohmDeviceType++[0])
  if ohm then do
    let found ← find (sameUid event.uid.bytes) globalDeviceList
    match found with
    | some a => alter globalDeviceList a fun d => { d with advrTimeOut := 5 }
    | none => do
      let uid ← node.uid.strcpy event.uid
      let deviceType ← node.deviceType.strcpy event.deviceType
      let location ← node.location.strcpy event.location
      append globalDeviceList ⟨uid,deviceType,location,5⟩
  else .ok globalDeviceList

/-- The strings of a device end inside of it. -/
structure OhmDevice.Terminated (d : OhmDevice) : Prop where
  uid : d.uid.Terminated
  deviceType : d.deviceType.Terminated
  location : d.location.Terminated

structure DiscoveryTerminated (param : UpnpDiscovery) : Prop where
  uid : param.uid.Terminated
  deviceType : param.deviceType.Terminated
  location : param.location.Terminated

theorem sameUid_eq {uid : List UInt8} (hu : 0 ∈ uid) {d : OhmDevice} (hd : d.Terminated) :
    sameUid uid d = .ok (d.uid.text == untilNul uid) := strcmpEq_eq hd.uid hu

/-- What an event makes of the devices: nothing, a new time for one of them, or a new device. -/
inductive Announced (event : UpnpDiscovery) :
    List (ℕ × OhmDevice) → List (ℕ × OhmDevice) → Prop
  | other {l} (htype : event.deviceType.text ≠ ohmDeviceType) : Announced event l l
  | refreshed {k₁ k₂ x} (htype : event.deviceType.text = ohmDeviceType)
      (huid : x.2.uid.text = event.uid.text) :
      Announced event (k₁++x::k₂) (k₁++(x.1,{ x.2 with advrTimeOut := 5 })::k₂)
  | added {l a d} (htype : event.deviceType.text = ohmDeviceType)
      (hnew : ∀ x ∈ l, x.2.uid.text ≠ event.uid.text) (hd : d.Terminated)
      (huid : d.uid.text = event.uid.text) (hdtype : d.deviceType.text = event.deviceType.text)
      (hlocation : d.location.text = event.location.text) (htime : d.advrTimeOut = 5) :
      Announced event l (l++[(a,d)])

theorem forall_mem_replaced {α : Type} {P : α → Prop} {k₁ k₂ : List α} {x y : α}
    (h : ∀ z ∈ k₁++x::k₂, P z) (hy : P y) : ∀ z ∈ k₁++y::k₂, P z := by
  rw [List.forall_mem_append,List.forall_mem_cons] at h ⊢
  exact ⟨h.1,hy,h.2.2⟩

theorem Announced.terminated {event : UpnpDiscovery} {l l' : List (ℕ × OhmDevice)}
    (h : Announced event l l') (ht : ∀ x ∈ l, x.2.Terminated) : ∀ x ∈ l', x.2.Terminated := by
  cases h with
  | other _ => exact ht
  | @refreshed k₁ k₂ x _ _ =>
    have hx := ht x (by simp)
    exact forall_mem_replaced ht ⟨hx.uid,hx.deviceType,hx.location⟩
  | added _ _ hd _ _ _ _ =>
    exact List.forall_mem_append.mpr ⟨ht,List.forall_mem_singleton.mpr hd⟩

/-- Every copy stays inside the fields of the device. -/
theorem ctrlPointAddDevice_spec {c : Devices} {l : List (ℕ × OhmDevice)} (h : c.Holds l)
    (ht : ∀ x ∈ l, x.2.Terminated) (node : OhmDevice) {event : UpnpDiscovery}
    (he : DiscoveryTerminated event) :
    ∃ c' l', ctrlPointAddDevice c node event = .ok c' ∧ c'.Holds l' ∧ Announced event l l' := by
  have hlit : (0 : UInt8) ∈ ohmDeviceType++[0] := by simp
  have htype : strcmpEq event.deviceType.bytes (ohmDeviceType++[0]) =
      .ok (event.deviceType.text == ohmDeviceType) := by
    have hnul : 0 ∉ ohmDeviceType := by decide
    rw [strcmpEq_eq he.deviceType hlit,untilNul_terminated hnul]
    rfl
  have hfind : find (sameUid event.uid.bytes) c =
      .ok ((l.find? fun x => x.2.uid.text == untilNul event.uid.bytes).map Prod.fst) :=
    find_spec (f := fun d => d.uid.text == untilNul event.uid.bytes) h
      fun x hx => sameUid_eq he.uid (ht x hx)
  unfold ctrlPointAddDevice
  rw [htype,Rounds.ok_bind]
  by_cases hohm : event.deviceType.text = ohmDeviceType
  · rw [if_pos (beq_iff_eq.mpr hohm),hfind,Rounds.ok_bind]
    cases hfound : l.find? fun x => x.2.uid.text == untilNul event.uid.bytes with
    | some x =>
      rcases List.find?_eq_some_iff_append.mp hfound with ⟨hx,k₁,k₂,rfl,-⟩
      rcases alter_spec h (fun d => { d with advrTimeOut := 5 }) with ⟨c',hc',hh⟩
      exact ⟨c',_,hc',hh,.refreshed hohm (beq_iff_eq.mp hx)⟩
    | none =>
      have hle : lineSize ≤ ohmFieldSize := by decide
      rcases strcpy_holds node.uid he.uid hle with ⟨uid,hu,hhu⟩
      rcases strcpy_holds node.deviceType he.deviceType hle with ⟨deviceType,hd,hhd⟩
      rcases strcpy_holds node.location he.location hle with ⟨location,hl,hhl⟩
      simp only [Option.map_none,hu,hd,hl,Rounds.ok_bind]
      rcases append_spec h ⟨uid,deviceType,location,5⟩ with ⟨c',hc',hh⟩
      refine ⟨c',_,hc',hh,.added hohm ?_ ⟨hhu.terminated,hhd.terminated,hhl.terminated⟩ hhu.text
        hhd.text hhl.text rfl⟩
      intro x hx hxu
      exact List.find?_eq_none.mp hfound x hx (beq_iff_eq.mpr hxu)
  · rw [if_neg (by rwa [beq_iff_eq])]
    exact ⟨c,l,rfl,h,.other hohm⟩

/-- The event `CtrlPointCallbackEventHandler` gives to `CtrlPointAddDevice`. -/
def addedEvent (c : Callback) : Option UpnpDiscovery :=
  match c.event with
  | .advertisementAlive | .searchResult => c.param
  | _ => none

/-- The callbacks of a message, those of its jobs included. -/
def delivered (r : List Callback × List ResultData) : List Callback := r.1++r.2.map sendSearchResult

/-- The copies of a datagram stay inside the fields and end there, and so do those of its events. -/
structure DiscoverySafe (res : Uri.Resolver) (searchSocket : Bool) (datagram : List UInt8)
    (handleTable : List (Option HandleInfo)) (stack : UpnpDiscovery) (destAddr : Uri.SockAddr) :
    Prop where
  fields : ∀ hmsg, ctrlptMessage res searchSocket datagram = some hmsg →
    (getClientHandleInfo handleTable).isSome →
      ∃ param, discoveryParam stack destAddr hmsg.headers = .ok param ∧ DiscoveryTerminated param
  devices : ∀ hmsg, ctrlptMessage res searchSocket datagram = some hmsg →
    ∀ second cookie taken r,
      ssdpHandleCtrlptMsg handleTable second stack destAddr hmsg false cookie taken = .ok r →
      ∀ c ∈ delivered r, ∀ event, addedEvent c = some event →
        ∀ (globalDeviceList : Devices) l (node : OhmDevice),
          globalDeviceList.Holds l → (∀ x ∈ l, x.2.Terminated) →
          ∃ devices' l', ctrlPointAddDevice globalDeviceList node event = .ok devices' ∧
            devices'.Holds l' ∧ ∀ x ∈ l', x.2.Terminated

/-- Each of the two headers is shorter than its field, or as long and ends before. -/
def HeadersFit (headers : List HttpHeader) : Prop :=
  ∀ id, id = .dt ∨ id = .uid → ∀ v, findHdr headers id = some v →
    v.length < lineSize ∨ v.length = lineSize ∧ 0 ∈ v

theorem copyHdr_iff (headers : List HttpHeader) (id : HdrId) :
    (∃ b, copyHdr headers id = .ok b ∧ b.Terminated) ↔
      ∀ v, findHdr headers id = some v → v.length < lineSize ∨ v.length = lineSize ∧ 0 ∈ v := by
  unfold copyHdr
  cases findHdr headers id with
  | none =>
    constructor
    · rintro - v ⟨⟩
    · exact fun _ => ⟨_,rfl,by decide⟩
  | some v =>
    rw [strncpy_zero_iff]
    constructor
    · rintro h v ⟨⟩
      exact h
    · exact fun h => h v rfl

theorem copyLocation_ok (location : CharArray lineSize) (headers : List HttpHeader) :
    ∃ b, copyLocation location headers = .ok b ∧ b.Terminated := by
  rcases write_ok location 0 [0] (by decide) with ⟨b,hb,hbytes⟩
  unfold copyLocation
  rw [hb]
  cases findHdr headers .location with
  | none =>
    refine ⟨b,rfl,?_⟩
    rw [CharArray.Terminated,hbytes]
    simp
  | some v =>
    have hlen : (if v.length < lineSize-1 then v.length else lineSize-1) ≤ lineSize-1 := by
      split <;> omega
    have hpos : 0 < lineSize := by decide
    show ∃ c, linecopylen b v v.length = .ok c ∧ c.Terminated
    unfold linecopylen
    generalize (if v.length < lineSize-1 then v.length else lineSize-1) = len at hlen
    rcases write_ok b 0 (padded v len) (by
      rw [padded_length]
      omega) with ⟨c,hc,-⟩
    rcases write_ok c len [0] (by
      rw [List.length_singleton]
      omega) with ⟨d,hd,hdbytes⟩
    refine ⟨d,?_,?_⟩
    · dsimp only
      rw [strncpy,hc]
      exact hd
    · rw [CharArray.Terminated,hdbytes]
      simp

theorem discoveryParam_iff (stack : UpnpDiscovery) (destAddr : Uri.SockAddr)
    (headers : List HttpHeader) :
    (∃ param, discoveryParam stack destAddr headers = .ok param ∧ DiscoveryTerminated param) ↔
      HeadersFit headers := by
  rcases copyLocation_ok stack.location headers with ⟨location,hl,htl⟩
  have hdt := copyHdr_iff headers .dt
  have huid := copyHdr_iff headers .uid
  have hfit : HeadersFit headers ↔
      (∃ b, copyHdr headers .dt = .ok b ∧ b.Terminated) ∧
        ∃ b, copyHdr headers .uid = .ok b ∧ b.Terminated := by
    rw [hdt,huid]
    constructor
    · exact fun h => ⟨h .dt (.inl rfl),h .uid (.inr rfl)⟩
    · rintro ⟨h₁,h₂⟩ id (rfl | rfl)
      · exact h₁
      · exact h₂
  rw [hfit]
  constructor
  · rintro ⟨param,hp,ht⟩
    unfold discoveryParam at hp
    rw [hl] at hp
    rcases Rounds.of_bind_ok hp with ⟨_,hloc,hp⟩
    rcases Rounds.of_bind_ok hp with ⟨deviceType,hd,hp⟩
    rcases Rounds.of_bind_ok hp with ⟨uid,hu,hp⟩
    cases hp
    exact ⟨⟨deviceType,hd,ht.deviceType⟩,⟨uid,hu,ht.uid⟩⟩
  · rintro ⟨⟨deviceType,hd,htd⟩,uid,hu,htu⟩
    refine ⟨⟨upnpESuccess,uid,deviceType,location,destAddr⟩,?_,⟨htu,htd,htl⟩⟩
    unfold discoveryParam
    rw [hl,hd,hu]
    rfl

theorem queueResults_param {callback : ℕ} {param : UpnpDiscovery} {st : List UInt8}
    {searches : List SsdpSearchArg} {taken : List Bool} {jobs : List (Option ResultData)}
    (h : queueResults callback param st searches taken = .ok jobs) :
    ∀ d ∈ jobs.reduceOption, d.param = param := by
  induction searches generalizing taken jobs with
  | nil =>
    cases h
    exact fun d hd => absurd hd List.not_mem_nil
  | cons arg rest ih =>
    rcases Rounds.of_bind_ok h with ⟨matched,-,h⟩
    rcases Rounds.of_bind_ok h with ⟨jobs',hjobs,h⟩
    cases h
    intro d hd
    split at hd
    · rw [List.reduceOption_cons_of_some] at hd
      rcases List.mem_cons.mp hd with rfl | hd
      · rfl
      · exact ih hjobs d hd
    · rw [List.reduceOption_cons_of_none] at hd
      exact ih hjobs d hd

theorem finishReply_param {handleTable : List (Option HandleInfo)} {callback : ℕ}
    {param : UpnpDiscovery} {st : List UInt8} {taken : List Bool} {jobs : List (Option ResultData)}
    (h : finishReply handleTable callback param st taken = .ok jobs) :
    ∀ d ∈ jobs.reduceOption, d.param = param := by
  unfold finishReply at h
  split at h
  · cases h
    exact fun d hd => absurd hd List.not_mem_nil
  · exact queueResults_param h

/-- An event carries what was copied from the message. -/
theorem delivered_param {first second : List (Option HandleInfo)} {stack : UpnpDiscovery}
    {destAddr : Uri.SockAddr} {hmsg : HttpMessage} {cookie : ℕ} {taken : List Bool}
    {r : List Callback × List ResultData}
    (h : ssdpHandleCtrlptMsg first second stack destAddr hmsg false cookie taken = .ok r) :
    ∀ c ∈ delivered r, ∀ event, c.param = some event →
      (getClientHandleInfo first).isSome ∧
        discoveryParam stack destAddr hmsg.headers = .ok event := by
  rcases Rounds.of_bind_ok h with ⟨begun,hb,h⟩
  unfold beginMsg at hb
  cases hclient : getClientHandleInfo first with
  | none =>
    rw [hclient] at hb
    cases hb
    cases h
    exact fun c hc => absurd hc List.not_mem_nil
  | some client =>
    rw [hclient] at hb
    rcases Rounds.of_bind_ok hb with ⟨param,hparam,hb⟩
    rcases Rounds.of_bind_ok hb with ⟨verdict,-,hb⟩
    have hevent : ∀ c ∈ delivered r, ∀ event, c.param = some event → param = event := by
      cases verdict with
      | drop =>
        cases hb
        cases h
        exact fun c hc => absurd hc List.not_mem_nil
      | advertise e =>
        cases hb
        cases h
        intro c hc event he
        rw [List.mem_singleton.mp hc] at he
        exact Option.some.inj he
      | reply st =>
        cases hb
        rcases Rounds.of_bind_ok h with ⟨jobs,hjobs,h⟩
        cases h
        intro c hc event he
        rcases List.mem_map.mp hc with ⟨d,hd,rfl⟩
        rw [← finishReply_param hjobs d hd]
        exact Option.some.inj he
    intro c hc event he
    rw [← hevent c hc event he]
    exact ⟨rfl,hparam⟩

theorem addedEvent_param {c : Callback} {event : UpnpDiscovery} (h : addedEvent c = some event) :
    c.param = some event := by
  unfold addedEvent at h
  split at h
  · exact h
  · exact h
  · cases h

/-- The device type and the UID fit exactly when the headers do. -/
theorem discoverySafe_iff (res : Uri.Resolver) (searchSocket : Bool) (datagram : List UInt8)
    (handleTable : List (Option HandleInfo)) (stack : UpnpDiscovery) (destAddr : Uri.SockAddr) :
    DiscoverySafe res searchSocket datagram handleTable stack destAddr ↔
      ∀ hmsg, ctrlptMessage res searchSocket datagram = some hmsg →
        (getClientHandleInfo handleTable).isSome → HeadersFit hmsg.headers := by
  constructor
  · intro h hmsg hmsg' hclient
    exact (discoveryParam_iff stack destAddr hmsg.headers).mp (h.fields hmsg hmsg' hclient)
  · intro h
    have hfields : ∀ hmsg, ctrlptMessage res searchSocket datagram = some hmsg →
        (getClientHandleInfo handleTable).isSome →
          ∃ param, discoveryParam stack destAddr hmsg.headers = .ok param ∧
            DiscoveryTerminated param := fun hmsg hmsg' hclient =>
      (discoveryParam_iff stack destAddr hmsg.headers).mpr (h hmsg hmsg' hclient)
    refine ⟨hfields,?_⟩
    intro hmsg hmsg' second cookie taken r hr c hc event he globalDeviceList l node hl hdev
    rcases delivered_param hr c hc event (addedEvent_param he) with ⟨hclient,hparam⟩
    rcases hfields hmsg hmsg' hclient with ⟨param,hp,ht⟩
    rw [hparam] at hp
    cases hp
    rcases ctrlPointAddDevice_spec hl hdev node ht with ⟨devices',l',hadd,hl',hann⟩
    exact ⟨devices',l',hadd,hl',hann.terminated hdev⟩

def longDeviceType : List UInt8 :=
  cstr "NOTIFY * HTTP/1.1\r\nHOST: 239.255.255.250:1900\r\nNTS: ssdp:alive\r\nDT: "++
    List.replicate 181 97++cstr "\r\n\r\n"

theorem longDeviceType_overflows :
    ¬DiscoverySafe Uri.Resolver.empty false longDeviceType idleClient.handleTable emptyDiscovery
      Uri.SockAddr.cleared := by
  intro h
  have hmsg : ∃ hmsg, ctrlptMessage Uri.Resolver.empty false longDeviceType = some hmsg ∧
      discoveryParam emptyDiscovery Uri.SockAddr.cleared hmsg.headers = .error .store := by
    have hsome : (ctrlptMessage Uri.Resolver.empty false longDeviceType).map
        (fun hmsg => discoveryParam emptyDiscovery Uri.SockAddr.cleared hmsg.headers) =
          some (.error .store) := by decide +kernel
    rcases Option.map_eq_some_iff.mp hsome with ⟨hmsg,h₁,h₂⟩
    exact ⟨hmsg,h₁,h₂⟩
  rcases hmsg with ⟨hmsg,h₁,h₂⟩
  rcases h.fields hmsg h₁ (by decide) with ⟨param,hp,-⟩
  rw [h₂] at hp
  cases hp

end Sample
end CtrlPt
