import CtrlPt.Sample.DeviceList

/-! `CtrlPointTimerLoop`: the devices that expire and the searches that are to renew them. -/
namespace CtrlPt
namespace Sample
namespace Renewal

open CText Memory Sdk Ssdp Linked Rounds DeviceList

/-- How often the timeouts are verified, in seconds. -/
def timerIncr : ℤ := 30

/-- The calls of a run. A check is given what its searches are started in, one after another. -/
inductive RenewalEvent
  | announcement (node : OhmDevice) (event : UpnpDiscovery) (h : DiscoveryTerminated event)
  | check (hnd : ℤ) (contexts : ℕ → SearchContext)

/-- The type and the UID of a device that is listed. -/
abbrev Printed := List UInt8 × List UInt8

/-- What happens in a run: a UID is announced, or some devices are dropped and some searches
accepted. -/
inductive Happening
  | announced (uid : List UInt8)
  | checked (dropped : List Printed) (accepted : List SearchCall)

/-- The calls of `UpnpSearchAsync` that return `UPNP_E_SUCCESS`. The cookie is NULL. -/
def acceptedSearches (hnd : ℤ) (contexts : ℕ → SearchContext) :
    List SearchCall → Except Fault (List SearchCall)
  | [] => .ok []
  | call::calls => do
    let r ← upnpSearchAsync (contexts calls.length) hnd call.1 (some call.2.text) 0
    let accepted ← acceptedSearches hnd contexts calls
    .ok (if r.ret = upnpESuccess then call::accepted else accepted)

def droppedDevices (before behind : List Printed) : List Printed :=
  before.filter fun d => d.2 ∉ behind.map Prod.snd

def happen (incr : ℤ) (x : Devices × List Happening) :
    RenewalEvent → Except Fault (Devices × List Happening)
  | .announcement node event _ => do
    let devices ← ctrlPointAddDevice x.1 node event
    .ok (devices,x.2++[.announced event.uid.text])
  | .check hnd contexts => do
    let before ← ctrlPointPrintList x.1
    let (devices,searches) ← ctrlPointVerifyTimeouts x.1 incr
    let behind ← ctrlPointPrintList devices
    let accepted ← acceptedSearches hnd contexts searches
    .ok (devices,x.2++[.checked (droppedDevices before behind) accepted])

/-- A search for the device was accepted at a check, and the device not announced since. -/
def Renewed (past : List Happening) (d : Printed) : Prop :=
  ∃ k dropped accepted k', past = k++.checked dropped accepted::k' ∧ .announced d.2 ∉ k' ∧
    ∃ call ∈ accepted, call.2.text = d.1

/-- Every device that a check drops had been searched for. -/
def RenewedFirst (trace : List Happening) : Prop :=
  ∀ k dropped accepted k', trace = k++.checked dropped accepted::k' →
    ∀ d ∈ dropped, Renewed k d

def AnnouncesOhm : RenewalEvent → Prop
  | .announcement _ event _ => event.deviceType.text = ohmDeviceType
  | .check _ _ => False

def IsCheck : RenewalEvent → Prop
  | .announcement _ _ _ => False
  | .check _ _ => True

/-- No check comes after the announcement of a device that the control point lists. -/
def NeverChecked (events : List RenewalEvent) : Prop :=
  events.Pairwise fun e e' => AnnouncesOhm e → ¬IsCheck e'

theorem ssdpRequestType1_ohm : ssdpRequestType1 ohmDeviceType = .serror := by decide

theorem acceptedSearches_ohm (hnd : ℤ) (contexts : ℕ → SearchContext) {calls : List SearchCall}
    (h : ∀ call ∈ calls, call.2.text = ohmDeviceType) :
    acceptedSearches hnd contexts calls = .ok [] := by
  induction calls with
  | nil => rfl
  | cons call calls ih =>
    have htype : ssdpRequestType1 call.2.text = .serror := by
      rw [h call List.mem_cons_self]
      exact ssdpRequestType1_ohm
    rcases upnpSearchAsync_serror htype (contexts calls.length) hnd call.1 0 with ⟨e,hr,he⟩
    rw [acceptedSearches,hr,ok_bind,ih fun x hx => h x (List.mem_cons_of_mem _ hx),ok_bind,if_neg he]

def NothingAccepted (trace : List Happening) : Prop :=
  ∀ dropped accepted, .checked dropped accepted ∈ trace → accepted = []

def NothingDropped (trace : List Happening) : Prop :=
  ∀ dropped accepted, .checked dropped accepted ∈ trace → dropped = []

theorem renewedFirst_iff {trace : List Happening} (h : NothingAccepted trace) :
    RenewedFirst trace ↔ NothingDropped trace := by
  constructor
  · intro hall dropped accepted hmem
    rcases List.append_of_mem hmem with ⟨k,k',rfl⟩
    rw [List.eq_nil_iff_forall_not_mem]
    intro d hd
    rcases hall k dropped accepted k' rfl d hd with ⟨k₁,dropped₁,accepted₁,k₂,rfl,-,call,hcall,-⟩
    have hnone := h dropped₁ accepted₁ (by simp)
    rw [hnone] at hcall
    exact List.not_mem_nil hcall
  · rintro hall k dropped accepted k' rfl d hd
    rw [hall dropped accepted (by simp)] at hd
    exact absurd hd List.not_mem_nil

theorem nothingAccepted_append {past : List Happening} {x : Happening} :
    NothingAccepted (past++[x]) ↔ NothingAccepted past ∧ NothingAccepted [x] := by
  simp only [NothingAccepted,List.mem_append,or_imp,forall_and]

theorem nothingDropped_append {past : List Happening} {x : Happening} :
    NothingDropped (past++[x]) ↔ NothingDropped past ∧ NothingDropped [x] := by
  simp only [NothingDropped,List.mem_append,or_imp,forall_and]

/-- No device has more time left than an announcement gives it. -/
def Fresh (m : Registry) : Prop := ∀ uid r, m.entries uid = some r → r.2.remaining ≤ 5

theorem announce_entries (m : Registry) (event : UpnpDiscovery) (uid : List UInt8) :
    (announce m event).entries uid =
      if event.deviceType.text = ohmDeviceType ∧ uid = event.uid.text then
        some (((m.entries uid).map fun r => (r.1,{ r.2 with remaining := 5 })).getD
          (m.clock,⟨event.deviceType.text,event.location.text,5⟩))
      else m.entries uid := by
  unfold announce
  by_cases hohm : event.deviceType.text = ohmDeviceType
  · rw [if_pos hohm]
    by_cases huid : uid = event.uid.text
    · have hboth : event.deviceType.text = ohmDeviceType ∧ uid = event.uid.text := ⟨hohm,huid⟩
      rw [if_pos hboth,← huid]
      cases hr : m.entries uid with
      | none => exact if_pos rfl
      | some r =>
        simp [OrderedMap.alter,OrderedMap.filterMap,hr]
    · have hnot : ¬(event.deviceType.text = ohmDeviceType ∧ uid = event.uid.text) :=
        fun h => huid h.2
      rw [if_neg hnot]
      split
      · cases hr : m.entries uid with
        | none => simp only [OrderedMap.alter,OrderedMap.filterMap,hr,Option.bind_none]
        | some r =>
          simp [OrderedMap.alter,OrderedMap.filterMap,hr,huid]
      · exact if_neg huid
  · have hnot : ¬(event.deviceType.text = ohmDeviceType ∧ uid = event.uid.text) :=
      fun h => hohm h.1
    rw [if_neg hohm,if_neg hnot]

theorem Fresh.announce {m : Registry} (h : Fresh m) (event : UpnpDiscovery) :
    Fresh (announce m event) := by
  intro uid r hr
  rw [announce_entries] at hr
  split at hr
  · rw [← Option.some.inj hr]
    cases m.entries uid <;> exact le_rfl
  · exact h uid r hr

section Listed

variable {c : Devices} {l : List (ℕ × OhmDevice)} {m : Registry}

theorem shows_ne_nil (h : Shows c l m) : l ≠ [] ↔ ∃ uid, (m.entries uid).isSome = true := by
  simp only [h.listed.mem_iff]
  constructor
  · intro hne
    rcases List.exists_mem_of_ne_nil l hne with ⟨x,hx⟩
    exact ⟨_,List.mem_map_of_mem (List.mem_map_of_mem hx)⟩
  · rintro ⟨uid,huid⟩ rfl
    exact List.not_mem_nil huid

theorem Fresh.check (hfresh : Fresh m) (h : Shows c l m) : l.filterMap (aged timerIncr) = [] := by
  rw [List.filterMap_eq_nil_iff]
  intro x hx
  rcases h.listed.entry (List.mem_map_of_mem hx) with ⟨n,hn⟩
  have hle : x.2.advrTimeOut ≤ 5 := hfresh _ _ hn
  have hincr : timerIncr = 30 := rfl
  exact if_pos (by omega)

theorem fresh_nil {c : Devices} {m : Registry} (h : Shows c [] m) : Fresh m := by
  intro uid r hr
  have hsome : (m.entries uid).isSome = true := by
    rw [hr]
    rfl
  exact absurd rfl ((shows_ne_nil h).mpr ⟨uid,hsome⟩)

theorem happen_announcement (h : Shows c l m) (incr : ℤ) (past : List Happening) (node : OhmDevice)
    {event : UpnpDiscovery} (he : DiscoveryTerminated event) :
    ∃ c' l', happen incr (c,past) (.announcement node event he) =
        .ok (c',past++[.announced event.uid.text]) ∧ Shows c' l' (announce m event) ∧
      (l' ≠ [] ↔ l ≠ [] ∨ AnnouncesOhm (.announcement node event he)) := by
  rcases ctrlPointAddDevice_shows h node he with ⟨c',l',hc',h'⟩
  refine ⟨c',l',by simp only [happen,hc',ok_bind],h',?_⟩
  rw [shows_ne_nil h',shows_ne_nil h]
  constructor
  · rintro ⟨uid,huid⟩
    rw [announce_entries] at huid
    split at huid
    · rename_i hohm
      exact .inr hohm.1
    · exact .inl ⟨uid,huid⟩
  · rintro (⟨uid,huid⟩ | hohm)
    · refine ⟨uid,?_⟩
      rw [announce_entries]
      split
      · rfl
      · exact huid
    · refine ⟨event.uid.text,?_⟩
      rw [announce_entries,if_pos ⟨hohm,rfl⟩]
      rfl

@[simp] theorem droppedDevices_nil (before : List Printed) : droppedDevices before [] = before := by
  simp [droppedDevices]

/-- No search of a check is accepted, and one that leaves nothing drops the whole list. -/
theorem happen_check (h : Shows c l m) (incr : ℤ) (past : List Happening) (hnd : ℤ)
    (contexts : ℕ → SearchContext) :
    ∃ c' dropped, happen incr (c,past) (.check hnd contexts) =
        .ok (c',past++[.checked dropped []]) ∧
      Shows c' (l.filterMap (aged incr)) (m.filterMap (age incr)) ∧
      (l.filterMap (aged incr) = [] → (dropped = [] ↔ l = [])) := by
  rcases ctrlPointVerifyTimeouts_shows h incr with ⟨c',hc',h'⟩
  have hohm : ∀ call ∈ (l.filterMap (aged incr)).filterMap (searchFor incr),
      call.2.text = ohmDeviceType := by
    intro call hcall
    rcases List.mem_filterMap.mp hcall with ⟨x,hx,hsearch⟩
    unfold searchFor at hsearch
    split at hsearch
    · rw [← Option.some.inj hsearch]
      exact h'.ohm x hx
    · cases hsearch
  refine ⟨c',droppedDevices (l.map fun x => (x.2.deviceType.text,x.2.uid.text))
    ((l.filterMap (aged incr)).map fun x => (x.2.deviceType.text,x.2.uid.text)),?_,h',?_⟩
  · simp only [happen,ctrlPointPrintList_spec h.holds,hc',ctrlPointPrintList_spec h'.holds,
      acceptedSearches_ohm hnd contexts hohm,ok_bind]
  · intro hnil
    rw [hnil,List.map_nil,droppedDevices_nil,List.map_eq_nil_iff]

/-- However often the timeouts are verified, no search is accepted. -/
theorem run_nothingAccepted (h : Shows c l m) (incr : ℤ) {past : List Happening}
    (hpast : NothingAccepted past) (events : List RenewalEvent) :
    ∃ c' trace, events.foldlM (happen incr) (c,past) = .ok (c',trace) ∧
      NothingAccepted trace := by
  induction events generalizing c l m past with
  | nil => exact ⟨c,past,rfl,hpast⟩
  | cons e events ih =>
    rw [List.foldlM_cons]
    cases e with
    | announcement node event he =>
      rcases happen_announcement h incr past node he with ⟨c',l',hstep,h',-⟩
      rw [hstep,ok_bind]
      exact ih h' (nothingAccepted_append.mpr ⟨hpast,by simp [NothingAccepted]⟩)
    | check hnd contexts =>
      rcases happen_check h incr past hnd contexts with ⟨c',dropped,hstep,h',-⟩
      rw [hstep,ok_bind]
      exact ih h' (nothingAccepted_append.mpr ⟨hpast,by simp [NothingAccepted]⟩)

/-- A check of the timer loop drops what is listed, that is, all that was announced before. -/
theorem run_nothingDropped (h : Shows c l m) (hfresh : Fresh m) {past trace : List Happening}
    {events : List RenewalEvent} {c' : Devices}
    (hrun : events.foldlM (happen timerIncr) (c,past) = .ok (c',trace)) :
    NothingDropped trace ↔
      NothingDropped past ∧ (l ≠ [] → ∀ e ∈ events, ¬IsCheck e) ∧ NeverChecked events := by
  induction events generalizing c l m past with
  | nil =>
    cases hrun
    simp [NeverChecked]
  | cons e events ih =>
    rw [NeverChecked,List.pairwise_cons,List.forall_mem_cons]
    rw [List.foldlM_cons] at hrun
    cases e with
    | announcement node event he =>
      rcases happen_announcement h timerIncr past node he with ⟨c',l',hstep,h',hl'⟩
      rw [hstep,ok_bind] at hrun
      have hsame : NothingDropped [.announced event.uid.text] := by simp [NothingDropped]
      rw [ih h' (hfresh.announce event) hrun,nothingDropped_append,hl',or_imp]
      simp only [hsame,and_true,IsCheck,not_false_eq_true,true_and]
      constructor
      · rintro ⟨hd,⟨hl,ho⟩,hc⟩
        exact ⟨hd,hl,fun e he ho' => ho ho' e he,hc⟩
      · rintro ⟨hd,hl,ho,hc⟩
        exact ⟨hd,⟨hl,fun ho' e he => ho e he ho'⟩,hc⟩
    | check hnd contexts =>
      rcases happen_check h timerIncr past hnd contexts with ⟨c',dropped,hstep,h',hdropped⟩
      rw [hstep,ok_bind] at hrun
      have hnil := hfresh.check h
      rw [hnil] at h'
      have hnothing : NothingDropped [.checked dropped []] ↔ l = [] := by
        simpa [NothingDropped] using hdropped hnil
      rw [ih h' (fresh_nil h') hrun,nothingDropped_append,hnothing]
      simp only [ne_eq,not_true_eq_false,IsCheck,AnnouncesOhm,false_imp_iff,true_and,false_and,
        imp_false,Decidable.not_not,and_assoc,implies_true]
      rfl

end Listed

/-- In every run each device that expires had been searched for before if and only if no
announcement is followed by a check. -/
theorem renewedFirst_iff_neverChecked (events : List RenewalEvent) :
    ∃ c trace, events.foldlM (happen timerIncr) (empty,[]) = .ok (c,trace) ∧
      (RenewedFirst trace ↔ NeverChecked events) := by
  have hnone : NothingAccepted [] := by simp [NothingAccepted]
  have hfresh : Fresh OrderedMap.empty := by rintro uid r ⟨⟩
  rcases run_nothingAccepted shows_empty timerIncr hnone events with ⟨c,trace,hrun,hacc⟩
  refine ⟨c,trace,hrun,(renewedFirst_iff hacc).trans ?_⟩
  rw [run_nothingDropped shows_empty hfresh hrun]
  simp [NothingDropped]

def switchEvent : UpnpDiscovery :=
  { emptyDiscovery with
    uid := ⟨cstr "s"++List.replicate 179 0,by decide +kernel⟩
    deviceType := ⟨ohmDeviceType++List.replicate 171 0,by decide +kernel⟩ }

theorem switchEvent_terminated : DiscoveryTerminated switchEvent where
  uid := by decide
  deviceType := by decide
  location := by decide

def switchChecked : List RenewalEvent :=
  [.announcement ⟨CharArray.zero ohmFieldSize,CharArray.zero ohmFieldSize,
      CharArray.zero ohmFieldSize,0⟩ switchEvent switchEvent_terminated,
    .check 1 fun _ => ⟨1,false,idleClient,SearchEnv.calm⟩]

theorem switch_expires :
    (switchChecked.foldlM (happen timerIncr) (empty,[])).map Prod.snd =
        .ok [.announced (cstr "s"),.checked [(ohmDeviceType,cstr "s")] []] ∧
      ¬RenewedFirst [.announced (cstr "s"),.checked [(ohmDeviceType,cstr "s")] []] := by
  constructor
  · rfl
  · rw [renewedFirst_iff (by simp [NothingAccepted])]
    simp [NothingDropped]

end Renewal
end Sample
end CtrlPt
