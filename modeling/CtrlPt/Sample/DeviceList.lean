import CtrlPt.Lib.OrderedMap
import CtrlPt.Sample.Devices

/-! `GlobalDeviceList` in memory, and the ordered map it is meant to be. -/
namespace CtrlPt
namespace Sample
namespace DeviceList

open CText CharArray Memory Sdk Ssdp Linked Rounds

def ctrlPointRemoveDevice (globalDeviceList : Devices) (uid : List UInt8) :
    Except Fault Devices := do
  let (_,globalDeviceList) ← remove (sameUid (uid++[0])) globalDeviceList
  .ok globalDeviceList

def ctrlPointRemoveAll (globalDeviceList : Devices) : Except Fault Devices :=
  freeAll globalDeviceList

/-- A call of `UpnpSearchAsync`: the seconds to wait and the target. -/
abbrev SearchCall := ℤ × CharArray ohmFieldSize

structure Verifying where
  globalDeviceList : Devices
  prevdevnode : Option ℕ
  curdevnode : Option ℕ
  searches : List SearchCall

def verifyRound (incr : ℤ) (x : Verifying) :
    Except Fault (Verifying ⊕ (Devices × List SearchCall)) :=
  match x.curdevnode with
  | none => .ok (.inr (x.globalDeviceList,x.searches))
  | some cur => do
    let devices ← alter x.globalDeviceList cur fun d => { d with advrTimeOut := d.advrTimeOut-incr }
    let n ← read devices.nodes cur
    if n.val.advrTimeOut ≤ 0 then do
      let devices ← unlink devices x.prevdevnode cur
      match x.prevdevnode with
      | some prev => do
        let m ← read devices.nodes prev
        .ok (.inl ⟨devices,some prev,m.next,x.searches⟩)
      | none => .ok (.inl ⟨devices,none,devices.head,x.searches⟩)
    else
      let searches :=
        if n.val.advrTimeOut < 2*incr then x.searches++[(incr,n.val.deviceType)] else x.searches
      .ok (.inl ⟨devices,some cur,n.next,searches⟩)

/-- The list that is left and the searches that are started. -/
def ctrlPointVerifyTimeouts (globalDeviceList : Devices) (incr : ℤ) :
    Except Fault (Devices × List SearchCall) :=
  rounds .running (verifyRound incr) (globalDeviceList.nodes.length+1)
    ⟨globalDeviceList,none,globalDeviceList.head,[]⟩

/-- `while (--count && tmpdevnode)` -/
def getRound (nodes : Nodes OhmDevice) (x : ℤ × Option ℕ) :
    Except Fault ((ℤ × Option ℕ) ⊕ Option ℕ) :=
  if x.1-1 ≠ 0 then
    match x.2 with
    | some tmp => do
      let n ← read nodes tmp
      .ok (.inl (x.1-1,n.next))
    | none => .ok (.inr none)
  else .ok (.inr x.2)

/-- The node, or NULL for an error. -/
def ctrlPointGetDevice (globalDeviceList : Devices) (devnum : ℤ) : Except Fault (Option ℕ) :=
  rounds .running (getRound globalDeviceList.nodes) (globalDeviceList.nodes.length+1)
    (devnum,if devnum ≠ 0 then globalDeviceList.head else none)

/-- The type and the UID of each device that is printed. -/
def printRound (nodes : Nodes OhmDevice) (x : List (List UInt8 × List UInt8) × Option ℕ) :
    Except Fault ((List (List UInt8 × List UInt8) × Option ℕ) ⊕ List (List UInt8 × List UInt8)) :=
  match x.2 with
  | none => .ok (.inr x.1)
  | some tmp => do
    let n ← read nodes tmp
    .ok (.inl (x.1++[(n.val.deviceType.text,n.val.uid.text)],n.next))

def ctrlPointPrintList (globalDeviceList : Devices) :
    Except Fault (List (List UInt8 × List UInt8)) :=
  rounds .running (printRound globalDeviceList.nodes) (globalDeviceList.nodes.length+1)
    ([],globalDeviceList.head)

/-- What a check leaves of a device. -/
def aged (incr : ℤ) (x : ℕ × OhmDevice) : Option (ℕ × OhmDevice) :=
  if x.2.advrTimeOut-incr ≤ 0 then none
  else some (x.1,{ x.2 with advrTimeOut := x.2.advrTimeOut-incr })

/-- The search for a device that is about to expire. -/
def searchFor (incr : ℤ) (x : ℕ × OhmDevice) : Option SearchCall :=
  if x.2.advrTimeOut < 2*incr then some (incr,x.2.deviceType) else none

theorem verifyRound_rounds (incr : ℤ) {c : Devices} {k l : List (ℕ × OhmDevice)}
    (h : c.Holds (k++l)) {n : ℕ} (hn : l.length < n) (searches : List SearchCall) :
    ∃ c', rounds .running (verifyRound incr) n ⟨c,last k,start l none,searches⟩ =
        .ok (c',searches++(l.filterMap (aged incr)).filterMap (searchFor incr)) ∧
      c'.Holds (k++l.filterMap (aged incr)) := by
  induction l generalizing c k n searches with
  | nil =>
    refine ⟨c,?_,h⟩
    rw [List.filterMap_nil,List.filterMap_nil,List.append_nil]
    exact rounds_leave (by omega) rfl
  | cons x l ih =>
    obtain ⟨n,rfl⟩ : ∃ m, n = m+1 := ⟨n-1,by omega⟩
    have hn' : l.length < n := by simpa using hn
    rcases alter_spec h (fun d => { d with advrTimeOut := d.advrTimeOut-incr }) with ⟨c₁,hc₁,h₁⟩
    have hread := read_eq h₁.node
    rw [start_cons,List.filterMap_cons]
    by_cases hold : x.2.advrTimeOut-incr ≤ 0
    · rcases unlink_spec h₁ with ⟨c₂,hc₂,h₂⟩
      have hnext : verifyRound incr ⟨c,last k,some x.1,searches⟩ =
          .ok (.inl ⟨c₂,last k,start l none,searches⟩) := by
        simp only [verifyRound,hc₁,ok_bind,hread,hold,if_true,hc₂]
        rcases List.eq_nil_or_concat' k with rfl | ⟨k,y,rfl⟩
        · exact congrArg (fun q => Except.ok (Sum.inl (⟨c₂,none,q,searches⟩ : Verifying))) h₂.head
        · have hy := h₂
          rw [List.append_assoc,List.singleton_append] at hy
          rw [last_concat]
          simp only [read_eq hy.node,ok_bind]
      have haged : aged incr x = none := if_pos hold
      rw [rounds_next hnext,haged]
      exact ih h₂ hn' searches
    · have haged : aged incr x =
          some (x.1,{ x.2 with advrTimeOut := x.2.advrTimeOut-incr }) := if_neg hold
      generalize hx : ((x.1,{ x.2 with advrTimeOut := x.2.advrTimeOut-incr }) : ℕ × OhmDevice) = y
        at haged h₁ hread
      have hy : y.1 = x.1 := by rw [← hx]
      have hkept : ¬y.2.advrTimeOut ≤ 0 := by rwa [← hx]
      have hnext : verifyRound incr ⟨c,last k,some x.1,searches⟩ =
          .ok (.inl ⟨c₁,last (k++[y]),start l none,searches++(searchFor incr y).toList⟩) := by
        rw [hy] at hread
        simp only [verifyRound,hc₁,ok_bind,hread,hkept,if_false,last_concat,hy]
        unfold searchFor
        split
        · rfl
        · rw [Option.toList_none,List.append_nil]
      have hsplit : k++y::l = (k++[y])++l := by rw [List.append_assoc,List.singleton_append]
      rw [hsplit] at h₁
      rcases ih h₁ hn' (searches++(searchFor incr y).toList) with ⟨c',hc',hh⟩
      rw [rounds_next hnext,haged]
      refine ⟨c',hc'.trans ?_,?_⟩
      · rw [List.append_assoc,List.filterMap_cons]
        cases searchFor incr y <;> rfl
      · rwa [List.append_assoc,List.singleton_append] at hh

theorem ctrlPointVerifyTimeouts_spec (incr : ℤ) {c : Devices} {l : List (ℕ × OhmDevice)}
    (h : c.Holds l) : ∃ c', ctrlPointVerifyTimeouts c incr =
        .ok (c',(l.filterMap (aged incr)).filterMap (searchFor incr)) ∧
      c'.Holds (l.filterMap (aged incr)) := by
  have hrun := verifyRound_rounds incr (k := []) h (Nat.lt_succ_of_le h.length_le) []
  rwa [← h.head] at hrun

theorem getRound_rounds {nodes : Nodes OhmDevice} {l : List (ℕ × OhmDevice)}
    (h : Segment nodes l none) (count : ℤ) {n : ℕ} (hn : l.length < n) :
    rounds .running (getRound nodes) n (count,start l none) =
      .ok (if 1 ≤ count ∧ count ≤ l.length then (l[(count-1).toNat]?).map Prod.fst else none) := by
  induction l generalizing count n with
  | nil =>
    apply rounds_leave (by omega)
    simp [getRound,ite_self]
  | cons x l ih =>
    obtain ⟨n,rfl⟩ : ∃ m, n = m+1 := ⟨n-1,by omega⟩
    by_cases hone : count-1 = 0
    · have hcount : count = 1 := by omega
      subst hcount
      apply rounds_leave (Nat.succ_pos n)
      simp [getRound]
    · have hnext : getRound nodes (count,start (x::l) none) =
          .ok (.inl (count-1,start l none)) := by
        simp [getRound,hone,read_eq h.1]
      rw [rounds_next hnext,ih h.2 (count-1) (by simpa using hn),List.length_cons]
      by_cases hpos : 2 ≤ count
      · have hat : (count-1).toNat = (count-1-1).toNat+1 := by omega
        rw [hat,List.getElem?_cons_succ]
        by_cases hle : count ≤ l.length+1
        · rw [if_pos (by omega),if_pos (by push_cast; omega)]
        · rw [if_neg (by omega),if_neg (by push_cast; omega)]
      · rw [if_neg (by omega),if_neg (by omega)]

/-- The devices are numbered from 1 on. -/
theorem ctrlPointGetDevice_spec {c : Devices} {l : List (ℕ × OhmDevice)} (h : c.Holds l)
    (devnum : ℤ) : ctrlPointGetDevice c devnum =
      .ok (if 1 ≤ devnum ∧ devnum ≤ l.length then (l[(devnum-1).toNat]?).map Prod.fst
        else none) := by
  unfold ctrlPointGetDevice
  by_cases h0 : devnum ≠ 0
  · rw [if_pos h0,h.head]
    exact getRound_rounds h.nodes devnum (Nat.lt_succ_of_le h.length_le)
  · rw [if_neg h0,if_neg (by omega)]
    exact rounds_leave (Nat.succ_pos _) (by simp only [getRound,ite_self])

theorem printRound_rounds {nodes : Nodes OhmDevice} {l : List (ℕ × OhmDevice)}
    (h : Segment nodes l none) (printed : List (List UInt8 × List UInt8)) {n : ℕ}
    (hn : l.length < n) : rounds .running (printRound nodes) n (printed,start l none) =
      .ok (printed++l.map fun x => (x.2.deviceType.text,x.2.uid.text)) := by
  induction l generalizing printed n with
  | nil => exact rounds_leave (by omega) (by rw [List.map_nil,List.append_nil]; rfl)
  | cons x l ih =>
    obtain ⟨n,rfl⟩ : ∃ m, n = m+1 := ⟨n-1,by omega⟩
    have hnext : printRound nodes (printed,start (x::l) none) =
        .ok (.inl (printed++[(x.2.deviceType.text,x.2.uid.text)],start l none)) := by
      simp only [printRound,start_cons,read_eq h.1,ok_bind]
    rw [rounds_next hnext,ih h.2 _ (by simpa using hn),List.append_assoc]
    rfl

theorem ctrlPointPrintList_spec {c : Devices} {l : List (ℕ × OhmDevice)} (h : c.Holds l) :
    ctrlPointPrintList c = .ok (l.map fun x => (x.2.deviceType.text,x.2.uid.text)) := by
  unfold ctrlPointPrintList
  rw [h.head]
  exact printRound_rounds h.nodes [] (Nat.lt_succ_of_le h.length_le)

structure Known where
  deviceType : List UInt8
  location : List UInt8
  remaining : ℤ
  deriving DecidableEq, Repr

abbrev Registry := OrderedMap (List UInt8) Known

/-- The calls on the list. `node` is the memory of a new device. -/
inductive DeviceOp
  | add (node : OhmDevice) (event : UpnpDiscovery) (h : DiscoveryTerminated event)
  | remove (uid : List UInt8)
  | removeAll
  | verify (incr : ℕ)

def DeviceOp.onNodes (c : Devices) : DeviceOp → Except Fault Devices
  | .add node event _ => ctrlPointAddDevice c node event
  | .remove uid => ctrlPointRemoveDevice c uid
  | .removeAll => ctrlPointRemoveAll c
  | .verify incr => do
    let (c,_) ← ctrlPointVerifyTimeouts c incr
    .ok c

/-- A device that is known is refreshed, and a new one is known with what it is announced with. -/
def announce (m : Registry) (event : UpnpDiscovery) : Registry :=
  if event.deviceType.text = ohmDeviceType then
    if (m.entries event.uid.text).isSome then
      m.alter event.uid.text fun k => { k with remaining := 5 }
    else m.insert event.uid.text ⟨event.deviceType.text,event.location.text,5⟩
  else m

def age (incr : ℤ) (_ : List UInt8) (k : Known) : Option Known :=
  if k.remaining-incr ≤ 0 then none else some { k with remaining := k.remaining-incr }

def DeviceOp.onMap (m : Registry) : DeviceOp → Registry
  | .add _ event _ => announce m event
  | .remove uid => m.erase (untilNul uid)
  | .removeAll => m.filterMap fun _ _ => none
  | .verify incr => m.filterMap (age incr)

def entryOf (x : ℕ × OhmDevice) : List UInt8 × Known :=
  (x.2.uid.text,⟨x.2.deviceType.text,x.2.location.text,x.2.advrTimeOut⟩)

/-- The nodes hold strings and are the devices of the map in their order. -/
structure Shows (c : Devices) (l : List (ℕ × OhmDevice)) (m : Registry) : Prop where
  holds : c.Holds l
  terminated : ∀ x ∈ l, x.2.Terminated
  ohm : ∀ x ∈ l, x.2.deviceType.text = ohmDeviceType
  listed : m.Listed (l.map entryOf)

theorem shows_empty : Shows empty [] OrderedMap.empty :=
  ⟨empty_holds,by simp,by simp,OrderedMap.listed_empty⟩

section Operations

variable {c : Devices} {l : List (ℕ × OhmDevice)} {m : Registry}

theorem Shows.nodup (h : Shows c l m) : ((l.map entryOf).map Prod.fst).Nodup := h.listed.nodup

theorem Shows.refresh {c' : Devices} {k₁ k₂ : List (ℕ × OhmDevice)} {x : ℕ × OhmDevice}
    (h : Shows c (k₁++x::k₂) m)
    (hc' : c'.Holds (k₁++(x.1,{ x.2 with advrTimeOut := 5 })::k₂)) :
    Shows c' (k₁++(x.1,{ x.2 with advrTimeOut := 5 })::k₂)
      (m.alter x.2.uid.text fun k => { k with remaining := 5 }) := by
  have hx : x ∈ k₁++x::k₂ := by simp
  have hterm := h.terminated x hx
  refine ⟨hc',forall_mem_replaced h.terminated ⟨hterm.uid,hterm.deviceType,hterm.location⟩,
    forall_mem_replaced h.ohm (h.ohm x hx),?_⟩
  have hlisted := h.listed
  rw [List.map_append,List.map_cons] at hlisted ⊢
  exact hlisted.alter fun k => { k with remaining := 5 }

theorem Shows.add (h : Shows c l m) {c' : Devices} {a : ℕ} {d : OhmDevice} (hd : d.Terminated)
    (hohm : d.deviceType.text = ohmDeviceType) (hnew : d.uid.text ∉ (l.map entryOf).map Prod.fst)
    (hc' : c'.Holds (l++[(a,d)])) :
    Shows c' (l++[(a,d)]) (m.insert d.uid.text ⟨d.deviceType.text,d.location.text,d.advrTimeOut⟩) := by
  refine ⟨hc',?_,?_,?_⟩
  · exact List.forall_mem_append.mpr ⟨h.terminated,List.forall_mem_singleton.mpr hd⟩
  · exact List.forall_mem_append.mpr ⟨h.ohm,List.forall_mem_singleton.mpr hohm⟩
  · rw [List.map_append]
    exact h.listed.insert hnew _

theorem ctrlPointAddDevice_shows (h : Shows c l m) (node : OhmDevice) {event : UpnpDiscovery}
    (he : DiscoveryTerminated event) :
    ∃ c' l', ctrlPointAddDevice c node event = .ok c' ∧ Shows c' l' (announce m event) := by
  rcases ctrlPointAddDevice_spec h.holds h.terminated node he with ⟨c',l',hadd,hc',hann⟩
  refine ⟨c',l',hadd,?_⟩
  unfold announce
  cases hann with
  | other htype =>
    rw [if_neg htype]
    exact ⟨hc',h.terminated,h.ohm,h.listed⟩
  | @refreshed k₁ k₂ x htype huid =>
    have hmem : (m.entries event.uid.text).isSome = true := by
      rw [h.listed.mem_iff,← huid]
      simp [entryOf]
    rw [if_pos htype,if_pos hmem,← huid]
    exact h.refresh hc'
  | @added _ a d htype hnew hd huid hdtype hlocation htime =>
    have hunlisted : event.uid.text ∉ (l.map entryOf).map Prod.fst := by
      rw [List.map_map,List.mem_map]
      rintro ⟨x,hx,hxu⟩
      exact hnew x hx hxu
    have hmem : ¬(m.entries event.uid.text).isSome = true := by rwa [h.listed.mem_iff]
    rw [if_pos htype,if_neg hmem,← huid,← hdtype,← hlocation,← htime]
    exact h.add hd (hdtype.trans htype) (by rwa [huid]) hc'

theorem ctrlPointRemoveDevice_shows (h : Shows c l m) (uid : List UInt8) :
    ∃ c' l', ctrlPointRemoveDevice c uid = .ok c' ∧ Shows c' l' (m.erase (untilNul uid)) := by
  have hu : (0 : UInt8) ∈ uid++[0] := by simp
  have htext : untilNul (uid++[0]) = untilNul uid := by
    by_cases h0 : 0 ∈ uid
    · rw [untilNul,List.takeWhile_append,if_neg]
      · rfl
      · exact (untilNul_length_lt h0).ne
    · rw [untilNul_append h0,untilNul_of_no_nul h0]
      exact List.append_nil _
  have hp : ∀ x ∈ l, sameUid (uid++[0]) x.2 = .ok (x.2.uid.text == untilNul uid) := by
    intro x hx
    rw [sameUid_eq hu (h.terminated x hx),htext]
  rcases remove_spec (f := fun d => d.uid.text == untilNul uid) h.holds hp with ⟨c',hc',hh⟩
  have hsub : ∀ x ∈ l.eraseP (fun x => x.2.uid.text == untilNul uid), x ∈ l :=
    fun x hx => List.mem_of_mem_eraseP hx
  refine ⟨c',_,by rw [ctrlPointRemoveDevice,hc']; rfl,hh,fun x hx => h.terminated x (hsub x hx),
    fun x hx => h.ohm x (hsub x hx),?_⟩
  exact h.listed.eraseP fun x _ => beq_iff_eq

theorem ctrlPointRemoveAll_shows (h : Shows c l m) :
    ∃ c', ctrlPointRemoveAll c = .ok c' ∧ Shows c' [] (m.filterMap fun _ _ => none) := by
  rcases freeAll_spec h.holds with ⟨c',hc',hh⟩
  refine ⟨c',hc',hh,by simp,by simp,?_⟩
  have hlisted := h.listed.filterMap fun _ _ => none
  rwa [List.filterMap_eq_nil_iff.mpr (by simp)] at hlisted

/-- A check ages the devices of the map and forgets those whose time is over. -/
theorem ctrlPointVerifyTimeouts_shows (h : Shows c l m) (incr : ℤ) :
    ∃ c', ctrlPointVerifyTimeouts c incr =
        .ok (c',(l.filterMap (aged incr)).filterMap (searchFor incr)) ∧
      Shows c' (l.filterMap (aged incr)) (m.filterMap (age incr)) := by
  rcases ctrlPointVerifyTimeouts_spec incr h.holds with ⟨c',hc',hh⟩
  have hsame : ∀ y ∈ l.filterMap (aged incr), ∃ x ∈ l,
      y = (x.1,{ x.2 with advrTimeOut := x.2.advrTimeOut-incr }) := by
    intro y hy
    rcases List.mem_filterMap.mp hy with ⟨x,hx,hxy⟩
    unfold aged at hxy
    split at hxy
    · cases hxy
    · exact ⟨x,hx,(Option.some.inj hxy).symm⟩
  refine ⟨c',hc',hh,fun y hy => ?_,fun y hy => ?_,?_⟩
  · rcases hsame y hy with ⟨x,hx,rfl⟩
    have hterm := h.terminated x hx
    exact ⟨hterm.uid,hterm.deviceType,hterm.location⟩
  · rcases hsame y hy with ⟨x,hx,rfl⟩
    exact h.ohm x hx
  · have hlisted := h.listed.filterMap (age incr)
    rw [List.filterMap_map] at hlisted
    rw [List.map_filterMap]
    convert hlisted using 2
    rename_i x hx
    by_cases hold : x.2.advrTimeOut-incr ≤ 0
    · have haged : aged incr x = none := if_pos hold
      have hage : age incr (entryOf x).1 (entryOf x).2 = none := if_pos hold
      rw [Function.comp_apply,haged,hage]
      rfl
    · have haged : aged incr x = some (x.1,{ x.2 with advrTimeOut := x.2.advrTimeOut-incr }) :=
        if_neg hold
      have hage : age incr (entryOf x).1 (entryOf x).2 =
          some { (entryOf x).2 with remaining := x.2.advrTimeOut-incr } := if_neg hold
      rw [Function.comp_apply,haged,hage]
      rfl

theorem DeviceOp.shows (h : Shows c l m) (op : DeviceOp) :
    ∃ c' l', op.onNodes c = .ok c' ∧ Shows c' l' (op.onMap m) := by
  cases op with
  | add node event he => exact ctrlPointAddDevice_shows h node he
  | remove uid => exact ctrlPointRemoveDevice_shows h uid
  | removeAll =>
    rcases ctrlPointRemoveAll_shows h with ⟨c',hc',hh⟩
    exact ⟨c',[],hc',hh⟩
  | verify incr =>
    rcases ctrlPointVerifyTimeouts_shows h incr with ⟨c',hc',hh⟩
    exact ⟨c',_,by rw [DeviceOp.onNodes,hc']; rfl,hh⟩

theorem deviceOps_shows (h : Shows c l m) (ops : List DeviceOp) :
    ∃ c' l', ops.foldlM DeviceOp.onNodes c = .ok c' ∧
      Shows c' l' (ops.foldl DeviceOp.onMap m) := by
  induction ops generalizing c l m with
  | nil => exact ⟨c,l,rfl,h⟩
  | cons op ops ih =>
    rcases op.shows h with ⟨c₁,l₁,hc₁,h₁⟩
    rw [List.foldlM_cons,hc₁,ok_bind]
    exact ih h₁

end Operations

/-- After any calls the list is the map in the order of its keys, and its devices are numbered from
1 on. -/
theorem deviceList_refines (ops : List DeviceOp) :
    ∃ c l, ops.foldlM DeviceOp.onNodes empty = .ok c ∧ c.Holds l ∧
      (ops.foldl DeviceOp.onMap OrderedMap.empty).Listed (l.map entryOf) ∧
      (l.map fun x => x.2.uid.text).Nodup ∧
      (∀ x ∈ l, x.2.deviceType.text = ohmDeviceType) ∧
      ∀ devnum : ℤ, ctrlPointGetDevice c devnum =
        .ok (if 1 ≤ devnum ∧ devnum ≤ l.length then (l[(devnum-1).toNat]?).map Prod.fst
          else none) := by
  rcases deviceOps_shows shows_empty ops with ⟨c,l,hc,h⟩
  have hnodup := h.nodup
  rw [List.map_map] at hnodup
  exact ⟨c,l,hc,h.holds,h.listed,hnodup,h.ohm,ctrlPointGetDevice_spec h.holds⟩

end DeviceList
end Sample
end CtrlPt
