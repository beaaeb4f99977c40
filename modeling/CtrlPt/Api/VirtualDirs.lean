import CtrlPt.Http.MakeMessage
import CtrlPt.Lib.CharArray
import CtrlPt.Lib.LinkedList
import CtrlPt.Lib.OrderedMap
import CtrlPt.Ssdp.Search

/-! `UpnpAddVirtualDir` and `UpnpRemoveVirtualDir`, and the set of directories that is meant. -/
namespace CtrlPt
namespace VirtualDirs

open CText CharArray Memory Linked Rounds

def nameSize : ℕ := 256

abbrev VirtualDirList := Chain (CharArray nameSize)

/-- The local `dirName`, unless the name is too long. -/
def fillDirName (newDirName : List UInt8) : Except Fault (Option (CharArray nameSize)) := do
  let dirName := CharArray.zero nameSize
  if newDirName.head? ≠ some 47 then
    if nameSize-2 < newDirName.length then .ok none
    else do
      let dirName ← dirName.write 0 [47]
      let dirName ← dirName.write 1 (padded (newDirName++[0]) (nameSize-2))
      .ok (some dirName)
  else if nameSize-1 < newDirName.length then .ok none
  else do
    let dirName ← dirName.write 0 (padded (newDirName++[0]) (nameSize-1))
    .ok (some dirName)

/-- The `dirName` of a new node. -/
def nodeDirName (dirName : CharArray nameSize) : Except Fault (CharArray nameSize) := do
  let entry ← (CharArray.zero nameSize).strncpy dirName.bytes (nameSize-1)
  let len ← dirName.strlen
  entry.write len [0]

/-- `allocated` is whether `malloc` succeeds. -/
def upnpAddVirtualDir (upnpSdkInit : ℤ) (allocated : Bool) (pVirtualDirList : VirtualDirList)
    (newDirName : Option CString) : Except Fault (ℤ × VirtualDirList) :=
  if upnpSdkInit ≠ 1 then .ok (upnpEFinish,pVirtualDirList)
  else
    match newDirName with
    | none => .ok (upnpEInvalidParam,pVirtualDirList)
    | some newDirName =>
      if newDirName.val.length = 0 then .ok (upnpEInvalidParam,pVirtualDirList)
      else do
        let filled ← fillDirName newDirName.val
        match filled with
        | none => .ok (upnpEInvalidParam,pVirtualDirList)
        | some dirName => do
          let found ← find (fun entry => strcmpEq entry.bytes dirName.bytes) pVirtualDirList
          if found.isSome then .ok (upnpESuccess,pVirtualDirList)
          else if allocated = false then .ok (upnpEOutofMemory,pVirtualDirList)
          else do
            let entry ← nodeDirName dirName
            let pVirtualDirList ← append pVirtualDirList entry
            .ok (upnpESuccess,pVirtualDirList)

def upnpRemoveVirtualDir (upnpSdkInit : ℤ) (pVirtualDirList : VirtualDirList)
    (dirName : Option CString) : Except Fault (ℤ × VirtualDirList) :=
  if upnpSdkInit ≠ 1 then .ok (upnpEFinish,pVirtualDirList)
  else
    match dirName with
    | none => .ok (upnpEInvalidParam,pVirtualDirList)
    | some dirName =>
      if pVirtualDirList.head = none then .ok (upnpEInvalidParam,pVirtualDirList)
      else do
        let (found,pVirtualDirList) ←
          remove (fun entry => strcmpEq entry.bytes (dirName.val++[0])) pVirtualDirList
        .ok (if found then upnpESuccess else upnpEInvalidParam,pVirtualDirList)

/-- The directory that a name denotes; the empty name denotes none. -/
def dirOf (name : List UInt8) : List UInt8 :=
  if name = [] ∨ name.head? = some 47 then name else 47::name

abbrev Directories := OrderedMap (List UInt8) Unit

/-- There is a name, and the directory fits into an entry. -/
def Accepted (name : List UInt8) : Prop := name ≠ [] ∧ (dirOf name).length < nameSize

instance decidableAccepted (name : List UInt8) : Decidable (Accepted name) :=
  inferInstanceAs (Decidable (_ ∧ _))

inductive DirCall
  | add (newDirName : Option CString)
  | remove (dirName : Option CString)

/-- A call on the set. A directory is removed under `key` of the name. -/
def DirCall.onSet (key : List UInt8 → List UInt8) (m : Directories) : DirCall → ℤ × Directories
  | .add (some d) =>
    if Accepted d.val then
      (upnpESuccess,if (m.entries (dirOf d.val)).isSome then m else m.insert (dirOf d.val) ())
    else (upnpEInvalidParam,m)
  | .remove (some d) =>
    if (m.entries (key d.val)).isSome then (upnpESuccess,m.erase (key d.val))
    else (upnpEInvalidParam,m)
  | .add none => (upnpEInvalidParam,m)
  | .remove none => (upnpEInvalidParam,m)

@[simp] theorem onSet_add (key : List UInt8 → List UInt8) (m : Directories) (d : CString) :
    (DirCall.add (some d)).onSet key m =
      if Accepted d.val then
        (upnpESuccess,if (m.entries (dirOf d.val)).isSome then m else m.insert (dirOf d.val) ())
      else (upnpEInvalidParam,m) := rfl

@[simp] theorem onSet_remove (key : List UInt8 → List UInt8) (m : Directories) (d : CString) :
    (DirCall.remove (some d)).onSet key m =
      if (m.entries (key d.val)).isSome then (upnpESuccess,m.erase (key d.val))
      else (upnpEInvalidParam,m) := rfl

/-- What the calls return, and the set behind them. -/
def runOnSet (key : List UInt8 → List UInt8) : Directories → List DirCall → List ℤ × Directories
  | m, [] => ([],m)
  | m, call::calls =>
    let r := call.onSet key m
    let rest := runOnSet key r.2 calls
    (r.1::rest.1,rest.2)

/-- The SDK is initialised and memory can be had. -/
def DirCall.onNodes (c : VirtualDirList) : DirCall → Except Fault (ℤ × VirtualDirList)
  | .add d => upnpAddVirtualDir 1 true c d
  | .remove d => upnpRemoveVirtualDir 1 c d

def runCalls : VirtualDirList → List DirCall → Except Fault (List ℤ × VirtualDirList)
  | c, [] => .ok ([],c)
  | c, call::calls => do
    let (code,c) ← call.onNodes c
    let (codes,c) ← runCalls c calls
    .ok (code::codes,c)

def entryOf (x : ℕ × CharArray nameSize) : List UInt8 × Unit := (x.2.text,())

/-- Behind an `UpnpAddVirtualDir` that succeeds, `UpnpRemoveVirtualDir` with the same argument
takes out the directory and nothing else. -/
def RemoveUndoesAdd (c : VirtualDirList) (l : List (ℕ × CharArray nameSize)) (d : CString) : Prop :=
  ∀ c₁, upnpAddVirtualDir 1 true c (some d) = .ok (upnpESuccess,c₁) →
    ∃ c₂ l₂, upnpRemoveVirtualDir 1 c₁ (some d) = .ok (upnpESuccess,c₂) ∧ c₂.Holds l₂ ∧
      (dirOf d.val ∉ l.map (fun x => x.2.text) → l₂ = l) ∧
      l₂ = l.filter fun x => x.2.text ≠ dirOf d.val

/-- A directory that is registered is removed under a name with its slash. -/
def DirCall.InFull (m : Directories) : DirCall → Prop
  | .remove (some d) => (m.entries (dirOf d.val)).isSome → d.val.head? = some 47
  | _ => True

def RemovesInFull : Directories → List DirCall → Prop
  | _, [] => True
  | m, call::calls => call.InFull m ∧ RemovesInFull (call.onSet dirOf m).2 calls

theorem dirOf_rooted {name : List UInt8} (h : name.head? = some 47) : dirOf name = name :=
  if_pos (.inr h)

theorem dirOf_head {name : List UInt8} (h : name ≠ []) : (dirOf name).head? = some 47 := by
  unfold dirOf
  split
  · rename_i hor
    exact hor.resolve_left h
  · rfl

theorem dirOf_no_nul (d : CString) : 0 ∉ dirOf d.val := by
  unfold dirOf
  split
  · exact d.property
  · rw [List.mem_cons,not_or]
    exact ⟨by decide,d.property⟩

theorem fillDirName_spec (d : CString) (hne : d.val ≠ []) :
    if (dirOf d.val).length < nameSize then
      ∃ a, fillDirName d.val = .ok (some a) ∧ a.Holds (dirOf d.val)
    else fillDirName d.val = .ok none := by
  have hsize : nameSize = 256 := rfl
  have hnul := dirOf_no_nul d
  unfold fillDirName
  dsimp only
  by_cases hroot : d.val.head? = some 47
  · rw [dirOf_rooted hroot]
    simp only [ne_eq,hroot,not_true_eq_false,if_false]
    split
    · rename_i hlt
      rcases (zero_filledUp (n := nameSize)).write_padded d.property (k := nameSize-1) (by omega)
        (by rw [List.length_nil]; omega) with ⟨a,ha,hfull⟩
      rw [List.length_nil] at ha
      rw [if_neg (by omega),ha]
      exact ⟨a,rfl,hfull.holds d.property hlt⟩
    · exact if_pos (by omega)
  · have hdir : dirOf d.val = 47::d.val := if_neg (not_or.mpr ⟨hne,hroot⟩)
    rw [hdir] at hnul ⊢
    simp only [ne_eq,hroot,not_false_eq_true,if_true,List.length_cons]
    split
    · rename_i hlt
      have hslash : ((CharArray.zero nameSize).write 0 [47]) =
          .ok ⟨47::List.replicate 255 0,by decide +kernel⟩ := by decide +kernel
      have hstart : FilledUp ⟨47::List.replicate 255 0,by decide +kernel⟩ (n := nameSize) [47] := rfl
      rcases hstart.write_padded d.property (k := nameSize-2) (by omega)
        (by rw [List.length_singleton]; omega) with ⟨a,ha,hfull⟩
      rw [List.length_singleton] at ha
      rw [if_neg (by omega),hslash,ok_bind,ha]
      exact ⟨a,rfl,hfull.holds hnul (by simpa using hlt)⟩
    · exact if_pos (by omega)

theorem nodeDirName_spec {dirName : CharArray nameSize} {name : List UInt8}
    (h : dirName.Holds name) : ∃ a, nodeDirName dirName = .ok a ∧ a.Holds name := by
  have hlt := h.length_lt
  rcases h.bytes with ⟨r,hr⟩
  have hcopy : padded dirName.bytes (nameSize-1) = padded (name++[0]) (nameSize-1) := by
    rw [padded,padded,hr,untilNul_terminated h.no_nul,untilNul_terminated h.no_nul]
  rcases (zero_filledUp (n := nameSize)).write_padded h.no_nul (k := nameSize-1) (by omega)
    (by rw [List.length_nil]; omega) with ⟨a,ha,hfull⟩
  rw [List.nil_append] at hfull
  have htake : a.bytes.take name.length = name := by rw [hfull,List.take_left]
  have hnil : (0 : UInt8) ∉ [] := List.not_mem_nil
  rcases write_holds htake h.no_nul hnil (by simpa using hlt) with ⟨b,hb,hh⟩
  rw [List.append_nil] at hh
  refine ⟨b,?_,hh⟩
  rw [List.length_nil,← hcopy] at ha
  rw [nodeDirName,strncpy,ha,ok_bind,h.strlen]
  exact hb

/-- The entries are names with their slash, and the keys of `m` in their order. -/
structure Shows (c : VirtualDirList) (l : List (ℕ × CharArray nameSize)) (m : Directories) :
    Prop where
  holds : c.Holds l
  terminated : ∀ x ∈ l, x.2.Terminated
  rooted : ∀ x ∈ l, x.2.text.head? = some 47
  listed : m.Listed (l.map entryOf)

theorem shows_empty : Shows empty [] OrderedMap.empty :=
  ⟨empty_holds,by simp,by simp,OrderedMap.listed_empty⟩

section Calls

variable {c : VirtualDirList} {l : List (ℕ × CharArray nameSize)} {m : Directories}

theorem Shows.isSome_iff (h : Shows c l m) (name : List UInt8) :
    (m.entries name).isSome = true ↔ ∃ x ∈ l, x.2.text = name := by
  rw [h.listed.mem_iff,List.map_map,List.mem_map]
  rfl

theorem Shows.nodup (h : Shows c l m) : (l.map fun x => x.2.text).Nodup := by
  have hnodup := h.listed.nodup
  rwa [List.map_map] at hnodup

theorem upnpAddVirtualDir_spec (h : Shows c l m) (d : CString) :
    (¬Accepted d.val ∧
      upnpAddVirtualDir 1 true c (some d) = .ok (upnpEInvalidParam,c)) ∨
    (Accepted d.val ∧ (∃ x ∈ l, x.2.text = dirOf d.val) ∧
      upnpAddVirtualDir 1 true c (some d) = .ok (upnpESuccess,c)) ∨
    (Accepted d.val ∧ (∀ x ∈ l, x.2.text ≠ dirOf d.val) ∧
      ∃ c' entry, upnpAddVirtualDir 1 true c (some d) = .ok (upnpESuccess,c') ∧
        entry.Holds (dirOf d.val) ∧ c'.Holds (l++[(c.nodes.length,entry)])) := by
  unfold upnpAddVirtualDir
  rw [if_neg (by decide)]
  dsimp only
  by_cases hne : d.val = []
  · rw [if_pos (List.length_eq_zero_iff.mpr hne)]
    exact .inl ⟨fun ha => ha.1 hne,rfl⟩
  have hfill := fillDirName_spec d hne
  rw [if_neg (mt List.length_eq_zero_iff.mp hne)]
  by_cases hlt : (dirOf d.val).length < nameSize
  · rw [if_pos hlt] at hfill
    rcases hfill with ⟨dirName,hfill,hdir⟩
    have hacc : Accepted d.val := ⟨hne,hlt⟩
    have hsame : ∀ x ∈ l, strcmpEq x.2.bytes dirName.bytes = .ok (x.2.text == dirOf d.val) := by
      intro x hx
      rw [← hdir.text]
      exact strcmpEq_eq (h.terminated x hx) hdir.terminated
    have hfind := find_spec (p := fun entry => strcmpEq entry.bytes dirName.bytes)
      (f := fun entry => entry.text == dirOf d.val) h.holds hsame
    rw [hfill,ok_bind]
    dsimp only
    rw [hfind,ok_bind]
    by_cases hmem : ∃ x ∈ l, x.2.text = dirOf d.val
    · have hsome : (l.find? fun x => x.2.text == dirOf d.val).isSome = true := by
        rw [List.find?_isSome]
        rcases hmem with ⟨x,hx,hxd⟩
        exact ⟨x,hx,beq_iff_eq.mpr hxd⟩
      rw [if_pos (by rwa [Option.isSome_map])]
      exact .inr (.inl ⟨hacc,hmem,rfl⟩)
    · have hno : ∀ x ∈ l, x.2.text ≠ dirOf d.val := fun x hx he => hmem ⟨x,hx,he⟩
      have hnone : ¬(l.find? fun x => x.2.text == dirOf d.val).isSome = true := by
        rw [List.find?_isSome]
        rintro ⟨x,hx,hxd⟩
        exact hno x hx (beq_iff_eq.mp hxd)
      rcases nodeDirName_spec hdir with ⟨entry,hentry,hname⟩
      rcases append_spec h.holds entry with ⟨c',hc',hh⟩
      rw [if_neg (by rwa [Option.isSome_map]),if_neg Bool.noConfusion,hentry,ok_bind,hc',ok_bind]
      exact .inr (.inr ⟨hacc,hno,c',entry,rfl,hname,hh⟩)
  · rw [if_neg hlt] at hfill
    rw [hfill,ok_bind]
    exact .inl ⟨fun ha => hlt ha.2,rfl⟩

theorem upnpRemoveVirtualDir_spec (h : c.Holds l) (hterm : ∀ x ∈ l, x.2.Terminated) (d : CString) :
    ∃ c', upnpRemoveVirtualDir 1 c (some d) =
        .ok (if l.any fun x => x.2.text == d.val then upnpESuccess else upnpEInvalidParam,
          c') ∧
      c'.Holds (l.eraseP fun x => x.2.text == d.val) := by
  unfold upnpRemoveVirtualDir
  rw [if_neg (by decide)]
  dsimp only
  by_cases hhead : c.head = none
  · cases l with
    | nil => exact ⟨c,if_pos hhead,h⟩
    | cons x l =>
      rw [h.head] at hhead
      cases hhead
  · have hsame : ∀ x ∈ l, strcmpEq x.2.bytes (d.val++[0]) = .ok (x.2.text == d.val) := by
      intro x hx
      rw [strcmpEq_eq (hterm x hx) (by simp),untilNul_terminated d.property]
      rfl
    rcases remove_spec (p := fun entry => strcmpEq entry.bytes (d.val++[0]))
      (f := fun entry => entry.text == d.val) h hsame with ⟨c',hc',hh⟩
    rw [if_neg hhead,hc']
    exact ⟨c',rfl,hh⟩

/-- A call does to the list what it does to the set if names are removed as they stand. -/
theorem DirCall.onNodes_shows (h : Shows c l m) (call : DirCall) :
    ∃ c' l', call.onNodes c = .ok ((call.onSet id m).1,c') ∧ Shows c' l' (call.onSet id m).2 := by
  cases call with
  | add d =>
    cases d with
    | none => exact ⟨c,l,rfl,h⟩
    | some d =>
      rw [onSet_add]
      rcases upnpAddVirtualDir_spec h d with
        ⟨hacc,hadd⟩ | ⟨hacc,hmem,hadd⟩ | ⟨hacc,hno,c',entry,hadd,hname,hh⟩
      · rw [if_neg hacc]
        exact ⟨c,l,hadd,h⟩
      · rw [if_pos hacc,if_pos ((h.isSome_iff _).mpr hmem)]
        exact ⟨c,l,hadd,h⟩
      · have hnew : ¬(m.entries (dirOf d.val)).isSome = true := by
          rw [h.isSome_iff]
          rintro ⟨x,hx,hxd⟩
          exact hno x hx hxd
        rw [if_pos hacc,if_neg hnew]
        refine ⟨c',_,hadd,hh,?_,?_,?_⟩
        · exact List.forall_mem_append.mpr
            ⟨h.terminated,List.forall_mem_singleton.mpr hname.terminated⟩
        · refine List.forall_mem_append.mpr ⟨h.rooted,List.forall_mem_singleton.mpr ?_⟩
          rw [hname.text]
          exact dirOf_head hacc.1
        · have hlisted := h.listed.insert (by rwa [h.listed.mem_iff] at hnew) ()
          rw [List.map_append]
          rwa [← hname.text] at hlisted ⊢
  | remove d =>
    cases d with
    | none => exact ⟨c,l,rfl,h⟩
    | some d =>
      rcases upnpRemoveVirtualDir_spec h.holds h.terminated d with ⟨c',hc',hh⟩
      have herase := h.listed.eraseP (k := d.val) (p := fun x => x.2.text == d.val)
        fun x _ => beq_iff_eq
      have hany : (l.any fun x => x.2.text == d.val) = (m.entries d.val).isSome := by
        rw [Bool.eq_iff_iff,h.isSome_iff,List.any_eq_true]
        simp only [beq_iff_eq]
      have hsub : ∀ x ∈ l.eraseP (fun x => x.2.text == d.val), x ∈ l :=
        fun x hx => List.mem_of_mem_eraseP hx
      have hshows : Shows c' (l.eraseP fun x => x.2.text == d.val) (m.erase d.val) :=
        ⟨hh,fun x hx => h.terminated x (hsub x hx),fun x hx => h.rooted x (hsub x hx),herase⟩
      rw [hany] at hc'
      rw [onSet_remove,id]
      by_cases hsome : (m.entries d.val).isSome = true
      · rw [if_pos hsome] at hc' ⊢
        exact ⟨c',_,hc',hshows⟩
      · rw [if_neg hsome] at hc' ⊢
        have hno : ∀ x ∈ l, ¬(x.2.text == d.val) = true := by
          intro x hx hxd
          exact hsome ((h.isSome_iff _).mpr ⟨x,hx,beq_iff_eq.mp hxd⟩)
        rw [List.eraseP_of_forall_not hno] at hh
        exact ⟨c',l,hc',hh,h.terminated,h.rooted,h.listed⟩

theorem runCalls_shows (h : Shows c l m) (calls : List DirCall) :
    ∃ c' l', runCalls c calls = .ok ((runOnSet id m calls).1,c') ∧
      Shows c' l' (runOnSet id m calls).2 := by
  induction calls generalizing c l m with
  | nil => exact ⟨c,l,rfl,h⟩
  | cons call calls ih =>
    rcases call.onNodes_shows h with ⟨c₁,l₁,hc₁,h₁⟩
    rcases ih h₁ with ⟨c',l',hc',h'⟩
    refine ⟨c',l',?_,h'⟩
    rw [runCalls,hc₁,ok_bind]
    dsimp only
    rw [hc']
    rfl

/-- The directories of the set begin with their slash. -/
def Rooted (m : Directories) : Prop := ∀ name, (m.entries name).isSome = true → name.head? = some 47

theorem Shows.isRooted (h : Shows c l m) : Rooted m := by
  intro name hname
  rcases (h.isSome_iff name).mp hname with ⟨x,hx,rfl⟩
  exact h.rooted x hx

/-- The two ways to remove differ in what they return, or do not differ. -/
theorem onSet_eq_iff (hm : Rooted m) (call : DirCall) :
    ((call.onSet id m).1 = (call.onSet dirOf m).1 ↔ call.InFull m) ∧
      (call.InFull m → call.onSet id m = call.onSet dirOf m) := by
  cases call with
  | add d => cases d <;> exact ⟨iff_of_true rfl trivial,fun _ => rfl⟩
  | remove d =>
    cases d with
    | none => exact ⟨iff_of_true rfl trivial,fun _ => rfl⟩
    | some d =>
      rw [onSet_remove,onSet_remove,id]
      unfold DirCall.InFull
      by_cases hroot : d.val.head? = some 47
      · rw [dirOf_rooted hroot]
        exact ⟨iff_of_true rfl fun _ => hroot,fun _ => rfl⟩
      · have habsent : ¬(m.entries d.val).isSome = true := fun hs => hroot (hm _ hs)
        rw [if_neg habsent]
        by_cases hdir : (m.entries (dirOf d.val)).isSome = true
        · rw [if_pos hdir]
          have hcode : upnpEInvalidParam ≠ upnpESuccess := by decide
          exact ⟨iff_of_false hcode fun hfull => hroot (hfull hdir),
            fun hfull => absurd (hfull hdir) hroot⟩
        · rw [if_neg hdir]
          exact ⟨iff_of_true rfl fun hs => absurd hs hdir,fun _ => rfl⟩

theorem runOnSet_eq_iff (h : Shows c l m) (calls : List DirCall) :
    ((runOnSet id m calls).1 = (runOnSet dirOf m calls).1 ↔ RemovesInFull m calls) ∧
      (RemovesInFull m calls → runOnSet id m calls = runOnSet dirOf m calls) := by
  induction calls generalizing c l m with
  | nil => exact ⟨iff_of_true rfl trivial,fun _ => rfl⟩
  | cons call calls ih =>
    rcases onSet_eq_iff h.isRooted call with ⟨hcode,hsame⟩
    rcases call.onNodes_shows h with ⟨c₁,l₁,-,h₁⟩
    unfold runOnSet RemovesInFull
    dsimp only
    by_cases hfull : call.InFull m
    · rw [hsame hfull] at h₁ ⊢
      rcases ih h₁ with ⟨hcodes,hsames⟩
      constructor
      · rw [List.cons_inj_right,hcodes]
        exact (and_iff_right hfull).symm
      · rintro ⟨-,hrest⟩
        rw [hsames hrest]
    · refine ⟨iff_of_false (fun he => hfull (hcode.mp ?_)) fun hf => hfull hf.1,
        fun hf => absurd hf.1 hfull⟩
      exact (List.cons.inj he).1

theorem eraseP_eq_filter {α β : Type} {l : List α} {f : α → β} (h : (l.map f).Nodup) {b : β}
    {p : α → Bool} (hp : ∀ x, p x = true ↔ f x = b) : l.eraseP p = l.filter fun x => !p x := by
  induction l with
  | nil => rfl
  | cons x l ih =>
    rw [List.map_cons,List.nodup_cons] at h
    by_cases hx : p x = true
    · have hrest : ∀ y ∈ l, (!p y) = true := by
        intro y hy
        rw [Bool.not_eq_true',Bool.eq_false_iff,ne_eq,hp]
        exact fun he => h.1 (List.mem_map.mpr ⟨y,hy,he.trans ((hp x).mp hx).symm⟩)
      rw [List.eraseP_cons_of_pos hx,List.filter_cons_of_neg (by simp [hx]),
        List.filter_eq_self.mpr hrest]
    · rw [List.eraseP_cons_of_neg hx,List.filter_cons_of_pos (by simpa using hx),ih h.2]

/-- A directory is removed under the name it was added with if that has its slash. -/
theorem removeUndoesAdd_iff (h : Shows c l m) (d : CString) :
    RemoveUndoesAdd c l d ↔ (Accepted d.val → d.val.head? = some 47) := by
  constructor
  · intro hundo hacc
    by_contra hroot
    have hfails : ∀ {c₁ : VirtualDirList} {l₁ : List (ℕ × CharArray nameSize)},
        c₁.Holds l₁ → (∀ x ∈ l₁, x.2.Terminated) → (∀ x ∈ l₁, x.2.text.head? = some 47) →
        upnpAddVirtualDir 1 true c (some d) = .ok (upnpESuccess,c₁) → False := by
      intro c₁ l₁ h₁ hterm hrooted hadd
      rcases hundo c₁ hadd with ⟨c₂,l₂,hremove,-⟩
      rcases upnpRemoveVirtualDir_spec h₁ hterm d with ⟨c₃,hc₃,-⟩
      have hno : ¬(l₁.any fun x => x.2.text == d.val) = true := by
        rw [List.any_eq_true]
        rintro ⟨x,hx,hxd⟩
        rw [← beq_iff_eq.mp hxd] at hroot
        exact hroot (hrooted x hx)
      rw [if_neg hno,hremove] at hc₃
      cases hc₃
    rcases upnpAddVirtualDir_spec h d with
      ⟨hn,-⟩ | ⟨-,-,hadd⟩ | ⟨-,-,c',entry,hadd,hname,hh⟩
    · exact hn hacc
    · exact hfails h.holds h.terminated h.rooted hadd
    · refine hfails hh (List.forall_mem_append.mpr
        ⟨h.terminated,List.forall_mem_singleton.mpr hname.terminated⟩)
        (List.forall_mem_append.mpr ⟨h.rooted,List.forall_mem_singleton.mpr ?_⟩) hadd
      rw [hname.text]
      exact dirOf_head hacc.1
  · intro hroot c₁ hc₁
    rcases upnpAddVirtualDir_spec h d with
      ⟨-,hadd⟩ | ⟨hacc,⟨x,hx,hxd⟩,hadd⟩ | ⟨hacc,hno,c',entry,hadd,hname,hh⟩
    · rw [hadd] at hc₁
      cases hc₁
    · rw [hadd] at hc₁
      cases hc₁
      rw [dirOf_rooted (hroot hacc)] at hxd ⊢
      rcases upnpRemoveVirtualDir_spec h.holds h.terminated d with ⟨c₂,hc₂,h₂⟩
      have hany : (l.any fun x => x.2.text == d.val) = true :=
        List.any_eq_true.mpr ⟨x,hx,beq_iff_eq.mpr hxd⟩
      rw [if_pos hany] at hc₂
      refine ⟨c₂,_,hc₂,h₂,fun hnew => absurd (List.mem_map.mpr ⟨x,hx,hxd⟩) hnew,?_⟩
      rw [eraseP_eq_filter h.nodup (b := d.val) fun x => beq_iff_eq]
      refine List.filter_congr fun x _ => ?_
      rw [Bool.eq_iff_iff,Bool.not_eq_true',beq_eq_false_iff_ne,decide_eq_true_iff]
    · rw [hadd] at hc₁
      cases hc₁
      rw [dirOf_rooted (hroot hacc)] at hno hname ⊢
      have hterm : ∀ x ∈ l++[(c.nodes.length,entry)], x.2.Terminated :=
        List.forall_mem_append.mpr ⟨h.terminated,List.forall_mem_singleton.mpr hname.terminated⟩
      rcases upnpRemoveVirtualDir_spec hh hterm d with ⟨c₂,hc₂,h₂⟩
      have hlast : (entry.text == d.val) = true := beq_iff_eq.mpr hname.text
      have hany : ((l++[(c.nodes.length,entry)]).any fun x => x.2.text == d.val) = true :=
        List.any_eq_true.mpr ⟨_,List.mem_append_right _ List.mem_cons_self,hlast⟩
      have hback : ((l++[(c.nodes.length,entry)]).eraseP fun x => x.2.text == d.val) = l := by
        rw [List.eraseP_append_right _ fun x hx => by simpa using hno x hx,
          List.eraseP_cons_of_pos (p := fun x : ℕ × CharArray nameSize => x.2.text == d.val) hlast]
        exact List.append_nil l
      rw [if_pos hany] at hc₂
      rw [hback] at h₂
      refine ⟨c₂,l,hc₂,h₂,fun _ => rfl,?_⟩
      exact (List.filter_eq_self.mpr fun x hx => decide_eq_true (hno x hx)).symm

end Calls

/-- The list has no duplicates, in the order of registration. It is the set that is meant, with
what the calls are to return, if and only if what is registered is removed under a name with its
slash, and that is also when `UpnpRemoveVirtualDir` undoes `UpnpAddVirtualDir`. -/
theorem virtualDirs_iff (calls : List DirCall) (d : CString) :
    ∃ codes c l, runCalls empty calls = .ok (codes,c) ∧ c.Holds l ∧
      (l.map fun x => x.2.text).Nodup ∧
      (runOnSet id OrderedMap.empty calls).2.Listed (l.map entryOf) ∧
      ((codes = (runOnSet dirOf OrderedMap.empty calls).1 ∧
          (runOnSet dirOf OrderedMap.empty calls).2.Listed (l.map entryOf)) ↔
        RemovesInFull OrderedMap.empty calls) ∧
      (RemoveUndoesAdd c l d ↔ (Accepted d.val → d.val.head? = some 47)) := by
  rcases runCalls_shows shows_empty calls with ⟨c,l,hrun,h⟩
  rcases runOnSet_eq_iff shows_empty calls with ⟨hcodes,hsame⟩
  refine ⟨_,c,l,hrun,h.holds,h.nodup,h.listed,⟨fun hmeant => hcodes.mp hmeant.1,fun hfull => ?_⟩,
    removeUndoesAdd_iff h d⟩
  rw [← hsame hfull]
  exact ⟨rfl,h.listed⟩

theorem addedName_stays :
    ∃ d : CString, d.val = cstr "a" ∧
      (runCalls empty [.add (some d),.remove (some d)]).map Prod.fst =
        .ok [upnpESuccess,upnpEInvalidParam] ∧
      (runOnSet dirOf OrderedMap.empty [.add (some d),.remove (some d)]).1 =
        [upnpESuccess,upnpESuccess] ∧
      ¬RemoveUndoesAdd empty [] d := by
  refine ⟨⟨cstr "a",by decide⟩,rfl,by decide +kernel,by decide,?_⟩
  rw [removeUndoesAdd_iff shows_empty]
  decide

end VirtualDirs
end CtrlPt
