import CtrlPt.Util.Membuffer

/-! Any sequence of operations on a buffer, with any failures of the allocations, next to the
same operations on a list of bytes. -/
namespace CtrlPt
namespace Util

open CText Memory Http Transition

inductive Operation
  | init | detach | destroy
  | setSizeInc (sizeInc : ℕ)
  | assign (buf : Option (List UInt8)) (bufLen : ℕ)
  | assignStr (cStr : List UInt8)
  | append (buf : Option (List UInt8)) (bufLen : ℕ)
  | appendStr (cStr : List UInt8)
  | insert (buf : Option (List UInt8)) (bufLen index : ℕ)
  | delete (index numBytes : ℕ)

namespace Operation

def apply (ndebug : Bool) (m : Membuffer) (r : Attempts) :
    Operation → Except Fault (ℤ × Membuffer)
  | init => .ok (0,membufferInit m)
  | detach => .ok (0,(membufferDetach m).2)
  | destroy => .ok (0,membufferDestroy m)
  | setSizeInc sizeInc => .ok (0,{ m with sizeInc := sizeInc })
  | assign buf bufLen => membufferAssign ndebug m buf bufLen r
  | assignStr cStr => membufferAssignStr ndebug m cStr r
  | append buf bufLen => membufferAppend ndebug m buf bufLen r
  | appendStr cStr => membufferAppendStr ndebug m cStr r
  | insert buf bufLen index => membufferInsert ndebug m buf bufLen index r
  | delete index numBytes => membufferDelete ndebug m index numBytes r

/-- The operation on a list. A null pointer is no data. -/
def onList (l : List UInt8) : Operation → List UInt8
  | init | detach | destroy => []
  | setSizeInc _ => l
  | assign buf bufLen => (buf.getD []).take bufLen
  | assignStr cStr => untilNul cStr
  | append buf bufLen => l++(buf.getD []).take bufLen
  | appendStr cStr => l++untilNul cStr
  | insert buf bufLen index => l.take index++((buf.getD []).take bufLen++l.drop index)
  | delete index numBytes => l.take index++l.drop (index+numBytes)

/-- The data is there, and no length or end of a part is beyond `size_t`. -/
def InRange (m : Membuffer) : Operation → Prop
  | assign buf bufLen => bufLen ≤ (buf.getD []).length ∨ buf = none
  | append buf bufLen | insert buf bufLen _ =>
    bufLen ≤ (buf.getD []).length ∧ m.length+bufLen < sizeMod ∨ buf = none
  | appendStr cStr => m.length+(untilNul cStr).length < sizeMod
  | delete index numBytes => index ≤ m.length ∧ index+numBytes < sizeMod
  | _ => True

instance (m : Membuffer) : (op : Operation) → Decidable (op.InRange m)
  | assign _ _ | append _ _ | insert _ _ _ => inferInstanceAs (Decidable (_ ∨ _))
  | appendStr _ => inferInstanceAs (Decidable (_ < _))
  | delete _ _ => inferInstanceAs (Decidable (_ ∧ _))
  | init | detach | destroy | setSizeInc _ | assignStr _ => isTrue trivial

/-- When the block has to grow, what is asked for has a size. -/
def Fits (m : Membuffer) : Operation → Prop
  | assign _ bufLen => GrowFits m bufLen
  | assignStr cStr => GrowFits m (untilNul cStr).length
  | append _ bufLen | insert _ bufLen _ => GrowFits m (m.length+bufLen)
  | appendStr cStr => GrowFits m (m.length+(untilNul cStr).length)
  | _ => True

instance (m : Membuffer) : (op : Operation) → Decidable (op.Fits m)
  | assign _ _ | assignStr _ | append _ _ | insert _ _ _ | appendStr _ =>
    inferInstanceAs (Decidable (GrowFits _ _))
  | init | detach | destroy | setSizeInc _ | delete _ _ => isTrue trivial

/-- Nothing is assigned over a text only when the text is empty or starts with the end of a
string, and no bytes are deleted when the rest of the block cannot be given back. -/
def Clear (ndebug : Bool) (m : Membuffer) (r : Attempts) : Operation → Prop
  | assign buf bufLen => buf.isSome → bufLen = 0 → Unserved m 0 r ∨ (contents m).headD 0 = 0
  | assignStr cStr => untilNul cStr = [] → Unserved m 0 r ∨ (contents m).headD 0 = 0
  | delete index numBytes =>
    Unserved m (m.length-goes (contents m) index numBytes) r →
      ndebug = true ∧ moved (contents m) index (goes (contents m) index numBytes) = contents m
  | _ => True

instance (ndebug : Bool) (m : Membuffer) (r : Attempts) :
    (op : Operation) → Decidable (op.Clear ndebug m r)
  | assign buf bufLen =>
    inferInstanceAs (Decidable (buf.isSome → bufLen = 0 →
      Unserved m 0 r ∨ (contents m).headD 0 = 0))
  | assignStr cStr =>
    inferInstanceAs (Decidable (untilNul cStr = [] → Unserved m 0 r ∨ (contents m).headD 0 = 0))
  | delete index numBytes =>
    inferInstanceAs (Decidable (Unserved m (m.length-goes (contents m) index numBytes) r →
      ndebug = true ∧ moved (contents m) index (goes (contents m) index numBytes) = contents m))
  | init | detach | destroy | setSizeInc _ | append _ _ | appendStr _ | insert _ _ _ =>
    isTrue trivial

end Operation

/-- The operation is done as on a list, or it fails and the text is as it was. -/
def Meets (l : List UInt8) (op : Operation) (result : Except Fault (ℤ × Membuffer)) : Prop :=
  ∃ ret m, result = .ok (ret,m) ∧ (ret = 0 → Refines m (op.onList l)) ∧ (ret ≠ 0 → Refines m l)

/-- What `Meets` says, with the form of the block. -/
def Keeps (l : List UInt8) (op : Operation) (result : Except Fault (ℤ × Membuffer)) : Prop :=
  ∃ ret m, result = .ok (ret,m) ∧ Holds m (if ret = 0 then op.onList l else l)

theorem Keeps.meets {l : List UInt8} {op : Operation} {result : Except Fault (ℤ × Membuffer)}
    (h : Keeps l op result) : Meets l op result := by
  rcases h with ⟨ret,m,hr,hm⟩
  refine ⟨ret,m,hr,fun h0 => ?_,fun h0 => ?_⟩
  · rw [if_pos h0] at hm
    exact hm.refines
  · rw [if_neg h0] at hm
    exact hm.refines

theorem Keeps.done {l : List UInt8} {op : Operation} {result : Except Fault (ℤ × Membuffer)}
    {m : Membuffer} (h : result = .ok (0,m)) (hm : Holds m (op.onList l)) : Keeps l op result :=
  ⟨0,m,h,by rwa [if_pos rfl]⟩

theorem Keeps.failed {l : List UInt8} {op : Operation} {result : Except Fault (ℤ × Membuffer)}
    {m : Membuffer} {ret : ℤ} (h : result = .ok (ret,m)) (hret : ret ≠ 0) (hm : Holds m l) :
    Keeps l op result :=
  ⟨ret,m,h,by rwa [if_neg hret]⟩

theorem outofMemory_ne : upnpEOutofMemory ≠ 0 := by decide

theorem outofBounds_ne : upnpEOutofBounds ≠ 0 := by decide

theorem Holds.contents_eq {m : Membuffer} {l : List UInt8} (h : Holds m l) : contents m = l :=
  h.refines.contents

theorem assign_iff (ndebug : Bool) {m : Membuffer} {l data : List UInt8} {n : ℕ} (r : Attempts)
    {op : Operation} (h : Holds m l) (hn : n ≤ data.length) (hg : GrowFits m n)
    (hop : op.onList l = data.take n) :
    ((n = 0 → Unserved m 0 r ∨ (contents m).headD 0 = 0) →
        Keeps l op (membufferAssign ndebug m (some data) n r)) ∧
      (Meets l op (membufferAssign ndebug m (some data) n r) →
        n = 0 → Unserved m 0 r ∨ (contents m).headD 0 = 0) := by
  rw [h.contents_eq]
  rcases assign_spec ndebug r h hn hg with ⟨hu,ha⟩ | ⟨hu,m',ha,hm⟩
  · exact ⟨fun _ => .failed ha outofMemory_ne h,fun _ h0 => .inl (h0 ▸ hu)⟩
  · rcases hm with ⟨hhead,hm⟩ | ⟨⟨hzero,hhead⟩,b,hb,hfirst⟩
    · exact ⟨fun _ => .done ha (hop ▸ hm),fun _ h0 => .inr (hhead h0)⟩
    · refine ⟨fun hclear => ?_,?_⟩
      · rcases hclear hzero with hu' | h0
        · exact absurd (hzero ▸ hu') hu
        · exact absurd h0 hhead
      · rintro ⟨ret,m₁,hr,hdone,-⟩ -
        rw [ha] at hr
        cases hr
        have hend := (hdone rfl).terminated b hb
        rw [hfirst] at hend
        exact .inr (Option.some.inj hend)

theorem insert_keeps (ndebug : Bool) {m : Membuffer} {l : List UInt8} (buf : Option (List UInt8))
    {n index : ℕ} (r : Attempts) {op : Operation} (h : Holds m l)
    (hn : n ≤ (buf.getD []).length ∧ m.length+n < sizeMod ∨ buf = none)
    (hg : GrowFits m (m.length+n))
    (hop : index ≤ l.length → op.onList l = l.take index++((buf.getD []).take n++l.drop index)) :
    Keeps l op (membufferInsert ndebug m buf n index r) := by
  have hlen := h.length_eq
  by_cases hindex : m.length < index
  · exact .failed (by unfold membufferInsert; rw [if_pos hindex]) outofBounds_ne h
  · have hi : index ≤ l.length := by omega
    have hop := hop hi
    cases buf with
    | none =>
      refine .done (by unfold membufferInsert; rw [if_neg hindex]) ?_
      rwa [hop,Option.getD_none,List.take_nil,List.nil_append,List.take_append_drop]
    | some data =>
      by_cases hzero : n = 0
      · refine .done (by unfold membufferInsert; rw [if_neg hindex]; exact if_pos hzero) ?_
        rwa [hop,hzero,List.take_zero,List.nil_append,List.take_append_drop]
      · rcases hn with ⟨hn,hsum⟩ | hn
        · rw [hlen] at hsum hg
          have hdata : n ≤ data.length := hn
          rcases insert_spec ndebug r h hi hdata (Nat.pos_of_ne_zero hzero) hsum hg with
            ⟨-,hins⟩ | ⟨-,m',hins,hm⟩
          · exact .failed hins outofMemory_ne h
          · exact .done hins (hop ▸ hm)
        · cases hn

theorem delete_iff (ndebug : Bool) {m : Membuffer} {l : List UInt8} {index numBytes : ℕ}
    (r : Attempts) (h : Holds m l) (hi : index ≤ m.length) (hsum : index+numBytes < sizeMod) :
    ((Operation.delete index numBytes).Clear ndebug m r →
        Keeps l (.delete index numBytes) (membufferDelete ndebug m index numBytes r)) ∧
      (Meets l (.delete index numBytes) (membufferDelete ndebug m index numBytes r) →
        (Operation.delete index numBytes).Clear ndebug m r) := by
  have hlen := h.length_eq
  unfold Operation.Clear
  dsimp only
  rw [h.contents_eq,hlen]
  have hgoes : index+goes l index numBytes ≤ l.length := by
    rw [goes]
    omega
  rcases delete_spec ndebug r h (hlen ▸ hi) hsum with ⟨hu,rest,hbuf,hd⟩ | ⟨hu,m',hd,hm⟩
  · rw [hd]
    constructor
    · intro hclear
      rcases hclear hu with ⟨rfl,hmoved⟩
      refine .failed (if_pos rfl) outofMemory_ne ?_
      rw [hmoved,← hbuf]
      exact h
    · rintro ⟨ret,m₁,hr,hdone,hfail⟩ -
      cases ndebug with
      | false => cases hr
      | true =>
        cases hr
        have hsame := (hfail outofMemory_ne).contents
        rw [contents,Option.getD_some,hlen,← moved_length hgoes,List.take_left] at hsame
        exact ⟨rfl,hsame⟩
  · exact ⟨fun _ => .done hd hm,fun _ hu' => absurd hu' hu⟩

/-- An operation does what it should exactly when the two cases are clear. -/
theorem operation_iff (ndebug : Bool) {m : Membuffer} {l : List UInt8} (r : Attempts)
    (op : Operation) (h : Holds m l) (hrange : op.InRange m) (hfits : op.Fits m) :
    (op.Clear ndebug m r → Keeps l op (op.apply ndebug m r)) ∧
      (Meets l op (op.apply ndebug m r) → op.Clear ndebug m r) := by
  cases op with
  | init => exact ⟨fun _ => .done rfl (initialize_holds _),fun _ => trivial⟩
  | detach => exact ⟨fun _ => .done rfl (initialize_holds _),fun _ => trivial⟩
  | destroy => exact ⟨fun _ => .done rfl (initialize_holds _),fun _ => trivial⟩
  | setSizeInc sizeInc =>
    refine ⟨fun _ => .done rfl ?_,fun _ => trivial⟩
    cases h with
    | null hbuf hl hlen hcap => exact .null hbuf hl hlen hcap
    | block rest hbuf hlen hcap hfits => exact .block rest hbuf hlen hcap hfits
  | assign buf bufLen =>
    cases buf with
    | none =>
      refine ⟨fun _ => .done rfl ?_,fun _ hsome => by cases hsome⟩
      show Holds _ (([] : List UInt8).take bufLen)
      rw [List.take_nil]
      exact initialize_holds _
    | some data =>
      have hn : bufLen ≤ data.length := by
        rcases hrange with hn | hn
        · exact hn
        · cases hn
      have hop : (Operation.assign (some data) bufLen).onList l = data.take bufLen := rfl
      have hassign := assign_iff ndebug r h hn hfits hop
      exact ⟨fun hclear => hassign.1 (hclear rfl),fun hm _ => hassign.2 hm⟩
  | assignStr cStr =>
    have hn : (untilNul cStr).length ≤ cStr.length := takeWhile_length_le _ _
    have hop : (Operation.assignStr cStr).onList l = cStr.take (untilNul cStr).length :=
      (take_untilNul cStr).symm
    have hassign := assign_iff ndebug r h hn hfits hop
    constructor
    · exact fun hclear => hassign.1 fun h0 => hclear (List.length_eq_zero_iff.mp h0)
    · exact fun hm h0 => hassign.2 hm (List.length_eq_zero_iff.mpr h0)
  | append buf bufLen =>
    refine ⟨fun _ => insert_keeps ndebug buf r h hrange hfits fun _ => ?_,fun _ => trivial⟩
    rw [h.length_eq,List.take_length,List.drop_length,List.append_nil]
    rfl
  | appendStr cStr =>
    have hn : (untilNul cStr).length ≤ cStr.length := takeWhile_length_le _ _
    refine ⟨fun _ => insert_keeps ndebug (some cStr) r h (.inl ⟨hn,hrange⟩) hfits fun _ => ?_,
      fun _ => trivial⟩
    rw [h.length_eq,List.take_length,List.drop_length,List.append_nil,Option.getD_some,
      take_untilNul]
    rfl
  | insert buf bufLen index =>
    exact ⟨fun _ => insert_keeps ndebug buf r h hrange hfits fun _ => rfl,fun _ => trivial⟩
  | delete index numBytes => exact delete_iff ndebug r h hrange.1 hrange.2

structure Buffered where
  buffer : Membuffer
  text : List UInt8

def step (ndebug : Bool) (s : Buffered) (e : Operation × Attempts) : Option Buffered :=
  match e.1.apply ndebug s.buffer e.2 with
  | .ok (ret,m) => some ⟨m,if ret = 0 then e.1.onList s.text else s.text⟩
  | .error _ => none

def Sized (s : Buffered) (e : Operation × Attempts) : Prop :=
  e.1.InRange s.buffer ∧ e.1.Fits s.buffer

def Guarded (ndebug : Bool) (s : Buffered) (e : Operation × Attempts) : Prop :=
  Sized s e ∧ e.1.Clear ndebug s.buffer e.2

instance (ndebug : Bool) : DecidableRel (Guarded ndebug) := fun _ _ =>
  inferInstanceAs (Decidable ((_ ∧ _) ∧ _))

theorem step_holds {ndebug : Bool} {s t : Buffered} {e : Operation × Attempts}
    (h : Holds s.buffer s.text) (hok : Guarded ndebug s e) (hstep : step ndebug s e = some t) :
    Holds t.buffer t.text := by
  rcases hok with ⟨⟨hrange,hfits⟩,hclear⟩
  rcases (operation_iff ndebug e.2 e.1 h hrange hfits).1 hclear with ⟨ret,m,hr,hm⟩
  rw [step,hr] at hstep
  cases hstep
  exact hm

theorem runs_holds {ndebug : Bool} {m : Membuffer} {s : Buffered}
    (h : Runs (step ndebug) (Guarded ndebug) ⟨membufferInit m,[]⟩ s) : Holds s.buffer s.text :=
  h.invariant (initialize_holds _) fun _ _ _ hs hok hstep => step_holds hs hok hstep

/-- While every step is guarded, the buffer has the bytes of the list, and the next operation
ends and does what it does on the list or fails and changes nothing. -/
theorem membuffer_refines {ndebug : Bool} {m : Membuffer} {s : Buffered}
    (h : Runs (step ndebug) (Guarded ndebug) ⟨membufferInit m,[]⟩ s) :
    Refines s.buffer s.text ∧ ∀ op r, Sized s (op,r) →
      (Meets s.text op (op.apply ndebug s.buffer r) ↔ op.Clear ndebug s.buffer r) := by
  have hs := runs_holds h
  refine ⟨hs.refines,fun op r hsized => ?_⟩
  have hop := operation_iff ndebug r op hs hsized.1 hsized.2
  exact ⟨hop.2,fun hclear => (hop.1 hclear).meets⟩

/-- Allocations that succeed, and that fail. -/
def served : Attempts := ⟨some fun _ => 0,some fun _ => 0⟩

def refused : Attempts := ⟨none,none⟩

/-- A block that has grown and shrunk, could not be given back once, and is filled again. -/
def editedText : Buffered := ⟨⟨some [120,0,102,0,101,102],1,5,5⟩,[120]⟩

theorem editedText_refines : Refines editedText.buffer editedText.text ∧
    ∀ op r, Sized editedText (op,r) →
      (Meets editedText.text op (op.apply true editedText.buffer r) ↔
        op.Clear true editedText.buffer r) := by
  have hrun : Runs (step true) (Guarded true) ⟨membufferInit ⟨none,0,0,0⟩,[]⟩ editedText :=
    .of_run [(.assign (some [97,98]) 2,served),(.append (some [99,100,101,102]) 4,served),
      (.delete 1 3,served),(.delete 0 3,refused),(.delete 0 3,served),
      (.assign (some []) 0,served),(.append (some [120]) 1,served)] rfl
  exact membuffer_refines hrun

def assignedText : Buffered := ⟨⟨some [97,98,0,0,0,0],2,5,5⟩,[97,98]⟩

/-- Assigning no bytes over a text leaves the first of its bytes where the string should end. -/
theorem assign_nothing_unterminated :
    ¬∀ s, Runs (step true) Sized ⟨membufferInit ⟨none,0,0,0⟩,[]⟩ s → Refines s.buffer s.text := by
  intro h
  have hassign : Sized ⟨membufferInit ⟨none,0,0,0⟩,[]⟩ (.assign (some [97,98]) 2,served) :=
    ⟨.inl (by decide),fun _ _ => by decide⟩
  have hnothing : Sized assignedText (.assign (some []) 0,served) :=
    ⟨.inl (by decide),fun _ hc => absurd hc (by decide)⟩
  have hrun : Runs (step true) Sized ⟨membufferInit ⟨none,0,0,0⟩,[]⟩
      ⟨⟨some [97,98,0,0,0,0],0,5,5⟩,[]⟩ :=
    .tail (t := assignedText) _ (.tail _ .refl hassign rfl) hnothing rfl
  have hend := (h _ hrun).terminated _ rfl
  exact absurd hend (by decide)

end Util
end CtrlPt
