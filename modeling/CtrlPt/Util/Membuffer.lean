import CtrlPt.Lib.Transition
import CtrlPt.Lib.Memory
import CtrlPt.Http.MakeMessage
import CtrlPt.Http.Recv

/-! The growing buffers the messages are kept in: one routine sets the size of the block, and
every operation writes the end of the string behind the data. -/
namespace CtrlPt
namespace Util

open CText Memory Http Transition

def membufDefSizeInc : ℕ := 5

structure Membuffer where
  buf : Option (List UInt8)
  length : ℕ
  capacity : ℕ
  sizeInc : ℕ

/-- What an allocation does: it fails, or the new bytes of the block are as they are. -/
abbrev Attempt : Type := Option (ℕ → UInt8)

/-- The two allocations an operation may make. -/
structure Attempts where
  first : Attempt
  second : Attempt

def realloc (block : Option (List UInt8)) (size : ℕ) (attempt : Attempt) :
    Option (List UInt8) :=
  attempt.map fun junk => (List.range size).map fun i => (block.getD [])[i]?.getD (junk i)

/-- `assert`, which is there when `NDEBUG` is not defined. -/
def assert (ndebug : Bool) (b : Bool) : Except Fault Unit := if ndebug then .ok () else require b

def block (buf : Option (List UInt8)) : Except Fault (List UInt8) := buf.elim (.error .store) .ok

/-- `memmove` inside of a block. -/
def memmove (m : List UInt8) (dst src n : ℕ) : Except Fault (List UInt8) :=
  if src+n ≤ m.length then storeAll m dst ((m.drop src).take n) else .error .load

/-- `memcpy` from another block. -/
def memcpy (m : List UInt8) (dst : ℕ) (src : List UInt8) (n : ℕ) : Except Fault (List UInt8) :=
  if n ≤ src.length then storeAll m dst (src.take n) else .error .load

/-- The part of `membuffer_set_size` from the second assertion on. -/
def resize (ndebug : Bool) (m : Membuffer) (newLength allocLen : ℕ) (r : Attempts) :
    Except Fault (ℤ × Membuffer) := do
  assert ndebug (newLength ≤ allocLen)
  match realloc m.buf (sizeAdd allocLen 1) r.first with
  | some b => .ok (0,{ m with buf := some b, capacity := allocLen })
  | none =>
    match realloc m.buf (sizeAdd newLength 1) r.second with
    | some b => .ok (0,{ m with buf := some b, capacity := newLength })
    | none => .ok (upnpEOutofMemory,m)

def membufferSetSize (ndebug : Bool) (m : Membuffer) (newLength : ℕ) (r : Attempts) :
    Except Fault (ℤ × Membuffer) :=
  if m.length ≤ newLength then
    if newLength ≤ m.capacity then .ok (0,m)
    else resize ndebug m newLength (sizeAdd (max m.sizeInc (newLength-m.length)) m.capacity) r
  else if sizeSub m.capacity newLength ≤ m.sizeInc then .ok (0,m)
  else resize ndebug m newLength (sizeAdd newLength m.sizeInc) r

def membufferInitialize (m : Membuffer) : Membuffer :=
  { m with buf := none, length := 0, capacity := 0 }

def membufferInit (m : Membuffer) : Membuffer :=
  membufferInitialize { m with sizeInc := membufDefSizeInc }

def membufferDestroy (m : Membuffer) : Membuffer := membufferInit m

def membufferAssign (ndebug : Bool) (m : Membuffer) (buf : Option (List UInt8)) (bufLen : ℕ)
    (r : Attempts) : Except Fault (ℤ × Membuffer) :=
  match buf with
  | none => .ok (0,membufferDestroy m)
  | some data => do
    let (returnCode,m) ← membufferSetSize ndebug m bufLen r
    if returnCode ≠ 0 then .ok (returnCode,m)
    else if bufLen ≠ 0 then do
      let b ← block m.buf
      let b ← memcpy b 0 data bufLen
      let b ← store b bufLen 0
      .ok (0,{ m with buf := some b, length := bufLen })
    else .ok (0,{ m with length := bufLen })

def membufferAssignStr (ndebug : Bool) (m : Membuffer) (cStr : List UInt8) (r : Attempts) :
    Except Fault (ℤ × Membuffer) :=
  membufferAssign ndebug m (some cStr) (untilNul cStr).length r

def membufferInsert (ndebug : Bool) (m : Membuffer) (buf : Option (List UInt8)) (bufLen : ℕ)
    (index : ℕ) (r : Attempts) : Except Fault (ℤ × Membuffer) :=
  if m.length < index then .ok (upnpEOutofBounds,m)
  else
    match buf with
    | none => .ok (0,m)
    | some data =>
      if bufLen = 0 then .ok (0,m)
      else do
        let (returnCode,m) ← membufferSetSize ndebug m (sizeAdd m.length bufLen) r
        if returnCode ≠ 0 then .ok (returnCode,m)
        else do
          let b ← block m.buf
          let b ← memmove b (index+bufLen) index (m.length-index)
          let b ← memcpy b index data bufLen
          let b ← store b (sizeAdd m.length bufLen) 0
          .ok (0,{ m with buf := some b, length := sizeAdd m.length bufLen })

def membufferAppend (ndebug : Bool) (m : Membuffer) (buf : Option (List UInt8)) (bufLen : ℕ)
    (r : Attempts) : Except Fault (ℤ × Membuffer) :=
  membufferInsert ndebug m buf bufLen m.length r

def membufferAppendStr (ndebug : Bool) (m : Membuffer) (cStr : List UInt8) (r : Attempts) :
    Except Fault (ℤ × Membuffer) :=
  membufferInsert ndebug m (some cStr) (untilNul cStr).length m.length r

def purged (length index numBytes : ℕ) : ℕ :=
  if sizeAdd index numBytes > length then sizeSub length index else numBytes

def copyLen (length index numBytes : ℕ) : ℕ :=
  if sizeAdd index numBytes > length then 0 else sizeSub length (sizeAdd index numBytes)

/-- The number is that of `return_value`, which the caller does not get. -/
def membufferDelete (ndebug : Bool) (m : Membuffer) (index numBytes : ℕ) (r : Attempts) :
    Except Fault (ℤ × Membuffer) :=
  if m.length = 0 then .ok (0,m)
  else do
    let n := purged m.length index numBytes
    let b ← block m.buf
    let b ← memmove b index (index+n) (copyLen m.length index numBytes)
    let newLength := sizeSub m.length n
    let (returnValue,m) ← membufferSetSize ndebug { m with buf := some b } newLength r
    assert ndebug (returnValue = 0)
    if returnValue ≠ 0 then .ok (returnValue,m)
    else do
      let b ← block m.buf
      let b ← store b newLength 0
      .ok (0,{ m with buf := some b, length := newLength })

/-- The block goes to the caller. -/
def membufferDetach (m : Membuffer) : Option (List UInt8) × Membuffer :=
  (m.buf,membufferInitialize m)

def contents (m : Membuffer) : List UInt8 := (m.buf.getD []).take m.length

/-- A buffer that holds the text `l`: there is no block yet, or `l` and the end of the string
are at the front of it. -/
inductive Holds (m : Membuffer) (l : List UInt8) : Prop
  | null (hbuf : m.buf = none) (hl : l = []) (hlen : m.length = 0) (hcap : m.capacity = 0)
  | block (rest : List UInt8) (hbuf : m.buf = some (l++0::rest)) (hlen : m.length = l.length)
      (hcap : m.capacity = l.length+rest.length) (hfits : m.capacity+1 < sizeMod)

/-- As a C string, and as an array of `capacity` bytes. -/
structure Refines (m : Membuffer) (l : List UInt8) : Prop where
  contents : contents m = l
  length : m.length = l.length
  bounded : m.length ≤ m.capacity
  terminated : ∀ b, m.buf = some b → b[m.length]? = some 0

theorem Holds.refines {m : Membuffer} {l : List UInt8} (h : Holds m l) : Refines m l := by
  cases h with
  | null hbuf hl hlen hcap =>
    refine ⟨by simp [contents,hbuf,hl],by rw [hlen,hl]; rfl,by omega,?_⟩
    rintro b hb
    rw [hbuf] at hb
    cases hb
  | block rest hbuf hlen hcap hfits =>
    refine ⟨by simp [contents,hbuf,hlen],hlen,by omega,?_⟩
    rintro b hb
    rw [hbuf] at hb
    cases hb
    simp [hlen]

theorem Holds.length_eq {m : Membuffer} {l : List UInt8} (h : Holds m l) : m.length = l.length :=
  h.refines.length

theorem Holds.fits {m : Membuffer} {l : List UInt8} (h : Holds m l) :
    l.length ≤ m.capacity ∧ m.capacity+1 < sizeMod := by
  cases h with
  | null hbuf hl hlen hcap =>
    rw [hl,hcap]
    exact ⟨Nat.le_refl _,by decide⟩
  | block rest hbuf hlen hcap hfits => exact ⟨by omega,hfits⟩

theorem initialize_holds (m : Membuffer) : Holds (membufferInitialize m) [] :=
  .null rfl rfl rfl rfl

theorem realloc_some (block : Option (List UInt8)) (size : ℕ) (junk : ℕ → UInt8) :
    ∃ b, realloc block size (some junk) = some b ∧ b.length = size ∧
      ∀ k, k ≤ size → k ≤ (block.getD []).length → b.take k = (block.getD []).take k := by
  refine ⟨_,rfl,by simp,fun k hk hold => ?_⟩
  apply List.ext_getElem
  · simp only [List.length_take,List.length_map,List.length_range]
    omega
  · intro i h₁ h₂
    simp only [List.length_take,List.length_map,List.length_range] at h₁ h₂
    have hi : i < (block.getD []).length := by omega
    simp [List.getElem?_eq_getElem hi]

/-- What is asked for when the block grows has a size. -/
def GrowFits (m : Membuffer) (newLength : ℕ) : Prop :=
  m.length ≤ newLength → m.capacity < newLength →
    max m.sizeInc (newLength-m.length)+m.capacity+1 < sizeMod

instance (m : Membuffer) (newLength : ℕ) : Decidable (GrowFits m newLength) :=
  inferInstanceAs (Decidable (_ ≤ _ → _ < _ → _ < _))

/-- A new block is needed, and there is no memory for it. -/
def Unserved (m : Membuffer) (newLength : ℕ) (r : Attempts) : Prop :=
  (if m.length ≤ newLength then m.capacity < newLength else m.sizeInc < m.capacity-newLength) ∧
    r.first = none ∧ r.second = none

instance (m : Membuffer) (newLength : ℕ) (r : Attempts) : Decidable (Unserved m newLength r) :=
  inferInstanceAs (Decidable (_ ∧ _))

/-- A block with room for `newLength` bytes and the end of the string, which starts as the
old one did. -/
structure Resized (m m' : Membuffer) (newLength : ℕ) : Prop where
  length : m'.length = m.length
  room : newLength ≤ m'.capacity
  fits : m'.capacity+1 < sizeMod
  kept : m.buf = none ∧ m' = m ∧ newLength = 0 ∨
    (m.buf = none → 0 < newLength) ∧ ∃ b, m'.buf = some b ∧ b.length = m'.capacity+1 ∧
      ∀ k, k ≤ newLength+1 → k ≤ (m.buf.getD []).length → b.take k = (m.buf.getD []).take k

theorem assert_true (ndebug : Bool) {b : Bool} (h : b = true) : assert ndebug b = .ok () := by
  rw [assert,require_true h,ite_self]

theorem resize_spec (ndebug : Bool) (m : Membuffer) {newLength allocLen : ℕ} (r : Attempts)
    (hle : newLength ≤ allocLen) (hfits : allocLen+1 < sizeMod)
    (hpos : m.buf = none → 0 < newLength) :
    r.first = none ∧ r.second = none ∧
        resize ndebug m newLength allocLen r = .ok (upnpEOutofMemory,m) ∨
      ¬(r.first = none ∧ r.second = none) ∧
        ∃ m', resize ndebug m newLength allocLen r = .ok (0,m') ∧ Resized m m' newLength := by
  unfold resize
  rw [assert_true ndebug (decide_eq_true hle),sizeAdd_of_lt hfits,
    sizeAdd_of_lt (by omega : newLength+1 < sizeMod)]
  cases hfirst : r.first with
  | some junk =>
    rcases realloc_some m.buf (allocLen+1) junk with ⟨b,hb,hlen,htake⟩
    rw [hb]
    refine .inr ⟨by simp,_,rfl,rfl,hle,hfits,.inr ⟨hpos,b,rfl,hlen,fun k hk hold => ?_⟩⟩
    exact htake k (by omega) hold
  | none =>
    cases hsecond : r.second with
    | some junk =>
      rcases realloc_some m.buf (newLength+1) junk with ⟨b,hb,hlen,htake⟩
      rw [hb]
      refine .inr ⟨by simp,_,rfl,rfl,le_rfl,by show newLength+1 < sizeMod; omega,
        .inr ⟨hpos,b,rfl,hlen,htake⟩⟩
    | none => exact .inl ⟨rfl,rfl,rfl⟩

theorem setSize_spec (ndebug : Bool) {m : Membuffer} {l : List UInt8} {newLength : ℕ}
    (r : Attempts) (h : Holds m l) (hg : GrowFits m newLength) :
    Unserved m newLength r ∧
        membufferSetSize ndebug m newLength r = .ok (upnpEOutofMemory,m) ∨
      ¬Unserved m newLength r ∧
        ∃ m', membufferSetSize ndebug m newLength r = .ok (0,m') ∧ Resized m m' newLength := by
  have hlen := h.length_eq
  have hfits := h.fits
  have hstays : newLength ≤ m.capacity → Resized m m newLength := by
    intro hle
    refine ⟨rfl,hle,hfits.2,?_⟩
    cases h with
    | null hbuf hl hlen hcap => exact .inl ⟨hbuf,rfl,by omega⟩
    | block rest hbuf hlen hcap hfits =>
      refine .inr ⟨fun hn => ?_,_,hbuf,?_,fun k _ _ => by rw [hbuf]; rfl⟩
      · rw [hbuf] at hn
        cases hn
      · rw [List.length_append,List.length_cons,hcap]
        omega
  unfold membufferSetSize Unserved
  by_cases hgrow : m.length ≤ newLength
  · rw [if_pos hgrow,if_pos hgrow]
    by_cases hcap : newLength ≤ m.capacity
    · rw [if_pos hcap]
      exact .inr ⟨fun hu => absurd hu.1 (by omega),m,rfl,hstays hcap⟩
    · have hsum := hg hgrow (by omega)
      rw [if_neg hcap,sizeAdd_of_lt (by omega)]
      have hle : newLength ≤ max m.sizeInc (newLength-m.length)+m.capacity := by omega
      rcases resize_spec ndebug m r hle hsum (fun _ => by omega) with ⟨h₁,h₂,hr⟩ | ⟨hno,m',hr,hm⟩
      · exact .inl ⟨⟨by omega,h₁,h₂⟩,hr⟩
      · exact .inr ⟨fun hu => hno hu.2,m',hr,hm⟩
  · rw [if_neg hgrow,if_neg hgrow,sizeSub_of_le (by omega)]
    by_cases hinc : m.capacity-newLength ≤ m.sizeInc
    · rw [if_pos hinc]
      exact .inr ⟨fun hu => absurd hu.1 (by omega),m,rfl,hstays (by omega)⟩
    · rw [if_neg hinc,sizeAdd_of_lt (by omega)]
      have hle : newLength ≤ newLength+m.sizeInc := by omega
      have hbuf : m.buf = none → 0 < newLength := by
        intro hn
        cases h with
        | null _ _ hlen _ => omega
        | block rest hbuf _ _ _ =>
          rw [hbuf] at hn
          cases hn
      rcases resize_spec ndebug m r hle (by omega) hbuf with ⟨h₁,h₂,hr⟩ | ⟨hno,m',hr,hm⟩
      · exact .inl ⟨⟨by omega,h₁,h₂⟩,hr⟩
      · exact .inr ⟨fun hu => hno hu.2,m',hr,hm⟩

theorem memcpy_front {b data : List UInt8} {n : ℕ} (hn : n ≤ data.length) (hb : n ≤ b.length) :
    memcpy b 0 data n = .ok (data.take n++b.drop n) := by
  have hlen : (data.take n).length = n := by rw [List.length_take]; omega
  rw [memcpy,if_pos hn,storeAll,hlen,if_pos (by omega),List.take_zero,List.nil_append,Nat.zero_add]

/-- The end of the string behind a text in the block. -/
theorem store_end (l : List UInt8) {b : List UInt8} (hb : 0 < b.length) :
    store (l++b) l.length 0 = .ok (l++0::b.tail) := by
  rcases List.exists_cons_of_length_pos hb with ⟨x,rest,rfl⟩
  exact store_mid l x 0 rest

/-- An assigned text is there with its end, save that of no text: what was the first byte
stays. -/
theorem assign_spec (ndebug : Bool) {m : Membuffer} {l data : List UInt8} {n : ℕ} (r : Attempts)
    (h : Holds m l) (hn : n ≤ data.length) (hg : GrowFits m n) :
    Unserved m n r ∧
        membufferAssign ndebug m (some data) n r = .ok (upnpEOutofMemory,m) ∨
      ¬Unserved m n r ∧ ∃ m', membufferAssign ndebug m (some data) n r = .ok (0,m') ∧
        ((n = 0 → l.headD 0 = 0) ∧ Holds m' (data.take n) ∨
          (n = 0 ∧ l.headD 0 ≠ 0) ∧ ∃ b, m'.buf = some b ∧ b[m'.length]? = some (l.headD 0)) := by
  unfold membufferAssign
  rcases setSize_spec ndebug r h hg with ⟨hu,hs⟩ | ⟨hu,m',hs,hm⟩
  · rw [hs]
    exact .inl ⟨hu,rfl⟩
  · rw [hs]
    refine .inr ⟨hu,?_⟩
    have hdata : (data.take n).length = n := by rw [List.length_take]; omega
    rcases hm.kept with ⟨hbuf,rfl,rfl⟩ | ⟨hpos,b,hb,hblen,htake⟩
    · cases h with
      | null _ hl hlen hcap =>
        exact ⟨_,rfl,.inl ⟨fun _ => by rw [hl]; rfl,.null hbuf rfl rfl hcap⟩⟩
      | block rest hbuf' _ _ _ =>
        rw [hbuf] at hbuf'
        cases hbuf'
    · have hroom := hm.room
      by_cases hzero : n = 0
      · subst hzero
        refine ⟨_,rfl,?_⟩
        rcases List.exists_cons_of_length_pos (by omega : 0 < b.length) with ⟨x,rest,rfl⟩
        rw [List.length_cons] at hblen
        have hhead : x = l.headD 0 := by
          cases h with
          | null hbuf _ _ _ => exact absurd (hpos hbuf) (Nat.lt_irrefl 0)
          | block old hbuf _ _ _ =>
            have hfirst := htake 1 (by omega) (by
              rw [hbuf,Option.getD_some,List.length_append,List.length_cons]
              omega)
            rw [hbuf] at hfirst
            cases l with
            | nil => simpa using hfirst
            | cons y l => simpa using hfirst
        by_cases hx : x = 0
        · refine .inl ⟨fun _ => hhead ▸ hx,?_⟩
          subst hx
          exact .block rest hb rfl (by simpa using hblen.symm) hm.fits
        · exact .inr ⟨⟨rfl,hhead ▸ hx⟩,x::rest,hb,congrArg some hhead⟩
      · have hcopy := memcpy_front hn (by omega : n ≤ b.length)
        have hend := store_end (data.take n) (b := b.drop n)
          (by rw [List.length_drop]; omega)
        rw [hdata] at hend
        refine ⟨{ m' with buf := some (data.take n++0::(b.drop n).tail), length := n },?_,?_⟩
        · simp [Rounds.ok_bind,hzero,hb,block,hcopy,hend]
        · refine .inl ⟨fun h0 => absurd h0 hzero,.block _ rfl hdata.symm ?_ hm.fits⟩
          rw [hdata,List.length_tail,List.length_drop]
          show m'.capacity = _
          omega

theorem Resized.front {m m' : Membuffer} {l : List UInt8} {newLength k : ℕ}
    (hm : Resized m m' newLength) (h : Holds m l) (hk : k ≤ l.length) (hle : k ≤ newLength)
    (hpos : 0 < newLength ∨ 0 < l.length) :
    ∃ rest, m'.buf = some (l.take k++rest) ∧ m'.capacity+1 = k+rest.length := by
  have hroom := hm.room
  rcases hm.kept with ⟨hbuf,-,hzero⟩ | ⟨-,b,hb,hblen,htake⟩
  · cases h with
    | null _ hl _ _ =>
      rw [hl,hzero] at hpos
      simp at hpos
    | block rest hbuf' _ _ _ =>
      rw [hbuf] at hbuf'
      cases hbuf'
  · have hfront : b.take k = l.take k := by
      cases h with
      | null _ hl _ _ =>
        rw [hl] at hk ⊢
        rw [Nat.le_zero.mp hk,List.take_zero,List.take_zero]
      | block rest hbuf _ _ _ =>
        rw [htake k (by omega) (by
          rw [hbuf,Option.getD_some,List.length_append]
          omega),hbuf,Option.getD_some,List.take_append_of_le_length hk]
    refine ⟨b.drop k,?_,?_⟩
    · rw [hb,← hfront,List.take_append_drop]
    · rw [List.length_drop]
      omega

/-- The text moves to the right, other data goes to where it was, and the end of the string
behind all. -/
theorem insert_block (l rest : List UInt8) {data : List UInt8} {index n : ℕ}
    (hi : index ≤ l.length) (hn : n ≤ data.length) (hrest : n < rest.length) :
    ∃ tail, (memmove (l++rest) (index+n) index (l.length-index) >>= fun b =>
        memcpy b index data n >>= fun b => store b (l.length+n) 0) =
          .ok ((l.take index++(data.take n++l.drop index))++0::tail) ∧
      n+(tail.length+1) = rest.length := by
  have hdata : (data.take n).length = n := by rw [List.length_take]; omega
  have hfrom : ((l++rest).drop index).take (l.length-index) = l.drop index := by
    rw [List.drop_append_of_le_length hi,
      List.take_append_of_le_length (by rw [List.length_drop]),List.take_of_length_le (by
        rw [List.length_drop])]
  have hmove : memmove (l++rest) (index+n) index (l.length-index) =
      .ok ((l++rest).take (index+n)++(l.drop index++rest.drop n)) := by
    rw [memmove,if_pos (by rw [List.length_append]; omega),hfrom,storeAll,if_pos (by
      rw [List.length_append,List.length_drop]; omega),List.length_drop,
      show index+n+(l.length-index) = l.length+n by omega,← List.drop_drop,List.drop_left]
  have hlen : ((l++rest).take (index+n)).length = index+n := by
    rw [List.length_take,List.length_append]
    omega
  have hcopy : memcpy ((l++rest).take (index+n)++(l.drop index++rest.drop n)) index data n =
      .ok (l.take index++(data.take n++(l.drop index++rest.drop n))) := by
    rw [memcpy,if_pos hn,storeAll,if_pos (by
      rw [hdata,List.length_append,hlen]; omega),hdata,
      List.take_append_of_le_length (by omega),List.take_take,Nat.min_eq_left (by omega),
      List.take_append_of_le_length hi,List.drop_append_of_le_length (by omega),
      List.drop_of_length_le (by omega),List.nil_append]
  have htext : (l.take index++(data.take n++l.drop index)).length = l.length+n := by
    rw [List.length_append,List.length_append,hdata,List.length_take,List.length_drop]
    omega
  have hend := store_end (l.take index++(data.take n++l.drop index)) (b := rest.drop n) (by
    rw [List.length_drop]; omega)
  rw [htext,List.append_assoc,List.append_assoc] at hend
  refine ⟨(rest.drop n).tail,?_,?_⟩
  · rw [hmove,Rounds.ok_bind,hcopy,Rounds.ok_bind,hend,List.append_assoc,List.append_assoc]
  · rw [List.length_tail,List.length_drop]
    omega

theorem insert_spec (ndebug : Bool) {m : Membuffer} {l data : List UInt8} {n index : ℕ}
    (r : Attempts) (h : Holds m l) (hi : index ≤ l.length) (hn : n ≤ data.length) (hpos : 0 < n)
    (hsum : l.length+n < sizeMod) (hg : GrowFits m (l.length+n)) :
    Unserved m (l.length+n) r ∧
        membufferInsert ndebug m (some data) n index r = .ok (upnpEOutofMemory,m) ∨
      ¬Unserved m (l.length+n) r ∧ ∃ m', membufferInsert ndebug m (some data) n index r = .ok (0,m') ∧
        Holds m' (l.take index++(data.take n++l.drop index)) := by
  have hlen := h.length_eq
  unfold membufferInsert
  rw [if_neg (by omega),hlen,sizeAdd_of_lt hsum]
  rcases setSize_spec ndebug r h hg with ⟨hu,hs⟩ | ⟨hu,m',hs,hm⟩
  · simp only [hs,if_neg (Nat.pos_iff_ne_zero.mp hpos)]
    exact .inl ⟨hu,rfl⟩
  · simp only [hs,if_neg (Nat.pos_iff_ne_zero.mp hpos)]
    refine .inr ⟨hu,?_⟩
    rcases hm.front h (Nat.le_refl _) (Nat.le_add_right _ n) (.inl (by omega)) with ⟨rest,hb,hcap⟩
    rw [List.take_length] at hb
    have hroom := hm.room
    rcases insert_block l rest hi hn (by omega) with ⟨tail,hblock,htail⟩
    have hm' : m'.length = l.length := by rw [hm.length,hlen]
    refine ⟨{ m' with buf := some _, length := l.length+n },?_,
      .block tail rfl ?_ ?_ hm.fits⟩
    · simp only [Rounds.ok_bind,ne_eq,not_true_eq_false,if_false,hb,block,Option.elim_some,hm',
        sizeAdd_of_lt hsum]
      rcases Rounds.of_bind_ok hblock with ⟨b₁,h₁,hblock⟩
      rcases Rounds.of_bind_ok hblock with ⟨b₂,h₂,h₃⟩
      rw [h₁,Rounds.ok_bind,h₂,Rounds.ok_bind,h₃,Rounds.ok_bind]
    · simp only [List.length_append,List.length_take,List.length_drop]
      omega
    · simp only [List.length_append,List.length_take,List.length_drop]
      omega

/-- The bytes of the text once what follows the deleted ones has moved to their place. -/
def moved (l : List UInt8) (index n : ℕ) : List UInt8 :=
  l.take index++(l.drop (index+n)++l.drop (l.length-n))

/-- The number of bytes that go. -/
def goes (l : List UInt8) (index numBytes : ℕ) : ℕ := min numBytes (l.length-index)

theorem purged_eq {l : List UInt8} {index numBytes : ℕ} (hi : index ≤ l.length)
    (hsum : index+numBytes < sizeMod) : purged l.length index numBytes = goes l index numBytes := by
  rw [purged,goes,sizeAdd_of_lt hsum,sizeSub_of_le hi]
  split <;> omega

theorem copyLen_eq {l : List UInt8} {index numBytes : ℕ} (hi : index ≤ l.length)
    (hsum : index+numBytes < sizeMod) :
    copyLen l.length index numBytes = l.length-(index+goes l index numBytes) := by
  rw [copyLen,goes,sizeAdd_of_lt hsum]
  split
  · omega
  · rw [sizeSub_of_le (by omega)]
    omega

theorem moved_length {l : List UInt8} {index n : ℕ} (hn : index+n ≤ l.length) :
    (moved l index n).length = l.length := by
  simp only [moved,List.length_append,List.length_take,List.length_drop]
  omega

theorem moved_take {l : List UInt8} {index n : ℕ} (hn : index+n ≤ l.length) :
    (moved l index n).take (l.length-n) = l.take index++l.drop (index+n) := by
  rw [moved,← List.append_assoc]
  apply List.take_left'
  simp only [List.length_append,List.length_take,List.length_drop]
  omega

theorem memmove_down (l rest : List UInt8) {index n : ℕ} (hn : index+n ≤ l.length) :
    memmove (l++rest) index (index+n) (l.length-(index+n)) = .ok (moved l index n++rest) := by
  have hfrom : ((l++rest).drop (index+n)).take (l.length-(index+n)) = l.drop (index+n) := by
    rw [List.drop_append_of_le_length hn,
      List.take_append_of_le_length (by rw [List.length_drop]),List.take_of_length_le (by
        rw [List.length_drop])]
  rw [memmove,if_pos (by rw [List.length_append]; omega),hfrom,storeAll,if_pos (by
    rw [List.length_append,List.length_drop]; omega),List.length_drop,
    show index+(l.length-(index+n)) = l.length-n by omega,
    List.take_append_of_le_length (by omega),List.drop_append_of_le_length (by omega),moved,
    List.append_assoc,List.append_assoc]

theorem goes_le {l : List UInt8} {index : ℕ} (hi : index ≤ l.length) (numBytes : ℕ) :
    index+goes l index numBytes ≤ l.length := by
  rw [goes]
  omega

theorem drop_goes {l : List UInt8} {index : ℕ} (hi : index ≤ l.length) (numBytes : ℕ) :
    l.drop (index+goes l index numBytes) = l.drop (index+numBytes) := by
  rw [goes]
  rcases Nat.le_total numBytes (l.length-index) with hle | hle
  · rw [Nat.min_eq_left hle]
  · rw [Nat.min_eq_right hle,List.drop_of_length_le (by omega),List.drop_of_length_le (by omega)]

/-- The end of the string is written behind the first `k` bytes of the text. -/
theorem Resized.truncate {m m' : Membuffer} {l : List UInt8} {k : ℕ} (hm : Resized m m' k)
    (h : Holds m l) (hk : k ≤ l.length) (hpos : 0 < l.length) :
    ∃ rest, m'.buf = some (l.take k++rest) ∧
      store (l.take k++rest) k 0 = .ok (l.take k++0::rest.tail) ∧
      Holds { m' with buf := some (l.take k++0::rest.tail), length := k } (l.take k) := by
  rcases hm.front h hk le_rfl (.inr hpos) with ⟨rest,hb,hcap⟩
  have hroom := hm.room
  have hlen : (l.take k).length = k := by rw [List.length_take,Nat.min_eq_left hk]
  have hend := store_end (l.take k) (b := rest) (by omega)
  rw [hlen] at hend
  refine ⟨rest,hb,hend,.block rest.tail rfl hlen.symm ?_ hm.fits⟩
  rw [hlen,List.length_tail]
  show m'.capacity = _
  omega

/-- The bytes are gone; but when there is no memory to give the rest back with, they are
too, from the text that stays. -/
theorem delete_spec (ndebug : Bool) {m : Membuffer} {l : List UInt8} {index numBytes : ℕ}
    (r : Attempts) (h : Holds m l) (hi : index ≤ l.length) (hsum : index+numBytes < sizeMod) :
    Unserved m (l.length-goes l index numBytes) r ∧
        (∃ rest, m.buf = some (l++0::rest) ∧ membufferDelete ndebug m index numBytes r =
          if ndebug then .ok (upnpEOutofMemory,
            { m with buf := some (moved l index (goes l index numBytes)++0::rest) })
          else .error .assertion) ∨
      ¬Unserved m (l.length-goes l index numBytes) r ∧
        ∃ m', membufferDelete ndebug m index numBytes r = .ok (0,m') ∧
          Holds m' (l.take index++l.drop (index+numBytes)) := by
  have hlen := h.length_eq
  cases h with
  | null hbuf hl _ hcap =>
    refine .inr ⟨?_,m,?_,.null hbuf (by simp [hl]) (by rw [hlen,hl]; rfl) hcap⟩
    · rintro ⟨hu,-⟩
      rw [hlen,hl,hcap] at hu
      simp at hu
    · rw [membufferDelete,if_pos (by rw [hlen,hl]; rfl)]
  | block rest hbuf _ hcap hfits =>
    unfold membufferDelete
    by_cases hempty : m.length = 0
    · rw [if_pos hempty]
      have hl : l = [] := List.length_eq_zero_iff.mp (by omega)
      refine .inr ⟨?_,m,rfl,.block rest (by simpa [hl] using hbuf) (by simpa [hl] using hempty)
        (by simpa [hl] using hcap) hfits⟩
      rintro ⟨hu,-⟩
      rw [hempty,if_pos (Nat.zero_le _),hl] at hu
      simp at hu
    · have hn := goes_le hi numBytes
      rw [if_neg hempty,← drop_goes hi numBytes]
      simp only [hlen,purged_eq hi hsum,copyLen_eq hi hsum]
      rw [sizeSub_of_le (by omega)]
      generalize hgoes : goes l index numBytes = n at hn
      simp only [hbuf,block,Option.elim_some,Rounds.ok_bind,memmove_down l (0::rest) hn]
      have hmoved : Holds { m with buf := some (moved l index n++0::rest) } (moved l index n) :=
        .block rest rfl (by rw [moved_length hn]; exact hlen)
          (by rw [moved_length hn]; exact hcap) hfits
      have hshrink : GrowFits { m with buf := some (moved l index n++0::rest) } (l.length-n) := by
        intro _ hc
        have hc : m.capacity < l.length-n := hc
        omega
      rcases setSize_spec ndebug r hmoved hshrink with ⟨hu,hs⟩ | ⟨hu,m',hs,hm⟩
      · refine .inl ⟨hu,rest,rfl,?_⟩
        rw [hlen] at hs
        rw [hs,Rounds.ok_bind]
        cases ndebug with
        | true => rfl
        | false => rfl
      · refine .inr ⟨hu,?_⟩
        rcases hm.truncate hmoved (by rw [moved_length hn]; omega) (by rw [moved_length hn]; omega)
          with ⟨behind,hb,hend,hholds⟩
        rw [moved_take hn] at hb hend hholds
        have hassert : assert ndebug (decide ((0 : ℤ) = 0)) = .ok () := assert_true ndebug rfl
        rw [hlen] at hs
        refine ⟨_,?_,hholds⟩
        rw [hs,Rounds.ok_bind]
        dsimp only
        rw [hassert,Rounds.ok_bind,if_neg (not_not.mpr rfl),hb,Option.elim_some,Rounds.ok_bind,hend,
          Rounds.ok_bind]

end Util
end CtrlPt
