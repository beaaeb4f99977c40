import CtrlPt.Lib.Memory
import CtrlPt.CText

/-! Arrays of characters inside structures, and the copies of C strings into them. Writing
beyond the end of one is an error. -/
namespace CtrlPt

open CText Memory

structure CharArray (n : ℕ) where
  bytes : List UInt8
  sized : bytes.length = n
  deriving DecidableEq

namespace CharArray

variable {n : ℕ}

def zero (n : ℕ) : CharArray n := ⟨List.replicate n 0,List.length_replicate⟩

/-- There is a string in the array. -/
def Terminated (a : CharArray n) : Prop := 0 ∈ a.bytes

instance decidableTerminated (a : CharArray n) : Decidable a.Terminated :=
  inferInstanceAs (Decidable (0 ∈ a.bytes))

def text (a : CharArray n) : List UInt8 := untilNul a.bytes

/-- All of `bytes` from `i` on. -/
def write (a : CharArray n) (i : ℕ) (bytes : List UInt8) : Except Fault (CharArray n) :=
  if h : i+bytes.length ≤ n then
    .ok ⟨a.bytes.take i++(bytes++a.bytes.drop (i+bytes.length)),by
      simp only [List.length_append,List.length_take,List.length_drop,a.sized]
      omega⟩
  else .error .store

/-- What `strncpy` writes: it stops reading at a NUL and fills up with NULs. -/
def padded (src : List UInt8) (k : ℕ) : List UInt8 :=
  (untilNul src).take k++List.replicate (k-(untilNul src).length) 0

def strncpy (a : CharArray n) (src : List UInt8) (k : ℕ) : Except Fault (CharArray n) :=
  a.write 0 (padded src k)

def strlen (a : CharArray n) : Except Fault ℕ :=
  if a.Terminated then .ok a.text.length else .error .unterminated

def strcpy {k : ℕ} (a : CharArray n) (src : CharArray k) : Except Fault (CharArray n) :=
  if src.Terminated then a.write 0 (src.text++[0]) else .error .unterminated

/-- `strcmp` with 0. Two arrays are read up to where they differ or end together. -/
def strcmpEq : List UInt8 → List UInt8 → Except Fault Bool
  | a::as, b::bs => if a ≠ b then .ok false else if a = 0 then .ok true else strcmpEq as bs
  | _, _ => .error .load

theorem write_ok (a : CharArray n) (i : ℕ) (bytes : List UInt8) (h : i+bytes.length ≤ n) :
    ∃ b, a.write i bytes = .ok b ∧
      b.bytes = a.bytes.take i++(bytes++a.bytes.drop (i+bytes.length)) := by
  rw [write,dif_pos h]
  exact ⟨_,rfl,rfl⟩

theorem write_error {a : CharArray n} {i : ℕ} {bytes : List UInt8} (h : ¬i+bytes.length ≤ n) :
    a.write i bytes = .error .store := by
  rw [write,dif_neg h]

@[simp] theorem padded_length (src : List UInt8) (k : ℕ) : (padded src k).length = k := by
  rw [padded,List.length_append,List.length_take,List.length_replicate]
  omega

/-- A value is copied whole; behind its end the array is still zero. -/
theorem strncpy_zero_iff (v : List UInt8) :
    (∃ b, (zero n).strncpy v v.length = .ok b ∧ b.Terminated) ↔
      v.length < n ∨ v.length = n ∧ 0 ∈ v := by
  by_cases hle : v.length ≤ n
  · rcases write_ok (zero n) 0 (padded v v.length)
      (by rwa [padded_length,Nat.zero_add]) with ⟨b,hb,hbytes⟩
    have hiff : b.Terminated ↔ v.length < n ∨ v.length = n ∧ 0 ∈ v := by
      rw [Terminated,hbytes,List.take_zero,List.nil_append,padded_length,Nat.zero_add,
        List.mem_append,zero,List.drop_replicate,List.mem_replicate,padded,List.mem_append,
        List.mem_replicate]
      constructor
      · rintro ((h | ⟨h,-⟩) | ⟨h,-⟩)
        · exact absurd (List.mem_of_mem_take h) (not_mem_untilNul v)
        · have hmem : 0 ∈ v := by
            by_contra hn
            rw [untilNul_of_no_nul hn,Nat.sub_self] at h
            exact h rfl
          rcases hle.lt_or_eq with hlt | heq
          · exact .inl hlt
          · exact .inr ⟨heq,hmem⟩
        · exact .inl (by omega)
      · rintro (h | ⟨-,h⟩)
        · exact .inr ⟨by omega,rfl⟩
        · have hlt := untilNul_length_lt h
          exact .inl (.inr ⟨by omega,rfl⟩)
    rw [← hiff]
    constructor
    · rintro ⟨c,hc,ht⟩
      rw [strncpy,hb] at hc
      cases hc
      exact ht
    · exact fun ht => ⟨b,hb,ht⟩
  · rw [strncpy,write_error (by rwa [padded_length,Nat.zero_add])]
    constructor
    · rintro ⟨b,hb,-⟩
      cases hb
    · intro h
      omega

/-- `l` is the string in the array. -/
structure Holds (a : CharArray n) (l : List UInt8) : Prop where
  no_nul : 0 ∉ l
  bytes : ∃ r, a.bytes = l++0::r

theorem Holds.terminated {a : CharArray n} {l : List UInt8} (h : a.Holds l) : a.Terminated := by
  rcases h.bytes with ⟨r,hr⟩
  rw [Terminated,hr]
  simp

theorem Holds.text {a : CharArray n} {l : List UInt8} (h : a.Holds l) : a.text = l := by
  rcases h.bytes with ⟨r,hr⟩
  rw [CharArray.text,hr,untilNul_terminated h.no_nul]

theorem Holds.strlen {a : CharArray n} {l : List UInt8} (h : a.Holds l) :
    a.strlen = .ok l.length := by
  rw [CharArray.strlen,if_pos h.terminated,h.text]

theorem Holds.length_lt {a : CharArray n} {l : List UInt8} (h : a.Holds l) : l.length < n := by
  rcases h.bytes with ⟨r,hr⟩
  rw [← a.sized,hr,List.length_append,List.length_cons]
  omega

/-- A string that fits with its NUL is written behind what stays. -/
theorem write_holds {a : CharArray n} {l text : List UInt8} (ha : a.bytes.take l.length = l)
    (hl : 0 ∉ l) (ht : 0 ∉ text) (hfit : l.length+text.length < n) :
    ∃ b, a.write l.length (text++[0]) = .ok b ∧ b.Holds (l++text) := by
  rcases write_ok a l.length (text++[0]) (by
    rw [List.length_append,List.length_singleton]
    omega) with ⟨b,hb,hbytes⟩
  refine ⟨b,hb,?_,a.bytes.drop (l.length+(text++[0]).length),?_⟩
  · rw [List.mem_append]
    exact not_or.mpr ⟨hl,ht⟩
  · rw [hbytes,ha]
    simp only [List.append_assoc,List.cons_append,List.nil_append]

/-- Behind `l` there are only NULs. -/
def FilledUp (a : CharArray n) (l : List UInt8) : Prop := a.bytes = l++List.replicate (n-l.length) 0

theorem zero_filledUp : (zero n).FilledUp [] := rfl

theorem FilledUp.holds {a : CharArray n} {l : List UInt8} (h : a.FilledUp l) (hl : 0 ∉ l)
    (hlt : l.length < n) : a.Holds l := by
  refine ⟨hl,List.replicate (n-l.length-1) 0,?_⟩
  rw [h,← List.replicate_succ]
  congr 2
  omega

/-- `strncpy` behind `l` leaves NULs behind the whole. -/
theorem FilledUp.write_padded {a : CharArray n} {l text : List UInt8} (h : a.FilledUp l)
    (ht : 0 ∉ text) {k : ℕ} (hk : text.length ≤ k) (hfit : l.length+k ≤ n) :
    ∃ b, a.write l.length (padded (text++[0]) k) = .ok b ∧ b.FilledUp (l++text) := by
  rcases write_ok a l.length (padded (text++[0]) k) (by rwa [padded_length]) with ⟨b,hb,hbytes⟩
  refine ⟨b,hb,?_⟩
  rw [FilledUp,hbytes,padded_length,h,padded,untilNul_terminated ht,List.take_of_length_le hk,
    List.take_left,List.drop_append,List.drop_eq_nil_of_le (by omega),List.drop_replicate,
    List.nil_append,List.append_assoc,List.append_assoc,← List.replicate_add,List.length_append]
  congr 3
  omega

def strcat (a : CharArray n) (src : List UInt8) : Except Fault (CharArray n) := do
  let len ← a.strlen
  a.write len (src++[0])

theorem Holds.strcat {a : CharArray n} {l src : List UInt8} (h : a.Holds l) (hs : 0 ∉ src)
    (hfit : l.length+src.length < n) : ∃ b, a.strcat src = .ok b ∧ b.Holds (l++src) := by
  have ha : a.bytes.take l.length = l := by
    rcases h.bytes with ⟨r,hr⟩
    rw [hr,List.take_left]
  rcases write_holds ha h.no_nul hs hfit with ⟨b,hb,hh⟩
  refine ⟨b,?_,hh⟩
  rw [CharArray.strcat,h.strlen]
  exact hb

/-- `snprintf` with the size of the array: the length of the text, or less than 0 if that is no
`int`. -/
def snprintf (a : CharArray n) (text : List UInt8) : Except Fault (ℤ × CharArray n) := do
  let b ← a.write 0 ((text.take (n-1)++[0]).take n)
  .ok (if text.length < 2^31 then text.length else -1,b)

/-- The text has been printed whole if its length says so. -/
theorem snprintf_holds (a : CharArray n) (hn : 0 < n) {text : List UInt8} (ht : 0 ∉ text) :
    ∃ b, a.snprintf text = .ok (if text.length < 2^31 then text.length else -1,b) ∧
      (text.length < n → b.Holds text) := by
  have htake : (text.take (n-1)++[0]).take n = text.take (n-1)++[0] :=
    List.take_of_length_le (by
      rw [List.length_append,List.length_take,List.length_singleton]
      omega)
  have hnul : 0 ∉ text.take (n-1) := fun h => ht (List.mem_of_mem_take h)
  rcases write_holds (a := a) (l := []) (List.take_zero ..) (by simp) hnul (by
    rw [List.length_nil,List.length_take]
    omega) with ⟨b,hb,hh⟩
  refine ⟨b,?_,fun hlt => ?_⟩
  · rw [snprintf,htake]
    rw [List.length_nil] at hb
    rw [hb]
    rfl
  · rwa [List.nil_append,List.take_of_length_le (by omega)] at hh

/-- A string that is shorter than the array is copied with its end. -/
theorem strcpy_holds {k : ℕ} (a : CharArray n) {src : CharArray k} (h : src.Terminated) (hk : k ≤ n) :
    ∃ b, a.strcpy src = .ok b ∧ b.Holds src.text := by
  have hlt := untilNul_length_lt h
  rw [src.sized] at hlt
  rcases write_holds (a := a) (l := []) (List.take_zero ..) (by simp) (not_mem_untilNul src.bytes)
    (by rw [List.length_nil]; omega) with ⟨b,hb,hh⟩
  exact ⟨b,by rw [strcpy,if_pos h]; exact hb,hh⟩

theorem strcmpEq_eq {a b : List UInt8} (ha : 0 ∈ a) (hb : 0 ∈ b) :
    strcmpEq a b = .ok (untilNul a == untilNul b) := by
  induction a generalizing b with
  | nil => cases ha
  | cons x a ih =>
    cases b with
    | nil => cases hb
    | cons y b =>
      unfold strcmpEq untilNul
      rw [List.takeWhile_cons,List.takeWhile_cons]
      by_cases hne : x ≠ y
      · rw [if_pos hne]
        by_cases h0 : x = 0
        · have hy : y ≠ 0 := fun hy => hne (h0.trans hy.symm)
          simp [h0,hy]
        · by_cases hy : y = 0
          · simp [h0,hy]
          · simp [h0,hy,hne]
      · rw [if_neg hne]
        have hxy : x = y := not_not.mp hne
        subst hxy
        by_cases h0 : x = 0
        · simp [h0]
        · rw [if_neg h0,ih ((List.mem_cons.mp ha).resolve_left (Ne.symm h0))
            ((List.mem_cons.mp hb).resolve_left (Ne.symm h0))]
          simp [h0,untilNul]

end CharArray
end CtrlPt
