import CtrlPt.Lib.Loop
import Mathlib.Data.List.TakeWhile
import Mathlib.Data.Nat.Digits.Lemmas

/-! The parts of the C library the program leans on. A byte is a `UInt8`, a `char`
its signed reading, and a C string the bytes before its terminating NUL. Sizes are
64-bit (`size_t`, `long`), `int` is 32-bit, as on the LP64 systems the code targets. -/
namespace CtrlPt
namespace CText

def cstr (s : String) : List UInt8 := s.toList.map fun c => c.toNat.toUInt8

/-- A `char` is signed. -/
def charInt (c : UInt8) : ℤ := if c.toNat < 128 then c.toNat else (c.toNat : ℤ) - 256

def isDigit (c : UInt8) : Bool := 48 ≤ c && c ≤ 57
def isLower (c : UInt8) : Bool := 97 ≤ c && c ≤ 122
def isUpper (c : UInt8) : Bool := 65 ≤ c && c ≤ 90
def isAlpha (c : UInt8) : Bool := isLower c || isUpper c
def isAlnum (c : UInt8) : Bool := isAlpha c || isDigit c
def isXDigit (c : UInt8) : Bool := isDigit c || (97 ≤ c && c ≤ 102) || (65 ≤ c && c ≤ 70)
def isSpace (c : UInt8) : Bool := c == 32 || (9 ≤ c && c ≤ 13)
def toLower (c : UInt8) : UInt8 := if isUpper c then c+32 else c

/-- `strchr(s,c) != 0`: the search also finds the terminator. -/
def strchr (s : List UInt8) (c : UInt8) : Bool := s.contains c || c == 0

/-- A string that a pointer leads to, without its end. -/
abbrev CString := {s : List UInt8 // 0 ∉ s}

/-- The C string that starts at the head of `r`. -/
def untilNul (r : List UInt8) : List UInt8 := r.takeWhile (· != 0)

/-- `strncmp` after mapping both sides by `f`; past its end a list reads as NUL. -/
def strncmpBy (f : UInt8 → UInt8) : ℕ → List UInt8 → List UInt8 → ℤ
  | 0, _, _ => 0
  | n+1, a, b =>
    let x := f (a.headD 0)
    let y := f (b.headD 0)
    if x ≠ y then (x.toNat : ℤ) - y.toNat
    else if x = 0 then 0
    else strncmpBy f n a.tail b.tail

def strncmp (a b : List UInt8) (n : ℕ) : ℤ := strncmpBy id n a b
def strncasecmp (a b : List UInt8) (n : ℕ) : ℤ := strncmpBy toLower n a b

/-- `strstr`: the index of the first occurrence of `s` in the C string `r`. -/
def strstr (r s : List UInt8) : Option ℕ :=
  (List.range (r.length+1)).find? fun i => s.isPrefixOf (r.drop i)

def sizeMod : ℕ := 2^64

def sizeAdd (a b : ℕ) : ℕ := (a+b) % sizeMod

/-- `size_t` subtraction wraps below zero. -/
def sizeSub (a b : ℕ) : ℕ := if b ≤ a then a-b else a+sizeMod-b

theorem sizeSub_of_le {a b : ℕ} (h : b ≤ a) : sizeSub a b = a-b := if_pos h

theorem sizeAdd_of_lt {a b : ℕ} (h : a+b < sizeMod) : sizeAdd a b = a+b := Nat.mod_eq_of_lt h

def longMax : ℤ := 2^63-1
def longMin : ℤ := -2^63

/-- Conversion to `int`. -/
def toInt (n : ℤ) : ℤ := Int.bmod n (2^32)

def toUInt (n : ℤ) : ℕ := (n % 2^32).toNat

def digitValue (c : UInt8) : ℕ :=
  if isDigit c then c.toNat-48
  else if isLower c then c.toNat-87
  else if isUpper c then c.toNat-55
  else 36

def isBaseDigit (base : ℕ) (c : UInt8) : Bool := decide (digitValue c < base)

def numeralValue (base : ℕ) (ds : List UInt8) : ℕ :=
  ds.foldl (fun n c => n*base + digitValue c) 0

/-- A value of type `long`, with `errno == ERANGE` when it was out of range. -/
def clampLong (n : ℤ) : ℤ × Bool :=
  if longMax < n then (longMax,true)
  else if n < longMin then (longMin,true)
  else (n,false)

structure Strtol where
  value : ℤ
  /-- How far `endptr` is from the start; 0 when no conversion was made. -/
  used : ℕ
  erange : Bool
  deriving DecidableEq, Repr

/-- An optional sign, and whether it is a minus. -/
def readSign : List UInt8 → Bool × List UInt8
  | 45::r => (true,r)
  | 43::r => (false,r)
  | r => (false,r)

/-- The `0x` a hexadecimal numeral may begin with; it counts only before a digit. -/
def skipHexMark (base : ℕ) (r : List UInt8) : List UInt8 :=
  if base = 16 ∧ r.getD 0 0 = 48 ∧ (r.getD 1 0 = 120 ∨ r.getD 1 0 = 88) ∧
      isBaseDigit 16 (r.getD 2 0) = true then r.drop 2
  else r

def strtol (base : ℕ) (r : List UInt8) : Strtol :=
  let r₁ := r.dropWhile isSpace
  let s := readSign r₁
  let r₂ := skipHexMark base s.2
  let ds := r₂.takeWhile (isBaseDigit base)
  if ds.isEmpty then ⟨0,0,false⟩
  else
    let m : ℤ := numeralValue base ds
    let v := clampLong (if s.1 then -m else m)
    ⟨v.1,r.length - (r₂.length - ds.length),v.2⟩

theorem takeWhile_length_le {α : Type} (p : α → Bool) (l : List α) :
    (l.takeWhile p).length ≤ l.length :=
  (List.takeWhile_sublist p).length_le

theorem untilNul_append {l : List UInt8} (h : 0 ∉ l) (r : List UInt8) :
    untilNul (l++r) = l++untilNul r :=
  List.takeWhile_append_of_pos fun _ hc => bne_iff_ne.mpr fun h0 => h (h0 ▸ hc)

theorem untilNul_terminated {l : List UInt8} (h : 0 ∉ l) (r : List UInt8) :
    untilNul (l++0::r) = l := by
  rw [untilNul_append h]
  exact List.append_nil l

theorem untilNul_of_no_nul {l : List UInt8} (h : 0 ∉ l) : untilNul l = l :=
  List.takeWhile_eq_self_iff.mpr fun _ hc => bne_iff_ne.mpr fun h0 => h (h0 ▸ hc)

theorem not_mem_untilNul (l : List UInt8) : 0 ∉ untilNul l := by
  intro h
  have hne := List.mem_takeWhile_imp h
  exact absurd hne (by decide)

theorem untilNul_length_lt {l : List UInt8} (h : 0 ∈ l) : (untilNul l).length < l.length := by
  refine lt_of_le_of_ne (takeWhile_length_le _ _) fun he => ?_
  have hself := List.IsPrefix.eq_of_length (List.takeWhile_prefix _) he
  have hne := List.takeWhile_eq_self_iff.mp hself 0 h
  exact absurd hne (by decide)

@[simp] theorem take_untilNul (l : List UInt8) : l.take (untilNul l).length = untilNul l :=
  (List.prefix_iff_eq_take.mp (List.takeWhile_prefix _)).symm

/-- What is said of the bytes of a text is decided by going through the text, not through all
bytes there are. -/
instance decidableForallBytes (p : UInt8 → Prop) [DecidablePred p] (l : List UInt8) :
    Decidable (∀ c ∈ l, p c) := List.decidableBAll p l

instance decidableForallByte (p : UInt8 → Prop) [DecidablePred p] (o : Option UInt8) :
    Decidable (∀ c ∈ o, p c) := Option.decidableForallMem o

theorem byte_forall {P : UInt8 → Prop} (h : ∀ n : Fin 256, P (UInt8.ofFin n)) (c : UInt8) : P c := by
  have hc := h c.toFin
  simpa using hc

theorem isBaseDigit_of_not_alnum {base : ℕ} (hb : base ≤ 36) {c : UInt8} (h : isAlnum c = false) :
    isBaseDigit base c = false := by
  simp only [isAlnum,isAlpha,Bool.or_eq_false_iff] at h
  rcases h with ⟨⟨hl,hu⟩,hd⟩
  simp [isBaseDigit,digitValue,hl,hu,hd,decide_eq_false_iff_not]
  omega

theorem skipHexMark_append {base : ℕ} (t u : List UInt8) (c : UInt8) (h : isAlnum c = false) :
    skipHexMark base (t++c::u) = skipHexMark base t ++ c::u := by
  have hc48 : c ≠ 48 := by rintro rfl; revert h; decide
  have hcx : c ≠ 120 ∧ c ≠ 88 := by
    constructor <;> (rintro rfl; revert h; decide)
  have hdig := isBaseDigit_of_not_alnum (by decide : 16 ≤ 36) h
  have hz : isBaseDigit 16 0 = false := by decide
  match t with
  | [] => simp [skipHexMark,hc48]
  | [a] => simp [skipHexMark,hcx]
  | [a,b] => simp [skipHexMark,hdig,hz]
  | a::b::d::t =>
    simp only [skipHexMark,List.cons_append,List.getD_cons_zero,List.getD_cons_succ]
    split <;> rfl

theorem readSign_append (a : UInt8) (t w : List UInt8) :
    readSign (a::t++w) = ((readSign (a::t)).1,(readSign (a::t)).2++w) := by
  simp only [readSign,List.cons_append]
  split <;> simp_all

/-- A numeral that is followed by a byte that is no letter or digit ends there. -/
theorem strtol_append {base : ℕ} (hb : base ≤ 36) {a c : UInt8} (t u : List UInt8)
    (ha : isSpace a = false) (hc : isAlnum c = false) :
    strtol base (a::t++c::u) = strtol base (a::t) := by
  have hd := isBaseDigit_of_not_alnum hb hc
  have hw : ∀ w : List UInt8, (a::t++w).dropWhile isSpace = a::t++w := by
    intro w
    simp [ha]
  have hw' : (a::t).dropWhile isSpace = a::t := by simpa using hw []
  simp only [strtol,hw,hw',readSign_append,skipHexMark_append _ _ _ hc]
  have ht : ∀ l : List UInt8, (l++c::u).takeWhile (isBaseDigit base) =
      l.takeWhile (isBaseDigit base) := by
    intro l
    rw [List.takeWhile_append]
    split
    · rename_i hl
      simp only [List.takeWhile_cons,hd,Bool.false_eq_true,if_false,List.append_nil]
      exact (List.IsPrefix.eq_of_length (List.takeWhile_prefix _) hl).symm
    · rfl
  rw [ht]
  split
  · rfl
  · have hl := takeWhile_length_le (isBaseDigit base) (skipHexMark base (readSign (a::t)).2)
    simp only [Strtol.mk.injEq,true_and,and_true,List.length_append]
    omega

/-- Digits of a base and their value: a numeral without sign or mark. -/
structure Numeral (base : ℕ) (ds : List UInt8) (n : ℕ) : Prop where
  ne_nil : ds ≠ []
  digits : ∀ c ∈ ds, isBaseDigit base c = true
  value : numeralValue base ds = n

theorem isAlnum_of_isBaseDigit {base : ℕ} (hb : base ≤ 36) {c : UInt8}
    (h : isBaseDigit base c = true) : isAlnum c = true := by
  by_contra hne
  rw [isBaseDigit_of_not_alnum hb (by simpa using hne)] at h
  cases h

theorem alnum_plain (c : UInt8) (h : isAlnum c = true) : isSpace c = false ∧ c ≠ 45 ∧ c ≠ 43 := by
  revert h
  exact byte_forall (P := fun c => isAlnum c = true → isSpace c = false ∧ c ≠ 45 ∧ c ≠ 43)
    (by decide +kernel) c

theorem readSign_of_plain {a : UInt8} {t : List UInt8} (h₁ : a ≠ 45) (h₂ : a ≠ 43) :
    readSign (a::t) = (false,a::t) := by
  unfold readSign
  split
  · rename_i he
    cases he
    exact absurd rfl h₁
  · rename_i he
    cases he
    exact absurd rfl h₂
  · rfl

theorem skipHexMark_digits {base : ℕ} (hb : base ≤ 16) {ds : List UInt8}
    (h : ∀ c ∈ ds, isBaseDigit base c = true) : skipHexMark base ds = ds := by
  apply if_neg
  rintro ⟨rfl,-,hx,-⟩
  match ds with
  | [] => simp at hx
  | [a] => simp at hx
  | a::b::t =>
    have hd := h b (by simp)
    simp only [List.getD_cons_succ,List.getD_cons_zero] at hx
    rcases hx with rfl | rfl <;> revert hd <;> decide

theorem strtol_numeral {base : ℕ} (hb : base ≤ 16) {ds : List UInt8} {n : ℕ}
    (h : Numeral base ds n) (hn : n < 2^63) : strtol base ds = ⟨n,ds.length,false⟩ := by
  have htake : ds.takeWhile (isBaseDigit base) = ds := List.takeWhile_eq_self_iff.mpr h.digits
  have hskip := skipHexMark_digits hb h.digits
  obtain ⟨a,t,rfl⟩ := List.exists_cons_of_ne_nil h.ne_nil
  have ha := alnum_plain a (isAlnum_of_isBaseDigit (by omega) (h.digits a (by simp)))
  have hdrop : (a::t).dropWhile isSpace = a::t := by simp [ha.1]
  have hclamp : clampLong (n : ℤ) = ((n : ℤ),false) := by
    unfold clampLong longMax longMin
    rw [if_neg (by omega),if_neg (by omega)]
  simp only [strtol,hdrop,readSign_of_plain ha.2.1 ha.2.2,hskip,htake,h.value]
  simp [hclamp]

/-- A digit as `printf` writes it. -/
def digitChar (d : ℕ) : UInt8 := if d < 10 then (48+d).toUInt8 else (87+d).toUInt8

/-- The text of `%zx` and `%zu`, by the base. -/
def printNumeral (base n : ℕ) : List UInt8 :=
  if n = 0 then [48] else ((Nat.digits base n).map digitChar).reverse

theorem digitValue_digitChar {d : ℕ} (h : d < 16) : digitValue (digitChar d) = d := by
  revert d
  decide

theorem numeralValue_reverse {base : ℕ} (hb : base ≤ 16) {ds : List ℕ} (h : ∀ d ∈ ds, d < base) :
    numeralValue base (ds.map digitChar).reverse = Nat.ofDigits base ds := by
  induction ds with
  | nil => rfl
  | cons d ds ih =>
    have hd := digitValue_digitChar (Nat.lt_of_lt_of_le (h d (by simp)) hb)
    have hr := ih fun e he => h e (by simp [he])
    unfold numeralValue at hr ⊢
    rw [List.map_cons,List.reverse_cons,List.foldl_append,hr,Nat.ofDigits_cons]
    simp only [List.foldl_cons,List.foldl_nil,hd]
    rw [Nat.mul_comm,Nat.add_comm]

theorem printNumeral_numeral {base : ℕ} (h₁ : 1 < base) (h₂ : base ≤ 16) (n : ℕ) :
    Numeral base (printNumeral base n) n := by
  unfold printNumeral
  split
  · rename_i hn
    subst hn
    have hzero : digitValue 48 = 0 := rfl
    refine ⟨(by rintro ⟨⟩),List.forall_mem_singleton.mpr ?_,by simp [numeralValue,hzero]⟩
    exact decide_eq_true (hzero ▸ Nat.lt_trans Nat.zero_lt_one h₁)
  · rename_i hn
    have hlt : ∀ d ∈ Nat.digits base n, d < base := fun d hd => Nat.digits_lt_base h₁ hd
    refine ⟨?_,?_,?_⟩
    · simp [Nat.digits_ne_nil_iff_ne_zero.mpr hn]
    · simp only [List.mem_reverse,List.mem_map]
      rintro c ⟨d,hd,rfl⟩
      have hdb := hlt d hd
      rw [isBaseDigit,digitValue_digitChar (Nat.lt_of_lt_of_le hdb h₂)]
      exact decide_eq_true hdb
    · rw [numeralValue_reverse h₂ hlt,Nat.ofDigits_digits]

theorem printNumeral_length {base n w : ℕ} (h₁ : 1 < base) (hw : 0 < w) (hn : n < base^w) :
    (printNumeral base n).length ≤ w := by
  unfold printNumeral
  split
  · exact hw
  · rename_i hn0
    rw [List.length_reverse,List.length_map]
    exact (Nat.digits_length_le_iff h₁ n).mpr hn

example : printNumeral 16 46 = cstr "2e" := by decide

def atoi (r : List UInt8) : ℤ := toInt (strtol 10 r).value

/-- The conversions of a `sscanf` format. -/
inductive ScanItem
  | int | space | lit (c : UInt8)
  deriving DecidableEq, Repr

/-- One `%d`: white space, an optional sign and at least one digit. -/
def scanInt (r : List UInt8) : Option (ℤ × List UInt8) :=
  let s := readSign (r.dropWhile isSpace)
  let ds := s.2.takeWhile isDigit
  if ds.isEmpty then none
  else
    let m : ℤ := numeralValue 10 ds
    some (toInt (clampLong (if s.1 then -m else m)).1,s.2.dropWhile isDigit)

/-- The values stored by `sscanf` before its first mismatch. -/
def sscanf : List ScanItem → List UInt8 → List ℤ
  | [], _ => []
  | .space::fs, r => sscanf fs (r.dropWhile isSpace)
  | .lit c::fs, r =>
    match r with
    | d::r' => if c = d then sscanf fs r' else []
    | [] => []
  | .int::fs, r =>
    match scanInt r with
    | some (v,r') => v :: sscanf fs r'
    | none => []

end CText
end CtrlPt
