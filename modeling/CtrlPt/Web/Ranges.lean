import CtrlPt.Http.MakeMessage
import CtrlPt.Lib.Occurs

/-! Byte ranges of the web server: `GetNextRange` and `CreateHTTPRangeResponseHeader`. -/
namespace CtrlPt
namespace Web

open CText Http

def httpOk : ℤ := 200
def httpBadRequest : ℤ := 400
def httpRequestRangeNotSatisfiable : ℤ := 416
def httpInternalServerError : ℤ := 500

def toUpper (c : UInt8) : UInt8 := if isLower c then c-32 else c

/-- `StrStr`, which ignores the case. -/
def strStr (s1 s2 : List UInt8) : Option ℕ := strstr (s1.map toUpper) (s2.map toUpper)

/-- The token, and what is left of the string behind the delimiter. -/
def strTok (src del : List UInt8) : List UInt8 × Option (List UInt8) :=
  match strstr src del with
  | some i => (src.take i,some (src.drop (i+del.length)))
  | none => (src,none)

/-- One `%lld`; a number that is too large is read as the largest. -/
def scanInt64 (r : List UInt8) : Option (ℤ × List UInt8) :=
  let s := readSign (r.dropWhile isSpace)
  let ds := s.2.takeWhile isDigit
  if ds.isEmpty then none
  else
    let m : ℤ := numeralValue 10 ds
    some ((clampLong (if s.1 then -m else m)).1,s.2.dropWhile isDigit)

/-- `sscanf(s,"%lld%lld",&F,&L)` with -1 in both before. -/
def scanPair (s : List UInt8) : ℤ × ℤ :=
  match scanInt64 s with
  | none => (-1,-1)
  | some (f,r) => (f,((scanInt64 r).map Prod.fst).getD (-1))

/-- No digit stands in front of the minus. -/
def isSuffixByteRange (tok : List UInt8) : Bool :=
  match tok.find? fun c => c == 45 || isDigit c with
  | some c => c == 45
  | none => true

/-- The first and the last byte, and the string behind the range; `none` is -1. -/
def getNextRange (srcRangeStr : Option (List UInt8)) :
    Option ((ℤ × ℤ) × Option (List UInt8)) :=
  match srcRangeStr with
  | none => none
  | some s =>
    let t := strTok s (cstr ",")
    match strstr t.1 (cstr "-") with
    | none => none
    | some i =>
      let p := scanPair (t.1.set i 32)
      if (p.1 = -1 ∨ p.2 = -1) ∧ isSuffixByteRange t.1 = true then some ((p.2,p.1),t.2)
      else some (p,t.2)

/-- `struct SendInstruction`; a text stands for the array it is in. -/
structure SendInstruction where
  isVirtualFile : Bool
  isChunkActive : Bool
  isRangeActive : Bool
  isTrailers : Bool
  rangeHeader : List UInt8
  acceptLanguageHeader : List UInt8
  rangeOffset : ℤ
  readSendSize : ℤ
  recvWriteSize : ℤ
  deriving DecidableEq, Repr

def rangeHeaderSize : ℕ := 200

def contentRange (first last total : ℤ) : List UInt8 :=
  cstr "CONTENT-RANGE: bytes "++(printInt first++45::(printInt last++47::(printInt total++[13,10])))

/-- The `snprintf` at the end of each branch. -/
def writeRange (instr : SendInstruction) (first last total : ℤ) : ℤ × SendInstruction :=
  let text := contentRange first last total
  (if rangeHeaderSize ≤ text.length then httpInternalServerError else httpOk,
    { instr with rangeHeader := text.take (rangeHeaderSize-1) })

/-- The branches for the three forms of a range. -/
def rangeResponse (firstByte lastByte fileLength : ℤ) (instr : SendInstruction) :
    ℤ × SendInstruction :=
  if fileLength < firstByte then (httpRequestRangeNotSatisfiable,instr)
  else if 0 ≤ firstByte ∧ 0 ≤ lastByte ∧ firstByte ≤ lastByte then
    let lastByte := if fileLength ≤ lastByte then fileLength-1 else lastByte
    writeRange { instr with rangeOffset := firstByte, readSendSize := lastByte-firstByte+1 }
      firstByte lastByte fileLength
  else if 0 ≤ firstByte ∧ lastByte = -1 ∧ firstByte < fileLength then
    writeRange { instr with rangeOffset := firstByte, readSendSize := fileLength-firstByte }
      firstByte (fileLength-1) fileLength
  else if firstByte = -1 ∧ 0 < lastByte then
    if fileLength ≤ lastByte then
      writeRange { instr with rangeOffset := 0, readSendSize := fileLength }
        0 (fileLength-1) fileLength
    else
      writeRange { instr with rangeOffset := fileLength-lastByte, readSendSize := lastByte }
        (fileLength-lastByte) (fileLength-1) fileLength
  else (httpRequestRangeNotSatisfiable,instr)

/-- What follows the first `=` of a header that names `bytes` anywhere. -/
def rangeInput (byteRangeSpecifier : List UInt8) : Option (List UInt8) :=
  if (strStr byteRangeSpecifier (cstr "bytes")).isNone then none
  else (strStr byteRangeSpecifier (cstr "=")).map fun i => byteRangeSpecifier.drop (i+1)

/-- The return value and `*Instr`; the allocations succeed. -/
def createHTTPRangeResponseHeader (byteRangeSpecifier : List UInt8) (fileLength : ℤ)
    (instr : SendInstruction) : ℤ × SendInstruction :=
  let instr := { instr with isRangeActive := true, readSendSize := fileLength }
  match rangeInput byteRangeSpecifier with
  | none => (httpBadRequest,{ instr with isRangeActive := false })
  | some ptr =>
    if fileLength < 0 then (httpRequestRangeNotSatisfiable,instr)
    else
      match getNextRange (some ptr) with
      | none => (httpRequestRangeNotSatisfiable,instr)
      | some (p,_) => rangeResponse p.1 p.2 fileLength instr

/-- `first-last`, `first-` and `-n`. -/
inductive ByteRange
  | span (first last : ℕ)
  | startingAt (first : ℕ)
  | suffix (n : ℕ)
  deriving DecidableEq, Repr

/-- The byte `i` of a file is asked for. -/
def ByteRange.covers (fileLength i : ℤ) : ByteRange → Prop
  | .span first last => first ≤ i ∧ i ≤ last
  | .startingAt first => first ≤ i
  | .suffix n => fileLength-n ≤ i

def Blank (s : List UInt8) : Prop := ∀ c ∈ s, isSpace c = true

inductive RangeText : List UInt8 → ByteRange → Prop
  | span {a ds b c es d : List UInt8} {first last : ℕ} (ha : Blank a) (hb : Blank b)
    (hc : Blank c) (hd : Blank d) (hds : Numeral 10 ds first) (hes : Numeral 10 es last) :
    RangeText (a++(ds++(b++45::(c++(es++d))))) (.span first last)
  | startingAt {a ds b c : List UInt8} {first : ℕ} (ha : Blank a) (hb : Blank b) (hc : Blank c)
    (hds : Numeral 10 ds first) : RangeText (a++(ds++(b++45::c))) (.startingAt first)
  | suffix {a c es d : List UInt8} {n : ℕ} (ha : Blank a) (hc : Blank c) (hd : Blank d)
    (hes : Numeral 10 es n) : RangeText (a++45::(c++(es++d))) (.suffix n)

/-- The first range of the header is `q`. -/
def Requests (spec : List UInt8) (q : ByteRange) : Prop :=
  ∃ a unit b text rest, spec = a++(unit++(b++61::(text++rest))) ∧ Blank a ∧ Blank b ∧
    unit.map toUpper = cstr "BYTES" ∧ RangeText text q ∧ ∀ c ∈ rest.head?, c = 44

/-- What the answer to a header has to be for a file of this length. -/
structure RangeAnswered (spec : List UInt8) (fileLength : ℤ) (r : ℤ × SendInstruction) : Prop where
  inside : r.1 = httpOk → 0 ≤ r.2.rangeOffset ∧ r.2.rangeOffset < fileLength ∧
    0 < r.2.readSendSize ∧ r.2.rangeOffset+r.2.readSendSize ≤ fileLength
  header : r.1 = httpOk → r.2.rangeHeader =
    contentRange r.2.rangeOffset (r.2.rangeOffset+r.2.readSendSize-1) fileLength
  requested : r.1 = httpOk → ∀ q, Requests spec q → ∀ i,
    r.2.rangeOffset ≤ i ∧ i < r.2.rangeOffset+r.2.readSendSize ↔
      0 ≤ i ∧ i < fileLength ∧ q.covers fileLength i
  unsatisfiable : ∀ q, Requests spec q → (∀ i, 0 ≤ i → i < fileLength → ¬q.covers fileLength i) →
    r.1 = httpRequestRangeNotSatisfiable

theorem printInt_length {n : ℤ} (h₀ : -10^19 < n) (h₁ : n < 10^19) : (printInt n).length ≤ 20 := by
  have hlen : (printNumeral 10 n.natAbs).length ≤ 19 :=
    printNumeral_length (by decide) (by decide) (by omega)
  unfold printInt
  split
  · rw [List.length_cons]
    omega
  · omega

def Printable (n : ℤ) : Prop := -1 ≤ n ∧ n ≤ longMax

theorem writeRange_ok {first last total : ℤ} (hf : Printable first) (hl : Printable last)
    (ht : Printable total) (instr : SendInstruction) : writeRange instr first last total =
      (httpOk,{ instr with rangeHeader := contentRange first last total }) := by
  have hnum : ∀ {n : ℤ}, Printable n → (printInt n).length ≤ 20 := by
    rintro n ⟨h₀,h₁⟩
    unfold longMax at h₁
    exact printInt_length (by omega) (by omega)
  have hname : (cstr "CONTENT-RANGE: bytes ").length = 21 := by decide
  have hlen : (contentRange first last total).length < 199 := by
    have h₁ := hnum hf
    have h₂ := hnum hl
    have h₃ := hnum ht
    simp only [contentRange,List.length_append,List.length_cons,List.length_nil,hname]
    omega
  have hfits : ¬rangeHeaderSize ≤ (contentRange first last total).length := by
    unfold rangeHeaderSize
    omega
  have htake : (contentRange first last total).take (rangeHeaderSize-1) =
      contentRange first last total := List.take_of_length_le (by unfold rangeHeaderSize; omega)
  simp only [writeRange,if_neg hfits,htake]

/-- Offset and size, where a branch grants the range. -/
def granted (first last fileLength : ℤ) : Option (ℤ × ℤ) :=
  if 0 ≤ first ∧ first ≤ fileLength ∧ first ≤ last then
    some (first,min last (fileLength-1)-first+1)
  else if 0 ≤ first ∧ first < fileLength ∧ last = -1 then some (first,fileLength-first)
  else if first = -1 ∧ 0 < last then some (max 0 (fileLength-last),min last fileLength)
  else none

/-- The answer that sends `size` bytes from `offset` on. -/
def partialContent (instr : SendInstruction) (offset size fileLength : ℤ) : SendInstruction :=
  { instr with
    rangeOffset := offset
    readSendSize := size
    rangeHeader := contentRange offset (offset+size-1) fileLength }

theorem rangeResponse_eq {first last fileLength : ℤ} (h₀ : 0 ≤ fileLength)
    (h₁ : fileLength ≤ longMax) (instr : SendInstruction) :
    rangeResponse first last fileLength instr =
      match granted first last fileLength with
      | some (offset,size) => (httpOk,partialContent instr offset size fileLength)
      | none => (httpRequestRangeNotSatisfiable,instr) := by
  have hsend : ∀ {a b c : ℤ}, 0 ≤ a → a ≤ fileLength → -1 ≤ b → b < fileLength → b = a+c-1 →
      writeRange { instr with rangeOffset := a, readSendSize := c } a b fileLength =
        (httpOk,partialContent instr a c fileLength) := by
    intro a b c ha ha' hb hb' he
    rw [writeRange_ok ⟨by omega,by omega⟩ ⟨hb,by omega⟩ ⟨by omega,h₁⟩,partialContent,he]
  unfold rangeResponse
  by_cases hbig : fileLength < first
  · have hg : granted first last fileLength = none := by
      have h₁ : ¬(0 ≤ first ∧ first ≤ fileLength ∧ first ≤ last) := by omega
      have h₂ : ¬(0 ≤ first ∧ first < fileLength ∧ last = -1) := by omega
      have h₃ : ¬(first = -1 ∧ 0 < last) := by omega
      simp only [granted,if_neg h₁,if_neg h₂,if_neg h₃]
    rw [if_pos hbig,hg]
  rw [if_neg hbig]
  by_cases hspan : 0 ≤ first ∧ 0 ≤ last ∧ first ≤ last
  · have hg : granted first last fileLength = some (first,min last (fileLength-1)-first+1) :=
      if_pos ⟨hspan.1,by omega,hspan.2.2⟩
    have hmin : (if fileLength ≤ last then fileLength-1 else last) = min last (fileLength-1) := by
      split <;> omega
    rw [if_pos hspan,hg]
    simp only [hmin]
    exact hsend hspan.1 (by omega) (by omega) (by omega) (by omega)
  rw [if_neg hspan]
  have h₁ : ¬(0 ≤ first ∧ first ≤ fileLength ∧ first ≤ last) := by omega
  by_cases hopen : 0 ≤ first ∧ last = -1 ∧ first < fileLength
  · have h₂ : 0 ≤ first ∧ first < fileLength ∧ last = -1 := by omega
    rw [if_pos hopen]
    simp only [granted,if_neg h₁,if_pos h₂]
    exact hsend hopen.1 (by omega) (by omega) (by omega) (by omega)
  rw [if_neg hopen]
  have h₂ : ¬(0 ≤ first ∧ first < fileLength ∧ last = -1) := by omega
  by_cases hsuffix : first = -1 ∧ 0 < last
  · rw [if_pos hsuffix]
    simp only [granted,if_neg h₁,if_neg h₂,if_pos hsuffix]
    by_cases hle : fileLength ≤ last
    · have hmax : max 0 (fileLength-last) = 0 := by omega
      have hmin : min last fileLength = fileLength := by omega
      rw [if_pos hle,hmax,hmin]
      exact hsend (by omega) (by omega) (by omega) (by omega) (by omega)
    · have hmax : max 0 (fileLength-last) = fileLength-last := by omega
      have hmin : min last fileLength = last := by omega
      rw [if_neg hle,hmax,hmin]
      exact hsend (by omega) (by omega) (by omega) (by omega) (by omega)
  · rw [if_neg hsuffix]
    simp only [granted,if_neg h₁,if_neg h₂,if_neg hsuffix]

theorem isDigit_of_isBaseDigit (c : UInt8) (h : isBaseDigit 10 c = true) : isDigit c = true := by
  revert h
  exact byte_forall (P := fun c => isBaseDigit 10 c = true → isDigit c = true) (by decide +kernel) c

theorem isSpace_plain (c : UInt8) (h : isSpace c = true) : isDigit c = false ∧ c ≠ 45 ∧ c ≠ 44 := by
  revert h
  exact byte_forall (P := fun c => isSpace c = true → isDigit c = false ∧ c ≠ 45 ∧ c ≠ 44)
    (by decide +kernel) c

theorem isDigit_plain (c : UInt8) (h : isDigit c = true) : isSpace c = false ∧ c ≠ 45 ∧ c ≠ 43 ∧ c ≠ 44 := by
  revert h
  exact byte_forall (P := fun c => isDigit c = true → isSpace c = false ∧ c ≠ 45 ∧ c ≠ 43 ∧ c ≠ 44)
    (by decide +kernel) c

theorem Blank.append {a b : List UInt8} (ha : Blank a) (hb : Blank b) : Blank (a++b) := by
  intro c hc
  rcases List.mem_append.mp hc with hc | hc
  · exact ha c hc
  · exact hb c hc

theorem Blank.cons {a : List UInt8} (ha : Blank a) : Blank (32::a) := by
  intro c hc
  rcases List.mem_cons.mp hc with rfl | hc
  · rfl
  · exact ha c hc

theorem numeral_digits {ds : List UInt8} {n : ℕ} (h : Numeral 10 ds n) : ∀ c ∈ ds, isDigit c = true :=
  fun c hc => isDigit_of_isBaseDigit c (h.digits c hc)

/-- A number as `%lld` reads it. -/
def clamped (n : ℕ) : ℤ := min n longMax

theorem scanInt64_numeral {a ds w : List UInt8} {n : ℕ} (ha : Blank a) (h : Numeral 10 ds n)
    (hw : ∀ c ∈ w.head?, isDigit c = false) : scanInt64 (a++(ds++w)) = some (clamped n,w) := by
  have hdigits := numeral_digits h
  obtain ⟨d,ds,rfl⟩ := List.exists_cons_of_ne_nil h.ne_nil
  rcases isDigit_plain d (hdigits d (.head _)) with ⟨hspace,hminus,hplus,-⟩
  have hdrop : (a++(d::ds++w)).dropWhile isSpace = d::(ds++w) := by
    rw [List.dropWhile_append_of_pos ha,List.cons_append,List.dropWhile_cons_of_neg (by simp [hspace])]
  have htake : (d::(ds++w)).takeWhile isDigit = d::ds := by
    rw [← List.cons_append,List.takeWhile_append_of_pos hdigits]
    cases w with
    | nil => simp
    | cons c w => simp [hw c rfl]
  have hrest : (d::(ds++w)).dropWhile isDigit = w := by
    rw [← List.cons_append,List.dropWhile_append_of_pos hdigits]
    cases w with
    | nil => rfl
    | cons c w => simp [hw c rfl]
  have hclamp : (clampLong (n : ℤ)).1 = clamped n := by
    unfold clampLong clamped longMax longMin
    split
    · dsimp only
      omega
    · rw [if_neg (by omega)]
      dsimp only
      omega
  simp only [scanInt64,hdrop,readSign_of_plain hminus hplus,htake,hrest,h.value]
  simp [hclamp]

theorem scanInt64_blank {a : List UInt8} (ha : Blank a) : scanInt64 a = none := by
  have hdrop : a.dropWhile isSpace = [] := by
    rw [List.dropWhile_eq_nil_iff]
    exact ha
  simp only [scanInt64,hdrop,readSign]
  rfl

theorem Blank.head {a w : List UInt8} (ha : Blank a) (hw : ∀ c ∈ w.head?, isDigit c = false) :
    ∀ c ∈ (a++w).head?, isDigit c = false := by
  cases a with
  | nil => exact hw
  | cons x a =>
    intro c hc
    cases hc
    exact (isSpace_plain x (ha x (.head _))).1

theorem Blank.no {a : List UInt8} (ha : Blank a) : 45 ∉ a ∧ 44 ∉ a :=
  ⟨fun h => (isSpace_plain 45 (ha 45 h)).2.1 rfl,fun h => (isSpace_plain 44 (ha 44 h)).2.2 rfl⟩

theorem numeral_no {ds : List UInt8} {n : ℕ} (h : Numeral 10 ds n) : 45 ∉ ds ∧ 44 ∉ ds :=
  ⟨fun hd => (isDigit_plain 45 (numeral_digits h 45 hd)).2.1 rfl,
    fun hd => (isDigit_plain 44 (numeral_digits h 44 hd)).2.2.2 rfl⟩

/-- What stands before the first minus tells a suffix from the other ranges. -/
theorem isSuffixByteRange_blank {a w : List UInt8} (ha : Blank a) :
    isSuffixByteRange (a++w) = isSuffixByteRange w := by
  have hnone : a.find? (fun c => c == 45 || isDigit c) = none := by
    rw [List.find?_eq_none]
    intro c hc
    rcases isSpace_plain c (ha c hc) with ⟨hd,hm,-⟩
    simp [hd,hm]
  rw [isSuffixByteRange,List.find?_append,hnone]
  rfl

/-- The bytes `GetNextRange` reads of a range. -/
def ByteRange.read : ByteRange → ℤ × ℤ
  | .span first last => (clamped first,clamped last)
  | .startingAt first => (clamped first,-1)
  | .suffix n => (-1,clamped n)

theorem clamped_nonneg (n : ℕ) : 0 ≤ clamped n := by
  unfold clamped longMax
  omega

theorem strTok_first {text rest : List UInt8} (h : 44 ∉ text) (hr : ∀ c ∈ rest.head?, c = 44) :
    (strTok (text++rest) (cstr ",")).1 = text := by
  have hcomma : cstr "," = [44] := rfl
  rw [strTok,hcomma]
  cases rest with
  | nil => rw [List.append_nil,strstr_char_none h]
  | cons c more =>
    rw [hr c rfl,strstr_char h]
    simp

/-- The minus is overwritten before the numbers are read. -/
theorem getNextRange_token {x y rest : List UInt8} (hx : 45 ∉ x) (hcomma : 44 ∉ x++45::y)
    (hr : ∀ c ∈ rest.head?, c = 44) {p : ℤ × ℤ} (hp : scanPair (x++32::y) = p) :
    (getNextRange (some ((x++45::y)++rest))).map Prod.fst =
      some (if (p.1 = -1 ∨ p.2 = -1) ∧ isSuffixByteRange (x++45::y) = true then (p.2,p.1) else p) := by
  have htok := strTok_first hcomma hr
  have hminus : strstr (x++45::y) (cstr "-") = some x.length := strstr_char hx y
  have hset : (x++45::y).set x.length 32 = x++32::y := by
    rw [List.set_append_right _ _ (Nat.le_refl _),Nat.sub_self,List.set_cons_zero]
  simp only [getNextRange,htok,hminus,hset,hp]
  split <;> rfl

theorem getNextRange_text {text rest : List UInt8} {q : ByteRange} (h : RangeText text q)
    (hr : ∀ c ∈ rest.head?, c = 44) :
    (getNextRange (some (text++rest))).map Prod.fst = some q.read := by
  cases h with
  | @span a ds b c es d first last ha hb hc hd hds hes =>
    have hx : 45 ∉ a++(ds++b) := by simp [ha.no,hb.no,numeral_no hds]
    have hcomma : 44 ∉ (a++(ds++b))++45::(c++(es++d)) := by
      simp [ha.no,hb.no,hc.no,hd.no,numeral_no hds,numeral_no hes]
    have hd' : ∀ x ∈ d.head?, isDigit x = false := by
      have h := hd.head (w := []) fun _ h => (by cases h)
      rwa [List.append_nil] at h
    have hscan : scanPair ((a++(ds++b))++32::(c++(es++d))) = (clamped first,clamped last) := by
      have h₁ : scanInt64 ((a++(ds++b))++32::(c++(es++d))) =
          some (clamped first,b++32::(c++(es++d))) := by
        have hs := scanInt64_numeral ha hds (w := b++32::(c++(es++d)))
          (hb.head fun x hx => by cases hx; rfl)
        simpa only [List.append_assoc] using hs
      have h₂ : scanInt64 (b++32::(c++(es++d))) = some (clamped last,d) := by
        have hs := scanInt64_numeral (hb.append hc.cons) hes hd'
        simpa only [List.append_assoc,List.cons_append] using hs
      simp only [scanPair,h₁,h₂,Option.map_some,Option.getD_some]
    have hboth : ¬((clamped first = -1 ∨ clamped last = -1) ∧
        isSuffixByteRange ((a++(ds++b))++45::(c++(es++d))) = true) := by
      have h₁ := clamped_nonneg first
      have h₂ := clamped_nonneg last
      omega
    have hg := getNextRange_token hx hcomma hr hscan
    rw [if_neg hboth] at hg
    simpa only [List.append_assoc,List.cons_append,ByteRange.read] using hg
  | @startingAt a ds b c first ha hb hc hds =>
    have hx : 45 ∉ a++(ds++b) := by simp [ha.no,hb.no,numeral_no hds]
    have hcomma : 44 ∉ (a++(ds++b))++45::c := by simp [ha.no,hb.no,hc.no,numeral_no hds]
    have hscan : scanPair ((a++(ds++b))++32::c) = (clamped first,-1) := by
      have h₁ : scanInt64 ((a++(ds++b))++32::c) = some (clamped first,b++32::c) := by
        have hs := scanInt64_numeral ha hds (w := b++32::c) (hb.head fun x hx => by cases hx; rfl)
        simpa only [List.append_assoc] using hs
      simp only [scanPair,h₁,scanInt64_blank (hb.append hc.cons),Option.map_none,Option.getD_none]
    have hsuffix : isSuffixByteRange ((a++(ds++b))++45::c) = false := by
      obtain ⟨e,es,rfl⟩ := List.exists_cons_of_ne_nil hds.ne_nil
      have he := numeral_digits hds e (.head _)
      rw [List.append_assoc,isSuffixByteRange_blank ha]
      simp [isSuffixByteRange,he,(isDigit_plain e he).2.1]
    have hg := getNextRange_token hx hcomma hr hscan
    rw [if_neg fun h => (by rw [hsuffix] at h; cases h.2)] at hg
    simpa only [List.append_assoc,List.cons_append,ByteRange.read] using hg
  | @suffix a c es d n ha hc hd hes =>
    have hcomma : 44 ∉ a++45::(c++(es++d)) := by simp [ha.no,hc.no,hd.no,numeral_no hes]
    have hd' : ∀ x ∈ d.head?, isDigit x = false := by
      have h := hd.head (w := []) fun _ h => (by cases h)
      rwa [List.append_nil] at h
    have hscan : scanPair (a++32::(c++(es++d))) = (clamped n,-1) := by
      have h₁ : scanInt64 (a++32::(c++(es++d))) = some (clamped n,d) := by
        have hs := scanInt64_numeral (ha.append hc.cons) hes hd'
        simpa only [List.append_assoc,List.cons_append] using hs
      simp [scanPair,h₁,scanInt64_blank hd]
    have hsuffix : isSuffixByteRange (a++45::(c++(es++d))) = true := by
      rw [isSuffixByteRange_blank ha]
      rfl
    have hg := getNextRange_token ha.no.1 hcomma hr hscan
    rw [if_pos ⟨.inr rfl,hsuffix⟩] at hg
    exact hg

theorem toUpper_eq (c : UInt8) : toUpper c = 61 → c = 61 :=
  byte_forall (P := fun c => toUpper c = 61 → c = 61) (by decide +kernel) c

theorem Requests.read {spec : List UInt8} {q : ByteRange} (h : Requests spec q) :
    ∃ ptr, rangeInput spec = some ptr ∧ (getNextRange (some ptr)).map Prod.fst = some q.read := by
  rcases h with ⟨a,unit,b,text,rest,rfl,ha,hb,hunit,htext,hrest⟩
  refine ⟨text++rest,?_,getNextRange_text htext hrest⟩
  have hupper : (a++(unit++(b++61::(text++rest)))).map toUpper =
      a.map toUpper++(cstr "BYTES"++(b.map toUpper++61::(text++rest).map toUpper)) := by
    simp only [List.map_append,List.map_cons,hunit]
    rfl
  have hbytes : (strStr (a++(unit++(b++61::(text++rest)))) (cstr "bytes")).isNone = false := by
    have hin : cstr "BYTES" <:+: a.map toUpper++cstr "BYTES" := ⟨a.map toUpper,[],by simp⟩
    rcases strstr_within (b.map toUpper++61::(text++rest).map toUpper) hin with ⟨i,hi,-⟩
    rw [List.append_assoc] at hi
    rw [strStr,hupper,show (cstr "bytes").map toUpper = cstr "BYTES" by decide,hi]
    rfl
  have hequals : strStr (a++(unit++(b++61::(text++rest)))) (cstr "=") =
      some (a++(unit++b)).length := by
    have hno : (61 : UInt8) ∉ (a++(unit++b)).map toUpper := by
      have hblank : ∀ {l : List UInt8}, Blank l → (61 : UInt8) ∉ l.map toUpper := by
        intro l hl h
        rcases List.mem_map.mp h with ⟨c,hc,he⟩
        obtain rfl := toUpper_eq c he
        exact absurd (hl 61 hc) (by decide)
      have hname : (61 : UInt8) ∉ cstr "BYTES" := by decide
      rw [List.map_append,List.map_append,hunit]
      simp [hblank ha,hblank hb,hname]
    have hs := strstr_char hno ((text++rest).map toUpper)
    rw [strStr,show (cstr "=").map toUpper = [61] by decide]
    rw [List.length_map] at hs
    rw [← hs]
    congr 1
    simp only [List.map_append,List.map_cons,List.append_assoc]
    rfl
  rw [rangeInput,hbytes,if_neg (by decide),hequals]
  have hdrop : (a++(unit++(b++61::(text++rest)))).drop ((a++(unit++b)).length+1) = text++rest := by
    have hsplit : a++(unit++(b++61::(text++rest))) = (a++(unit++b))++61::(text++rest) := by
      simp only [List.append_assoc]
    rw [hsplit,← List.drop_drop,List.drop_left]
    rfl
  exact congrArg some hdrop

/-- The bytes `GetNextRange` reads of the header. -/
def firstRange (spec : List UInt8) : Option (ℤ × ℤ) :=
  (rangeInput spec).bind fun ptr => (getNextRange (some ptr)).map Prod.fst

/-- The answer is decided by the bytes that are read. -/
theorem createHTTPRangeResponseHeader_eq (spec : List UInt8) {fileLength : ℤ}
    (h₀ : 0 ≤ fileLength) (h₁ : fileLength ≤ longMax) (instr : SendInstruction) :
    ∃ i, createHTTPRangeResponseHeader spec fileLength instr =
      match (firstRange spec).bind fun p => granted p.1 p.2 fileLength with
      | some (offset,size) => (httpOk,partialContent i offset size fileLength)
      | none => (if (rangeInput spec).isNone then httpBadRequest
        else httpRequestRangeNotSatisfiable,i) := by
  unfold createHTTPRangeResponseHeader firstRange
  cases rangeInput spec with
  | none => exact ⟨_,rfl⟩
  | some ptr =>
    simp only [Int.not_lt.mpr h₀,if_false,Option.bind_some]
    cases getNextRange (some ptr) with
    | none => exact ⟨_,rfl⟩
    | some x =>
      refine ⟨{ instr with isRangeActive := true, readSendSize := fileLength },
        (rangeResponse_eq h₀ h₁ _).trans ?_⟩
      simp only [Option.map_some,Option.bind_some]
      cases granted x.1.1 x.1.2 fileLength <;> rfl

theorem granted_some {first last fileLength offset size : ℤ}
    (h : granted first last fileLength = some (offset,size)) :
    (0 ≤ first ∧ first ≤ fileLength ∧ first ≤ last ∧ offset = first ∧
        size = min last (fileLength-1)-first+1) ∨
      (0 ≤ first ∧ first < fileLength ∧ last = -1 ∧ offset = first ∧ size = fileLength-first) ∨
      (first = -1 ∧ 0 < last ∧ offset = max 0 (fileLength-last) ∧ size = min last fileLength) := by
  unfold granted at h
  split at h
  · rename_i hspan
    cases h
    exact .inl ⟨hspan.1,hspan.2.1,hspan.2.2,rfl,rfl⟩
  split at h
  · rename_i hopen
    cases h
    exact .inr (.inl ⟨hopen.1,hopen.2.1,hopen.2.2,rfl,rfl⟩)
  split at h
  · rename_i hsuffix
    cases h
    exact .inr (.inr ⟨hsuffix.1,hsuffix.2,rfl,rfl⟩)
  · cases h

/-- An interval that is granted is the part of the range that lies in the file. -/
theorem granted_covers {q : ByteRange} {fileLength offset size : ℤ} (h₁ : fileLength ≤ longMax)
    (hg : granted q.read.1 q.read.2 fileLength = some (offset,size)) (hin : offset < fileLength)
    (i : ℤ) : offset ≤ i ∧ i < offset+size ↔ 0 ≤ i ∧ i < fileLength ∧ q.covers fileLength i := by
  have hcases := granted_some hg
  cases q with
  | span first last =>
    simp only [ByteRange.read,clamped] at hcases
    simp only [ByteRange.covers]
    omega
  | startingAt first =>
    simp only [ByteRange.read,clamped] at hcases
    simp only [ByteRange.covers]
    omega
  | suffix n =>
    simp only [ByteRange.read,clamped] at hcases
    simp only [ByteRange.covers]
    omega

/-- Ranges are answered right except one that begins where the file ends, and a suffix of an empty
file. -/
theorem rangeAnswered_iff (spec : CString) {fileLength : ℤ} (h₀ : 0 ≤ fileLength)
    (h₁ : fileLength ≤ longMax) (instr : SendInstruction) :
    RangeAnswered spec.1 fileLength (createHTTPRangeResponseHeader spec.1 fileLength instr) ↔
      ∀ first last, firstRange spec.1 = some (first,last) →
        ¬(first = fileLength ∧ first ≤ last) ∧ ¬(first = -1 ∧ 0 < last ∧ fileLength = 0) := by
  rcases createHTTPRangeResponseHeader_eq spec.1 h₀ h₁ instr with ⟨i,he⟩
  rw [he]
  constructor
  · intro h first last hfirst
    rw [hfirst] at h
    have hinside : ∀ {offset size}, granted first last fileLength = some (offset,size) →
        offset < fileLength ∧ 0 < size := by
      intro offset size hg
      simp only [Option.bind_some,hg] at h
      have hin := h.inside rfl
      exact ⟨hin.2.1,hin.2.2.1⟩
    constructor
    · rintro ⟨rfl,hle⟩
      have hg := hinside (if_pos ⟨h₀,Int.le_refl _,hle⟩)
      omega
    · rintro ⟨rfl,hlast,rfl⟩
      have hg := hinside (show granted (-1) last 0 = some (max 0 (0-last),min last 0) by
        rw [granted,if_neg (by omega),if_neg (by omega),if_pos ⟨rfl,hlast⟩])
      omega
  · intro h
    cases hfirst : firstRange spec.1 with
    | none =>
      have hno : ∀ q, ¬Requests spec.1 q := by
        intro q hq
        rcases hq.read with ⟨ptr,hptr,hread⟩
        rw [firstRange,hptr,Option.bind_some,hread] at hfirst
        cases hfirst
      have hbad : (if (rangeInput spec.1).isNone then httpBadRequest
          else httpRequestRangeNotSatisfiable) ≠ httpOk := by
        split <;> decide
      exact ⟨fun hc => absurd hc hbad,fun hc => absurd hc hbad,fun hc => absurd hc hbad,
        fun q hq => absurd hq (hno q)⟩
    | some p =>
      have hread : ∀ q, Requests spec.1 q → p = q.read := by
        intro q hq
        rcases hq.read with ⟨ptr,hptr,hread⟩
        rw [firstRange,hptr,Option.bind_some,hread] at hfirst
        exact (Option.some.inj hfirst).symm
      have hinput : (rangeInput spec.1).isNone = false := by
        cases hp : rangeInput spec.1 with
        | none =>
          rw [firstRange,hp] at hfirst
          cases hfirst
        | some ptr => rfl
      rcases h p.1 p.2 hfirst with ⟨hspan,hsuffix⟩
      rw [Option.bind_some]
      cases hg : granted p.1 p.2 fileLength with
      | none =>
        simp only [hinput,Bool.false_eq_true,if_false]
        exact ⟨fun hc => (by cases hc),fun hc => (by cases hc),fun hc => (by cases hc),
          fun _ _ _ => rfl⟩
      | some x =>
        rcases x with ⟨offset,size⟩
        have hin : 0 ≤ offset ∧ offset < fileLength ∧ 0 < size ∧ offset+size ≤ fileLength := by
          have hcases := granted_some hg
          omega
        have hcovers : ∀ q, Requests spec.1 q → ∀ i, offset ≤ i ∧ i < offset+size ↔
            0 ≤ i ∧ i < fileLength ∧ q.covers fileLength i := by
          intro q hq
          rw [hread q hq] at hg
          exact granted_covers h₁ hg hin.2.1
        refine ⟨fun _ => hin,fun _ => rfl,fun _ => hcovers,fun q hq hnone => ?_⟩
        -- the first byte that is sent is in the range
        have hfirst := (hcovers q hq offset).mp ⟨Int.le_refl _,by omega⟩
        exact absurd hfirst.2.2 (hnone offset hfirst.1 hfirst.2.1)

def noInstruction : SendInstruction := ⟨false,false,false,false,[],[],0,0,0⟩

theorem rangeAnswered_tail : RangeAnswered (cstr "bytes=5-") 10
    (createHTTPRangeResponseHeader (cstr "bytes=5-") 10 noInstruction) := by
  refine (rangeAnswered_iff ⟨cstr "bytes=5-",by decide⟩ (by decide) (by decide) noInstruction).mpr ?_
  intro first last h
  have hread : firstRange (cstr "bytes=5-") = some (5,-1) := by decide
  rw [hread] at h
  cases h
  decide

/-- A range that begins where the file ends is granted with no byte to send. -/
theorem range_at_end_granted : ¬∀ (spec : CString) (fileLength : ℤ) (instr : SendInstruction),
    0 ≤ fileLength → fileLength ≤ longMax →
      RangeAnswered spec.1 fileLength (createHTTPRangeResponseHeader spec.1 fileLength instr) := by
  intro h
  have hin := (h ⟨cstr "bytes=10-12",by decide⟩ 10 noInstruction (by decide) (by decide)).inside
    (by decide)
  exact absurd hin.2.1 (by decide)

end Web
end CtrlPt
