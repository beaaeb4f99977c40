import CtrlPt.Lib.Rounds
import CtrlPt.Http.StartLine

/-! The scanner of `httpparser.c` byte by byte. Every read of the buffer, every move of
the cursor and every `assert` is an operation that can fail, and every loop is given a
number of rounds; each routine here is shown to go through with the answer of the
routine of the same name that reads the rest of the buffer as a list. -/
namespace CtrlPt
namespace Http
namespace Checked

open CText Rounds

/-- Where the C code would abort, leave its buffer or not come to an end. -/
inductive Fault
  /-- An `assert` does not hold. -/
  | assertion
  /-- A byte beyond the terminating NUL. -/
  | index
  /-- The cursor beyond `msg->length`. -/
  | cursor
  /-- A loop that is not left after the rounds it was given. -/
  | running
  deriving DecidableEq, Repr

def require (b : Bool) : Except Fault Unit := if b then .ok () else .error .assertion

/-- `buf[i]`; the byte behind the last one is the terminating NUL. -/
def byteAt (buf : List UInt8) (i : ℕ) : Except Fault UInt8 :=
  if i ≤ buf.length then .ok (buf.getD i 0) else .error .index

def slice (buf : List UInt8) (i n : ℕ) : Except Fault (List UInt8) :=
  if i+n ≤ buf.length then .ok ((buf.drop i).take n) else .error .index

/-- What a function of the C library that stops at a NUL is given. -/
def stringAt (buf : List UInt8) (i : ℕ) : Except Fault (List UInt8) :=
  if i ≤ buf.length then .ok (buf.drop i) else .error .index

structure Scanner where
  msg : List UInt8
  cursor : ℕ
  entireMsgLoaded : Bool
  deriving DecidableEq, Repr

namespace Scanner

def rest (s : Scanner) : List UInt8 := s.msg.drop s.cursor

def advance (s : Scanner) (n : ℕ) : Scanner := { s with cursor := s.cursor+n }

def seek (s : Scanner) (i : ℕ) : Except Fault Scanner :=
  if i ≤ s.msg.length then .ok { s with cursor := i } else .error .cursor

def back (s : Scanner) (n : ℕ) : Except Fault Scanner :=
  if n ≤ s.cursor then s.seek (s.cursor-n) else .error .cursor

end Scanner

/-- `PARSE_OK` with a value, or another status, and the scanner as it is left. -/
inductive Got (α : Type)
  | ok (a : α) (s : Scanner)
  | stop (st : StopStatus) (s : Scanner)
  deriving DecidableEq, Repr

/-- The answer of a routine that was called with the scanner `s`. -/
def Got.of {α : Type} (s : Scanner) : Scan α → Got α
  | .ok a n => .ok a (s.advance n)
  | .stop st n => .stop st (s.advance n)

/-- One round of `while( cursor < null_terminator && p( *cursor ) ) cursor++;`. -/
def runRound (buf : List UInt8) (p : UInt8 → Bool) (i : ℕ) : Except Fault (ℕ ⊕ ℕ) :=
  if i < buf.length then do
    let c ← byteAt buf i
    if p c then .ok (.inl (i+1)) else .ok (.inr i)
  else .ok (.inr i)

/-- One round over a quoted string. It is left with the position it has come to and
whether the end quote was read, or with nothing on a byte that may not be there. -/
def quoteRound (buf : List UInt8) (i : ℕ) : Except Fault (ℕ ⊕ Option (ℕ × Bool)) :=
  if i < buf.length then do
    let c ← byteAt buf i
    if c = 34 then .ok (.inr (some (i+1,true)))
    else if c = 92 then
      if i+1 < buf.length then do
        let _ ← byteAt buf (i+1)
        .ok (.inl (i+2))
      else .ok (.inl (i+1))
    else do
      -- the assertion of is_qdtext_char
      require (c != 34)
      if isQdtextChar c then .ok (.inl (i+1)) else .ok (.inr none)
  else .ok (.inr (some (i,false)))

/-- The token from the cursor up to `stop`, and past it. -/
def takeToken (s : Scanner) (type : TokenType) (stop : ℕ) : Except Fault (Got Token) := do
  let text ← slice s.msg s.cursor (stop-s.cursor)
  let s' ← s.seek (s.cursor+text.length)
  .ok (.ok ⟨text,type⟩ s')

def scanRun (fuel : ℕ) (p : UInt8 → Bool) (type : TokenType) (s : Scanner) :
    Except Fault (Got Token) := do
  let i ← rounds .running (runRound s.msg p) fuel (s.cursor+1)
  if !s.entireMsgLoaded && i == s.msg.length then .ok (.stop .incomplete s)
  else takeToken s type i

def scannerGetToken (fuel : ℕ) (s : Scanner) : Except Fault (Got Token) :=
  if s.cursor = s.msg.length then .ok (.stop .incomplete s)
  else do
    let c ← byteAt s.msg s.cursor
    if isIdentifierChar c then scanRun fuel isIdentifierChar .identifier s
    else if isBlank c then scanRun fuel isBlank .whitespace s
    else if c = cr then
      if s.cursor+1 = s.msg.length then .ok (.stop .incomplete s)
      else do
        let d ← byteAt s.msg (s.cursor+1)
        if d = lf then takeToken s .crlf (s.cursor+2) else takeToken s .ctrl (s.cursor+1)
    else if c = lf then takeToken s .crlf (s.cursor+1)
    else if c = 34 then do
      let q ← rounds .running (quoteRound s.msg) fuel (s.cursor+1)
      match q with
      | some (i,true) => takeToken s .quotedString i
      | some (i,false) => do
        require (i == s.msg.length)
        .ok (.stop .incomplete s)
      | none => .ok (.stop .failure s)
    else if isSeparatorChar c then takeToken s .separator (s.cursor+1)
    else if isControlChar c then takeToken s .ctrl (s.cursor+1)
    else .ok (.stop .failure s)

/-- The loop is left with the answer of the last `scanner_get_token`. -/
def blankRound (fuel : ℕ) (s : Scanner) : Except Fault (Scanner ⊕ Got Token) := do
  match ← scannerGetToken fuel s with
  | .ok t s' =>
    if t.type = .whitespace ∨ t.type = .crlf then .ok (.inl s') else .ok (.inr (.ok t s'))
  | .stop st s' => .ok (.inr (.stop st s'))

def skipBlankLines (fuel : ℕ) (s : Scanner) : Except Fault (Got Unit) := do
  match ← rounds .running (blankRound fuel) fuel s with
  | .ok t s' => do
    -- a token that is not white space is put back
    let s'' ← s'.back t.text.length
    .ok (.ok () s'')
  | .stop st s' => .ok (.stop st s')

def lwsRound (fuel : ℕ) (s : Scanner) : Except Fault (Scanner ⊕ Got Unit) := do
  match ← scannerGetToken fuel s with
  | .ok t s' => do
    let r ← if t.type = .crlf then scannerGetToken fuel s' else .ok (.ok t s')
    match r with
    | .ok t s'' =>
      if t.type = .whitespace then .ok (.inl s'')
      else do
        let s''' ← s''.seek s.cursor
        .ok (.inr (.ok () s'''))
    | .stop st s'' => do
      let s''' ← s''.seek s.cursor
      .ok (.inr (.stop st s'''))
  | .stop st s' => .ok (.inr (.stop st s'))

def skipLws (fuel : ℕ) (s : Scanner) : Except Fault (Got Unit) := do
  match ← rounds .running (lwsRound fuel) fuel s with
  | .ok _ s' => .ok (.ok () s')
  | .stop st s' =>
    if st = .incomplete ∧ s'.entireMsgLoaded = true then .ok (.ok () s') else .ok (.stop st s')

/-- The state is `str->length`. -/
def nonWsRound (fuel : ℕ) (x : ℕ × Scanner) :
    Except Fault ((ℕ × Scanner) ⊕ (ℕ × Got Token)) := do
  match ← scannerGetToken fuel x.2 with
  | .ok t s =>
    if t.type ≠ .whitespace ∧ t.type ≠ .crlf then .ok (.inl (x.1+t.text.length,s))
    else .ok (.inr (x.1,.ok t s))
  | .stop st s => .ok (.inr (x.1,.stop st s))

/-- The string of `n` bytes from the cursor of `s`; the scanner is left as `s'`. -/
def finishNonWs (s s' : Scanner) (n : ℕ) : Except Fault (Got (List UInt8)) :=
  if n = 0 then .ok (.stop .noMatch s')
  else do
    let text ← slice s.msg s.cursor n
    .ok (.ok text s')

def matchNonWsString (fuel : ℕ) (s : Scanner) : Except Fault (Got (List UInt8)) := do
  match ← rounds .running (nonWsRound fuel) fuel (0,s) with
  | (n,.ok t s') => do
    let s'' ← s'.back t.text.length
    finishNonWs s s'' n
  | (n,.stop st s') =>
    if st = .incomplete ∧ s'.entireMsgLoaded = true then finishNonWs s s' n
    else do
      let s'' ← s'.seek s.cursor
      .ok (.stop st s'')

/-- `saw_crlf`, `pos_at_crlf`, `raw_value->length` and the scanner. -/
structure RawState where
  sawCrlf : Bool
  posAtCrlf : ℕ
  length : ℕ
  scanner : Scanner
  deriving DecidableEq, Repr

def rawRound (fuel savePos : ℕ) (x : RawState) : Except Fault (RawState ⊕ Got ℕ) := do
  match ← scannerGetToken fuel x.scanner with
  | .ok t s =>
    if x.sawCrlf = false then
      if t.type = .crlf then do
        let q ← s.back t.text.length
        .ok (.inl ⟨true,q.cursor,x.length+t.text.length,s⟩)
      else .ok (.inl ⟨false,x.posAtCrlf,x.length+t.text.length,s⟩)
    else if t.type = .whitespace then
      .ok (.inl ⟨false,x.posAtCrlf,x.length+t.text.length,s⟩)
    else do
      let s' ← s.seek x.posAtCrlf
      .ok (.inr (.ok x.length s'))
  | .stop st s => do
    let s' ← s.seek savePos
    .ok (.inr (.stop st s'))

/-- One round of the loop that trims the value from `start`, of which `n` bytes are left. -/
def trimRound (buf : List UInt8) (start n : ℕ) : Except Fault (ℕ ⊕ ℕ) :=
  if 0 < n then do
    let c ← byteAt buf (start+n-1)
    if c ≠ 32 ∧ c ≠ 9 ∧ c ≠ cr ∧ c ≠ lf then .ok (.inr n) else .ok (.inl (n-1))
  else .ok (.inr n)

def matchRawValue (fuel : ℕ) (s : Scanner) : Except Fault (Got (List UInt8)) := do
  match ← rounds .running (rawRound fuel s.cursor) fuel ⟨false,0,0,s⟩ with
  | .ok len s' => do
    let n ← rounds .running (trimRound s.msg s.cursor) fuel len
    let v ← slice s.msg s.cursor n
    .ok (.ok v s')
  | .stop st s' => .ok (.stop st s')

def matchInt (fuel base : ℕ) (s : Scanner) : Except Fault (Option ℤ × Got Unit) := do
  match ← scannerGetToken fuel s with
  | .ok t s' =>
    if t.type = .identifier then do
      let r ← stringAt s.msg s.cursor
      let num := strtol base r
      if num.value < 0 ∨ num.used ≠ t.text.length ∨
          ((num.value = longMin ∨ num.value = longMax) ∧ num.erange = true) then do
        let s'' ← s'.seek s.cursor
        .ok (some (toInt num.value),.stop .noMatch s'')
      else .ok (some (toInt num.value),.ok () s')
    else do
      let s'' ← s'.seek s.cursor
      .ok (none,.stop .noMatch s'')
  | .stop st s' => do
    let s'' ← s'.seek s.cursor
    .ok (none,.stop st s'')

def lineRound (fuel : ℕ) (s : Scanner) : Except Fault (Scanner ⊕ Got Token) := do
  match ← scannerGetToken fuel s with
  | .ok t s' => if t.type ≠ .crlf then .ok (.inl s') else .ok (.inr (.ok t s'))
  | .stop st s' => .ok (.inr (.stop st s'))

def readUntilCrlf (fuel : ℕ) (s : Scanner) : Except Fault (Got (List UInt8)) := do
  match ← rounds .running (lineRound fuel) fuel s with
  | .ok t s' => do
    let s'' ← s'.back t.text.length
    let line ← slice s.msg s.cursor (s''.cursor-s.cursor)
    .ok (.ok line s'')
  | .stop st s' => .ok (.stop st s')

def matchChar (c : UInt8) (caseSensitive : Bool) (s : Scanner) : Except Fault (Got Unit) :=
  if s.msg.length ≤ s.cursor then .ok (.stop .incomplete s)
  else do
    let d ← byteAt s.msg s.cursor
    let s' ← s.seek (s.cursor+1)
    if (if caseSensitive then c = d else toLower c = toLower d) then .ok (.ok () s')
    else .ok (.stop .noMatch s')

def expectToken (fuel : ℕ) (type : TokenType) (s : Scanner) : Except Fault (Got Token) := do
  match ← scannerGetToken fuel s with
  | .ok t s' => if t.type = type then .ok (.ok t s') else .ok (.stop .noMatch s')
  | .stop st s' => .ok (.stop st s')

def Got.store {α : Type} (r : Got α) (vals : α → List MatchVal) : List MatchVal × Got Unit :=
  match r with
  | .ok a s => (vals a,.ok () s)
  | .stop st s => ([],.stop st s)

/-- One directive of a match that began at `savePos`. -/
def directive (fuel savePos : ℕ) (cs : Bool) (s : Scanner) :
    Directive → Except Fault (List MatchVal × Got Unit)
  | .raw => do
    let r ← matchRawValue fuel s
    .ok (r.store fun v => [.text (s.cursor-savePos) v])
  | .ident => do
    let r ← expectToken fuel .identifier s
    .ok (r.store fun t => [.text (s.cursor-savePos) t.text])
  | .quoted => do
    let r ← expectToken fuel .quotedString s
    .ok (r.store fun t => [.text (s.cursor-savePos) t.text])
  | .crlf => do
    let r ← expectToken fuel .crlf s
    .ok (r.store fun _ => [])
  | .ws => do
    let r ← expectToken fuel .whitespace s
    .ok (r.store fun _ => [])
  | .num base => do
    let m ← matchInt fuel base s
    .ok ((m.1.map MatchVal.int).toList,m.2)
  | .nonWs => do
    let r ← matchNonWsString fuel s
    .ok (r.store fun v => [.text (s.cursor-savePos) v])
  | .line => do
    let r ← readUntilCrlf fuel s
    .ok (r.store fun v => [.text (s.cursor-savePos) v])
  | .char c => do
    let r ← matchChar c cs s
    .ok ([],r)
  | .caseSensitive _ => .ok ([],.ok () s)
  | .optWs => do
    match ← scannerGetToken fuel s with
    | .ok t s' =>
      if t.type = .whitespace then .ok ([],.ok () s')
      else do
        let s'' ← s'.back t.text.length
        .ok ([],.ok () s'')
    | .stop st s' => .ok ([],.stop st s')
  | .endMsg =>
    if s.cursor = s.msg.length then do
      let c ← byteAt s.msg s.cursor
      if c = 0 then .ok ([],.ok () s) else .ok ([],.stop .noMatch s)
    else .ok ([],.stop .noMatch s)
  | .lws => do
    let r ← skipLws fuel s
    .ok ([],r)

/-- The loop of `vfmatch`; on error the cursor goes back to `savePos`. -/
def vfmatchFrom (fuel savePos : ℕ) :
    List Directive → Bool → Scanner → Except Fault (ParseStatus × List MatchVal × Scanner)
  | [], _, s => .ok (.ok,[],s)
  | d::ds, cs, s => do
    match ← directive fuel savePos cs s d with
    | (vs,.ok _ s') => do
      let m ← vfmatchFrom fuel savePos ds (nextCase cs d) s'
      .ok (m.1,vs++m.2.1,m.2.2)
    | (vs,.stop st s') => do
      let s'' ← s'.seek savePos
      .ok (st.status,vs,s'')

def vfmatch (fuel : ℕ) (fmt : List Directive) (s : Scanner) :
    Except Fault (ParseStatus × List MatchVal × Scanner) :=
  vfmatchFrom fuel s.cursor fmt true s

/-! The operations where they succeed. -/

theorem require_true {b : Bool} (h : b = true) : require b = .ok () := if_pos h

theorem byteAt_of_drop {buf cs : List UInt8} {i : ℕ} {c : UInt8} (h : buf.drop i = c::cs) :
    byteAt buf i = .ok c := by
  have hlt : i < buf.length := by
    by_contra hge
    rw [List.drop_eq_nil_of_le (by omega)] at h
    cases h
  have hc : buf.getD i 0 = c := by
    rw [List.drop_eq_getElem_cons hlt] at h
    rw [List.getD_eq_getElem?_getD,List.getElem?_eq_getElem hlt,Option.getD_some]
    exact (List.cons.inj h).1
  rw [byteAt,if_pos (Nat.le_of_lt hlt),hc]

theorem slice_of_le {buf : List UInt8} {i n : ℕ} (h : i+n ≤ buf.length) :
    slice buf i n = .ok ((buf.drop i).take n) := if_pos h

theorem stringAt_of_le {buf : List UInt8} {i : ℕ} (h : i ≤ buf.length) :
    stringAt buf i = .ok (buf.drop i) := if_pos h

namespace Scanner

theorem seek_of_le {s : Scanner} {i : ℕ} (h : i ≤ s.msg.length) :
    s.seek i = .ok { s with cursor := i } := if_pos h

theorem back_of_le {s : Scanner} {n : ℕ} (hn : n ≤ s.cursor) (h : s.cursor ≤ s.msg.length) :
    s.back n = .ok { s with cursor := s.cursor-n } := by
  rw [back,if_pos hn,seek_of_le (by omega)]

@[simp] theorem advance_zero (s : Scanner) : s.advance 0 = s := rfl

@[simp] theorem advance_advance (s : Scanner) (n m : ℕ) :
    (s.advance n).advance m = s.advance (n+m) := by
  simp [advance,Nat.add_assoc]

@[simp] theorem advance_msg (s : Scanner) (n : ℕ) : (s.advance n).msg = s.msg := rfl

@[simp] theorem advance_loaded (s : Scanner) (n : ℕ) :
    (s.advance n).entireMsgLoaded = s.entireMsgLoaded := rfl

@[simp] theorem advance_cursor (s : Scanner) (n : ℕ) : (s.advance n).cursor = s.cursor+n := rfl

@[simp] theorem rest_advance (s : Scanner) (n : ℕ) : (s.advance n).rest = s.rest.drop n := by
  simp [rest,advance]

theorem rest_length (s : Scanner) : s.rest.length = s.msg.length-s.cursor := by simp [rest]

end Scanner

section Loops

variable {fuel : ℕ} {buf : List UInt8}

theorem run_rounds {p : UInt8 → Bool} {i : ℕ} (hi : i ≤ buf.length) (hf : buf.length < fuel) :
    rounds .running (runRound buf p) fuel i =
      .ok (i+((buf.drop i).takeWhile p).length) := by
  refine rounds_eq (I := fun i => i ≤ buf.length) (μ := fun i => buf.length-i)
    (f := fun i => i+((buf.drop i).takeWhile p).length) ?_ hi (by omega)
  intro i hi
  by_cases hlt : i < buf.length
  · have hd := List.drop_eq_getElem_cons hlt
    simp only [runRound,if_pos hlt,byteAt_of_drop hd,ok_bind]
    by_cases hp : p buf[i] = true
    · right
      refine ⟨i+1,by rw [if_pos hp],hlt,by omega,?_⟩
      rw [hd,List.takeWhile_cons_of_pos hp,List.length_cons]
      omega
    · left
      rw [if_neg hp,hd,List.takeWhile_cons_of_neg hp]
      rfl
  · left
    rw [runRound,if_neg hlt,List.drop_eq_nil_of_le (by omega)]
    rfl

/-- What the loop over a quoted string is left with, from the answer on the bytes from
`start` on; `len` is the length of the buffer. -/
def quoteLeft (start len : ℕ) : Scan Unit → Option (ℕ × Bool)
  | .ok _ m => some (start+m,true)
  | .stop .incomplete _ => some (len,false)
  | .stop _ _ => none

theorem quotedEnd_ne_noMatch (n : ℕ) (r : List UInt8) (m : ℕ) :
    quotedEnd n r ≠ .stop .noMatch m := by
  induction n, r using quotedEnd.induct with
  | case1 n => rintro ⟨⟩
  | case2 n cs => simp [quotedEnd_cons]
  | case3 n h => simp [quotedEnd]
  | case4 n h d ds ih => simpa [quotedEnd_cons] using ih
  | case5 n c cs hq hb hx ih => simpa [quotedEnd_cons,hq,hb,hx] using ih
  | case6 n c cs hq hb hx => simp [quotedEnd_cons,hq,hb,hx]

theorem quote_rounds (start : ℕ) {i : ℕ} (hs : start ≤ i) (hi : i ≤ buf.length)
    (hf : buf.length < fuel) :
    rounds .running (quoteRound buf) fuel i =
      .ok (quoteLeft start buf.length (quotedEnd (i-start) (buf.drop i))) := by
  refine rounds_eq (I := fun i => start ≤ i ∧ i ≤ buf.length) (μ := fun i => buf.length-i)
    (f := fun i => quoteLeft start buf.length (quotedEnd (i-start) (buf.drop i))) ?_ ⟨hs,hi⟩
    (by omega)
  rintro i ⟨hs,hi⟩
  by_cases hlt : i < buf.length
  · have hd := List.drop_eq_getElem_cons hlt
    generalize buf[i] = c at hd
    simp only [quoteRound,if_pos hlt,byteAt_of_drop hd,ok_bind,hd]
    by_cases hq : c = 34
    · left
      simp only [quotedEnd_cons,if_pos hq,quoteLeft]
      rw [show start+(i-start+1) = i+1 by omega]
    by_cases hb : c = 92
    · right
      subst hb
      by_cases hlt' : i+1 < buf.length
      · have hd' := List.drop_eq_getElem_cons hlt'
        refine ⟨i+2,?_,by omega,by omega,?_⟩
        · simp [if_pos hlt',byteAt_of_drop hd']
        · simp only [quotedEnd_cons,if_neg hq,if_true,hd']
          rw [show i+2-start = i-start+2 by omega]
      · refine ⟨i+1,?_,by omega,by omega,?_⟩
        · simp only [if_neg hq,if_neg hlt',if_true]
        · have hnil : buf.drop (i+1) = [] := List.drop_eq_nil_of_le (by omega)
          simp only [quotedEnd_cons,if_neg hq,if_true,hnil,quotedEnd]
    · have hne : (c != 34) = true := by simpa using hq
      simp only [if_neg hq,if_neg hb,require_true hne,ok_bind]
      by_cases hx : isQdtextChar c = true
      · right
        refine ⟨i+1,by rw [if_pos hx],by omega,by omega,?_⟩
        simp only [quotedEnd_cons,if_neg hq,if_neg hb,if_pos hx]
        rw [show i+1-start = i-start+1 by omega]
      · left
        simp only [quotedEnd_cons,if_neg hq,if_neg hb,if_neg hx,quoteLeft]
  · left
    have hil : i = buf.length := by omega
    have hnil : buf.drop i = [] := List.drop_eq_nil_of_le (by omega)
    simp only [quoteRound,if_neg hlt,hnil,quotedEnd,quoteLeft]
    rw [hil]

end Loops

/-! Tokens. -/

theorem rest_cons {s : Scanner} {c : UInt8} {cs : List UInt8} (h : s.rest = c::cs) :
    s.msg.drop (s.cursor+1) = cs ∧ s.msg.length = s.cursor+1+cs.length := by
  have hlt : s.cursor < s.msg.length := by
    by_contra hge
    rw [Scanner.rest,List.drop_eq_nil_of_le (by omega)] at h
    cases h
  have hl := congrArg List.length h
  rw [Scanner.rest_length,List.length_cons] at hl
  rw [Scanner.rest,List.drop_eq_getElem_cons hlt] at h
  exact ⟨(List.cons.inj h).2,by omega⟩

theorem takeToken_eq {s : Scanner} {type : TokenType} {text u : List UInt8} {stop : ℕ}
    (hs : s.cursor ≤ s.msg.length) (h : s.rest = text++u) (hstop : stop = s.cursor+text.length) :
    takeToken s type stop = .ok (.ok ⟨text,type⟩ (s.advance text.length)) := by
  have hl := congrArg List.length h
  rw [Scanner.rest_length,List.length_append] at hl
  have hle : s.cursor+text.length ≤ s.msg.length := by omega
  have hn : stop-s.cursor = text.length := by omega
  have ht : (s.msg.drop s.cursor).take text.length = text := by
    rw [← Scanner.rest,h,List.take_left]
  rw [takeToken,hn,slice_of_le hle,ht]
  simp only [ok_bind,Scanner.seek_of_le hle]
  rfl

variable {fuel : ℕ} {s : Scanner}

theorem scanRun_eq {p : UInt8 → Bool} {type : TokenType} {c : UInt8} {cs : List UInt8}
    (hs : s.cursor ≤ s.msg.length) (hf : s.msg.length < fuel) (hr : s.rest = c::cs) :
    scanRun fuel p type s = .ok (Got.of s (Http.scanRun s.entireMsgLoaded p type c cs)) := by
  rcases rest_cons hr with ⟨hcs,hlen⟩
  have hend : (s.cursor+1+(cs.takeWhile p).length == s.msg.length) =
      ((cs.takeWhile p).length == cs.length) := by
    rw [hlen,Bool.eq_iff_iff,beq_iff_eq,beq_iff_eq]
    omega
  have htext : s.rest = (c::cs.takeWhile p)++cs.dropWhile p := by
    rw [hr,List.cons_append,List.takeWhile_append_dropWhile]
  rw [scanRun,run_rounds (by omega) hf,hcs]
  simp only [ok_bind,hend,Http.scanRun]
  split
  · rfl
  · exact takeToken_eq hs htext (by simp only [List.length_cons]; omega)

theorem scannerGetToken_eq (hs : s.cursor ≤ s.msg.length) (hf : s.msg.length < fuel) :
    scannerGetToken fuel s =
      .ok (Got.of s (Http.scannerGetToken s.entireMsgLoaded s.rest)) := by
  cases hr : s.rest with
  | nil =>
    have hl := congrArg List.length hr
    rw [Scanner.rest_length,List.length_nil] at hl
    rw [scannerGetToken,if_pos (by omega)]
    rfl
  | cons c cs =>
    rcases rest_cons hr with ⟨hcs,hlen⟩
    have htake : ∀ type,takeToken s type (s.cursor+1) = .ok (.ok ⟨[c],type⟩ (s.advance 1)) :=
      fun type => takeToken_eq hs (show s.rest = [c]++cs from hr) rfl
    rw [scannerGetToken,if_neg (by omega),byteAt_of_drop hr,ok_bind]
    simp only [Http.scannerGetToken]
    split
    · exact scanRun_eq hs hf hr
    split
    · exact scanRun_eq hs hf hr
    split
    · cases cs with
      | nil =>
        rw [if_pos (by rw [hlen]; rfl)]
        rfl
      | cons d ds =>
        rw [if_neg (by rw [hlen,List.length_cons]; omega),byteAt_of_drop hcs,ok_bind]
        simp only
        split
        · exact takeToken_eq hs (show s.rest = [c,d]++ds from hr) rfl
        · exact htake _
    split
    · exact htake _
    split
    · rw [quote_rounds s.cursor (by omega) (by omega) hf,hcs,ok_bind,
        Nat.add_sub_cancel_left]
      cases hq : quotedEnd 1 cs with
      | ok u m =>
        have hm := quotedEnd_le 1 cs m hq
        have hl : ((c::cs).take m).length = m := by
          rw [List.length_take,List.length_cons]
          omega
        have htext : s.rest = (c::cs).take m++(c::cs).drop m := by
          rw [hr,List.take_append_drop]
        have ht : takeToken s .quotedString (s.cursor+m) = _ := takeToken_eq hs htext (by rw [hl])
        rw [hl] at ht
        exact ht
      | stop st m =>
        cases st with
        | incomplete =>
          simp only [quoteLeft,require_true (beq_self_eq_true _),ok_bind]
          rfl
        | failure => rfl
        | noMatch => exact absurd hq (quotedEnd_ne_noMatch 1 cs m)
    split
    · exact htake _
    split
    · exact htake _
    · rfl

/-- A call of `scanner_get_token`, `n` bytes behind `s`: either a token of `k` bytes
that are there, or a status that leaves the cursor where it is. -/
theorem scannerGetToken_cases {n : ℕ} (hn : s.cursor+n ≤ s.msg.length)
    (hf : s.msg.length < fuel) :
    (∃ t k, Http.scannerGetToken s.entireMsgLoaded (s.rest.drop n) = .ok t k ∧
      scannerGetToken fuel (s.advance n) = .ok (.ok t (s.advance (n+k))) ∧ 0 < k ∧
      t.text.length = k ∧ s.cursor+(n+k) ≤ s.msg.length) ∨
    ∃ st k, Http.scannerGetToken s.entireMsgLoaded (s.rest.drop n) = .stop st k ∧
      scannerGetToken fuel (s.advance n) = .ok (.stop st (s.advance n)) := by
  have he : scannerGetToken fuel (s.advance n) = _ := scannerGetToken_eq hn hf
  rw [Scanner.rest_advance,Scanner.advance_loaded] at he
  cases ht : Http.scannerGetToken s.entireMsgLoaded (s.rest.drop n) with
  | ok t k =>
    have hk := scannerGetToken_ok ht
    rw [List.length_drop,Scanner.rest_length] at hk
    have hl : t.text.length = k := by
      rw [hk.2.2,List.length_take,List.length_drop,Scanner.rest_length]
      omega
    refine .inl ⟨t,k,rfl,?_,hk.1,hl,by omega⟩
    rw [he,ht]
    simp only [Got.of,Scanner.advance_advance]
  | stop st k =>
    have hk := scannerGetToken_stop ht
    refine .inr ⟨st,k,rfl,?_⟩
    rw [he,ht]
    simp only [Got.of,hk,Scanner.advance_zero]

theorem back_advance {n k : ℕ} (h : s.cursor+(n+k) ≤ s.msg.length) :
    (s.advance (n+k)).back k = .ok (s.advance n) := by
  rw [Scanner.back_of_le (by rw [Scanner.advance_cursor]; omega) h]
  simp only [Scanner.advance]
  rw [show s.cursor+(n+k)-k = s.cursor+n by omega]

theorem seek_advance {n k : ℕ} (h : s.cursor+k ≤ s.msg.length) :
    (s.advance n).seek (s.cursor+k) = .ok (s.advance k) := Scanner.seek_of_le h

theorem seek_start {n : ℕ} (h : s.cursor ≤ s.msg.length) :
    (s.advance n).seek s.cursor = .ok s := Scanner.seek_of_le h

/-- What a token loop keeps of the scanner it began with. -/
def Behind (s s' : Scanner) : Prop := ∃ n, s' = s.advance n ∧ s.cursor+n ≤ s.msg.length

theorem Behind.refl (hs : s.cursor ≤ s.msg.length) : Behind s s := ⟨0,rfl,hs⟩

theorem rest_advance_lt {n k : ℕ} (hk : 0 < k) (h : s.cursor+(n+k) ≤ s.msg.length) :
    (s.advance (n+k)).rest.length < (s.advance n).rest.length := by
  simp only [Scanner.rest_length,Scanner.advance_cursor,Scanner.advance_msg]
  omega

/-- What a token loop of the model answers where the scanner `s'` has come to. -/
def readAt {σ α : Type} (s : Scanner) (f : Reader σ α) (x : σ) (s' : Scanner) : α :=
  readFrom s.entireMsgLoaded f (x,s'.cursor-s.cursor,s'.rest)

section ReadAt

variable {σ α : Type} {f : Reader σ α} {x : σ} {n k : ℕ} {t : Token}

@[simp] theorem readAt_start : readAt s f x s = readTokens s.entireMsgLoaded f x s.rest := by
  rw [readAt,Nat.sub_self]
  rfl

theorem readAt_token {x' : σ}
    (ht : Http.scannerGetToken s.entireMsgLoaded (s.rest.drop n) = .ok t k)
    (hx : f.onToken x n t = .inl x') :
    readAt s f x' (s.advance (n+k)) = readAt s f x (s.advance n) := by
  simp only [readAt,Scanner.advance_cursor,Nat.add_sub_cancel_left,Scanner.rest_advance]
  rw [readFrom_token ht hx,List.drop_drop]

theorem readAt_leave {a : α}
    (ht : Http.scannerGetToken s.entireMsgLoaded (s.rest.drop n) = .ok t k)
    (hx : f.onToken x n t = .inr a) : readAt s f x (s.advance n) = a := by
  simp only [readAt,Scanner.advance_cursor,Nat.add_sub_cancel_left,Scanner.rest_advance]
  exact readFrom_leave ht hx

theorem readAt_stop {st : StopStatus}
    (ht : Http.scannerGetToken s.entireMsgLoaded (s.rest.drop n) = .stop st k) :
    readAt s f x (s.advance n) = f.onStop x n st := by
  simp only [readAt,Scanner.advance_cursor,Nat.add_sub_cancel_left,Scanner.rest_advance]
  exact readFrom_stop ht

end ReadAt

theorem skipBlankLines_eq (hs : s.cursor ≤ s.msg.length) (hf : s.msg.length < fuel) :
    skipBlankLines fuel s =
      .ok (Got.of s (Http.skipBlankLines s.entireMsgLoaded s.rest)) := by
  have h0 : Http.skipBlankLines s.entireMsgLoaded s.rest = readAt s blankReader () s :=
    readAt_start.symm
  rw [h0]
  refine rounds_bind (I := Behind s) (μ := fun s' => s'.rest.length)
    (f := fun s' => Got.of s (readAt s blankReader () s')) ?_ (Behind.refl hs)
    (by rw [Scanner.rest_length]; omega)
  rintro _ ⟨n,rfl,hn⟩
  rcases scannerGetToken_cases hn hf with ⟨t,k,ht,hg,hk,hl,hle⟩ | ⟨st,k,ht,hg⟩
  · by_cases hw : t.type = .whitespace ∨ t.type = .crlf
    · right
      refine ⟨s.advance (n+k),?_,⟨n+k,rfl,hle⟩,rest_advance_lt hk hle,?_⟩
      · simp only [blankRound,hg,ok_bind,if_pos hw]
      · rw [readAt_token ht (if_pos hw)]
    · left
      refine ⟨.ok t (s.advance (n+k)),?_,?_⟩
      · simp only [blankRound,hg,ok_bind,if_neg hw]
      · rw [readAt_leave ht (if_neg hw)]
        simp only [hl,back_advance hle,ok_bind,Got.of]
  · left
    refine ⟨.stop st (s.advance n),?_,?_⟩
    · simp only [blankRound,hg,ok_bind]
    · rw [readAt_stop ht]
      rfl

/-- The loop of `skip_lws` in the model, whose state is `save_pos` and whether a line
break has been read since. -/
abbrev lwsReader (loaded : Bool) : Reader (ℕ × Bool) (Scan Unit) where
  onToken := fun s n t =>
    if t.type = .whitespace then .inl (n+t.text.length,false)
    else if t.type = .crlf ∧ s.2 = false then .inl (s.1,true)
    else .inr (.ok () s.1)
  onStop := fun s _ st =>
    if st = .incomplete ∧ loaded = true then .ok () s.1 else .stop st s.1

theorem skipLws_eq (hs : s.cursor ≤ s.msg.length) (hf : s.msg.length < fuel) :
    skipLws fuel s = .ok (Got.of s (Http.skipLws s.entireMsgLoaded s.rest)) := by
  have h0 : Http.skipLws s.entireMsgLoaded s.rest =
      readAt s (lwsReader s.entireMsgLoaded) (s.cursor-s.cursor,false) s := by
    rw [readAt_start,Nat.sub_self]
    rfl
  rw [h0]
  refine rounds_bind (I := Behind s) (μ := fun s' => s'.rest.length)
    (f := fun s' => Got.of s
      (readAt s (lwsReader s.entireMsgLoaded) (s'.cursor-s.cursor,false) s')) ?_
    (Behind.refl hs) (by rw [Scanner.rest_length]; omega)
  rintro _ ⟨n,rfl,hn⟩
  rw [Scanner.advance_cursor,Nat.add_sub_cancel_left]
  have hend : ∀ st, Got.of s ((lwsReader s.entireMsgLoaded).onStop (n,false) n st) =
      if st = .incomplete ∧ (s.advance n).entireMsgLoaded = true then .ok () (s.advance n)
      else .stop st (s.advance n) := by
    intro st
    exact apply_ite (Got.of s) _ _ _
  rcases scannerGetToken_cases hn hf with ⟨t,k,ht,hg,hk,hl,hle⟩ | ⟨st,k,ht,hg⟩
  · by_cases hw : t.type = .whitespace
    · right
      have hne : t.type ≠ .crlf := by rw [hw]; rintro ⟨⟩
      refine ⟨s.advance (n+k),?_,⟨n+k,rfl,hle⟩,rest_advance_lt hk hle,?_⟩
      · simp only [lwsRound,hg,ok_bind,if_neg hne,if_pos hw]
      · rw [Scanner.advance_cursor,Nat.add_sub_cancel_left,readAt_token ht (x := (n,false))]
        simp only [if_pos hw,hl]
    by_cases hc : t.type = .crlf
    · have hgo : (lwsReader s.entireMsgLoaded).onToken (n,false) n t = .inl (n,true) := by
        simp [hc]
      rw [← readAt_token ht hgo]
      -- the token behind the line break decides
      rcases scannerGetToken_cases hle hf with ⟨u,m,hu,hgu,hm,hlu,hleu⟩ | ⟨st,m,hu,hgu⟩
      · by_cases hwu : u.type = .whitespace
        · right
          refine ⟨s.advance (n+k+m),?_,⟨n+k+m,rfl,hleu⟩,?_,?_⟩
          · simp only [lwsRound,hg,ok_bind,if_pos hc,hgu,if_pos hwu]
          · exact Nat.lt_trans (rest_advance_lt hm hleu) (rest_advance_lt hk hle)
          · rw [Scanner.advance_cursor,Nat.add_sub_cancel_left,
              readAt_token hu (x := (n,true))]
            simp only [if_pos hwu,hlu]
        · left
          have hleave : (lwsReader s.entireMsgLoaded).onToken (n,true) (n+k) u =
              .inr (.ok () n) := by simp [hwu]
          refine ⟨.ok () (s.advance n),?_,?_⟩
          · simp only [lwsRound,hg,ok_bind,if_pos hc,hgu,if_neg hwu,Scanner.advance_cursor,
              seek_advance hn]
          · rw [readAt_leave hu hleave]
            rfl
      · left
        refine ⟨.stop st (s.advance n),?_,?_⟩
        · simp only [lwsRound,hg,ok_bind,if_pos hc,hgu,Scanner.advance_cursor,seek_advance hn]
        · rw [readAt_stop hu]
          exact (apply_ite Except.ok _ _ _).symm.trans (congrArg Except.ok (hend st).symm)
    · left
      have hleave : (lwsReader s.entireMsgLoaded).onToken (n,false) n t = .inr (.ok () n) := by
        simp [hw,hc]
      refine ⟨.ok () (s.advance n),?_,?_⟩
      · simp only [lwsRound,hg,ok_bind,if_neg hc,if_neg hw,Scanner.advance_cursor,
          seek_advance hn]
      · rw [readAt_leave ht hleave]
        rfl
  · left
    refine ⟨.stop st (s.advance n),?_,?_⟩
    · simp only [lwsRound,hg,ok_bind]
    · rw [readAt_stop ht]
      exact (apply_ite Except.ok _ _ _).symm.trans (congrArg Except.ok (hend st).symm)

def textOf (r : List UInt8) : Scan Unit → Scan (List UInt8)
  | .ok _ k => .ok (r.take k) k
  | .stop st k => .stop st k

abbrev nonWsReader (loaded : Bool) : Reader Unit (Scan Unit) where
  onToken := fun s n t =>
    if t.type = .whitespace ∨ t.type = .crlf then
      .inr (if n = 0 then .stop .noMatch 0 else .ok () n)
    else .inl s
  onStop := fun _ n st =>
    if st = .incomplete ∧ loaded = true then (if n = 0 then .stop .noMatch 0 else .ok () n)
    else .stop st 0

theorem slice_rest {n : ℕ} (h : s.cursor+n ≤ s.msg.length) :
    slice s.msg s.cursor n = .ok (s.rest.take n) := slice_of_le h

theorem finishNonWs_eq {n : ℕ} (h : s.cursor+n ≤ s.msg.length) :
    finishNonWs s (s.advance n) n =
      .ok (Got.of s (textOf s.rest (if n = 0 then .stop .noMatch 0 else .ok () n))) := by
  unfold finishNonWs
  split
  · rename_i hn
    rw [hn]
    rfl
  · rw [slice_rest h]
    rfl

theorem matchNonWsString_eq (hs : s.cursor ≤ s.msg.length) (hf : s.msg.length < fuel) :
    matchNonWsString fuel s =
      .ok (Got.of s (textOf s.rest (Http.matchNonWsString s.entireMsgLoaded s.rest))) := by
  have h0 : Http.matchNonWsString s.entireMsgLoaded s.rest =
      readAt s (nonWsReader s.entireMsgLoaded) () s := readAt_start.symm
  rw [h0]
  refine rounds_bind (I := fun x => ∃ n, x = (n,s.advance n) ∧ s.cursor+n ≤ s.msg.length)
    (μ := fun x => x.2.rest.length)
    (f := fun x => Got.of s (textOf s.rest (readAt s (nonWsReader s.entireMsgLoaded) () x.2)))
    ?_ ⟨0,rfl,hs⟩ (by simp only [Scanner.rest_length]; omega)
  rintro _ ⟨n,rfl,hn⟩
  rcases scannerGetToken_cases hn hf with ⟨t,k,ht,hg,hk,hl,hle⟩ | ⟨st,k,ht,hg⟩
  · by_cases hw : t.type = .whitespace ∨ t.type = .crlf
    · left
      have hne : ¬(t.type ≠ .whitespace ∧ t.type ≠ .crlf) := by tauto
      refine ⟨(n,.ok t (s.advance (n+k))),?_,?_⟩
      · simp only [nonWsRound,hg,ok_bind,if_neg hne]
      · rw [readAt_leave ht (if_pos hw)]
        simp only [hl,back_advance hle,ok_bind]
        exact finishNonWs_eq hn
    · right
      have hne : t.type ≠ .whitespace ∧ t.type ≠ .crlf := by tauto
      refine ⟨(n+k,s.advance (n+k)),?_,⟨n+k,rfl,hle⟩,rest_advance_lt hk hle,?_⟩
      · simp only [nonWsRound,hg,ok_bind,if_pos hne,hl]
      · rw [readAt_token ht (if_neg hw)]
  · left
    refine ⟨(n,.stop st (s.advance n)),?_,?_⟩
    · simp only [nonWsRound,hg,ok_bind]
    · rw [readAt_stop ht]
      by_cases hst : st = .incomplete ∧ s.entireMsgLoaded = true
      · have hst' : st = .incomplete ∧ (s.advance n).entireMsgLoaded = true := hst
        simp only [if_pos hst,if_pos hst']
        exact finishNonWs_eq hn
      · simp only [Scanner.advance_loaded,if_neg hst,seek_start hs,ok_bind]
        rfl

abbrev lineReader : Reader Unit (Scan Unit) where
  onToken := fun s n t => if t.type = .crlf then .inr (.ok () n) else .inl s
  onStop := fun _ n st => .stop st n

theorem readUntilCrlf_eq (hs : s.cursor ≤ s.msg.length) (hf : s.msg.length < fuel) :
    readUntilCrlf fuel s =
      .ok (Got.of s (textOf s.rest (Http.readUntilCrlf s.entireMsgLoaded s.rest))) := by
  have h0 : Http.readUntilCrlf s.entireMsgLoaded s.rest = readAt s lineReader () s :=
    readAt_start.symm
  rw [h0]
  refine rounds_bind (I := Behind s) (μ := fun s' => s'.rest.length)
    (f := fun s' => Got.of s (textOf s.rest (readAt s lineReader () s'))) ?_ (Behind.refl hs)
    (by rw [Scanner.rest_length]; omega)
  rintro _ ⟨n,rfl,hn⟩
  rcases scannerGetToken_cases hn hf with ⟨t,k,ht,hg,hk,hl,hle⟩ | ⟨st,k,ht,hg⟩
  · by_cases hc : t.type = .crlf
    · left
      refine ⟨.ok t (s.advance (n+k)),?_,?_⟩
      · simp [lineRound,hg,hc]
      · rw [readAt_leave ht (if_pos hc)]
        simp only [hl,back_advance hle,ok_bind,Scanner.advance_cursor,Nat.add_sub_cancel_left,
          slice_rest hn]
        rfl
    · right
      refine ⟨s.advance (n+k),?_,⟨n+k,rfl,hle⟩,rest_advance_lt hk hle,?_⟩
      · simp [lineRound,hg,hc]
      · rw [readAt_token ht (if_neg hc)]
  · left
    refine ⟨.stop st (s.advance n),?_,?_⟩
    · simp only [lineRound,hg,ok_bind]
    · rw [readAt_stop ht]
      rfl

theorem trimRight_concat (l : List UInt8) (c : UInt8) :
    trimRight (l++[c]) = if c ≠ 32 ∧ c ≠ 9 ∧ c ≠ cr ∧ c ≠ lf then l++[c] else trimRight l := by
  have hb : (c == 32 || c == 9 || c == cr || c == lf) = true ↔
      ¬(c ≠ 32 ∧ c ≠ 9 ∧ c ≠ cr ∧ c ≠ lf) := by
    simp only [Bool.or_eq_true,beq_iff_eq]
    tauto
  simp only [trimRight,List.reverse_append,List.reverse_cons,List.reverse_nil,List.nil_append,
    List.singleton_append,List.dropWhile_cons]
  split
  · rename_i hc
    rw [if_neg (hb.mp hc)]
  · rename_i hc
    rw [if_pos (by tauto)]
    simp

theorem trimRight_prefix (l : List UInt8) : trimRight l = l.take (trimRight l).length := by
  have hp := List.reverse_prefix.mpr (List.dropWhile_suffix (l := l.reverse)
    fun c => c == 32 || c == 9 || c == cr || c == lf)
  rw [List.reverse_reverse] at hp
  exact List.prefix_iff_eq_take.mp hp

theorem take_trimRight (r : List UInt8) (n : ℕ) :
    (trimRight (r.take n)).length ≤ n ∧
      r.take (trimRight (r.take n)).length = trimRight (r.take n) := by
  have hpre := trimRight_prefix (r.take n)
  have hlen := congrArg List.length hpre
  rw [List.length_take,List.length_take] at hlen
  have hle : (trimRight (r.take n)).length ≤ n := by omega
  rw [List.take_take,Nat.min_eq_left hle] at hpre
  exact ⟨hle,hpre.symm⟩

theorem trim_rounds {buf : List UInt8} {start n : ℕ} (hn : start+n ≤ buf.length) (hf : n < fuel) :
    rounds .running (trimRound buf start) fuel n =
      .ok (trimRight ((buf.drop start).take n)).length := by
  refine rounds_eq (I := fun n => start+n ≤ buf.length) (μ := fun n => n)
    (f := fun n => (trimRight ((buf.drop start).take n)).length) ?_ hn hf
  intro n hn
  cases n with
  | zero =>
    left
    simp [trimRound,trimRight]
  | succ n =>
    have hlt : n < (buf.drop start).length := by rw [List.length_drop]; omega
    have hd := List.drop_eq_getElem_cons hlt
    rw [List.drop_drop] at hd
    have htake := List.take_succ_eq_append_getElem hlt
    generalize (buf.drop start)[n] = c at hd htake
    rw [htake,trimRight_concat]
    simp only [trimRound,if_pos (Nat.succ_pos n),show start+(n+1)-1 = start+n by omega,
      byteAt_of_drop hd,ok_bind]
    split
    · left
      rw [List.length_append,List.length_take]
      simp only [List.length_cons,List.length_nil]
      rw [Nat.min_eq_left (by omega)]
    · right
      exact ⟨n,rfl,by omega,Nat.lt_succ_self n,rfl⟩

abbrev rawReader : Reader (Option ℕ) (Scan ℕ) where
  onToken := fun s n t =>
    match s with
    | none => if t.type = .crlf then .inl (some n) else .inl none
    | some q => if t.type = .whitespace then .inl none else .inr (.ok n q)
  onStop := fun _ _ st => .stop st 0

/-- The trimmed value of an answer of the loop. -/
def rawOf (r : List UInt8) : Scan ℕ → Scan (List UInt8)
  | .ok len n => .ok (trimRight (r.take len)) n
  | .stop st n => .stop st n

/-- Where the loop of `match_raw_value` has read `n` bytes, as the model says it. -/
inductive RawAt (s : Scanner) (n : ℕ) : RawState → Option ℕ → Prop
  | value (pos : ℕ) : RawAt s n ⟨false,pos,n,s.advance n⟩ none
  | crlf (q : ℕ) (hq : q ≤ n) : RawAt s n ⟨true,s.cursor+q,n,s.advance n⟩ (some q)

/-- The state of the model at a state of the loop. -/
def rawSeen (s : Scanner) (x : RawState) : Option ℕ :=
  if x.sawCrlf then some (x.posAtCrlf-s.cursor) else none

theorem RawAt.seen {n : ℕ} {x : RawState} {o : Option ℕ} (h : RawAt s n x o) :
    x.length = n ∧ x.scanner = s.advance n ∧ rawSeen s x = o := by
  cases h with
  | value pos => exact ⟨rfl,rfl,rfl⟩
  | crlf q hq => exact ⟨rfl,rfl,by simp [rawSeen]⟩

theorem matchRawValue_eq (hs : s.cursor ≤ s.msg.length) (hf : s.msg.length < fuel) :
    matchRawValue fuel s = .ok (Got.of s (Http.matchRawValue s.entireMsgLoaded s.rest)) := by
  have h0 : Http.matchRawValue s.entireMsgLoaded s.rest =
      rawOf s.rest (readAt s rawReader (rawSeen s ⟨false,0,0,s⟩) s) := by
    have hseen : rawSeen s ⟨false,0,0,s⟩ = none := rfl
    have hlen : rawValueLength s.entireMsgLoaded s.rest =
        readTokens s.entireMsgLoaded rawReader none s.rest := rfl
    rw [hseen,readAt_start,Http.matchRawValue,hlen]
    cases readTokens s.entireMsgLoaded rawReader none s.rest <;> rfl
  rw [h0]
  refine rounds_bind (I := fun x => ∃ n o, RawAt s n x o ∧ s.cursor+n ≤ s.msg.length)
    (μ := fun x => x.scanner.rest.length)
    (f := fun x => Got.of s (rawOf s.rest (readAt s rawReader (rawSeen s x) x.scanner))) ?_
    ⟨0,none,.value 0,hs⟩ (by simp only [Scanner.rest_length]; omega)
  rintro x ⟨n,o,hx,hn⟩
  have hstop : ∀ st, (s.advance n).seek s.cursor >>= (fun s' =>
      (Except.ok (.inr (.stop st s')) : Except Fault (RawState ⊕ Got ℕ))) =
        .ok (.inr (.stop st s)) := by
    intro st
    rw [seek_start hs,ok_bind]
  rw [hx.seen.2.1,hx.seen.2.2]
  rcases scannerGetToken_cases hn hf with ⟨t,k,ht,hg,hk,hl,hle⟩ | ⟨st,k,ht,hg⟩
  · cases hx with
    | value pos =>
      right
      by_cases hc : t.type = .crlf
      · refine ⟨⟨true,s.cursor+n,n+k,s.advance (n+k)⟩,?_,
          ⟨n+k,some n,.crlf n (by omega),hle⟩,rest_advance_lt hk hle,?_⟩
        · simp [rawRound,hg,if_pos hc,hl,back_advance hle,Scanner.advance_cursor]
        · rw [(RawAt.crlf n (Nat.le_add_right n k)).seen.2.2,
            readAt_token ht (x := none) (by simp only [if_pos hc])]
      · refine ⟨⟨false,pos,n+k,s.advance (n+k)⟩,?_,⟨n+k,none,.value pos,hle⟩,
          rest_advance_lt hk hle,?_⟩
        · simp [rawRound,hg,if_neg hc,hl]
        · rw [(RawAt.value pos).seen.2.2,
            readAt_token ht (x := none) (by simp only [if_neg hc])]
    | crlf q hq =>
      by_cases hw : t.type = .whitespace
      · right
        refine ⟨⟨false,s.cursor+q,n+k,s.advance (n+k)⟩,?_,⟨n+k,none,.value _,hle⟩,
          rest_advance_lt hk hle,?_⟩
        · simp [rawRound,hg,if_pos hw,hl]
        · rw [(RawAt.value _).seen.2.2,
            readAt_token ht (x := some q) (by simp only [if_pos hw])]
      · left
        refine ⟨.ok n (s.advance q),?_,?_⟩
        · simp [rawRound,hg,if_neg hw,seek_advance (s := s) (n := n+k) (k := q) (by omega)]
        · rw [readAt_leave ht (x := some q) (a := .ok n q) (by simp only [if_neg hw])]
          simp only [trim_rounds hn (show n < fuel by omega),ok_bind]
          rcases take_trimRight s.rest n with ⟨hv,htake⟩
          rw [← Scanner.rest,slice_rest (by omega),ok_bind,htake]
          rfl
  · left
    refine ⟨.stop st s,?_,?_⟩
    · simp only [rawRound,hx.seen.2.1,hg,ok_bind,hstop]
    · rw [readAt_stop ht]
      rfl

theorem matchInt_eq {base : ℕ} (hs : s.cursor ≤ s.msg.length) (hf : s.msg.length < fuel) :
    matchInt fuel base s =
      .ok ((Http.matchInt s.entireMsgLoaded base s.rest).1,
        Got.of s (Http.matchInt s.entireMsgLoaded base s.rest).2) := by
  rcases scannerGetToken_cases (n := 0) hs hf with ⟨t,k,ht,hg,hk,hl,hle⟩ | ⟨st,k,ht,hg⟩
  · simp only [List.drop_zero,Scanner.advance_zero,Nat.zero_add] at ht hg
    simp only [matchInt,hg,ok_bind,Http.matchInt,ht,stringAt_of_le hs,seek_start hs,hl]
    split
    · rw [← Scanner.rest]
      split <;> rfl
    · rfl
  · simp only [List.drop_zero,Scanner.advance_zero] at ht hg
    simp only [matchInt,hg,ok_bind,Http.matchInt,ht,Scanner.seek_of_le hs]
    rfl

theorem matchChar_eq {c : UInt8} {cs : Bool} :
    matchChar c cs s = .ok (Got.of s (Http.matchChar c cs s.rest)) := by
  cases hr : s.rest with
  | nil =>
    have hl := congrArg List.length hr
    rw [Scanner.rest_length,List.length_nil] at hl
    rw [matchChar,if_pos (by omega)]
    rfl
  | cons d ds =>
    rcases rest_cons hr with ⟨-,hlen⟩
    rw [matchChar,if_neg (by omega),byteAt_of_drop hr,ok_bind,
      Scanner.seek_of_le (by omega),ok_bind]
    by_cases hc : if cs then c = d else toLower c = toLower d
    · simp only [Http.matchChar,if_pos hc]
      rfl
    · simp only [Http.matchChar,if_neg hc]
      rfl

theorem expectToken_eq {type : TokenType} (hs : s.cursor ≤ s.msg.length)
    (hf : s.msg.length < fuel) :
    expectToken fuel type s =
      .ok (Got.of s (Http.expectToken s.entireMsgLoaded type s.rest)) := by
  simp only [expectToken,scannerGetToken_eq hs hf,ok_bind,Http.expectToken]
  cases Http.scannerGetToken s.entireMsgLoaded s.rest with
  | stop st n => rfl
  | ok t n =>
    simp only [Got.of]
    split <;> rfl

theorem store_textOf {r : List UInt8} {a : Scan Unit} {pos : ℕ} :
    (Got.of s (textOf r a)).store (fun v => [.text pos v]) =
      ((a.store fun _ k => [.text pos (r.take k)]).1,
        Got.of s (a.store fun _ k => [.text pos (r.take k)]).2) := by
  cases a <;> rfl

@[simp] theorem store_of {α : Type} {a : Scan α} {f : α → List MatchVal} :
    (Got.of s a).store f =
      ((a.store fun x _ => f x).1,Got.of s (a.store fun x _ => f x).2) := by
  cases a <;> rfl

theorem directive_eq (savePos : ℕ) (cs : Bool) (d : Directive) (hs : s.cursor ≤ s.msg.length)
    (hf : s.msg.length < fuel) :
    directive fuel savePos cs s d =
      .ok ((Http.directive s.entireMsgLoaded cs (s.cursor-savePos) s.rest d).1,
        Got.of s (Http.directive s.entireMsgLoaded cs (s.cursor-savePos) s.rest d).2) := by
  cases d with
  | raw =>
    simp [directive,matchRawValue_eq hs hf,Http.directive]
  | ident => simp only [directive,expectToken_eq hs hf,ok_bind,store_of,Http.directive]
  | quoted => simp only [directive,expectToken_eq hs hf,ok_bind,store_of,Http.directive]
  | crlf => simp only [directive,expectToken_eq hs hf,ok_bind,store_of,Http.directive]
  | ws => simp only [directive,expectToken_eq hs hf,ok_bind,store_of,Http.directive]
  | num base => simp only [directive,matchInt_eq hs hf,ok_bind,Http.directive]
  | nonWs => simp only [directive,matchNonWsString_eq hs hf,ok_bind,store_textOf,Http.directive]
  | line => simp only [directive,readUntilCrlf_eq hs hf,ok_bind,store_textOf,Http.directive]
  | char c => simp only [directive,matchChar_eq,ok_bind,Http.directive]
  | caseSensitive on => rfl
  | optWs =>
    rcases scannerGetToken_cases (n := 0) hs hf with ⟨t,k,ht,hg,hk,hl,hle⟩ | ⟨st,k,ht,hg⟩
    · have hb := back_advance hle
      simp only [List.drop_zero,Scanner.advance_zero] at ht hg hb
      simp only [directive,hg,ok_bind,Http.directive,ht,hl,hb]
      split
      · simp only [Nat.zero_add]
        rfl
      · rfl
    · have hk := scannerGetToken_stop ht
      simp only [List.drop_zero,Scanner.advance_zero] at ht hg
      simp only [directive,hg,ok_bind,Http.directive,ht,hk]
      rfl
  | endMsg =>
    cases hr : s.rest with
    | nil =>
      have hl := congrArg List.length hr
      rw [Scanner.rest_length,List.length_nil] at hl
      have he : s.cursor = s.msg.length := by omega
      have hb : byteAt s.msg s.cursor = .ok 0 := by
        rw [byteAt,if_pos hs,he,List.getD_eq_getElem?_getD,List.getElem?_eq_none (Nat.le_refl _)]
        rfl
      simp only [directive,if_pos he,hb,ok_bind,if_true]
      rfl
    | cons c cs =>
      rcases rest_cons hr with ⟨-,hlen⟩
      simp only [directive]
      rw [if_neg (by omega)]
      rfl
  | lws => simp only [directive,skipLws_eq hs hf,ok_bind,Http.directive]

/-- A match goes through as the model says, and the cursor moves as far or stays. -/
theorem vfmatchFrom_eq {savePos : ℕ} (hp : savePos ≤ s.msg.length) (hf : s.msg.length < fuel)
    (fmt : List Directive) (cs : Bool) {n : ℕ} (hn : savePos+n ≤ s.msg.length) :
    vfmatchFrom fuel savePos fmt cs { s with cursor := savePos+n } =
      .ok ((Http.vfmatchFrom s.entireMsgLoaded fmt cs n (s.msg.drop (savePos+n))).status,
        (Http.vfmatchFrom s.entireMsgLoaded fmt cs n (s.msg.drop (savePos+n))).vals,
        { s with
          cursor := savePos+
            (Http.vfmatchFrom s.entireMsgLoaded fmt cs n (s.msg.drop (savePos+n))).used }) := by
  induction fmt generalizing cs n with
  | nil => rfl
  | cons d ds ih =>
    have hd := directive_eq (s := { s with cursor := savePos+n }) savePos cs d hn hf
    simp only [Nat.add_sub_cancel_left,Scanner.rest] at hd
    have hb := directive_bounded s.entireMsgLoaded cs n (s.msg.drop (savePos+n)) d
    simp only [vfmatchFrom,hd,ok_bind,Http.vfmatchFrom]
    cases hr : Http.directive s.entireMsgLoaded cs n (s.msg.drop (savePos+n)) d with
    | mk vs a =>
      rw [hr] at hb
      cases a with
      | ok u k =>
        simp only [Scan.used,List.length_drop] at hb
        have hi := ih (nextCase cs d) (n := n+k) (by omega)
        simp [Got.of,Scanner.advance,Nat.add_assoc,hi]
      | stop st k =>
        have hk := Scanner.seek_of_le (s := { s with cursor := savePos+n+k }) hp
        simp only [Got.of,Scanner.advance,hk,ok_bind]
        rfl

theorem vfmatch_eq (fmt : List Directive) (hs : s.cursor ≤ s.msg.length)
    (hf : s.msg.length < fuel) :
    vfmatch fuel fmt s =
      .ok ((Http.vfmatch s.entireMsgLoaded fmt s.rest).status,
        (Http.vfmatch s.entireMsgLoaded fmt s.rest).vals,
        s.advance (Http.vfmatch s.entireMsgLoaded fmt s.rest).used) :=
  vfmatchFrom_eq hs hf fmt true (n := 0) hs

end Checked
end Http
end CtrlPt
