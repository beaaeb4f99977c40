import CtrlPt.CText

/-! The scanner of `httpparser.c`. A routine is given the bytes from the cursor to
the terminating NUL and answers with the number of bytes it moves the cursor by;
`loaded` is the scanner's `entire_msg_loaded`. -/
namespace CtrlPt
namespace Http

open CText

inductive ParseStatus
  | success | incomplete | incompleteEntity | failure | ok | noMatch | continue1
  deriving DecidableEq, Repr

inductive TokenType
  | identifier | whitespace | crlf | ctrl | separator | quotedString
  deriving DecidableEq, Repr

structure Token where
  text : List UInt8
  type : TokenType
  deriving DecidableEq, Repr

/-- The statuses a scanning routine returns when it is not `PARSE_OK`. -/
inductive StopStatus
  | incomplete | failure | noMatch
  deriving DecidableEq, Repr

def StopStatus.status : StopStatus → ParseStatus
  | .incomplete => .incomplete
  | .failure => .failure
  | .noMatch => .noMatch

/-- `PARSE_OK` with a value, or another status; `n` is how far the cursor has moved. -/
inductive Scan (α : Type)
  | ok (a : α) (n : ℕ)
  | stop (st : StopStatus) (n : ℕ)
  deriving DecidableEq, Repr

def cr : UInt8 := 13
def lf : UInt8 := 10

def separators : List UInt8 := cstr " \t()<>@,;:\\\"/[]?=\x7b\x7d"

/-- `strchr` also finds the terminator, so NUL is a separator. -/
def isSeparatorChar (c : UInt8) : Bool := strchr separators c

def isIdentifierChar (c : UInt8) : Bool :=
  decide (32 ≤ charInt c ∧ charInt c ≤ 126) && !isSeparatorChar c

def isControlChar (c : UInt8) : Bool :=
  decide ((0 ≤ charInt c ∧ charInt c ≤ 31) ∨ charInt c = 127)

def isQdtextChar (c : UInt8) : Bool :=
  decide ((32 ≤ charInt c ∧ charInt c ≠ 127) ∨ charInt c < 0) || c == cr || c == lf || c == 9

def isBlank (c : UInt8) : Bool := c == 32 || c == 9

/-- The loop over a quoted string, `n` bytes of which have been read. -/
def quotedEnd : ℕ → List UInt8 → Scan Unit
  | _, [] => .stop .incomplete 0
  | n, c::cs =>
    if c = 34 then .ok () (n+1)
    else if c = 92 then
      match cs with
      | [] => .stop .incomplete 0
      -- the byte after a backslash may be any octet
      | _::ds => quotedEnd (n+2) ds
    else if isQdtextChar c then quotedEnd (n+1) cs
    else .stop .failure 0

/-- A run of the bytes that satisfy `p`, which may go on while the buffer is not complete. -/
def scanRun (loaded : Bool) (p : UInt8 → Bool) (type : TokenType) (c : UInt8) (cs : List UInt8) :
    Scan Token :=
  let more := cs.takeWhile p
  if !loaded && more.length == cs.length then .stop .incomplete 0
  else .ok ⟨c::more,type⟩ (more.length+1)

def scannerGetToken (loaded : Bool) : List UInt8 → Scan Token
  | [] => .stop .incomplete 0
  | c::cs =>
    if isIdentifierChar c then scanRun loaded isIdentifierChar .identifier c cs
    else if isBlank c then scanRun loaded isBlank .whitespace c cs
    else if c = cr then
      match cs with
      | [] => .stop .incomplete 0
      | d::_ => if d = lf then .ok ⟨[c,d],.crlf⟩ 2 else .ok ⟨[c],.ctrl⟩ 1
    else if c = lf then .ok ⟨[c],.crlf⟩ 1
    else if c = 34 then
      match quotedEnd 1 cs with
      | .ok _ n => .ok ⟨(c::cs).take n,.quotedString⟩ n
      | .stop st _ => .stop st 0
    else if isSeparatorChar c then .ok ⟨[c],.separator⟩ 1
    else if isControlChar c then .ok ⟨[c],.ctrl⟩ 1
    else .stop .failure 0

/-- What a routine does with each token and with a status that is not `PARSE_OK`;
the number is the position of the cursor before the token. -/
structure Reader (σ α : Type) where
  onToken : σ → ℕ → Token → σ ⊕ α
  onStop : σ → ℕ → StopStatus → α

def readRound {σ α : Type} (loaded : Bool) (f : Reader σ α) (x : σ × ℕ × List UInt8) :
    (σ × ℕ × List UInt8) ⊕ α :=
  match scannerGetToken loaded x.2.2 with
  | .ok t n =>
    match f.onToken x.1 x.2.1 t with
    | .inl s => .inl (s,x.2.1+n,x.2.2.drop n)
    | .inr a => .inr a
  | .stop st _ => .inr (f.onStop x.1 x.2.1 st)

def readFrom {σ α : Type} (loaded : Bool) (f : Reader σ α) (x : σ × ℕ × List UInt8) : α :=
  Loop.run (fun y => y.2.2.length) (readRound loaded f) (fun y => f.onStop y.1 y.2.1 .failure) x

def readTokens {σ α : Type} (loaded : Bool) (f : Reader σ α) (s : σ) (r : List UInt8) : α :=
  readFrom loaded f (s,0,r)

/-- On `PARSE_INCOMPLETE` the blank tokens already read stay consumed. -/
def skipBlankLines (loaded : Bool) (r : List UInt8) : Scan Unit :=
  readTokens loaded
    { onToken := fun s n t =>
        if t.type = .whitespace ∨ t.type = .crlf then .inl s else .inr (.ok () n)
      onStop := fun _ n st => .stop st n } () r

/-- The state is `save_pos` and whether a CRLF has been read since. -/
def skipLws (loaded : Bool) (r : List UInt8) : Scan Unit :=
  readTokens loaded
    { onToken := fun s n t =>
        if t.type = .whitespace then .inl (n+t.text.length,false)
        else if t.type = .crlf ∧ s.2 = false then .inl (s.1,true)
        else .inr (.ok () s.1)
      onStop := fun s _ st =>
        if st = .incomplete ∧ loaded = true then .ok () s.1 else .stop st s.1 }
    ((0,false) : ℕ × Bool) r

/-- `%S`; the string is what the cursor moves over. -/
def matchNonWsString (loaded : Bool) (r : List UInt8) : Scan Unit :=
  let finish (n : ℕ) : Scan Unit := if n = 0 then .stop .noMatch 0 else .ok () n
  readTokens loaded
    { onToken := fun s n t =>
        if t.type = .whitespace ∨ t.type = .crlf then .inr (finish n) else .inl s
      onStop := fun _ n st =>
        if st = .incomplete ∧ loaded = true then finish n else .stop st 0 } () r

/-- White space and line breaks at the right end of a raw value are trimmed. -/
def trimRight (v : List UInt8) : List UInt8 :=
  (v.reverse.dropWhile fun c => c == 32 || c == 9 || c == cr || c == lf).reverse

/-- The loop of `%R`. The state is `pos_at_crlf` once a CRLF that could end the value
has been read; the cursor is left there and the value is the untrimmed length. -/
def rawValueLength (loaded : Bool) (r : List UInt8) : Scan ℕ :=
  readTokens loaded
    { onToken := fun s n t =>
        match s with
        | none => if t.type = .crlf then .inl (some n) else .inl none
        | some q => if t.type = .whitespace then .inl none else .inr (.ok n q)
      onStop := fun _ _ st => .stop st 0 } (none : Option ℕ) r

def matchRawValue (loaded : Bool) (r : List UInt8) : Scan (List UInt8) :=
  match rawValueLength loaded r with
  | .ok len n => .ok (trimRight (r.take len)) n
  | .stop st n => .stop st n

/-- `%L`; the string is what the cursor moves over, and the CRLF is not consumed. -/
def readUntilCrlf (loaded : Bool) (r : List UInt8) : Scan Unit :=
  readTokens loaded
    { onToken := fun s n t => if t.type = .crlf then .inr (.ok () n) else .inl s
      onStop := fun _ n st => .stop st n } () r

/-- `%d` and `%x`: the integer is stored even when the token is then rejected. -/
def matchInt (loaded : Bool) (base : ℕ) (r : List UInt8) : Option ℤ × Scan Unit :=
  match scannerGetToken loaded r with
  | .ok t n =>
    if t.type = .identifier then
      let num := strtol base r
      if num.value < 0 ∨ num.used ≠ n ∨
          ((num.value = longMin ∨ num.value = longMax) ∧ num.erange = true) then
        (some (toInt num.value),.stop .noMatch 0)
      else (some (toInt num.value),.ok () n)
    else (none,.stop .noMatch 0)
  | .stop st _ => (none,.stop st 0)

def matchChar (c : UInt8) (caseSensitive : Bool) : List UInt8 → Scan Unit
  | [] => .stop .incomplete 0
  | d::_ =>
    if (if caseSensitive then c = d else toLower c = toLower d) then .ok () 1
    else .stop .noMatch 1

end Http
end CtrlPt
