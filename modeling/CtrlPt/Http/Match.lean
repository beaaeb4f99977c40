import CtrlPt.Http.Scanner

/-! Pattern matching on the scanner: the formats of `vfmatch` and its interpreter. -/
namespace CtrlPt
namespace Http

open CText

/-- The format letters the repository's patterns use. -/
inductive Directive
  /-- `%R` -/
  | raw
  /-- `%s` -/
  | ident
  /-- `%c` -/
  | crlf
  /-- `%d` and `%x` -/
  | num (base : ℕ)
  /-- `%S` -/
  | nonWs
  /-- `%L` -/
  | line
  /-- A literal, `%%` or `% ` -/
  | char (c : UInt8)
  /-- `%n` and `%i` -/
  | caseSensitive (on : Bool)
  /-- `%q` -/
  | quoted
  /-- `%w` -/
  | optWs
  /-- `%0` -/
  | endMsg
  /-- A space: `LWS*` -/
  | lws
  /-- A tab: white space -/
  | ws
  deriving DecidableEq, Repr

/-- What a directive stores through its pointer: a `memptr` into the buffer, given by
its offset from the start of the match, or an `int`. -/
inductive MatchVal
  | text (start : ℕ) (bytes : List UInt8)
  | int (n : ℤ)
  deriving DecidableEq, Repr

/-- `status`, what was stored, and how far the cursor has moved. -/
structure Match where
  status : ParseStatus
  vals : List MatchVal
  used : ℕ
  deriving DecidableEq, Repr

def expectToken (loaded : Bool) (type : TokenType) (r : List UInt8) : Scan Token :=
  match scannerGetToken loaded r with
  | .ok t n => if t.type = type then .ok t n else .stop .noMatch n
  | .stop st n => .stop st n

def Scan.store {α : Type} (s : Scan α) (vals : α → ℕ → List MatchVal) :
    List MatchVal × Scan Unit :=
  match s with
  | .ok a k => (vals a k,.ok () k)
  | .stop st k => ([],.stop st k)

def directive (loaded cs : Bool) (n : ℕ) (r : List UInt8) :
    Directive → List MatchVal × Scan Unit
  | .raw => (matchRawValue loaded r).store fun v _ => [.text n v]
  | .ident => (expectToken loaded .identifier r).store fun t _ => [.text n t.text]
  | .quoted => (expectToken loaded .quotedString r).store fun t _ => [.text n t.text]
  | .crlf => (expectToken loaded .crlf r).store fun _ _ => []
  | .ws => (expectToken loaded .whitespace r).store fun _ _ => []
  | .num base =>
    let m := matchInt loaded base r
    ((m.1.map MatchVal.int).toList,m.2)
  | .nonWs => (matchNonWsString loaded r).store fun _ k => [.text n (r.take k)]
  | .line => (readUntilCrlf loaded r).store fun _ k => [.text n (r.take k)]
  | .char c => ([],matchChar c cs r)
  | .caseSensitive _ => ([],.ok () 0)
  | .optWs =>
    match scannerGetToken loaded r with
    -- a token that is not white space is put back
    | .ok t k => ([],.ok () (if t.type = .whitespace then k else 0))
    | .stop st k => ([],.stop st k)
  | .endMsg => ([],if r.isEmpty then .ok () 0 else .stop .noMatch 0)
  | .lws => ([],skipLws loaded r)

/-- `%n` and `%i` set the flag the later literals are compared with. -/
def nextCase (cs : Bool) : Directive → Bool
  | .caseSensitive on => on
  | _ => cs

/-- The loop of `vfmatch`, `n` bytes into the match; on error the cursor is restored. -/
def vfmatchFrom (loaded : Bool) : List Directive → Bool → ℕ → List UInt8 → Match
  | [], _, n, _ => ⟨.ok,[],n⟩
  | d::ds, cs, n, r =>
    match directive loaded cs n r d with
    | (vs,.ok _ k) =>
      let m := vfmatchFrom loaded ds (nextCase cs d) (n+k) (r.drop k)
      ⟨m.status,vs++m.vals,m.used⟩
    | (vs,.stop st _) => ⟨st.status,vs,0⟩

def vfmatch (loaded : Bool) (fmt : List Directive) (r : List UInt8) : Match :=
  vfmatchFrom loaded fmt true 0 r

def scannerMatch (fmt : List Directive) (r : List UInt8) : Match := vfmatch false fmt r

def matchstr (str : List UInt8) (fmt : List Directive) : Match := vfmatch true fmt str

def literal (s : String) : List Directive := (cstr s).map .char

/-- The `i`-th stored value, as a string and its offset, or as an integer. -/
def Match.textAt (m : Match) (i : ℕ) : ℕ × List UInt8 :=
  match m.vals[i]? with
  | some (.text n v) => (n,v)
  | _ => (0,[])

def Match.intAt (m : Match) (i : ℕ) : Option ℤ :=
  match m.vals[i]? with
  | some (.int v) => some v
  | _ => none

/-- `"%s\t%S%w%c"` -/
def simpleGetFmt : List Directive := [.ident,.ws,.nonWs,.optWs,.crlf]

/-- `"%s\t%S\t%ihttp%w/%w%L%c"` -/
def requestLineFmt : List Directive :=
  [.ident,.ws,.nonWs,.ws,.caseSensitive false] ++ literal "http" ++
    [.optWs] ++ literal "/" ++ [.optWs,.line,.crlf]

/-- `"%ihttp%w/%w%L%c"` -/
def responseLineFmt : List Directive :=
  [.caseSensitive false] ++ literal "http" ++ [.optWs] ++ literal "/" ++ [.optWs,.line,.crlf]

/-- `" : %R%c"` -/
def headerFmt : List Directive := [.lws] ++ literal ":" ++ [.lws,.raw,.crlf]

/-- `"%c"` -/
def crlfFmt : List Directive := [.crlf]

/-- `"%x%L%c"` -/
def chunkFmt : List Directive := [.num 16,.line,.crlf]

end Http
end CtrlPt
