import CtrlPt.Http.Parser

/-! The download of `httpreadwrite.c`: what `http_OpenHttpGetProxy` does once the request
has been sent, and `http_ReadHttpGet`. -/
namespace CtrlPt
namespace Http

open CText

def upnpUsingChunked : ℤ := -3
def upnpUntilClose : ℤ := -4

/-- The size of the buffer that is handed to `sock_read`. -/
def tempbufSize : ℕ := 2*1024

/-- What one `sock_read` gives: some bytes, or an error code. -/
inductive SockRead
  | data (bytes : List UInt8) (pos : 0 < bytes.length) (fits : bytes.length ≤ tempbufSize)
  | error (code : ℤ) (neg : code < 0)

def SockRead.bytes : SockRead → List UInt8
  | .data x _ _ => x
  | .error _ _ => []

/-- The reads to come on a connection; behind the last of them it is closed. -/
abbrev SockInfo := List SockRead

/-- The bytes that are still to come. -/
def sockBytes (s : SockInfo) : List UInt8 := s.flatMap SockRead.bytes

@[simp] theorem sockBytes_nil : sockBytes [] = [] := rfl

@[simp] theorem sockBytes_data (x : List UInt8) (hp : 0 < x.length) (hf : x.length ≤ tempbufSize)
    (s : SockInfo) : sockBytes (.data x hp hf::s) = x++sockBytes s := rfl

@[simp] theorem sockBytes_error (c : ℤ) (hc : c < 0) (s : SockInfo) :
    sockBytes (.error c hc::s) = sockBytes s := rfl

structure HttpGetHandle where
  sockInfo : SockInfo
  response : HttpParser
  cancel : Bool

/-- What `ReadResponseLineAndHeaders` returns: a parse status or an error code. -/
inductive HeadStatus
  | parsed (st : ParseStatus)
  | failed (code : ℤ)
  deriving DecidableEq, Repr

/-- Parse one part of the head, reading more bytes as long as it is incomplete. -/
def readPart (parse : HttpParser → ParseStatus × HttpParser) :
    SockInfo → HttpParser → HeadStatus × HttpParser × SockInfo
  | [], p =>
    let r := parse p
    if r.1 = .incomplete then (.failed upnpEBadHttpmsg,r.2,[]) else (.parsed r.1,r.2,[])
  | read::sock, p =>
    let r := parse p
    if r.1 = .incomplete then
      match read with
      | .data x _ _ => readPart parse sock (r.2.append x)
      | .error code _ => (.failed code,r.2,sock)
    else (.parsed r.1,r.2,read::sock)

/-- The headers are done on `PARSE_OK`, which leaves the parser at the entity. -/
def readResponseLineAndHeaders (sock : SockInfo) (p : HttpParser) :
    HeadStatus × HttpParser × SockInfo :=
  match readPart parserParseResponseline sock p with
  | (.parsed .ok,q,s) => readPart parserParseHeaders s q
  | r => r

structure OpenResult where
  code : ℤ
  handle : HttpGetHandle
  contentType : Option (List UInt8)
  contentLength : ℤ
  httpStatus : ℤ

/-- What the caller is told of the length of the entity. -/
def announcedLength (p : HttpParser) : ℤ :=
  if p.position = .complete then 0
  else
    match p.entPosition with
    | .usingChunked => upnpUsingChunked
    | .usingClen => toInt p.contentLength
    | .untilClose => upnpUntilClose
    | _ => 0

def httpOpenHttpGet (sock : SockInfo) : OpenResult :=
  match readResponseLineAndHeaders sock (parserResponseInit .get) with
  | (.parsed .ok,p,s) =>
    let r := parserGetEntityReadMethod p
    if r.1 = .continue1 ∨ r.1 = .success then
      ⟨upnpESuccess,⟨s,r.2,false⟩,findHdr r.2.msg.headers .contentType,announcedLength r.2,
        r.2.msg.statusCode⟩
    else ⟨upnpEBadResponse,⟨s,r.2,false⟩,none,0,0⟩
  | (_,p,s) => ⟨upnpEBadResponse,⟨s,p,false⟩,none,0,0⟩

/-- The switch on the status of `parser_parse_entity`: whether the entity may end with the
connection, or `none` for an error. -/
def entitySwitch (okOnClose : Bool) : ParseStatus → Option Bool
  | .incompleteEntity => some true
  | .success | .continue1 | .incomplete => some okOnClose
  | _ => none

/-- One round of the loop of `http_ReadHttpGet`, on `ok_on_close` and the handle. It leaves
with `none`, or with the code to return. -/
def readMoreRound (size : ℕ) (x : Bool × HttpGetHandle) :
    (Bool × HttpGetHandle) ⊕ (Option ℤ × HttpGetHandle) :=
  let h := x.2
  let p := h.response
  if p.msg.entity.length < sizeAdd p.msg.amountDiscarded size ∧ h.cancel = false ∧
      p.position ≠ .complete then
    match h.sockInfo with
    | .data b _ _::sock =>
      let r := parserParseEntity (p.append b)
      let h := { h with sockInfo := sock, response := r.2 }
      match entitySwitch x.1 r.1 with
      | some ok => .inl (ok,h)
      | none => .inr (some upnpEBadResponse,h)
    | .error code _::sock => .inr (some code,{ h with sockInfo := sock })
    | [] =>
      if x.1 then .inl (x.1,{ h with response := { p with position := .complete } })
      else .inr
        (some upnpEBadHttpmsg,{ h with response := { p with httpErrorCode := httpBadRequest } })
  else .inr (none,h)

/-- Two for every read to come, and one more until the message is complete. -/
def readMoreMeasure (x : Bool × HttpGetHandle) : ℕ :=
  2*x.2.sockInfo.length + if x.2.response.position = .complete then 0 else 1

def readMore (size : ℕ) (x : Bool × HttpGetHandle) : Option ℤ × HttpGetHandle :=
  Loop.run readMoreMeasure (readMoreRound size) (fun y => (none,y.2)) x

structure ReadResult where
  code : ℤ
  size : ℕ
  buf : List UInt8
  deriving DecidableEq, Repr

def HttpParser.discard (p : HttpParser) (n : ℕ) : HttpParser :=
  { p with
    msg := { p.msg with
      msg := p.msg.msg.take p.entityStartPosition ++ p.msg.msg.drop (p.entityStartPosition+n)
      amountDiscarded := sizeAdd p.msg.amountDiscarded n }
    cursor := sizeSub p.cursor n }

/-- The end of `http_ReadHttpGet`: at most what is available is copied out. -/
def copyOut (h : HttpGetHandle) (size : ℕ) : ReadResult × HttpGetHandle :=
  let p := h.response
  let size :=
    if p.msg.entity.length < sizeAdd p.msg.amountDiscarded size then
      sizeSub p.msg.entity.length p.msg.amountDiscarded
    else size
  if 0 < size then
    (⟨upnpESuccess,size,(p.msg.msg.drop p.entityStartPosition).take size⟩,
      { h with response := p.discard size })
  else (⟨upnpESuccess,size,[]⟩,h)

/-- What has already been gotten is parsed first, unless the message is complete. -/
def parseGotten (p : HttpParser) : ParseStatus × HttpParser :=
  if p.position = .complete then (.success,p) else parserParseEntity p

def httpReadHttpGet (h : HttpGetHandle) (size : ℕ) : ReadResult × HttpGetHandle :=
  let r := parseGotten h.response
  let h := { h with response := r.2 }
  match entitySwitch false r.1 with
  | none => (⟨upnpEBadResponse,0,[]⟩,h)
  | some ok =>
    match readMore size (ok,h) with
    | (some code,h) => (⟨code,0,[]⟩,h)
    | (none,h) => if h.cancel then (⟨upnpECanceled,size,[]⟩,h) else copyOut h size

def readCalls (h : HttpGetHandle) : List ℕ → List ReadResult × HttpGetHandle
  | [] => ([],h)
  | n::ns =>
    let r := httpReadHttpGet h n
    let rs := readCalls r.2 ns
    (r.1::rs.1,rs.2)

/-- The bytes copied out by the calls that return `UPNP_E_SUCCESS`. -/
def delivered (rs : List ReadResult) : List UInt8 :=
  rs.flatMap fun r => if r.code = upnpESuccess then r.buf else []

end Http
end CtrlPt
