import CtrlPt.Http.Match
import CtrlPt.Http.Message
import CtrlPt.Uri

/-! The parser of `httpparser.c`. Each function takes the parser and returns its status
with the parser it leaves. Allocation succeeds, so the sizes of what is in memory do not
wrap around and are natural numbers. -/
namespace CtrlPt
namespace Http

open CText Uri

inductive ParserPos
  | requestLine | responseLine | headers | entity | complete
  deriving DecidableEq, Repr

/-- The `ENTREAD_` constants. -/
inductive EntPosition
  | determineReadMethod | usingClen | usingChunked | untilClose | chunkyBody | chunkyHeaders
  deriving DecidableEq, Repr

/-- The entity is a `memptr` into the buffer: its offset there and its length. -/
structure Entity where
  buf : ℕ
  length : ℕ
  deriving DecidableEq, Repr

structure HttpMessage where
  isRequest : Bool
  method : HttpMethod
  uri : UriType
  urlbuf : List UInt8
  requestMethod : HttpMethod
  majorVersion : ℤ
  minorVersion : ℤ
  statusCode : ℤ
  statusMsg : List UInt8
  amountDiscarded : ℕ
  headers : List HttpHeader
  entity : Entity
  msg : List UInt8
  deriving DecidableEq, Repr

/-- `cursor` is the scanner's; `entire_msg_loaded` is false throughout. -/
structure HttpParser where
  msg : HttpMessage
  httpErrorCode : ℕ
  validSsdpNotifyHack : Bool
  position : ParserPos
  entPosition : EntPosition
  contentLength : ℕ
  chunkSize : ℕ
  entityStartPosition : ℕ
  cursor : ℕ
  deriving DecidableEq, Repr

def httpBadRequest : ℕ := 400
def httpLengthRequired : ℕ := 411
def httpNotImplemented : ℕ := 501
def httpVersionNotSupported : ℕ := 505

/-- A cleared message; zero is `HTTPMETHOD_POST`. -/
def httpmsgInit : HttpMessage where
  isRequest := false
  method := .post
  uri := UriType.cleared
  urlbuf := []
  requestMethod := .post
  majorVersion := 0
  minorVersion := 0
  statusCode := 0
  statusMsg := []
  amountDiscarded := 0
  headers := []
  entity := ⟨0,0⟩
  msg := []

def parserInit : HttpParser where
  msg := httpmsgInit
  httpErrorCode := httpBadRequest
  validSsdpNotifyHack := false
  position := .requestLine
  entPosition := .determineReadMethod
  contentLength := 0
  chunkSize := 0
  entityStartPosition := 0
  cursor := 0

def parserRequestInit : HttpParser :=
  { parserInit with msg := { httpmsgInit with isRequest := true }, position := .requestLine }

def parserResponseInit (requestMethod : HttpMethod) : HttpParser :=
  { parserInit with
    msg := { httpmsgInit with requestMethod := requestMethod }, position := .responseLine }

namespace HttpParser

def rest (p : HttpParser) : List UInt8 := p.msg.msg.drop p.cursor

def advance (p : HttpParser) (n : ℕ) : HttpParser := { p with cursor := p.cursor+n }

def append (p : HttpParser) (x : List UInt8) : HttpParser :=
  { p with msg := { p.msg with msg := p.msg.msg++x } }

/-- `membuffer_delete` from `pos` up to the cursor, which goes back to `pos`. -/
def deleteTo (p : HttpParser) (pos : ℕ) : HttpParser :=
  { p with
    msg := { p.msg with msg := p.msg.msg.take pos ++ p.msg.msg.drop p.cursor }
    cursor := pos }

def setEntity (p : HttpParser) (e : Entity) : HttpParser :=
  { p with msg := { p.msg with entity := e } }

@[simp] theorem append_msg (p : HttpParser) (x : List UInt8) :
    (p.append x).msg.msg = p.msg.msg++x := rfl

@[simp] theorem append_cursor (p : HttpParser) (x : List UInt8) :
    (p.append x).cursor = p.cursor := rfl

@[simp] theorem append_position (p : HttpParser) (x : List UInt8) :
    (p.append x).position = p.position := rfl

@[simp] theorem append_entPosition (p : HttpParser) (x : List UInt8) :
    (p.append x).entPosition = p.entPosition := rfl

@[simp] theorem append_chunkSize (p : HttpParser) (x : List UInt8) :
    (p.append x).chunkSize = p.chunkSize := rfl

section Fields

variable (p : HttpParser) (n pos : ℕ) (e : Entity)

@[simp] theorem advance_msg : (p.advance n).msg = p.msg := rfl

@[simp] theorem advance_cursor : (p.advance n).cursor = p.cursor+n := rfl

@[simp] theorem advance_position : (p.advance n).position = p.position := rfl

@[simp] theorem advance_entPosition : (p.advance n).entPosition = p.entPosition := rfl

@[simp] theorem advance_chunkSize : (p.advance n).chunkSize = p.chunkSize := rfl

@[simp] theorem advance_entityStartPosition :
    (p.advance n).entityStartPosition = p.entityStartPosition := rfl

@[simp] theorem deleteTo_msg :
    (p.deleteTo pos).msg.msg = p.msg.msg.take pos++p.msg.msg.drop p.cursor := rfl

@[simp] theorem deleteTo_entity : (p.deleteTo pos).msg.entity = p.msg.entity := rfl

@[simp] theorem deleteTo_cursor : (p.deleteTo pos).cursor = pos := rfl

@[simp] theorem deleteTo_position : (p.deleteTo pos).position = p.position := rfl

@[simp] theorem deleteTo_entPosition : (p.deleteTo pos).entPosition = p.entPosition := rfl

@[simp] theorem deleteTo_chunkSize : (p.deleteTo pos).chunkSize = p.chunkSize := rfl

@[simp] theorem deleteTo_entityStartPosition :
    (p.deleteTo pos).entityStartPosition = p.entityStartPosition := rfl

@[simp] theorem setEntity_msg : (p.setEntity e).msg.msg = p.msg.msg := rfl

@[simp] theorem setEntity_entity : (p.setEntity e).msg.entity = e := rfl

@[simp] theorem setEntity_cursor : (p.setEntity e).cursor = p.cursor := rfl

@[simp] theorem setEntity_position : (p.setEntity e).position = p.position := rfl

@[simp] theorem setEntity_entPosition : (p.setEntity e).entPosition = p.entPosition := rfl

@[simp] theorem setEntity_chunkSize : (p.setEntity e).chunkSize = p.chunkSize := rfl

@[simp] theorem setEntity_entityStartPosition :
    (p.setEntity e).entityStartPosition = p.entityStartPosition := rfl

end Fields

@[simp] theorem append_nil (p : HttpParser) : p.append [] = p := by
  simp [append]

@[simp] theorem append_append (p : HttpParser) (x y : List UInt8) :
    (p.append x).append y = p.append (x++y) := by
  simp [append]

@[simp] theorem advance_append (p : HttpParser) (n : ℕ) (x : List UInt8) :
    (p.append x).advance n = (p.advance n).append x := rfl

@[simp] theorem advance_advance (p : HttpParser) (n k : ℕ) :
    (p.advance n).advance k = p.advance (n+k) := by
  simp [advance,Nat.add_assoc]

@[simp] theorem rest_advance (p : HttpParser) (n : ℕ) : (p.advance n).rest = p.rest.drop n := by
  simp [rest,advance]

theorem rest_length (p : HttpParser) : p.rest.length = p.msg.msg.length-p.cursor := by
  simp [rest]

theorem rest_append {p : HttpParser} (h : p.cursor ≤ p.msg.msg.length) (x : List UInt8) :
    (p.append x).rest = p.rest++x := List.drop_append_of_le_length h

theorem deleteTo_append {p : HttpParser} (h : p.cursor ≤ p.msg.msg.length) {pos : ℕ}
    (hp : pos ≤ p.msg.msg.length) (x : List UInt8) :
    (p.append x).deleteTo pos = (p.deleteTo pos).append x := by
  simp [append,deleteTo,List.drop_append_of_le_length h,List.take_append_of_le_length hp]

theorem deleteTo_rest (p : HttpParser) (pos : ℕ) (h : pos ≤ p.msg.msg.length) :
    (p.deleteTo pos).rest = p.rest := by
  simp only [deleteTo,rest]
  rw [List.drop_append_of_le_length (by rw [List.length_take]; omega),List.drop_take]
  simp

end HttpParser

/-- `"%d . %d"` -/
def versionScan : List ScanItem := [.int,.space,.lit 46,.space,.int]

/-- `"%d . %d %d"` -/
def statusScan : List ScanItem := versionScan ++ [.space,.int]

/-- Both start lines begin with `skip_blank_lines`, which keeps what it has skipped. -/
def afterBlankLines (line : HttpParser → ParseStatus × HttpParser) (p : HttpParser) :
    ParseStatus × HttpParser :=
  match skipBlankLines false p.rest with
  | .stop st n => (st.status,p.advance n)
  | .ok _ n => line (p.advance n)

/-- The URL and the version of a request line are stored before they are judged. -/
def requestLine (res : Resolver) (p : HttpParser) : ParseStatus × HttpParser :=
  let simple := scannerMatch simpleGetFmt p.rest
  if simple.status = .ok then
    let p := p.advance simple.used
    let url := (simple.textAt 1).2
    match lookupName (simple.textAt 0).2 httpMethodTable true with
    | none => (.failure,{ p with httpErrorCode := httpNotImplemented })
    | some id =>
      if id ≠ .get then (.failure,{ p with httpErrorCode := httpBadRequest })
      else
        let p := { p with msg := { p.msg with method := .simpleGet, urlbuf := url } }
        match parseUri res url url.length with
        | .error _ => (.failure,p)
        | .ok uri =>
          (.success,{ p with msg := { p.msg with uri := uri }, position := .complete })
  else
    let m := scannerMatch requestLineFmt p.rest
    if m.status ≠ .ok then (m.status,p)
    else
      let p := p.advance m.used
      let url := (m.textAt 1).2
      let p := { p with msg := { p.msg with urlbuf := url } }
      match parseUri res url url.length with
      | .error _ => (.failure,p)
      | .ok uri =>
        let p := { p with msg := { p.msg with uri := uri } }
        match lookupName (m.textAt 0).2 httpMethodTable true with
        | none => (.failure,{ p with httpErrorCode := httpNotImplemented })
        | some id =>
          let scanned := sscanf versionScan (untilNul (m.textAt 2).2)
          let major := scanned.getD 0 p.msg.majorVersion
          let minor := scanned.getD 1 p.msg.minorVersion
          let p := { p with msg := { p.msg with majorVersion := major, minorVersion := minor } }
          -- M-SEARCH is not accepted under HTTP/1.0
          if scanned.length ≠ 2 ∨ major < 0 ∨ (major = 1 ∧ minor < 1 ∧ id = .msearch) then
            (.failure,{ p with httpErrorCode := httpVersionNotSupported })
          else (.ok,{ p with msg := { p.msg with method := id }, position := .headers })

def parserParseRequestline (res : Resolver) : HttpParser → ParseStatus × HttpParser :=
  afterBlankLines (requestLine res)

def skipInt (r : List UInt8) : List UInt8 :=
  (r.dropWhile fun c => !isDigit c).dropWhile isDigit

/-- The numbers of a response line and its status message, which is searched for in
`text`, the buffer from the line on. -/
def statusLine (p : HttpParser) (line text : List UInt8) : ParseStatus × HttpParser :=
  let scanned := sscanf statusScan (untilNul line)
  let major := scanned.getD 0 p.msg.majorVersion
  let minor := scanned.getD 1 p.msg.minorVersion
  let code := scanned.getD 2 p.msg.statusCode
  let p := { p with
    msg := { p.msg with majorVersion := major, minorVersion := minor, statusCode := code } }
  if scanned.length ≠ 3 ∨ major < 0 ∨ minor < 0 ∨ code < 0 then (.failure,p)
  else
    let afterCode := skipInt (skipInt (skipInt text))
    if isBlank (afterCode.headD 0) then
      let msg := afterCode.dropWhile isBlank
      let n := line.length-(text.length-msg.length)
      (.ok,{ p with msg := { p.msg with statusMsg := msg.take n }, position := .headers })
    else (.failure,p)

def responseLine (p : HttpParser) : ParseStatus × HttpParser :=
  let m := scannerMatch responseLineFmt p.rest
  if m.status ≠ .ok then (m.status,p)
  else statusLine (p.advance m.used) (m.textAt 0).2 (p.rest.drop (m.textAt 0).1)

def parserParseResponseline : HttpParser → ParseStatus × HttpParser :=
  afterBlankLines responseLine

def addHeaderLine (p : HttpParser) (name value : List UInt8) : HttpParser :=
  let method :=
    if lookupName name httpHeaderNames false = some .soapaction then HttpMethod.soapPost
    else p.msg.method
  { p with
    msg := { p.msg with method := method, headers := addHeader p.msg.headers name value } }

/-- The empty line behind the headers; the entity of a POST is read separately. -/
def endHeaders (p : HttpParser) : ParseStatus × HttpParser :=
  if p.msg.isRequest ∧ p.msg.method = .post then (.success,{ p with position := .complete })
  else (.ok,{ p with position := .entity })

/-- One round of `parser_parse_headers`; its `PARSE_OK` leaves the loop. -/
def headerRound (p : HttpParser) : HttpParser ⊕ (ParseStatus × HttpParser) :=
  match scannerGetToken false p.rest with
  | .stop st _ => .inr (st.status,p)
  | .ok token n =>
    match token.type with
    | .crlf => .inr (endHeaders (p.advance n))
    | .identifier =>
      let m := scannerMatch headerFmt (p.advance n).rest
      if m.status ≠ .ok then .inr (m.status,p)
      else .inl (addHeaderLine ((p.advance n).advance m.used) token.text (m.textAt 0).2)
    | _ => .inr (.failure,p.advance n)

def parserParseHeaders (p : HttpParser) : ParseStatus × HttpParser :=
  Loop.run (fun q => q.rest.length) headerRound (fun q => (.failure,q)) p

def parserParseEntityUsingClen (p : HttpParser) : ParseStatus × HttpParser :=
  let len := p.msg.msg.length-p.entityStartPosition+p.msg.amountDiscarded
  if len < p.contentLength then (.incomplete,p.setEntity { p.msg.entity with length := len })
  else
    -- extra data is cut off by a NUL
    let cut := p.entityStartPosition+p.contentLength-p.msg.amountDiscarded
    let msg := if p.contentLength < len then p.msg.msg.set cut 0 else p.msg.msg
    (.success,
      { p with
        msg := { p.msg with msg := msg, entity := ⟨p.entityStartPosition,p.contentLength⟩ }
        position := .complete })

def endChunk (p : HttpParser) : HttpParser :=
  { p.setEntity { p.msg.entity with length := p.msg.entity.length+p.chunkSize } with
    entPosition := .usingChunked }

def parserParseChunkyBody (p : HttpParser) : ParseStatus × HttpParser :=
  if p.chunkSize ≤ p.msg.msg.length-p.cursor then
    let q := p.advance p.chunkSize
    let m := scannerMatch crlfFmt q.rest
    if m.status ≠ .ok then (m.status,p)
    else (.continue1,endChunk ((q.advance m.used).deleteTo q.cursor))
  else (.incomplete,p)

/-- The entity is complete, and the trailers are taken out of the buffer. -/
def endTrailers (p : HttpParser) : HttpParser :=
  { p.setEntity { p.msg.entity with buf := p.entityStartPosition } with position := .complete }

def parserParseChunkyHeaders (p : HttpParser) : ParseStatus × HttpParser :=
  match parserParseHeaders p with
  | (.ok,q) => (.success,endTrailers (q.deleteTo p.cursor))
  | (st,q) => (st,q)

/-- A number stored through an `int *` into the low half of a `size_t`. -/
def storeInt (old : ℕ) (n : ℤ) : ℕ := old/2^32*2^32 + toUInt n

/-- The size is stored whether or not the rest of the line is there. -/
def storeChunkSize (p : HttpParser) (m : Match) : HttpParser :=
  match m.intAt 0 with
  | some n => { p with chunkSize := storeInt p.chunkSize n }
  | none => p

@[simp] theorem storeChunkSize_msg (p : HttpParser) (m : Match) :
    (storeChunkSize p m).msg = p.msg := by
  unfold storeChunkSize
  split <;> rfl

@[simp] theorem storeChunkSize_entPosition (p : HttpParser) (m : Match) :
    (storeChunkSize p m).entPosition = p.entPosition := by
  unfold storeChunkSize
  split <;> rfl

@[simp] theorem storeChunkSize_cursor (p : HttpParser) (m : Match) :
    (storeChunkSize p m).cursor = p.cursor := by
  unfold storeChunkSize
  split <;> rfl

/-- A chunk of size zero is the last one. -/
def beginChunk (p : HttpParser) : HttpParser :=
  if p.chunkSize = 0 then
    let len := p.cursor-p.entityStartPosition+p.msg.amountDiscarded
    { p.setEntity { p.msg.entity with length := len } with entPosition := .chunkyHeaders }
  else { p with entPosition := .chunkyBody }

def parserParseChunkyEntity (p : HttpParser) : ParseStatus × HttpParser :=
  let m := scannerMatch chunkFmt p.rest
  let p := storeChunkSize p m
  if m.status ≠ .ok then (m.status,p)
  else (.continue1,beginChunk ((p.advance m.used).deleteTo p.cursor))

def parserParseEntityUntilClose (p : HttpParser) : ParseStatus × HttpParser :=
  let len := p.msg.msg.length-p.entityStartPosition+p.msg.amountDiscarded
  (.incompleteEntity,
    { p.setEntity ⟨p.entityStartPosition,len⟩ with cursor := p.msg.msg.length })

/-- There is no body, whatever the headers say. -/
def noBody (m : HttpMessage) : Bool :=
  if m.isRequest then [.head,.get,.subscribe,.unsubscribe,.msearch].contains m.method
  else
    m.statusCode == 204 || m.statusCode == 304 || (100 ≤ m.statusCode && m.statusCode ≤ 199) ||
      [.head,.msearch,.subscribe,.unsubscribe,.notify].contains m.requestMethod

/-- `raw_find_str` leaves the first header it is asked about in lowercase. -/
def lowerHdr (headers : List HttpHeader) (id : HdrId) : List HttpHeader :=
  match findHdrIdx headers id with
  | some i => headers.modify i fun h => { h with value := rawLower h.value }
  | none => headers

inductive ReadMethod
  | noBody | chunked | clen (length : ℕ) | lengthRequired | untilClose
  deriving DecidableEq, Repr

def readMethod (m : HttpMessage) : ReadMethod :=
  if noBody m then .noBody
  else if ((findHdr m.headers .transferEncoding).bind
      fun v => rawFindStr v (cstr "chunked")).isSome then .chunked
  else
    match findHdr m.headers .contentLength with
    | some v => .clen (toUInt (rawToInt 10 v))
    | none => if m.isRequest then .lengthRequired else .untilClose

def parserGetEntityReadMethod (p : HttpParser) : ParseStatus × HttpParser :=
  let p := { p.setEntity ⟨p.cursor,0⟩ with entityStartPosition := p.cursor }
  let q := { p with
    msg := { p.msg with headers := lowerHdr p.msg.headers .transferEncoding } }
  match readMethod p.msg with
  | .noBody => (.success,{ p with position := .complete })
  | .chunked => (.continue1,{ q with entPosition := .usingChunked })
  | .clen n => (.continue1,{ q with contentLength := n, entPosition := .usingClen })
  | .lengthRequired =>
    -- a NOTIFY without a length may be a valid SSDP message
    (.failure,
      { q with
        validSsdpNotifyHack := q.validSsdpNotifyHack || q.msg.method == .notify
        httpErrorCode := httpLengthRequired })
  | .untilClose => (.continue1,{ q with entPosition := .untilClose })

def entityStep (p : HttpParser) : ParseStatus × HttpParser :=
  match p.entPosition with
  | .usingClen => parserParseEntityUsingClen p
  | .usingChunked => parserParseChunkyEntity p
  | .chunkyBody => parserParseChunkyBody p
  | .chunkyHeaders => parserParseChunkyHeaders p
  | .untilClose => parserParseEntityUntilClose p
  | .determineReadMethod => parserGetEntityReadMethod p

/-- Unread bytes, and one more while the read method is not known. -/
def entityMeasure (p : HttpParser) : ℕ :=
  p.rest.length + if p.entPosition = .determineReadMethod then 1 else 0

def parserParseEntity (p : HttpParser) : ParseStatus × HttpParser :=
  Loop.run entityMeasure (Loop.doWhile (· == .continue1) entityStep) (fun q => (.failure,q)) p

def parserStep (res : Resolver) (p : HttpParser) : ParseStatus × HttpParser :=
  match p.position with
  | .entity => parserParseEntity p
  | .headers => parserParseHeaders p
  | .requestLine => parserParseRequestline res p
  | .responseLine => parserParseResponseline p
  | .complete => (.failure,p)

def positionMeasure (p : HttpParser) : ℕ :=
  match p.position with
  | .requestLine | .responseLine => 2
  | .headers => 1
  | .entity | .complete => 0

def parserParse (res : Resolver) (p : HttpParser) : ParseStatus × HttpParser :=
  Loop.run positionMeasure (Loop.doWhile (· == .ok) (parserStep res)) (fun q => (.failure,q)) p

def parserAppend (res : Resolver) (p : HttpParser) (x : List UInt8) : ParseStatus × HttpParser :=
  parserParse res (p.append x)

end Http
end CtrlPt
