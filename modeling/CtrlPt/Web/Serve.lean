import CtrlPt.Http.Answers
import CtrlPt.Web.Upload

/-! The web server: `process_request`, `http_SendMessage` with a file, and what a client reads of
the answer of `web_server_callback`. -/
namespace CtrlPt
namespace Web

open CText Memory Rounds Http Soap

def httpPartialContent : ℤ := 206
def httpNotFound : ℤ := 404
def httpNotAcceptable : ℤ := 406

structure FileInfo where
  fileLength : ℤ
  lastModified : ℤ
  isDirectory : Bool
  isReadable : Bool
  deriving DecidableEq, Repr

/-- The `finfo` of a request that does not ask for a file. -/
def FileInfo.zero : FileInfo := ⟨0,0,false,false⟩

/-- How the server is set up, and what it finds under a file name: on the disk by `stat` and
`fopen`, in a virtual directory by the callbacks. A call that fails gives nothing. -/
structure WebServer where
  platform : Platform
  documentRootDir : List UInt8
  virtualDirList : List (List UInt8)
  getFileInfo : List UInt8 → Option FileInfo
  fopen : List UInt8 → Option (List UInt8)
  virtualGetInfo : List UInt8 → Option FileInfo
  virtualOpen : List UInt8 → Option (List UInt8)

/-- Both strings are without their NULs. -/
def isFileInVirtualDir (virtualDirList : List (List UInt8)) (filePath : List UInt8) : Bool :=
  virtualDirList.any fun dirName =>
    let behind := (filePath.drop dirName.length).head?
    dirName.length != 0 && filePath.take dirName.length == dirName &&
      (dirName.getLast? == some 47 || behind == none || behind == some 47 || behind == some 63)

/-- Why no file is served: a status that is sent instead, or the server does not get that far. -/
inductive ServeError
  | status (code : ℤ)
  | fault (f : Fault)
  | abort
  deriving DecidableEq, Repr

def requestedDoc (pathquery : List UInt8) : Except ServeError (List UInt8) :=
  match requestDoc pathquery with
  | .error f => .error (.fault f)
  | .ok (.inl code) => .error (.status code)
  | .ok (.inr doc) => .ok (untilNul doc)

/-- The file itself, or the index of a directory. -/
def lookUp (getInfo : List UInt8 → Option FileInfo) (filename : List UInt8) :
    Except ServeError (List UInt8 × FileInfo) := do
  let found ←
    match getInfo filename with
    | none => .error (.status httpNotFound)
    | some finfo =>
      if finfo.isDirectory then
        let filename := filename++
          if filename.getLast? = some 47 then cstr "index.html" else cstr "/index.html"
        match getInfo filename with
        | none => .error (.status httpNotFound)
        | some finfo =>
          if finfo.isDirectory then .error (.status httpNotFound) else .ok (filename,finfo)
      else .ok (filename,finfo)
  if found.2.isReadable then .ok found else .error (.status httpForbidden)

structure Found where
  filename : List UInt8
  finfo : FileInfo
  usingVirtualDir : Bool
  deriving DecidableEq, Repr

/-- Trailing slashes are removed. -/
def withoutSlashes (filename : List UInt8) : List UInt8 :=
  (filename.reverse.dropWhile (· == 47)).reverse

/-- A POST names a file that need not be there. -/
def findFile (w : WebServer) (method : HttpMethod) (requestDoc : List UInt8) :
    Except ServeError Found :=
  if isFileInVirtualDir w.virtualDirList requestDoc then
    if method ≠ .post then do
      let found ← lookUp w.virtualGetInfo requestDoc
      .ok ⟨found.1,found.2,true⟩
    else .ok ⟨requestDoc,.zero,true⟩
  else if w.documentRootDir.length = 0 then .error (.status httpInternalServerError)
  else
    let filename := withoutSlashes (w.documentRootDir++requestDoc)
    if method ≠ .post then do
      let found ← lookUp w.getFileInfo filename
      .ok ⟨found.1,found.2,false⟩
    else .ok ⟨filename,.zero,false⟩

def acceptLanguageHeaderSize : ℕ := 200

/-- One header; the code is the one of a range that is not granted. -/
def checkHeader (fileSize : ℤ) (instr : SendInstruction) (header : HttpHeader) :
    ℤ × SendInstruction :=
  let tmpBuf := untilNul header.value
  match lookupName header.name httpHeaderNames false with
  | some .te =>
    (httpOk,{ instr with
      isChunkActive := true
      isTrailers := instr.isTrailers ||
        decide (tmpBuf.length > 4) && (strStr tmpBuf (cstr "trailers")).isSome })
  | some .contentLength => (httpOk,{ instr with recvWriteSize := atoi tmpBuf })
  | some .range => createHTTPRangeResponseHeader tmpBuf fileSize instr
  | some .acceptLanguage =>
    (httpOk,{ instr with
      acceptLanguageHeader := header.value.take (acceptLanguageHeaderSize-1) })
  | _ => (httpOk,instr)

def checkOtherHTTPHeaders (fileSize : ℤ) : List HttpHeader → SendInstruction → ℤ × SendInstruction
  | [], instr => (httpOk,instr)
  | header::headers, instr =>
    let r := checkHeader fileSize instr header
    if r.1 ≠ httpOk then r else checkOtherHTTPHeaders fileSize headers r.2

def xUserAgent : List UInt8 := cstr "redsonic"

/-- What all five formats end with; there are no extra headers. -/
def formatEnd (finfo : FileInfo) : AnswerPart :=
  .plain [.D,.s,.t,.c,.S,.X,.c,.s,.C,.c]
    [.str (cstr "LAST-MODIFIED: "),.time finfo.lastModified,.str xUserAgent,.str (cstr "")]

/-- The five formats of an answer that has a file. -/
def answerFormat (instr : SendInstruction) (finfo : FileInfo) : List AnswerPart :=
  let range : FormatArg := .instr ⟨instr.rangeHeader⟩
  if instr.isRangeActive ∧ instr.isChunkActive then
    [.R httpPartialContent,.plain [.G,.K] [range],.L instr.acceptLanguageHeader,formatEnd finfo]
  else if instr.isRangeActive ∧ ¬instr.isChunkActive then
    [.R httpPartialContent,.plain [.N,.G] [.off instr.readSendSize,range],
      .L instr.acceptLanguageHeader,formatEnd finfo]
  else if ¬instr.isRangeActive ∧ instr.isChunkActive then
    [.R httpOk,.plain [.K] [],.L instr.acceptLanguageHeader,formatEnd finfo]
  else if instr.readSendSize ≥ 0 then
    [.R httpOk,.plain [.N] [.off instr.readSendSize],.L instr.acceptLanguageHeader,formatEnd finfo]
  else [.R httpOk,.L instr.acceptLanguageHeader,formatEnd finfo]

/-- `enum resp_type`, without the type of an alias: `using_alias` is never set. -/
inductive RespType
  | filedoc | headers | webdoc | post
  deriving DecidableEq, Repr

structure Reply where
  rtype : RespType
  headers : List UInt8
  filename : List UInt8
  respInstr : SendInstruction
  deriving DecidableEq, Repr

/-- The second half of `process_request`, behind the headers. -/
def makeReply (w : WebServer) (req : HttpMessage) (found : Found) (respInstr : SendInstruction) :
    Except ServeError Reply :=
  let resp := httpCalcResponseVersion req.majorVersion req.minorVersion
  if req.method = .post then .ok ⟨.post,[],found.filename,respInstr⟩
  else
    let chunked := found.usingVirtualDir ∧ found.finfo.fileLength = upnpUsingChunked
    if chunked ∧ resp ≠ (1,1) then .error (.status httpNotAcceptable)
    else
      let instr := if chunked then { respInstr with isChunkActive := true } else respInstr
      match httpMakeAnswer w.platform resp.1 resp.2 (answerFormat instr found.finfo) with
      | .error .abort => .error .abort
      | .error (.code _) => .error (.status httpInternalServerError)
      | .ok headers =>
        let rtype := if req.method = .head then RespType.headers
          else if found.usingVirtualDir then .webdoc else .filedoc
        .ok ⟨rtype,if req.method = .simpleGet then [] else headers,found.filename,instr⟩

def processRequest (w : WebServer) (req : HttpMessage) (respInstr : SendInstruction) :
    Except ServeError Reply :=
  if req.method ∉ [HttpMethod.get,.head,.post,.simpleGet] then .error .abort
  else do
    let doc ← requestedDoc req.uri.pathquery.text
    let found ← findFile w req.method doc
    let r := checkOtherHTTPHeaders found.finfo.fileLength req.headers
      { respInstr with
        isVirtualFile := respInstr.isVirtualFile || found.usingVirtualDir
        readSendSize := found.finfo.fileLength }
    if r.1 ≠ httpOk then .error (.status r.1) else makeReply w req found r.2

/-! The sender. -/

/-- A connection: what has been sent, and how many bytes more the peer takes. Behind `none` there
is no end. -/
structure Wire where
  sent : List UInt8
  room : Option ℕ
  deriving DecidableEq, Repr

/-- `sock_write`: whether all is sent. -/
def Wire.write (c : Wire) (buf : List UInt8) : Bool × Wire :=
  match c.room with
  | none => (true,⟨c.sent++buf,none⟩)
  | some n =>
    if buf.length ≤ n then (true,⟨c.sent++buf,some (n-buf.length)⟩)
    else (false,⟨c.sent++buf.take n,some 0⟩)

/-- `WEB_SERVER_BUF_SIZE` -/
def webServerBufSize : ℕ := 1024*1024

/-- A file that is read. The reads of a virtual file may give less than they are asked for; how
much less is known for the next ones. -/
structure OpenFile where
  unread : List UInt8
  cuts : List ℕ
  deriving DecidableEq, Repr

/-- What a read gives: nothing at the end of the file only. -/
def OpenFile.read (f : OpenFile) (isVirtualFile : Bool) (n : ℕ) : List UInt8 × OpenFile :=
  let m := if isVirtualFile then min n (f.cuts.headD n+1) else n
  (f.unread.take m,⟨f.unread.drop m,f.cuts.tail⟩)

/-- The variables of the loop of `http_SendMessage`. -/
structure SendState where
  amountToBeRead : ℕ
  file : OpenFile
  wire : Wire
  deriving DecidableEq, Repr

/-- A piece of the file as it is sent; no header of a chunk that is too long is. -/
def blockText (isChunkActive : Bool) (block : List UInt8) : Option (List UInt8) :=
  if isChunkActive then
    let header := printNumeral 16 block.length
    if chunkHeaderSize-2 ≤ header.length then none
    else some (header++[cr,lf]++block++[cr,lf])
  else some block

/-- What is read in one round, and the state behind it. -/
def SendState.read (s : SendState) (instr : SendInstruction) (dataBufSize : ℕ) :
    List UInt8 × SendState :=
  let n := if s.amountToBeRead ≥ dataBufSize then dataBufSize else s.amountToBeRead
  let r := s.file.read instr.isVirtualFile n
  let amount := if instr.readSendSize < 0 then dataBufSize else s.amountToBeRead-r.1.length
  (r.1,⟨amount,r.2,s.wire⟩)

/-- One round of the loop, or the return value. A write that fails is no error. -/
def sendRound (instr : SendInstruction) (dataBufSize : ℕ) (s : SendState) :
    SendState ⊕ (ℤ × Wire) :=
  if s.amountToBeRead = 0 then .inr (upnpESuccess,s.wire)
  else
    let r := s.read instr dataBufSize
    if r.1.length = 0 then
      if instr.isChunkActive then .inr (upnpESuccess,(s.wire.write (cstr "0\r\n\r\n")).2)
      else .inr (upnpEFileReadError,s.wire)
    else
      match blockText instr.isChunkActive r.1 with
      | none => .inr (upnpEInternalError,s.wire)
      | some text =>
        let c := s.wire.write text
        if c.1 then .inl { r.2 with wire := c.2 } else .inr (upnpESuccess,c.2)

def sendFile (instr : SendInstruction) (dataBufSize : ℕ) (s : SendState) : ℤ × Wire :=
  Loop.run (fun s => s.file.unread.length) (sendRound instr dataBufSize)
    (fun s => (upnpEInternalError,s.wire)) s

/-- `http_SendMessage` with the format `Ibf`. -/
def httpSendFile (w : WebServer) (cuts : List ℕ) (instr : SendInstruction)
    (headers filename : List UInt8) (c : Wire) : ℤ × Wire :=
  let amount := if instr.readSendSize ≥ 0 then instr.readSendSize.toNat else webServerBufSize
  let dataBufSize := if amount < webServerBufSize then amount else webServerBufSize
  let sent := c.write headers
  if sent.1 then
    match (if instr.isVirtualFile then w.virtualOpen filename else w.fopen filename) with
    | none => (upnpEFileReadError,sent.2)
    | some content =>
      if instr.isRangeActive ∧ instr.rangeOffset < 0 then (upnpEFileReadError,sent.2)
      else
        let start := if instr.isRangeActive then instr.rangeOffset.toNat else 0
        sendFile instr dataBufSize ⟨amount,⟨content.drop start,cuts⟩,sent.2⟩
  else (upnpESuccess,sent.2)

/-- What a POST brings: the parser that has read its head, the reads of its body, and the files that
it can be written to, by their names, on the disk or in a virtual directory. -/
structure Body where
  parser : HttpParser
  sockInfo : SockInfo
  opens : Bool → List UInt8 → Bool
  write : Bool → List UInt8 → List (List UInt8) → List UInt8 → ℤ

def Body.destination (body : Body) (isVirtualFile : Bool) (filename : List UInt8) : Destination :=
  ⟨isVirtualFile,body.opens isVirtualFile filename,body.write isVirtualFile filename⟩

/-- What the callback leaves behind: the connection, and what has become of the body of a POST. -/
structure Served where
  wire : Wire
  upload : Option (ℤ × Upload)

def Served.sent (c : Wire) : Served := ⟨c,none⟩

def postAnswer (ret : ℤ) (instr : SendInstruction) : List AnswerPart :=
  [.R ret,.plain [.T] [.str (cstr "text/html")],.L instr.acceptLanguageHeader,
    .plain [.S,.X,.c,.C,.c] [.str xUserAgent]]

/-- The flags that are set before the request is looked at. -/
def freshInstruction (stack : SendInstruction) : SendInstruction :=
  { stack with
    isVirtualFile := false
    isChunkActive := false
    isRangeActive := false
    isTrailers := false
    acceptLanguageHeader := [] }

/-- Nothing is sent of an answer that cannot be made. -/
def webServerCallback (w : WebServer) (cuts : List ℕ) (stack : SendInstruction) (req : HttpMessage)
    (body : Body) (c : Wire) : Except ServeError Served :=
  match processRequest w req (freshInstruction stack) with
  | .error (.status code) =>
    match statusResponse w.platform code req.majorVersion req.minorVersion with
    | .error .abort => .error .abort
    | .error (.code _) => .ok (.sent c)
    | .ok text => .ok (.sent (c.write text).2)
  | .error e => .error e
  | .ok reply =>
    match reply.rtype with
    | .filedoc | .webdoc =>
      .ok (.sent (httpSendFile w cuts reply.respInstr reply.headers reply.filename c).2)
    | .headers => .ok (.sent (c.write reply.headers).2)
    | .post =>
      let r := httpRecvPostMessage (body.destination reply.respInstr.isVirtualFile reply.filename)
        body.parser body.sockInfo
      match httpMakeAnswer w.platform 1 1 (postAnswer r.1 reply.respInstr) with
      | .error .abort => .error .abort
      | .error (.code _) => .ok ⟨c,some r⟩
      | .ok headers => .ok ⟨(c.write headers).2,some r⟩

/-! What the headers of a request ask for. -/

def HttpHeader.isNamed (header : HttpHeader) (id : HdrId) : Bool :=
  lookupName header.name httpHeaderNames false == some id

/-- The part of a file of this size that is granted, `none` for the whole file; the status of a
range that is not granted. The last range counts. -/
def rangeAsked (fileSize : ℤ) : List HttpHeader → Option (ℤ × ℤ) → Except ℤ (Option (ℤ × ℤ))
  | [], range => .ok range
  | header::headers, range =>
    if HttpHeader.isNamed header .range then
      let spec := untilNul header.value
      match (firstRange spec).bind fun p => granted p.1 p.2 fileSize with
      | some asked => rangeAsked fileSize headers (some asked)
      | none =>
        .error (if (rangeInput spec).isNone then httpBadRequest else httpRequestRangeNotSatisfiable)
    else rangeAsked fileSize headers range

/-- An instruction that says to send this part of the file. -/
structure Instructs (fileSize : ℤ) (instr : SendInstruction) (range : Option (ℤ × ℤ)) : Prop where
  active : instr.isRangeActive = range.isSome
  size : range = none → instr.readSendSize = fileSize
  part : ∀ offset size, range = some (offset,size) →
    instr.rangeOffset = offset ∧ instr.readSendSize = size ∧
      instr.rangeHeader = contentRange offset (offset+size-1) fileSize ∧
      0 ≤ offset ∧ 0 ≤ size ∧ offset+size ≤ fileSize

theorem createHTTPRangeResponseHeader_grants (spec : List UInt8) {fileSize : ℤ}
    (h₀ : 0 ≤ fileSize) (h₁ : fileSize ≤ longMax) (instr : SendInstruction) :
    match (firstRange spec).bind fun p => granted p.1 p.2 fileSize with
    | some (offset,size) => createHTTPRangeResponseHeader spec fileSize instr =
        (httpOk,partialContent { instr with isRangeActive := true, readSendSize := fileSize }
          offset size fileSize)
    | none => (createHTTPRangeResponseHeader spec fileSize instr).1 =
        if (rangeInput spec).isNone then httpBadRequest else httpRequestRangeNotSatisfiable := by
  unfold createHTTPRangeResponseHeader firstRange
  cases rangeInput spec with
  | none => rfl
  | some ptr =>
    simp only [Int.not_lt.mpr h₀,if_false,Option.bind_some]
    cases getNextRange (some ptr) with
    | none => rfl
    | some x =>
      simp only [Option.map_some,Option.bind_some,rangeResponse_eq h₀ h₁]
      cases granted x.1.1 x.1.2 fileSize <;> rfl

theorem Instructs.partialContent {fileSize offset size : ℤ} (h₀ : 0 ≤ fileSize) {p : ℤ × ℤ}
    (hg : granted p.1 p.2 fileSize = some (offset,size)) (instr : SendInstruction) :
    Instructs fileSize (partialContent { instr with isRangeActive := true, readSendSize := fileSize }
      offset size fileSize) (some (offset,size)) := by
  refine ⟨rfl,by rintro ⟨⟩,?_⟩
  rintro _ _ ⟨⟩
  have hcases := granted_some hg
  exact ⟨rfl,rfl,rfl,by omega,by omega,by omega⟩

/-- One header keeps what the ones before it ask for, unless it is a range. -/
theorem checkHeader_other {fileSize : ℤ} {instr : SendInstruction} {range : Option (ℤ × ℤ)}
    (h : Instructs fileSize instr range) {header : HttpHeader}
    (hrange : HttpHeader.isNamed header .range = false) :
    (checkHeader fileSize instr header).1 = httpOk ∧
      Instructs fileSize (checkHeader fileSize instr header).2 range ∧
      (checkHeader fileSize instr header).2.isVirtualFile = instr.isVirtualFile ∧
      (checkHeader fileSize instr header).2.isChunkActive =
        (instr.isChunkActive || HttpHeader.isNamed header .te) := by
  unfold HttpHeader.isNamed at hrange ⊢
  unfold checkHeader
  split
  · rename_i hname
    rw [hname]
    exact ⟨rfl,⟨h.active,h.size,h.part⟩,rfl,by simp⟩
  · rename_i hname
    rw [hname]
    exact ⟨rfl,⟨h.active,h.size,h.part⟩,rfl,by simp⟩
  · rename_i hname
    rw [hname] at hrange
    cases hrange
  · rename_i hname
    rw [hname]
    exact ⟨rfl,⟨h.active,h.size,h.part⟩,rfl,by simp⟩
  · rename_i hte _ _ _
    exact ⟨rfl,h,rfl,by simpa using fun he => (hte he).elim⟩

/-- What `CheckOtherHTTPHeaders` makes of the headers. -/
theorem checkOtherHTTPHeaders_asked {fileSize : ℤ} (h₀ : 0 ≤ fileSize) (h₁ : fileSize ≤ longMax)
    (headers : List HttpHeader) {instr : SendInstruction} {range : Option (ℤ × ℤ)}
    (h : Instructs fileSize instr range) :
    match rangeAsked fileSize headers range with
    | .error code => (checkOtherHTTPHeaders fileSize headers instr).1 = code ∧
        (code = httpBadRequest ∨ code = httpRequestRangeNotSatisfiable)
    | .ok asked => (checkOtherHTTPHeaders fileSize headers instr).1 = httpOk ∧
        Instructs fileSize (checkOtherHTTPHeaders fileSize headers instr).2 asked ∧
        (checkOtherHTTPHeaders fileSize headers instr).2.isVirtualFile = instr.isVirtualFile ∧
        (checkOtherHTTPHeaders fileSize headers instr).2.isChunkActive =
          (instr.isChunkActive || headers.any fun header => HttpHeader.isNamed header .te) := by
  induction headers generalizing instr range with
  | nil => exact ⟨rfl,h,rfl,by simp [checkOtherHTTPHeaders]⟩
  | cons header headers ih =>
    simp only [rangeAsked,checkOtherHTTPHeaders]
    cases hrange : HttpHeader.isNamed header .range with
    | false =>
      rcases checkHeader_other h hrange with ⟨hok,hinstr,hvirtual,hchunk⟩
      have hrest := ih hinstr
      simp only [hok,ne_eq,not_true_eq_false,if_false,Bool.false_eq_true]
      rw [hvirtual,hchunk] at hrest
      simpa only [List.any_cons,Bool.or_assoc] using hrest
    | true =>
      have hname : lookupName header.name httpHeaderNames false = some .range := by
        simpa [HttpHeader.isNamed] using hrange
      have hcheck : checkHeader fileSize instr header =
          createHTTPRangeResponseHeader (untilNul header.value) fileSize instr := by
        simp only [checkHeader,hname]
      have hte : HttpHeader.isNamed header .te = false := by simp [HttpHeader.isNamed,hname]
      have hgrants := createHTTPRangeResponseHeader_grants (untilNul header.value) h₀ h₁ instr
      rw [← hcheck] at hgrants
      simp only [if_true]
      cases hg : (firstRange (untilNul header.value)).bind fun p => granted p.1 p.2 fileSize with
      | none =>
        rw [hg] at hgrants
        have hbad : (checkHeader fileSize instr header).1 ≠ httpOk := by
          rw [hgrants]
          split <;> decide
        simp only [ne_eq,hbad,not_false_eq_true,if_true]
        refine ⟨hgrants,?_⟩
        split
        · exact .inl rfl
        · exact .inr rfl
      | some asked =>
        rw [hg] at hgrants
        obtain ⟨p,-,hp⟩ := Option.bind_eq_some_iff.mp hg
        have hrest := ih (Instructs.partialContent h₀ hp instr)
        simp only [hgrants,ne_eq,not_true_eq_false,if_false,List.any_cons,hte,Bool.false_or]
        exact hrest

/-! The headers of an answer. -/

theorem contentRangeName_ne : cstr "CONTENT-RANGE" ≠ [] := by decide

theorem contentRangeName_chars : ∀ c ∈ cstr "CONTENT-RANGE", isIdentifierChar c = true := by decide

theorem transferEncodingName_ne : cstr "TRANSFER-ENCODING" ≠ [] := by decide

theorem transferEncodingName_chars :
    ∀ c ∈ cstr "TRANSFER-ENCODING", isIdentifierChar c = true := by decide

theorem chunked_target : ∀ c ∈ cstr "chunked", isTargetChar c = true := by decide

theorem lastModified_ne : cstr "LAST-MODIFIED" ≠ [] := by decide

theorem lastModified_chars : ∀ c ∈ cstr "LAST-MODIFIED", isIdentifierChar c = true := by decide

theorem xUserAgentName_ne : cstr "X-User-Agent" ≠ [] := by decide

theorem xUserAgentName_chars : ∀ c ∈ cstr "X-User-Agent", isIdentifierChar c = true := by decide

theorem xUserAgent_target : ∀ c ∈ xUserAgent, isTargetChar c = true := by decide

def contentRangeValue (first last total : ℤ) : List UInt8 :=
  cstr "bytes "++(printInt first++45::(printInt last++47::printInt total))

theorem printInt_plain (n : ℤ) : ∀ c ∈ printInt n, isPlainChar c = true := by
  unfold printInt
  split
  · rw [List.forall_mem_cons]
    exact ⟨by decide,printNumeral_plain _⟩
  · exact printNumeral_plain _

theorem contentRangeValue_plain (first last total : ℤ) :
    ∀ c ∈ contentRangeValue first last total, isPlainChar c = true := by
  have hname : ∀ c ∈ cstr "bytes ", isPlainChar c = true := by decide
  simp only [contentRangeValue,List.forall_mem_append,List.forall_mem_cons]
  exact ⟨hname,printInt_plain _,by decide,printInt_plain _,by decide,printInt_plain _⟩

theorem contentRangeValue_head (first last total : ℤ) :
    ∀ c ∈ (contentRangeValue first last total).head?, isBlank c = false := by
  rintro c ⟨⟩
  decide

def contentLengthField (n : ℕ) : WrittenField :=
  wordField (cstr "CONTENT-LENGTH") (printNumeral 10 n) contentLength_ne contentLength_chars
    (printNumeral_target n)

def contentRangeField (first last total : ℤ) : WrittenField :=
  plainField (cstr "CONTENT-RANGE") (contentRangeValue first last total) contentRangeName_ne
    contentRangeName_chars (contentRangeValue_plain first last total)
    (contentRangeValue_head first last total)

def chunkedField : WrittenField :=
  wordField (cstr "TRANSFER-ENCODING") (cstr "chunked") transferEncodingName_ne
    transferEncodingName_chars chunked_target

def lastModifiedField (date : Tm) : WrittenField :=
  plainField (cstr "LAST-MODIFIED") (dateText date) lastModified_ne lastModified_chars
    (dateText_plain date) (dateText_head date)

def xUserAgentField : WrittenField :=
  wordField (cstr "X-User-Agent") xUserAgent xUserAgentName_ne xUserAgentName_chars xUserAgent_target

def bodyFields (fileSize : ℤ) (isChunkActive : Bool) (range : Option (ℤ × ℤ)) : List WrittenField :=
  (if isChunkActive then []
    else [contentLengthField (range.elim fileSize Prod.snd).toNat])++
  (range.toList.map fun r => contentRangeField r.1 (r.1+r.2-1) fileSize)++
  (if isChunkActive then [chunkedField] else [])

def endFields (date modified : Tm) (info : List UInt8) (hinfo : ∀ c ∈ info, isPlainChar c = true)
    (close : List WrittenField) : List WrittenField :=
  [dateField date,lastModifiedField modified,serverField info hinfo,xUserAgentField]++close

theorem formatEnd_text {sys : Platform} (hsdk : SdkInfo (sys.getSdkInfo messageBufSize))
    {date modified : Tm} {finfo : FileInfo} (hdate : sys.gmtime sys.time = some date)
    (hmodified : sys.gmtime finfo.lastModified = some modified) (major minor : ℤ) :
    answerPart sys major minor (formatEnd finfo) =
      .ok ((endFields date modified (sdkName (sys.getSdkInfo messageBufSize)) hsdk.split.2.1
        (closeFields major minor)).flatMap WrittenField.line++[cr,lf]) := by
  have hD : ∀ args, makeLetter sys major minor (makeMessage sys major minor 2) .D args =
      .ok ((dateField date).line,args) := by
    intro args
    have hline : (dateField date).line = cstr "DATE: "++dateText date++[cr,lf] := by
      rw [List.append_assoc]
      rfl
    simp only [makeLetter,hdate,hline]
  have ht : ∀ args, makeLetter sys major minor (makeMessage sys major minor 2) .t
      (.time finfo.lastModified::args) = .ok (dateText modified,args) := by
    intro args
    simp only [makeLetter,hmodified]
  have htext : httpMakeMessage sys major minor [.D,.s,.t,.c,.S,.X,.c,.s,.C,.c]
      [.str (cstr "LAST-MODIFIED: "),.time finfo.lastModified,.str xUserAgent,.str (cstr "")] = _ :=
    makeFormat_cons (hD _) (makeFormat_cons rfl (makeFormat_cons (ht _) (makeFormat_cons rfl
      (makeFormat_cons (makeLetter_S_line hsdk major minor 1 _) (makeFormat_cons rfl
        (makeFormat_cons rfl (makeFormat_cons rfl (makeFormat_cons (makeLetter_C sys major minor _ _)
          (makeFormat_cons rfl rfl)))))))))
  have hlast : (lastModifiedField modified).line =
      untilNul (cstr "LAST-MODIFIED: ")++(dateText modified++[cr,lf]) := rfl
  have hagent : xUserAgentField.line =
      cstr "X-User-Agent: "++(untilNul xUserAgent++[cr,lf]) := by decide
  have hempty : untilNul (cstr "") = [] := by decide
  refine htext.trans (congrArg Except.ok ?_)
  simp only [endFields,List.cons_append,List.nil_append,List.flatMap_cons,hlast,hagent,hempty,
    List.append_assoc,List.append_nil]

def servedCode (range : Option (ℤ × ℤ)) : ℕ := if range.isSome then 206 else 200

def servedReason (range : Option (ℤ × ℤ)) : List UInt8 :=
  if range.isSome then cstr "Partial Content" else cstr "OK"

@[simp] theorem servedCode_text (range : Option (ℤ × ℤ)) :
    httpGetCodeText (servedCode range) = some (servedReason range) := by
  cases range with
  | none => exact (rfl : httpGetCodeText 200 = some (cstr "OK"))
  | some r => exact (rfl : httpGetCodeText 206 = some (cstr "Partial Content"))

def servedLine {major minor : ℕ} (hmajor : major < 2^31) (hminor : minor < 2^31)
    (range : Option (ℤ × ℤ)) : WrittenResponse :=
  answerLine major minor hmajor hminor (servedCode_text range)

/-- No language is ever sent. -/
@[simp] theorem answerPart_L (sys : Platform) (major minor : ℤ) (acceptLanguageHeader : List UInt8) :
    answerPart sys major minor (.L acceptLanguageHeader) = .ok [] :=
  if_neg fun h => h.2 rfl

theorem answerFormat_lead {sys : Platform} (hsdk : SdkInfo (sys.getSdkInfo messageBufSize))
    {date modified : Tm} {finfo : FileInfo} (hdate : sys.gmtime sys.time = some date)
    (hmodified : sys.gmtime finfo.lastModified = some modified) {major minor : ℕ}
    (hmajor : major < 2^31) (hminor : minor < 2^31) (range : Option (ℤ × ℤ))
    {part : AnswerPart} {lead : List WrittenField}
    (hlead : answerPart sys major minor part = .ok (lead.flatMap WrittenField.line))
    (acceptLanguageHeader : List UInt8) :
    httpMakeAnswer sys major minor
        [.R (servedCode range),part,.L acceptLanguageHeader,formatEnd finfo] =
      .ok (writtenResponse (servedLine hmajor hminor range)
        (lead++endFields date modified (sdkName (sys.getSdkInfo messageBufSize)) hsdk.split.2.1
          (closeFields major minor)) []) := by
  have hnil : httpMakeAnswer sys major minor [] = .ok [] := rfl
  rw [httpMakeAnswer_cons (answerPart_R sys hmajor hminor (servedCode_text range))
    (httpMakeAnswer_cons hlead (httpMakeAnswer_cons (answerPart_L sys major minor _)
      (httpMakeAnswer_cons (formatEnd_text hsdk hdate hmodified major minor) hnil)))]
  simp only [writtenResponse,servedLine,List.flatMap_append,List.append_assoc,List.nil_append,
    List.append_nil]

@[simp] theorem contentRangeField_line (first last total : ℤ) :
    (contentRangeField first last total).line = untilNul (contentRange first last total) := by
  have hname : (0 : UInt8) ∉ cstr "CONTENT-RANGE: bytes " := by decide
  have hint : ∀ n, (0 : UInt8) ∉ printInt n := by
    intro n
    unfold printInt
    split
    · rw [List.mem_cons,not_or]
      exact ⟨by decide,printNumeral_noNul _⟩
    · exact printNumeral_noNul _
  rw [untilNul_of_no_nul]
  · have hsplit : cstr "CONTENT-RANGE: bytes " =
        cstr "CONTENT-RANGE"++58::32::cstr "bytes " := rfl
    simp only [contentRangeField,plainField,WrittenField.line,contentRangeValue,contentRange,hsplit,
      List.append_assoc,List.cons_append,List.nil_append]
    rfl
  · simp [contentRange,hname,hint]

/-- The five formats, for a body that is counted or sent in chunks. -/
theorem answerFormat_text {sys : Platform} (hsdk : SdkInfo (sys.getSdkInfo messageBufSize))
    {date modified : Tm} {finfo : FileInfo} (hdate : sys.gmtime sys.time = some date)
    (hmodified : sys.gmtime finfo.lastModified = some modified) {major minor : ℕ}
    (hmajor : major < 2^31) (hminor : minor < 2^31) {instr : SendInstruction}
    {range : Option (ℤ × ℤ)} (hinstr : Instructs finfo.fileLength instr range)
    (hcounted : instr.isChunkActive = false → 0 ≤ finfo.fileLength) :
    httpMakeAnswer sys major minor (answerFormat instr finfo) =
      .ok (writtenResponse (servedLine hmajor hminor range)
        (bodyFields finfo.fileLength instr.isChunkActive range++
          endFields date modified (sdkName (sys.getSdkInfo messageBufSize)) hsdk.split.2.1
            (closeFields major minor)) []) := by
  have hK : chunkedField.line = cstr "TRANSFER-ENCODING: chunked\r\n" := by decide
  have hN : ∀ n : ℕ, (contentLengthField n).line =
      cstr "CONTENT-LENGTH: "++(printNumeral 10 n++[cr,lf]) := fun _ => rfl
  cases range with
  | none =>
    have hactive := hinstr.active
    have hsize := hinstr.size rfl
    cases hchunk : instr.isChunkActive with
    | true =>
      have hlead : answerPart sys major minor (.plain [.K] []) =
          .ok ((bodyFields finfo.fileLength true none).flatMap WrittenField.line) := by
        have htext : httpMakeMessage sys major minor [.K] [] = _ := makeFormat_cons rfl rfl
        simp only [answerPart,htext,bodyFields,if_true,Option.toList_none,List.map_nil,
          List.nil_append,List.flatMap_singleton,List.append_nil,hK]
      have hread := answerFormat_lead hsdk hdate hmodified hmajor hminor none hlead
        instr.acceptLanguageHeader
      simp only [answerFormat,hactive,hchunk,Option.isSome_none,Bool.false_eq_true,false_and,if_false,
        not_false_eq_true,true_and,if_true]
      exact hread
    | false =>
      obtain ⟨n,hn⟩ := Int.eq_ofNat_of_zero_le (hcounted hchunk)
      have hlead : answerPart sys major minor (.plain [.N] [.off n]) =
          .ok ((bodyFields n false none).flatMap WrittenField.line) := by
        have htext : httpMakeMessage sys major minor [.N] [.off n] = _ :=
          makeFormat_cons (makeLetter_N sys major minor 1 n []) rfl
        simp only [answerPart,htext,bodyFields,Bool.false_eq_true,if_false,Option.elim_none,
          Int.toNat_natCast,Option.toList_none,List.map_nil,List.append_nil,List.flatMap_singleton,hN]
      have hread := answerFormat_lead hsdk hdate hmodified hmajor hminor none hlead
        instr.acceptLanguageHeader
      have hpos : (n : ℤ) ≥ 0 := Int.natCast_nonneg n
      simp only [answerFormat,hactive,hchunk,Option.isSome_none,Bool.false_eq_true,false_and,if_false,
        not_false_eq_true,and_false,hsize,hn,hpos,if_true]
      exact hread
  | some r =>
    rcases r with ⟨offset,size⟩
    have hactive := hinstr.active
    rcases hinstr.part offset size rfl with ⟨-,hsize,hheader,-,hpos,-⟩
    have hG : (contentRangeField offset (offset+size-1) finfo.fileLength).line =
        untilNul instr.rangeHeader := by
      rw [hheader,contentRangeField_line]
    cases hchunk : instr.isChunkActive with
    | true =>
      have hlead : answerPart sys major minor (.plain [.G,.K] [.instr ⟨instr.rangeHeader⟩]) =
          .ok ((bodyFields finfo.fileLength true (some (offset,size))).flatMap
            WrittenField.line) := by
        have htext : httpMakeMessage sys major minor [.G,.K] [.instr ⟨instr.rangeHeader⟩] = _ :=
          makeFormat_cons rfl (makeFormat_cons rfl rfl)
        simp only [answerPart,htext,bodyFields,if_true,Option.toList_some,List.map_cons,List.map_nil,
          List.nil_append,List.cons_append,List.flatMap_cons,List.flatMap_nil,List.append_nil,hK,hG]
      have hread := answerFormat_lead hsdk hdate hmodified hmajor hminor (some (offset,size)) hlead
        instr.acceptLanguageHeader
      simp only [answerFormat,hactive,hchunk,Option.isSome_some,and_self,if_true]
      exact hread
    | false =>
      obtain ⟨n,rfl⟩ := Int.eq_ofNat_of_zero_le hpos
      have hlead : answerPart sys major minor
          (.plain [.N,.G] [.off n,.instr ⟨instr.rangeHeader⟩]) =
          .ok ((bodyFields finfo.fileLength false (some (offset,n))).flatMap
            WrittenField.line) := by
        have htext : httpMakeMessage sys major minor [.N,.G]
            [.off n,.instr ⟨instr.rangeHeader⟩] = _ :=
          makeFormat_cons (makeLetter_N sys major minor 1 n _) (makeFormat_cons rfl rfl)
        simp only [answerPart,htext,bodyFields,Bool.false_eq_true,if_false,Option.elim_some,
          Int.toNat_natCast,Option.toList_some,List.map_cons,List.map_nil,List.append_nil,
          List.cons_append,List.nil_append,List.flatMap_cons,List.flatMap_nil,hN,hG]
      have hread := answerFormat_lead hsdk hdate hmodified hmajor hminor (some (offset,(n : ℤ))) hlead
        instr.acceptLanguageHeader
      simp only [answerFormat,hactive,hchunk,Option.isSome_some,Bool.false_eq_true,and_false,if_false,
        not_false_eq_true,and_self,if_true,hsize]
      exact hread

def servedFields (fileSize : ℤ) (isChunkActive : Bool) (range : Option (ℤ × ℤ)) (date modified : Tm)
    (info : List UInt8) (hinfo : ∀ c ∈ info, isPlainChar c = true) (major minor : ℤ) :
    List WrittenField :=
  bodyFields fileSize isChunkActive range++
    endFields date modified info hinfo (closeFields major minor)

def servedNames (isChunkActive isRangeActive close : Bool) : List (List UInt8) :=
  (if isChunkActive then [] else [cstr "CONTENT-LENGTH"])++
    (if isRangeActive then [cstr "CONTENT-RANGE"] else [])++
    (if isChunkActive then [cstr "TRANSFER-ENCODING"] else [])++
    [cstr "DATE",cstr "LAST-MODIFIED",cstr "SERVER",cstr "X-User-Agent"]++
    (if close then [cstr "CONNECTION"] else [])

theorem servedFields_names (fileSize : ℤ) (isChunkActive : Bool) (range : Option (ℤ × ℤ))
    (date modified : Tm) {info : List UInt8} (hinfo : ∀ c ∈ info, isPlainChar c = true)
    (major minor : ℤ) : ∃ close,
    (servedFields fileSize isChunkActive range date modified info hinfo major minor).map
      WrittenField.name = servedNames isChunkActive range.isSome close := by
  unfold servedFields
  rcases closeFields_cases major minor with hc | hc <;> rw [hc]
  · refine ⟨false,?_⟩
    cases isChunkActive <;> cases range <;> rfl
  · refine ⟨true,?_⟩
    cases isChunkActive <;> cases range <;> rfl

theorem servedNames_distinct : ∀ isChunkActive isRangeActive close : Bool,
    ((servedNames isChunkActive isRangeActive close).map lowerName).Nodup ∧
      (∀ name ∈ servedNames isChunkActive isRangeActive close, nameIdOf name ≠ .soapaction) ∧
      ∀ name ∈ servedNames false isRangeActive close, nameIdOf name ≠ .transferEncoding := by
  decide

theorem servedFields_distinct (fileSize : ℤ) (isChunkActive : Bool) (range : Option (ℤ × ℤ))
    (date modified : Tm) {info : List UInt8} (hinfo : ∀ c ∈ info, isPlainChar c = true)
    (major minor : ℤ) :
    Distinct (servedFields fileSize isChunkActive range date modified info hinfo major minor) := by
  rcases servedFields_names fileSize isChunkActive range date modified hinfo major minor with
    ⟨close,hnames⟩
  rcases servedNames_distinct isChunkActive range.isSome close with ⟨hnodup,hplain,-⟩
  rw [← hnames] at hnodup hplain
  exact ⟨by rwa [List.map_map] at hnodup,fun f hf => hplain f.name (List.mem_map_of_mem hf)⟩

/-- The headers give the length of a body that is counted. -/
theorem servedFields_counted (fileSize : ℤ) (range : Option (ℤ × ℤ)) (date modified : Tm)
    {info : List UInt8} (hinfo : ∀ c ∈ info, isPlainChar c = true) (major minor : ℤ) :
    (∀ x ∈ (servedFields fileSize false range date modified info hinfo major minor).map
        WrittenField.header, x.nameId ≠ .transferEncoding) ∧
      findHdr ((servedFields fileSize false range date modified info hinfo major minor).map
        WrittenField.header) .contentLength =
          some (printNumeral 10 (range.elim fileSize Prod.snd).toNat) := by
  constructor
  · rcases servedFields_names fileSize false range date modified hinfo major minor with ⟨close,hnames⟩
    have hplain := (servedNames_distinct false range.isSome close).2.2
    rw [← hnames] at hplain
    intro x hx
    obtain ⟨f,hf,rfl⟩ := List.mem_map.mp hx
    exact hplain f.name (List.mem_map_of_mem hf)
  · have hid : nameIdOf (cstr "CONTENT-LENGTH") = .contentLength := by decide
    have hne : ∀ n, printNumeral 10 n ≠ [] := fun n =>
      (printNumeral_numeral (by decide) (by decide) n).ne_nil
    simp [findHdr,servedFields,bodyFields,contentLengthField,wordField,WrittenField.header,hid,
      startValue_word (hne _) (printNumeral_target _)]

/-! The sender. -/

def sentBlock (isChunkActive : Bool) (block : List UInt8) : List UInt8 :=
  if isChunkActive then chunkText block else block

theorem blockText_eq (isChunkActive : Bool) {block : List UInt8} (hne : block.length ≠ 0)
    (hlen : block.length ≤ webServerBufSize) :
    blockText isChunkActive block = some (sentBlock isChunkActive block) := by
  cases isChunkActive with
  | false => rfl
  | true =>
    have hdigits : (printNumeral 16 block.length).length ≤ 6 :=
      printNumeral_length (by decide) (by decide) (by unfold webServerBufSize at hlen; omega)
    have hlt : block.length < 2^31 := by
      unfold webServerBufSize at hlen
      omega
    have hfits : ¬chunkHeaderSize-2 ≤ (printNumeral 16 block.length).length := by
      unfold chunkHeaderSize
      omega
    simp only [blockText,sentBlock,if_true,if_neg hfits,chunkText,if_neg hne,chunkOf_eq hlt,
      List.append_assoc]

theorem SendState.read_shorter (s : SendState) (instr : SendInstruction) (dataBufSize : ℕ)
    (h : (s.read instr dataBufSize).1.length ≠ 0) :
    (s.read instr dataBufSize).2.file.unread.length < s.file.unread.length := by
  simp only [SendState.read,OpenFile.read,List.length_take,List.length_drop] at h ⊢
  omega

theorem sendRound_descends (instr : SendInstruction) (dataBufSize : ℕ) :
    Loop.Descends (fun s : SendState => s.file.unread.length) (sendRound instr dataBufSize) := by
  intro s t h
  unfold sendRound at h
  split at h
  · cases h
  dsimp only at h
  split at h
  · split at h <;> cases h
  rename_i hread
  split at h
  · cases h
  split at h
  · cases h
    exact s.read_shorter instr dataBufSize hread
  · cases h

theorem Wire.write_open {c : Wire} (h : c.room = none) (buf : List UInt8) :
    c.write buf = (true,⟨c.sent++buf,none⟩) := by
  rcases c with ⟨sent,room⟩
  cases h
  rfl

/-- A read gives the front of the file, and something unless the file is at its end. -/
theorem SendState.read_front (s : SendState) (instr : SendInstruction) {dataBufSize : ℕ}
    (hbuf : 0 < dataBufSize) (hamount : s.amountToBeRead ≠ 0) :
    ∃ m, 0 < m ∧ m ≤ s.amountToBeRead ∧ m ≤ dataBufSize ∧
      (s.read instr dataBufSize).1 = s.file.unread.take m ∧
      (s.read instr dataBufSize).2.file.unread = s.file.unread.drop m := by
  have hn : ∃ n, n = (if s.amountToBeRead ≥ dataBufSize then dataBufSize else s.amountToBeRead) ∧
      0 < n ∧ n ≤ s.amountToBeRead ∧ n ≤ dataBufSize := by
    refine ⟨_,rfl,?_⟩
    split <;> omega
  rcases hn with ⟨n,hn,hpos,hle,hle'⟩
  refine ⟨if instr.isVirtualFile then min n (s.file.cuts.headD n+1) else n,?_,?_,?_,?_,?_⟩
  · split <;> omega
  · split <;> omega
  · split <;> omega
  · simp only [SendState.read,OpenFile.read,← hn]
  · simp only [SendState.read,OpenFile.read,← hn]

/-- On a connection without an end the whole file is sent, or the part that is asked for, in pieces
that fit the buffer. The last chunk is sent only where the file is read to its end. -/
theorem sendFile_blocks (instr : SendInstruction) {dataBufSize : ℕ}
    (hmax : dataBufSize ≤ webServerBufSize) (s : SendState) (hroom : s.wire.room = none)
    (hbuf : s.amountToBeRead ≠ 0 → 0 < dataBufSize)
    (hend : instr.readSendSize < 0 → 0 < dataBufSize ∧ s.amountToBeRead = dataBufSize)
    (hcounted : 0 ≤ instr.readSendSize → s.amountToBeRead ≤ s.file.unread.length) :
    ∃ blocks : List (List UInt8), (∀ b ∈ blocks, b.length ≤ webServerBufSize) ∧
      blocks.flatten = (if instr.readSendSize < 0 then s.file.unread
        else s.file.unread.take s.amountToBeRead) ∧
      (sendFile instr dataBufSize s).2 =
        ⟨s.wire.sent++(blocks.flatMap (sentBlock instr.isChunkActive)++
          if instr.readSendSize < 0 ∧ instr.isChunkActive then cstr "0\r\n\r\n" else []),none⟩ := by
  induction hk : s.file.unread.length using Nat.strong_induction_on generalizing s with
  | _ k ih =>
    subst hk
    have hwire : s.wire = ⟨s.wire.sent,none⟩ := by rw [← hroom]
    by_cases hamount : s.amountToBeRead = 0
    · -- nothing is left to be sent
      have hpos : ¬instr.readSendSize < 0 := by
        intro hneg
        have h := hend hneg
        omega
      refine ⟨[],List.forall_mem_nil _,by simp [hpos,hamount],?_⟩
      have hround : sendRound instr dataBufSize s = .inr (upnpESuccess,s.wire) := if_pos hamount
      rw [sendFile,Loop.run_inr hround]
      simpa [hpos] using hwire
    rcases s.read_front instr (hbuf hamount) hamount with ⟨m,hm,hle,hle',hread,hrest⟩
    by_cases hempty : (s.read instr dataBufSize).1.length = 0
    · -- the end of the file
      have hnil : s.file.unread = [] := by
        rw [hread,List.length_take] at hempty
        exact List.length_eq_zero_iff.mp (by omega)
      have hneg : instr.readSendSize < 0 := by
        by_contra hpos
        have h := hcounted (by omega)
        rw [hnil] at h
        exact hamount (Nat.le_zero.mp h)
      refine ⟨[],List.forall_mem_nil _,by rw [if_pos hneg,hnil]; rfl,?_⟩
      cases hchunk : instr.isChunkActive with
      | true =>
        have hround : sendRound instr dataBufSize s =
            .inr (upnpESuccess,(s.wire.write (cstr "0\r\n\r\n")).2) := by
          simp only [sendRound,if_neg hamount,if_pos hempty,hchunk,if_true]
        rw [sendFile,Loop.run_inr hround,Wire.write_open hroom]
        simp [hneg]
      | false =>
        have hround : sendRound instr dataBufSize s = .inr (upnpEFileReadError,s.wire) := by
          simp only [sendRound,if_neg hamount,if_pos hempty,hchunk,Bool.false_eq_true,if_false]
        rw [sendFile,Loop.run_inr hround]
        simpa using hwire
    · have hlen : (s.read instr dataBufSize).1.length ≤ webServerBufSize := by
        rw [hread,List.length_take]
        omega
      have hround : sendRound instr dataBufSize s = .inl { (s.read instr dataBufSize).2 with
          wire := ⟨s.wire.sent++sentBlock instr.isChunkActive (s.read instr dataBufSize).1,none⟩ } := by
        simp only [sendRound,if_neg hamount,if_neg hempty,blockText_eq instr.isChunkActive hempty hlen,
          Wire.write_open hroom,if_true]
      have hshort := s.read_shorter instr dataBufSize hempty
      have hleft : (s.read instr dataBufSize).2.amountToBeRead =
          if instr.readSendSize < 0 then dataBufSize
          else s.amountToBeRead-(s.read instr dataBufSize).1.length := rfl
      rcases ih _ hshort { (s.read instr dataBufSize).2 with
          wire := ⟨s.wire.sent++sentBlock instr.isChunkActive (s.read instr dataBufSize).1,none⟩ }
          rfl (fun _ => hbuf hamount)
          (fun hneg => ⟨(hend hneg).1,by rw [hleft,if_pos hneg]⟩)
          (fun hpos => by
            have h := hcounted hpos
            dsimp only
            rw [hleft,if_neg (Int.not_lt.mpr hpos),hrest,hread,List.length_drop,List.length_take]
            omega) rfl with ⟨blocks,hblocks,hflat,hsent⟩
      refine ⟨(s.read instr dataBufSize).1::blocks,List.forall_mem_cons.mpr ⟨hlen,hblocks⟩,?_,?_⟩
      · rw [List.flatten_cons,hflat]
        dsimp only
        by_cases hneg : instr.readSendSize < 0
        · rw [if_pos hneg,if_pos hneg,hread,hrest,List.take_append_drop]
        · have h := hcounted (by omega)
          rw [if_neg hneg,if_neg hneg,hleft,if_neg hneg,hrest,hread,List.length_take,
            Nat.min_eq_left (by omega),← List.take_add,Nat.add_sub_cancel' hle]
      · rw [sendFile,Loop.run_inl (sendRound_descends instr dataBufSize) hround]
        refine hsent.trans ?_
        simp only [List.flatMap_cons,List.append_assoc]

/-- The bytes of a file that are asked for. -/
def filePart (content : List UInt8) : Option (ℤ × ℤ) → List UInt8
  | none => content
  | some (offset,size) => (content.drop offset.toNat).take size.toNat

/-- The file that is found, as it is opened. -/
def Found.open (w : WebServer) (found : Found) : Option (List UInt8) :=
  if found.usingVirtualDir then w.virtualOpen found.filename else w.fopen found.filename

theorem filePart_length {content : List UInt8} {instr : SendInstruction} {range : Option (ℤ × ℤ)}
    (h : Instructs content.length instr range) :
    (filePart content range).length = (range.elim (content.length : ℤ) Prod.snd).toNat := by
  cases range with
  | none => rfl
  | some r =>
    rcases r with ⟨offset,size⟩
    rcases h.part offset size rfl with ⟨-,-,-,ho,hs,hle⟩
    simp only [filePart,List.length_take,List.length_drop,Option.elim_some]
    omega

/-- The headers are sent, and behind them the part of the file that the instruction says. -/
theorem httpSendFile_part {w : WebServer} (cuts : List ℕ) {instr : SendInstruction}
    {range : Option (ℤ × ℤ)} {content : List UInt8} (hinstr : Instructs content.length instr range)
    {filename : List UInt8}
    (hopen : (if instr.isVirtualFile then w.virtualOpen filename else w.fopen filename) =
      some content) (headers : List UInt8) :
    ∃ blocks : List (List UInt8), (∀ b ∈ blocks, b.length ≤ webServerBufSize) ∧
      blocks.flatten = filePart content range ∧
      (httpSendFile w cuts instr headers filename ⟨[],none⟩).2 =
        ⟨headers++blocks.flatMap (sentBlock instr.isChunkActive),none⟩ := by
  have hactive := hinstr.active
  -- where the reading starts, and how much is read
  obtain ⟨start,amount,hstart,hamount,hpos,hpart,hle⟩ : ∃ start amount : ℕ,
      (if instr.isRangeActive then instr.rangeOffset.toNat else 0) = start ∧
      instr.readSendSize.toNat = amount ∧ 0 ≤ instr.readSendSize ∧
      (content.drop start).take amount = filePart content range ∧
      amount ≤ (content.drop start).length := by
    refine ⟨_,_,rfl,rfl,?_⟩
    cases range with
    | none =>
      have hsize := hinstr.size rfl
      rw [hactive,hsize]
      simp [filePart]
    | some r =>
      rcases r with ⟨offset,size⟩
      rcases hinstr.part offset size rfl with ⟨hoff,hsize,-,ho,hs,hle⟩
      rw [hactive,hoff,hsize,Option.isSome_some,if_pos rfl,List.length_drop]
      exact ⟨hs,rfl,by omega⟩
  have hseek : ¬(instr.isRangeActive = true ∧ instr.rangeOffset < 0) := by
    rintro ⟨ha,hneg⟩
    cases range with
    | none =>
      rw [hactive] at ha
      cases ha
    | some r =>
      rcases hinstr.part r.1 r.2 rfl with ⟨hoff,-,-,ho,-⟩
      omega
  have hneg : ¬instr.readSendSize < 0 := by omega
  have hbuf : (if amount < webServerBufSize then amount else webServerBufSize) ≤
      webServerBufSize := by split <;> omega
  have hbuf₀ : amount ≠ 0 → 0 < if amount < webServerBufSize then amount else webServerBufSize := by
    intro h
    split
    · omega
    · decide
  rcases sendFile_blocks instr hbuf ⟨amount,⟨content.drop start,cuts⟩,⟨headers,none⟩⟩ rfl hbuf₀
    (fun h => absurd h hneg) (fun _ => hle) with ⟨blocks,hblocks,hflat,hsent⟩
  refine ⟨blocks,hblocks,?_,?_⟩
  · rw [hflat,if_neg hneg]
    exact hpart
  · rw [httpSendFile,Wire.write_open rfl]
    simp only [hopen,if_neg hseek,hstart,hamount,ge_iff_le,hpos,if_true,List.nil_append]
    rw [hsent]
    simp [hneg]

/-! The callback. -/

/-- What a server needs of the system to answer with a file. -/
structure Dated (w : WebServer) (finfo : FileInfo) (date modified : Tm) : Prop where
  sdk : SdkInfo (w.platform.getSdkInfo messageBufSize)
  now : w.platform.gmtime w.platform.time = some date
  modified : w.platform.gmtime finfo.lastModified = some modified

/-- A request of a version that can be read, for a file that is found. -/
structure Finds (w : WebServer) (req : HttpMessage) (found : Found) : Prop where
  major : ∃ n : ℕ, n < 2^31 ∧ req.majorVersion = n
  minor : ∃ n : ℕ, n < 2^31 ∧ req.minorVersion = n
  file : ∃ doc, requestedDoc req.uri.pathquery.text = .ok doc ∧
    findFile w req.method doc = .ok found

theorem Finds.version {w : WebServer} {req : HttpMessage} {found : Found} (h : Finds w req found) :
    ∃ major minor : ℕ, major < 2^31 ∧ minor < 2^31 ∧
      httpCalcResponseVersion req.majorVersion req.minorVersion = ((major : ℤ),(minor : ℤ)) := by
  rcases h.major with ⟨a,ha,hmajor⟩
  rcases h.minor with ⟨b,hb,hminor⟩
  rw [hmajor,hminor]
  exact httpCalcResponseVersion_nat ha hb

theorem makeReply_found {w : WebServer} {req : HttpMessage} {found : Found}
    (hmethod : req.method = .get ∨ req.method = .head) (h₀ : 0 ≤ found.finfo.fileLength)
    {date modified : Tm} (hdated : Dated w found.finfo date modified) {major minor : ℕ}
    (hmajor : major < 2^31) (hminor : minor < 2^31)
    (hversion : httpCalcResponseVersion req.majorVersion req.minorVersion =
      ((major : ℤ),(minor : ℤ))) {instr : SendInstruction} {range : Option (ℤ × ℤ)}
    (hinstr : Instructs found.finfo.fileLength instr range) :
    makeReply w req found instr =
      .ok ⟨if req.method = .head then .headers else if found.usingVirtualDir then .webdoc
          else .filedoc,
        writtenResponse (servedLine hmajor hminor range) (servedFields found.finfo.fileLength
          instr.isChunkActive range date modified (sdkName (w.platform.getSdkInfo messageBufSize))
          hdated.sdk.split.2.1 major minor) [],
        found.filename,instr⟩ := by
  have hpost : req.method ≠ .post := by
    rcases hmethod with h | h <;> rw [h] <;> decide
  have hsimple : req.method ≠ .simpleGet := by
    rcases hmethod with h | h <;> rw [h] <;> decide
  have hchunked : ¬(found.usingVirtualDir = true ∧ found.finfo.fileLength = upnpUsingChunked) := by
    rintro ⟨-,h⟩
    rw [h] at h₀
    exact absurd h₀ (by decide)
  have hno : ¬((found.usingVirtualDir = true ∧ found.finfo.fileLength = upnpUsingChunked) ∧
      ((major : ℤ),(minor : ℤ)) ≠ (1,1)) := fun h => hchunked h.1
  have htext := answerFormat_text hdated.sdk hdated.now hdated.modified hmajor hminor hinstr
    fun _ => h₀
  simp only [makeReply,if_neg hpost,hversion,if_neg hno,if_neg hchunked,if_neg hsimple,htext,
    servedFields]

/-- `process_request`, for a GET or a HEAD of a file whose length is known. -/
theorem processRequest_found {w : WebServer} {req : HttpMessage} {found : Found}
    (hfinds : Finds w req found) (hmethod : req.method = .get ∨ req.method = .head)
    (h₀ : 0 ≤ found.finfo.fileLength) (h₁ : found.finfo.fileLength ≤ longMax) {date modified : Tm}
    (hdated : Dated w found.finfo date modified) {range : Option (ℤ × ℤ)}
    (hrange : rangeAsked found.finfo.fileLength req.headers none = .ok range)
    (stack : SendInstruction) {major minor : ℕ} (hmajor : major < 2^31) (hminor : minor < 2^31)
    (hversion : httpCalcResponseVersion req.majorVersion req.minorVersion =
      ((major : ℤ),(minor : ℤ))) :
    ∃ instr, Instructs found.finfo.fileLength instr range ∧
      instr.isVirtualFile = found.usingVirtualDir ∧
      instr.isChunkActive = req.headers.any (fun header => HttpHeader.isNamed header .te) ∧
      processRequest w req (freshInstruction stack) =
        .ok ⟨if req.method = .head then .headers else if found.usingVirtualDir then .webdoc
            else .filedoc,
          writtenResponse (servedLine hmajor hminor range) (servedFields found.finfo.fileLength
            instr.isChunkActive range date modified (sdkName (w.platform.getSdkInfo messageBufSize))
            hdated.sdk.split.2.1 major minor) [],
          found.filename,instr⟩ := by
  rcases hfinds.file with ⟨doc,hdoc,hfound⟩
  have hmem : ¬req.method ∉ [HttpMethod.get,.head,.post,.simpleGet] := by
    rcases hmethod with h | h <;> rw [h] <;> decide
  have hstart : Instructs found.finfo.fileLength { freshInstruction stack with
      isVirtualFile := (freshInstruction stack).isVirtualFile || found.usingVirtualDir
      readSendSize := found.finfo.fileLength } none :=
    ⟨rfl,fun _ => rfl,by rintro _ _ ⟨⟩⟩
  have hasked := checkOtherHTTPHeaders_asked h₀ h₁ req.headers hstart
  rw [hrange] at hasked
  rcases hasked with ⟨hok,hinstr,hvirtual,hchunk⟩
  refine ⟨_,hinstr,hvirtual,hchunk,?_⟩
  rw [← makeReply_found hmethod h₀ hdated hmajor hminor hversion hinstr]
  simp only [processRequest,if_neg hmem,hdoc,bind,Except.bind,hfound,hok,ne_eq,not_true_eq_false,
    if_false]

/-- A server with one file on the disk and one that is made up as it is read. -/
def songServer : WebServer where
  platform := datedPlatform
  documentRootDir := cstr "/www"
  virtualDirList := [cstr "/live"]
  getFileInfo f := if f = cstr "/www/song" then some ⟨5,0,false,true⟩ else none
  fopen f := if f = cstr "/www/song" then some (cstr "hello") else none
  virtualGetInfo f := if f = cstr "/live/feed" then some ⟨upnpUsingChunked,0,false,true⟩ else none
  virtualOpen f := if f = cstr "/live/feed" then some (cstr "hello") else none

def songRequest (path : List UInt8) (headers : List HttpHeader) : HttpMessage :=
  { parserRequestInit.msg with
    method := .get
    majorVersion := 1
    minorVersion := 1
    uri := { parserRequestInit.msg.uri with pathquery := ⟨none,path⟩ }
    headers := headers }

def noBody : Body := ⟨parserRequestInit,[],fun _ _ => false,fun _ _ _ _ => 0⟩

def someDate : Tm := ⟨0,0,0,1,0,70,4⟩

theorem songServer_dated (finfo : FileInfo) : Dated songServer finfo someDate someDate :=
  ⟨somePlatform_sdk,rfl,rfl⟩

theorem songRequest_finds {path doc : List UInt8} {found : Found} (headers : List HttpHeader)
    (hdoc : requestedDoc path = .ok doc) (hfound : findFile songServer .get doc = .ok found) :
    Finds songServer (songRequest path headers) found :=
  ⟨⟨1,by decide,rfl⟩,⟨1,by decide,rfl⟩,⟨doc,hdoc,hfound⟩⟩

def songFound : Found := ⟨cstr "/www/song",⟨5,0,false,true⟩,false⟩

theorem song_finds (headers : List HttpHeader) :
    Finds songServer (songRequest (cstr "/song") headers) songFound :=
  songRequest_finds headers (show requestedDoc (cstr "/song") = .ok (cstr "/song") by decide)
    (by decide)

theorem song_open : songFound.open songServer = some (cstr "hello") := rfl

/-- Whether the client says which transfer codings it takes. -/
def saysTe (req : HttpMessage) : Bool := req.headers.any fun header => HttpHeader.isNamed header .te

theorem writtenResponse_append (q : WrittenResponse) (fs : List WrittenField) (body : List UInt8) :
    writtenResponse q fs []++body = writtenResponse q fs body := by
  simp only [writtenResponse,List.append_assoc,List.nil_append]

/-- The answer on a connection without an end. -/
theorem webServerCallback_text {w : WebServer} {req : HttpMessage} {found : Found}
    (hfinds : Finds w req found) (hmethod : req.method = .get ∨ req.method = .head)
    {content : List UInt8} (hopen : found.open w = some content)
    (hlength : found.finfo.fileLength = content.length) (h₁ : found.finfo.fileLength ≤ longMax)
    {date modified : Tm} (hdated : Dated w found.finfo date modified) {range : Option (ℤ × ℤ)}
    (hrange : rangeAsked found.finfo.fileLength req.headers none = .ok range)
    (stack : SendInstruction) (cuts : List ℕ) (body : Body) {major minor : ℕ}
    (hmajor : major < 2^31) (hminor : minor < 2^31)
    (hversion : httpCalcResponseVersion req.majorVersion req.minorVersion =
      ((major : ℤ),(minor : ℤ))) :
    ∃ blocks : List (List UInt8), (∀ b ∈ blocks, b.length ≤ webServerBufSize) ∧
      blocks.flatten = filePart content range ∧
      (filePart content range).length = (range.elim found.finfo.fileLength Prod.snd).toNat ∧
      webServerCallback w cuts stack req body ⟨[],none⟩ =
        .ok (.sent ⟨writtenResponse (servedLine hmajor hminor range)
          (servedFields found.finfo.fileLength (saysTe req) range date modified
            (sdkName (w.platform.getSdkInfo messageBufSize)) hdated.sdk.split.2.1 major minor)
          (if req.method = .head then [] else blocks.flatMap (sentBlock (saysTe req))),none⟩) := by
  have h₀ : 0 ≤ found.finfo.fileLength := by
    rw [hlength]
    exact Int.natCast_nonneg _
  rcases processRequest_found hfinds hmethod h₀ h₁ hdated hrange stack hmajor hminor hversion with
    ⟨instr,hinstr,hvirtual,hchunk,hreply⟩
  have hopened : (if instr.isVirtualFile then w.virtualOpen found.filename
      else w.fopen found.filename) = some content := by
    rw [hvirtual]
    exact hopen
  have hpart := hlength ▸ hinstr
  rcases httpSendFile_part cuts hpart hopened (writtenResponse (servedLine hmajor hminor range)
    (servedFields found.finfo.fileLength instr.isChunkActive range date modified
      (sdkName (w.platform.getSdkInfo messageBufSize)) hdated.sdk.split.2.1 major minor) []) with
    ⟨blocks,hblocks,hflat,hsent⟩
  refine ⟨blocks,hblocks,hflat,?_,?_⟩
  · rw [filePart_length hpart,hlength]
  · have hte : saysTe req = instr.isChunkActive := hchunk.symm
    rw [hte]
    rcases hmethod with hget | hhead
    · have hne : req.method ≠ .head := by
        rw [hget]
        decide
      have hwire : (httpSendFile w cuts instr (writtenResponse (servedLine hmajor hminor range)
          (servedFields found.finfo.fileLength instr.isChunkActive range date modified
            (sdkName (w.platform.getSdkInfo messageBufSize)) hdated.sdk.split.2.1 major minor) [])
          found.filename ⟨[],none⟩).2 = _ := hsent.trans (by rw [writtenResponse_append])
      rw [if_neg hne] at hreply ⊢
      cases hv : found.usingVirtualDir <;> rw [hv] at hreply <;>
        simp [webServerCallback,hreply,hwire]
    · rw [if_pos hhead] at hreply ⊢
      simp only [webServerCallback,hreply]
      rfl

/-- A GET or a HEAD is answered with the file, or with the part of it that is granted, and the
client reads it whole, whatever the pieces it comes in. -/
theorem webServerCallback_served (res : Uri.Resolver) {w : WebServer} {req : HttpMessage}
    {found : Found} (hfinds : Finds w req found)
    (hmethod : req.method = .get ∨ req.method = .head) {content : List UInt8}
    (hopen : found.open w = some content) (hlength : found.finfo.fileLength = content.length)
    (hmax : found.finfo.fileLength ≤ longMax) {date modified : Tm}
    (hdated : Dated w found.finfo date modified) {range : Option (ℤ × ℤ)}
    (hrange : rangeAsked found.finfo.fileLength req.headers none = .ok range)
    (hpart : req.method = .get → (filePart content range).length < 2^32)
    (hte : saysTe req = false) (stack : SendInstruction) (cuts : List ℕ) (body : Body) :
    ∃ c q, webServerCallback w cuts stack req body ⟨[],none⟩ = .ok (.sent c) ∧
      ((q.major : ℤ),(q.minor : ℤ)) = httpCalcResponseVersion req.majorVersion req.minorVersion ∧
      q.code = servedCode range ∧ q.reason = servedReason range ∧
      AnswersWith res req.method c.sent (sizedView q req.method
        ((servedFields found.finfo.fileLength false range date modified
          (sdkName (w.platform.getSdkInfo messageBufSize)) hdated.sdk.split.2.1 q.major q.minor).map
            WrittenField.header) (filePart content range)) := by
  rcases hfinds.version with ⟨major,minor,hmajor,hminor,hversion⟩
  rcases webServerCallback_text hfinds hmethod hopen hlength hmax hdated hrange stack cuts body hmajor
    hminor hversion with ⟨blocks,-,hflat,hsize,hsent⟩
  rw [hte] at hsent
  have hdistinct := servedFields_distinct found.finfo.fileLength false range date modified
    hdated.sdk.split.2.1 major minor
  have hcounted := servedFields_counted found.finfo.fileLength range date modified
    hdated.sdk.split.2.1 major minor
  rw [← hsize] at hcounted
  refine ⟨_,servedLine hmajor hminor range,hsent,hversion.symm,rfl,rfl,?_⟩
  rcases hmethod with hget | hhead
  · have hne : req.method ≠ .head := by
      rw [hget]
      decide
    have hbody : blocks.flatMap (sentBlock false) = filePart content range := by
      rw [← hflat]
      exact (List.flatMap_id : blocks.flatMap id = blocks.flatten)
    rw [if_neg hne,hbody]
    exact answersWith_sized res _ hdistinct req.method hcounted.1 hcounted.2 (hpart hget)
  · have hno : bodyless (servedLine hmajor hminor range).code req.method = true := by
      rw [hhead]
      exact Bool.or_true _
    rw [if_pos hhead,sizedView,if_pos hno]
    exact answersWith_bodyless res _ hdistinct hno []

theorem webServerCallback_served_part : ∃ c q,
    webServerCallback songServer [] noInstruction
        (songRequest (cstr "/song") [⟨cstr "Range",.range,cstr "bytes=1-3"⟩]) noBody ⟨[],none⟩ =
      .ok (.sent c) ∧ q.code = 206 ∧
      AnswersWith Uri.Resolver.empty .get c.sent (sizedView q .get
        ((servedFields 5 false (some (1,3)) someDate someDate someSdk
          somePlatform_sdk.split.2.1 q.major q.minor).map WrittenField.header) (cstr "ell")) := by
  have hrange : rangeAsked songFound.finfo.fileLength
      [⟨cstr "Range",.range,cstr "bytes=1-3"⟩] none = .ok (some (1,3)) := rfl
  have hte : saysTe (songRequest (cstr "/song") [⟨cstr "Range",.range,cstr "bytes=1-3"⟩]) =
    false := rfl
  rcases webServerCallback_served Uri.Resolver.empty (song_finds _) (.inl rfl) song_open rfl
    (by decide) (songServer_dated _) hrange (fun _ => by decide) hte noInstruction [] noBody with
    ⟨c,q,hsent,-,hcode,-,hread⟩
  exact ⟨c,q,hsent,hcode,hread⟩

/-! Bodies in chunks. -/

/-- The headers say that the body comes in chunks. -/
theorem servedFields_chunked (fileSize : ℤ) (range : Option (ℤ × ℤ)) (date modified : Tm)
    {info : List UInt8} (hinfo : ∀ c ∈ info, isPlainChar c = true) (major minor : ℤ) :
    findHdr ((servedFields fileSize true range date modified info hinfo major minor).map
      WrittenField.header) .transferEncoding = some (cstr "chunked") := by
  have hid : nameIdOf (cstr "TRANSFER-ENCODING") = .transferEncoding := by decide
  have hrange : nameIdOf (cstr "CONTENT-RANGE") = .contentRange := by decide
  have hword : startValue (trimRight (cstr "chunked")) = cstr "chunked" := by decide
  cases range with
  | none =>
    simp [findHdr,servedFields,bodyFields,chunkedField,wordField,WrittenField.header,hid,hword]
  | some r =>
    simp [findHdr,servedFields,bodyFields,chunkedField,contentRangeField,plainField,wordField,
      WrittenField.header,hid,hrange,hword]

theorem blocks_coding {blocks : List (List UInt8)} (h : ∀ b ∈ blocks, b.length ≤ webServerBufSize) :
    WholeChunked (blocks.flatMap (sentBlock true)++cstr "0\r\n\r\n") blocks.flatten :=
  chunkCoding_whole fun b hb => Nat.lt_of_le_of_lt (h b hb) (by decide)

theorem servedLine_body {major minor : ℕ} (hmajor : major < 2^31) (hminor : minor < 2^31)
    (range : Option (ℤ × ℤ)) : bodyless (servedLine hmajor hminor range).code .get = false := by
  cases range <;> rfl

/-- A client that says which transfer codings it takes is sent a file of known length in chunks
without the last one, and waits for the end of the answer for ever. -/
theorem webServerCallback_te (res : Uri.Resolver) {w : WebServer} {req : HttpMessage} {found : Found}
    (hfinds : Finds w req found) (hmethod : req.method = .get) {content : List UInt8}
    (hopen : found.open w = some content) (hlength : found.finfo.fileLength = content.length)
    (hmax : found.finfo.fileLength ≤ longMax) {date modified : Tm}
    (hdated : Dated w found.finfo date modified) {range : Option (ℤ × ℤ)}
    (hrange : rangeAsked found.finfo.fileLength req.headers none = .ok range)
    (hte : saysTe req = true) (stack : SendInstruction) (cuts : List ℕ) (body : Body) :
    ∃ (c : Wire) (q : WrittenResponse) (blocks : List (List UInt8)),
      webServerCallback w cuts stack req body ⟨[],none⟩ = .ok (.sent c) ∧
      ((q.major : ℤ),(q.minor : ℤ)) = httpCalcResponseVersion req.majorVersion req.minorVersion ∧
      q.code = servedCode range ∧ q.reason = servedReason range ∧
      c.sent = writtenResponse q
        (servedFields found.finfo.fileLength true range date modified
          (sdkName (w.platform.getSdkInfo messageBufSize)) hdated.sdk.split.2.1 q.major q.minor)
        (blocks.flatMap chunkText) ∧
      blocks.flatten = filePart content range ∧
      ∀ pieces : List (List UInt8), pieces ≠ [] → pieces.flatten = c.sent →
        observeMessage (feedParser res (parserResponseInit .get) pieces) = (.incomplete,none) := by
  rcases hfinds.version with ⟨major,minor,hmajor,hminor,hversion⟩
  rcases webServerCallback_text hfinds (.inl hmethod) hopen hlength hmax hdated hrange stack cuts body
    hmajor hminor hversion with ⟨blocks,hblocks,hflat,-,hsent⟩
  have hne : req.method ≠ .head := by
    rw [hmethod]
    decide
  rw [hte,if_neg hne] at hsent
  refine ⟨_,servedLine hmajor hminor range,blocks,hsent,hversion.symm,rfl,rfl,rfl,hflat,
    fun pieces hpieces hp => ?_⟩
  exact (readsChunked res _ (servedFields_distinct _ _ _ _ _ _ _ _)
    (servedLine_body hmajor hminor range) (servedFields_chunked _ _ _ _ _ _ _)
    (blocks_coding hblocks) rfl hpieces hp).1 (by decide)

theorem webServerCallback_te_song : ∃ (c : Wire) (q : WrittenResponse) (blocks : List (List UInt8)),
    webServerCallback songServer [] noInstruction
        (songRequest (cstr "/song") [⟨cstr "TE",.te,cstr "trailers"⟩]) noBody ⟨[],none⟩ =
      .ok (.sent c) ∧ q.code = 200 ∧
      c.sent = writtenResponse q
        (servedFields 5 true none someDate someDate someSdk somePlatform_sdk.split.2.1
          q.major q.minor) (blocks.flatMap chunkText) ∧
      blocks.flatten = cstr "hello" ∧
      ∀ pieces : List (List UInt8), pieces ≠ [] → pieces.flatten = c.sent →
        observeMessage (feedParser Uri.Resolver.empty (parserResponseInit .get) pieces) =
          (.incomplete,none) := by
  have hrange : rangeAsked songFound.finfo.fileLength [⟨cstr "TE",.te,cstr "trailers"⟩] none =
      .ok none := rfl
  have hte : saysTe (songRequest (cstr "/song") [⟨cstr "TE",.te,cstr "trailers"⟩]) = true := rfl
  rcases webServerCallback_te Uri.Resolver.empty (song_finds _) rfl song_open rfl (by decide)
    (songServer_dated _) hrange hte noInstruction [] noBody with
    ⟨c,q,blocks,hsent,-,hcode,-,htext,hflat,hread⟩
  exact ⟨c,q,blocks,hsent,hcode,htext,hflat,hread⟩

theorem checkOtherHTTPHeaders_plain (fileSize : ℤ) {headers : List HttpHeader}
    (hplain : ∀ header ∈ headers, HttpHeader.isNamed header .range = false)
    {instr : SendInstruction} {range : Option (ℤ × ℤ)} (h : Instructs fileSize instr range) :
    (checkOtherHTTPHeaders fileSize headers instr).1 = httpOk ∧
      Instructs fileSize (checkOtherHTTPHeaders fileSize headers instr).2 range ∧
      (checkOtherHTTPHeaders fileSize headers instr).2.isVirtualFile = instr.isVirtualFile := by
  induction headers generalizing instr with
  | nil => exact ⟨rfl,h,rfl⟩
  | cons header headers ih =>
    rcases checkHeader_other h (hplain header (.head _)) with ⟨hok,hinstr,hvirtual,-⟩
    rcases ih (fun x hx => hplain x (.tail _ hx)) hinstr with ⟨hok',hinstr',hvirtual'⟩
    simp only [checkOtherHTTPHeaders,hok,ne_eq,not_true_eq_false,if_false]
    exact ⟨hok',hinstr',hvirtual'.trans hvirtual⟩

theorem one_lt_versions : 1 < 2^31 := by decide

/-- `process_request`, for a GET of a virtual file that is to be sent in chunks. -/
theorem processRequest_chunked {w : WebServer} {req : HttpMessage} {found : Found}
    (hfinds : Finds w req found) (hmethod : req.method = .get)
    (hvirtual : found.usingVirtualDir = true) (hsize : found.finfo.fileLength = upnpUsingChunked)
    {date modified : Tm} (hdated : Dated w found.finfo date modified)
    (hplain : ∀ header ∈ req.headers, HttpHeader.isNamed header .range = false)
    (stack : SendInstruction) :
    ∃ instr, Instructs upnpUsingChunked instr none ∧ instr.isVirtualFile = true ∧
      instr.isChunkActive = true ∧
      processRequest w req (freshInstruction stack) =
        if httpCalcResponseVersion req.majorVersion req.minorVersion = (1,1) then
          .ok ⟨.webdoc,writtenResponse (servedLine one_lt_versions one_lt_versions none)
            (servedFields upnpUsingChunked true none date modified
              (sdkName (w.platform.getSdkInfo messageBufSize)) hdated.sdk.split.2.1 1 1) [],
            found.filename,instr⟩
        else .error (.status httpNotAcceptable) := by
  rcases hfinds.file with ⟨doc,hdoc,hfound⟩
  have hmem : ¬req.method ∉ [HttpMethod.get,.head,.post,.simpleGet] := by
    rw [hmethod]
    decide
  have hpost : req.method ≠ .post := by
    rw [hmethod]
    decide
  have hsimple : req.method ≠ .simpleGet := by
    rw [hmethod]
    decide
  have hhead : req.method ≠ .head := by
    rw [hmethod]
    decide
  have hstart : Instructs found.finfo.fileLength { freshInstruction stack with
      isVirtualFile := (freshInstruction stack).isVirtualFile || found.usingVirtualDir
      readSendSize := found.finfo.fileLength } none :=
    ⟨rfl,fun _ => rfl,by rintro _ _ ⟨⟩⟩
  rcases checkOtherHTTPHeaders_plain found.finfo.fileLength hplain hstart with ⟨hok,hinstr,hfile⟩
  have hchunked : found.usingVirtualDir = true ∧ found.finfo.fileLength = upnpUsingChunked :=
    ⟨hvirtual,hsize⟩
  generalize hr : (checkOtherHTTPHeaders found.finfo.fileLength req.headers _).2 = r at hinstr hfile
  have hactive : Instructs found.finfo.fileLength { r with isChunkActive := true } none :=
    ⟨hinstr.active,hinstr.size,hinstr.part⟩
  refine ⟨{ r with isChunkActive := true },hsize ▸ hactive,by rw [hfile,hvirtual]; rfl,rfl,?_⟩
  have hrequest : processRequest w req (freshInstruction stack) = makeReply w req found r := by
    simp only [processRequest,if_neg hmem,hdoc,bind,Except.bind,hfound,hok,ne_eq,not_true_eq_false,
      if_false,hr]
  rw [hrequest]
  by_cases hversion : httpCalcResponseVersion req.majorVersion req.minorVersion = (1,1)
  · have htext := answerFormat_text hdated.sdk hdated.now hdated.modified one_lt_versions
      one_lt_versions hactive fun h => by cases h
    rw [hsize] at htext
    have hno : ¬((found.usingVirtualDir = true ∧ found.finfo.fileLength = upnpUsingChunked) ∧
        ((1 : ℤ),(1 : ℤ)) ≠ (1,1)) := fun h => h.2 rfl
    rw [if_pos hversion]
    simp only [Nat.cast_one] at htext
    simp only [makeReply,if_neg hpost,hversion,if_neg hno,if_pos hchunked,htext,if_neg hhead,
      if_neg hsimple,if_pos hvirtual,servedFields]
  · have hyes : (found.usingVirtualDir = true ∧ found.finfo.fileLength = upnpUsingChunked) ∧
        httpCalcResponseVersion req.majorVersion req.minorVersion ≠ (1,1) := ⟨hchunked,hversion⟩
    rw [if_neg hversion]
    simp only [makeReply,if_neg hpost,if_pos hyes]

theorem httpSendFile_chunked {w : WebServer} (cuts : List ℕ) {instr : SendInstruction}
    (hinstr : Instructs upnpUsingChunked instr none) (hvirtual : instr.isVirtualFile = true)
    (hchunk : instr.isChunkActive = true) {filename content : List UInt8}
    (hopen : w.virtualOpen filename = some content) (headers : List UInt8) :
    ∃ blocks : List (List UInt8), (∀ b ∈ blocks, b.length ≤ webServerBufSize) ∧
      blocks.flatten = content ∧
      (httpSendFile w cuts instr headers filename ⟨[],none⟩).2 =
        ⟨headers++(blocks.flatMap (sentBlock true)++cstr "0\r\n\r\n"),none⟩ := by
  have hneg : instr.readSendSize < 0 := by
    rw [hinstr.size rfl]
    decide
  have hactive : instr.isRangeActive = false := hinstr.active
  rcases sendFile_blocks instr (Nat.le_refl webServerBufSize)
    ⟨webServerBufSize,⟨content,cuts⟩,⟨headers,none⟩⟩ rfl (fun _ => by decide)
    (fun _ => ⟨by decide,rfl⟩) (fun h => absurd hneg (Int.not_lt.mpr h)) with
    ⟨blocks,hblocks,hflat,hsent⟩
  rw [if_pos hneg] at hflat
  refine ⟨blocks,hblocks,hflat,?_⟩
  have hpos : ¬instr.readSendSize ≥ 0 := Int.not_le.mpr hneg
  rw [httpSendFile,Wire.write_open rfl]
  simp only [hvirtual,hopen,hactive,hpos,Bool.false_eq_true,false_and,if_false,if_true,
    Nat.lt_irrefl,List.drop_zero,List.nil_append]
  rw [hsent,hchunk,if_pos ⟨hneg,rfl⟩]

/-! Requests that are refused. -/

/-- The codes that `process_request` leaves with. -/
def refusals : List ℤ :=
  [httpBadRequest,httpForbidden,httpNotFound,httpNotAcceptable,httpRequestRangeNotSatisfiable,
    httpInternalServerError]

theorem requestedDoc_status {pathquery : List UInt8} {code : ℤ}
    (h : requestedDoc pathquery = .error (.status code)) : code ∈ refusals := by
  unfold requestedDoc at h
  split at h
  · cases h
  · rename_i hdoc
    cases h
    rcases of_bind_ok hdoc with ⟨unescaped,-,hdoc⟩
    rcases of_bind_ok hdoc with ⟨r,-,hdoc⟩
    split at hdoc
    · cases hdoc
      decide
    · rcases of_bind_ok hdoc with ⟨c,-,hdoc⟩
      split at hdoc
      · cases hdoc
        decide
      · cases hdoc
  · cases h

theorem lookUp_status {getInfo : List UInt8 → Option FileInfo} {filename : List UInt8} {code : ℤ}
    (h : lookUp getInfo filename = .error (.status code)) : code ∈ refusals := by
  have hnotFound : httpNotFound ∈ refusals := by decide
  have hforbidden : httpForbidden ∈ refusals := by decide
  have hread : ∀ (name : List UInt8) (finfo : FileInfo),
      (if finfo.isReadable then .ok (name,finfo) else .error (.status httpForbidden) :
        Except ServeError (List UInt8 × FileInfo)) = .error (.status code) → code ∈ refusals := by
    intro name finfo h
    split at h
    · cases h
    · cases h
      exact hforbidden
  unfold lookUp at h
  simp only [bind,Except.bind] at h
  cases hg : getInfo filename with
  | none =>
    rw [hg] at h
    cases h
    exact hnotFound
  | some finfo =>
    rw [hg] at h
    by_cases hdir : finfo.isDirectory = true
    · simp only [if_pos hdir] at h
      -- the index of the directory
      split at h
      · cases h
        exact hnotFound
      · split at h
        · cases h
          exact hnotFound
        · exact hread _ _ h
    · simp only [if_neg hdir] at h
      exact hread _ _ h

theorem findFile_status {w : WebServer} {method : HttpMethod} {doc : List UInt8} {code : ℤ}
    (h : findFile w method doc = .error (.status code)) : code ∈ refusals := by
  have hpass : ∀ {getInfo : List UInt8 → Option FileInfo} {filename : List UInt8} {dir : Bool},
      (do let found ← lookUp getInfo filename; .ok ⟨found.1,found.2,dir⟩ : Except ServeError Found) =
        .error (.status code) → code ∈ refusals := by
    intro getInfo filename dir h
    cases hl : lookUp getInfo filename with
    | error e =>
      rw [hl] at h
      cases h
      exact lookUp_status hl
    | ok found =>
      rw [hl] at h
      cases h
  unfold findFile at h
  split at h
  · split at h
    · exact hpass h
    · cases h
  · split at h
    · cases h
      decide
    · dsimp only at h
      split at h
      · exact hpass h
      · cases h

theorem createHTTPRangeResponseHeader_code (spec : List UInt8) (fileSize : ℤ)
    (instr : SendInstruction) :
    (createHTTPRangeResponseHeader spec fileSize instr).1 = httpOk ∨
      (createHTTPRangeResponseHeader spec fileSize instr).1 ∈ refusals := by
  have hbad : httpBadRequest ∈ refusals := by decide
  have hrange : httpRequestRangeNotSatisfiable ∈ refusals := by decide
  have hwrite : ∀ i a b c, (writeRange i a b c).1 = httpOk ∨ (writeRange i a b c).1 ∈ refusals := by
    intro i a b c
    unfold writeRange
    dsimp only
    split
    · exact .inr (by decide)
    · exact .inl rfl
  unfold createHTTPRangeResponseHeader
  dsimp only
  split
  · exact .inr hbad
  split
  · exact .inr hrange
  split
  · exact .inr hrange
  unfold rangeResponse
  split
  · exact .inr hrange
  split
  · exact hwrite _ _ _ _
  split
  · exact hwrite _ _ _ _
  split
  · split <;> exact hwrite _ _ _ _
  · exact .inr hrange

theorem checkOtherHTTPHeaders_code (fileSize : ℤ) (headers : List HttpHeader)
    (instr : SendInstruction) : (checkOtherHTTPHeaders fileSize headers instr).1 = httpOk ∨
      (checkOtherHTTPHeaders fileSize headers instr).1 ∈ refusals := by
  induction headers generalizing instr with
  | nil => exact .inl rfl
  | cons header headers ih =>
    have hcheck : (checkHeader fileSize instr header).1 = httpOk ∨
        (checkHeader fileSize instr header).1 ∈ refusals := by
      unfold checkHeader
      split
      · exact .inl rfl
      · exact .inl rfl
      · exact createHTTPRangeResponseHeader_code _ _ _
      · exact .inl rfl
      · exact .inl rfl
    unfold checkOtherHTTPHeaders
    dsimp only
    split
    · exact hcheck
    · exact ih _

theorem makeReply_status {w : WebServer} {req : HttpMessage} {found : Found}
    {instr : SendInstruction} {code : ℤ}
    (h : makeReply w req found instr = .error (.status code)) : code ∈ refusals := by
  unfold makeReply at h
  dsimp only at h
  split at h
  · cases h
  split at h
  · cases h
    decide
  split at h
  · cases h
  · cases h
    decide
  · cases h

theorem processRequest_status {w : WebServer} {req : HttpMessage} {instr : SendInstruction}
    {code : ℤ} (h : processRequest w req instr = .error (.status code)) : code ∈ refusals := by
  unfold processRequest at h
  split at h
  · cases h
  cases hdoc : requestedDoc req.uri.pathquery.text with
  | error e =>
    rw [hdoc] at h
    cases h
    exact requestedDoc_status hdoc
  | ok doc =>
    rw [hdoc] at h
    cases hfound : findFile w req.method doc with
    | error e =>
      simp only [bind,Except.bind,hfound] at h
      cases h
      exact findFile_status hfound
    | ok found =>
      simp only [bind,Except.bind,hfound] at h
      split at h
      · rename_i hbad
        cases h
        exact (checkOtherHTTPHeaders_code _ _ _).resolve_left hbad
      · exact makeReply_status h

/-- A status is sent instead of the file. -/
theorem statusSent (res : Uri.Resolver) {w : WebServer}
    (hsdk : SdkInfo (w.platform.getSdkInfo messageBufSize)) {req : HttpMessage}
    (hmajor : ∃ n : ℕ, n < 2^31 ∧ req.majorVersion = n)
    (hminor : ∃ n : ℕ, n < 2^31 ∧ req.minorVersion = n) {stack : SendInstruction} {code : ℤ}
    (h : processRequest w req (freshInstruction stack) = .error (.status code)) (cuts : List ℕ)
    (body : Body) :
    ∃ c q text, webServerCallback w cuts stack req body ⟨[],none⟩ = .ok (.sent c) ∧
      (q.code : ℤ) = code ∧
      httpGetCodeText code = some text ∧ q.reason = text ∧
      ∀ requestMethod, AnswersWith res requestMethod c.sent (sizedView q requestMethod
        (statusHeaders q.major q.minor (sdkName (w.platform.getSdkInfo messageBufSize))
          (simpleBody code text)) (simpleBody code text)) := by
  have htexts : ∀ code ∈ refusals, 0 ≤ code ∧ (httpGetCodeText code).isSome = true := by decide
  rcases htexts code (processRequest_status h) with ⟨hpos,htext⟩
  obtain ⟨text,htext⟩ := Option.isSome_iff_exists.mp htext
  obtain ⟨n,rfl⟩ := Int.eq_ofNat_of_zero_le hpos
  rcases hmajor with ⟨a,ha,hmajor⟩
  rcases hminor with ⟨b,hb,hminor⟩
  rcases statusResponse_answers res hsdk htext ha hb with ⟨answer,q,hanswer,-,hcode,hreason,hread⟩
  rw [← hmajor,← hminor] at hanswer
  refine ⟨⟨answer,none⟩,q,text,?_,congrArg Nat.cast hcode,htext,hreason,hread⟩
  simp only [webServerCallback,h,hanswer]
  rfl

/-- A virtual file that is sent in chunks reaches a client of HTTP/1.1 whole, however much each read
of it gives; older clients are told that they cannot have it. -/
theorem webServerCallback_chunked (res : Uri.Resolver) {w : WebServer} {req : HttpMessage}
    {found : Found} (hfinds : Finds w req found) (hmethod : req.method = .get)
    (hvirtual : found.usingVirtualDir = true) (hsize : found.finfo.fileLength = upnpUsingChunked)
    {content : List UInt8} (hopen : w.virtualOpen found.filename = some content)
    {date modified : Tm} (hdated : Dated w found.finfo date modified)
    (hplain : ∀ header ∈ req.headers, HttpHeader.isNamed header .range = false)
    (stack : SendInstruction) (cuts : List ℕ) (body : Body) :
    ∃ c, webServerCallback w cuts stack req body ⟨[],none⟩ = .ok (.sent c) ∧
      ∀ pieces : List (List UInt8), pieces ≠ [] → pieces.flatten = c.sent →
        ∃ view, observeMessage (feedParser res (parserResponseInit .get) pieces) =
            (.success,some view) ∧
          if httpCalcResponseVersion req.majorVersion req.minorVersion = (1,1) then
            view.statusCode = 200 ∧ view.entityBytes = content
          else view.statusCode = 406 := by
  rcases processRequest_chunked hfinds hmethod hvirtual hsize hdated hplain stack with
    ⟨instr,hinstr,hfile,hchunk,hreply⟩
  by_cases hversion : httpCalcResponseVersion req.majorVersion req.minorVersion = (1,1)
  · rw [if_pos hversion] at hreply
    rcases httpSendFile_chunked cuts hinstr hfile hchunk hopen
      (writtenResponse (servedLine one_lt_versions one_lt_versions none)
        (servedFields upnpUsingChunked true none date modified
          (sdkName (w.platform.getSdkInfo messageBufSize)) hdated.sdk.split.2.1 1 1) []) with
      ⟨blocks,hblocks,hflat,hsent⟩
    rw [writtenResponse_append] at hsent
    refine ⟨_,by simp only [webServerCallback,hreply,hsent]; rfl,fun pieces hpieces hp => ?_⟩
    rcases (readsChunked res _ (servedFields_distinct _ _ _ _ _ _ _ _)
      (servedLine_body one_lt_versions one_lt_versions none) (servedFields_chunked _ _ _ _ _ _ _)
      (blocks_coding hblocks) (List.append_nil _) hpieces hp).2 rfl with ⟨view,hview,hbytes,hcode⟩
    refine ⟨view,hview,?_⟩
    rw [if_pos hversion]
    exact ⟨hcode,hbytes.trans hflat⟩
  · rw [if_neg hversion] at hreply
    rcases statusSent res hdated.sdk hfinds.major hfinds.minor hreply cuts body with
      ⟨c,q,text,hsent,hcode,-,-,hread⟩
    refine ⟨c,hsent,fun pieces hpieces hp => ⟨_,hread .get pieces hpieces hp,?_⟩⟩
    rw [if_neg hversion,sizedView_statusCode]
    exact hcode

theorem webServerCallback_chunked_feed : ∃ c,
    webServerCallback songServer [0,2] noInstruction (songRequest (cstr "/live/feed") []) noBody
        ⟨[],none⟩ = .ok (.sent c) ∧
      ∀ pieces : List (List UInt8), pieces ≠ [] → pieces.flatten = c.sent →
        ∃ view, observeMessage (feedParser Uri.Resolver.empty (parserResponseInit .get) pieces) =
            (.success,some view) ∧ view.statusCode = 200 ∧ view.entityBytes = cstr "hello" := by
  have hfinds : Finds songServer (songRequest (cstr "/live/feed") [])
      ⟨cstr "/live/feed",⟨upnpUsingChunked,0,false,true⟩,true⟩ :=
    songRequest_finds [] (show requestedDoc (cstr "/live/feed") = .ok (cstr "/live/feed") by
      decide) (by decide)
  have hopen : songServer.virtualOpen (cstr "/live/feed") = some (cstr "hello") := rfl
  rcases webServerCallback_chunked Uri.Resolver.empty hfinds rfl rfl rfl hopen (songServer_dated _)
    (List.forall_mem_nil _) noInstruction [0,2] noBody with ⟨c,hsent,hread⟩
  exact ⟨c,hsent,fun pieces hne hp => hread pieces hne hp⟩

/-- Whatever `process_request` refuses, one of six codes tells the client, with its text. -/
theorem webServerCallback_refused (res : Uri.Resolver) {w : WebServer} {req : HttpMessage}
    {stack : SendInstruction} {code : ℤ}
    (h : processRequest w req (freshInstruction stack) = .error (.status code)) :
    code ∈ refusals ∧
      (SdkInfo (w.platform.getSdkInfo messageBufSize) →
        (∃ n : ℕ, n < 2^31 ∧ req.majorVersion = n) → (∃ n : ℕ, n < 2^31 ∧ req.minorVersion = n) →
        ∀ cuts body, ∃ c q text,
          webServerCallback w cuts stack req body ⟨[],none⟩ = .ok (.sent c) ∧ (q.code : ℤ) = code ∧
          httpGetCodeText code = some text ∧ q.reason = text ∧
          ∀ requestMethod, AnswersWith res requestMethod c.sent (sizedView q requestMethod
            (statusHeaders q.major q.minor (sdkName (w.platform.getSdkInfo messageBufSize))
              (simpleBody code text)) (simpleBody code text))) :=
  ⟨processRequest_status h,
    fun hsdk hmajor hminor cuts body => statusSent res hsdk hmajor hminor h cuts body⟩

theorem song_missing : processRequest songServer (songRequest (cstr "/other") [])
    (freshInstruction noInstruction) = .error (.status 404) := by
  decide

theorem webServerCallback_refused_missing : ∃ c q,
    webServerCallback songServer [] noInstruction (songRequest (cstr "/other") []) noBody ⟨[],none⟩ =
      .ok (.sent c) ∧ (q.code : ℤ) = 404 ∧ q.reason = cstr "Not Found" ∧
      AnswersWith Uri.Resolver.empty .get c.sent (sizedView q .get
        (statusHeaders q.major q.minor someSdk (simpleBody 404 (cstr "Not Found")))
        (simpleBody 404 (cstr "Not Found"))) := by
  have hsdk : SdkInfo (songServer.platform.getSdkInfo messageBufSize) := somePlatform_sdk
  rcases (webServerCallback_refused Uri.Resolver.empty song_missing).2 hsdk ⟨1,by decide,rfl⟩
    ⟨1,by decide,rfl⟩ [] noBody with ⟨c,q,text,hsent,hcode,htext,hreason,hread⟩
  obtain rfl : text = cstr "Not Found" := by
    have hnotFound : httpGetCodeText 404 = some (cstr "Not Found") := rfl
    rw [hnotFound] at htext
    exact (Option.some.inj htext).symm
  exact ⟨c,q,hsent,hcode,hreason,hread .get⟩

/-! A connection that breaks. -/

/-- The second connection is the first one, broken behind `k` bytes. -/
structure CutOff (k : ℕ) (c c' : Wire) : Prop where
  whole : c.room = none
  sent : c'.sent = c.sent.take k
  room : c'.room = some (k-c.sent.length)

theorem CutOff.write {k : ℕ} {c c' : Wire} (h : CutOff k c c') (buf : List UInt8) :
    CutOff k (c.write buf).2 (c'.write buf).2 ∧
      ((c'.write buf).1 = false → k < (c.write buf).2.sent.length) := by
  rw [Wire.write_open h.whole]
  simp only [Wire.write,h.room]
  by_cases hfits : buf.length ≤ k-c.sent.length
  · rw [if_pos hfits]
    refine ⟨⟨rfl,?_,?_⟩,by rintro ⟨⟩⟩
    · rw [h.sent,List.take_append,List.take_of_length_le hfits]
    · rw [List.length_append,Nat.sub_add_eq]
  · rw [if_neg hfits]
    refine ⟨⟨rfl,?_,?_⟩,fun _ => ?_⟩
    · rw [h.sent,List.take_append]
    · have hfull : k-(c.sent++buf).length = 0 := by
        rw [List.length_append]
        omega
      rw [hfull]
    · rw [List.length_append]
      omega

/-- What is sent behind the break does not count. -/
theorem CutOff.behind {k : ℕ} {c c' : Wire} (h : CutOff k c c') (hk : k < c.sent.length)
    {sent : List UInt8} (hsent : c.sent <+: sent) : c'.sent = sent.take k := by
  rcases hsent with ⟨more,rfl⟩
  rw [h.sent,List.take_append_of_le_length (Nat.le_of_lt hk)]

theorem Wire.write_extends {c : Wire} (h : c.room = none) (buf : List UInt8) :
    c.sent <+: (c.write buf).2.sent ∧ (c.write buf).2.room = none := by
  rw [Wire.write_open h]
  exact ⟨List.prefix_append _ _,rfl⟩

/-- What one round sends does not depend on the connection. -/
theorem sendRound_cases (instr : SendInstruction) (dataBufSize amount : ℕ) (file : OpenFile) :
    (∃ ret, ∀ c, sendRound instr dataBufSize ⟨amount,file,c⟩ = .inr (ret,c)) ∨
    (∃ text, ∀ c, sendRound instr dataBufSize ⟨amount,file,c⟩ =
      .inr (upnpESuccess,(c.write text).2)) ∨
    ∃ text amount' file', ∀ c, sendRound instr dataBufSize ⟨amount,file,c⟩ =
      if (c.write text).1 then .inl ⟨amount',file',(c.write text).2⟩
      else .inr (upnpESuccess,(c.write text).2) := by
  by_cases hamount : amount = 0
  · exact .inl ⟨upnpESuccess,fun c => if_pos hamount⟩
  generalize hr : SendState.read ⟨amount,file,⟨[],none⟩⟩ instr dataBufSize = r
  have hread : ∀ c, SendState.read ⟨amount,file,c⟩ instr dataBufSize =
      (r.1,⟨r.2.amountToBeRead,r.2.file,c⟩) := by
    intro c
    rw [← hr]
    rfl
  by_cases hempty : r.1.length = 0
  · cases hchunk : instr.isChunkActive with
    | true =>
      refine .inr (.inl ⟨cstr "0\r\n\r\n",fun c => ?_⟩)
      simp only [sendRound,if_neg hamount,hread,if_pos hempty,hchunk,if_true]
    | false =>
      refine .inl ⟨upnpEFileReadError,fun c => ?_⟩
      simp only [sendRound,if_neg hamount,hread,if_pos hempty,hchunk,Bool.false_eq_true,if_false]
  · cases htext : blockText instr.isChunkActive r.1 with
    | none =>
      refine .inl ⟨upnpEInternalError,fun c => ?_⟩
      simp only [sendRound,if_neg hamount,hread,if_neg hempty,htext]
    | some text =>
      refine .inr (.inr ⟨text,r.2.amountToBeRead,r.2.file,fun c => ?_⟩)
      simp only [sendRound,if_neg hamount,hread,if_neg hempty,htext]

theorem sendFile_extends (instr : SendInstruction) (dataBufSize : ℕ) (s : SendState)
    (h : s.wire.room = none) : s.wire.sent <+: (sendFile instr dataBufSize s).2.sent := by
  refine Loop.run_induction (sendRound_descends instr dataBufSize)
    (e := fun s : SendState => (upnpEInternalError,s.wire))
    (P := fun s r => s.wire.room = none → s.wire.sent <+: r.2.sent) ?_ ?_ s h
  · rintro ⟨amount,file,c⟩ r hr hroom
    rcases sendRound_cases instr dataBufSize amount file with ⟨ret,hret⟩ | ⟨text,hlast⟩ |
      ⟨text,amount',file',hnext⟩
    · rw [hret] at hr
      cases hr
      exact List.prefix_rfl
    · rw [hlast] at hr
      cases hr
      exact (Wire.write_extends hroom text).1
    · rw [hnext,Wire.write_open hroom] at hr
      cases hr
  · rintro ⟨amount,file,c⟩ t ht ih hroom
    rcases sendRound_cases instr dataBufSize amount file with ⟨ret,hret⟩ | ⟨text,hlast⟩ |
      ⟨text,amount',file',hnext⟩
    · rw [hret] at ht
      cases ht
    · rw [hlast] at ht
      cases ht
    · rw [hnext,Wire.write_open hroom] at ht
      cases ht
      exact (List.prefix_append _ _).trans (ih rfl)

/-- The loop on a connection that breaks sends what it would have sent, up to there. -/
theorem sendFile_cut (instr : SendInstruction) (dataBufSize : ℕ) {k : ℕ} (amount : ℕ)
    (file : OpenFile) {c c' : Wire} (h : CutOff k c c') :
    (sendFile instr dataBufSize ⟨amount,file,c'⟩).2.sent =
      (sendFile instr dataBufSize ⟨amount,file,c⟩).2.sent.take k := by
  induction hn : file.unread.length using Nat.strong_induction_on generalizing amount file c c' with
  | _ n ih =>
    subst hn
    have hdesc := sendRound_descends instr dataBufSize
    rcases sendRound_cases instr dataBufSize amount file with ⟨ret,hret⟩ | ⟨text,hlast⟩ |
      ⟨text,amount',file',hnext⟩
    · rw [sendFile,sendFile,Loop.run_inr (hret c'),Loop.run_inr (hret c)]
      exact h.sent
    · rw [sendFile,sendFile,Loop.run_inr (hlast c'),Loop.run_inr (hlast c)]
      exact (h.write text).1.sent
    · have hround : sendRound instr dataBufSize ⟨amount,file,c⟩ =
          .inl ⟨amount',file',(c.write text).2⟩ := by
        rw [hnext,Wire.write_open h.whole]
        rfl
      have hshort := hdesc _ _ hround
      rcases h.write text with ⟨hcut,hbroken⟩
      rw [sendFile,sendFile,Loop.run_inl hdesc hround]
      cases hok : (c'.write text).1 with
      | true =>
        have hround' : sendRound instr dataBufSize ⟨amount,file,c'⟩ =
            .inl ⟨amount',file',(c'.write text).2⟩ := by
          rw [hnext,hok]
          rfl
        rw [Loop.run_inl hdesc hround']
        exact ih _ hshort amount' file' hcut rfl
      | false =>
        have hround' : sendRound instr dataBufSize ⟨amount,file,c'⟩ =
            .inr (upnpESuccess,(c'.write text).2) := by
          rw [hnext,hok]
          rfl
        rw [Loop.run_inr hround']
        exact hcut.behind (hbroken hok)
          (sendFile_extends instr dataBufSize ⟨amount',file',(c.write text).2⟩ hcut.whole)

theorem httpSendFile_cut (w : WebServer) (cuts : List ℕ) (instr : SendInstruction)
    (headers filename : List UInt8) {k : ℕ} {c c' : Wire} (h : CutOff k c c') :
    (httpSendFile w cuts instr headers filename c').2.sent =
      (httpSendFile w cuts instr headers filename c).2.sent.take k := by
  rcases h.write headers with ⟨hcut,hbroken⟩
  have hopen := Wire.write_open h.whole headers
  unfold httpSendFile
  dsimp only
  rw [hopen] at hcut hbroken ⊢
  simp only [if_true]
  cases hok : (c'.write headers).1 with
  | true =>
    simp only [if_true]
    split
    · exact hcut.sent
    · split
      · exact hcut.sent
      · exact sendFile_cut _ _ _ _ hcut
  | false =>
    simp only [Bool.false_eq_true,if_false]
    refine hcut.behind (hbroken hok) ?_
    split
    · exact List.prefix_rfl
    · split
      · exact List.prefix_rfl
      · exact sendFile_extends _ _ ⟨_,_,⟨c.sent++headers,none⟩⟩ rfl

/-- An answer on a connection that breaks is the front of the whole answer, and the body of a POST is
stored all the same. -/
theorem webServerCallback_cut {w : WebServer} {cuts : List ℕ} {stack : SendInstruction}
    {req : HttpMessage} {body : Body} {s : Served}
    (h : webServerCallback w cuts stack req body ⟨[],none⟩ = .ok s) (k : ℕ) :
    ∃ s', webServerCallback w cuts stack req body ⟨[],some k⟩ = .ok s' ∧
      s'.wire.sent = s.wire.sent.take k ∧ s'.upload = s.upload := by
  have hcut : CutOff k ⟨[],none⟩ ⟨[],some k⟩ := ⟨rfl,List.take_nil.symm,rfl⟩
  unfold webServerCallback at h ⊢
  cases hr : processRequest w req (freshInstruction stack) with
  | error e =>
    cases e with
    | status code =>
      simp only [hr] at h ⊢
      split at h
      · cases h
      · cases h
        exact ⟨_,rfl,List.take_nil.symm,rfl⟩
      · cases h
        exact ⟨_,rfl,(hcut.write _).1.sent,rfl⟩
    | fault f =>
      rw [hr] at h
      cases h
    | abort =>
      rw [hr] at h
      cases h
  | ok reply =>
    rcases reply with ⟨rtype,headers,filename,instr⟩
    rw [hr] at h
    cases rtype with
    | filedoc | webdoc =>
      cases h
      exact ⟨_,rfl,httpSendFile_cut w cuts instr headers filename hcut,rfl⟩
    | headers =>
      cases h
      exact ⟨_,rfl,(hcut.write headers).1.sent,rfl⟩
    | post =>
      simp only at h ⊢
      split at h
      · cases h
      · cases h
        exact ⟨_,rfl,List.take_nil.symm,rfl⟩
      · cases h
        exact ⟨_,rfl,(hcut.write _).1.sent,rfl⟩

theorem webServerCallback_cut_missing : ∃ s s',
    webServerCallback songServer [] noInstruction (songRequest (cstr "/other") []) noBody
        ⟨[],none⟩ = .ok s ∧
    webServerCallback songServer [] noInstruction (songRequest (cstr "/other") []) noBody
        ⟨[],some 20⟩ = .ok s' ∧ s'.wire.sent = s.wire.sent.take 20 := by
  have hsdk : SdkInfo (songServer.platform.getSdkInfo messageBufSize) := somePlatform_sdk
  rcases statusSent Uri.Resolver.empty hsdk ⟨1,by decide,rfl⟩ ⟨1,by decide,rfl⟩ song_missing []
    noBody with ⟨c,-,-,hsent,-⟩
  rcases webServerCallback_cut hsent 20 with ⟨s',hcut,htake,-⟩
  exact ⟨_,s',hsent,hcut,htake⟩

end Web
end CtrlPt
