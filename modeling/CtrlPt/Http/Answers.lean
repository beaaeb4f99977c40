import CtrlPt.Http.WrittenResponse

/-! `statcodes.c`, and the letters of `http_MakeMessage` that only answers have. -/
namespace CtrlPt
namespace Http

open CText Uri Soap

def http1xxStr : List UInt8 := cstr "Continue\x00Switching Protocols\x00"

def http2xxStr : List UInt8 :=
  cstr "OK\x00Created\x00Accepted\x00Non-Authoratative Information\x00No Content\x00"++
    cstr "Reset Content\x00Partial Content\x00"

def http3xxStr : List UInt8 :=
  cstr "Multiple Choices\x00Moved Permanently\x00Found\x00See Other\x00Not Modified\x00"++
    cstr "Use Proxy\x00\x00Temporary Redirect\x00"

def http4xxStr : List UInt8 :=
  cstr "Bad Request\x00Unauthorized\x00Payment Required\x00Forbidden\x00Not Found\x00"++
    cstr "Method Not Allowed\x00Not Acceptable\x00Proxy Authentication Required\x00"++
    cstr "Request Timeout\x00Conflict\x00Gone\x00Length Required\x00Precondition Failed\x00"++
    cstr "Request Entity Too Large\x00Request-URI Too Long\x00Unsupported Media Type\x00"++
    cstr "Requested Range Not Satisfiable\x00Expectation Failed\x00"

def http5xxStr : List UInt8 :=
  cstr "Internal Server Error\x00Not Implemented\x00Bad Gateway\x00Service Unavailable\x00"++
    cstr "Gateway Timeout\x00HTTP Version Not Supported\x00"

/-- The strings that stand one behind the other in `encodedStr`. -/
def initTable : ℕ → List UInt8 → List (List UInt8)
  | 0, _ => []
  | tblSize+1, encodedStr =>
    untilNul encodedStr::initTable tblSize (encodedStr.drop ((untilNul encodedStr).length+1))

def http1xxCodes : List (List UInt8) := initTable 2 http1xxStr
def http2xxCodes : List (List UInt8) := initTable 7 http2xxStr
def http3xxCodes : List (List UInt8) := initTable 8 http3xxStr
def http4xxCodes : List (List UInt8) := initTable 18 http4xxStr
def http5xxCodes : List (List UInt8) := initTable 6 http5xxStr

def httpGetCodeText (statusCode : ℤ) : Option (List UInt8) :=
  if statusCode < 100 ∨ 600 ≤ statusCode then none
  else
    let index := (statusCode % 100).toNat
    match (statusCode/100).toNat with
    | 1 => http1xxCodes[index]?
    | 2 => http2xxCodes[index]?
    | 3 => http3xxCodes[index]?
    | 4 => http4xxCodes[index]?
    | 5 => http5xxCodes[index]?
    | _ => none

/-- A text that can stand in a status line as it is. -/
structure PhraseText (text : List UInt8) : Prop where
  chars : ∀ c ∈ text, isPlainChar c = true
  nul : 0 ∉ text
  head : ∀ c ∈ text.head?, isBlank c = false
  length : text.length ≤ 31

instance (text : List UInt8) : Decidable (PhraseText text) :=
  decidable_of_iff ((∀ c ∈ text, isPlainChar c = true) ∧ 0 ∉ text ∧
      (∀ c ∈ text.head?, isBlank c = false) ∧ text.length ≤ 31)
    ⟨fun h => ⟨h.1,h.2.1,h.2.2.1,h.2.2.2⟩,fun h => ⟨h.chars,h.nul,h.head,h.length⟩⟩

theorem codes_phrases : ∀ table ∈ [http1xxCodes,http2xxCodes,http3xxCodes,http4xxCodes,http5xxCodes],
    ∀ text ∈ table, PhraseText text := by
  decide +kernel

theorem httpGetCodeText_some {statusCode : ℤ} {text : List UInt8}
    (h : httpGetCodeText statusCode = some text) :
    100 ≤ statusCode ∧ statusCode < 600 ∧ PhraseText text := by
  have hphrases := codes_phrases
  simp only [List.forall_mem_cons] at hphrases
  rcases hphrases with ⟨h1,h2,h3,h4,h5,-⟩
  unfold httpGetCodeText at h
  split at h
  · cases h
  refine ⟨by omega,by omega,?_⟩
  dsimp only at h
  split at h
  · exact h1 text (List.mem_of_getElem? h)
  · exact h2 text (List.mem_of_getElem? h)
  · exact h3 text (List.mem_of_getElem? h)
  · exact h4 text (List.mem_of_getElem? h)
  · exact h5 text (List.mem_of_getElem? h)
  · cases h

def webServerContentLanguage : List UInt8 := cstr ""

/-- A part of a format with its own arguments: a run of the letters that requests have too, or
one of the letters that only answers have. -/
inductive AnswerPart
  | plain (fmt : List FormatLetter) (args : List FormatArg)
  | L (acceptLanguageHeader : List UInt8)
  | R (statusCode : ℤ)
  | B (statusCode : ℤ)
  deriving DecidableEq, Repr

/-- The `tempbuf` of the letter `B`. -/
def simpleBody (statusCode : ℤ) (statusMsg : List UInt8) : List UInt8 :=
  cstr "<html><body><h1>"++(printInt statusCode++32::(statusMsg++cstr "</h1></body></html>"))

/-- The `tempbuf` of the letter `R`. -/
def statusStart (major minor statusCode : ℤ) : List UInt8 :=
  cstr "HTTP/"++(printInt major++46::(printInt minor++32::(printInt statusCode++[32])))

def answerPart (sys : Platform) (major minor : ℤ) : AnswerPart → Except BuildError (List UInt8)
  | .plain fmt args => httpMakeMessage sys major minor fmt args
  | .L acceptLanguageHeader =>
    if untilNul acceptLanguageHeader ≠ [] ∧ webServerContentLanguage ≠ [] then
      nestedCall (httpMakeMessage sys major minor) [.s,.s,.c]
        [.str (cstr "CONTENT-LANGUAGE: "),.str webServerContentLanguage]
    else .ok []
  | .R statusCode =>
    if statusCode ≤ 0 then .error .abort
    else
      let tempbuf := statusStart major minor statusCode
      if messageBufSize ≤ tempbuf.length then .error (.code upnpEOutofMemory)
      else
        match httpGetCodeText statusCode with
        -- the letter `s` asserts that its string is no null pointer
        | none => .error .abort
        | some statusMsg =>
          nestedCall (httpMakeMessage sys major minor) [.s,.s,.c] [.str tempbuf,.str statusMsg]
  | .B statusCode =>
    match httpGetCodeText statusCode with
    | none => .error .abort
    | some statusMsg =>
      let tempbuf := simpleBody statusCode statusMsg
      if messageBufSize ≤ tempbuf.length then .error (.code upnpEOutofMemory)
      else
        nestedCall (httpMakeMessage sys major minor) [.N,.T,.c,.s]
          [.off tempbuf.length,.str (cstr "text/html"),.str tempbuf]

/-- `http_MakeMessage` with the format of an answer. -/
def httpMakeAnswer (sys : Platform) (major minor : ℤ) :
    List AnswerPart → Except BuildError (List UInt8)
  | [] => .ok []
  | part::parts => do
    let x ← answerPart sys major minor part
    let y ← httpMakeAnswer sys major minor parts
    return x++y

def httpCalcResponseVersion (requestMajorVers requestMinorVers : ℤ) : ℤ × ℤ :=
  if requestMajorVers > 1 ∨ (requestMajorVers = 1 ∧ requestMinorVers ≥ 1) then (1,1)
  else (requestMajorVers,requestMinorVers)

def statusResponse (sys : Platform) (httpStatusCode requestMajorVersion requestMinorVersion : ℤ) :
    Except BuildError (List UInt8) :=
  let v := httpCalcResponseVersion requestMajorVersion requestMinorVersion
  httpMakeAnswer sys v.1 v.2 [.R httpStatusCode,.plain [.S,.C] [],.B httpStatusCode]

theorem httpMakeAnswer_cons {sys : Platform} {major minor : ℤ} {part : AnswerPart}
    {parts : List AnswerPart} {x y : List UInt8} (hx : answerPart sys major minor part = .ok x)
    (hy : httpMakeAnswer sys major minor parts = .ok y) :
    httpMakeAnswer sys major minor (part::parts) = .ok (x++y) := by
  rw [httpMakeAnswer,hx,hy]
  rfl

/-- A field with a value that does not begin with a blank. -/
def plainField (name value : List UInt8) (hne : name ≠ [])
    (hname : ∀ c ∈ name, isIdentifierChar c = true) (hvalue : ∀ c ∈ value, isPlainChar c = true)
    (hhead : ∀ c ∈ value.head?, isBlank c = false) : WrittenField where
  name := name
  blanks := [32]
  value := value
  name_ne := hne
  name_chars := hname
  blanks_chars := space_blank
  text := lineText_of_plain hvalue
  head := hhead

theorem server_ne : cstr "SERVER" ≠ [] := by decide

theorem server_chars : ∀ c ∈ cstr "SERVER", isIdentifierChar c = true := by decide

theorem takeWhile_blanks (info : List UInt8) :
    ∀ c ∈ 32::info.takeWhile isBlank, isBlank c = true := by
  intro c hc
  rcases List.mem_cons.mp hc with rfl | hc
  · rfl
  · exact List.all_eq_true.mp List.all_takeWhile c hc

theorem dropWhile_plain {info : List UInt8} (h : ∀ c ∈ info, isPlainChar c = true) :
    LineText (info.dropWhile isBlank) :=
  lineText_of_plain fun c hc => h c ((List.dropWhile_sublist _).subset hc)

theorem dropWhile_head (info : List UInt8) :
    ∀ c ∈ (info.dropWhile isBlank).head?, isBlank c = false := by
  intro c hc
  have hd := List.head?_dropWhile_not isBlank info
  rw [Option.mem_def] at hc
  simpa [hc] using hd

def serverField (info : List UInt8) (h : ∀ c ∈ info, isPlainChar c = true) : WrittenField where
  name := cstr "SERVER"
  blanks := 32::info.takeWhile isBlank
  value := info.dropWhile isBlank
  name_ne := server_ne
  name_chars := server_chars
  blanks_chars := takeWhile_blanks info
  text := dropWhile_plain h
  head := dropWhile_head info

@[simp] theorem serverField_line {info : List UInt8} (h : ∀ c ∈ info, isPlainChar c = true) :
    (serverField info h).line = cstr "SERVER: "++(info++[cr,lf]) := by
  have hsplit : info.takeWhile isBlank++(info.dropWhile isBlank++[cr,lf]) = info++[cr,lf] := by
    rw [← List.append_assoc,List.takeWhile_append_dropWhile]
  exact congrArg (fun x => cstr "SERVER: "++x) hsplit

theorem makeLetter_S (sys : Platform) (major minor : ℤ) (depth : ℕ) (args : List FormatArg) :
    makeLetter sys major minor (makeMessage sys major minor (depth+1)) .S args =
      .ok (cstr "SERVER: "++untilNul (sys.getSdkInfo messageBufSize),args) := by
  have h : makeMessage sys major minor (depth+1) [.s,.s]
      [.str (cstr "SERVER: "),.str (sys.getSdkInfo messageBufSize)] =
      .ok (cstr "SERVER: "++(untilNul (sys.getSdkInfo messageBufSize)++[])) :=
    makeFormat_cons rfl (makeFormat_cons rfl rfl)
  rw [List.append_nil] at h
  exact makeLetter_nested rfl h

theorem makeLetter_S_line {sys : Platform} (hsdk : SdkInfo (sys.getSdkInfo messageBufSize))
    (major minor : ℤ) (depth : ℕ) (args : List FormatArg) :
    makeLetter sys major minor (makeMessage sys major minor (depth+1)) .S args =
      .ok ((serverField (sdkName (sys.getSdkInfo messageBufSize)) hsdk.split.2.1).line,args) := by
  rcases hsdk.split with ⟨hinfo,-,hnul⟩
  rw [makeLetter_S,serverField_line,hnul]
  nth_rewrite 1 [hinfo]
  rfl

/-- The field of the letter `C`, where there is one. -/
def closeFields (major minor : ℤ) : List WrittenField :=
  if major > 1 ∨ (major = 1 ∧ minor = 1) then [connectionField] else []

theorem makeLetter_C (sys : Platform) (major minor : ℤ) (call : MakeCall) (args : List FormatArg) :
    makeLetter sys major minor call .C args =
      .ok ((closeFields major minor).flatMap WrittenField.line,args) := by
  have hclose : connectionField.line = cstr "CONNECTION: close\r\n" := by decide
  simp only [makeLetter,closeFields]
  split
  · rw [List.flatMap_singleton,hclose]
  · rfl

/-- The status line of an answer. -/
def answerLine (major minor : ℕ) {statusCode : ℤ} {text : List UInt8} (hmajor : major < 2^31)
    (hminor : minor < 2^31) (h : httpGetCodeText statusCode = some text) : WrittenResponse where
  major := major
  minor := minor
  code := statusCode.toNat
  reason := text
  major_lt := hmajor
  minor_lt := hminor
  code_lt := by
    have hcode := httpGetCodeText_some h
    omega
  reason_chars := (httpGetCodeText_some h).2.2.chars
  reason_nul := (httpGetCodeText_some h).2.2.nul
  reason_head := (httpGetCodeText_some h).2.2.head

theorem html_target : ∀ c ∈ cstr "text/html", isTargetChar c = true := by decide

theorem printNumeral_length_int {n : ℕ} (h : n < 2^31) : (printNumeral 10 n).length ≤ 10 :=
  printNumeral_length (by decide) (by decide) (by omega)

theorem statusStart_fits {major minor statusCode : ℕ} (hmajor : major < 2^31)
    (hminor : minor < 2^31) (hcode : statusCode < 2^31) :
    (statusStart major minor statusCode).length < messageBufSize := by
  have h1 := printNumeral_length_int hmajor
  have h2 := printNumeral_length_int hminor
  have h3 := printNumeral_length_int hcode
  have hname : (cstr "HTTP/").length = 5 := by decide
  simp [statusStart,hname,messageBufSize]
  omega

theorem statusStart_noNul (major minor statusCode : ℕ) :
    0 ∉ statusStart major minor statusCode := by
  have hname : (0 : UInt8) ∉ cstr "HTTP/" := by decide
  simp [statusStart,printInt_natCast,hname,printNumeral_noNul]

theorem answerPart_R (sys : Platform) {major minor : ℕ} {statusCode : ℤ} {text : List UInt8}
    (hmajor : major < 2^31) (hminor : minor < 2^31) (h : httpGetCodeText statusCode = some text) :
    answerPart sys major minor (.R statusCode) =
      .ok (answerLine major minor hmajor hminor h).line := by
  rcases httpGetCodeText_some h with ⟨hlow,hhigh,hphrase⟩
  obtain ⟨code,rfl⟩ := Int.eq_ofNat_of_zero_le (show 0 ≤ statusCode by omega)
  have hstart : untilNul (statusStart major minor code) = statusStart major minor code :=
    untilNul_of_no_nul (statusStart_noNul major minor code)
  have htext : untilNul text = text := untilNul_of_no_nul hphrase.nul
  have hfits := statusStart_fits hmajor hminor (show code < 2^31 by omega)
  have hmake : httpMakeMessage sys major minor [.s,.s,.c]
      [.str (statusStart major minor code),.str text] =
      .ok (untilNul (statusStart major minor code)++(untilNul text++([cr,lf]++[]))) :=
    makeFormat_cons rfl (makeFormat_cons rfl (makeFormat_cons rfl rfl))
  have hmark : cstr "HTTP/" = cstr "HTTP"++[47] := rfl
  simp only [answerPart,if_neg (show ¬(code : ℤ) ≤ 0 by omega),if_neg (Nat.not_le.mpr hfits),h,
    nestedCall,hmake,hstart,htext]
  simp [answerLine,WrittenResponse.line,WrittenResponse.numbers,statusStart,hmark,
    List.append_assoc]

/-- The fields in front of a simple body. -/
def simpleFields (body : List UInt8) : List WrittenField :=
  [wordField (cstr "CONTENT-LENGTH") (printNumeral 10 body.length) contentLength_ne
      contentLength_chars (printNumeral_target body.length),
    wordField (cstr "CONTENT-TYPE") (cstr "text/html") contentType_ne contentType_chars html_target]

theorem simpleBody_fits {code : ℕ} {text : List UInt8}
    (h : httpGetCodeText code = some text) : (simpleBody code text).length < messageBufSize := by
  rcases httpGetCodeText_some h with ⟨-,hhigh,hphrase⟩
  have hcode := printNumeral_length_int (show code < 2^31 by omega)
  have hfront : (cstr "<html><body><h1>").length = 16 := by decide
  have hback : (cstr "</h1></body></html>").length = 19 := by decide
  have hlen := hphrase.length
  simp [simpleBody,hfront,hback,messageBufSize]
  omega

theorem simpleBody_noNul {code : ℕ} {text : List UInt8}
    (h : httpGetCodeText code = some text) : 0 ∉ simpleBody code text := by
  have hfront : (0 : UInt8) ∉ cstr "<html><body><h1>" := by decide
  have hback : (0 : UInt8) ∉ cstr "</h1></body></html>" := by decide
  simp [simpleBody,printInt_natCast,printNumeral_noNul,hfront,hback,
    (httpGetCodeText_some h).2.2.nul]

theorem answerPart_B (sys : Platform) (major minor : ℤ) {code : ℕ} {text : List UInt8}
    (h : httpGetCodeText code = some text) :
    answerPart sys major minor (.B code) =
      .ok ((simpleFields (simpleBody code text)).flatMap WrittenField.line++
        ([cr,lf]++simpleBody code text)) := by
  have hnul : untilNul (simpleBody code text) = simpleBody code text :=
    untilNul_of_no_nul (simpleBody_noNul h)
  have hfits := simpleBody_fits h
  have hmake : httpMakeMessage sys major minor [.N,.T,.c,.s]
      [.off (simpleBody code text).length,.str (cstr "text/html"),.str (simpleBody code text)] = _ :=
    makeFormat_cons (makeLetter_N sys major minor 1 _ _) (makeFormat_cons
      (makeLetter_T sys major minor 1 _ _) (makeFormat_cons rfl (makeFormat_cons rfl rfl)))
  have hhtml : untilNul (cstr "text/html") = cstr "text/html" := by decide
  simp only [answerPart,h,if_neg (Nat.not_le.mpr hfits),nestedCall,hmake,hnul,hhtml]
  have hlength : cstr "CONTENT-LENGTH: " = cstr "CONTENT-LENGTH"++[58,32] := rfl
  have htype : cstr "CONTENT-TYPE: " = cstr "CONTENT-TYPE"++[58,32] := rfl
  simp [simpleFields,List.append_assoc,hlength,htype]

/-- What a response with a counted body is read as. -/
def sizedView (q : WrittenResponse) (requestMethod : HttpMethod) (headers : List HttpHeader)
    (body : List UInt8) : MessageView :=
  if bodyless q.code requestMethod then
    { responseView q requestMethod headers with entityLength := 0, entityBytes := [] }
  else
    { responseView q requestMethod headers with
      entityLength := body.length, entityBytes := body }

@[simp] theorem sizedView_statusCode (q : WrittenResponse) (requestMethod : HttpMethod)
    (headers : List HttpHeader) (body : List UInt8) :
    (sizedView q requestMethod headers body).statusCode = q.code := by
  unfold sizedView
  split <;> rfl

theorem answersWith_sized (res : Resolver) (q : WrittenResponse) {fs : List WrittenField}
    (hfs : Distinct fs) (requestMethod : HttpMethod)
    (hte : ∀ x ∈ fs.map WrittenField.header, x.nameId ≠ .transferEncoding) {body : List UInt8}
    (hcl : findHdr (fs.map WrittenField.header) .contentLength = some (printNumeral 10 body.length))
    (hlen : body.length < 2^32) :
    AnswersWith res requestMethod (writtenResponse q fs body)
      (sizedView q requestMethod (fs.map WrittenField.header) body) := by
  unfold sizedView
  cases hno : bodyless q.code requestMethod with
  | true => exact answersWith_bodyless res q hfs hno body
  | false =>
    refine answersWith_clen res q hfs hno hte hcl ?_
    rw [rawToInt_value (printNumeral_numeral (by decide) (by decide) _) (by omega),toUInt_of_lt hlen]

def statusFields (major minor : ℤ) (info : List UInt8) (hinfo : ∀ c ∈ info, isPlainChar c = true)
    (body : List UInt8) : List WrittenField :=
  [serverField info hinfo]++closeFields major minor++simpleFields body

def statusHeaders (major minor : ℤ) (info body : List UInt8) : List HttpHeader :=
  [⟨cstr "SERVER",.server,startValue (trimRight (info.dropWhile isBlank))⟩]++
    (closeFields major minor).map WrittenField.header++
    [⟨cstr "CONTENT-LENGTH",.contentLength,printNumeral 10 body.length⟩,
      ⟨cstr "CONTENT-TYPE",.contentType,cstr "text/html"⟩]

@[simp] theorem connectionField_header :
    connectionField.header = ⟨cstr "CONNECTION",.unknown,cstr "close"⟩ := by decide

theorem closeFields_cases (major minor : ℤ) :
    closeFields major minor = [] ∨ closeFields major minor = [connectionField] := by
  unfold closeFields
  split
  · exact .inr rfl
  · exact .inl rfl

theorem statusFields_headers (major minor : ℤ) {info : List UInt8}
    (hinfo : ∀ c ∈ info, isPlainChar c = true) (body : List UInt8) :
    Distinct (statusFields major minor info hinfo body) ∧
      (statusFields major minor info hinfo body).map WrittenField.header =
        statusHeaders major minor info body := by
  have hnames : [cstr "SERVER",cstr "CONNECTION",cstr "CONTENT-LENGTH",cstr "CONTENT-TYPE"].map
      nameIdOf = [.server,.unknown,.contentLength,.contentType] := by decide
  simp only [List.map_cons,List.map_nil,List.cons.injEq,and_true] at hnames
  rcases hnames with ⟨h₁,h₂,h₃,h₄⟩
  have hnumeral : printNumeral 10 body.length ≠ [] :=
    (printNumeral_numeral (by decide) (by decide) _).ne_nil
  have hhtml : startValue (trimRight (cstr "text/html")) = cstr "text/html" := by decide
  constructor
  · unfold statusFields
    rcases closeFields_cases major minor with hc | hc <;> rw [hc]
    · refine ⟨?_,?_⟩
      · change ([cstr "SERVER",cstr "CONTENT-LENGTH",cstr "CONTENT-TYPE"].map lowerName).Nodup
        decide
      · simp [serverField,simpleFields,wordField,h₁,h₃,h₄]
    · refine ⟨?_,?_⟩
      · change ([cstr "SERVER",cstr "CONNECTION",cstr "CONTENT-LENGTH",cstr "CONTENT-TYPE"].map
          lowerName).Nodup
        decide
      · simp [serverField,connectionField,simpleFields,wordField,h₁,h₂,h₃,h₄]
  · simp [statusFields,statusHeaders,simpleFields,WrittenField.header,serverField,wordField,h₁,h₃,
      h₄,startValue_word hnumeral (printNumeral_target _),hhtml]

/-- The message of `http_SendStatusResponse` as a line, fields and a body. -/
theorem statusResponse_written {sys : Platform} (hsdk : SdkInfo (sys.getSdkInfo messageBufSize))
    {code : ℕ} {text : List UInt8} (h : httpGetCodeText code = some text)
    {requestMajor requestMinor major minor : ℕ} (hmajor : major < 2^31) (hminor : minor < 2^31)
    (hv : httpCalcResponseVersion requestMajor requestMinor = ((major : ℤ),(minor : ℤ))) :
    statusResponse sys code requestMajor requestMinor =
      .ok (writtenResponse (answerLine major minor hmajor hminor h)
        (statusFields major minor (sdkName (sys.getSdkInfo messageBufSize)) hsdk.split.2.1
          (simpleBody code text)) (simpleBody code text)) := by
  have hplain : answerPart sys major minor (.plain [.S,.C] []) = _ :=
    makeFormat_cons (makeLetter_S_line hsdk major minor 1 [])
      (makeFormat_cons (makeLetter_C sys major minor _ []) rfl)
  have hnil : httpMakeAnswer sys major minor [] = .ok [] := rfl
  have hall := httpMakeAnswer_cons (answerPart_R sys hmajor hminor h)
    (httpMakeAnswer_cons hplain (httpMakeAnswer_cons (answerPart_B sys major minor h) hnil))
  simp only [statusResponse,hv]
  rw [hall]
  simp [writtenResponse,statusFields,List.append_assoc]

theorem httpCalcResponseVersion_nat {requestMajor requestMinor : ℕ} (hmajor : requestMajor < 2^31)
    (hminor : requestMinor < 2^31) : ∃ major minor : ℕ, major < 2^31 ∧ minor < 2^31 ∧
      httpCalcResponseVersion requestMajor requestMinor = ((major : ℤ),(minor : ℤ)) := by
  unfold httpCalcResponseVersion
  split
  · exact ⟨1,1,by decide,by decide,rfl⟩
  · exact ⟨requestMajor,requestMinor,hmajor,hminor,rfl⟩

theorem statusHeaders_sized (major minor : ℤ) (info body : List UInt8) :
    (∀ x ∈ statusHeaders major minor info body, x.nameId ≠ .transferEncoding) ∧
      findHdr (statusHeaders major minor info body) .contentLength =
        some (printNumeral 10 body.length) := by
  unfold statusHeaders
  rcases closeFields_cases major minor with hc | hc <;> rw [hc]
  · exact ⟨by simp,by simp [findHdr]⟩
  · rw [List.map_singleton,connectionField_header]
    exact ⟨by simp,by simp [findHdr]⟩

theorem statusResponse_answers (res : Resolver) {sys : Platform}
    (hsdk : SdkInfo (sys.getSdkInfo messageBufSize)) {statusCode : ℕ} {text : List UInt8}
    (h : httpGetCodeText statusCode = some text) {requestMajor requestMinor : ℕ}
    (hmajor : requestMajor < 2^31) (hminor : requestMinor < 2^31) :
    ∃ answer q, statusResponse sys statusCode requestMajor requestMinor = .ok answer ∧
      ((q.major : ℤ),(q.minor : ℤ)) = httpCalcResponseVersion requestMajor requestMinor ∧
      q.code = statusCode ∧ q.reason = text ∧
      ∀ requestMethod, AnswersWith res requestMethod answer (sizedView q requestMethod
        (statusHeaders q.major q.minor (sdkName (sys.getSdkInfo messageBufSize))
          (simpleBody statusCode text)) (simpleBody statusCode text)) := by
  rcases httpCalcResponseVersion_nat hmajor hminor with ⟨major,minor,hmaj,hmin,hv⟩
  have hfields := statusFields_headers major minor hsdk.split.2.1 (simpleBody statusCode text)
  have hsized := statusHeaders_sized major minor (sdkName (sys.getSdkInfo messageBufSize))
    (simpleBody statusCode text)
  have hlen : (simpleBody statusCode text).length < 2^32 :=
    Nat.lt_trans (simpleBody_fits h) (by decide)
  refine ⟨_,answerLine major minor hmaj hmin h,statusResponse_written hsdk h hmaj hmin hv,hv.symm,
    Int.toNat_natCast statusCode,rfl,fun requestMethod => ?_⟩
  have hread := answersWith_sized res (answerLine major minor hmaj hmin h) hfields.1 requestMethod
    (by rw [hfields.2]; exact hsized.1) (by rw [hfields.2]; exact hsized.2) hlen
  rwa [hfields.2] at hread

/-- The answer that only says what became of a request is read as it is meant, by whoever made
the request, and no such answer can be made of a code that has no text. -/
theorem statusResponse_readBack (res : Resolver) {sys : Platform}
    (hsdk : SdkInfo (sys.getSdkInfo messageBufSize)) (statusCode : ℕ) {requestMajor requestMinor : ℕ}
    (hmajor : requestMajor < 2^31) (hminor : requestMinor < 2^31) :
    (httpGetCodeText statusCode = none →
      ∀ answer, statusResponse sys statusCode requestMajor requestMinor ≠ .ok answer) ∧
    ∀ text, httpGetCodeText statusCode = some text →
      ∃ answer q, statusResponse sys statusCode requestMajor requestMinor = .ok answer ∧
        ((q.major : ℤ),(q.minor : ℤ)) = httpCalcResponseVersion requestMajor requestMinor ∧
        q.code = statusCode ∧ q.reason = text ∧
        ∀ requestMethod, AnswersWith res requestMethod answer (sizedView q requestMethod
          (statusHeaders q.major q.minor (sdkName (sys.getSdkInfo messageBufSize))
            (simpleBody statusCode text)) (simpleBody statusCode text)) := by
  refine ⟨fun h answer hanswer => ?_,fun text h => statusResponse_answers res hsdk h hmajor hminor⟩
  simp only [statusResponse,httpMakeAnswer,answerPart,h] at hanswer
  split at hanswer
  · cases hanswer
  · split at hanswer <;> cases hanswer

theorem notFound_readBack : ∃ answer q, statusResponse somePlatform 404 1 1 = .ok answer ∧
    q.code = 404 ∧ q.reason = cstr "Not Found" ∧
      AnswersWith Resolver.empty .get answer (sizedView q .get
        (statusHeaders q.major q.minor someSdk (simpleBody 404 (cstr "Not Found")))
        (simpleBody 404 (cstr "Not Found"))) := by
  have htext : httpGetCodeText (404 : ℕ) = some (cstr "Not Found") := by decide +kernel
  rcases (statusResponse_readBack Resolver.empty somePlatform_sdk 404
    (show 1 < 2^31 by decide) (show 1 < 2^31 by decide)).2 _ htext with
    ⟨answer,q,hanswer,-,hcode,hreason,hread⟩
  exact ⟨answer,q,hanswer,hcode,hreason,hread .get⟩

theorem headerRound_statusCode (p : HttpParser) :
    (∀ q, headerRound p = .inl q → q.msg.statusCode = p.msg.statusCode) ∧
      ∀ r, headerRound p = .inr r → r.2.msg.statusCode = p.msg.statusCode := by
  unfold headerRound
  split
  · exact ⟨by rintro _ ⟨⟩,by rintro _ ⟨⟩; rfl⟩
  · split
    · refine ⟨by rintro _ ⟨⟩,?_⟩
      rintro _ ⟨⟩
      unfold endHeaders
      split <;> rfl
    · dsimp only
      split
      · exact ⟨by rintro _ ⟨⟩,by rintro _ ⟨⟩; rfl⟩
      · exact ⟨by rintro _ ⟨⟩; rfl,by rintro _ ⟨⟩⟩
    · exact ⟨by rintro _ ⟨⟩,by rintro _ ⟨⟩; rfl⟩

@[simp] theorem parserParseHeaders_statusCode (p : HttpParser) :
    (parserParseHeaders p).2.msg.statusCode = p.msg.statusCode :=
  Loop.run_induction headerRound_descends (e := fun q : HttpParser => (ParseStatus.failure,q))
    (P := fun p r => r.2.msg.statusCode = p.msg.statusCode)
    (fun p r hr => (headerRound_statusCode p).2 r hr)
    (fun p q hq ih => ih.trans ((headerRound_statusCode p).1 q hq)) p

@[simp] theorem entityStep_statusCode (p : HttpParser) :
    (entityStep p).2.msg.statusCode = p.msg.statusCode := by
  unfold entityStep
  split
  · unfold parserParseEntityUsingClen
    dsimp only
    split <;> rfl
  · have hstore : ∀ m, (storeChunkSize p m).msg.statusCode = p.msg.statusCode := fun m =>
      congrArg HttpMessage.statusCode (storeChunkSize_msg p m)
    unfold parserParseChunkyEntity beginChunk
    dsimp only
    split
    · exact hstore _
    · split <;> exact hstore _
  · unfold parserParseChunkyBody
    split
    · dsimp only
      split <;> rfl
    · rfl
  · have hheaders := parserParseHeaders_statusCode p
    unfold parserParseChunkyHeaders
    split
    · rename_i q hq
      rw [hq] at hheaders
      exact hheaders
    · rename_i st q _ hq
      rw [hq] at hheaders
      exact hheaders
  · rfl
  · unfold parserGetEntityReadMethod
    dsimp only
    split <;> rfl

@[simp] theorem parserParseEntity_statusCode (p : HttpParser) :
    (parserParseEntity p).2.msg.statusCode = p.msg.statusCode := by
  refine Loop.run_induction entityStep_descends (e := fun q : HttpParser => (ParseStatus.failure,q))
    (P := fun p r => r.2.msg.statusCode = p.msg.statusCode) ?_ ?_ p
  · intro p r hr
    rw [← (Loop.doWhile_inr hr).2]
    exact entityStep_statusCode p
  · intro p q hq ih
    rw [ih,← (Loop.doWhile_inl hq).2]
    exact entityStep_statusCode p

theorem AtEntity.framed {p : HttpParser} {requestMethod : HttpMethod} {view : MessageView}
    {body : List UInt8} (h : AtEntity p requestMethod view body)
    (hcursor : p.cursor ≤ p.msg.msg.length) : Framed p :=
  ⟨hcursor,h.discarded,fun hne => absurd h.entPosition hne,fun hne => absurd h.entPosition hne,
    fun hh => by rw [h.entPosition] at hh; cases hh⟩

/-- A response with a chunked body: while bytes are missing it is incomplete, and the last of them
completes it. -/
theorem readsChunked (res : Resolver) (q : WrittenResponse) {fs : List WrittenField}
    (hfs : Distinct fs) {requestMethod : HttpMethod} (hyes : bodyless q.code requestMethod = false)
    (hte : findHdr (fs.map WrittenField.header) .transferEncoding = some (cstr "chunked"))
    {s e x u : List UInt8} (h : WholeChunked s e) (hu : x++u = s) {pieces : List (List UInt8)}
    (hne : pieces ≠ []) (hpieces : pieces.flatten = writtenResponse q fs x) :
    (u ≠ [] → observeMessage (feedParser res (parserResponseInit requestMethod) pieces) =
      (.incomplete,none)) ∧
    (u = [] → ∃ view, observeMessage (feedParser res (parserResponseInit requestMethod) pieces) =
      (.success,some view) ∧ view.entityBytes = e ∧ view.statusCode = q.code) := by
  rcases parserAppend_response res q hfs requestMethod with
    ⟨p,hp,hposition,hcursor,-,hsize,hall⟩
  have hheaders : p.msg.headers = fs.map WrittenField.header :=
    congrArg (fun w => w.headers) hp.view
  have hcode : p.msg.statusCode = q.code := congrArg (fun w => w.statusCode) hp.view
  have hread : readMethod p.msg = .chunked := by
    have hbody : ¬noBody p.msg = true := by
      rw [hp.noBody_eq]
      exact fun h => absurd (h.symm.trans hyes) (by decide)
    have hfind : (rawFindStr (cstr "chunked") (cstr "chunked")).isSome = true := by decide
    rw [readMethod,if_neg hbody,hheaders,hte,Option.bind_some,if_pos hfind]
  have hnext : ChunkedNext p := ⟨hposition,hp.rest,.inl ⟨hp.entPosition,hread⟩⟩
  have hparsed := h.parsed hnext (hp.framed hcursor.le) (by rw [hsize]; decide) hu
  rw [feedParser_response res requestMethod hne hpieces,hall]
  constructor
  · intro hmissing
    have hwaits := hparsed.1 hmissing
    simp [observeMessage,hwaits]
  · intro hdone
    rcases hparsed.2 hdone with ⟨hsuccess,hbytes⟩
    refine ⟨_,?_,hbytes,?_⟩
    · simp only [observeMessage,hsuccess,true_or,if_true]
    · exact (parserParseEntity_statusCode _).trans hcode

end Http
end CtrlPt
