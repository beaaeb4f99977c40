import CtrlPt.Http.HostHeader
import CtrlPt.Soap.Action
import CtrlPt.Web.Ranges

/-! Requests without a body, read back: the text that is built comes out of the request parser
as the method, the target and the headers that went in. -/
namespace CtrlPt
namespace Http

open CText Uri Soap

theorem WrittenField.noNul (f : WrittenField) : 0 ∉ f.name := by
  intro h
  exact absurd (f.name_chars 0 h) (by decide)

theorem addHeader_new {headers : List HttpHeader} (hh : ∀ h ∈ headers, Named h) {name : List UInt8}
    (hn : 0 ∉ name) (hnew : lowerName name ∉ headers.map fun h => lowerName h.name)
    (value : List UInt8) :
    addHeader headers name value = headers++[⟨name,nameIdOf name,startValue value⟩] := by
  have hnone : (headers.findIdx? fun h => decide (lowerName h.name = lowerName name)) = none := by
    rw [List.findIdx?_eq_none_iff]
    intro h hmem
    rw [decide_eq_false_iff_not]
    exact fun he => hnew (List.mem_map.mpr ⟨h,hmem,he⟩)
  unfold addHeader nameIdOf
  cases hid : lookupName name httpHeaderNames false with
  | some id =>
    simp only [(findHdr_lowerName hh hn).1 id hid,hnone,storeHeader,Option.getD_some,startValue]
  | none =>
    simp only [(findHdr_lowerName hh hn).2 hid,hnone,storeHeader,Option.getD_none,startValue]

/-- What the parser stores of a field. -/
def WrittenField.header (f : WrittenField) : HttpHeader :=
  ⟨f.name,nameIdOf f.name,startValue (trimRight f.value)⟩

/-- Fields whose names differ, and no SOAPACTION among them. -/
structure Distinct (fs : List WrittenField) : Prop where
  nodup : (fs.map fun f => lowerName f.name).Nodup
  plain : ∀ f ∈ fs, nameIdOf f.name ≠ .soapaction

theorem readFields_distinct {fs : List WrittenField} (h : Distinct fs) {p : HttpParser}
    (hp : p.msg.headers = []) : (fs.foldl readField p).msg.headers = fs.map WrittenField.header ∧
      (fs.foldl readField p).msg.method = p.msg.method := by
  suffices hall : ∀ (fs : List WrittenField) (p : HttpParser), (∀ x ∈ p.msg.headers, Named x) →
      ((p.msg.headers.map fun x => lowerName x.name)++fs.map fun f => lowerName f.name).Nodup →
      (∀ f ∈ fs, nameIdOf f.name ≠ .soapaction) →
      (fs.foldl readField p).msg.headers = p.msg.headers++fs.map WrittenField.header ∧
        (fs.foldl readField p).msg.method = p.msg.method by
    have hfs := hall fs p (by simp [hp]) (by simpa [hp] using h.nodup) h.plain
    rwa [hp] at hfs
  intro fs
  induction fs with
  | nil => exact fun p _ _ _ => ⟨by simp,rfl⟩
  | cons f fs ih =>
    intro p hnamed hnodup hplain
    have hnew : lowerName f.name ∉ p.msg.headers.map fun x => lowerName x.name := by
      rw [List.map_cons] at hnodup
      exact fun hmem => (List.nodup_append.mp hnodup).2.2 _ hmem _ (.head _) rfl
    have hheaders : (readField p f).msg.headers = p.msg.headers++[f.header] :=
      addHeader_new hnamed f.noNul hnew _
    have hmethod : (readField p f).msg.method = p.msg.method := by
      refine if_neg fun hs => hplain f (.head _) ?_
      rw [nameIdOf,hs]
      rfl
    have hrec := ih (readField p f) ?_ ?_ fun g hg => hplain g (.tail _ hg)
    · rw [List.foldl_cons,hrec.1,hrec.2,hheaders,hmethod,List.append_assoc]
      exact ⟨rfl,rfl⟩
    · rw [hheaders]
      intro x hx
      rcases List.mem_append.mp hx with hx | hx
      · exact hnamed x hx
      · rw [List.mem_singleton.mp hx]
        exact ⟨f.noNul,rfl⟩
    · rw [hheaders,List.map_append,List.append_assoc]
      exact hnodup

/-- What a request without a body is read as. -/
def requestView (target : List UInt8) (uri : UriType) (id : HttpMethod)
    (headers : List HttpHeader) : MessageView :=
  { parserRequestInit.messageView with
    majorVersion := 1
    minorVersion := 1
    method := id
    urlbuf := target
    uri := uri
    headers := headers
    entityLength := 0
    entityBytes := [] }

/-- Whatever the pieces a text comes in, it is read as a request with this method, target and
headers, if the target is accepted as a URL. -/
structure ReadsAs (res : Resolver) (text target : List UInt8) (id : HttpMethod)
    (headers : List HttpHeader) : Prop where
  accepted : ∀ pieces : List (List UInt8), pieces ≠ [] → pieces.flatten = text →
    ∀ uri, parseUri res target target.length = .ok uri →
      observeMessage (feedParser res parserRequestInit pieces) =
        (.success,some (requestView target uri id headers))
  refused : ∀ pieces : List (List UInt8), pieces ≠ [] → pieces.flatten = text →
    ∀ e, parseUri res target target.length = .error e →
      (feedParser res parserRequestInit pieces).1 = .failure

/-- A line `METHOD target HTTP/1.1`. -/
def requestLineOf (method target : List UInt8) (hne : method ≠ [])
    (hmethod : ∀ c ∈ method, isIdentifierChar c = true) (htarget_ne : target ≠ [])
    (htarget : ∀ c ∈ target, isTargetChar c = true) : WrittenRequest where
  method := method
  target := target
  version := cstr "1.1"
  method_ne := hne
  method_chars := hmethod
  target_ne := htarget_ne
  target_chars := htarget
  version_text := version_text
  version_head := version_head

theorem readsAs_written (res : Resolver) (q : WrittenRequest) (hq : q.version = cstr "1.1")
    {fs : List WrittenField} (hfs : Distinct fs) {id : HttpMethod}
    (hid : lookupName q.method httpMethodTable true = some id)
    (hno : [HttpMethod.head,.get,.subscribe,.unsubscribe,.msearch].contains id = true) :
    ReadsAs res (writtenMessage q fs []) q.target id (fs.map WrittenField.header) := by
  have hver : sscanf versionScan (untilNul q.version) = [1,1] := by
    rw [hq]
    decide
  have hpost : id ≠ .post := by
    rintro rfl
    cases hno
  have hwritten := parserAppend_written res q fs [] hid hver (by decide)
    (by rintro ⟨-,h,-⟩; exact absurd h (by decide))
    (fun p hp hm => ⟨(readFields_distinct hfs hp).1,(readFields_distinct hfs hp).2.trans hm⟩) hpost
  constructor
  · intro pieces hne hpieces uri huri
    rcases hwritten.1 uri huri with ⟨p,hp,hbody⟩
    rw [feedParser_request res (writtenMessage_splits q fs []) hne hpieces,hp]
    exact hbody.withoutBody hno
  · intro pieces hne hpieces e he
    have hfeed := feedParser_request res (writtenMessage_splits q fs []) hne hpieces
    exact (congrArg Prod.fst hfeed).trans (hwritten.2 e he)

theorem isDigit_target (c : UInt8) (h : isBaseDigit 10 c = true) :
    isPlainChar c = true ∧ isBlank c = false := by
  revert h
  exact byte_forall (P := fun c => isBaseDigit 10 c = true → isPlainChar c = true ∧
    isBlank c = false) (by decide +kernel) c

theorem printNumeral_plain (n : ℕ) : ∀ c ∈ printNumeral 10 n, isPlainChar c = true := fun c hc =>
  (isDigit_target c ((printNumeral_numeral (by decide) (by decide) n).digits c hc)).1

theorem printTwo_plain (n : ℕ) : ∀ c ∈ printTwo n, isPlainChar c = true := by
  intro c hc
  unfold printTwo at hc
  split at hc
  · rcases List.mem_cons.mp hc with rfl | hc
    · decide
    · exact printNumeral_plain n c hc
  · exact printNumeral_plain n c hc

theorem getD_plain {l : List (List UInt8)} (h : ∀ s ∈ l, ∀ c ∈ s, isPlainChar c = true) (i : ℕ) :
    ∀ c ∈ l.getD i [], isPlainChar c = true := by
  intro c hc
  rw [List.getD_eq_getElem?_getD] at hc
  cases hi : l[i]? with
  | none =>
    rw [hi] at hc
    cases hc
  | some s =>
    rw [hi] at hc
    exact h s (List.mem_of_getElem? hi) c hc

theorem dateText_plain (date : Tm) : ∀ c ∈ dateText date, isPlainChar c = true := by
  have hweek := getD_plain (l := weekdayStr) (by decide) date.wday
  have hmonth := getD_plain (l := monthStr) (by decide) date.mon
  have hmarks : ∀ s ∈ [cstr ", ",cstr " ",cstr ":",cstr " GMT"], ∀ c ∈ s,
      isPlainChar c = true := by decide
  simp only [List.forall_mem_cons] at hmarks
  simp only [dateText,List.forall_mem_append]
  exact ⟨⟨⟨⟨⟨⟨⟨⟨⟨⟨⟨⟨⟨hweek,hmarks.1⟩,printTwo_plain _⟩,hmarks.2.1⟩,hmonth⟩,hmarks.2.1⟩,
    printNumeral_plain _⟩,hmarks.2.1⟩,printTwo_plain _⟩,hmarks.2.2.1⟩,printTwo_plain _⟩,
    hmarks.2.2.1⟩,printTwo_plain _⟩,hmarks.2.2.2.1⟩

theorem dateText_head (date : Tm) : ∀ c ∈ (dateText date).head?, isBlank c = false := by
  have hall : ∀ s ∈ weekdayStr, ∀ c ∈ (s++cstr ", ").head?, isBlank c = false := by decide
  have hday : ∀ c ∈ (weekdayStr.getD date.wday []++cstr ", ").head?, isBlank c = false := by
    rw [List.getD_eq_getElem?_getD]
    cases hi : weekdayStr[date.wday]? with
    | none => decide
    | some s => exact hall s (List.mem_of_getElem? hi)
  intro c hc
  refine hday c ?_
  obtain ⟨d,r,hr⟩ : ∃ d r, weekdayStr.getD date.wday []++cstr ", " = d::r := by
    cases h : weekdayStr.getD date.wday [] with
    | nil => exact ⟨44,[32],rfl⟩
    | cons d r => exact ⟨d,r++cstr ", ",rfl⟩
  rw [hr]
  simpa only [dateText,hr,List.cons_append,List.head?_cons] using hc

theorem trimRight_ended (w : List UInt8) {c : UInt8}
    (hc : (c == 32 || c == 9 || c == cr || c == lf) = false) : trimRight (w++[c]) = w++[c] := by
  unfold trimRight
  rw [List.reverse_append,List.reverse_singleton,List.singleton_append,
    List.dropWhile_cons_of_neg (by simp [hc]),List.reverse_cons,List.reverse_reverse]

@[simp] theorem dateText_trimmed (date : Tm) :
    startValue (trimRight (dateText date)) = dateText date := by
  obtain ⟨v,hv⟩ : ∃ v, dateText date = v++cstr " GMT" := ⟨_,rfl⟩
  have hend : cstr " GMT" = cstr " GM"++[84] := rfl
  rw [hv,hend,← List.append_assoc,trimRight_ended _ rfl,startValue,if_neg (by simp)]

theorem date_ne : cstr "DATE" ≠ [] := by decide

theorem date_chars : ∀ c ∈ cstr "DATE", isIdentifierChar c = true := by decide

def dateField (date : Tm) : WrittenField where
  name := cstr "DATE"
  blanks := [32]
  value := dateText date
  name_ne := date_ne
  name_chars := date_chars
  blanks_chars := space_blank
  text := lineText_of_plain (dateText_plain date)
  head := dateText_head date

theorem connection_ne : cstr "CONNECTION" ≠ [] := by decide

theorem connection_chars : ∀ c ∈ cstr "CONNECTION", isIdentifierChar c = true := by decide

theorem close_target : ∀ c ∈ cstr "close", isTargetChar c = true := by decide

def connectionField : WrittenField :=
  wordField (cstr "CONNECTION") (cstr "close") connection_ne connection_chars close_target

theorem range_ne : cstr "Range" ≠ [] := by decide

theorem range_chars : ∀ c ∈ cstr "Range", isIdentifierChar c = true := by decide

/-- The value of the header that asks for the bytes from `lowRange` to `highRange`. -/
def rangeValue (lowRange highRange : ℕ) : List UInt8 :=
  cstr "bytes="++(printNumeral 10 lowRange++45::printNumeral 10 highRange)

theorem rangeValue_target (lowRange highRange : ℕ) :
    ∀ c ∈ rangeValue lowRange highRange, isTargetChar c = true := by
  have hname : ∀ c ∈ cstr "bytes=", isTargetChar c = true := by decide
  simp only [rangeValue,List.forall_mem_append,List.forall_mem_cons]
  exact ⟨hname,printNumeral_target _,by decide,printNumeral_target _⟩

def rangeField (lowRange highRange : ℕ) : WrittenField :=
  wordField (cstr "Range") (rangeValue lowRange highRange) range_ne range_chars
    (rangeValue_target lowRange highRange)

/-- Behind the HOST header; a download of a part has a range in front. -/
def getFields (host info : List UInt8) (hhost : ∀ c ∈ host, isTargetChar c = true)
    (hinfo : ∀ c ∈ info, isPlainChar c = true) (range : Option (ℕ × ℕ)) (date : Tm) :
    List WrittenField :=
  [wordField (cstr "HOST") host host_ne host_chars hhost]++
    (range.toList.map fun r => rangeField r.1 r.2)++
    [dateField date,connectionField,userAgentField info hinfo]

/-- The `RangeHeader` of `http_OpenHttpGetEx`, which it is long enough for. -/
def rangeSpecifier (lowRange highRange : ℤ) : SendInstruction :=
  ⟨cstr "Range: bytes="++(printInt lowRange++45::(printInt highRange++[cr,lf]))⟩

/-- `http_OpenHttpGetEx` up to the request. -/
def httpOpenHttpGetExRequest (lowRange highRange : ℤ) (res : Resolver) (sys : Platform)
    (urlStr : CString) : Except BuildError (UriType × List UInt8) :=
  if highRange < lowRange then .error (.code upnpEInternalError)
  else makeGetMessageEx (rangeSpecifier lowRange highRange) res sys urlStr

theorem getHeaders_text {sys : Platform} {date : Tm} (hdate : sys.gmtime sys.time = some date)
    (hsdk : SdkInfo (sys.getSdkInfo messageBufSize)) : httpMakeMessage sys 1 1 getHeaders.1 getHeaders.2 =
    .ok ((dateField date).line++(connectionField.line++
      ((userAgentField (sdkName (sys.getSdkInfo messageBufSize)) hsdk.split.2.1).line++[cr,lf]))) := by
  rcases hsdk.split with ⟨hinfo,hplain,hnul⟩
  have hD : makeLetter sys 1 1 (makeMessage sys 1 1 2) .D [] =
      .ok (cstr "DATE: "++dateText date++[cr,lf],[]) := by
    simp only [makeLetter,hdate]
  have hU := makeLetter_U sys 1 1 1 []
  rw [hnul] at hU
  have htext : httpMakeMessage sys 1 1 [.D,.C,.U,.c] [] = .ok _ :=
    makeFormat_cons hD (makeFormat_cons rfl (makeFormat_cons hU (makeFormat_cons rfl rfl)))
  have hclose : connectionField.line = cstr "CONNECTION: close\r\n" := by decide
  have hdateline : (dateField date).line = cstr "DATE: "++dateText date++[cr,lf] := by
    rw [List.append_assoc]
    rfl
  refine htext.trans (congrArg Except.ok ?_)
  rw [hclose,hdateline,userAgentField_line]
  nth_rewrite 1 [hinfo]
  rfl

theorem rangeHeaders_text {sys : Platform} {date : Tm} (hdate : sys.gmtime sys.time = some date)
    (hsdk : SdkInfo (sys.getSdkInfo messageBufSize)) (lowRange highRange : ℕ) :
    httpMakeMessage sys 1 1 (rangeHeaders (rangeSpecifier lowRange highRange)).1
        (rangeHeaders (rangeSpecifier lowRange highRange)).2 =
      .ok ((rangeField lowRange highRange).line++((dateField date).line++(connectionField.line++
        ((userAgentField (sdkName (sys.getSdkInfo messageBufSize)) hsdk.split.2.1).line++
          [cr,lf])))) := by
  have hline : (rangeField lowRange highRange).line =
      untilNul (rangeSpecifier lowRange highRange).rangeHeader := by
    rw [untilNul_of_no_nul]
    · simp only [rangeSpecifier,printInt_natCast,rangeField,wordField,WrittenField.line,rangeValue,
        List.append_assoc,List.cons_append]
      rfl
    · have hname : (0 : UInt8) ∉ cstr "Range: bytes=" := by decide
      simp [rangeSpecifier,printInt_natCast,hname,printNumeral_noNul,cr,lf]
  rw [hline]
  exact makeFormat_cons rfl (getHeaders_text hdate hsdk)

theorem requestUrl {res : Resolver} (hin : Inet6Chars res) {urlStr : CString} {url : UriType}
    (h : httpFixStrUrl res urlStr.val urlStr.val.length = .ok url) : RequestUrl url := by
  refine httpFixStrUrl_ok hin (s := urlStr.val) ?_
  rwa [untilNul_of_no_nul urlStr.property]

/-- A URL of which the builders take the host that is meant. -/
theorem hostTaken_eq {res : Resolver} {urlStr : CString} {url : UriType}
    (h : httpFixStrUrl res urlStr.val urlStr.val.length = .ok url)
    (hpath : PathBehindHost urlStr url) :
    47 ∈ urlStr.val.drop 7 ∧ hostTaken urlStr = url.hostport.text.text :=
  (pathBehindHost_iff h).mp hpath

theorem get_ne : cstr "GET" ≠ [] := by decide

theorem get_chars : ∀ c ∈ cstr "GET", isIdentifierChar c = true := by decide

def getHeaderList (host info : List UInt8) (range : Option (ℕ × ℕ)) (date : Tm) :
    List HttpHeader :=
  [⟨cstr "HOST",.host,host⟩]++
    (range.toList.map fun r => ⟨cstr "Range",.range,rangeValue r.1 r.2⟩)++
    [⟨cstr "DATE",.date,dateText date⟩,⟨cstr "CONNECTION",.unknown,cstr "close"⟩,
      ⟨cstr "USER-AGENT",.userAgent,startValue (trimRight (info.dropWhile isBlank))⟩]

theorem rangeValue_ne (lowRange highRange : ℕ) : rangeValue lowRange highRange ≠ [] := by
  simp [rangeValue]

theorem getFields_headers {host info : List UInt8} (hhost : ∀ c ∈ host, isTargetChar c = true)
    (hne : host ≠ []) (hinfo : ∀ c ∈ info, isPlainChar c = true) (range : Option (ℕ × ℕ))
    (date : Tm) : Distinct (getFields host info hhost hinfo range date) ∧
      (getFields host info hhost hinfo range date).map WrittenField.header =
        getHeaderList host info range date := by
  have hnames : [cstr "HOST",cstr "Range",cstr "DATE",cstr "CONNECTION",cstr "USER-AGENT"].map
      nameIdOf = [.host,.range,.date,.unknown,.userAgent] := by decide
  simp only [List.map_cons,List.map_nil,List.cons.injEq,and_true] at hnames
  rcases hnames with ⟨h₁,h₂,h₃,h₄,h₅⟩
  have hclose := startValue_word (w := cstr "close") (by decide) close_target
  constructor
  · cases range with
    | none =>
      refine ⟨?_,?_⟩
      · change ([cstr "HOST",cstr "DATE",cstr "CONNECTION",cstr "USER-AGENT"].map lowerName).Nodup
        decide
      · simp [getFields,wordField,dateField,connectionField,userAgentField,h₁,h₃,h₄,h₅]
    | some r =>
      refine ⟨?_,?_⟩
      · change ([cstr "HOST",cstr "Range",cstr "DATE",cstr "CONNECTION",cstr "USER-AGENT"].map
          lowerName).Nodup
        decide
      · simp [getFields,wordField,rangeField,dateField,connectionField,userAgentField,h₁,h₂,h₃,h₄,h₅]
  · cases range with
    | none =>
      simp [getFields,getHeaderList,WrittenField.header,wordField,dateField,connectionField,
        userAgentField,h₁,h₃,h₄,h₅,startValue_word hne hhost,dateText_trimmed,hclose]
    | some r =>
      simp [getFields,getHeaderList,WrittenField.header,wordField,rangeField,dateField,
        connectionField,userAgentField,h₁,h₂,h₃,h₄,h₅,startValue_word hne hhost,dateText_trimmed,
        hclose,startValue_word (rangeValue_ne r.1 r.2) (rangeValue_target r.1 r.2)]

def getLine (url : UriType) (h : RequestUrl url) : WrittenRequest :=
  requestLineOf (cstr "GET") url.pathquery.text get_ne get_chars h.target_ne h.target_chars

@[simp] theorem wordField_line {name value : List UInt8} (hne : name ≠ [])
    (hname : ∀ c ∈ name, isIdentifierChar c = true) (hvalue : ∀ c ∈ value, isTargetChar c = true) :
    (wordField name value hne hname hvalue).line = name++58::32::(value++[cr,lf]) := rfl

theorem requestText_written {name path host : List UInt8} (hne : name ≠ [])
    (hname : ∀ c ∈ name, isIdentifierChar c = true) (hpath_ne : path ≠ [])
    (hpath : ∀ c ∈ path, isTargetChar c = true) (hhost : ∀ c ∈ host, isTargetChar c = true)
    (fs : List WrittenField) :
    requestText name path host (fs.flatMap WrittenField.line++[cr,lf]) =
      writtenMessage (requestLineOf name path hne hname hpath_ne hpath)
        (wordField (cstr "HOST") host host_ne host_chars hhost::fs) [] := by
  have hversion : cstr " HTTP/1.1\r\n" = 32::(cstr "HTTP"++47::(cstr "1.1"++[cr,lf])) := by
    decide
  have hhost : cstr "HOST: " = cstr "HOST"++58::[32] := rfl
  have hspace : cstr " " = [32] := rfl
  simp [requestText,writtenMessage,requestLineOf,WrittenRequest.line,hversion,hhost,hspace,
    List.append_assoc]

/-- The fields behind the HOST header as they are printed. -/
def getLines (info : List UInt8) (hinfo : ∀ c ∈ info, isPlainChar c = true)
    (range : Option (ℕ × ℕ)) (date : Tm) : List UInt8 :=
  ((range.toList.map fun r => rangeField r.1 r.2)++[dateField date,connectionField,
    userAgentField info hinfo]).flatMap WrittenField.line++[cr,lf]

theorem readsAs_get (res : Resolver) {url : UriType} (hu : RequestUrl url) {info : List UInt8}
    (hinfo : ∀ c ∈ info, isPlainChar c = true) (range : Option (ℕ × ℕ)) (date : Tm) :
    ReadsAs res (requestText (cstr "GET") url.pathquery.text url.hostport.text.text
        (getLines info hinfo range date)) url.pathquery.text .get
      (getHeaderList url.hostport.text.text info range date) := by
  have hfields := getFields_headers hu.host_chars hu.host_ne hinfo range date
  have hid : lookupName (cstr "GET") httpMethodTable true = some .get := by decide
  have hread := readsAs_written res (getLine url hu) rfl hfields.1 hid (by decide)
  rw [hfields.2] at hread
  rw [getLines,requestText_written get_ne get_chars hu.target_ne hu.target_chars hu.host_chars]
  exact hread

theorem urlWithPath_fixed : ∃ url,
    httpFixStrUrl inet4Resolver urlWithPath.val urlWithPath.val.length = .ok url ∧
      url.hostport.text.text = cstr "1.2.3.4" ∧ PathBehindHost urlWithPath url := by
  have hurl : ∃ url, httpFixStrUrl inet4Resolver urlWithPath.val urlWithPath.val.length = .ok url ∧
      url.hostport.text.text = cstr "1.2.3.4" := ⟨_,rfl,rfl⟩
  rcases hurl with ⟨url,hurl,hhost⟩
  exact ⟨url,hurl,hhost,(pathBehindHost_iff hurl).mpr ⟨by decide,by rw [hhost]; decide⟩⟩

/-- A download and a GET are read back as what was meant. -/
theorem getRequest_readBack (res res' : Resolver) (hin : Inet6Chars res) {sys : Platform}
    (hsdk : SdkInfo (sys.getSdkInfo messageBufSize)) {date : Tm}
    (hdate : sys.gmtime sys.time = some date) {urlStr : CString} {url : UriType}
    (h : httpFixStrUrl res urlStr.val urlStr.val.length = .ok url)
    (hpath : PathBehindHost urlStr url) :
    ∃ request, httpDownloadRequest res sys urlStr = .ok (url,request) ∧
      makeGetMessage none res sys urlStr = .ok (url,request) ∧
      ReadsAs res' request url.pathquery.text .get (getHeaderList url.hostport.text.text
        (sdkName (sys.getSdkInfo messageBufSize)) none date) := by
  rcases hostTaken_eq h hpath with ⟨hslash,hhost⟩
  have hmade : httpMakeMessage sys 1 1 getHeaders.1 getHeaders.2 =
      .ok (getLines _ hsdk.split.2.1 none date) := by
    rw [getHeaders_text hdate hsdk]
    simp [getLines,List.append_assoc]
  refine ⟨requestText (cstr "GET") url.pathquery.text (hostTaken urlStr)
    (getLines _ hsdk.split.2.1 none date),?_,?_,?_⟩
  · exact (makeRequest_ok_iff h methodToStr_get).mpr ⟨.inl rfl,getHeaders,_,rfl,hmade,rfl⟩
  · exact (makeRequest_ok_iff h methodToStr_get).mpr ⟨.inr hslash,getHeaders,_,rfl,hmade,rfl⟩
  · rw [hhost]
    exact readsAs_get res' (requestUrl hin h) hsdk.split.2.1 none date

theorem getRequest_urlWithPath : ∃ url request,
    httpDownloadRequest inet4Resolver datedPlatform urlWithPath = .ok (url,request) ∧
      makeGetMessage none inet4Resolver datedPlatform urlWithPath = .ok (url,request) ∧
      ReadsAs inet4Resolver request url.pathquery.text .get (getHeaderList (cstr "1.2.3.4")
        someSdk none ⟨0,0,0,1,0,70,4⟩) := by
  rcases urlWithPath_fixed with ⟨url,hurl,hhost,hpath⟩
  have hsdk : SdkInfo (datedPlatform.getSdkInfo messageBufSize) := somePlatform_sdk
  rcases getRequest_readBack inet4Resolver inet4Resolver inet4Resolver_chars hsdk rfl hurl hpath with
    ⟨request,hdownload,hget,hread⟩
  rw [hhost] at hread
  exact ⟨url,request,hdownload,hget,hread⟩

theorem rangeValue_requests (lowRange highRange : ℕ) :
    Web.Requests (rangeValue lowRange highRange) (.span lowRange highRange) := by
  have hblank : Web.Blank [] := List.forall_mem_nil _
  have htext := Web.RangeText.span hblank hblank hblank hblank
    (printNumeral_numeral (by decide) (by decide) lowRange)
    (printNumeral_numeral (by decide) (by decide) highRange)
  refine ⟨[],cstr "bytes",[],_,[],?_,hblank,hblank,by decide,htext,by simp⟩
  simp only [rangeValue,List.nil_append,List.append_nil]
  rfl

def Granted (lowRange highRange : ℕ) (fileLength : ℤ) (r : ℤ × Web.SendInstruction) : Prop :=
  r.1 = Web.httpOk ∧ r.2.rangeOffset = lowRange ∧
    r.2.rangeOffset+r.2.readSendSize = min ((highRange : ℤ)+1) fileLength

theorem rangeValue_granted {lowRange highRange : ℕ} (hle : lowRange ≤ highRange) {fileLength : ℤ}
    (hlow : lowRange < fileLength) (hlength : fileLength ≤ longMax) (instr : Web.SendInstruction) :
    Granted lowRange highRange fileLength
      (Web.createHTTPRangeResponseHeader (rangeValue lowRange highRange) fileLength instr) := by
  rcases (rangeValue_requests lowRange highRange).read with ⟨ptr,hptr,hread⟩
  have hfirst : Web.firstRange (rangeValue lowRange highRange) =
      some (Web.clamped lowRange,Web.clamped highRange) := by
    rw [Web.firstRange,hptr]
    exact hread
  have hgranted : Web.granted (Web.clamped lowRange) (Web.clamped highRange) fileLength =
      some ((lowRange : ℤ),min (Web.clamped highRange) (fileLength-1)-lowRange+1) := by
    have hclamped : Web.clamped lowRange = lowRange := min_eq_left (by omega)
    have hspan : 0 ≤ (lowRange : ℤ) ∧ (lowRange : ℤ) ≤ fileLength ∧
        (lowRange : ℤ) ≤ Web.clamped highRange := by
      simp only [Web.clamped]
      omega
    rw [hclamped,Web.granted,if_pos hspan]
  rcases Web.createHTTPRangeResponseHeader_eq (rangeValue lowRange highRange) (by omega) hlength instr
    with ⟨i,hi⟩
  rw [hfirst,Option.bind_some,hgranted] at hi
  rw [hi]
  refine ⟨rfl,rfl,?_⟩
  simp only [Web.partialContent,Web.clamped]
  omega

/-- The range of bytes that is asked for arrives, and is what a server with these ranges grants. -/
theorem rangeRequest_readBack (res res' : Resolver) (hin : Inet6Chars res) {sys : Platform}
    (hsdk : SdkInfo (sys.getSdkInfo messageBufSize)) {date : Tm}
    (hdate : sys.gmtime sys.time = some date) {urlStr : CString} {url : UriType}
    (h : httpFixStrUrl res urlStr.val urlStr.val.length = .ok url)
    (hpath : PathBehindHost urlStr url) {lowRange highRange : ℕ} (hle : lowRange ≤ highRange) :
    ∃ request, httpOpenHttpGetExRequest lowRange highRange res sys urlStr = .ok (url,request) ∧
      ReadsAs res' request url.pathquery.text .get (getHeaderList url.hostport.text.text
        (sdkName (sys.getSdkInfo messageBufSize)) (some (lowRange,highRange)) date) ∧
      ∀ (fileLength : ℤ) (instr : Web.SendInstruction), lowRange < fileLength →
        fileLength ≤ longMax → Granted lowRange highRange fileLength
          (Web.createHTTPRangeResponseHeader (rangeValue lowRange highRange) fileLength instr) := by
  rcases hostTaken_eq h hpath with ⟨hslash,hhost⟩
  have hmade : httpMakeMessage sys 1 1 (rangeHeaders (rangeSpecifier lowRange highRange)).1
      (rangeHeaders (rangeSpecifier lowRange highRange)).2 =
      .ok (getLines _ hsdk.split.2.1 (some (lowRange,highRange)) date) := by
    rw [rangeHeaders_text hdate hsdk]
    simp [getLines,List.append_assoc]
  refine ⟨requestText (cstr "GET") url.pathquery.text (hostTaken urlStr)
    (getLines _ hsdk.split.2.1 (some (lowRange,highRange)) date),?_,?_,?_⟩
  · rw [httpOpenHttpGetExRequest,if_neg (by omega)]
    exact (makeRequest_ok_iff h methodToStr_get).mpr ⟨.inr hslash,_,_,rfl,hmade,rfl⟩
  · rw [hhost]
    exact readsAs_get res' (requestUrl hin h) hsdk.split.2.1 _ date
  · exact fun fileLength instr hlow hlength => rangeValue_granted hle hlow hlength instr

theorem rangeRequest_urlWithPath : ∃ url request,
    httpOpenHttpGetExRequest 500 999 inet4Resolver datedPlatform urlWithPath = .ok (url,request) ∧
      ReadsAs inet4Resolver request url.pathquery.text .get (getHeaderList (cstr "1.2.3.4")
        someSdk (some (500,999)) ⟨0,0,0,1,0,70,4⟩) ∧
      Granted 500 999 600
        (Web.createHTTPRangeResponseHeader (rangeValue 500 999) 600 Web.noInstruction) := by
  rcases urlWithPath_fixed with ⟨url,hurl,hhost,hpath⟩
  have hsdk : SdkInfo (datedPlatform.getSdkInfo messageBufSize) := somePlatform_sdk
  rcases rangeRequest_readBack inet4Resolver inet4Resolver inet4Resolver_chars hsdk rfl hurl hpath
    (by decide : 500 ≤ 999) with ⟨request,hget,hread,hgranted⟩
  rw [hhost] at hread
  exact ⟨url,request,hget,hread,hgranted 600 _ (by decide) (by decide)⟩

end Http
end CtrlPt
