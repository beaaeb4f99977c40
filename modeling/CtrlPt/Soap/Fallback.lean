import CtrlPt.Lib.Occurs
import CtrlPt.Soap.Action
import CtrlPt.Util.MembufferRuns

/-! The second attempt of `SoapSendAction`. A device that does not allow POST gets an M-POST,
which is made of the text of the first request. -/
namespace CtrlPt
namespace Soap

open CText Uri Http

def httpMethodNotAllowed : ℤ := 405

/-- `membuffer_insert` of all of `data`, when there is memory. -/
def inserted (headers data : List UInt8) (index : ℕ) : List UInt8 :=
  (Util.Operation.insert (some data) data.length index).onList headers

def manHdr : List UInt8 :=
  cstr "MAN: \"http://schemas.xmlsoap.org/soap/envelope/\"; ns=01\r\n01-"

def addManHeader (headers : List UInt8) : Except Memory.Fault (List UInt8) :=
  -- change POST to M-POST
  let headers := inserted headers (cstr "M-") 0
  match strstr (untilNul headers) (cstr "SOAPACTION:") with
  | none => .error .assertion
  | some n => .ok (inserted headers manHdr n)

/-- One `http_RequestAndResponse`: the code of connecting and sending, and what can be read. -/
structure Exchange where
  sendCode : ℤ
  sockInfo : SockInfo

def httpRequestAndResponse (res : Resolver) (maxContentLength : ℕ) (reqMethod : HttpMethod)
    (x : Exchange) : ℤ × ℤ :=
  if x.sendCode ≠ 0 then (x.sendCode,(parserResponseInit reqMethod).msg.statusCode)
  else
    let r := httpRecvMessage res maxContentLength reqMethod x.sockInfo
    (r.code,r.parser.msg.statusCode)

/-- The code and the requests that were sent. -/
def soapRequestAndResponse (res : Resolver) (maxContentLength : ℕ) (request : List UInt8)
    (first second : Exchange) : Except Memory.Fault (ℤ × List (List UInt8)) :=
  let r := httpRequestAndResponse res maxContentLength .soapPost first
  if r.1 ≠ 0 then .ok (r.1,[request])
  else if r.2 = httpMethodNotAllowed then do
    let again ← addManHeader request
    .ok ((httpRequestAndResponse res maxContentLength .mpost second).1,[request,again])
  else .ok (r.1,[request])

def soapAction : List UInt8 := cstr "SOAPACTION:"

def mpostLine (q : WrittenRequest) : WrittenRequest :=
  { q with
    method := cstr "M-POST"
    method_ne := by decide
    method_chars := by decide }

theorem envelope_text : LineText (cstr "\"http://schemas.xmlsoap.org/soap/envelope/\"; ns=01") := by
  exact .quoted (cstr "http://schemas.xmlsoap.org/soap/envelope/") (cstr "; ns=01")
    (quotedText_of_plain (by decide)) (lineText_of_plain (by decide))

def manField : WrittenField where
  name := cstr "MAN"
  blanks := [32]
  value := cstr "\"http://schemas.xmlsoap.org/soap/envelope/\"; ns=01"
  name_ne := man_ne
  name_chars := man_chars
  blanks_chars := space_blank
  text := envelope_text
  head := by decide

theorem ns_chars : ∀ c ∈ cstr "01-", isIdentifierChar c = true := by decide

theorem ns_ne (name : List UInt8) : cstr "01-"++name ≠ [] := by simp [cstr]

/-- `01-` before the name. -/
def nsField (f : WrittenField) : WrittenField :=
  { f with
    name := cstr "01-"++f.name
    name_ne := ns_ne f.name
    name_chars := by
      intro c hc
      rcases List.mem_append.mp hc with hc | hc
      · exact ns_chars c hc
      · exact f.name_chars c hc }

def mpostFields (host info : List UInt8) (hhost : ∀ c ∈ host, isTargetChar c = true)
    (hinfo : ∀ c ∈ info, isPlainChar c = true) (n : ℕ) : List WrittenField :=
  (soapFields host info hhost hinfo n).flatMap fun f =>
    if f.name = cstr "SOAPACTION" then [manField,nsField f] else [f]

theorem mpostFields_eq (host info : List UInt8) (hhost : ∀ c ∈ host, isTargetChar c = true)
    (hinfo : ∀ c ∈ info, isPlainChar c = true) (n : ℕ) :
    mpostFields host info hhost hinfo n =
      [wordField (cstr "HOST") host host_ne host_chars hhost,
        wordField (cstr "CONTENT-LENGTH") (printNumeral 10 n) contentLength_ne
          contentLength_chars (printNumeral_target n),
        wordField (cstr "CONTENT-TYPE") (cstr "application/json") contentType_ne
          contentType_chars json_target,
        manField]++(nsField soapactionField::
      [wordField (cstr "UID") (cstr "yyccbb12345") uid_ne uid_chars uid_target,
        userAgentField info hinfo]) := rfl

/-- The text of the second request in front of the line break before `SOAPACTION:`. -/
def mpostHead (target host : List UInt8) (n : ℕ) : List UInt8 :=
  cstr "M-POST"++32::(target++32::(cstr "HTTP/1.1"++13::([]++10::(cstr "HOST:"++32::(host++13::([]++
    10::(cstr "CONTENT-LENGTH:"++32::(printNumeral 10 n++13::([]++
      10::(cstr "CONTENT-TYPE:"++32::(cstr "application/json"++[13])))))))))))

def soapTail (info : List UInt8) (hinfo : ∀ c ∈ info, isPlainChar c = true) (body : List UInt8) :
    List UInt8 :=
  [cr,lf]++((wordField (cstr "UID") (cstr "yyccbb12345") uid_ne uid_chars uid_target).line++
    ((userAgentField info hinfo).line++([cr,lf]++body)))

/-- In front of the header the name can only be part of the URL. -/
theorem soapAction_infix (target host : List UInt8) (n : ℕ) :
    soapAction <:+: mpostHead target host n ↔ soapAction <:+: target ∨ soapAction <:+: host := by
  have hspace : (32 : UInt8) ∉ soapAction := by decide
  have hcr : (13 : UInt8) ∉ soapAction := by decide
  have hlf : (10 : UInt8) ∉ soapAction := by decide
  have hnum : ¬soapAction <:+: printNumeral 10 n := by
    intro h
    have hs := h.subset (by decide : (83 : UInt8) ∈ soapAction)
    have hd := (printNumeral_numeral (by decide : 1 < 10) (by decide) n).digits 83 hs
    exact absurd hd (by decide)
  have hconst : ¬soapAction <:+: cstr "M-POST" ∧ ¬soapAction <:+: cstr "HTTP/1.1" ∧
      ¬soapAction <:+: [] ∧ ¬soapAction <:+: cstr "HOST:" ∧ ¬soapAction <:+: cstr "CONTENT-LENGTH:" ∧
      ¬soapAction <:+: cstr "CONTENT-TYPE:" ∧ ¬soapAction <:+: cstr "application/json" := by
    decide
  rcases hconst with ⟨h₁,h₂,h₃,h₄,h₅,h₆,h₇⟩
  simp only [mpostHead,infix_cut hspace,infix_cut hcr,infix_cut hlf,h₁,h₂,h₃,h₄,h₅,h₆,h₇,hnum,
    false_or,or_false]

section Texts

variable {url : UriType} (hu : RequestUrl url) {info : List UInt8}
  (hinfo : ∀ c ∈ info, isPlainChar c = true) (body : List UInt8)

def postText : List UInt8 :=
  writtenMessage (soapRequestLine url hu)
    (soapFields url.hostport.text.text info hu.host_chars hinfo body.length) body

/-- The second request as it should be. -/
def mpostText : List UInt8 :=
  writtenMessage (mpostLine (soapRequestLine url hu))
    (mpostFields url.hostport.text.text info hu.host_chars hinfo body.length) body

theorem postText_eq : cstr "M-"++postText hu hinfo body =
    mpostHead url.pathquery.text url.hostport.text.text body.length++
      10::(soapAction++soapTail info hinfo body) := by
  have hline : cstr "M-"++(cstr "POST"++32::(url.pathquery.text++32::(cstr "HTTP"++
      47::(cstr "1.1"++[cr,lf])))) =
        cstr "M-POST"++32::(url.pathquery.text++32::(cstr "HTTP/1.1"++[13,10])) := rfl
  unfold postText writtenMessage
  rw [← List.append_assoc]
  have hq : cstr "M-"++(soapRequestLine url hu).line =
      cstr "M-POST"++32::(url.pathquery.text++32::(cstr "HTTP/1.1"++[13,10])) := hline
  rw [hq]
  simp only [soapFields,List.flatMap_cons,List.flatMap_nil,mpostHead,soapTail,soapAction,
    WrittenField.line,wordField,soapactionField,List.append_assoc,List.cons_append,
    List.nil_append,List.append_nil]
  rfl

theorem mpostText_eq : mpostText hu hinfo body =
    mpostHead url.pathquery.text url.hostport.text.text body.length++
      10::(manHdr++(soapAction++soapTail info hinfo body)) := by
  have hman : ∀ x, manField.line++((nsField soapactionField).line++x) =
      manHdr++(soapAction++([cr,lf]++x)) := by
    intro x
    have hlines : manField.line++(nsField soapactionField).line =
        manHdr++(soapAction++[cr,lf]) := by decide
    rw [← List.append_assoc,hlines]
    simp only [List.append_assoc]
  unfold mpostText writtenMessage
  rw [mpostFields_eq]
  simp only [List.flatMap_append,List.flatMap_cons,List.flatMap_nil,List.append_assoc,
    List.nil_append,hman]
  generalize manHdr = man
  simp only [mpostHead,soapTail,soapAction,WrittenField.line,WrittenRequest.line,mpostLine,
    soapRequestLine,wordField,List.append_assoc,List.cons_append,List.nil_append]
  rfl

/-- No byte of the head is a NUL. -/
def HeadText (url : UriType) : Prop := 0 ∉ url.pathquery.text ∧ 0 ∉ url.hostport.text.text

theorem mpostHead_noNul {target host : List UInt8} (ht : 0 ∉ target) (hh : 0 ∉ host) (n : ℕ) :
    0 ∉ mpostHead target host n := by
  have hnum := printNumeral_noNul n
  have hconst : 0 ∉ cstr "M-POST" ∧ 0 ∉ cstr "HTTP/1.1" ∧ 0 ∉ cstr "HOST:" ∧
      0 ∉ cstr "CONTENT-LENGTH:" ∧ 0 ∉ cstr "CONTENT-TYPE:" ∧ 0 ∉ cstr "application/json" := by
    decide
  rcases hconst with ⟨h₁,h₂,h₃,h₄,h₅,h₆⟩
  simp [mpostHead,ht,hh,hnum,h₁,h₂,h₃,h₄,h₅,h₆]

theorem inserted_eq (headers data : List UInt8) (index : ℕ) :
    inserted headers data index = headers.take index++(data++headers.drop index) := by
  rw [inserted,Util.Operation.onList,Option.getD_some,List.take_length]

theorem searched_eq (hhead : HeadText url) :
    untilNul (inserted (postText hu hinfo body) (cstr "M-") 0) =
      mpostHead url.pathquery.text url.hostport.text.text body.length++
        10::(soapAction++untilNul (soapTail info hinfo body)) := by
  have hsoap : 0 ∉ 10::soapAction := by decide
  have hnul := mpostHead_noNul hhead.1 hhead.2 body.length
  rw [inserted_eq,List.take_zero,List.drop_zero,List.nil_append,postText_eq,untilNul_append hnul]
  exact congrArg _ (untilNul_append hsoap _)

/-- The header is found, and the text is as it should be. -/
theorem addManHeader_found (hhead : HeadText url)
    (hno : ¬(soapAction <:+: url.pathquery.text ∨ soapAction <:+: url.hostport.text.text)) :
    addManHeader (postText hu hinfo body) = .ok (mpostText hu hinfo body) := by
  have hlf : (10 : UInt8) ∉ soapAction := by decide
  rw [← soapAction_infix _ _ body.length] at hno
  have hfound := strstr_behind hlf (untilNul (soapTail info hinfo body)) hno
  simp only [addManHeader]
  rw [searched_eq hu hinfo body hhead]
  change strstr _ (cstr "SOAPACTION:") = _ at hfound
  rw [hfound]
  refine congrArg Except.ok ?_
  rw [inserted_eq,inserted_eq,List.take_zero,List.drop_zero,List.nil_append,postText_eq,mpostText_eq]
  have hsplit : ∀ x y : List UInt8, (x++10::y).take (x.length+1) = x++[10] ∧
      (x++10::y).drop (x.length+1) = y := by
    intro x y
    rw [← List.drop_drop,List.drop_left]
    refine ⟨?_,rfl⟩
    rw [show x++10::y = (x++[10])++y by simp]
    exact List.take_left' (by simp)
  rw [(hsplit _ _).1,(hsplit _ _).2]
  simp only [List.append_assoc,List.cons_append,List.nil_append]

/-- The name is found in the URL, and the text is not as it should be. -/
theorem addManHeader_misplaced (hhead : HeadText url)
    (hyes : soapAction <:+: url.pathquery.text ∨ soapAction <:+: url.hostport.text.text) :
    ∃ again, addManHeader (postText hu hinfo body) = .ok again ∧ again ≠ mpostText hu hinfo body := by
  rw [← soapAction_infix _ _ body.length] at hyes
  rcases strstr_within (10::(soapAction++untilNul (soapTail info hinfo body))) hyes with ⟨i,hi,hle⟩
  refine ⟨inserted (inserted (postText hu hinfo body) (cstr "M-") 0) manHdr i,?_,?_⟩
  · simp only [addManHeader]
    rw [searched_eq hu hinfo body hhead]
    change strstr _ (cstr "SOAPACTION:") = _ at hi
    rw [hi]
  · intro hsame
    have hlen : soapAction.length = 11 := rfl
    have hi' : i < (mpostHead url.pathquery.text url.hostport.text.text body.length).length := by
      omega
    -- at the place that is found, one text has the `M` of the field and the other the `S` found
    have hfound : (mpostText hu hinfo body)[i]? = some 83 := by
      rcases (strstr_eq_some.mp hi).2.1 with ⟨t,ht⟩
      have hget := congrArg (fun l : List UInt8 => l[0]?) ht
      simp only [List.getElem?_drop,Nat.add_zero,List.getElem?_append_left hi'] at hget
      rw [mpostText_eq,List.getElem?_append_left hi',← hget]
      rfl
    have hman : (inserted (inserted (postText hu hinfo body) (cstr "M-") 0) manHdr i)[i]? =
        some 77 := by
      have htake : ((inserted (postText hu hinfo body) (cstr "M-") 0).take i).length = i := by
        rw [inserted_eq _ _ 0,List.take_zero,List.drop_zero,List.nil_append,postText_eq,
          List.length_take,List.length_append]
        omega
      rw [inserted_eq _ _ i,List.getElem?_append_right (by omega),htake,Nat.sub_self]
      rfl
    rw [hsame,hfound] at hman
    exact absurd hman (by decide)

end Texts

theorem headText_of_url {res : Resolver} (hin : Inet6Chars res) {s : List UInt8} {url : UriType}
    (h : httpFixStrUrl res s (untilNul s).length = .ok url) : HeadText url := by
  rcases httpFixStrUrl_parts h with ⟨u,hu,hfix,r,hr,hnul⟩
  rcases httpFixUrl_ok hfix with ⟨-,hhost,-,hpath⟩
  constructor
  · rcases hpath with he | ⟨he,-⟩
    · rw [he]
      decide
    · rw [he,hr]
      exact fun h0 => hnul 0 (List.mem_of_mem_take h0) rfl
  · intro h0
    rw [hhost] at h0
    exact absurd (parseUri_host hin hu 0 h0) (by decide)

def mpostHeader (h : HttpHeader) : List HttpHeader :=
  if h.nameId = .soapaction then
    [⟨cstr "MAN",.man,cstr "\"http://schemas.xmlsoap.org/soap/envelope/\"; ns=01"⟩,
      ⟨cstr "01-"++h.name,.unknown,h.value⟩]
  else [h]

/-- What the second request is to read back as. -/
def mpostView (v : MessageView) : MessageView :=
  { v with method := .mpost, headers := v.headers.flatMap mpostHeader }

theorem readField_unknown {p : HttpParser} {f : WrittenField}
    (hid : lookupName f.name httpHeaderNames false = none)
    (hnew : ∀ x ∈ p.msg.headers.map HttpHeader.name, memptrCmpNocase x (untilNul f.name) ≠ 0) :
    (readField p f).msg.headers =
        p.msg.headers++[⟨f.name,.unknown,startValue (trimRight f.value)⟩] ∧
      (readField p f).msg.method = p.msg.method := by
  have hnone : findHdrStrIdx p.msg.headers f.name = none := by
    apply List.findIdx?_eq_none_iff.mpr
    intro x hx
    rw [beq_eq_false_iff_ne]
    exact hnew x.name (List.mem_map_of_mem hx)
  have hmethod : ¬lookupName f.name httpHeaderNames false = some .soapaction := by
    rw [hid]
    rintro ⟨⟩
  constructor
  · simp only [readField,addHeaderLine,HttpParser.advance,addHeader,hid,storeHeader,hnone,startValue]
  · exact if_neg hmethod

theorem mpostFields_headers {host info : List UInt8} (hhost : ∀ c ∈ host, isTargetChar c = true)
    (hne : host ≠ []) (hinfo : ∀ c ∈ info, isPlainChar c = true) (n : ℕ) {p : HttpParser}
    (hp : p.msg.headers = []) :
    ((mpostFields host info hhost hinfo n).foldl readField p).msg.headers =
        (soapHeaders host info n).flatMap mpostHeader ∧
      ((mpostFields host info hhost hinfo n).foldl readField p).msg.method = p.msg.method := by
  have hnum := startValue_word (printNumeral_numeral (by decide : 1 < 10) (by decide) n).ne_nil
    (printNumeral_target n)
  have hhost' := startValue_word hne hhost
  have htype := startValue_word (w := cstr "application/json") (by decide) json_target
  have huid := startValue_word (w := cstr "yyccbb12345") (by decide) uid_target
  have hman : startValue (trimRight manField.value) = manField.value := by decide
  have hnames : [cstr "HOST",cstr "CONTENT-LENGTH",cstr "CONTENT-TYPE",cstr "MAN",
      cstr "01-SOAPACTION",cstr "UID",cstr "USER-AGENT"].map
        (fun w => lookupName w httpHeaderNames false) =
      [some .host,some .contentLength,some .contentType,some .man,none,some .uid,
        some .userAgent] := by decide
  simp only [List.map_cons,List.map_nil,List.cons.injEq,and_true] at hnames
  rcases hnames with ⟨n₁,n₂,n₃,n₄,n₅,n₆,n₇⟩
  -- the fields before the renamed one, that one, and those behind it
  have hfirst := readFields_new [
    (wordField (cstr "HOST") host host_ne host_chars hhost,.host),
    (wordField (cstr "CONTENT-LENGTH") (printNumeral 10 n) contentLength_ne contentLength_chars
      (printNumeral_target n),.contentLength),
    (wordField (cstr "CONTENT-TYPE") (cstr "application/json") contentType_ne contentType_chars
      json_target,.contentType),
    (manField,.man)] (by simpa using ⟨n₁,n₂,n₃,n₄⟩) (p := p) (by
      rw [hp]
      simp only [List.map_cons,List.map_nil,List.nil_append]
      decide)
  rw [mpostFields_eq,List.foldl_append,List.foldl_cons]
  simp only [List.map_cons,List.map_nil,hp,List.nil_append] at hfirst
  generalize List.foldl readField p _ = p₁ at hfirst ⊢
  rcases hfirst with ⟨hheaders₁,hmethod₁⟩
  have hunknown := readField_unknown (p := p₁) (f := nsField soapactionField) n₅ (by
    rw [hheaders₁]
    change ∀ x ∈ [cstr "HOST",cstr "CONTENT-LENGTH",cstr "CONTENT-TYPE",cstr "MAN"],
      memptrCmpNocase x (untilNul (cstr "01-SOAPACTION")) ≠ 0
    decide)
  generalize readField p₁ _ = p₂ at hunknown ⊢
  rcases hunknown with ⟨hheaders₂,hmethod₂⟩
  rw [hheaders₁] at hheaders₂
  have hlast := readFields_new [
    (wordField (cstr "UID") (cstr "yyccbb12345") uid_ne uid_chars uid_target,.uid),
    (userAgentField info hinfo,.userAgent)] (by simpa using ⟨n₆,n₇⟩) (p := p₂) (by
      rw [hheaders₂]
      simp only [List.map_cons,List.map_nil,List.cons_append,List.nil_append]
      decide)
  simp only [List.map_cons,List.map_nil] at hlast
  refine ⟨hlast.1.trans ?_,?_⟩
  · rw [hheaders₂]
    simp only [wordField,nsField,soapactionField,userAgentField,hhost',hnum,htype,huid,hman]
    rfl
  · rw [hlast.2,if_neg (by decide),hmethod₂,hmethod₁,if_neg (by decide)]

theorem observe_failure {r : ParseStatus × HttpParser} (h : r.1 = .failure) :
    observeMessage r = (.failure,none) := by
  simp only [observeMessage,h]
  rfl

/-- The change from the first request to the second one. -/
def mpostRead (r : ParseStatus × Option MessageView) : ParseStatus × Option MessageView :=
  (r.1,r.2.map mpostView)

theorem parserAppend_mpost (res : Resolver) {url : UriType} (hu : RequestUrl url)
    {info : List UInt8} (hinfo : ∀ c ∈ info, isPlainChar c = true) (body : List UInt8) :
    observeMessage (parserAppend res parserRequestInit (mpostText hu hinfo body)) =
      mpostRead (observeMessage (parserAppend res parserRequestInit (postText hu hinfo body))) := by
  have hid : lookupName (soapRequestLine url hu).method httpMethodTable true = some .post := by
    change lookupName (cstr "POST") httpMethodTable true = _
    decide
  have hid' : lookupName (mpostLine (soapRequestLine url hu)).method httpMethodTable true =
      some .mpost := by
    change lookupName (cstr "M-POST") httpMethodTable true = _
    decide
  have hver : sscanf versionScan (untilNul (cstr "1.1")) = [1,1] := by decide
  have hmethod : HttpMethod.soapPost ≠ .post := by decide
  have hmethod' : HttpMethod.mpost ≠ .post := by decide
  have hpost := parserAppend_written res (soapRequestLine url hu) (soapFields url.hostport.text.text
    info hu.host_chars hinfo body.length) body hid hver (by decide) (by decide)
    (fun p hp _ => soapFields_headers hu.host_chars hu.host_ne hinfo body.length hp) hmethod
  have hmpost := parserAppend_written res (mpostLine (soapRequestLine url hu))
    (mpostFields url.hostport.text.text info hu.host_chars hinfo body.length) body hid' hver
    (by decide) (by decide) (fun p hp hm =>
      ⟨(mpostFields_headers hu.host_chars hu.host_ne hinfo body.length hp).1,
        (mpostFields_headers hu.host_chars hu.host_ne hinfo body.length hp).2.trans hm⟩) hmethod'
  cases htarget : parseUri res url.pathquery.text url.pathquery.text.length with
  | error e =>
    rw [postText,mpostText,observe_failure (hpost.2 e htarget),observe_failure (hmpost.2 e htarget)]
    rfl
  | ok target =>
    rcases hpost.1 target htarget with ⟨p,hp,hat⟩
    rcases hmpost.1 target htarget with ⟨p',hp',hat'⟩
    have hread := hat.clen (v := printNumeral 10 body.length) rfl
      (by simp [writtenView,soapHeaders]) rfl
    have hread' := hat'.clen (v := printNumeral 10 body.length) rfl
      (by simp [writtenView,soapHeaders,mpostHeader]) rfl
    rw [postText,mpostText,hp,hp',hread,hread']
    split
    · rfl
    · rfl

/-- The second request has the text it should have, and it is read as the first one, save for
the method and the two headers. -/
structure Resent (res : Resolver) {url : UriType} (hu : RequestUrl url) {info : List UInt8}
    (hinfo : ∀ c ∈ info, isPlainChar c = true) (body again : List UInt8) : Prop where
  text : again = mpostText hu hinfo body
  readBack : ∀ pieces pieces' : List (List UInt8), pieces ≠ [] → pieces' ≠ [] →
    pieces.flatten = postText hu hinfo body → pieces'.flatten = again →
      observeMessage (feedParser res parserRequestInit pieces') =
        mpostRead (observeMessage (feedParser res parserRequestInit pieces))

theorem resent_iff (res : Resolver) {url : UriType} (hu : RequestUrl url) (hhead : HeadText url)
    {info : List UInt8} (hinfo : ∀ c ∈ info, isPlainChar c = true) (body : List UInt8) :
    ∃ again, addManHeader (postText hu hinfo body) = .ok again ∧
      (Resent res hu hinfo body again ↔
        ¬(soapAction <:+: url.pathquery.text ∨ soapAction <:+: url.hostport.text.text)) := by
  by_cases hyes : soapAction <:+: url.pathquery.text ∨ soapAction <:+: url.hostport.text.text
  · rcases addManHeader_misplaced hu hinfo body hhead hyes with ⟨again,hagain,hne⟩
    exact ⟨again,hagain,fun h => absurd h.text hne,fun h => absurd hyes h⟩
  · refine ⟨_,addManHeader_found hu hinfo body hhead hyes,fun _ => hyes,fun _ => ⟨rfl,?_⟩⟩
    intro pieces pieces' hne hne' hflat hflat'
    rw [feedParser_request res (writtenMessage_splits _ _ _) hne hflat,
      feedParser_request res (writtenMessage_splits _ _ _) hne' hflat']
    exact parserAppend_mpost res hu hinfo body

/-- When the first attempt is not allowed, the request is sent again; it is the same request as
M-POST if and only if the name of the header does not stand in the URL. -/
theorem soapSendAction_mpost_iff (res res' : Resolver) (hin : Inet6Chars res) (sys : Platform)
    (hsdk : SdkInfo (sys.getSdkInfo messageBufSize)) (actionUrl serviceType : List UInt8)
    {url : UriType} (hurl : httpFixStrUrl res actionUrl (untilNul actionUrl).length = .ok url) :
    ∃ request again, soapSendAction res sys actionUrl serviceType = .ok (url,request) ∧
      request = postText (httpFixStrUrl_ok hin hurl) hsdk.split.2.1 (untilNul serviceType) ∧
      (∀ (maxContentLength : ℕ) (first second : Exchange),
        httpRequestAndResponse res maxContentLength .soapPost first = (0,httpMethodNotAllowed) →
          soapRequestAndResponse res maxContentLength request first second =
            .ok ((httpRequestAndResponse res maxContentLength .mpost second).1,[request,again])) ∧
      (Resent res' (httpFixStrUrl_ok hin hurl) hsdk.split.2.1 (untilNul serviceType) again ↔
        ¬(soapAction <:+: url.pathquery.text ∨ soapAction <:+: url.hostport.text.text)) := by
  have hu := httpFixStrUrl_ok hin hurl
  rcases resent_iff res' hu (headText_of_url hin hurl) hsdk.split.2.1 (untilNul serviceType) with
    ⟨again,hagain,hiff⟩
  refine ⟨_,again,soapSendAction_text hurl hu hsdk,rfl,?_,hiff⟩
  intro maxContentLength first second hfirst
  change addManHeader _ = .ok again at hagain
  unfold soapRequestAndResponse
  rw [hfirst]
  dsimp only
  rw [if_neg (by decide),if_pos rfl]
  unfold postText writtenMessage at hagain
  rw [hagain]
  rfl

theorem soapSendAction_mpost_lamp : ∃ url request again,
    soapSendAction inet4Resolver somePlatform (cstr "http://1.2.3.4/on?x=1") (cstr "[1]") =
      .ok (url,request) ∧
    ∃ hurl : httpFixStrUrl inet4Resolver (cstr "http://1.2.3.4/on?x=1")
        (untilNul (cstr "http://1.2.3.4/on?x=1")).length = .ok url,
      Resent Resolver.empty (httpFixStrUrl_ok inet4Resolver_chars hurl) somePlatform_sdk.split.2.1
        (untilNul (cstr "[1]")) again := by
  have hurl : ∃ url, httpFixStrUrl inet4Resolver (cstr "http://1.2.3.4/on?x=1")
      (untilNul (cstr "http://1.2.3.4/on?x=1")).length = .ok url ∧
      url.pathquery.text = cstr "/on?x=1" ∧ url.hostport.text.text = cstr "1.2.3.4" :=
    ⟨_,rfl,rfl,rfl⟩
  rcases hurl with ⟨url,hurl,ht,hh⟩
  rcases soapSendAction_mpost_iff inet4Resolver Resolver.empty inet4Resolver_chars somePlatform
    somePlatform_sdk _ (cstr "[1]") hurl with ⟨request,again,hreq,-,-,hiff⟩
  refine ⟨url,request,again,hreq,hurl,hiff.mpr ?_⟩
  rw [ht,hh]
  decide

/-- A path that has the name of the header in it. -/
theorem soapSendAction_mpost_misplaced : ¬∀ (res res' : Resolver) (hin : Inet6Chars res)
    (sys : Platform) (hsdk : SdkInfo (sys.getSdkInfo messageBufSize))
    (actionUrl serviceType : List UInt8) (url : UriType)
    (hurl : httpFixStrUrl res actionUrl (untilNul actionUrl).length = .ok url) (again : List UInt8),
      addManHeader (postText (httpFixStrUrl_ok hin hurl) hsdk.split.2.1 (untilNul serviceType)) =
        .ok again →
      Resent res' (httpFixStrUrl_ok hin hurl) hsdk.split.2.1 (untilNul serviceType) again := by
  intro h
  have hurl : ∃ url, httpFixStrUrl inet4Resolver (cstr "http://1.2.3.4/SOAPACTION:x")
      (untilNul (cstr "http://1.2.3.4/SOAPACTION:x")).length = .ok url ∧
      url.pathquery.text = cstr "/SOAPACTION:x" := ⟨_,rfl,rfl⟩
  rcases hurl with ⟨url,hurl,ht⟩
  have hu := httpFixStrUrl_ok inet4Resolver_chars hurl
  rcases resent_iff inet4Resolver hu (headText_of_url inet4Resolver_chars hurl)
    somePlatform_sdk.split.2.1 (untilNul []) with ⟨again,hagain,hiff⟩
  refine hiff.mp (h inet4Resolver inet4Resolver inet4Resolver_chars somePlatform somePlatform_sdk _
    [] url hurl again hagain) (.inl ?_)
  rw [ht]
  decide

end Soap
end CtrlPt
