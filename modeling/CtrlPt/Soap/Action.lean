import CtrlPt.Http.HeaderList
import CtrlPt.Http.MakeMessage
import CtrlPt.Http.WrittenMessage
import CtrlPt.Uri.Tokens

/-! `soap_ctrlpt.c`: the request `SoapSendAction` builds, and what the request parser makes
of it. -/
namespace CtrlPt
namespace Soap

open CText Uri Http

def contentTypeHeader : List UInt8 := cstr "CONTENT-TYPE: application/json\r\n"

/-- `SoapSendAction` up to the connection: the URL to connect to and the request. The action is
given as `service_type`. -/
def soapSendAction (res : Resolver) (sys : Platform) (actionUrl serviceType : List UInt8) :
    Except BuildError (UriType × List UInt8) :=
  match httpFixStrUrl res actionUrl (untilNul actionUrl).length with
  | .error _ => .error (.code upnpEInvalidUrl)
  | .ok url => do
    let requestBodyLen := (untilNul serviceType).length
    let request ← nestedCall (httpMakeMessage sys 1 1) [.q,.N,.s,.s,.c,.s,.s,.c,.U,.c,.b]
      [.method .soapPost,.uri url,.off requestBodyLen,.str contentTypeHeader,
        .str (cstr "SOAPACTION:"),.str (cstr "UID: "),.str (cstr "yyccbb12345"),.str serviceType,
        .size requestBodyLen]
    return (url,request)

/-- What a request relies on in the URL it is built for. -/
structure RequestUrl (url : UriType) : Prop where
  fixed : httpFixUrl url = .ok url
  target_ne : url.pathquery.text ≠ []
  target_chars : ∀ c ∈ url.pathquery.text, isTargetChar c = true
  target_run : parseUric url.pathquery.text = url.pathquery.text.length
  host_ne : url.hostport.text.text ≠ []
  host_chars : ∀ c ∈ url.hostport.text.text, isTargetChar c = true

theorem isTargetChar_cases (c : UInt8) :
    (isHostPortChar c = true → isTargetChar c = true) ∧
      ((isUnreserved c || isReserved c || c == 37) = true → c ≠ 0 → isTargetChar c = true) ∧
      (isDigit c = true → isTargetChar c = true) :=
  byte_forall (P := fun c => (isHostPortChar c = true → isTargetChar c = true) ∧
    ((isUnreserved c || isReserved c || c == 37) = true → c ≠ 0 → isTargetChar c = true) ∧
    (isDigit c = true → isTargetChar c = true)) (by decide +kernel) c

theorem httpFixStrUrl_parts {res : Resolver} {s : List UInt8} {url : UriType}
    (h : httpFixStrUrl res s (untilNul s).length = .ok url) :
    ∃ u, parseUri res s (untilNul s).length = .ok u ∧ httpFixUrl u = .ok url ∧
      ∃ r : List UInt8, u.pathquery.text = r.take (parseUric r) ∧ ∀ c ∈ r, c ≠ 0 := by
  unfold httpFixStrUrl at h
  split at h
  · cases h
  rename_i u hu
  have hu' := (parseUri_ok hu).2
  rw [take_untilNul] at hu'
  exact ⟨u,hu,h,_,by rw [hu']; rfl,fun c hc h0 => not_mem_untilNul s (h0 ▸ List.mem_of_mem_drop hc)⟩

/-- A URL that is accepted can be put into a request. -/
theorem httpFixStrUrl_ok {res : Resolver} (hin : Inet6Chars res) {s : List UInt8} {url : UriType}
    (h : httpFixStrUrl res s (untilNul s).length = .ok url) : RequestUrl url := by
  rcases httpFixStrUrl_parts h with ⟨u,hu,hfix,r,hr,hnul⟩
  rcases httpFixUrl_ok hfix with ⟨hfixed,hhost,hhost_ne,hpath⟩
  refine ⟨hfixed,?_,?_,?_,hhost_ne,fun c hc => ?_⟩
  · rcases hpath with he | ⟨-,hne⟩
    · rw [he]
      decide
    · exact hne
  · rcases hpath with he | ⟨he,-⟩
    · rw [he]
      decide
    · rw [he,hr]
      exact fun c hc => (isTargetChar_cases c).2.1 (parseUric_chars c hc)
        (hnul c (List.mem_of_mem_take hc))
  · rcases hpath with he | ⟨he,-⟩
    · rw [he]
      rfl
    · rw [he,hr,parseUric_take,List.length_take,Nat.min_eq_left (parseUric_le r)]
  · rw [hhost] at hc
    exact (isTargetChar_cases c).1 (parseUri_host hin hu c hc)

/-- What `get_sdk_info` writes: printable text without double quotes, and one line break. -/
structure SdkInfo (s : List UInt8) : Prop where
  parts : ∃ info, s = info++[cr,lf] ∧ ∀ c ∈ info, 32 ≤ c.toNat ∧ c.toNat ≤ 126 ∧ c ≠ 34

/-- The names of the system may be anything printable, up to 148 bytes together. -/
theorem getSdkInfo_sdk {sys : Platform}
    (hname : ∀ c ∈ sys.sysInfo.sysname, 32 ≤ c.toNat ∧ c.toNat ≤ 126 ∧ c ≠ 34)
    (hrelease : ∀ c ∈ sys.sysInfo.release, 32 ≤ c.toNat ∧ c.toNat ≤ 126 ∧ c ≠ 34)
    (hlen : sys.sysInfo.sysname.length+sys.sysInfo.release.length ≤ 148) :
    SdkInfo (sys.getSdkInfo messageBufSize) := by
  have huntil : ∀ {l : List UInt8}, (∀ c ∈ l, 32 ≤ c.toNat ∧ c.toNat ≤ 126 ∧ c ≠ 34) →
      untilNul l = l := by
    intro l hl
    refine untilNul_of_no_nul fun h0 => ?_
    have h := (hl 0 h0).1
    revert h
    decide
  have hfixed : ∀ c ∈ cstr "/"++cstr ", UPnP/1.0, Portable SDK for UPnP devices/"++packageVersion,
      32 ≤ c.toNat ∧ c.toNat ≤ 126 ∧ c ≠ 34 := by decide
  rw [List.forall_mem_append,List.forall_mem_append] at hfixed
  unfold Platform.getSdkInfo
  rw [huntil hname,huntil hrelease,List.take_of_length_le]
  · refine ⟨_,rfl,?_⟩
    simp only [List.forall_mem_append]
    exact ⟨⟨⟨⟨hname,hfixed.1.1⟩,hrelease⟩,hfixed.1.2⟩,hfixed.2⟩
  · have hend : (cstr "/").length+(cstr ", UPnP/1.0, Portable SDK for UPnP devices/").length+
        packageVersion.length+[cr,lf].length+148 ≤ messageBufSize-1 := by decide
    simp only [List.length_append] at hend ⊢
    omega

/-- `SdkInfo` without the line break. -/
def sdkName (s : List UInt8) : List UInt8 := s.take (s.length-2)

theorem SdkInfo.split {s : List UInt8} (h : SdkInfo s) : s = sdkName s++[cr,lf] ∧
    (∀ c ∈ sdkName s, isPlainChar c = true) ∧ untilNul s = s := by
  rcases h.parts with ⟨info,rfl,hinfo⟩
  have hname : sdkName (info++[cr,lf]) = info := by
    unfold sdkName
    rw [List.length_append]
    exact List.take_left
  rw [hname]
  refine ⟨rfl,fun c hc => ?_,?_⟩
  · rcases hinfo c hc with ⟨hlow,hhigh,hq⟩
    have hne : c ≠ cr ∧ c ≠ lf := by
      constructor <;> (rintro rfl; exact absurd hlow (by decide))
    simp only [isPlainChar,Bool.and_eq_true,decide_eq_true_eq,bne_iff_ne]
    exact ⟨⟨⟨by omega,hne.1⟩,hne.2⟩,hq⟩
  · apply List.takeWhile_eq_self_iff.mpr
    intro c hc
    rw [bne_iff_ne]
    rintro rfl
    rcases List.mem_append.mp hc with hc | hc
    · exact absurd (hinfo 0 hc).1 (by decide)
    · revert hc
      decide

def soapactionField : WrittenField where
  name := cstr "SOAPACTION"
  blanks := []
  value := []
  name_ne := by decide
  name_chars := by decide
  blanks_chars := by simp
  text := .nil
  head := by simp

/-- The system's name may begin with blanks. -/
def userAgentField (info : List UInt8) (h : ∀ c ∈ info, isPlainChar c = true) : WrittenField where
  name := cstr "USER-AGENT"
  blanks := 32::info.takeWhile isBlank
  value := info.dropWhile isBlank
  name_ne := by decide
  name_chars := by decide
  blanks_chars := by
    intro c hc
    rcases List.mem_cons.mp hc with rfl | hc
    · rfl
    · exact List.all_eq_true.mp List.all_takeWhile c hc
  text := lineText_of_plain fun c hc => h c ((List.dropWhile_sublist _).subset hc)
  head := by
    intro c hc
    have hd := List.head?_dropWhile_not isBlank info
    rw [Option.mem_def] at hc
    simpa [hc] using hd

@[simp] theorem userAgentField_line {info : List UInt8} (h : ∀ c ∈ info, isPlainChar c = true) :
    (userAgentField info h).line = cstr "USER-AGENT: "++(info++[cr,lf]) := by
  have hsplit : info.takeWhile isBlank++(info.dropWhile isBlank++[cr,lf]) = info++[cr,lf] := by
    rw [← List.append_assoc,List.takeWhile_append_dropWhile]
  exact congrArg (fun x => cstr "USER-AGENT: "++x) hsplit

theorem contentLength_ne : cstr "CONTENT-LENGTH" ≠ [] := by decide

theorem contentLength_chars : ∀ c ∈ cstr "CONTENT-LENGTH", isIdentifierChar c = true := by
  decide

theorem contentType_ne : cstr "CONTENT-TYPE" ≠ [] := by decide

theorem contentType_chars : ∀ c ∈ cstr "CONTENT-TYPE", isIdentifierChar c = true := by
  decide

theorem json_target : ∀ c ∈ cstr "application/json", isTargetChar c = true := by decide

theorem uid_ne : cstr "UID" ≠ [] := by decide

theorem uid_chars : ∀ c ∈ cstr "UID", isIdentifierChar c = true := by decide

theorem uid_target : ∀ c ∈ cstr "yyccbb12345", isTargetChar c = true := by decide

/-- The fields of the request, in order. -/
def soapFields (host info : List UInt8) (hhost : ∀ c ∈ host, isTargetChar c = true)
    (hinfo : ∀ c ∈ info, isPlainChar c = true) (n : ℕ) : List WrittenField :=
  [wordField (cstr "HOST") host host_ne host_chars hhost,
    wordField (cstr "CONTENT-LENGTH") (printNumeral 10 n) contentLength_ne contentLength_chars
      (printNumeral_target n),
    wordField (cstr "CONTENT-TYPE") (cstr "application/json") contentType_ne
      contentType_chars json_target,
    soapactionField,
    wordField (cstr "UID") (cstr "yyccbb12345") uid_ne uid_chars uid_target,
    userAgentField info hinfo]

def soapRequestLine (url : UriType) (h : RequestUrl url) : WrittenRequest where
  method := cstr "POST"
  target := url.pathquery.text
  version := cstr "1.1"
  method_ne := by decide
  method_chars := by decide
  target_ne := h.target_ne
  target_chars := h.target_chars
  version_text := version_text
  version_head := version_head

theorem soapSendAction_text {res : Resolver} {sys : Platform} {actionUrl serviceType : List UInt8}
    {url : UriType} (hurl : httpFixStrUrl res actionUrl (untilNul actionUrl).length = .ok url)
    (hu : RequestUrl url) (hsdk : SdkInfo (sys.getSdkInfo messageBufSize)) :
    soapSendAction res sys actionUrl serviceType = .ok (url,(soapRequestLine url hu).line++
      ((soapFields url.hostport.text.text (sdkName (sys.getSdkInfo messageBufSize)) hu.host_chars
        hsdk.split.2.1 (untilNul serviceType).length).flatMap WrittenField.line++
        ([cr,lf]++untilNul serviceType))) := by
  rcases hsdk.split with ⟨hinfo,-,hnul⟩
  generalize hbody : (untilNul serviceType).length = n
  have hq := makeLetter_q sys 1 1 (by decide) (by decide) 0
    (by decide : methodToStr .soapPost = some (cstr "POST")) hu.fixed
  have hN := makeLetter_N sys 1 1 1 n
  have hU := makeLetter_U sys 1 1 1
  rw [hnul,hinfo] at hU
  have htext : httpMakeMessage sys 1 1 [.q,.N,.s,.s,.c,.s,.s,.c,.U,.c,.b]
      [.method .soapPost,.uri url,.off n,.str contentTypeHeader,.str (cstr "SOAPACTION:"),
        .str (cstr "UID: "),.str (cstr "yyccbb12345"),.str serviceType,.size n] = .ok _ :=
    makeFormat_cons (hq _) (makeFormat_cons (hN _) (makeFormat_cons rfl (makeFormat_cons rfl
      (makeFormat_cons rfl (makeFormat_cons rfl (makeFormat_cons rfl (makeFormat_cons rfl
      (makeFormat_cons (hU _) (makeFormat_cons rfl (makeFormat_cons rfl rfl))))))))))
  simp only [soapSendAction,hurl,hbody,nestedCall,htext]
  refine congrArg (fun x => Except.ok (url,x)) ?_
  have hhttp : cstr " HTTP/"++(printNumeral 10 1++(cstr "."++(printNumeral 10 1++[cr,lf]))) =
      32::(cstr "HTTP"++47::(cstr "1.1"++[cr,lf])) := by decide
  have htake : serviceType.take n = untilNul serviceType := by
    rw [← hbody,take_untilNul]
  have hcontent : untilNul contentTypeHeader = cstr "CONTENT-TYPE"++58::([32]++
      (cstr "application/json"++[cr,lf])) := by decide
  have hsoap : untilNul (cstr "SOAPACTION:") = cstr "SOAPACTION"++[58] := by decide
  have huid : untilNul (cstr "UID: ") = cstr "UID"++58::[32] := by decide
  have hnumber : untilNul (cstr "yyccbb12345") = cstr "yyccbb12345" := by decide
  have hspace : cstr " " = [32] := rfl
  have hhost : cstr "HOST: " = cstr "HOST"++58::[32] := rfl
  have hlength : cstr "CONTENT-LENGTH: " = cstr "CONTENT-LENGTH"++58::[32] := rfl
  simp only [hhttp,htake,soapFields,List.flatMap_cons,List.flatMap_nil,hcontent,hsoap,huid,hnumber,
    hspace,hhost,hlength]
  rw [userAgentField_line]
  simp [WrittenField.line,wordField,soapactionField,soapRequestLine,WrittenRequest.line,
    List.append_assoc]

def soapHeaders (host info : List UInt8) (n : ℕ) : List HttpHeader :=
  [⟨cstr "HOST",.host,host⟩,⟨cstr "CONTENT-LENGTH",.contentLength,printNumeral 10 n⟩,
    ⟨cstr "CONTENT-TYPE",.contentType,cstr "application/json"⟩,
    ⟨cstr "SOAPACTION",.soapaction,[0]⟩,⟨cstr "UID",.uid,cstr "yyccbb12345"⟩,
    ⟨cstr "USER-AGENT",.userAgent,startValue (trimRight (info.dropWhile isBlank))⟩]

theorem soapFields_headers {host info : List UInt8} (hhost : ∀ c ∈ host, isTargetChar c = true)
    (hne : host ≠ []) (hinfo : ∀ c ∈ info, isPlainChar c = true) (n : ℕ) {p : HttpParser}
    (hp : p.msg.headers = []) :
    ((soapFields host info hhost hinfo n).foldl readField p).msg.headers = soapHeaders host info n ∧
      ((soapFields host info hhost hinfo n).foldl readField p).msg.method = .soapPost := by
  have hnum := startValue_word (printNumeral_numeral (by decide : 1 < 10) (by decide) n).ne_nil
    (printNumeral_target n)
  have hhost' := startValue_word hne hhost
  have htype := startValue_word (w := cstr "application/json") (by decide) json_target
  have huid := startValue_word (w := cstr "yyccbb12345") (by decide) uid_target
  have hnames : (soapFields host info hhost hinfo n).map (fun f => lookupName f.name httpHeaderNames
      false) = [some .host,some .contentLength,some .contentType,some .soapaction,some .uid,
        some .userAgent] := by
    change [cstr "HOST",cstr "CONTENT-LENGTH",cstr "CONTENT-TYPE",cstr "SOAPACTION",cstr "UID",
      cstr "USER-AGENT"].map (fun w => lookupName w httpHeaderNames false) = _
    decide
  have hfs := readFields_new ((soapFields host info hhost hinfo n).zip [.host,.contentLength,
    .contentType,.soapaction,.uid,.userAgent]) (p := p) ?_ ?_
  · simp only [soapFields,List.zip_cons_cons,List.zip_nil_left,List.map_cons,List.map_nil,hp,
      List.nil_append] at hfs
    refine ⟨hfs.1.trans ?_,hfs.2⟩
    simp only [soapHeaders,wordField,soapactionField,userAgentField,hhost',hnum,htype,huid]
    rfl
  · simp only [soapFields,List.map_cons,List.map_nil,List.cons.injEq,and_true] at hnames
    simp only [soapFields,List.zip_cons_cons,List.zip_nil_left,List.forall_mem_cons]
    exact ⟨hnames.1,hnames.2.1,hnames.2.2.1,hnames.2.2.2.1,hnames.2.2.2.2.1,hnames.2.2.2.2.2,
      by simp⟩
  · rw [hp]
    simp only [soapFields,List.zip_cons_cons,List.zip_nil_left,List.map_cons,List.map_nil,
      List.nil_append]
    decide

/-- What a request reads back as. -/
structure ReadBack (url target : UriType) (body : List UInt8) (view : MessageView) : Prop where
  method : view.method = .soapPost
  version : view.majorVersion = 1 ∧ view.minorVersion = 1
  urlbuf : view.urlbuf = url.pathquery.text
  uri : view.uri = target
  host : findHdr view.headers .host = some url.hostport.text.text
  length : findHdr view.headers .contentLength = some (printNumeral 10 body.length)
  entityLength : view.entityLength = body.length
  entity : view.entityBytes = body

/-- A plain request of six fields and a body, read in one piece. -/
theorem parserAppend_soap (res : Resolver) {url : UriType} (hu : RequestUrl url)
    (info body : List UInt8) (hinfo : ∀ c ∈ info, isPlainChar c = true) (hlen : body.length < 2^31) :
    let request := (soapRequestLine url hu).line++((soapFields url.hostport.text.text info
      hu.host_chars hinfo body.length).flatMap WrittenField.line++([cr,lf]++body))
    ¬RequestSplits request ∧
    (∀ target, parseUri res url.pathquery.text url.pathquery.text.length = .ok target →
      ∃ view, observeMessage (parserAppend res parserRequestInit request) = (.success,some view) ∧
        ReadBack url target body view) ∧
    ∀ e, parseUri res url.pathquery.text url.pathquery.text.length = .error e →
      (parserAppend res parserRequestInit request).1 = .failure := by
  intro request
  have hid : lookupName (soapRequestLine url hu).method httpMethodTable true = some .post := by
    change lookupName (cstr "POST") httpMethodTable true = _
    decide
  have hver : sscanf versionScan (untilNul (soapRequestLine url hu).version) = [1,1] := by
    change sscanf versionScan (untilNul (cstr "1.1")) = _
    decide
  have hmethod : HttpMethod.soapPost ≠ .post := by decide
  have hwritten := parserAppend_written res (soapRequestLine url hu) (soapFields url.hostport.text.text
    info hu.host_chars hinfo body.length) body hid hver (by decide) (by decide)
    (fun p hp _ => soapFields_headers hu.host_chars hu.host_ne hinfo body.length hp) hmethod
  refine ⟨writtenMessage_splits _ _ _,fun target htarget => ?_,hwritten.2⟩
  rcases hwritten.1 target htarget with ⟨p,hp,hbody⟩
  have hval : toUInt (rawToInt 10 (printNumeral 10 body.length)) = body.length := by
    rw [rawToInt_numeral (printNumeral_numeral (by decide) (by decide) _) hlen,toUInt]
    omega
  have hread := hbody.clen (v := printNumeral 10 body.length) rfl (by simp [writtenView,soapHeaders])
    rfl
  rw [hval,if_neg (Nat.lt_irrefl _),List.take_length] at hread
  exact ⟨_,(congrArg observeMessage hp).trans hread,rfl,⟨rfl,rfl⟩,rfl,rfl,rfl,rfl,rfl,rfl⟩

/-- Whatever the pieces it comes in, the request reads back as what was meant, if its target is
accepted as a URL; that it is, unless it begins like a scheme or with two slashes. -/
theorem soapSendAction_readBack (res res' : Resolver) (hin : Inet6Chars res) (sys : Platform)
    (hsdk : SdkInfo (sys.getSdkInfo messageBufSize)) (actionUrl serviceType : List UInt8)
    {url : UriType} (hurl : httpFixStrUrl res actionUrl (untilNul actionUrl).length = .ok url)
    (hlen : (untilNul serviceType).length < 2^31) :
    ∃ request, soapSendAction res sys actionUrl serviceType = .ok (url,request) ∧
      (∀ pieces : List (List UInt8), pieces ≠ [] → pieces.flatten = request →
        (∀ target, parseUri res' url.pathquery.text url.pathquery.text.length = .ok target →
          ∃ view, observeMessage (feedParser res' parserRequestInit pieces) = (.success,some view) ∧
            ReadBack url target (untilNul serviceType) view) ∧
        ∀ e, parseUri res' url.pathquery.text url.pathquery.text.length = .error e →
          (feedParser res' parserRequestInit pieces).1 = .failure) ∧
      (parseScheme url.pathquery.text = 0 → url.pathquery.text.take 2 ≠ [47,47] →
        ∃ target, parseUri res' url.pathquery.text url.pathquery.text.length = .ok target ∧
          target.pathquery.text = url.pathquery.text) := by
  have hu := httpFixStrUrl_ok hin hurl
  rcases parserAppend_soap res' hu _ _ hsdk.split.2.1 hlen with ⟨hsplits,hok,herr⟩
  refine ⟨_,soapSendAction_text hurl hu hsdk,fun pieces hne hpieces => ?_,
    fun hs hh => parseUri_path res' hs hh hu.target_run⟩
  have hfeed := feedParser_request res' hsplits hne hpieces
  refine ⟨fun target htarget => ?_,fun e he => ?_⟩
  · rw [hfeed]
    exact hok target htarget
  · exact (congrArg Prod.fst hfeed).trans (herr e he)

def somePlatform : Platform := ⟨⟨cstr "Linux",cstr "6.1"⟩,0,fun _ => none⟩

/-- A resolver of IPv4 addresses that knows no host names. -/
def inet4Resolver : Resolver where
  getaddrinfo := fun _ => none
  inetPton := fun f s => if f = .inet ∧ s = cstr "1.2.3.4" then some [1,2,3,4] else none
  ifIndex := 0

theorem inet4Resolver_chars : Inet6Chars inet4Resolver := by
  intro s a h
  simp only [inet4Resolver,reduceCtorEq,false_and,if_false] at h

def someSdk : List UInt8 := sdkName (somePlatform.getSdkInfo messageBufSize)

example : someSdk = cstr "Linux/6.1, UPnP/1.0, Portable SDK for UPnP devices/1.6.19" := by
  decide

theorem somePlatform_sdk : SdkInfo (somePlatform.getSdkInfo messageBufSize) :=
  getSdkInfo_sdk (by decide) (by decide) (by decide)

theorem soapSendAction_readBack_lamp : ∃ url request,
    soapSendAction inet4Resolver somePlatform (cstr "http://1.2.3.4/on?x=1") (cstr "[1]") =
      .ok (url,request) ∧ url.pathquery.text = cstr "/on?x=1" ∧
      ∃ view, observeMessage (feedParser Resolver.empty parserRequestInit
        [request.take 7,request.drop 7]) = (.success,some view) ∧ view.entityBytes = cstr "[1]" := by
  have hurl : ∃ url, httpFixStrUrl inet4Resolver (cstr "http://1.2.3.4/on?x=1")
      (untilNul (cstr "http://1.2.3.4/on?x=1")).length = .ok url ∧
      url.pathquery.text = cstr "/on?x=1" := ⟨_,rfl,rfl⟩
  rcases hurl with ⟨url,hurl,ht⟩
  rcases soapSendAction_readBack inet4Resolver Resolver.empty inet4Resolver_chars somePlatform
    somePlatform_sdk _ (cstr "[1]") hurl (by decide) with ⟨request,hreq,hread,htarget⟩
  rcases htarget (by rw [ht]; decide) (by rw [ht]; decide) with ⟨target,htarget,-⟩
  rcases (hread [request.take 7,request.drop 7] (by simp) (by simp)).1 target htarget with
    ⟨view,hview,hback⟩
  refine ⟨url,request,hreq,ht,view,hview,?_⟩
  rw [hback.entity]
  rfl

/-- A path that begins with two slashes is taken for a host. -/
theorem soapSendAction_host : ¬ ∀ (res : Resolver) (sys : Platform), Inet6Chars res →
    SdkInfo (sys.getSdkInfo messageBufSize) → ∀ (actionUrl serviceType : List UInt8) (url : UriType),
      httpFixStrUrl res actionUrl (untilNul actionUrl).length = .ok url →
      (untilNul serviceType).length < 2^31 → ∃ request,
        soapSendAction res sys actionUrl serviceType = .ok (url,request) ∧
        ∀ pieces : List (List UInt8), pieces ≠ [] → pieces.flatten = request →
          (feedParser res parserRequestInit pieces).1 = .success := by
  intro h
  have hurl : ∃ url, httpFixStrUrl inet4Resolver (cstr "http://1.2.3.4//x")
      (untilNul (cstr "http://1.2.3.4//x")).length = .ok url ∧
      url.pathquery.text = cstr "//x" := ⟨_,rfl,rfl⟩
  rcases hurl with ⟨url,hurl,ht⟩
  have hu := httpFixStrUrl_ok inet4Resolver_chars hurl
  rcases h inet4Resolver somePlatform inet4Resolver_chars somePlatform_sdk _ [] url hurl (by decide)
    with ⟨request,hreq,hpieces⟩
  rw [soapSendAction_text hurl hu somePlatform_sdk] at hreq
  cases hreq
  have hs := hpieces _ (List.cons_ne_nil _ _) (List.flatten_singleton)
  have hf := (parserAppend_soap inet4Resolver hu _ (untilNul []) somePlatform_sdk.split.2.1
    (by decide)).2.2 upnpEInvalidUrl (by rw [ht]; rfl)
  exact absurd (hf.symm.trans hs) (by decide)

end Soap
end CtrlPt
