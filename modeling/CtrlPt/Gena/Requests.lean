import CtrlPt.Gena.Renewals
import CtrlPt.Http.BuiltRequests

/-! The three requests of a subscriber, as its publisher reads them. -/
namespace CtrlPt
namespace Subscriptions

open CText Http Soap
open Uri (UriType Resolver Inet6Chars)

def unsubscribeRequest (sys : Setup) (dest : UriType) (sid : List UInt8) :
    Except BuildError (List UInt8) :=
  httpMakeMessage sys.platform 1 1 [.q,.s,.s,.c,.U,.c]
    [.method .unsubscribe,.uri dest,.str (cstr "SID: "),.str sid]

/-- A SID that one line of a message can hold. -/
structure SidText where
  val : List UInt8
  ne : val ≠ []
  noNul : 0 ∉ val
  text : LineText val
  head : ∀ c ∈ val.head?, isBlank c = false
  ends : trimRight val = val

inductive GenaRequest
  | subscribe (timeout : ℤ)
  | renew (sid : SidText) (timeout : ℤ)
  | unsubscribe (sid : SidText)

def GenaRequest.method : GenaRequest → HttpMethod
  | .subscribe _ | .renew .. => .subscribe
  | .unsubscribe _ => .unsubscribe

def GenaRequest.message (sys : Setup) (dest : UriType) : GenaRequest → Except BuildError (List UInt8)
  | .subscribe timeout => subscribeRequest sys dest none (timeoutStr timeout)
  | .renew sid timeout => subscribeRequest sys dest (some sid.val) (timeoutStr timeout)
  | .unsubscribe sid => unsubscribeRequest sys dest sid.val

/-- The addresses of the miniserver hold no blanks. -/
structure AddressTexts (addr : LocalAddress) : Prop where
  ipv4 : ∀ c ∈ addr.ifIpv4, isTargetChar c = true ∧ c ≠ 0
  ipv6 : ∀ c ∈ addr.ifIpv6, isTargetChar c = true ∧ c ≠ 0
  ipv6UlaGua : ∀ c ∈ addr.ifIpv6UlaGua, isTargetChar c = true ∧ c ≠ 0

/-- The IPv6 address a publisher with this one can reach. -/
def reachableIpv6 (addr : LocalAddress) (dest : UriType) : List UInt8 :=
  if isLinkLocal dest.hostport.ipAddress.addr ∨ addr.ifIpv6UlaGua.length = 0 then addr.ifIpv6
  else addr.ifIpv6UlaGua

def printPort (port : ℤ) : List UInt8 := printNumeral 10 (port % sizeMod).toNat

def callbackUrl (addr : LocalAddress) (dest : UriType) : List UInt8 :=
  if dest.hostport.ipAddress.family = .inet6 then
    cstr "<http://["++(reachableIpv6 addr dest++(cstr "]:"++(printPort addr.portV6++cstr "/>")))
  else cstr "<http://"++(addr.ifIpv4++(cstr ":"++(printPort addr.portV4++cstr "/>")))

def secondsValue (timeout : ℤ) : List UInt8 := cstr "Second-"++timeoutStr timeout

def GenaRequest.headers (sys : Setup) (dest : UriType) : GenaRequest → List HttpHeader
  | .subscribe timeout => [⟨cstr "CALLBACK",.callback,callbackUrl sys.addr dest⟩,
      ⟨cstr "NT",.nt,cstr "upnp:event"⟩,⟨cstr "TIMEOUT",.timeout,secondsValue timeout⟩]
  | .renew sid timeout => [⟨cstr "SID",.sid,sid.val⟩,⟨cstr "TIMEOUT",.timeout,secondsValue timeout⟩]
  | .unsubscribe sid => [⟨cstr "SID",.sid,sid.val⟩,⟨cstr "USER-AGENT",.userAgent,startValue
      (trimRight ((sdkName (sys.platform.getSdkInfo messageBufSize)).dropWhile isBlank))⟩]

theorem sid_ne : cstr "SID" ≠ [] := by decide

theorem sid_chars : ∀ c ∈ cstr "SID", isIdentifierChar c = true := by decide

def sidField (sid : SidText) : WrittenField where
  name := cstr "SID"
  blanks := [32]
  value := sid.val
  name_ne := sid_ne
  name_chars := sid_chars
  blanks_chars := space_blank
  text := sid.text
  head := sid.head

theorem timeoutStr_target (timeout : ℤ) : ∀ c ∈ timeoutStr timeout, isTargetChar c = true := by
  have hdigits : ∀ n : ℤ, 0 ≤ n → ∀ c ∈ printInt n, isTargetChar c = true := by
    intro n hn
    rw [printInt,if_neg (by omega)]
    exact printNumeral_target _
  unfold timeoutStr
  split
  · decide
  split
  · exact hdigits _ (by decide)
  · exact hdigits _ (by omega)

theorem timeoutStr_noNul (timeout : ℤ) : 0 ∉ timeoutStr timeout := by
  have hdigits : ∀ n : ℤ, 0 ≤ n → 0 ∉ printInt n := by
    intro n hn
    rw [printInt,if_neg (by omega)]
    exact printNumeral_noNul _
  unfold timeoutStr
  split
  · decide
  split
  · exact hdigits _ (by decide)
  · exact hdigits _ (by omega)

theorem secondsValue_target (timeout : ℤ) : ∀ c ∈ secondsValue timeout, isTargetChar c = true := by
  have hname : ∀ c ∈ cstr "Second-", isTargetChar c = true := by decide
  exact List.forall_mem_append.mpr ⟨hname,timeoutStr_target timeout⟩

theorem timeout_ne : cstr "TIMEOUT" ≠ [] := by decide

theorem timeout_chars : ∀ c ∈ cstr "TIMEOUT", isIdentifierChar c = true := by decide

def timeoutField (timeout : ℤ) : WrittenField :=
  wordField (cstr "TIMEOUT") (secondsValue timeout) timeout_ne timeout_chars
    (secondsValue_target timeout)

theorem nt_ne : cstr "NT" ≠ [] := by decide

theorem nt_chars : ∀ c ∈ cstr "NT", isIdentifierChar c = true := by decide

theorem event_target : ∀ c ∈ cstr "upnp:event", isTargetChar c = true := by decide

def ntField : WrittenField :=
  wordField (cstr "NT") (cstr "upnp:event") nt_ne nt_chars event_target

theorem AddressTexts.reachable {addr : LocalAddress} (h : AddressTexts addr) (dest : UriType) :
    ∀ c ∈ reachableIpv6 addr dest, isTargetChar c = true ∧ c ≠ 0 := by
  unfold reachableIpv6
  split
  · exact h.ipv6
  · exact h.ipv6UlaGua

theorem AddressTexts.callback {addr : LocalAddress} (h : AddressTexts addr) (dest : UriType) :
    ∀ c ∈ callbackUrl addr dest, isTargetChar c = true := by
  have hmarks : ∀ s ∈ [cstr "<http://[",cstr "]:",cstr "/>",cstr "<http://",cstr ":"], ∀ c ∈ s,
      isTargetChar c = true := by decide
  simp only [List.forall_mem_cons] at hmarks
  unfold callbackUrl
  split
  · simp only [List.forall_mem_append]
    exact ⟨hmarks.1,fun c hc => (h.reachable dest c hc).1,hmarks.2.1,printNumeral_target _,
      hmarks.2.2.1⟩
  · simp only [List.forall_mem_append]
    exact ⟨hmarks.2.2.2.1,fun c hc => (h.ipv4 c hc).1,hmarks.2.2.2.2.1,printNumeral_target _,
      hmarks.2.2.1⟩

theorem callback_ne : cstr "CALLBACK" ≠ [] := by decide

theorem callback_chars : ∀ c ∈ cstr "CALLBACK", isIdentifierChar c = true := by decide

def callbackField {addr : LocalAddress} (h : AddressTexts addr) (dest : UriType) : WrittenField :=
  wordField (cstr "CALLBACK") (callbackUrl addr dest) callback_ne callback_chars (h.callback dest)

/-- What `GenaRequest.headers` are written as. -/
def GenaRequest.fields {sys : Setup} (haddr : AddressTexts sys.addr)
    (hsdk : SdkInfo (sys.platform.getSdkInfo messageBufSize)) (dest : UriType) :
    GenaRequest → List WrittenField
  | .subscribe timeout => [callbackField haddr dest,ntField,timeoutField timeout]
  | .renew sid timeout => [sidField sid,timeoutField timeout]
  | .unsubscribe sid => [sidField sid,userAgentField _ hsdk.split.2.1]

def GenaRequest.name : GenaRequest → List UInt8
  | .subscribe _ | .renew .. => cstr "SUBSCRIBE"
  | .unsubscribe _ => cstr "UNSUBSCRIBE"

theorem GenaRequest.name_spec (r : GenaRequest) : methodToStr r.method = some r.name ∧
    lookupName r.name httpMethodTable true = some r.method ∧ r.name ≠ [] ∧
      (∀ c ∈ r.name, isIdentifierChar c = true) ∧
      [HttpMethod.head,.get,.subscribe,.unsubscribe,.msearch].contains r.method = true := by
  have hall : ∀ p ∈ [(HttpMethod.subscribe,cstr "SUBSCRIBE"),(.unsubscribe,cstr "UNSUBSCRIBE")],
      methodToStr p.1 = some p.2 ∧ lookupName p.2 httpMethodTable true = some p.1 ∧ p.2 ≠ [] ∧
        (∀ c ∈ p.2, isIdentifierChar c = true) ∧
        [HttpMethod.head,.get,.subscribe,.unsubscribe,.msearch].contains p.1 = true := by
    decide
  cases r with
  | subscribe timeout => exact hall _ (.head _)
  | renew sid timeout => exact hall _ (.head _)
  | unsubscribe sid => exact hall _ (.tail _ (.head _))

@[simp] theorem timeoutField_line (timeout : ℤ) : (timeoutField timeout).line =
    cstr "TIMEOUT: Second-"++(timeoutStr timeout++[cr,lf]) := by
  have hname : cstr "TIMEOUT: Second-" = cstr "TIMEOUT"++58::32::cstr "Second-" := rfl
  rw [hname]
  simp [timeoutField,secondsValue,List.append_assoc]

theorem makeFormat_str {sys : Platform} {major minor : ℤ} {call : MakeCall} {s y : List UInt8}
    (hs : 0 ∉ s) {fmt : List FormatLetter} {args : List FormatArg}
    (hf : makeFormat sys major minor call fmt args = .ok y) :
    makeFormat sys major minor call (.s::fmt) (.str s::args) = .ok (s++y) := by
  have hl : makeLetter sys major minor call .s (.str s::args) = .ok (untilNul s,args) := rfl
  rw [untilNul_of_no_nul hs] at hl
  exact makeFormat_cons hl hf

theorem makeFormat_crlf {sys : Platform} {major minor : ℤ} {call : MakeCall} {y : List UInt8}
    {fmt : List FormatLetter} {args : List FormatArg}
    (hf : makeFormat sys major minor call fmt args = .ok y) :
    makeFormat sys major minor call (.c::fmt) args = .ok ([cr,lf]++y) :=
  makeFormat_cons rfl hf

theorem makeFormat_int {sys : Platform} {major minor : ℤ} {call : MakeCall} {y : List UInt8}
    (port : ℤ) {fmt : List FormatLetter} {args : List FormatArg}
    (hf : makeFormat sys major minor call fmt args = .ok y) :
    makeFormat sys major minor call (.d::fmt) (.int port::args) = .ok (printPort port++y) :=
  makeFormat_cons rfl hf

theorem makeMessage_q (sys : Platform) {m : HttpMethod} {name : List UInt8}
    (hm : methodToStr m = some name) {url : UriType} (hu : httpFixUrl url = .ok url)
    {fmt : List FormatLetter} {args : List FormatArg} {text : List UInt8}
    (hf : makeFormat sys 1 1 (makeMessage sys 1 1 2) fmt args = .ok text) :
    httpMakeMessage sys 1 1 (.q::fmt) (.method m::.uri url::args) =
      .ok (requestText name url.pathquery.text url.hostport.text.text text) := by
  have hone : 1 < sizeMod := by decide
  have h : makeMessage sys 1 1 3 (.q::fmt) (.method m::.uri url::args) = .ok _ :=
    makeFormat_cons (makeLetter_q sys 1 1 hone hone 0 hm hu args) hf
  rw [httpMakeMessage,h,← requestText_eq]
  simp only [List.append_assoc]

theorem callback_text {sys : Setup} (haddr : AddressTexts sys.addr) {url : UriType}
    (hu : RequestUrl url) (timeout : ℤ) :
    GenaRequest.message sys url (.subscribe timeout) =
      .ok (requestText (cstr "SUBSCRIBE") url.pathquery.text url.hostport.text.text
        ((callbackField haddr url).line++(ntField.line++((timeoutField timeout).line++[cr,lf])))) := by
  have hm : methodToStr .subscribe = some (cstr "SUBSCRIBE") := by decide
  have hmarks : ∀ s ∈ [cstr "CALLBACK: <http://[",cstr "]:",cstr "CALLBACK: <http://",cstr ":",
      cstr "/>",cstr "NT: upnp:event",cstr "TIMEOUT: Second-"], 0 ∉ s := by decide
  simp only [List.forall_mem_cons] at hmarks
  rcases hmarks with ⟨h₁,h₂,h₃,h₄,h₅,h₆,h₇,-⟩
  have htail : makeFormat sys.platform 1 1 (makeMessage sys.platform 1 1 2) [.s,.c,.s,.c,.s,.s,.c,.c]
      [.str (cstr "/>"),.str (cstr "NT: upnp:event"),.str (cstr "TIMEOUT: Second-"),
        .str (timeoutStr timeout)] = .ok _ :=
    makeFormat_str h₅ (makeFormat_crlf (makeFormat_str h₆ (makeFormat_crlf (makeFormat_str h₇
      (makeFormat_str (timeoutStr_noNul timeout) (makeFormat_crlf (makeFormat_crlf rfl)))))))
  have hnt : ntField.line = cstr "NT: upnp:event"++[cr,lf] := by decide
  have hcallback : (callbackField haddr url).line =
      cstr "CALLBACK: "++(callbackUrl sys.addr url++[cr,lf]) := rfl
  rw [hnt,hcallback,timeoutField_line]
  by_cases hfam : url.hostport.ipAddress.family = .inet6
  · have hno : 0 ∉ reachableIpv6 sys.addr url := fun h => (haddr.reachable url 0 h).2 rfl
    have htext : makeFormat sys.platform 1 1 (makeMessage sys.platform 1 1 2)
        [.s,.s,.s,.d,.s,.c,.s,.c,.s,.s,.c,.c] [.str (cstr "CALLBACK: <http://["),
          .str (reachableIpv6 sys.addr url),.str (cstr "]:"),.int sys.addr.portV6,.str (cstr "/>"),
          .str (cstr "NT: upnp:event"),.str (cstr "TIMEOUT: Second-"),.str (timeoutStr timeout)] =
        .ok _ :=
      makeFormat_str h₁ (makeFormat_str hno (makeFormat_str h₂ (makeFormat_int _ htail)))
    have hname : cstr "CALLBACK: <http://[" = cstr "CALLBACK: "++cstr "<http://[" := rfl
    simp only [GenaRequest.message,subscribeRequest,if_pos hfam]
    refine (makeMessage_q sys.platform hm hu.fixed htext).trans (congrArg Except.ok ?_)
    simp only [callbackUrl,if_pos hfam,hname,List.append_assoc,List.append_nil]
  · have hno : 0 ∉ sys.addr.ifIpv4 := fun h => (haddr.ipv4 0 h).2 rfl
    have htext : makeFormat sys.platform 1 1 (makeMessage sys.platform 1 1 2)
        [.s,.s,.s,.d,.s,.c,.s,.c,.s,.s,.c,.c] [.str (cstr "CALLBACK: <http://"),
          .str sys.addr.ifIpv4,.str (cstr ":"),.int sys.addr.portV4,.str (cstr "/>"),
          .str (cstr "NT: upnp:event"),.str (cstr "TIMEOUT: Second-"),.str (timeoutStr timeout)] =
        .ok _ :=
      makeFormat_str h₃ (makeFormat_str hno (makeFormat_str h₄ (makeFormat_int _ htail)))
    have hname : cstr "CALLBACK: <http://" = cstr "CALLBACK: "++cstr "<http://" := rfl
    simp only [GenaRequest.message,subscribeRequest,if_neg hfam]
    refine (makeMessage_q sys.platform hm hu.fixed htext).trans (congrArg Except.ok ?_)
    simp only [callbackUrl,if_neg hfam,hname,List.append_assoc,List.append_nil]

/-- The text of every request is its line, its HOST and its fields. -/
theorem GenaRequest.message_written {sys : Setup} (haddr : AddressTexts sys.addr)
    (hsdk : SdkInfo (sys.platform.getSdkInfo messageBufSize)) {url : UriType} (hu : RequestUrl url)
    (r : GenaRequest) : r.message sys url = .ok (requestText r.name url.pathquery.text
      url.hostport.text.text ((r.fields haddr hsdk url).flatMap WrittenField.line++[cr,lf])) := by
  have hmarks : ∀ s ∈ [cstr "SID: ",cstr "TIMEOUT: Second-"], 0 ∉ s := by decide
  simp only [List.forall_mem_cons] at hmarks
  rcases hmarks with ⟨hmark,hseconds,-⟩
  have hsid : ∀ sid : SidText, (sidField sid).line = cstr "SID: "++(sid.val++[cr,lf]) :=
    fun _ => rfl
  cases r with
  | subscribe timeout =>
    rw [callback_text haddr hu]
    simp [fields,List.append_assoc,name]
  | renew sid timeout =>
    have htext : makeFormat sys.platform 1 1 (makeMessage sys.platform 1 1 2)
        [.s,.s,.c,.s,.s,.c,.c] [.str (cstr "SID: "),.str sid.val,.str (cstr "TIMEOUT: Second-"),
          .str (timeoutStr timeout)] = .ok _ :=
      makeFormat_str hmark (makeFormat_str sid.noNul (makeFormat_crlf (makeFormat_str hseconds
        (makeFormat_str (timeoutStr_noNul timeout) (makeFormat_crlf (makeFormat_crlf rfl))))))
    have hm := (GenaRequest.renew sid timeout).name_spec.1
    refine (makeMessage_q sys.platform hm hu.fixed htext).trans (congrArg Except.ok ?_)
    simp [fields,List.append_assoc,hsid]
  | unsubscribe sid =>
    rcases hsdk.split with ⟨hinfo,hplain,hnul⟩
    have hU := makeLetter_U sys.platform 1 1 1 []
    rw [hnul] at hU
    have htext : makeFormat sys.platform 1 1 (makeMessage sys.platform 1 1 2) [.s,.s,.c,.U,.c]
        [.str (cstr "SID: "),.str sid.val] = .ok _ :=
      makeFormat_str hmark (makeFormat_str sid.noNul (makeFormat_crlf (makeFormat_cons hU
        (makeFormat_crlf rfl))))
    have hm := (GenaRequest.unsubscribe sid).name_spec.1
    refine (makeMessage_q sys.platform hm hu.fixed htext).trans (congrArg Except.ok ?_)
    simp only [fields,List.flatMap_cons,List.flatMap_nil,List.append_nil,List.append_assoc,hsid,
      userAgentField_line]
    nth_rewrite 1 [hinfo]
    simp only [List.append_assoc]

theorem callbackUrl_ne (addr : LocalAddress) (dest : UriType) : callbackUrl addr dest ≠ [] := by
  have hmark : cstr "<http://[" ≠ [] ∧ cstr "<http://" ≠ [] := by decide
  unfold callbackUrl
  split
  · exact List.append_ne_nil_of_left_ne_nil hmark.1 _
  · exact List.append_ne_nil_of_left_ne_nil hmark.2 _

theorem secondsValue_ne (timeout : ℤ) : secondsValue timeout ≠ [] :=
  List.append_ne_nil_of_left_ne_nil (by decide) _

@[simp] theorem SidText.stored (sid : SidText) : startValue (trimRight sid.val) = sid.val := by
  rw [sid.ends,startValue,if_neg]
  simpa using sid.ne

def GenaRequest.headerList (sys : Setup) (url : UriType) (r : GenaRequest) : List HttpHeader :=
  ⟨cstr "HOST",.host,url.hostport.text.text⟩::r.headers sys url

theorem GenaRequest.fields_headers {sys : Setup} (haddr : AddressTexts sys.addr)
    (hsdk : SdkInfo (sys.platform.getSdkInfo messageBufSize)) {url : UriType} (hu : RequestUrl url)
    (r : GenaRequest) :
    let fs := wordField (cstr "HOST") url.hostport.text.text host_ne host_chars hu.host_chars::
      r.fields haddr hsdk url
    Distinct fs ∧ fs.map WrittenField.header = r.headerList sys url := by
  have hids : [cstr "HOST",cstr "CALLBACK",cstr "NT",cstr "TIMEOUT",cstr "SID",
      cstr "USER-AGENT"].map nameIdOf = [.host,.callback,.nt,.timeout,.sid,.userAgent] := by
    decide
  simp only [List.map_cons,List.map_nil,List.cons.injEq,and_true] at hids
  rcases hids with ⟨h₁,h₂,h₃,h₄,h₅,h₆⟩
  have hhost := startValue_word hu.host_ne hu.host_chars
  have hevent := startValue_word (w := cstr "upnp:event") (by decide) event_target
  intro fs
  cases r with
  | subscribe timeout =>
    refine ⟨⟨?_,?_⟩,?_⟩
    · change ([cstr "HOST",cstr "CALLBACK",cstr "NT",cstr "TIMEOUT"].map lowerName).Nodup
      decide
    · simp [fs,fields,wordField,callbackField,ntField,timeoutField,h₁,h₂,h₃,h₄]
    · simp [fs,fields,headerList,headers,WrittenField.header,wordField,callbackField,ntField,
        timeoutField,h₁,h₂,h₃,h₄,hhost,hevent,
        startValue_word (callbackUrl_ne _ _) (haddr.callback url),
        startValue_word (secondsValue_ne timeout) (secondsValue_target timeout)]
  | renew sid timeout =>
    refine ⟨⟨?_,?_⟩,?_⟩
    · change ([cstr "HOST",cstr "SID",cstr "TIMEOUT"].map lowerName).Nodup
      decide
    · simp [fs,fields,wordField,sidField,timeoutField,h₁,h₄,h₅]
    · simp [fs,fields,headerList,headers,WrittenField.header,wordField,sidField,timeoutField,
        h₁,h₄,h₅,hhost,sid.stored,
        startValue_word (secondsValue_ne timeout) (secondsValue_target timeout)]
  | unsubscribe sid =>
    refine ⟨⟨?_,?_⟩,?_⟩
    · change ([cstr "HOST",cstr "SID",cstr "USER-AGENT"].map lowerName).Nodup
      decide
    · simp [fs,fields,wordField,sidField,userAgentField,h₁,h₅,h₆]
    · simp [fs,fields,headerList,headers,WrittenField.header,wordField,sidField,userAgentField,
        h₁,h₅,h₆,hhost,sid.stored]

theorem GenaRequest.readsAs {sys : Setup} (haddr : AddressTexts sys.addr)
    (hsdk : SdkInfo (sys.platform.getSdkInfo messageBufSize)) (res : Resolver) {url : UriType}
    (hu : RequestUrl url) (r : GenaRequest) : ∃ request, r.message sys url = .ok request ∧
      ReadsAs res request url.pathquery.text r.method (r.headerList sys url) := by
  rcases r.name_spec with ⟨-,hid,hne,hname,hno⟩
  have hfields := r.fields_headers haddr hsdk hu
  refine ⟨_,r.message_written haddr hsdk hu,?_⟩
  rw [requestText_written hne hname hu.target_ne hu.target_chars hu.host_chars,← hfields.2]
  exact readsAs_written res (requestLineOf _ _ hne hname hu.target_ne hu.target_chars) rfl hfields.1
    hid hno

theorem destUrl {sys : Setup} (hin : Inet6Chars sys.res) {url : List UInt8} (hnul : 0 ∉ url)
    {dest : UriType} (h : httpFixStrUrl sys.res url url.length = .ok dest) : RequestUrl dest := by
  refine httpFixStrUrl_ok hin (s := url) ?_
  rwa [untilNul_of_no_nul hnul]

/-- Each of the requests is built, and the publisher reads what was meant. -/
theorem genaRequest_readBack (res : Resolver) {sys : Setup} (hin : Inet6Chars sys.res)
    (haddr : AddressTexts sys.addr) (hsdk : SdkInfo (sys.platform.getSdkInfo messageBufSize))
    {url : List UInt8} (hnul : 0 ∉ url) {dest : UriType}
    (h : httpFixStrUrl sys.res url url.length = .ok dest) (r : GenaRequest) :
    ∃ request, r.message sys dest = .ok request ∧
      ReadsAs res request dest.pathquery.text r.method (r.headerList sys dest) :=
  r.readsAs haddr hsdk res (destUrl hin hnul h)

def lanSetup : Setup :=
  ⟨inet4Resolver,somePlatform,⟨cstr "10.0.0.1",49152,cstr "fe80::1",[],49153⟩⟩

theorem lanSetup_addr : AddressTexts lanSetup.addr := ⟨by decide,by decide,nofun⟩

theorem lanSetup_url : ∃ dest,
    httpFixStrUrl lanSetup.res (cstr "http://1.2.3.4/ev") (cstr "http://1.2.3.4/ev").length =
      .ok dest ∧ dest.hostport.text.text = cstr "1.2.3.4" ∧ dest.pathquery.text = cstr "/ev" ∧
      callbackUrl lanSetup.addr dest = cstr "<http://10.0.0.1:49152/>" :=
  ⟨_,rfl,rfl,rfl,by decide⟩

theorem genaRequest_lan : ∃ request dest,
    (GenaRequest.subscribe 1800).message lanSetup dest = .ok request ∧
      ReadsAs inet4Resolver request (cstr "/ev") .subscribe [⟨cstr "HOST",.host,cstr "1.2.3.4"⟩,
        ⟨cstr "CALLBACK",.callback,cstr "<http://10.0.0.1:49152/>"⟩,
        ⟨cstr "NT",.nt,cstr "upnp:event"⟩,⟨cstr "TIMEOUT",.timeout,cstr "Second-1800"⟩] := by
  rcases lanSetup_url with ⟨dest,hdest,hhost,hpath,hcallback⟩
  have hsdk : SdkInfo (lanSetup.platform.getSdkInfo messageBufSize) := somePlatform_sdk
  have hin : Inet6Chars lanSetup.res := inet4Resolver_chars
  rcases genaRequest_readBack inet4Resolver hin lanSetup_addr hsdk (by decide) hdest
    (.subscribe 1800) with ⟨request,hrequest,hread⟩
  have hvalue : secondsValue 1800 = cstr "Second-1800" := by decide
  simp only [GenaRequest.headerList,GenaRequest.headers,hhost,hpath,hcallback,hvalue] at hread
  exact ⟨request,dest,hrequest,hread⟩

end Subscriptions
end CtrlPt
