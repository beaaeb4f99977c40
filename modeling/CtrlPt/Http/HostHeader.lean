import CtrlPt.Http.Download
import CtrlPt.Http.HeaderList
import CtrlPt.Http.MakeMessage
import CtrlPt.Lib.Occurs
import CtrlPt.Ssdp.Search
import CtrlPt.Uri.Decompose
import CtrlPt.Uri.HostPort

/-! The requests that `httpreadwrite.c` builds for a URL, and their `HOST` headers. -/
namespace CtrlPt
namespace Http

open CText Uri

/-- `hoststr` and `hostlen`. If no slash follows the URL is taken to its end, or refused. -/
def hostString (toEnd : Bool) (urlPath : List UInt8) : Except BuildError (List UInt8 × ℕ) :=
  match strstr urlPath (cstr "//") with
  | none => .error (.code upnpEInvalidUrl)
  | some i =>
    let hoststr := urlPath.drop (i+2)
    if strchr hoststr 47 then .ok (hoststr,(hoststr.takeWhile (· != 47)).length)
    else if toEnd then .ok (hoststr,hoststr.length)
    else .error (.code upnpEInvalidUrl)

/-- Some letters of a format and their arguments. -/
abbrev Format := List FormatLetter × List FormatArg

/-- The URL and the request. `querystr` may be chosen with the URL; behind the `HOST` header come
the letters of `headers`, if there are any for the parameters. -/
def makeRequest (toEnd : Bool) (m : HttpMethod) (headers : Option Format)
    (querystr : UriType → List UInt8) (res : Resolver) (sys : Platform) (urlStr : CString) :
    Except BuildError (UriType × List UInt8) :=
  match httpFixStrUrl res urlStr.val urlStr.val.length with
  | .error e => .error (.code e)
  | .ok url => do
    let (hoststr,hostlen) ← hostString toEnd urlStr.val
    match headers with
    | none => .error (.code upnpEInvalidParam)
    | some (fmt,args) => do
      let request ← httpMakeMessage sys 1 1 ([.Q,.s,.b,.c]++fmt)
        ([.method m,.str (querystr url),.size (querystr url).length,.str (cstr "HOST: "),
          .str hoststr,.size hostlen]++args)
      .ok (url,request)

def getHeaders : Format := ([.D,.C,.U,.c],[])

/-- None if the length is no length. -/
def postHeaders (contentLength : ℤ) (contentType : CString) : Option Format :=
  if 0 ≤ contentLength then some ([.D,.C,.U,.T,.N,.c],[.str contentType.val,.off contentLength])
  else if contentLength = upnpUsingChunked then some ([.D,.C,.U,.T,.K,.c],[.str contentType.val])
  else if contentLength = upnpUntilClose then some ([.D,.C,.U,.T,.c],[.str contentType.val])
  else none

def rangeHeaders (pRangeSpecifier : SendInstruction) : Format :=
  ([.G,.D,.C,.U,.c],[.instr pRangeSpecifier])

/-- `http_Download` up to the request. -/
def httpDownloadRequest :=
  makeRequest true .get (some getHeaders) fun url => url.pathquery.text

def makeGetMessage (proxyStr : Option CString) (res : Resolver) (sys : Platform)
    (urlStr : CString) : Except BuildError (UriType × List UInt8) :=
  makeRequest false .get (some getHeaders)
    (fun url => if proxyStr.isSome then urlStr.val else url.pathquery.text) res sys urlStr

def makePostMessage (contentLength : ℤ) (contentType : CString) :=
  makeRequest false .post (postHeaders contentLength contentType) fun url => url.pathquery.text

def makeGetMessageEx (pRangeSpecifier : SendInstruction) :=
  makeRequest false .get (some (rangeHeaders pRangeSpecifier)) fun url => url.pathquery.text

/-- The request line, the `HOST` header and what follows. -/
def requestText (name path host headers : List UInt8) : List UInt8 :=
  name++(cstr " "++(path++(cstr " HTTP/1.1\r\n"++(cstr "HOST: "++(host++([cr,lf]++headers))))))

def Built (r : Except BuildError (UriType × List UInt8)) : Prop := ∃ b, r = .ok b

/-- What has been built is a request with the value `host` in its `HOST` header. -/
def CarriesHost (sys : Platform) (m : HttpMethod) (headers : Option Format) (url : UriType)
    (host : List UInt8) (r : Except BuildError (UriType × List UInt8)) : Prop :=
  ∀ b, r = .ok b → ∃ name f text, methodToStr m = some name ∧ headers = some f ∧
    httpMakeMessage sys 1 1 f.1 f.2 = .ok text ∧
    b = (url,requestText name url.pathquery.text host text)

/-- All four builders make a request or none of them does, and every request carries the host of
the URL. -/
structure OneHost (res : Resolver) (sys : Platform) (urlStr : CString) (url : UriType)
    (contentLength : ℤ) (contentType : CString) (pRangeSpecifier : SendInstruction) : Prop where
  together : (Built (httpDownloadRequest res sys urlStr) ↔ Built (makeGetMessage none res sys urlStr)) ∧
    (Built (makeGetMessage none res sys urlStr) ↔
      Built (makePostMessage contentLength contentType res sys urlStr)) ∧
    (Built (makePostMessage contentLength contentType res sys urlStr) ↔
      Built (makeGetMessageEx pRangeSpecifier res sys urlStr))
  download : CarriesHost sys .get (some getHeaders) url url.hostport.text.text
    (httpDownloadRequest res sys urlStr)
  get : CarriesHost sys .get (some getHeaders) url url.hostport.text.text
    (makeGetMessage none res sys urlStr)
  post : CarriesHost sys .post (postHeaders contentLength contentType) url url.hostport.text.text
    (makePostMessage contentLength contentType res sys urlStr)
  getEx : CarriesHost sys .get (some (rangeHeaders pRangeSpecifier)) url url.hostport.text.text
    (makeGetMessageEx pRangeSpecifier res sys urlStr)

/-- Behind `http://` and the host there is a slash, and none in the host. -/
def PathBehindHost (urlStr : CString) (url : UriType) : Prop :=
  47 ∉ url.hostport.text.text ∧
    (urlStr.val.drop (7+url.hostport.text.text.length)).head? = some 47

theorem tokenStringCasecmp_http {t : UriToken} (h : tokenStringCasecmp t (cstr "http") = 0) :
    47 ∉ t.text ∧ t.text.length = 4 := by
  unfold tokenStringCasecmp at h
  split at h
  · cases h
  rename_i hlen
  have hlen : t.text.length = 4 := not_not.mp hlen
  have hsame : (untilNul t.text).map toLower = (cstr "http").map toLower :=
    (strncmpBy_eq_zero toLower_eq_zero t.text (cstr "http") (by decide)).mp ⟨h,hlen.ge⟩
  have hwhole : untilNul t.text = t.text := by
    apply (List.takeWhile_prefix _).eq_of_length
    have := congrArg List.length hsame
    rw [List.length_map,List.length_map] at this
    exact this.trans hlen.symm
  refine ⟨fun hmem => ?_,hlen⟩
  have hlower := List.mem_map_of_mem (f := toLower) hmem
  rw [hwhole] at hsame
  rw [hsame] at hlower
  exact absurd hlower (by decide)

theorem strstr_slashes {res : Resolver} {urlStr : CString} {url : UriType}
    (h : httpFixStrUrl res urlStr.val urlStr.val.length = .ok url) :
    strstr urlStr.val (cstr "//") = some 5 ∧ httpFixUrl url = .ok url ∧
      ∃ behind, urlStr.val.drop 7 = url.hostport.text.text++behind := by
  have hwhole := untilNul_of_no_nul urlStr.property
  unfold httpFixStrUrl at h
  split at h
  · cases h
  rename_i u hu
  rcases httpFixUrl_ok h with ⟨hfixed,hhost,hne,-⟩
  have hscheme : tokenStringCasecmp u.scheme (cstr "http") = 0 := by
    by_contra hn
    rw [httpFixUrl,if_pos hn] at h
    cases h
  rcases tokenStringCasecmp_http hscheme with ⟨hnone,hlen⟩
  nth_rewrite 2 [← hwhole] at hu
  rcases parseUri_split hu with ⟨scheme,part,rest,hsplit,hs,hp⟩
  rw [hwhole] at hsplit
  rw [hhost] at hne ⊢
  rcases hs with ⟨hs,-⟩ | ⟨-,rfl⟩
  · rw [hs] at hlen
    cases hlen
  rcases hp with ⟨hp,-⟩ | rfl
  · rw [hp] at hne
    exact absurd rfl hne
  rw [hsplit]
  refine ⟨?_,hfixed,u.pathquery.text++rest,?_⟩
  · have hno : ¬cstr "//" <:+: u.scheme.text :=
      fun hin => hnone (hin.subset (by decide))
    have hfound := strstr_behind (d := 58) (by decide : (58 : UInt8) ∉ cstr "//")
      (u.hostport.text.text++(u.pathquery.text++rest)) hno
    rw [hlen] at hfound
    simpa [cstr] using hfound
  · have hfront : ((u.scheme.text++[58])++[47,47]).length = 7 := by
      rw [List.length_append,List.length_append,hlen]
      rfl
    rw [← hfront,List.append_assoc [47,47],← List.append_assoc (u.scheme.text++[58]),List.drop_left]

@[simp] theorem methodToStr_get : methodToStr .get = some (cstr "GET") := by decide

@[simp] theorem methodToStr_post : methodToStr .post = some (cstr "POST") := by decide

theorem requestText_eq (name path host headers : List UInt8) :
    name++(cstr " "++(path++(cstr " HTTP/"++(printNumeral 10 1++(cstr "."++(printNumeral 10 1++
        [cr,lf]))))))++(cstr "HOST: "++(host++([cr,lf]++headers))) =
      requestText name path host headers := by
  have hone : printNumeral 10 1 = cstr "1" := by decide
  have hversion : cstr " HTTP/1.1\r\n" =
      cstr " HTTP/"++(printNumeral 10 1++(cstr "."++(printNumeral 10 1++[cr,lf]))) := by
    rw [hone]
    rfl
  simp only [requestText,hversion,List.append_assoc]

/-- The request line and the `HOST` header in front of the rest of a format. -/
theorem requestFormat_eq (sys : Platform) {m : HttpMethod} {name : List UInt8}
    (hm : methodToStr m = some name) (path host : List UInt8) (hostlen : ℕ) (headers : Format) :
    httpMakeMessage sys 1 1 ([.Q,.s,.b,.c]++headers.1)
        ([.method m,.str path,.size path.length,.str (cstr "HOST: "),.str host,.size hostlen]++
          headers.2) =
      (httpMakeMessage sys 1 1 headers.1 headers.2).map
        (requestText name path (host.take hostlen)) := by
  have hone : 1 < sizeMod := by decide
  have hQ := makeLetter_Q sys 1 1 hone hone 1 hm path path.length
    ([.str (cstr "HOST: "),.str host,.size hostlen]++headers.2)
  have h : makeMessage sys 1 1 3 ([.Q,.s,.b,.c]++headers.1)
      ([.method m,.str path,.size path.length,.str (cstr "HOST: "),.str host,.size hostlen]++
        headers.2) = _ :=
    (makeFormat_step hQ).trans (congrArg _ ((makeFormat_step rfl).trans (congrArg _
      ((makeFormat_step rfl).trans (congrArg _ (makeFormat_step rfl))))))
  rw [httpMakeMessage,h]
  change Except.map _ (Except.map _ (Except.map _ (Except.map _
    (makeFormat sys 1 1 (makeMessage sys 1 1 2) headers.1 headers.2)))) =
    Except.map _ (makeFormat sys 1 1 (makeMessage sys 1 1 2) headers.1 headers.2)
  cases makeFormat sys 1 1 (makeMessage sys 1 1 2) headers.1 headers.2 with
  | error e => rfl
  | ok text =>
    apply congrArg Except.ok
    rw [← requestText_eq,List.take_length]
    rfl

def Printed (sys : Platform) (headers : Format) : Prop :=
  ∃ text, httpMakeMessage sys 1 1 headers.1 headers.2 = .ok text

section Headers

variable {sys : Platform} {l : FormatLetter} {fmt : List FormatLetter} {args args' : List FormatArg}

theorem printed_cons {x : List UInt8}
    (h : makeLetter sys 1 1 (makeMessage sys 1 1 2) l args = .ok (x,args')) :
    Printed sys (l::fmt,args) ↔ Printed sys (fmt,args') := by
  have hstep : httpMakeMessage sys 1 1 (l::fmt) args =
      (httpMakeMessage sys 1 1 fmt args').map (x++·) := makeFormat_step h
  unfold Printed
  rw [hstep]
  cases httpMakeMessage sys 1 1 fmt args' with
  | ok text => exact ⟨fun _ => ⟨text,rfl⟩,fun _ => ⟨x++text,rfl⟩⟩
  | error e => exact ⟨fun ⟨_,ht⟩ => (by cases ht),fun ⟨_,ht⟩ => (by cases ht)⟩

theorem printed_nil : Printed sys ([],args) := ⟨[],rfl⟩

theorem printed_date (h : Printed sys (fmt,args)) :
    Printed sys (.D::fmt,args) ↔ (sys.gmtime sys.time).isSome = true := by
  cases hdate : sys.gmtime sys.time with
  | none =>
    have hl : makeLetter sys 1 1 (makeMessage sys 1 1 2) .D args =
        .error (.code upnpEOutofMemory) := by
      simp only [makeLetter,hdate]
    have hfail : httpMakeMessage sys 1 1 (.D::fmt) args = .error (.code upnpEOutofMemory) := by
      change makeFormat sys 1 1 (makeMessage sys 1 1 2) (.D::fmt) args = _
      rw [makeFormat,hl]
      rfl
    refine iff_of_false ?_ Bool.noConfusion
    rintro ⟨text,ht⟩
    rw [hfail] at ht
    cases ht
  | some date =>
    have hl : makeLetter sys 1 1 (makeMessage sys 1 1 2) .D args =
        .ok (cstr "DATE: "++dateText date++[cr,lf],args) := by
      simp only [makeLetter,hdate]
    exact iff_of_true ((printed_cons hl).mpr h) rfl

theorem printed_agent (h : Printed sys (fmt,args)) : Printed sys (.C::.U::fmt,args) :=
  (printed_cons rfl).mpr ((printed_cons (makeLetter_U sys 1 1 1 args)).mpr h)

@[simp] theorem getHeaders_printed :
    Printed sys getHeaders ↔ (sys.gmtime sys.time).isSome = true :=
  printed_date (printed_agent ((printed_cons rfl).mpr printed_nil))

@[simp] theorem rangeHeaders_printed (pRangeSpecifier : SendInstruction) :
    Printed sys (rangeHeaders pRangeSpecifier) ↔ (sys.gmtime sys.time).isSome = true :=
  (printed_cons rfl).trans getHeaders_printed

theorem postHeaders_printed {contentLength : ℤ} {contentType : CString} {headers : Format}
    (h : postHeaders contentLength contentType = some headers) :
    Printed sys headers ↔ (sys.gmtime sys.time).isSome = true := by
  have htype := fun args => makeLetter_T sys 1 1 1 contentType.val args
  unfold postHeaders at h
  split at h
  · rename_i hlen
    obtain ⟨n,rfl⟩ := Int.eq_ofNat_of_zero_le hlen
    cases h
    exact printed_date (printed_agent ((printed_cons (htype _)).mpr
      ((printed_cons (makeLetter_N sys 1 1 1 n [])).mpr ((printed_cons rfl).mpr printed_nil))))
  split at h
  · cases h
    exact printed_date (printed_agent ((printed_cons (htype _)).mpr
      ((printed_cons rfl).mpr ((printed_cons rfl).mpr printed_nil))))
  split at h
  · cases h
    exact printed_date (printed_agent ((printed_cons (htype _)).mpr
      ((printed_cons rfl).mpr printed_nil)))
  · cases h

end Headers

section Requests

variable {res : Resolver} {sys : Platform} {urlStr : CString} {url : UriType} {toEnd : Bool}
  {m : HttpMethod} {name : List UInt8} {headers : Option Format} {querystr : UriType → List UInt8}

/-- What a builder takes for the host. -/
def hostTaken (urlStr : CString) : List UInt8 := (urlStr.val.drop 7).takeWhile (· != 47)

theorem hostString_eq (h : strstr urlStr.val (cstr "//") = some 5) (toEnd : Bool) :
    if toEnd = true ∨ 47 ∈ urlStr.val.drop 7 then
      ∃ hoststr hostlen, hostString toEnd urlStr.val = .ok (hoststr,hostlen) ∧
        hoststr.take hostlen = hostTaken urlStr
    else hostString toEnd urlStr.val = .error (.code upnpEInvalidUrl) := by
  unfold hostString
  rw [h]
  dsimp only
  by_cases hslash : 47 ∈ urlStr.val.drop 7
  · have hchr : strchr (urlStr.val.drop 7) 47 = true := by simp [strchr,hslash]
    rw [if_pos (.inr hslash),if_pos hchr]
    refine ⟨_,_,rfl,?_⟩
    exact (List.prefix_iff_eq_take.mp (List.takeWhile_prefix _)).symm
  · have hchr : ¬strchr (urlStr.val.drop 7) 47 = true := by simp [strchr,hslash]
    rw [if_neg hchr]
    cases toEnd with
    | true =>
      rw [if_pos (.inl rfl),if_pos rfl]
      refine ⟨_,_,rfl,?_⟩
      rw [List.take_length,hostTaken,List.takeWhile_eq_self_iff.mpr]
      intro c hc
      rw [bne_iff_ne]
      rintro rfl
      exact hslash hc
    | false => rw [if_neg (by simpa using hslash),if_neg Bool.noConfusion]

theorem makeRequest_ok_iff (h : httpFixStrUrl res urlStr.val urlStr.val.length = .ok url)
    (hm : methodToStr m = some name) {b : UriType × List UInt8} :
    makeRequest toEnd m headers querystr res sys urlStr = .ok b ↔
      (toEnd = true ∨ 47 ∈ urlStr.val.drop 7) ∧ ∃ f text, headers = some f ∧
        httpMakeMessage sys 1 1 f.1 f.2 = .ok text ∧
        b = (url,requestText name (querystr url) (hostTaken urlStr) text) := by
  have hhost := hostString_eq (strstr_slashes h).1 toEnd
  unfold makeRequest
  rw [h]
  dsimp only
  split at hhost
  · rename_i hslash
    rcases hhost with ⟨hoststr,hostlen,hhost,htake⟩
    rw [hhost]
    simp only [bind,Except.bind]
    cases headers with
    | none => simp
    | some f =>
      have hfmt := requestFormat_eq sys hm (querystr url) hoststr hostlen f
      rw [htake] at hfmt
      rcases f with ⟨fmt,args⟩
      dsimp only at hfmt ⊢
      rw [hfmt,and_iff_right hslash]
      cases ht : httpMakeMessage sys 1 1 fmt args with
      | error e =>
        constructor
        · rintro ⟨⟩
        · rintro ⟨f,text,hf,hok,-⟩
          rw [← Option.some.inj hf,ht] at hok
          cases hok
      | ok text =>
        constructor
        · intro hb
          exact ⟨_,text,rfl,ht,(Except.ok.inj hb).symm⟩
        · rintro ⟨f,text',hf,hok,rfl⟩
          rw [← Option.some.inj hf,ht] at hok
          rw [← Except.ok.inj hok]
          rfl
  · rename_i hslash
    rw [hhost]
    simp [bind,Except.bind,hslash]

theorem built_iff (h : httpFixStrUrl res urlStr.val urlStr.val.length = .ok url)
    (hm : methodToStr m = some name) :
    Built (makeRequest toEnd m headers querystr res sys urlStr) ↔
      (toEnd = true ∨ 47 ∈ urlStr.val.drop 7) ∧ ∃ f, headers = some f ∧ Printed sys f := by
  simp only [Built,makeRequest_ok_iff h hm]
  constructor
  · rintro ⟨b,hslash,f,text,hf,ht,-⟩
    exact ⟨hslash,f,hf,text,ht⟩
  · rintro ⟨hslash,f,hf,text,ht⟩
    exact ⟨_,hslash,f,text,hf,ht,rfl⟩

theorem requestText_host {path host host' text : List UInt8}
    (h : requestText name path host text = requestText name path host' text) : host = host' := by
  unfold requestText at h
  have h := List.append_cancel_left (List.append_cancel_left (List.append_cancel_left
    (List.append_cancel_left (List.append_cancel_left h))))
  exact List.append_cancel_right h

/-- A request carries what has been taken for the host, and nothing else. -/
theorem carriesHost_iff (h : httpFixStrUrl res urlStr.val urlStr.val.length = .ok url)
    (hm : methodToStr m = some name) (hquery : querystr url = url.pathquery.text)
    (host : List UInt8) :
    CarriesHost sys m headers url host (makeRequest toEnd m headers querystr res sys urlStr) ↔
      (Built (makeRequest toEnd m headers querystr res sys urlStr) → hostTaken urlStr = host) := by
  constructor
  · rintro hall ⟨b,hb⟩
    rcases hall b hb with ⟨name',f,text,hm',hf,ht,rfl⟩
    rcases (makeRequest_ok_iff h hm).mp hb with ⟨-,f',text',hf',ht',hsame⟩
    rw [hf] at hf'
    rw [← Option.some.inj hf',ht] at ht'
    rw [hm] at hm'
    rw [← Option.some.inj hm',← Except.ok.inj ht',hquery] at hsame
    exact (requestText_host (congrArg Prod.snd hsame)).symm
  · intro hhost b hb
    rcases (makeRequest_ok_iff h hm).mp hb with ⟨-,f,text,hf,ht,rfl⟩
    rw [hquery,hhost ⟨_,hb⟩]
    exact ⟨name,f,text,hm,hf,ht,rfl⟩

theorem pathBehindHost_iff (h : httpFixStrUrl res urlStr.val urlStr.val.length = .ok url) :
    PathBehindHost urlStr url ↔
      47 ∈ urlStr.val.drop 7 ∧ hostTaken urlStr = url.hostport.text.text := by
  rcases (strstr_slashes h).2.2 with ⟨behind,hbehind⟩
  rw [PathBehindHost,hostTaken,← List.drop_drop,hbehind,List.drop_left]
  constructor
  · rintro ⟨hno,hhead⟩
    rcases List.head?_eq_some_iff.mp hhead with ⟨r,rfl⟩
    refine ⟨by simp,?_⟩
    rw [List.takeWhile_append_of_pos]
    · simp
    · intro c hc
      rw [bne_iff_ne]
      rintro rfl
      exact hno hc
  · rintro ⟨hslash,htake⟩
    have hno : 47 ∉ url.hostport.text.text := by
      rw [← htake]
      intro hmem
      have := List.mem_takeWhile_imp hmem
      simp at this
    refine ⟨hno,?_⟩
    rw [List.takeWhile_append_of_pos] at htake
    · have hnil : behind.takeWhile (· != 47) = [] := List.append_right_eq_self.mp htake
      cases behind with
      | nil => exact absurd (by simpa using hslash) hno
      | cons c behind =>
        by_contra hc
        have hne : (c != 47) = true := by simpa using hc
        rw [List.takeWhile_cons,if_pos hne] at hnil
        cases hnil
    · intro c hc
      rw [bne_iff_ne]
      rintro rfl
      exact hno hc

end Requests

/-- The five ways to write a host. -/
theorem oneHost_iff (res : Resolver) (sys : Platform) (urlStr : CString) (contentLength : ℤ)
    (contentType : CString) (pRangeSpecifier : SendInstruction) {url : UriType}
    (h : httpFixStrUrl res urlStr.val urlStr.val.length = .ok url) :
    (∀ m name, methodToStr m = some name →
      httpMakeMessage sys 1 1 [.q] [.method m,.uri url] =
        .ok (requestText name url.pathquery.text url.hostport.text.text [])) ∧
    (OneHost res sys urlStr url contentLength contentType pRangeSpecifier ↔
      sys.gmtime sys.time = none ∨
        (postHeaders contentLength contentType).isSome = true ∧ PathBehindHost urlStr url) := by
  constructor
  · intro m name hm
    have hone : 1 < sizeMod := by decide
    have hfixed := (strstr_slashes h).2.1
    have hq : makeMessage sys 1 1 3 [.q] [.method m,.uri url] = .ok _ :=
      makeFormat_cons (makeLetter_q sys 1 1 hone hone 0 hm hfixed []) rfl
    rw [httpMakeMessage,hq,List.append_nil,← requestText_eq,List.append_nil]
  · have hsome : ∀ f, (∃ g, some f = some g ∧ Printed sys g) ↔ Printed sys f := by
      intro f
      exact ⟨fun ⟨g,hg,hp⟩ => Option.some.inj hg ▸ hp,fun hp => ⟨f,rfl,hp⟩⟩
    have hdownload : Built (httpDownloadRequest res sys urlStr) ↔
        (sys.gmtime sys.time).isSome = true := by
      rw [httpDownloadRequest,built_iff h methodToStr_get,hsome,getHeaders_printed]
      exact and_iff_right (.inl rfl)
    have hget : Built (makeGetMessage none res sys urlStr) ↔
        47 ∈ urlStr.val.drop 7 ∧ (sys.gmtime sys.time).isSome = true := by
      rw [makeGetMessage,built_iff h methodToStr_get,hsome,getHeaders_printed]
      simp
    have hgetEx : Built (makeGetMessageEx pRangeSpecifier res sys urlStr) ↔
        47 ∈ urlStr.val.drop 7 ∧ (sys.gmtime sys.time).isSome = true := by
      rw [makeGetMessageEx,built_iff h methodToStr_get,hsome,rangeHeaders_printed]
      simp
    have hpost : Built (makePostMessage contentLength contentType res sys urlStr) ↔
        47 ∈ urlStr.val.drop 7 ∧ (postHeaders contentLength contentType).isSome = true ∧
          (sys.gmtime sys.time).isSome = true := by
      rw [makePostMessage,built_iff h methodToStr_post]
      cases hheaders : postHeaders contentLength contentType with
      | none => simp
      | some f =>
        rw [hsome,postHeaders_printed hheaders]
        simp
    have hnone : sys.gmtime sys.time = none ↔ ¬(sys.gmtime sys.time).isSome = true := by
      rw [Option.not_isSome_iff_eq_none]
    rw [pathBehindHost_iff h,hnone]
    constructor
    · intro hall
      by_cases hdate : (sys.gmtime sys.time).isSome = true
      · have hbuilt := hall.together.1.mp (hdownload.mpr hdate)
        have hposted := hpost.mp (hall.together.2.1.mp hbuilt)
        exact .inr ⟨hposted.2.1,hposted.1,
          (carriesHost_iff h methodToStr_get rfl _).mp hall.get hbuilt⟩
      · exact .inl hdate
    · intro hwhen
      have hhost : (sys.gmtime sys.time).isSome = true →
          hostTaken urlStr = url.hostport.text.text := by
        intro hdate
        rcases hwhen with hn | hwhen
        · exact absurd hdate hn
        · exact hwhen.2.2
      refine ⟨⟨?_,?_,?_⟩,?_,?_,?_,?_⟩
      · rw [hdownload,hget]
        exact ⟨fun hd => ⟨(hwhen.resolve_left (not_not.mpr hd)).2.1,hd⟩,And.right⟩
      · rw [hget,hpost]
        exact ⟨fun hb => ⟨hb.1,(hwhen.resolve_left (not_not.mpr hb.2)).1,hb.2⟩,
          fun hb => ⟨hb.1,hb.2.2⟩⟩
      · rw [hpost,hgetEx]
        exact ⟨fun hb => ⟨hb.1,hb.2.2⟩,
          fun hb => ⟨hb.1,(hwhen.resolve_left (not_not.mpr hb.2)).1,hb.2⟩⟩
      · exact (carriesHost_iff h methodToStr_get rfl _).mpr fun hb => hhost (hdownload.mp hb)
      · exact (carriesHost_iff h methodToStr_get rfl _).mpr fun hb => hhost (hget.mp hb).2
      · exact (carriesHost_iff h methodToStr_post rfl _).mpr fun hb => hhost (hpost.mp hb).2.2
      · exact (carriesHost_iff h methodToStr_get rfl _).mpr fun hb => hhost (hgetEx.mp hb).2

def datedPlatform : Platform :=
  ⟨⟨cstr "Linux",cstr "6.1"⟩,0,fun _ => some ⟨0,0,0,1,0,70,4⟩⟩

def urlWithPath : CString := ⟨cstr "http://1.2.3.4/",by decide⟩

def urlWithoutPath : CString := ⟨cstr "http://1.2.3.4",by decide⟩

def urlWithQuery : CString := ⟨cstr "http://1.2.3.4?a=1/",by decide⟩

theorem oneHost_urlWithPath :
    ∃ url, httpFixStrUrl numericHost urlWithPath.val urlWithPath.val.length = .ok url ∧
      url.hostport.text.text = cstr "1.2.3.4" ∧
      OneHost numericHost datedPlatform urlWithPath url 0 ⟨cstr "text/xml",by decide⟩ ⟨[]⟩ := by
  refine ⟨_,rfl,rfl,?_⟩
  rw [(oneHost_iff numericHost datedPlatform urlWithPath 0 ⟨cstr "text/xml",by decide⟩ ⟨[]⟩ rfl).2]
  exact .inr ⟨rfl,by decide,by decide⟩

/-- Without a slash only the download is built, and a query behind the host is taken for a part of
it. -/
theorem hosts_differ :
    (∃ url, httpFixStrUrl numericHost urlWithoutPath.val urlWithoutPath.val.length = .ok url ∧
      Built (httpDownloadRequest numericHost datedPlatform urlWithoutPath) ∧
      makeGetMessage none numericHost datedPlatform urlWithoutPath =
        .error (.code upnpEInvalidUrl) ∧
      ¬OneHost numericHost datedPlatform urlWithoutPath url 0 ⟨cstr "text/xml",by decide⟩ ⟨[]⟩) ∧
    ∃ url, httpFixStrUrl numericHost urlWithQuery.val urlWithQuery.val.length = .ok url ∧
      url.hostport.text.text = cstr "1.2.3.4" ∧
      CarriesHost datedPlatform .get (some getHeaders) url (cstr "1.2.3.4?a=1")
        (makeGetMessage none numericHost datedPlatform urlWithQuery) ∧
      Built (makeGetMessage none numericHost datedPlatform urlWithQuery) := by
  have hdate : Printed datedPlatform getHeaders := getHeaders_printed.mpr rfl
  constructor
  · have hurl : ∃ url,
        httpFixStrUrl numericHost urlWithoutPath.val urlWithoutPath.val.length = .ok url := ⟨_,rfl⟩
    rcases hurl with ⟨url,hurl⟩
    have hbuilt : Built (httpDownloadRequest numericHost datedPlatform urlWithoutPath) :=
      (built_iff hurl methodToStr_get).mpr ⟨.inl rfl,_,rfl,hdate⟩
    have hrefused : ¬Built (makeGetMessage none numericHost datedPlatform urlWithoutPath) := by
      rw [makeGetMessage,built_iff hurl methodToStr_get]
      rintro ⟨hslash,-⟩
      revert hslash
      decide
    exact ⟨url,hurl,hbuilt,rfl,fun hone => hrefused (hone.together.1.mp hbuilt)⟩
  · have hurl : ∃ url,
        httpFixStrUrl numericHost urlWithQuery.val urlWithQuery.val.length = .ok url ∧
        url.hostport.text.text = cstr "1.2.3.4" := ⟨_,rfl,rfl⟩
    rcases hurl with ⟨url,hurl,htoken⟩
    refine ⟨url,hurl,htoken,?_,?_⟩
    · rw [makeGetMessage,carriesHost_iff hurl methodToStr_get rfl]
      exact fun _ => rfl
    · rw [makeGetMessage,built_iff hurl methodToStr_get]
      exact ⟨.inr (by decide),_,rfl,hdate⟩

end Http
end CtrlPt
