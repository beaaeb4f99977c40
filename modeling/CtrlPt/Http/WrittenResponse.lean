import CtrlPt.Http.BuiltRequests
import CtrlPt.Http.Fields

/-! Responses as they are written, read by the response parser. -/
namespace CtrlPt
namespace Http

open CText Uri Resume

/-- A status line: numbers, and a reason behind a blank. -/
structure WrittenResponse where
  major : ℕ
  minor : ℕ
  code : ℕ
  reason : List UInt8
  major_lt : major < 2^31
  minor_lt : minor < 2^31
  code_lt : code < 2^31
  reason_chars : ∀ c ∈ reason, isPlainChar c = true
  reason_nul : 0 ∉ reason
  reason_head : ∀ c ∈ reason.head?, isBlank c = false

def WrittenResponse.numbers (q : WrittenResponse) : List UInt8 :=
  printNumeral 10 q.major++46::(printNumeral 10 q.minor++32::(printNumeral 10 q.code++32::q.reason))

def WrittenResponse.line (q : WrittenResponse) : List UInt8 :=
  cstr "HTTP"++47::(q.numbers++[cr,lf])

theorem WrittenResponse.line_append (q : WrittenResponse) (u : List UInt8) :
    q.line++u = cstr "HTTP"++47::(q.numbers++([cr,lf]++u)) := by
  simp only [line,List.append_assoc,List.cons_append,List.nil_append]

theorem WrittenResponse.numbers_chars (q : WrittenResponse) :
    ∀ c ∈ q.numbers, isPlainChar c = true := by
  have hdot : isPlainChar 46 = true := by decide
  have hblank : isPlainChar 32 = true := by decide
  simp only [numbers,List.forall_mem_append,List.forall_mem_cons]
  exact ⟨printNumeral_plain _,hdot,printNumeral_plain _,hblank,printNumeral_plain _,hblank,
    q.reason_chars⟩

theorem scanInt_eq (r : List UInt8) :
    scanInt r = (Web.scanInt64 r).map fun p => (toInt p.1,p.2) := by
  simp only [scanInt,Web.scanInt64]
  split <;> rfl

theorem printNumeral_digits (n : ℕ) : ∀ c ∈ printNumeral 10 n, isDigit c = true :=
  Web.numeral_digits (printNumeral_numeral (by decide) (by decide) n)

theorem scanInt_printNumeral {n : ℕ} (hn : n < 2^31) {w : List UInt8}
    (hw : ∀ c ∈ w.head?, isDigit c = false) : scanInt (printNumeral 10 n++w) = some ((n : ℤ),w) := by
  have hscan := Web.scanInt64_numeral (a := []) (List.forall_mem_nil _)
    (printNumeral_numeral (by decide) (by decide) n) hw
  have hclamped : Web.clamped n = n := by
    unfold Web.clamped longMax
    omega
  rw [List.nil_append] at hscan
  rw [scanInt_eq,hscan,hclamped,Option.map_some,toInt_of_lt hn]

theorem skipInt_printNumeral {pre : List UInt8} (hpre : ∀ c ∈ pre, isDigit c = false) (n : ℕ)
    {w : List UInt8} (hw : ∀ c ∈ w.head?, isDigit c = false) :
    skipInt (pre++(printNumeral 10 n++w)) = w := by
  have hdigits := printNumeral_digits n
  have hne : printNumeral 10 n ≠ [] := (printNumeral_numeral (by decide) (by decide) n).ne_nil
  rw [skipInt_of_noDigit hpre,skipInt]
  obtain ⟨d,ds,hd⟩ := List.exists_cons_of_ne_nil hne
  have hfirst : (printNumeral 10 n++w).dropWhile (fun c => !isDigit c) = printNumeral 10 n++w := by
    rw [hd,List.cons_append,List.dropWhile_cons_of_neg]
    simp [hdigits d (by simp [hd])]
  rw [hfirst,List.dropWhile_append_of_pos hdigits]
  cases w with
  | nil => rfl
  | cons c w => exact List.dropWhile_cons_of_neg (by simp [hw c rfl])

@[simp] theorem WrittenResponse.numbers_nul (q : WrittenResponse) :
    untilNul q.numbers = q.numbers := by
  apply untilNul_of_no_nul
  simp only [numbers,List.mem_append,List.mem_cons,not_or]
  exact ⟨printNumeral_noNul _,by decide,printNumeral_noNul _,by decide,printNumeral_noNul _,
    by decide,q.reason_nul⟩

theorem dropWhile_space_numeral (n : ℕ) (w : List UInt8) :
    (printNumeral 10 n++w).dropWhile isSpace = printNumeral 10 n++w := by
  have hne : printNumeral 10 n ≠ [] := (printNumeral_numeral (by decide) (by decide) n).ne_nil
  obtain ⟨d,ds,hd⟩ := List.exists_cons_of_ne_nil hne
  have hspace : isSpace d = false :=
    (Web.isDigit_plain d (printNumeral_digits n d (by simp [hd]))).1
  rw [hd,List.cons_append,List.dropWhile_cons_of_neg (by simp [hspace])]

theorem dropWhile_space_blank (w : List UInt8) :
    (32::w : List UInt8).dropWhile isSpace = w.dropWhile isSpace :=
  List.dropWhile_cons_of_pos (by decide)

@[simp] theorem statusScan_written (q : WrittenResponse) :
    sscanf statusScan (untilNul q.numbers) = [(q.major : ℤ),q.minor,q.code] := by
  have hdot : ∀ u : List UInt8, ∀ c ∈ (46::u).head?, isDigit c = false := by
    rintro u c ⟨⟩
    decide
  have hblank : ∀ u : List UInt8, ∀ c ∈ (32::u).head?, isDigit c = false := by
    rintro u c ⟨⟩
    decide
  have hmark : ∀ u : List UInt8, (46::u : List UInt8).dropWhile isSpace = 46::u := fun _ =>
    List.dropWhile_cons_of_neg (by decide)
  rw [q.numbers_nul]
  simp [statusScan,versionScan,WrittenResponse.numbers,sscanf,
    scanInt_printNumeral q.major_lt (hdot _),hmark,dropWhile_space_numeral,
    scanInt_printNumeral q.minor_lt (hblank _),dropWhile_space_blank,
    scanInt_printNumeral q.code_lt (hblank _)]

theorem WrittenResponse.numbers_head (q : WrittenResponse) :
    ∀ c ∈ q.numbers.head?, isBlank c = false := by
  have hne : printNumeral 10 q.major ≠ [] := (printNumeral_numeral (by decide) (by decide) _).ne_nil
  obtain ⟨d,ds,hd⟩ := List.exists_cons_of_ne_nil hne
  intro c hc
  rw [numbers,hd] at hc
  cases hc
  exact (targetChar_kind d (printNumeral_target q.major d (by simp [hd]))).1

@[simp] theorem responseLineFmt_written (q : WrittenResponse) (u : List UInt8) :
    scannerMatch responseLineFmt (q.line++u) = ⟨.ok,[.text 5 q.numbers],q.line.length⟩ := by
  have hbrk : LineBreak [cr,lf] := .inl rfl
  have htext : LineText q.numbers := lineText_of_plain q.numbers_chars
  have hfmt : responseLineFmt = .caseSensitive false::((cstr "http").map .char++
    [.optWs,.char 47,.optWs,.line,.crlf]) := rfl
  have hslash : NextToken (47::(q.numbers++([cr,lf]++u))) := ⟨⟨[47],.separator⟩,1,rfl,by rintro ⟨⟩⟩
  have hnumbers : NextToken (q.numbers++([cr,lf]++u)) := htext.next q.numbers_head hbrk
  have hline : ∀ k, directive false false k (q.numbers++([cr,lf]++u)) .line =
      ([.text k q.numbers],.ok () q.numbers.length) := by
    intro k
    simp only [directive,htext.readUntilCrlf hbrk u,Scan.store,List.take_left]
  have hcrlf : ∀ k, directive false false k ([cr,lf]++u) .crlf = ([],.ok () 2) := by
    intro k
    simp only [directive,hbrk.expect u,Scan.store]
    rfl
  have hmark : ∀ k, directive false false k (47::(q.numbers++([cr,lf]++u))) (.char 47) =
      ([],.ok () 1) := fun _ => rfl
  have hlen : q.line.length = 5+q.numbers.length+2 := by
    simp only [WrittenResponse.line,List.length_append,List.length_cons,List.length_nil]
    have hhttp : (cstr "HTTP").length = 4 := rfl
    omega
  rw [hlen,q.line_append]
  generalize hend : q.numbers++([cr,lf]++u) = r at *
  have hdrop : r.drop q.numbers.length = [cr,lf]++u := by rw [← hend,List.drop_left]
  have hcase : directive false true 0 (cstr "HTTP"++47::r) (.caseSensitive false) =
      ([],.ok () 0) := rfl
  have hhttp : (cstr "http").map toLower = (cstr "HTTP").map toLower := by decide
  rw [scannerMatch,vfmatch,hfmt,vfmatchFrom_skip hcase,List.drop_zero]
  simp only [nextCase]
  rw [vfmatchFrom_literal hhttp,vfmatchFrom_skip (directive_optWs_none hslash _ _),List.drop_zero]
  simp only [nextCase]
  rw [vfmatchFrom_skip (hmark _),List.drop_one,List.tail_cons]
  simp only [nextCase]
  rw [vfmatchFrom_skip (directive_optWs_none hnumbers _ _),List.drop_zero]
  simp only [vfmatchFrom,nextCase,hline,hdrop,hcrlf]
  rfl

@[simp] theorem skipBlankLines_response (q : WrittenResponse) (u : List UInt8) :
    skipBlankLines false (q.line++u) = .ok () 0 := by
  rw [q.line_append]
  exact skipBlankLines_of_token
    (scannerGetToken_word (by decide) (by decide) (b := 47) (by decide) _) (by simp)

def afterResponse (p : HttpParser) (q : WrittenResponse) : HttpParser :=
  { p.advance q.line.length with
    msg :=
      { p.msg with
        majorVersion := q.major
        minorVersion := q.minor
        statusCode := q.code
        statusMsg := q.reason }
    position := .headers }

/-- What is left behind the three numbers. -/
theorem skipInts_written (q : WrittenResponse) (u : List UInt8) :
    skipInt (skipInt (skipInt (q.numbers++([cr,lf]++u)))) = 32::(q.reason++([cr,lf]++u)) := by
  have hnone : ∀ c ∈ ([] : List UInt8), isDigit c = false := List.forall_mem_nil _
  have hdot : ∀ c ∈ [(46 : UInt8)], isDigit c = false := by decide
  have hblank : ∀ c ∈ [(32 : UInt8)], isDigit c = false := by decide
  have hmajor := skipInt_printNumeral hnone q.major
    (w := 46::(printNumeral 10 q.minor++32::(printNumeral 10 q.code++32::(q.reason++([cr,lf]++u)))))
    (by rintro c ⟨⟩; decide)
  have hminor := skipInt_printNumeral hdot q.minor
    (w := 32::(printNumeral 10 q.code++32::(q.reason++([cr,lf]++u)))) (by rintro c ⟨⟩; decide)
  have hcode := skipInt_printNumeral hblank q.code (w := 32::(q.reason++([cr,lf]++u)))
    (by rintro c ⟨⟩; decide)
  rw [List.nil_append] at hmajor
  rw [List.singleton_append] at hminor hcode
  have happend : q.numbers++([cr,lf]++u) = printNumeral 10 q.major++46::(printNumeral 10 q.minor++
      32::(printNumeral 10 q.code++32::(q.reason++([cr,lf]++u)))) := by
    simp only [WrittenResponse.numbers,List.append_assoc,List.cons_append]
  rw [happend,hmajor,hminor,hcode]

theorem parserParseResponseline_written {p : HttpParser} {q : WrittenResponse} {u : List UInt8}
    (hp : p.rest = q.line++u) : parserParseResponseline p = (.ok,afterResponse p q) := by
  have hm := responseLineFmt_written q u
  have htext : (q.line++u).drop 5 = q.numbers++([cr,lf]++u) := by
    rw [q.line_append]
    rfl
  have hreason : (32::(q.reason++([cr,lf]++u))).dropWhile isBlank = q.reason++([cr,lf]++u) := by
    rw [List.dropWhile_cons_of_pos (by decide)]
    cases hr : q.reason with
    | nil => exact List.dropWhile_cons_of_neg (by decide)
    | cons c cs =>
      exact List.dropWhile_cons_of_neg (by simp [q.reason_head c (by simp [hr])])
  have hlen : q.numbers.length-((q.numbers++([cr,lf]++u)).length-(q.reason++([cr,lf]++u)).length) =
      q.reason.length := by
    simp only [WrittenResponse.numbers,List.length_append,List.length_cons,List.length_nil]
    omega
  have hpos : ¬(([(q.major : ℤ),q.minor,q.code].length ≠ 3) ∨ (q.major : ℤ) < 0 ∨
      (q.minor : ℤ) < 0 ∨ (q.code : ℤ) < 0) := by
    simp only [List.length_cons,List.length_nil]
    omega
  have hline : responseLine p = (.ok,afterResponse p q) := by
    simp only [responseLine,hp,hm,ne_eq,not_true_eq_false,if_false,Match.textAt,
      List.getElem?_cons_zero,htext,statusLine,statusScan_written,List.getD_cons_zero,
      List.getD_cons_succ,if_neg hpos,skipInts_written,List.headD_cons]
    rw [if_pos (by decide),hreason,hlen,List.take_left]
    rfl
  simp only [parserParseResponseline,afterBlankLines,hp,skipBlankLines_response,
    HttpParser.advance,Nat.add_zero]
  exact hline

def writtenResponse (q : WrittenResponse) (fs : List WrittenField) (body : List UInt8) : List UInt8 :=
  q.line++(fs.flatMap WrittenField.line++([cr,lf]++body))

/-- What a response holds before its body is read. -/
def responseView (q : WrittenResponse) (requestMethod : HttpMethod) (headers : List HttpHeader) :
    MessageView :=
  { (parserResponseInit requestMethod).messageView with
    majorVersion := q.major
    minorVersion := q.minor
    statusCode := q.code
    statusMsg := q.reason
    headers := headers }

/-- A parser of a response at the first byte of the body. -/
structure AtEntity (p : HttpParser) (requestMethod : HttpMethod) (view : MessageView)
    (body : List UInt8) : Prop where
  rest : p.rest = body
  entPosition : p.entPosition = .determineReadMethod
  discarded : p.msg.amountDiscarded = 0
  isRequest : p.msg.isRequest = false
  requestMethod : p.msg.requestMethod = requestMethod
  view : p.messageView = view

theorem AtEntity.append {p : HttpParser} {requestMethod : HttpMethod} {view : MessageView}
    (h : AtEntity p requestMethod view []) (hcursor : p.cursor ≤ p.msg.msg.length)
    (hentity : p.msg.entity.length = 0) (body : List UInt8) :
    AtEntity (p.append body) requestMethod view body := by
  refine ⟨?_,h.entPosition,h.discarded,h.isRequest,h.requestMethod,?_⟩
  · rw [HttpParser.rest_append hcursor,h.rest,List.nil_append]
  · rw [← h.view]
    simp only [HttpParser.messageView,HttpParser.view,HttpParser.append,hentity,List.take_zero]

/-- The parser goes through the lines to the body. -/
theorem parserAppend_response (res : Resolver) (q : WrittenResponse) {fs : List WrittenField}
    (hfs : Distinct fs) (requestMethod : HttpMethod) :
    ∃ p, AtEntity p requestMethod
        (responseView q requestMethod (fs.map WrittenField.header)) [] ∧
      p.position = .entity ∧ p.cursor = p.msg.msg.length ∧ p.msg.entity = ⟨0,0⟩ ∧
      p.chunkSize = 0 ∧
      ∀ body, parserAppend res (parserResponseInit requestMethod) (writtenResponse q fs body) =
        parserParseEntity (p.append body) := by
  have hhead : ∀ body, writtenResponse q fs body = writtenResponse q fs []++body := by
    intro body
    simp only [writtenResponse,List.append_assoc,List.append_nil]
  let p1 : List UInt8 → HttpParser := fun body =>
    afterResponse ((parserResponseInit requestMethod).append (writtenResponse q fs body)) q
  let p : HttpParser :=
    { p1 [] with
      msg := { (p1 []).msg with headers := fs.map WrittenField.header }
      cursor := (writtenResponse q fs []).length
      position := .entity }
  have hread : ∀ body, parserParseHeaders (p1 body) = (.ok,p.append body) := by
    intro body
    have hrest : (p1 body).rest = fs.flatMap WrittenField.line++([cr,lf]++body) := by
      change (writtenResponse q fs body).drop (0+q.line.length) = _
      rw [Nat.zero_add,writtenResponse,List.drop_left]
    rcases readFields_distinct hfs (p := p1 body) rfl with ⟨hheaders,hmethod⟩
    have hlen : (writtenResponse q fs []).length =
        0+q.line.length+(fs.flatMap WrittenField.line).length+2 := by
      simp only [writtenResponse,List.length_append,List.length_cons,List.length_nil]
      omega
    rw [parserParseHeaders_written fs (.inl rfl) hrest,readFields_keeps,hheaders,hmethod,endHeaders,
      if_neg (by rintro ⟨⟨⟩,-⟩)]
    simp only [p,p1,hlen,hhead body]
    rfl
  have hline : ∀ body, parserParse res ((parserResponseInit requestMethod).append
      (writtenResponse q fs body)) = parserParse res (p1 body) := by
    intro body
    have hstep : parserStep res ((parserResponseInit requestMethod).append
        (writtenResponse q fs body)) = (.ok,p1 body) :=
      parserParseResponseline_written (u := fs.flatMap WrittenField.line++([cr,lf]++body)) rfl
    rw [parserParse_again (by rw [hstep]),hstep]
  refine ⟨p,⟨?_,rfl,rfl,rfl,rfl,rfl⟩,rfl,rfl,rfl,rfl,fun body => ?_⟩
  · exact List.drop_length
  · have hstep : parserStep res (p1 body) = (.ok,p.append body) := hread body
    rw [parserAppend,hline,parserParse_again (by rw [hstep]),hstep]
    exact parserParse_entity res rfl

/-- Whatever the pieces a text comes in, the response parser gets this out of it. -/
def AnswersWith (res : Resolver) (requestMethod : HttpMethod) (text : List UInt8)
    (view : MessageView) : Prop :=
  ∀ pieces : List (List UInt8), pieces ≠ [] → pieces.flatten = text →
    observeMessage (feedParser res (parserResponseInit requestMethod) pieces) = (.success,some view)

theorem feedParser_response (res : Resolver) (requestMethod : HttpMethod)
    {pieces : List (List UInt8)} (hne : pieces ≠ []) {text : List UInt8}
    (h : pieces.flatten = text) :
    observeMessage (feedParser res (parserResponseInit requestMethod) pieces) =
      observeMessage (parserAppend res (parserResponseInit requestMethod) text) := by
  have hone : [text] ≠ [] := List.cons_ne_nil _ _
  have hflat : pieces.flatten = [text].flatten := by simpa using h
  have hcongr := (parserParse_resumable res).feed_congr hne hone hflat _
    (parserResponseInit_responding requestMethod)
  rw [feedParser_eq_feed]
  exact hcongr

theorem AtEntity.withoutBody {p : HttpParser} {requestMethod : HttpMethod} {view : MessageView}
    {body : List UInt8} (h : AtEntity p requestMethod view body) (hno : noBody p.msg = true) :
    observeMessage (parserParseEntity p) =
      (.success,some { view with entityLength := 0, entityBytes := [] }) := by
  have hread : readMethod { p.msg with entity := ⟨p.cursor,0⟩ } = .noBody := if_pos hno
  have hstep : entityStep p = (.success,
      { p with
        msg := { p.msg with entity := ⟨p.cursor,0⟩ }
        entityStartPosition := p.cursor
        position := .complete }) := by
    simp only [entityStep,h.entPosition,parserGetEntityReadMethod,HttpParser.setEntity,hread]
  rw [parserParseEntity_done (by rw [hstep]; rintro ⟨⟩),hstep,← h.view]
  simp [observeMessage,HttpParser.messageView,HttpParser.view]

/-- A body with a length is read when it is there. -/
theorem AtEntity.clen {p : HttpParser} {requestMethod : HttpMethod} {view : MessageView}
    {body v : List UInt8} (h : AtEntity p requestMethod view body) (hyes : noBody p.msg = false)
    (hte : ∀ x ∈ view.headers, x.nameId ≠ .transferEncoding)
    (hcl : findHdr view.headers .contentLength = some v) {n : ℕ}
    (hn : toUInt (rawToInt 10 v) = n) (hbody : n ≤ body.length) :
    observeMessage (parserParseEntity p) =
      (.success,some { view with entityLength := n, entityBytes := body.take n }) := by
  have hview := h.view
  have hheaders : p.msg.headers = view.headers := congrArg (fun w => w.headers) hview
  have hno : findHdr view.headers .transferEncoding = none := by
    rw [findHdr,List.find?_eq_none.mpr fun x hx => by simpa using hte x hx]
    rfl
  have hread : readMethod { p.msg with entity := ⟨p.cursor,0⟩ } = .clen n := by
    have hbody : ¬noBody { p.msg with entity := ⟨p.cursor,0⟩ } = true := by
      change ¬noBody p.msg = true
      rw [hyes]
      exact Bool.false_ne_true
    rw [readMethod,if_neg hbody]
    simp [hno,hheaders,hcl,hn]
  have hlower : lowerHdr p.msg.headers .transferEncoding = p.msg.headers := by
    have hidx : findHdrIdx p.msg.headers .transferEncoding = none := by
      rw [hheaders]
      exact List.findIdx?_eq_none_iff.mpr fun x hx => by simpa using hte x hx
    rw [lowerHdr,hidx]
  have hstep : entityStep p = (.continue1,
      { p with
        msg := { p.msg with entity := ⟨p.cursor,0⟩ }
        entityStartPosition := p.cursor
        contentLength := n
        entPosition := .usingClen }) := by
    simp only [entityStep,h.entPosition,parserGetEntityReadMethod,HttpParser.setEntity,hread,hlower]
  have hbuf : p.msg.msg.drop p.cursor = body := h.rest
  have hlen : ¬p.msg.msg.length-p.cursor < n := by
    rw [← List.length_drop,hbuf]
    omega
  rw [parserParseEntity_again (by rw [hstep]),hstep,parserParseEntity_done]
  · simp only [entityStep]
    rw [usingClen_observe (by exact h.discarded) (by exact hlen),← hview]
    simp only [HttpParser.messageView,HttpParser.view,hbuf]
  · simp only [entityStep,parserParseEntityUsingClen]
    split <;> rintro ⟨⟩

def bodyless (statusCode : ℤ) (requestMethod : HttpMethod) : Bool :=
  statusCode == 204 || statusCode == 304 || (100 ≤ statusCode && statusCode ≤ 199) ||
    [.head,.msearch,.subscribe,.unsubscribe,.notify].contains requestMethod

theorem AtEntity.noBody_eq {p : HttpParser} {requestMethod : HttpMethod} {view : MessageView}
    {body : List UInt8} (h : AtEntity p requestMethod view body) :
    noBody p.msg = bodyless view.statusCode requestMethod := by
  have hcode : p.msg.statusCode = view.statusCode := congrArg (fun w => w.statusCode) h.view
  simp [noBody,h.isRequest,hcode,h.requestMethod,bodyless]

theorem answersWith_bodyless (res : Resolver) (q : WrittenResponse) {fs : List WrittenField}
    (hfs : Distinct fs) {requestMethod : HttpMethod} (hno : bodyless q.code requestMethod = true)
    (body : List UInt8) :
    AnswersWith res requestMethod (writtenResponse q fs body)
      { responseView q requestMethod (fs.map WrittenField.header) with
        entityLength := 0, entityBytes := [] } := by
  rcases parserAppend_response res q hfs requestMethod with ⟨p,hp,-,hcursor,hentity,-,hall⟩
  have hbody := hp.append hcursor.le (congrArg Entity.length hentity) body
  intro pieces hne hpieces
  rw [feedParser_response res requestMethod hne hpieces,hall]
  exact hbody.withoutBody (hbody.noBody_eq.trans hno)

theorem answersWith_clen (res : Resolver) (q : WrittenResponse) {fs : List WrittenField}
    (hfs : Distinct fs) {requestMethod : HttpMethod} (hyes : bodyless q.code requestMethod = false)
    (hte : ∀ x ∈ fs.map WrittenField.header, x.nameId ≠ .transferEncoding) {v : List UInt8}
    (hcl : findHdr (fs.map WrittenField.header) .contentLength = some v) {body : List UInt8}
    (hn : toUInt (rawToInt 10 v) = body.length) :
    AnswersWith res requestMethod (writtenResponse q fs body)
      { responseView q requestMethod (fs.map WrittenField.header) with
        entityLength := body.length, entityBytes := body } := by
  rcases parserAppend_response res q hfs requestMethod with ⟨p,hp,-,hcursor,hentity,-,hall⟩
  have hbody := hp.append hcursor.le (congrArg Entity.length hentity) body
  have hread := hbody.clen (hbody.noBody_eq.trans hyes) hte hcl hn (Nat.le_refl _)
  intro pieces hne hpieces
  rw [feedParser_response res requestMethod hne hpieces,hall,hread,List.take_length]

end Http
end CtrlPt
