import CtrlPt.Http.HeaderList
import CtrlPt.Http.Post
import CtrlPt.Http.WrittenText

/-! Whole requests that are written plainly: a request line, fields, an empty line and a body. -/
namespace CtrlPt
namespace Http

open CText Uri

theorem lineText_of_plain {w : List UInt8} (h : ∀ c ∈ w, isPlainChar c = true) : LineText w := by
  induction w with
  | nil => exact .nil
  | cons c w ih => exact .plain c w (h c (by simp)) (ih fun d hd => h d (by simp [hd]))

theorem quotedText_of_plain {w : List UInt8}
    (h : ∀ c ∈ w, isQdtextChar c = true ∧ c ≠ 34 ∧ c ≠ 92) : QuotedText w := by
  induction w with
  | nil => exact .nil
  | cons c w ih =>
    rcases h c List.mem_cons_self with ⟨hc,hq,hs⟩
    exact .text c w hc hq hs (ih fun d hd => h d (List.mem_cons_of_mem _ hd))

theorem isTargetChar_iff (c : UInt8) :
    isTargetChar c = true ↔ isPlainChar c = true ∧ isBlank c = false := by
  simp only [isTargetChar,Bool.and_eq_true,Bool.not_eq_true']

theorem space_blank : ∀ c ∈ [(32 : UInt8)], isBlank c = true := List.forall_mem_singleton.mpr rfl

theorem version_text : LineText (cstr "1.1") := lineText_of_plain (by decide)

theorem version_head : ∀ c ∈ (cstr "1.1").head?, isBlank c = false := by decide

theorem host_ne : cstr "HOST" ≠ [] := by decide

theorem host_chars : ∀ c ∈ cstr "HOST", isIdentifierChar c = true := by decide

theorem man_ne : cstr "MAN" ≠ [] := by decide

theorem man_chars : ∀ c ∈ cstr "MAN", isIdentifierChar c = true := by decide

def wordField (name value : List UInt8) (hne : name ≠ [])
    (hname : ∀ c ∈ name, isIdentifierChar c = true) (hvalue : ∀ c ∈ value, isTargetChar c = true) :
    WrittenField where
  name := name
  blanks := [32]
  value := value
  name_ne := hne
  name_chars := hname
  blanks_chars := space_blank
  text := lineText_of_plain fun c hc => ((isTargetChar_iff c).mp (hvalue c hc)).1
  head := fun c hc => ((isTargetChar_iff c).mp (hvalue c (List.mem_of_mem_head? hc))).2

theorem printNumeral_target (n : ℕ) : ∀ c ∈ printNumeral 10 n, isTargetChar c = true := by
  intro c hc
  have hd := (printNumeral_numeral (by decide : 1 < 10) (by decide) n).digits c hc
  revert hd
  exact byte_forall (P := fun c => isBaseDigit 10 c = true → isTargetChar c = true)
    (by decide +kernel) c

theorem printNumeral_noNul (n : ℕ) : 0 ∉ printNumeral 10 n := by
  intro h
  have hd := (printNumeral_numeral (by decide : 1 < 10) (by decide) n).digits 0 h
  exact absurd hd (by decide)

theorem trimRight_target {w : List UInt8} (h : ∀ c ∈ w, isTargetChar c = true) :
    trimRight w = w := by
  have hends : ∀ c, isTargetChar c = true → (c == 32 || c == 9 || c == cr || c == lf) = false :=
    byte_forall (P := fun c => isTargetChar c = true →
      (c == 32 || c == 9 || c == cr || c == lf) = false) (by decide +kernel)
  unfold trimRight
  cases hr : w.reverse with
  | nil => simpa using hr
  | cons c v =>
    have hc : c ∈ w := List.mem_reverse.mp (by simp [hr])
    rw [List.dropWhile_cons_of_neg (by simp [hends c (h c hc)]),← hr,List.reverse_reverse]

theorem startValue_word {w : List UInt8} (hne : w ≠ []) (h : ∀ c ∈ w, isTargetChar c = true) :
    startValue (trimRight w) = w := by
  rw [trimRight_target h,startValue,if_neg]
  simpa using hne

theorem findHdrIdx_none {headers : List HttpHeader} {id : HdrId}
    (h : id ∉ headers.map HttpHeader.nameId) : findHdrIdx headers id = none := by
  apply List.findIdx?_eq_none_iff.mpr
  intro x hx
  rw [beq_eq_false_iff_ne]
  rintro rfl
  exact h (List.mem_map_of_mem hx)

/-- Fields of known names, none of them twice, are added as they come. -/
theorem readFields_new (fs : List (WrittenField × HdrId))
    (hid : ∀ x ∈ fs, lookupName x.1.name httpHeaderNames false = some x.2) {p : HttpParser}
    (hnew : (p.msg.headers.map HttpHeader.nameId++fs.map Prod.snd).Nodup) :
    ((fs.map Prod.fst).foldl readField p).msg.headers = p.msg.headers++
        fs.map (fun x => ⟨x.1.name,x.2,startValue (trimRight x.1.value)⟩) ∧
      ((fs.map Prod.fst).foldl readField p).msg.method =
        if HdrId.soapaction ∈ fs.map Prod.snd then .soapPost else p.msg.method := by
  induction fs generalizing p with
  | nil => exact ⟨by simp,by simp⟩
  | cons x fs ih =>
    have hx := hid x (by simp)
    have hnone : findHdrIdx p.msg.headers x.2 = none := by
      apply findHdrIdx_none
      intro hmem
      rw [List.map_cons] at hnew
      exact (List.nodup_append.mp hnew).2.2 _ hmem _ (by simp) rfl
    have hheaders : (readField p x.1).msg.headers =
        p.msg.headers++[⟨x.1.name,x.2,startValue (trimRight x.1.value)⟩] := by
      simp only [readField,addHeaderLine,HttpParser.advance,addHeader,hx,storeHeader,hnone,startValue]
    have hmethod : (readField p x.1).msg.method =
        if x.2 = .soapaction then .soapPost else p.msg.method := by
      simp only [readField,addHeaderLine,HttpParser.advance,hx,Option.some.injEq]
    have hrec := ih (fun y hy => hid y (by simp [hy])) (p := readField p x.1) (by
      rw [hheaders]
      simpa using hnew)
    simp only [List.map_cons,List.foldl_cons]
    refine ⟨?_,?_⟩
    · rw [hrec.1,hheaders,List.append_assoc]
      rfl
    · rw [hrec.2,hmethod]
      by_cases hs : x.2 = .soapaction
      · simp [hs]
      · have hs' : HdrId.soapaction ≠ x.2 := Ne.symm hs
        simp only [if_neg hs,List.mem_cons,hs',false_or]

def writtenMessage (q : WrittenRequest) (fs : List WrittenField) (body : List UInt8) : List UInt8 :=
  q.line++(fs.flatMap WrittenField.line++([cr,lf]++body))

/-- What a request holds before its body is read. -/
def writtenView (q : WrittenRequest) (target : UriType) (major minor : ℤ) (method : HttpMethod)
    (headers : List HttpHeader) : MessageView :=
  { parserRequestInit.messageView with
    majorVersion := major
    minorVersion := minor
    method := method
    urlbuf := q.target
    uri := target
    headers := headers }

/-- A parser of a request at the first byte of the body. -/
structure AtBody (p : HttpParser) (view : MessageView) (body : List UInt8) : Prop where
  rest : p.rest = body
  entPosition : p.entPosition = .determineReadMethod
  discarded : p.msg.amountDiscarded = 0
  isRequest : p.msg.isRequest = true
  view : p.messageView = view

/-- The parser goes through the lines to the body, or fails at the URL. -/
theorem parserAppend_written (res : Resolver) (q : WrittenRequest) (fs : List WrittenField)
    (body : List UInt8) {id method : HttpMethod} {major minor : ℤ} {headers : List HttpHeader}
    (hid : lookupName q.method httpMethodTable true = some id)
    (hver : sscanf versionScan (untilNul q.version) = [major,minor]) (hmajor : 0 ≤ major)
    (hsearch : ¬(major = 1 ∧ minor < 1 ∧ id = .msearch))
    (hfields : ∀ p : HttpParser, p.msg.headers = [] → p.msg.method = id →
      (fs.foldl readField p).msg.headers = headers ∧ (fs.foldl readField p).msg.method = method)
    (hmethod : method ≠ .post) :
    (∀ target, parseUri res q.target q.target.length = .ok target →
      ∃ p, parserAppend res parserRequestInit (writtenMessage q fs body) = parserParseEntity p ∧
        AtBody p (writtenView q target major minor method headers) body) ∧
    ∀ e, parseUri res q.target q.target.length = .error e →
      (parserAppend res parserRequestInit (writtenMessage q fs body)).1 = .failure := by
  have hline := parserParseRequestline_written res (p := parserRequestInit.append
    (writtenMessage q fs body)) (q := q) rfl id major minor hid hver hmajor hsearch
  constructor
  · intro target htarget
    have hfirst := hline.1 target htarget
    generalize hp1 : afterRequest (parserRequestInit.append (writtenMessage q fs body)) q target id
      major minor = p1 at hfirst
    have hpos : p1.position = .headers := by
      rw [← hp1]
      rfl
    have hrest : p1.rest = fs.flatMap WrittenField.line++([cr,lf]++body) := by
      rw [← hp1]
      change (writtenMessage q fs body).drop (0+q.line.length) = _
      rw [Nat.zero_add,writtenMessage,List.drop_left]
    rcases hfields p1 (by rw [← hp1]; rfl) (by rw [← hp1]; rfl) with ⟨hheaders,hmeth⟩
    have hsecond := parserParseHeaders_written fs (.inl rfl) hrest
    have hpost : ¬(((fs.foldl readField p1).advance [cr,lf].length).msg.isRequest = true ∧
        ((fs.foldl readField p1).advance [cr,lf].length).msg.method = .post) := by
      rintro ⟨-,hm⟩
      exact hmethod (hmeth.symm.trans hm)
    rw [endHeaders,if_neg hpost] at hsecond
    have hone : parserAppend res parserRequestInit (writtenMessage q fs body) =
        parserParse res p1 := by
      have hstep : parserStep res (parserRequestInit.append (writtenMessage q fs body)) =
          (.ok,p1) := hfirst
      rw [parserAppend,parserParse_again (by rw [hstep]),hstep]
    have htwo : parserStep res p1 = parserParseHeaders p1 := by
      simp only [parserStep,hpos]
    refine ⟨{ (fs.foldl readField p1).advance [cr,lf].length with position := .entity },?_,?_⟩
    · rw [hone,parserParse_again (by rw [htwo,hsecond]),htwo,hsecond]
      exact parserParse_entity res rfl
    · rw [readFields_keeps,hheaders,hmeth]
      refine ⟨?_,?_,?_,?_,?_⟩
      · change p1.msg.msg.drop (p1.cursor+(fs.flatMap WrittenField.line).length+2) = body
        have hdrop : p1.msg.msg.drop p1.cursor = fs.flatMap WrittenField.line++([cr,lf]++body) :=
          hrest
        rw [← List.drop_drop,← List.drop_drop,hdrop,List.drop_left]
        rfl
      all_goals rw [← hp1]; rfl
  · intro e he
    rw [parserAppend_request res _ (hline.2 e he) (by rintro ⟨⟩)]
    exact hline.2 e he

theorem writtenMessage_splits (q : WrittenRequest) (fs : List WrittenField) (body : List UInt8) :
    ¬RequestSplits (writtenMessage q fs body) := requestSplits_written _ _

theorem AtBody.withoutBody {p : HttpParser} {view : MessageView} {body : List UInt8}
    (h : AtBody p view body) (hno : [HttpMethod.head,.get,.subscribe,.unsubscribe,.msearch].contains
      view.method = true) :
    observeMessage (parserParseEntity p) =
      (.success,some { view with entityLength := 0, entityBytes := [] }) := by
  have hview := h.view
  have hread : readMethod { p.msg with entity := ⟨p.cursor,0⟩ } = .noBody := by
    have hmethod : p.msg.method = view.method := congrArg MessageView.method hview
    simp only [readMethod,noBody,h.isRequest,if_true,hmethod,hno]
  have hstep : entityStep p = (.success,
      { p with
        msg := { p.msg with entity := ⟨p.cursor,0⟩ }
        entityStartPosition := p.cursor
        position := .complete }) := by
    simp only [entityStep,h.entPosition,parserGetEntityReadMethod,HttpParser.setEntity,hread]
  rw [parserParseEntity_done (by rw [hstep]; rintro ⟨⟩),hstep,← hview]
  simp only [observeMessage,true_or,if_true,HttpParser.messageView,HttpParser.view,List.take_zero]

/-- A body with a length is read when it is there. -/
theorem AtBody.clen {p : HttpParser} {view : MessageView} {body v : List UInt8}
    (h : AtBody p view body) (hyes : [HttpMethod.head,.get,.subscribe,.unsubscribe,.msearch].contains
      view.method = false)
    (hte : ∀ x ∈ view.headers, x.nameId ≠ .transferEncoding)
    (hcl : findHdr view.headers .contentLength = some v) :
    observeMessage (parserParseEntity p) =
      if body.length < toUInt (rawToInt 10 v) then (.incomplete,none)
      else (.success,some { view with
        entityLength := toUInt (rawToInt 10 v)
        entityBytes := body.take (toUInt (rawToInt 10 v)) }) := by
  have hview := h.view
  have hheaders : p.msg.headers = view.headers := congrArg (fun w => w.headers) hview
  have hread : readMethod { p.msg with entity := ⟨p.cursor,0⟩ } =
      .clen (toUInt (rawToInt 10 v)) := by
    have hmethod : p.msg.method = view.method := congrArg MessageView.method hview
    have hno : findHdr view.headers .transferEncoding = none := by
      rw [findHdr,List.find?_eq_none.mpr fun x hx => by simpa using hte x hx]
      rfl
    simp only [readMethod,noBody,h.isRequest,if_true,hmethod,hyes,Bool.false_eq_true,if_false,hno,
      hheaders,hcl,Option.bind_none,Option.isSome_none]
  have hlower : lowerHdr p.msg.headers .transferEncoding = p.msg.headers := by
    have hidx : findHdrIdx p.msg.headers .transferEncoding = none := by
      rw [hheaders]
      exact List.findIdx?_eq_none_iff.mpr fun x hx => by simpa using hte x hx
    rw [lowerHdr,hidx]
  generalize toUInt (rawToInt 10 v) = n at hread ⊢
  have hstep : entityStep p = (.continue1,
      { p with
        msg := { p.msg with entity := ⟨p.cursor,0⟩ }
        entityStartPosition := p.cursor
        contentLength := n
        entPosition := .usingClen }) := by
    simp only [entityStep,h.entPosition,parserGetEntityReadMethod,HttpParser.setEntity,hread,hlower]
  have hbuf : p.msg.msg.drop p.cursor = body := h.rest
  have hdisc := h.discarded
  have hlen : p.msg.msg.length-p.cursor = body.length := by rw [← hbuf,List.length_drop]
  rw [parserParseEntity_again (by rw [hstep]),hstep,parserParseEntity_done]
  · simp only [entityStep]
    by_cases hshort : body.length < n
    · rw [if_pos hshort]
      simp only [parserParseEntityUsingClen,hdisc,hlen,Nat.add_zero,if_pos hshort,observeMessage]
      rfl
    · have hlong : ¬p.msg.msg.length-p.cursor < n := by rwa [hlen]
      rw [if_neg hshort,usingClen_observe (by exact hdisc) (by exact hlong),← hview]
      simp only [HttpParser.messageView,HttpParser.view,hbuf]
  · simp only [entityStep,parserParseEntityUsingClen]
    split <;> rintro ⟨⟩

end Http
end CtrlPt
