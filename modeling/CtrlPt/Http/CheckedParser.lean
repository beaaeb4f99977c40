import CtrlPt.Http.CheckedScanner
import CtrlPt.Http.Requests

/-! The parser of `httpparser.c` over the checked scanner. Each function makes the reads
and asserts what the source does; what it then decides from the strings it has matched is
what the model decides, and so is its answer in every state the parser can be in. -/
namespace CtrlPt
namespace Http
namespace Checked

open CText Uri Rounds

def scannerOf (p : HttpParser) : Scanner := ⟨p.msg.msg,p.cursor,false⟩

/-- The parser after its scanner has come to `s`. -/
def withScanner (p : HttpParser) (s : Scanner) : HttpParser := { p with cursor := s.cursor }

def seek (p : HttpParser) (i : ℕ) : Except Fault HttpParser :=
  if i ≤ p.msg.msg.length then .ok { p with cursor := i } else .error .cursor

/-- `membuffer_delete` of what lies between `pos` and the cursor, which goes back to `pos`. -/
def deleteTo (p : HttpParser) (pos : ℕ) : Except Fault HttpParser :=
  if pos ≤ p.cursor ∧ p.cursor ≤ p.msg.msg.length then .ok (p.deleteTo pos) else .error .index

/-- `match`, with how far the cursor has moved. -/
def matchFmt (fuel : ℕ) (fmt : List Directive) (p : HttpParser) :
    Except Fault (Match × HttpParser) := do
  let m ← vfmatch fuel fmt (scannerOf p)
  .ok (⟨m.1,m.2.1,m.2.2.cursor-p.cursor⟩,withScanner p m.2.2)

def afterBlankLines (fuel : ℕ) (line : HttpParser → Except Fault (ParseStatus × HttpParser))
    (p : HttpParser) : Except Fault (ParseStatus × HttpParser) := do
  match ← skipBlankLines fuel (scannerOf p) with
  | .stop st s => .ok (st.status,withScanner p s)
  | .ok _ s => line (withScanner p s)

def simpleRequest (res : Resolver) (p : HttpParser) (m : Match) : ParseStatus × HttpParser :=
  let url := (m.textAt 1).2
  match lookupName (m.textAt 0).2 httpMethodTable true with
  | none => (.failure,{ p with httpErrorCode := httpNotImplemented })
  | some id =>
    if id ≠ .get then (.failure,{ p with httpErrorCode := httpBadRequest })
    else
      let p := { p with msg := { p.msg with method := .simpleGet, urlbuf := url } }
      match parseUri res url url.length with
      | .error _ => (.failure,p)
      | .ok uri =>
        (.success,{ p with msg := { p.msg with uri := uri }, position := .complete })

def fullRequest (res : Resolver) (p : HttpParser) (m : Match) : ParseStatus × HttpParser :=
  let url := (m.textAt 1).2
  let p := { p with msg := { p.msg with urlbuf := url } }
  match parseUri res url url.length with
  | .error _ => (.failure,p)
  | .ok uri =>
    let p := { p with msg := { p.msg with uri := uri } }
    match lookupName (m.textAt 0).2 httpMethodTable true with
    | none => (.failure,{ p with httpErrorCode := httpNotImplemented })
    | some id =>
      let scanned := sscanf versionScan (untilNul (m.textAt 2).2)
      let major := scanned.getD 0 p.msg.majorVersion
      let minor := scanned.getD 1 p.msg.minorVersion
      let p := { p with msg := { p.msg with majorVersion := major, minorVersion := minor } }
      if scanned.length ≠ 2 ∨ major < 0 ∨ (major = 1 ∧ minor < 1 ∧ id = .msearch) then
        (.failure,{ p with httpErrorCode := httpVersionNotSupported })
      else (.ok,{ p with msg := { p.msg with method := id }, position := .headers })

def requestLine (res : Resolver) (fuel : ℕ) (p : HttpParser) :
    Except Fault (ParseStatus × HttpParser) := do
  let simple ← matchFmt fuel simpleGetFmt p
  if simple.1.status = .ok then .ok (simpleRequest res simple.2 simple.1)
  else do
    let m ← matchFmt fuel requestLineFmt simple.2
    if m.1.status ≠ .ok then .ok (m.1.status,m.2)
    else do
      -- version_str is NUL-terminated in the buffer, and restored
      let _ ← byteAt p.msg.msg (simple.2.cursor+(m.1.textAt 2).1+(m.1.textAt 2).2.length)
      .ok (fullRequest res m.2 m.1)

def parserParseRequestline (res : Resolver) (fuel : ℕ) (p : HttpParser) :
    Except Fault (ParseStatus × HttpParser) := do
  require (p.position == .requestLine)
  afterBlankLines fuel (requestLine res fuel) p

/-- One round of `while( p( *cursor ) ) cursor++;`, which only a byte stops. -/
def whileRound (buf : List UInt8) (p : UInt8 → Bool) (i : ℕ) : Except Fault (ℕ ⊕ ℕ) := do
  let c ← byteAt buf i
  if p c then .ok (.inl (i+1)) else .ok (.inr i)

def skipInt (fuel : ℕ) (buf : List UInt8) (i : ℕ) : Except Fault ℕ := do
  let j ← rounds .running (whileRound buf fun c => !isDigit c) fuel i
  rounds .running (whileRound buf isDigit) fuel j

/-- The line stands in the buffer from `start` on. -/
def statusLine (fuel : ℕ) (p : HttpParser) (start : ℕ) (line : List UInt8) :
    Except Fault (ParseStatus × HttpParser) := do
  -- the line is NUL-terminated in the buffer for sscanf, and restored
  let _ ← byteAt p.msg.msg (start+line.length)
  let scanned := sscanf statusScan (untilNul line)
  let major := scanned.getD 0 p.msg.majorVersion
  let minor := scanned.getD 1 p.msg.minorVersion
  let code := scanned.getD 2 p.msg.statusCode
  let p := { p with
    msg := { p.msg with majorVersion := major, minorVersion := minor, statusCode := code } }
  if scanned.length ≠ 3 ∨ major < 0 ∨ minor < 0 ∨ code < 0 then .ok (.failure,p)
  else do
    let i ← skipInt fuel p.msg.msg start
    let i ← skipInt fuel p.msg.msg i
    let i ← skipInt fuel p.msg.msg i
    let c ← byteAt p.msg.msg i
    if isBlank c then do
      let j ← rounds .running (whileRound p.msg.msg isBlank) fuel i
      -- the length of what is left of the line must not wrap around
      if j ≤ start+line.length then do
        let msg ← slice p.msg.msg j (line.length-(j-start))
        .ok (.ok,{ p with msg := { p.msg with statusMsg := msg }, position := .headers })
      else .error .index
    else .ok (.failure,p)

def responseLine (fuel : ℕ) (p : HttpParser) : Except Fault (ParseStatus × HttpParser) := do
  let m ← matchFmt fuel responseLineFmt p
  if m.1.status ≠ .ok then .ok (m.1.status,m.2)
  else statusLine fuel m.2 (p.cursor+(m.1.textAt 0).1) (m.1.textAt 0).2

def parserParseResponseline (fuel : ℕ) (p : HttpParser) :
    Except Fault (ParseStatus × HttpParser) := do
  require (p.position == .responseLine)
  afterBlankLines fuel (responseLine fuel) p

def headerRound (fuel : ℕ) (p : HttpParser) :
    Except Fault (HttpParser ⊕ (ParseStatus × HttpParser)) := do
  match ← scannerGetToken fuel (scannerOf p) with
  | .stop st s => do
    let q ← seek (withScanner p s) p.cursor
    .ok (.inr (st.status,q))
  | .ok token s =>
    match token.type with
    | .crlf => .ok (.inr (endHeaders (withScanner p s)))
    | .identifier => do
      let m ← matchFmt fuel headerFmt (withScanner p s)
      if m.1.status ≠ .ok then do
        let q ← seek m.2 p.cursor
        .ok (.inr (m.1.status,q))
      else do
        -- the name is NUL-terminated in the buffer while it is looked up
        let _ ← byteAt p.msg.msg (p.cursor+token.text.length)
        .ok (.inl (addHeaderLine m.2 token.text (m.1.textAt 0).2))
    | _ => .ok (.inr (.failure,withScanner p s))

def parserParseHeaders (fuel : ℕ) (p : HttpParser) : Except Fault (ParseStatus × HttpParser) := do
  require (p.position == .headers || p.entPosition == .chunkyHeaders)
  rounds .running (headerRound fuel) fuel p

def parserParseEntityUsingClen (p : HttpParser) : Except Fault (ParseStatus × HttpParser) := do
  require (p.entPosition == .usingClen)
  let len := p.msg.msg.length-p.entityStartPosition+p.msg.amountDiscarded
  if len < p.contentLength then .ok (.incomplete,p.setEntity { p.msg.entity with length := len })
  else do
    let cut := p.entityStartPosition+p.contentLength-p.msg.amountDiscarded
    let msg ← if p.contentLength < len then do
        let _ ← byteAt p.msg.msg cut
        .ok (p.msg.msg.set cut 0)
      else .ok p.msg.msg
    .ok (.success,
      { p with
        msg := { p.msg with msg := msg, entity := ⟨p.entityStartPosition,p.contentLength⟩ }
        position := .complete })

def parserParseChunkyBody (fuel : ℕ) (p : HttpParser) : Except Fault (ParseStatus × HttpParser) :=
  if p.chunkSize ≤ p.msg.msg.length-p.cursor then do
    let q ← seek p (p.cursor+p.chunkSize)
    let m ← matchFmt fuel crlfFmt q
    if m.1.status ≠ .ok then do
      let r ← seek m.2 (m.2.cursor-p.chunkSize)
      .ok (m.1.status,r)
    else do
      let r ← deleteTo m.2 q.cursor
      .ok (.continue1,endChunk r)
  else .ok (.incomplete,p)

def parserParseChunkyHeaders (fuel : ℕ) (p : HttpParser) :
    Except Fault (ParseStatus × HttpParser) := do
  match ← parserParseHeaders fuel p with
  | (.ok,q) => do
    let r ← deleteTo q p.cursor
    .ok (.success,endTrailers r)
  | (st,q) => .ok (st,q)

def parserParseChunkyEntity (fuel : ℕ) (p : HttpParser) :
    Except Fault (ParseStatus × HttpParser) := do
  require (p.entPosition == .usingChunked)
  let m ← matchFmt fuel chunkFmt p
  let q := storeChunkSize m.2 m.1
  if m.1.status ≠ .ok then do
    let r ← seek q p.cursor
    .ok (m.1.status,r)
  else do
    let r ← deleteTo q p.cursor
    .ok (.continue1,beginChunk r)

def parserParseEntityUntilClose (p : HttpParser) : Except Fault (ParseStatus × HttpParser) := do
  require (p.entPosition == .untilClose)
  let len := p.msg.msg.length-p.entityStartPosition+p.msg.amountDiscarded
  let q ← seek (p.setEntity ⟨p.entityStartPosition,len⟩) p.msg.msg.length
  .ok (.incompleteEntity,q)

def parserGetEntityReadMethod (p : HttpParser) : Except Fault (ParseStatus × HttpParser) := do
  require (p.entPosition == .determineReadMethod)
  -- the pointer to the body is taken at the cursor
  let _ ← byteAt p.msg.msg p.cursor
  .ok (Http.parserGetEntityReadMethod p)

def entityStep (fuel : ℕ) (p : HttpParser) : Except Fault (ParseStatus × HttpParser) :=
  match p.entPosition with
  | .usingClen => parserParseEntityUsingClen p
  | .usingChunked => parserParseChunkyEntity fuel p
  | .chunkyBody => parserParseChunkyBody fuel p
  | .chunkyHeaders => parserParseChunkyHeaders fuel p
  | .untilClose => parserParseEntityUntilClose p
  | .determineReadMethod => parserGetEntityReadMethod p

/-- The body of a `do … while` whose step can fail. -/
def doWhile {ι : Type} (again : ι → Bool) (f : HttpParser → Except Fault (ι × HttpParser))
    (p : HttpParser) : Except Fault (HttpParser ⊕ (ι × HttpParser)) := do
  let r ← f p
  if again r.1 then .ok (.inl r.2) else .ok (.inr r)

def parserParseEntity (fuel : ℕ) (p : HttpParser) : Except Fault (ParseStatus × HttpParser) := do
  require (p.position == .entity)
  rounds .running (doWhile (· == .continue1) (entityStep fuel)) fuel p

def parserStep (res : Resolver) (fuel : ℕ) (p : HttpParser) :
    Except Fault (ParseStatus × HttpParser) :=
  match p.position with
  | .entity => parserParseEntity fuel p
  | .headers => parserParseHeaders fuel p
  | .requestLine => parserParseRequestline res fuel p
  | .responseLine => parserParseResponseline fuel p
  | .complete => .error .assertion

def parserParse (res : Resolver) (fuel : ℕ) (p : HttpParser) :
    Except Fault (ParseStatus × HttpParser) :=
  rounds .running (doWhile (· == .ok) (parserStep res fuel)) fuel p

def parserAppend (res : Resolver) (fuel : ℕ) (p : HttpParser) (x : List UInt8) :
    Except Fault (ParseStatus × HttpParser) :=
  parserParse res fuel (p.append x)

variable {fuel : ℕ} {p : HttpParser}

theorem seek_of_le {i : ℕ} (h : i ≤ p.msg.msg.length) : seek p i = .ok { p with cursor := i } :=
  if_pos h

theorem seek_self (h : p.cursor ≤ p.msg.msg.length) (n : ℕ) :
    seek (p.advance n) p.cursor = .ok p := seek_of_le (p := p.advance n) h

theorem deleteTo_of_le {pos : ℕ} (h : pos ≤ p.cursor) (hc : p.cursor ≤ p.msg.msg.length) :
    deleteTo p pos = .ok (p.deleteTo pos) := if_pos ⟨h,hc⟩

@[simp] theorem withScanner_advance (n : ℕ) :
    withScanner p ((scannerOf p).advance n) = p.advance n := rfl

theorem matchFmt_eq (fmt : List Directive) (hc : p.cursor ≤ p.msg.msg.length)
    (hf : p.msg.msg.length < fuel) :
    matchFmt fuel fmt p =
      .ok (scannerMatch fmt p.rest,p.advance (scannerMatch fmt p.rest).used) := by
  have hv := vfmatch_eq (s := scannerOf p) fmt hc hf
  have hr : Http.vfmatch (scannerOf p).entireMsgLoaded fmt (scannerOf p).rest =
      scannerMatch fmt p.rest := rfl
  rw [hr] at hv
  rw [matchFmt,hv,ok_bind,withScanner_advance]
  have hu : ((scannerOf p).advance (scannerMatch fmt p.rest).used).cursor-p.cursor =
      (scannerMatch fmt p.rest).used := Nat.add_sub_cancel_left _ _
  simp only [hu]

theorem advance_failed {fmt : List Directive} (h : (scannerMatch fmt p.rest).status ≠ .ok) :
    p.advance (scannerMatch fmt p.rest).used = p := by
  have hu : (scannerMatch fmt p.rest).used = 0 := (vfmatchFrom_used false fmt true 0 p.rest).2 h
  rw [hu]
  rfl

/-- A string that a directive stores lies in its input. -/
theorem directive_text {loaded cs : Bool} {n : ℕ} {r : List UInt8} {d : Directive} {pos : ℕ}
    {v : List UInt8} (h : MatchVal.text pos v ∈ (Http.directive loaded cs n r d).1) :
    pos = n ∧ v.length ≤ r.length := by
  have htoken : ∀ {type : TokenType} (f : Token → ℕ → List MatchVal),
      (∀ t k, MatchVal.text pos v ∈ f t k → pos = n ∧ v = t.text) →
      MatchVal.text pos v ∈ ((Http.expectToken loaded type r).store f).1 →
      pos = n ∧ v.length ≤ r.length := by
    intro type f hf h
    cases he : Http.expectToken loaded type r with
    | stop st k => simp [he,Scan.store] at h
    | ok t k =>
      simp only [he,Scan.store] at h
      rcases hf t k h with ⟨hp,rfl⟩
      have ht := scannerGetToken_ok (expectToken_ok he).1
      rw [ht.2.2,List.length_take]
      exact ⟨hp,Nat.min_le_right _ _⟩
  have hunit : ∀ a : Scan Unit,
      MatchVal.text pos v ∈ (a.store fun _ k => [MatchVal.text n (r.take k)]).1 →
      pos = n ∧ v.length ≤ r.length := by
    intro a h
    cases a with
    | stop st k => simp [Scan.store] at h
    | ok u k =>
      simp only [Scan.store,List.mem_singleton,MatchVal.text.injEq] at h
      rw [h.2,List.length_take]
      exact ⟨h.1,Nat.min_le_right _ _⟩
  cases d with
  | raw =>
    simp only [Http.directive,Http.matchRawValue] at h
    cases hl : rawValueLength loaded r with
    | stop st k => simp [hl,Scan.store] at h
    | ok len k =>
      simp only [hl,Scan.store,List.mem_singleton,MatchVal.text.injEq] at h
      rw [h.2,← (take_trimRight r len).2,List.length_take]
      exact ⟨h.1,Nat.min_le_right _ _⟩
  | ident => exact htoken _ (fun t k h => by simpa using h) h
  | quoted => exact htoken _ (fun t k h => by simpa using h) h
  | crlf => exact htoken _ (fun t k h => by simp at h) h
  | ws => exact htoken _ (fun t k h => by simp at h) h
  | num base =>
    simp only [Http.directive] at h
    cases ho : (Http.matchInt loaded base r).1 <;> simp [ho] at h
  | nonWs => exact hunit _ h
  | line => exact hunit _ h
  | optWs =>
    simp only [Http.directive] at h
    split at h <;> simp at h
  | char c => simp [Http.directive] at h
  | caseSensitive on => simp [Http.directive] at h
  | endMsg => simp [Http.directive] at h
  | lws => simp [Http.directive] at h

theorem vfmatchFrom_text {loaded : Bool} {fmt : List Directive} {cs : Bool} {n : ℕ}
    {r : List UInt8} {pos : ℕ} {v : List UInt8}
    (h : MatchVal.text pos v ∈ (Http.vfmatchFrom loaded fmt cs n r).vals) :
    pos+v.length ≤ n+r.length := by
  induction fmt generalizing cs n r with
  | nil => simp [Http.vfmatchFrom] at h
  | cons d ds ih =>
    have hb := directive_bounded loaded cs n r d
    have hd : MatchVal.text pos v ∈ (Http.directive loaded cs n r d).1 →
        pos+v.length ≤ n+r.length := by
      intro hm
      have ht := directive_text hm
      omega
    simp only [Http.vfmatchFrom] at h
    cases hr : Http.directive loaded cs n r d with
    | mk vs a =>
      rw [hr] at hb hd
      cases a with
      | stop st k =>
        simp only [hr] at h
        exact hd h
      | ok u k =>
        simp only [hr,List.mem_append] at h
        rcases h with h | h
        · exact hd h
        · have hi := ih h
          simp only [Scan.used] at hb
          rw [List.length_drop] at hi
          omega

theorem textAt_le (fmt : List Directive) (r : List UInt8) (i : ℕ) :
    ((scannerMatch fmt r).textAt i).1+((scannerMatch fmt r).textAt i).2.length ≤ r.length := by
  unfold Match.textAt
  split
  · rename_i n v hv
    have hm := vfmatchFrom_text (List.mem_of_getElem? hv)
    rwa [Nat.zero_add] at hm
  · exact Nat.zero_le _

/-! The start line. -/

theorem afterBlankLines_eq {line : HttpParser → Except Fault (ParseStatus × HttpParser)}
    {mline : HttpParser → ParseStatus × HttpParser} (hc : p.cursor ≤ p.msg.msg.length)
    (hf : p.msg.msg.length < fuel)
    (hline : ∀ q : HttpParser, q.cursor ≤ q.msg.msg.length → q.msg.msg.length < fuel →
      line q = .ok (mline q)) :
    afterBlankLines fuel line p = .ok (Http.afterBlankLines mline p) := by
  have hb := skipBlankLines_bounded false p.rest
  rw [afterBlankLines,skipBlankLines_eq (s := scannerOf p) hc hf,ok_bind]
  have hr : Http.skipBlankLines (scannerOf p).entireMsgLoaded (scannerOf p).rest =
      Http.skipBlankLines false p.rest := rfl
  rw [hr,Http.afterBlankLines]
  cases hs : Http.skipBlankLines false p.rest with
  | stop st n => rfl
  | ok u n =>
    rw [hs] at hb
    exact hline _ (HeaderFrame.advance hc hb).cursor_le hf

theorem requestLine_eq_model (res : Resolver) (p : HttpParser) :
    Http.requestLine res p =
      if (scannerMatch simpleGetFmt p.rest).status = .ok then
        simpleRequest res (p.advance (scannerMatch simpleGetFmt p.rest).used)
          (scannerMatch simpleGetFmt p.rest)
      else if (scannerMatch requestLineFmt p.rest).status ≠ .ok then
        ((scannerMatch requestLineFmt p.rest).status,p)
      else fullRequest res (p.advance (scannerMatch requestLineFmt p.rest).used)
        (scannerMatch requestLineFmt p.rest) := rfl

theorem requestLine_eq (res : Resolver) (hc : p.cursor ≤ p.msg.msg.length)
    (hf : p.msg.msg.length < fuel) :
    requestLine res fuel p = .ok (Http.requestLine res p) := by
  rw [requestLine_eq_model,requestLine,matchFmt_eq simpleGetFmt hc hf,ok_bind]
  split
  · rfl
  · rename_i hs
    simp only [advance_failed hs,matchFmt_eq requestLineFmt hc hf,ok_bind]
    split
    · rename_i hm
      rw [advance_failed hm]
    · have ht := textAt_le requestLineFmt p.rest 2
      rw [HttpParser.rest_length] at ht
      have hb : p.cursor+((scannerMatch requestLineFmt p.rest).textAt 2).1+
          ((scannerMatch requestLineFmt p.rest).textAt 2).2.length ≤ p.msg.msg.length := by omega
      rw [byteAt,if_pos hb,ok_bind]

/-! The numbers of a response line. -/

theorem while_rounds {buf : List UInt8} {f : UInt8 → Bool} {i : ℕ} (hi : i ≤ buf.length)
    (hf : buf.length < fuel) (h : (buf.drop i).dropWhile f ≠ []) :
    rounds .running (whileRound buf f) fuel i =
      .ok (buf.length-((buf.drop i).dropWhile f).length) := by
  refine rounds_eq (I := fun i => i ≤ buf.length ∧ (buf.drop i).dropWhile f ≠ [])
    (μ := fun i => buf.length-i) (f := fun i => buf.length-((buf.drop i).dropWhile f).length)
    ?_ ⟨hi,h⟩ (by omega)
  rintro i ⟨hi,h⟩
  have hlt : i < buf.length := by
    by_contra hge
    rw [List.drop_eq_nil_of_le (by omega)] at h
    exact h rfl
  have hd := List.drop_eq_getElem_cons hlt
  generalize buf[i] = c at hd
  have hlen := congrArg List.length hd
  rw [List.length_drop] at hlen
  simp only [whileRound,byteAt_of_drop hd,ok_bind]
  by_cases hp : f c = true
  · right
    refine ⟨i+1,by rw [if_pos hp],⟨hlt,?_⟩,by omega,?_⟩
    · rwa [hd,List.dropWhile_cons_of_pos hp] at h
    · rw [hd,List.dropWhile_cons_of_pos hp]
  · left
    rw [if_neg hp,hd,List.dropWhile_cons_of_neg hp,← hlen]
    rw [show buf.length-(buf.length-i) = i by omega]

theorem drop_suffix {buf r : List UInt8} (h : r <:+ buf) : buf.drop (buf.length-r.length) = r :=
  (List.suffix_iff_eq_drop.mp h).symm

theorem skipInt_eq {buf r : List UInt8} {i : ℕ} (hi : i ≤ buf.length) (hf : buf.length < fuel)
    (hr : buf.drop i = r) (h : Http.skipInt r ≠ []) :
    skipInt fuel buf i = .ok (buf.length-(Http.skipInt r).length) := by
  have hsuf : r.dropWhile (fun c => !isDigit c) <:+ buf :=
    (List.dropWhile_suffix _).trans (hr ▸ List.drop_suffix i buf)
  have hd := drop_suffix hsuf
  have hne : r.dropWhile (fun c => !isDigit c) ≠ [] := by
    intro he
    rw [Http.skipInt,he] at h
    exact h rfl
  rw [skipInt,while_rounds hi hf (by rw [hr]; exact hne),ok_bind,hr,
    while_rounds (Nat.sub_le _ _) hf (by rw [hd]; exact h),hd]
  rfl

theorem skipInt_suffix (r : List UInt8) : Http.skipInt r <:+ r :=
  (List.dropWhile_suffix _).trans (List.dropWhile_suffix _)

theorem ne_nil_of_skipInt {r : List UInt8} (h : Http.skipInt r ≠ []) : r ≠ [] := by
  rintro rfl
  exact h rfl

/-- The status message is found without a step outside the line: `sscanf` has read three
numbers there, and the line break behind it is neither a digit nor a blank. -/
theorem statusLine_eq {start : ℕ} {line u : List UInt8} {c : UInt8}
    (hs : start ≤ p.msg.msg.length) (hf : p.msg.msg.length < fuel)
    (hd : p.msg.msg.drop start = line++c::u) (hc : c = cr ∨ c = lf) :
    statusLine fuel p start line = .ok (Http.statusLine p line (p.msg.msg.drop start)) := by
  have hlen := congrArg List.length hd
  simp only [List.length_drop,List.length_append,List.length_cons] at hlen
  have hend : byteAt p.msg.msg (start+line.length) = .ok c := by
    have hdrop : p.msg.msg.drop (start+line.length) = c::u := by
      rw [← List.drop_drop,hd,List.drop_left]
    exact byteAt_of_drop hdrop
  rw [statusLine,hend,ok_bind,hd]
  simp only [Http.statusLine]
  split
  · rfl
  rename_i hcond
  have h3 : (sscanf statusScan (untilNul line)).length = 3 := by
    by_contra hne
    exact hcond (.inl hne)
  have hline : line = untilNul line++line.dropWhile (· != 0) :=
    List.takeWhile_append_dropWhile.symm
  have hw := endsRun_lineEnd line hc u
  have hwlen : u.length+1 ≤ (line.dropWhile (· != 0)++c::u).length := by
    rw [List.length_append,List.length_cons]
    omega
  have htext : line++c::u = untilNul line++(line.dropWhile (· != 0)++c::u) := by
    rw [← List.append_assoc,← hline]
  generalize line.dropWhile (· != 0)++c::u = w at hw hwlen htext
  rcases skipInts_of_sscanf h3 with ⟨r',hr'⟩
  have hcode : Http.skipInt (Http.skipInt (Http.skipInt (line++c::u))) = r'++w := by
    rw [htext,hr' w hw]
  rcases hw with ⟨e,v,rfl,he⟩
  -- the three numbers, each behind the one before
  have hne₃ : Http.skipInt (Http.skipInt (Http.skipInt (line++c::u))) ≠ [] := by
    rw [hcode]
    simp
  have hne₂ := ne_nil_of_skipInt hne₃
  have hne₁ := ne_nil_of_skipInt hne₂
  have hsuf₀ : line++c::u <:+ p.msg.msg := hd ▸ List.drop_suffix _ _
  have hsuf₁ := (skipInt_suffix _).trans hsuf₀
  have hsuf₂ := (skipInt_suffix _).trans hsuf₁
  have hsuf₃ := (skipInt_suffix _).trans hsuf₂
  have h₁ := skipInt_eq hs hf hd hne₁
  have h₂ := skipInt_eq (Nat.sub_le _ _) hf (drop_suffix hsuf₁) hne₂
  have h₃ := skipInt_eq (Nat.sub_le _ _) hf (drop_suffix hsuf₂) hne₃
  have hd₃ := drop_suffix hsuf₃
  have hw : EndsRun (e::v) := ⟨e,v,rfl,he⟩
  rw [hcode] at h₃ hd₃ hsuf₃
  simp only [h₁,h₂,h₃,ok_bind,hcode]
  have hbyte : byteAt p.msg.msg (p.msg.msg.length-(r'++e::v).length) =
      .ok ((r'++e::v).headD 0) := by
    cases r' with
    | nil => exact byteAt_of_drop hd₃
    | cons a r' => exact byteAt_of_drop hd₃
  rw [hbyte,ok_bind]
  split
  · -- the message, up to the end of the line
    have hblank := hw.dropWhile_blank r'
    have hsuf := (List.dropWhile_suffix isBlank).trans hsuf₃
    have hnb : (r'++e::v).dropWhile isBlank ≠ [] := by
      rw [hblank]
      simp
    rw [while_rounds (Nat.sub_le _ _) hf (by rw [hd₃]; exact hnb),hd₃,ok_bind]
    have hlast := drop_suffix hsuf
    have hmlen := hsuf.length_le
    have hge : u.length+1 ≤ ((r'++e::v).dropWhile isBlank).length := by
      rw [hblank,List.length_append]
      omega
    generalize (r'++e::v).dropWhile isBlank = msg at hlast hmlen hge
    have hn : line.length-(p.msg.msg.length-msg.length-start) =
        line.length-((line++c::u).length-msg.length) := by
      rw [List.length_append,List.length_cons]
      omega
    rw [if_pos (by omega),slice_of_le (by omega),ok_bind,hlast,hn]
  · rfl

theorem responseLine_eq (hc : p.cursor ≤ p.msg.msg.length) (hf : p.msg.msg.length < fuel) :
    responseLine fuel p = .ok (Http.responseLine p) := by
  rw [responseLine,matchFmt_eq responseLineFmt hc hf,ok_bind]
  simp only [Http.responseLine]
  split
  · rename_i hm
    rw [advance_failed hm]
  · rename_i hm
    rcases responseLineFmt_ok (not_not.mp hm) with ⟨start,line,c,u,htext,hstart,hdrop,hcr⟩
    rw [HttpParser.rest_length] at hstart
    have hrest : p.rest.drop start = p.msg.msg.drop (p.cursor+start) := List.drop_drop
    rw [htext]
    simp only [hrest] at hdrop ⊢
    exact statusLine_eq (p := p.advance (scannerMatch responseLineFmt p.rest).used)
      (show p.cursor+start ≤ p.msg.msg.length by omega) hf hdrop hcr

theorem parserParseRequestline_eq (res : Resolver) (hp : p.position = .requestLine)
    (hc : p.cursor ≤ p.msg.msg.length) (hf : p.msg.msg.length < fuel) :
    parserParseRequestline res fuel p = .ok (Http.parserParseRequestline res p) := by
  rw [parserParseRequestline,require_true (by rw [hp]; rfl),ok_bind]
  exact afterBlankLines_eq hc hf fun q hq hqf => requestLine_eq res hq hqf

theorem parserParseResponseline_eq (hp : p.position = .responseLine)
    (hc : p.cursor ≤ p.msg.msg.length) (hf : p.msg.msg.length < fuel) :
    parserParseResponseline fuel p = .ok (Http.parserParseResponseline p) := by
  rw [parserParseResponseline,require_true (by rw [hp]; rfl),ok_bind]
  exact afterBlankLines_eq hc hf fun q hq hqf => responseLine_eq hq hqf

/-! The headers. -/

theorem headerRound_eq (hc : p.cursor ≤ p.msg.msg.length) (hf : p.msg.msg.length < fuel) :
    headerRound fuel p = .ok (Http.headerRound p) := by
  rcases scannerGetToken_cases (s := scannerOf p) (n := 0) hc hf with
    ⟨t,n,ht,hg,-,hl,hle⟩ | ⟨st,n,ht,hg⟩
  · rw [Scanner.advance_zero,Nat.zero_add] at hg
    have ht' : Http.scannerGetToken false p.rest = .ok t n := ht
    have hle' : p.cursor+n ≤ p.msg.msg.length := by
      rw [Nat.zero_add] at hle
      exact hle
    simp only [headerRound,hg,ok_bind,withScanner_advance,Http.headerRound,ht']
    cases t.type with
    | crlf => rfl
    | identifier =>
      simp only [matchFmt_eq headerFmt (p := p.advance n) hle' hf,ok_bind]
      split
      · rename_i hm
        rw [advance_failed hm,seek_self hc,ok_bind]
      · rw [hl,byteAt,if_pos hle',ok_bind]
    | _ => rfl
  · rw [Scanner.advance_zero] at hg
    have ht' : Http.scannerGetToken false p.rest = .stop st n := ht
    simp only [headerRound,hg,ok_bind,Http.headerRound,ht']
    rw [show withScanner p (scannerOf p) = p.advance 0 from rfl,seek_self hc,ok_bind]

theorem parserParseHeaders_eq (hp : p.position = .headers ∨ p.entPosition = .chunkyHeaders)
    (hc : p.cursor ≤ p.msg.msg.length) (hf : p.msg.msg.length < fuel) :
    parserParseHeaders fuel p = .ok (Http.parserParseHeaders p) := by
  have ha : (p.position == .headers || p.entPosition == .chunkyHeaders) = true := by
    rcases hp with hp | hp <;> simp [hp]
  rw [parserParseHeaders,require_true ha,ok_bind]
  refine rounds_run (I := fun q => q.cursor ≤ q.msg.msg.length ∧ q.msg.msg.length < fuel)
    headerRound_descends (fun q hq => headerRound_eq hq.1 hq.2) ?_ ⟨hc,hf⟩ ?_
  · intro q r hq hr
    have hframe := (headerRound_frame hq.1).1 r hr
    exact ⟨hframe.cursor_le,by rw [hframe.buffer]; exact hq.2⟩
  · rw [HttpParser.rest_length]
    omega

/-! The entity. -/

theorem parserParseEntityUsingClen_eq (hp : p.entPosition = .usingClen)
    (hc : p.cursor ≤ p.msg.msg.length) (hs : p.entityStartPosition ≤ p.cursor) :
    parserParseEntityUsingClen p = .ok (Http.parserParseEntityUsingClen p) := by
  rw [parserParseEntityUsingClen,require_true (by rw [hp]; rfl),ok_bind]
  simp only [Http.parserParseEntityUsingClen]
  split
  · rfl
  · split
    · rename_i hlt
      rw [byteAt,if_pos (by omega)]
      rfl
    · rfl

theorem parserParseChunkyBody_eq (hc : p.cursor ≤ p.msg.msg.length)
    (hf : p.msg.msg.length < fuel) :
    parserParseChunkyBody fuel p = .ok (Http.parserParseChunkyBody p) := by
  simp only [parserParseChunkyBody,Http.parserParseChunkyBody]
  split
  · rename_i hsz
    have hcs : (p.advance p.chunkSize).cursor ≤ (p.advance p.chunkSize).msg.msg.length := by
      simp only [HttpParser.advance]
      omega
    have hseek : seek p (p.cursor+p.chunkSize) = .ok (p.advance p.chunkSize) := seek_of_le hcs
    have hu := scannerMatch_used_le crlfFmt (p.advance p.chunkSize).rest
    rw [HttpParser.rest_length] at hu
    simp only [hseek,ok_bind,matchFmt_eq crlfFmt hcs hf]
    split
    · rename_i hm
      have hback : seek (p.advance p.chunkSize) ((p.advance p.chunkSize).cursor-p.chunkSize) =
          .ok p := by
        rw [show (p.advance p.chunkSize).cursor-p.chunkSize = p.cursor from
          Nat.add_sub_cancel _ _]
        exact seek_self hc _
      rw [advance_failed hm,hback,ok_bind]
    · generalize (scannerMatch crlfFmt (p.advance p.chunkSize).rest).used = n at hu
      have hdel : deleteTo ((p.advance p.chunkSize).advance n) (p.advance p.chunkSize).cursor =
          .ok (((p.advance p.chunkSize).advance n).deleteTo (p.advance p.chunkSize).cursor) :=
        deleteTo_of_le (Nat.le_add_right _ _) (by simp only [HttpParser.advance] at hu hcs ⊢; omega)
      rw [hdel,ok_bind]
  · rfl

theorem parserParseChunkyHeaders_eq (hp : p.entPosition = .chunkyHeaders)
    (hc : p.cursor ≤ p.msg.msg.length) (hf : p.msg.msg.length < fuel) :
    parserParseChunkyHeaders fuel p = .ok (Http.parserParseChunkyHeaders p) := by
  have hframe := parserParseHeaders_frame hc
  rw [parserParseChunkyHeaders,parserParseHeaders_eq (.inr hp) hc hf,ok_bind,
    Http.parserParseChunkyHeaders]
  cases hq : Http.parserParseHeaders p with
  | mk st q =>
    rw [hq] at hframe
    cases st with
    | ok =>
      have hdel : deleteTo q p.cursor = .ok (q.deleteTo p.cursor) :=
        deleteTo_of_le hframe.cursor_ge hframe.cursor_le
      simp only [hdel,ok_bind]
    | _ => rfl

@[simp] theorem storeChunkSize_advance (n : ℕ) (m : Match) :
    storeChunkSize (p.advance n) m = (storeChunkSize p m).advance n := by
  unfold storeChunkSize
  split <;> rfl

theorem parserParseChunkyEntity_eq (hp : p.entPosition = .usingChunked)
    (hc : p.cursor ≤ p.msg.msg.length) (hf : p.msg.msg.length < fuel) :
    parserParseChunkyEntity fuel p = .ok (Http.parserParseChunkyEntity p) := by
  have hu := scannerMatch_used_le chunkFmt p.rest
  rw [HttpParser.rest_length] at hu
  rw [parserParseChunkyEntity,require_true (by rw [hp]; rfl),ok_bind,matchFmt_eq chunkFmt hc hf,
    ok_bind]
  simp only [Http.parserParseChunkyEntity,storeChunkSize_advance]
  have hcq : (storeChunkSize p (scannerMatch chunkFmt p.rest)).cursor ≤
      (storeChunkSize p (scannerMatch chunkFmt p.rest)).msg.msg.length := by
    rw [storeChunkSize_cursor,storeChunkSize_msg]
    exact hc
  have hcur := storeChunkSize_cursor p (scannerMatch chunkFmt p.rest)
  have hmsg := storeChunkSize_msg p (scannerMatch chunkFmt p.rest)
  split
  · have hseek := seek_self hcq (scannerMatch chunkFmt p.rest).used
    rw [hcur] at hseek
    rw [hseek,ok_bind]
  · generalize storeChunkSize p (scannerMatch chunkFmt p.rest) = q at hcq hcur hmsg
    generalize (scannerMatch chunkFmt p.rest).used = n at hu
    have hdel : deleteTo (q.advance n) q.cursor = .ok ((q.advance n).deleteTo q.cursor) :=
      deleteTo_of_le (Nat.le_add_right _ _) (by
        simp only [HttpParser.advance]
        rw [hcur,hmsg]
        omega)
    rw [← hcur,hdel,ok_bind]

theorem parserParseEntityUntilClose_eq (hp : p.entPosition = .untilClose) :
    parserParseEntityUntilClose p = .ok (Http.parserParseEntityUntilClose p) := by
  have hseek : ∀ e, seek (p.setEntity e) p.msg.msg.length =
      .ok { p.setEntity e with cursor := p.msg.msg.length } :=
    fun e => seek_of_le (p := p.setEntity e) (Nat.le_refl p.msg.msg.length)
  rw [parserParseEntityUntilClose,require_true (by rw [hp]; rfl),ok_bind]
  simp only [hseek,ok_bind]
  rfl

theorem parserGetEntityReadMethod_eq (hp : p.entPosition = .determineReadMethod)
    (hc : p.cursor ≤ p.msg.msg.length) :
    parserGetEntityReadMethod p = .ok (Http.parserGetEntityReadMethod p) := by
  rw [parserGetEntityReadMethod,require_true (by rw [hp]; rfl),ok_bind,byteAt,if_pos hc,ok_bind]

theorem entityStep_eq (h : Framed p) (hf : p.msg.msg.length < fuel) :
    entityStep fuel p = .ok (Http.entityStep p) := by
  have hc := h.cursor_le
  cases hp : p.entPosition with
  | usingClen =>
    have hs := h.start_le (by rw [hp]; rintro ⟨⟩)
    simp only [entityStep,Http.entityStep,hp]
    exact parserParseEntityUsingClen_eq hp hc hs
  | usingChunked =>
    simp only [entityStep,Http.entityStep,hp]
    exact parserParseChunkyEntity_eq hp hc hf
  | chunkyBody =>
    simp only [entityStep,Http.entityStep,hp]
    exact parserParseChunkyBody_eq hc hf
  | chunkyHeaders =>
    simp only [entityStep,Http.entityStep,hp]
    exact parserParseChunkyHeaders_eq hp hc hf
  | untilClose =>
    simp only [entityStep,Http.entityStep,hp]
    exact parserParseEntityUntilClose_eq hp
  | determineReadMethod =>
    simp only [entityStep,Http.entityStep,hp]
    exact parserGetEntityReadMethod_eq hp hc

theorem deleteTo_length_le {pos : ℕ} (h : pos ≤ p.cursor) (hc : p.cursor ≤ p.msg.msg.length) :
    (p.deleteTo pos).msg.msg.length ≤ p.msg.msg.length := by
  simp only [HttpParser.deleteTo,List.length_append,List.length_take,List.length_drop]
  omega

/-- Whatever its status, a round of the entity loop keeps the cursor in the buffer, and
the buffer does not grow. -/
structure Within (p q : HttpParser) : Prop where
  cursor_le : q.cursor ≤ q.msg.msg.length
  length_le : q.msg.msg.length ≤ p.msg.msg.length

theorem Within.deleteTo {q : HttpParser} {pos : ℕ} (hm : q.msg.msg.length ≤ p.msg.msg.length)
    (h : pos ≤ q.cursor) (hc : q.cursor ≤ q.msg.msg.length) : Within p (q.deleteTo pos) :=
  ⟨deleteTo_length (Nat.le_trans h hc),Nat.le_trans (deleteTo_length_le h hc) hm⟩

theorem beginChunk_within {q : HttpParser} (h : Within p q) : Within p (beginChunk q) := by
  unfold beginChunk
  split <;> exact ⟨h.cursor_le,h.length_le⟩

theorem entityStep_within (hc : p.cursor ≤ p.msg.msg.length) :
    Within p (Http.entityStep p).2 := by
  have hp : Within p p := ⟨hc,Nat.le_refl _⟩
  unfold Http.entityStep
  split
  · simp only [Http.parserParseEntityUsingClen]
    split
    · exact ⟨hc,Nat.le_refl _⟩
    · split
      · exact ⟨by simpa using hc,by simp⟩
      · exact ⟨hc,Nat.le_refl _⟩
  · have hu := scannerMatch_used_le chunkFmt p.rest
    rw [HttpParser.rest_length] at hu
    simp only [Http.parserParseChunkyEntity]
    split
    · exact ⟨by simpa using hc,by simp⟩
    · have hmsg := storeChunkSize_msg p (scannerMatch chunkFmt p.rest)
      have hcur := storeChunkSize_cursor p (scannerMatch chunkFmt p.rest)
      refine beginChunk_within (Within.deleteTo ?_ (Nat.le_add_right _ _) ?_)
      · simp only [HttpParser.advance,hmsg]
        exact Nat.le_refl _
      · simp only [HttpParser.advance,hmsg,hcur]
        omega
  · simp only [Http.parserParseChunkyBody]
    split
    · rename_i hsz
      have hu := scannerMatch_used_le crlfFmt (p.advance p.chunkSize).rest
      rw [HttpParser.rest_length] at hu
      split
      · exact hp
      · have hd : Within p (((p.advance p.chunkSize).advance
            (scannerMatch crlfFmt (p.advance p.chunkSize).rest).used).deleteTo
              (p.advance p.chunkSize).cursor) := by
          refine Within.deleteTo (Nat.le_refl _) (Nat.le_add_right _ _) ?_
          simp only [HttpParser.advance] at hu ⊢
          omega
        exact ⟨hd.cursor_le,hd.length_le⟩
    · exact hp
  · have hframe := parserParseHeaders_frame hc
    have hl : (Http.parserParseHeaders p).2.msg.msg.length ≤ p.msg.msg.length := by
      rw [hframe.buffer]
    rw [Http.parserParseChunkyHeaders_eq]
    split
    · have hd := Within.deleteTo hl hframe.cursor_ge hframe.cursor_le
      exact ⟨hd.cursor_le,hd.length_le⟩
    · exact ⟨hframe.cursor_le,hl⟩
  · exact ⟨Nat.le_refl _,Nat.le_refl _⟩
  · simp only [Http.parserGetEntityReadMethod]
    split <;> exact ⟨hc,Nat.le_refl _⟩

/-! The loops. -/

theorem doWhile_eq {ι : Type} {again : ι → Bool} {f : HttpParser → Except Fault (ι × HttpParser)}
    {g : HttpParser → ι × HttpParser} (h : f p = .ok (g p)) :
    doWhile again f p = .ok (Loop.doWhile again g p) := by
  rw [doWhile,h,ok_bind,Loop.doWhile]
  split <;> rfl

theorem parserParseEntity_eq (h : Framed p) (hp : p.position = .entity)
    (hf : p.msg.msg.length+1 < fuel) :
    parserParseEntity fuel p = .ok (Http.parserParseEntity p) := by
  rw [parserParseEntity,require_true (by rw [hp]; rfl),ok_bind]
  refine rounds_run (I := fun q => Framed q ∧ q.msg.msg.length+1 < fuel) entityStep_descends
    (fun q hq => doWhile_eq (entityStep_eq hq.1 (Nat.lt_of_succ_lt hq.2))) ?_ ⟨h,hf⟩ ?_
  · rintro q r ⟨hq,hqf⟩ hr
    rcases Loop.doWhile_inl hr with ⟨hst,rfl⟩
    have hw := (entityStep_within hq.cursor_le).length_le
    exact ⟨(entityStep_framed hq (.inl (by simpa using hst))).1,by omega⟩
  · unfold entityMeasure
    rw [HttpParser.rest_length]
    split <;> omega

theorem parserParseEntity_within (h : Framed p) : Within p (Http.parserParseEntity p).2 := by
  refine Loop.run_induction entityStep_descends (e := fun q : HttpParser => (ParseStatus.failure,q))
    (P := fun p r => Framed p → Within p r.2) ?_ ?_ p h
  · intro q r hr hq
    rcases Loop.doWhile_inr hr with ⟨-,rfl⟩
    exact entityStep_within hq.cursor_le
  · intro q r hr ih hq
    rcases Loop.doWhile_inl hr with ⟨hst,rfl⟩
    have hi := ih (entityStep_framed hq (.inl (by simpa using hst))).1
    exact ⟨hi.cursor_le,Nat.le_trans hi.length_le (entityStep_within hq.cursor_le).length_le⟩

theorem Within.of_frame {q : HttpParser} (h : HeaderFrame p q) : Within p q :=
  ⟨h.cursor_le,by rw [h.buffer]⟩

theorem parserStep_within (res : Resolver) (h : Framed p) : Within p (Http.parserStep res p).2 := by
  unfold Http.parserStep
  split
  · exact parserParseEntity_within h
  · exact .of_frame (parserParseHeaders_frame h.cursor_le)
  · exact .of_frame (parserParseRequestline_frame res h.cursor_le)
  · exact .of_frame (parserParseResponseline_frame h.cursor_le)
  · exact ⟨h.cursor_le,Nat.le_refl _⟩

theorem parserStep_eq (res : Resolver) (h : Framed p) (hp : p.position ≠ .complete)
    (hf : p.msg.msg.length+1 < fuel) :
    parserStep res fuel p = .ok (Http.parserStep res p) := by
  have hc := h.cursor_le
  have hf' := Nat.lt_of_succ_lt hf
  cases hpos : p.position with
  | complete => exact absurd hpos hp
  | entity =>
    simp only [parserStep,Http.parserStep,hpos]
    exact parserParseEntity_eq h hpos hf
  | headers =>
    simp only [parserStep,Http.parserStep,hpos]
    exact parserParseHeaders_eq (.inl hpos) hc hf'
  | requestLine =>
    simp only [parserStep,Http.parserStep,hpos]
    exact parserParseRequestline_eq res hpos hc hf'
  | responseLine =>
    simp only [parserStep,Http.parserStep,hpos]
    exact parserParseResponseline_eq hpos hc hf'

/-- A parser that goes on or waits has not come to the end of its message. -/
theorem parserStep_position (res : Resolver) (h : Framed p)
    (hw : (Http.parserStep res p).1 = .ok ∨ waitsForMore (Http.parserStep res p).1 = true) :
    (Http.parserStep res p).2.position ≠ .complete := by
  have hline : ∀ {pos : ParserPos} {r : ParseStatus × HttpParser}, pos ≠ .complete →
      LineStatus pos r → (r.1 = .ok ∨ waitsForMore r.1 = true) → r.2.position ≠ .complete := by
    intro pos r hpos hl hw
    rcases hw with hw | hw
    · rw [hl.done hw]
      rintro ⟨⟩
    · rw [hl.waiting hw]
      exact hpos
  cases hp : p.position with
  | requestLine =>
    simp only [Http.parserStep,hp] at hw ⊢
    exact hline (by rw [hp]; rintro ⟨⟩) (afterBlankLines_status (requestLine_status res) p) hw
  | responseLine =>
    simp only [Http.parserStep,hp] at hw ⊢
    exact hline (by rw [hp]; rintro ⟨⟩) (afterBlankLines_status responseLine_status p) hw
  | headers =>
    simp only [Http.parserStep,hp] at hw ⊢
    have hs := parserParseHeaders_status p
    rcases hw with hw | hw
    · rw [hs.done hw]
      rintro ⟨⟩
    · rw [hs.waiting (incomplete_of_waits hw hs.not_entity),hp]
      rintro ⟨⟩
  | entity =>
    simp only [Http.parserStep,hp] at hw ⊢
    have hw' := hw.resolve_left (parserParseEntity_status p)
    have hk := parserParseEntity_resumable.keep_process p ⟨h,hp⟩ hw'
    rw [show (Http.parserParseEntity p).2.position = .entity from hk.2]
    rintro ⟨⟩
  | complete =>
    simp only [Http.parserStep,hp] at hw
    rcases hw with hw | hw <;> cases hw

/-- What holds of a parser whose message is not complete. -/
structure Open (p : HttpParser) : Prop where
  parsing : Parsing p
  position : p.position ≠ .complete

theorem Open.append (h : Open p) (x : List UInt8) : Open (p.append x) :=
  ⟨h.parsing.append x,h.position⟩

theorem parserStep_open {res : Resolver} (h : Open p)
    (hw : (Http.parserStep res p).1 = .ok ∨ waitsForMore (Http.parserStep res p).1 = true) :
    Open (Http.parserStep res p).2 :=
  ⟨(parserStep_parsing h.parsing hw).1,parserStep_position res h.parsing.framed hw⟩

theorem parserParse_eq (res : Resolver) (h : Open p) (hf : p.msg.msg.length+2 < fuel) :
    parserParse res fuel p = .ok (Http.parserParse res p) := by
  refine rounds_run (I := fun q => Open q ∧ q.msg.msg.length+2 < fuel) (parserStep_descends res)
    (fun q hq => doWhile_eq
      (parserStep_eq res hq.1.parsing.framed hq.1.position (Nat.lt_of_succ_lt hq.2))) ?_ ⟨h,hf⟩ ?_
  · rintro q r ⟨hq,hqf⟩ hr
    rcases Loop.doWhile_inl hr with ⟨hst,rfl⟩
    have hw := (parserStep_within res hq.parsing.framed).length_le
    exact ⟨parserStep_open hq (.inl (by simpa using hst)),by omega⟩
  · unfold positionMeasure
    split <;> omega

/-- Where `parser_parse` leaves the parser, and that one which waits is still open. -/
theorem parserParse_leaves (res : Resolver) (h : Open p) :
    (Http.parserParse res p).2.cursor ≤ (Http.parserParse res p).2.msg.msg.length ∧
      (waitsForMore (Http.parserParse res p).1 = true → Open (Http.parserParse res p).2) := by
  refine Loop.run_induction (parserStep_descends res)
    (e := fun q : HttpParser => (ParseStatus.failure,q))
    (P := fun p r => Open p → r.2.cursor ≤ r.2.msg.msg.length ∧
      (waitsForMore r.1 = true → Open r.2)) ?_ ?_ p h
  · intro q r hr hq
    rcases Loop.doWhile_inr hr with ⟨-,rfl⟩
    exact ⟨(parserStep_within res hq.parsing.framed).cursor_le,
      fun hw => parserStep_open hq (.inr hw)⟩
  · intro q r hr ih hq
    rcases Loop.doWhile_inl hr with ⟨hst,rfl⟩
    exact ih (parserStep_open hq (.inl (by simpa using hst)))

theorem parserAppend_eq (res : Resolver) (h : Open p) (x : List UInt8)
    (hf : p.msg.msg.length+x.length+2 < fuel) :
    parserAppend res fuel p x = .ok (Http.parserAppend res p x) :=
  parserParse_eq res (h.append x) (by rw [HttpParser.append_msg,List.length_append]; exact hf)

/-- A run whose loops may make as many rounds as they like ends, with `a`. -/
def Returns {α : Type} (run : ℕ → Except Fault α) (a : α) : Prop :=
  ∃ n, ∀ fuel, n ≤ fuel → run fuel = .ok a

/-- The parsers that `parser_append` has left waiting for more, whatever came before. -/
inductive Waiting (res : Resolver) : HttpParser → Prop
  | request : Waiting res parserRequestInit
  | response (method : HttpMethod) : Waiting res (parserResponseInit method)
  | append {p q : HttpParser} {st : ParseStatus} (x : List UInt8) (h : Waiting res p)
      (ha : Returns (fun fuel => parserAppend res fuel p x) (st,q))
      (hw : waitsForMore st = true) : Waiting res q

theorem Waiting.isOpen {res : Resolver} (h : Waiting res p) : Open p := by
  induction h with
  | request => exact ⟨parserRequestInit_parsing,by rintro ⟨⟩⟩
  | response method => exact ⟨(parserResponseInit_responding method).parsing,by rintro ⟨⟩⟩
  | @append p q st x h ha hw ih =>
    rcases ha with ⟨n,hn⟩
    have he := parserAppend_eq res ih x (show p.msg.msg.length+x.length+2 <
      n+(p.msg.msg.length+x.length+3) by omega)
    have hq := hn _ (Nat.le_add_right n (p.msg.msg.length+x.length+3))
    simp only [he,Except.ok.injEq] at hq
    have hl := (parserParse_leaves res (ih.append x)).2
    rw [show Http.parserParse res (p.append x) = (st,q) from hq] at hl
    exact hl hw

/-- Each call of `parser_append` ends, after no more rounds of any loop than there are
bytes in the buffer and three; no assertion fails, no byte behind the terminating NUL is
touched, and the cursor stays in the buffer. -/
theorem parserAppend_checked (res : Resolver) {p : HttpParser} (h : Waiting res p)
    (x : List UInt8) {fuel : ℕ} (hf : p.msg.msg.length+x.length+2 < fuel) :
    parserAppend res fuel p x = .ok (Http.parserAppend res p x) ∧
      (Http.parserAppend res p x).2.cursor ≤ (Http.parserAppend res p x).2.msg.msg.length :=
  ⟨parserAppend_eq res h.isOpen x hf,(parserParse_leaves res (h.isOpen.append x)).1⟩

theorem parserAppend_checked_chunks :
    parserAppend Resolver.empty 70 (parserResponseInit .get)
        (cstr "HTTP/1.1 200 OK\r\nTransfer-Encoding: chunked\r\n\r\n2\r\nhi\r\n0\r\n") =
      .ok (Http.parserAppend Resolver.empty (parserResponseInit .get)
        (cstr "HTTP/1.1 200 OK\r\nTransfer-Encoding: chunked\r\n\r\n2\r\nhi\r\n0\r\n")) :=
  (parserAppend_checked Resolver.empty (.response .get) _ (by decide)).1

end Checked
end Http
end CtrlPt
