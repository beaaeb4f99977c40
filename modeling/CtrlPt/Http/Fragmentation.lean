import CtrlPt.Http.StartLine

/-! Headers and entities under fragmentation, and the response parser as a machine whose
answer depends on the bytes it was given, not on the pieces they came in. -/
namespace CtrlPt
namespace Http

open CText Uri Resume

/-! The header loop. -/

theorem headerFmt_incremental : ∀ d ∈ headerFmt, d.incremental = true := by decide

/-- The rounds of the header loop: no token, a header line that does not match, one that
does, the empty line, and a token that starts no header. -/
theorem headerRound_cases (p : HttpParser) :
    (∃ st n, scannerGetToken false p.rest = .stop st n ∧ headerRound p = .inr (st.status,p)) ∨
    ∃ t n, scannerGetToken false p.rest = .ok t n ∧
      ((t.type = .crlf ∧ headerRound p = .inr (endHeaders (p.advance n))) ∨
      (t.type = .identifier ∧ (scannerMatch headerFmt (p.advance n).rest).status ≠ .ok ∧
        headerRound p = .inr ((scannerMatch headerFmt (p.advance n).rest).status,p)) ∨
      (t.type = .identifier ∧ (scannerMatch headerFmt (p.advance n).rest).status = .ok ∧
        headerRound p = .inl (addHeaderLine
          ((p.advance n).advance (scannerMatch headerFmt (p.advance n).rest).used) t.text
          ((scannerMatch headerFmt (p.advance n).rest).textAt 0).2)) ∨
      (t.type ≠ .crlf ∧ t.type ≠ .identifier ∧ headerRound p = .inr (.failure,p.advance n))) := by
  cases ht : scannerGetToken false p.rest with
  | stop st n =>
    left
    exact ⟨st,n,rfl,by simp only [headerRound,ht]⟩
  | ok t n =>
    right
    refine ⟨t,n,rfl,?_⟩
    cases hty : t.type with
    | crlf => exact .inl ⟨rfl,by simp only [headerRound,ht,hty]⟩
    | identifier =>
      by_cases hm : (scannerMatch headerFmt (p.advance n).rest).status = .ok
      · refine .inr (.inr (.inl ⟨rfl,hm,?_⟩))
        simp only [headerRound,ht,hty,hm,ne_eq,not_true_eq_false,if_false]
      · refine .inr (.inl ⟨rfl,hm,?_⟩)
        simp only [headerRound,ht,hty,hm,ne_eq,not_false_eq_true,if_true]
    | whitespace =>
      exact .inr (.inr (.inr ⟨(by rintro ⟨⟩),(by rintro ⟨⟩),by simp only [headerRound,ht,hty]⟩))
    | ctrl =>
      exact .inr (.inr (.inr ⟨(by rintro ⟨⟩),(by rintro ⟨⟩),by simp only [headerRound,ht,hty]⟩))
    | separator =>
      exact .inr (.inr (.inr ⟨(by rintro ⟨⟩),(by rintro ⟨⟩),by simp only [headerRound,ht,hty]⟩))
    | quotedString =>
      exact .inr (.inr (.inr ⟨(by rintro ⟨⟩),(by rintro ⟨⟩),by simp only [headerRound,ht,hty]⟩))

theorem headerRound_descends : Loop.Descends (fun q => q.rest.length) headerRound := by
  intro p q h
  rcases headerRound_cases p with ⟨st,n,-,he⟩ | ⟨t,n,ht,⟨-,he⟩ | ⟨-,-,he⟩ | ⟨-,-,he⟩ | ⟨-,-,he⟩⟩ <;>
    rw [he] at h <;> cases h
  have hn := scannerGetToken_ok ht
  rw [HttpParser.rest_length] at hn
  simp only [addHeaderLine,HttpParser.rest_length,HttpParser.advance]
  omega

/-- What the start line and the header loop leave alone. -/
structure HeaderFrame (p q : HttpParser) : Prop where
  buffer : q.msg.msg = p.msg.msg
  entity : q.msg.entity = p.msg.entity
  start : q.entityStartPosition = p.entityStartPosition
  discarded : q.msg.amountDiscarded = p.msg.amountDiscarded
  entPosition : q.entPosition = p.entPosition
  chunkSize : q.chunkSize = p.chunkSize
  contentLength : q.contentLength = p.contentLength
  isRequest : q.msg.isRequest = p.msg.isRequest
  cursor_ge : p.cursor ≤ q.cursor
  cursor_le : q.cursor ≤ q.msg.msg.length

theorem HeaderFrame.refl {p : HttpParser} (h : p.cursor ≤ p.msg.msg.length) : HeaderFrame p p :=
  ⟨rfl,rfl,rfl,rfl,rfl,rfl,rfl,rfl,Nat.le_refl _,h⟩

theorem HeaderFrame.trans {p q r : HttpParser} (h : HeaderFrame p q) (h' : HeaderFrame q r) :
    HeaderFrame p r :=
  ⟨h'.buffer.trans h.buffer,h'.entity.trans h.entity,h'.start.trans h.start,
    h'.discarded.trans h.discarded,h'.entPosition.trans h.entPosition,
    h'.chunkSize.trans h.chunkSize,h'.contentLength.trans h.contentLength,
    h'.isRequest.trans h.isRequest,Nat.le_trans h.cursor_ge h'.cursor_ge,h'.cursor_le⟩

theorem HeaderFrame.advance {p : HttpParser} {n : ℕ} (h : p.cursor ≤ p.msg.msg.length)
    (hn : n ≤ p.rest.length) : HeaderFrame p (p.advance n) := by
  rw [HttpParser.rest_length] at hn
  refine ⟨rfl,rfl,rfl,rfl,rfl,rfl,rfl,rfl,Nat.le_add_right _ _,?_⟩
  simp only [HttpParser.advance]
  omega

theorem HeaderFrame.addHeaderLine {p q : HttpParser} (h : HeaderFrame p q)
    (name value : List UInt8) : HeaderFrame p (addHeaderLine q name value) :=
  ⟨h.buffer,h.entity,h.start,h.discarded,h.entPosition,h.chunkSize,h.contentLength,h.isRequest,
    h.cursor_ge,h.cursor_le⟩

theorem HeaderFrame.endHeaders {p q : HttpParser} (h : HeaderFrame p q) :
    HeaderFrame p (endHeaders q).2 := by
  unfold Http.endHeaders
  split <;>
    exact ⟨h.buffer,h.entity,h.start,h.discarded,h.entPosition,h.chunkSize,h.contentLength,
      h.isRequest,h.cursor_ge,h.cursor_le⟩

theorem headerRound_frame {p : HttpParser} (h : p.cursor ≤ p.msg.msg.length) :
    (∀ q, headerRound p = .inl q → HeaderFrame p q) ∧
      ∀ r, headerRound p = .inr r → HeaderFrame p r.2 := by
  rcases headerRound_cases p with ⟨st,n,-,he⟩ | ⟨t,n,ht,hc⟩
  · rw [he]
    exact ⟨by rintro _ ⟨⟩,by rintro _ ⟨⟩; exact HeaderFrame.refl h⟩
  · have ha := HeaderFrame.advance h (scannerGetToken_ok ht).2.1
    have hu := scannerMatch_used_le headerFmt (p.advance n).rest
    have hb := ha.trans (HeaderFrame.advance ha.cursor_le hu)
    rcases hc with ⟨-,he⟩ | ⟨-,-,he⟩ | ⟨-,-,he⟩ | ⟨-,-,he⟩ <;> rw [he]
    · exact ⟨by rintro _ ⟨⟩,by rintro _ ⟨⟩; exact ha.endHeaders⟩
    · exact ⟨by rintro _ ⟨⟩,by rintro _ ⟨⟩; exact HeaderFrame.refl h⟩
    · exact ⟨by rintro _ ⟨⟩; exact hb.addHeaderLine _ _,by rintro _ ⟨⟩⟩
    · exact ⟨by rintro _ ⟨⟩,by rintro _ ⟨⟩; exact ha⟩

theorem parserParseHeaders_frame {p : HttpParser} (h : p.cursor ≤ p.msg.msg.length) :
    HeaderFrame p (parserParseHeaders p).2 := by
  have hrun := Loop.run_induction headerRound_descends
    (e := fun q : HttpParser => (ParseStatus.failure,q))
    (P := fun p r => p.cursor ≤ p.msg.msg.length → HeaderFrame p r.2)
    (fun p r hr h => (headerRound_frame h).2 r hr)
    (fun p q hq ih h => ((headerRound_frame h).1 q hq).trans
      (ih ((headerRound_frame h).1 q hq).cursor_le)) p
  exact hrun h

@[simp] theorem endHeaders_append (p : HttpParser) (x : List UInt8) :
    endHeaders (p.append x) = ((endHeaders p).1,(endHeaders p).2.append x) := by
  by_cases h : p.msg.isRequest = true ∧ p.msg.method = .post <;>
    simp [endHeaders,HttpParser.append,h]

@[simp] theorem endHeaders_status (p : HttpParser) : waitsForMore (endHeaders p).1 = false := by
  unfold endHeaders
  split <;> rfl

theorem headerRound_append {p : HttpParser} (h : p.cursor ≤ p.msg.msg.length) (x : List UInt8) :
    (∀ q, headerRound p = .inl q → headerRound (p.append x) = .inl (q.append x)) ∧
      ∀ r, headerRound p = .inr r → (waitsForMore r.1 = true → r.2 = p) ∧
        (waitsForMore r.1 = false → headerRound (p.append x) = .inr (r.1,r.2.append x)) := by
  have hrest := HttpParser.rest_append h x
  rcases headerRound_cases p with ⟨st,n,ht,he⟩ | ⟨t,n,ht,hc⟩
  · rw [he]
    refine ⟨by rintro _ ⟨⟩,?_⟩
    rintro _ ⟨⟩
    refine ⟨fun _ => rfl,fun hw => ?_⟩
    have hst : ¬(scannerGetToken false p.rest).waiting := by
      rw [ht,waiting_stop,← waitsForMore_status,hw]
      decide
    simp only [headerRound,hrest,scannerGetToken_stable _ x hst,ht]
  · have hn := (scannerGetToken_ok ht).2.1
    have htx : scannerGetToken false (p.rest++x) = .ok t n := by
      rw [scannerGetToken_stable _ x (by simp [ht]),ht]
    have hax : ((p.advance n).append x).rest = (p.advance n).rest++x :=
      HttpParser.rest_append (HeaderFrame.advance h hn).cursor_le x
    rcases hc with ⟨hty,he⟩ | ⟨hty,hm,he⟩ | ⟨hty,hm,he⟩ | ⟨hty,hty',he⟩ <;> rw [he]
    · refine ⟨by rintro _ ⟨⟩,?_⟩
      rintro _ ⟨⟩
      refine ⟨fun hw => ?_,fun _ => ?_⟩
      · rw [endHeaders_status] at hw
        cases hw
      · simp only [headerRound,hrest,htx,hty,HttpParser.advance_append,endHeaders_append]
    · refine ⟨by rintro _ ⟨⟩,?_⟩
      rintro _ ⟨⟩
      refine ⟨fun _ => rfl,fun hw => ?_⟩
      have hs := scannerMatch_stable headerFmt_incremental (r := (p.advance n).rest)
        (by rintro hinc; rw [hinc] at hw; cases hw) x
      simp only [headerRound,hrest,htx,hty,HttpParser.advance_append,hax,hs,ne_eq,hm,
        not_false_eq_true,if_true]
    · refine ⟨?_,by rintro _ ⟨⟩⟩
      rintro _ ⟨⟩
      have hs := scannerMatch_stable headerFmt_incremental (r := (p.advance n).rest)
        (by rw [hm]; decide) x
      simp only [headerRound,hrest,htx,hty,HttpParser.advance_append,hax,hs,ne_eq,hm,
        not_true_eq_false,if_false]
      rfl
    · refine ⟨by rintro _ ⟨⟩,?_⟩
      rintro _ ⟨⟩
      refine ⟨(by rintro ⟨⟩),fun _ => ?_⟩
      cases htt : t.type with
      | crlf => exact absurd htt hty
      | identifier => exact absurd htt hty'
      | whitespace => simp only [headerRound,hrest,htx,htt,HttpParser.advance_append]
      | ctrl => simp only [headerRound,hrest,htx,htt,HttpParser.advance_append]
      | separator => simp only [headerRound,hrest,htx,htt,HttpParser.advance_append]
      | quotedString => simp only [headerRound,hrest,htx,htt,HttpParser.advance_append]

theorem headerRound_round {p : HttpParser} (h : p.cursor ≤ p.msg.msg.length) :
    RoundAt HttpParser.append waitsForMore (carry HttpParser.append) headerRound p where
  go q hq x := (headerRound_append h x).1 q hq
  final r hr hw x := ⟨_,((headerRound_append h x).2 r hr).2 hw,by simp [carry]⟩
  resume r hr hw x := .inl (by rw [((headerRound_append h x).2 r hr).1 hw])

theorem exactFor_parserParseHeaders {p : HttpParser} (h : p.cursor ≤ p.msg.msg.length) :
    ExactFor parserParseHeaders p := by
  apply exactAt_run headerRound_descends (I := fun p => p.cursor ≤ p.msg.msg.length)
    HttpParser.append_nil
  · intro s t hs ht
    exact ((headerRound_frame hs).1 t ht).cursor_le
  · intro s r hs hr _
    exact ((headerRound_frame hs).2 r hr).cursor_le
  · intro s hs
    exact headerRound_round hs
  · exact h

/-! The entity. -/

/-- What the entity functions rely on while nothing has been taken out of the buffer. -/
structure Framed (p : HttpParser) : Prop where
  cursor_le : p.cursor ≤ p.msg.msg.length
  discarded : p.msg.amountDiscarded = 0
  start_le : p.entPosition ≠ .determineReadMethod → p.entityStartPosition ≤ p.cursor
  buf_eq : p.entPosition ≠ .determineReadMethod → p.msg.entity.buf = p.entityStartPosition
  entity_le : p.entPosition = .chunkyHeaders →
    p.entityStartPosition+p.msg.entity.length ≤ p.cursor

theorem Framed.append {p : HttpParser} (h : Framed p) (x : List UInt8) : Framed (p.append x) := by
  refine ⟨?_,h.discarded,h.start_le,h.buf_eq,h.entity_le⟩
  have hc := h.cursor_le
  simp only [HttpParser.append,List.length_append]
  omega

/-- What is to be the same for two ways of feeding a response. -/
structure ResponseView where
  majorVersion : ℤ
  minorVersion : ℤ
  statusCode : ℤ
  statusMsg : List UInt8
  headers : List HttpHeader
  entityLength : ℕ
  entityBytes : List UInt8
  deriving DecidableEq, Repr

def HttpParser.view (p : HttpParser) : ResponseView where
  majorVersion := p.msg.majorVersion
  minorVersion := p.msg.minorVersion
  statusCode := p.msg.statusCode
  statusMsg := p.msg.statusMsg
  headers := p.msg.headers
  entityLength := p.msg.entity.length
  entityBytes := (p.msg.msg.drop p.msg.entity.buf).take p.msg.entity.length

def observe (r : ParseStatus × HttpParser) : ParseStatus × Option ResponseView :=
  (r.1,if r.1 = .success ∨ r.1 = .incompleteEntity then some r.2.view else none)

/-- What is to be the same for two ways of feeding any message. -/
structure MessageView extends ResponseView where
  method : HttpMethod
  urlbuf : List UInt8
  uri : UriType
  deriving DecidableEq, Repr

def HttpParser.messageView (p : HttpParser) : MessageView :=
  { p.view with method := p.msg.method, urlbuf := p.msg.urlbuf, uri := p.msg.uri }

def observeMessage (r : ParseStatus × HttpParser) : ParseStatus × Option MessageView :=
  (r.1,if r.1 = .success ∨ r.1 = .incompleteEntity then some r.2.messageView else none)

theorem observe_eq (r : ParseStatus × HttpParser) :
    observe r = ((observeMessage r).1,(observeMessage r).2.map MessageView.toResponseView) := by
  unfold observe observeMessage
  split <;> rfl

abbrev EntityRound (p : HttpParser) : Prop :=
  RoundAt HttpParser.append waitsForMore (fun _ => observeMessage)
    (Loop.doWhile (· == .continue1) entityStep) p

theorem view_append {p : HttpParser}
    (h : p.msg.entity.buf+p.msg.entity.length ≤ p.msg.msg.length) (x : List UInt8) :
    (p.append x).messageView = p.messageView := by
  simp only [HttpParser.messageView,HttpParser.view,HttpParser.append,MessageView.mk.injEq,
    ResponseView.mk.injEq,true_and,and_true]
  rw [List.drop_append_of_le_length (by omega),List.take_append_of_le_length]
  rw [List.length_drop]
  omega

theorem observe_append {r : ParseStatus × HttpParser}
    (h : r.1 = .success ∨ r.1 = .incompleteEntity →
      r.2.msg.entity.buf+r.2.msg.entity.length ≤ r.2.msg.msg.length) (x : List UInt8) :
    observeMessage (carry HttpParser.append x r) = observeMessage r := by
  by_cases hst : r.1 = .success ∨ r.1 = .incompleteEntity
  · simp only [observeMessage,carry,view_append (h hst)]
  · unfold observeMessage carry
    rw [if_neg hst,if_neg hst]

theorem entityRound_of_exact {p : HttpParser} (h : ExactFor entityStep p)
    (hs : (entityStep p).1 = .success → (entityStep p).2.msg.entity.buf+
      (entityStep p).2.msg.entity.length ≤ (entityStep p).2.msg.msg.length) : EntityRound p := by
  apply h.round
  · intro i hi
    rw [beq_iff_eq] at hi
    rw [hi]
    rfl
  · intro _ hw x
    apply observe_append
    rintro (he | he)
    · exact hs he
    · rw [he] at hw
      cases hw

theorem parserGetEntityReadMethod_append (p : HttpParser) (x : List UInt8) :
    waitsForMore (parserGetEntityReadMethod p).1 = false ∧
      parserGetEntityReadMethod (p.append x) =
        ((parserGetEntityReadMethod p).1,(parserGetEntityReadMethod p).2.append x) := by
  have hx : ∀ m, readMethod { p.msg with entity := ⟨p.cursor,0⟩, msg := m } = readMethod p.msg :=
    fun _ => rfl
  cases hr : readMethod p.msg <;>
    simp only [parserGetEntityReadMethod,HttpParser.append,HttpParser.setEntity,hx,hr] <;>
    exact ⟨rfl,trivial⟩

theorem crlfFmt_incremental : ∀ d ∈ crlfFmt, d.incremental = true := by decide

theorem chunkFmt_incremental : ∀ d ∈ chunkFmt, d.incremental = true := by decide

/-- A chunk and its CRLF, which is taken out of the buffer. -/
theorem parserParseChunkyBody_append {p : HttpParser} (h : p.cursor ≤ p.msg.msg.length)
    (x : List UInt8) :
    (waitsForMore (parserParseChunkyBody p).1 = true → (parserParseChunkyBody p).2 = p) ∧
      (waitsForMore (parserParseChunkyBody p).1 = false → parserParseChunkyBody (p.append x) =
        ((parserParseChunkyBody p).1,(parserParseChunkyBody p).2.append x)) := by
  by_cases hsz : p.chunkSize ≤ p.msg.msg.length-p.cursor
  · have hq : HeaderFrame p (p.advance p.chunkSize) :=
      HeaderFrame.advance h (by rw [HttpParser.rest_length]; exact hsz)
    have hszx : p.chunkSize ≤ (p.msg.msg++x).length-p.cursor := by
      rw [List.length_append]
      omega
    have hax := HttpParser.rest_append hq.cursor_le x
    by_cases hm : (scannerMatch crlfFmt (p.advance p.chunkSize).rest).status = .ok
    · have hu := scannerMatch_used_le crlfFmt (p.advance p.chunkSize).rest
      have hr := hq.trans (HeaderFrame.advance hq.cursor_le hu)
      have hs := scannerMatch_stable crlfFmt_incremental (by rw [hm]; decide) x
      have hd := HttpParser.deleteTo_append hr.cursor_le hq.cursor_le x
      have hv : parserParseChunkyBody p = (.continue1,endChunk
          (((p.advance p.chunkSize).advance
            (scannerMatch crlfFmt (p.advance p.chunkSize).rest).used).deleteTo
              (p.advance p.chunkSize).cursor)) := by
        simp only [parserParseChunkyBody,if_pos hsz,ne_eq,hm,not_true_eq_false,if_false]
      rw [hv]
      refine ⟨(by rintro ⟨⟩),fun _ => ?_⟩
      simp only [parserParseChunkyBody,HttpParser.append_msg,HttpParser.append_cursor,
        HttpParser.append_chunkSize,if_pos hszx,HttpParser.advance_append,hax,hs,ne_eq,hm,
        not_true_eq_false,if_false]
      exact congrArg (fun r => (ParseStatus.continue1,endChunk r)) hd
    · have hv : parserParseChunkyBody p =
          ((scannerMatch crlfFmt (p.advance p.chunkSize).rest).status,p) := by
        simp only [parserParseChunkyBody,if_pos hsz,ne_eq,hm,not_false_eq_true,if_true]
      rw [hv]
      refine ⟨fun _ => rfl,fun hw => ?_⟩
      have hs := scannerMatch_stable crlfFmt_incremental
        (r := (p.advance p.chunkSize).rest) (by rintro hi; rw [hi] at hw; cases hw) x
      simp only [parserParseChunkyBody,HttpParser.append_msg,HttpParser.append_cursor,
        HttpParser.append_chunkSize,if_pos hszx,HttpParser.advance_append,hax,hs,ne_eq,hm,
        not_false_eq_true,if_true]
  · simp only [parserParseChunkyBody,if_neg hsz]
    exact ⟨fun _ => trivial,(by rintro ⟨⟩)⟩

@[simp] theorem storeInt_storeInt (old : ℕ) (m n : ℤ) :
    storeInt (storeInt old m) n = storeInt old n := by
  have hm : toUInt m < 2^32 := by
    unfold toUInt
    omega
  unfold storeInt
  omega

/-- What a waiting match has stored it stores again when more bytes have come. -/
theorem vfmatchFrom_vals_append {fmt : List Directive} (hf : ∀ d ∈ fmt, d.incremental = true)
    (cs : Bool) (n : ℕ) (r x : List UInt8) :
    ∃ vs, (vfmatchFrom false fmt cs n (r++x)).vals = (vfmatchFrom false fmt cs n r).vals++vs := by
  induction fmt generalizing cs n r with
  | nil => exact ⟨[],rfl⟩
  | cons d ds ih =>
    by_cases hw : (directive false cs n r d).2.waiting
    · have hv := directive_waiting hw
      rcases hd : directive false cs n r d with ⟨vs,st⟩
      rw [hd] at hw hv
      simp only at hw hv
      subst hv
      cases st with
      | ok u k => exact absurd hw (by simp)
      | stop st k =>
        exact ⟨(vfmatchFrom false (d::ds) cs n (r++x)).vals,by simp only [vfmatchFrom,hd]; rfl⟩
    · have hx := directive_stable (hf d (by simp)) cs n r x hw
      have hb := directive_bounded false cs n r d
      rcases hd : directive false cs n r d with ⟨vs,st⟩
      rw [hd] at hx hb
      cases st with
      | stop st k => exact ⟨[],by simp only [vfmatchFrom,hx,hd,List.append_nil]⟩
      | ok u k =>
        rw [used_ok] at hb
        rcases ih (fun e he => hf e (by simp [he])) (nextCase cs d) (n+k) (r.drop k) with ⟨ws,hws⟩
        refine ⟨ws,?_⟩
        simp only [vfmatchFrom,hx,hd]
        rw [List.drop_append_of_le_length hb,hws,List.append_assoc]

@[simp] theorem storeChunkSize_append (p : HttpParser) (m : Match) (x : List UInt8) :
    storeChunkSize (p.append x) m = (storeChunkSize p m).append x := by
  unfold storeChunkSize
  split <;> rfl

/-- A size that was stored before its line was complete makes no difference later. -/
theorem storeChunkSize_again (p : HttpParser) (r x : List UInt8) :
    storeChunkSize (storeChunkSize p (scannerMatch chunkFmt r)) (scannerMatch chunkFmt (r++x)) =
      storeChunkSize p (scannerMatch chunkFmt (r++x)) := by
  rcases vfmatchFrom_vals_append chunkFmt_incremental true 0 r x with ⟨vs,hvs⟩
  change (scannerMatch chunkFmt (r++x)).vals = (scannerMatch chunkFmt r).vals++vs at hvs
  cases hm : (scannerMatch chunkFmt r).intAt 0 with
  | none =>
    have hp : storeChunkSize p (scannerMatch chunkFmt r) = p := by simp only [storeChunkSize,hm]
    rw [hp]
  | some k =>
    have hx : (scannerMatch chunkFmt (r++x)).intAt 0 = some k := by
      unfold Match.intAt at hm ⊢
      rw [hvs]
      cases hl : (scannerMatch chunkFmt r).vals with
      | nil => simp [hl] at hm
      | cons v ws => simpa [hl] using hm
    simp only [storeChunkSize,hm,hx,storeInt_storeInt]

@[simp] theorem beginChunk_append (p : HttpParser) (x : List UInt8) :
    beginChunk (p.append x) = (beginChunk p).append x := by
  by_cases h : p.chunkSize = 0 <;>
    simp [beginChunk,HttpParser.append,HttpParser.setEntity,h]

theorem parserParseChunkyEntity_append {p : HttpParser} (h : p.cursor ≤ p.msg.msg.length)
    (x : List UInt8) :
    (waitsForMore (parserParseChunkyEntity p).1 = true →
      parserParseChunkyEntity ((parserParseChunkyEntity p).2.append x) =
        parserParseChunkyEntity (p.append x)) ∧
    (waitsForMore (parserParseChunkyEntity p).1 = false → parserParseChunkyEntity (p.append x) =
        ((parserParseChunkyEntity p).1,(parserParseChunkyEntity p).2.append x)) := by
  have hrest := HttpParser.rest_append h x
  generalize hq : storeChunkSize p (scannerMatch chunkFmt p.rest) = q
  have hqm : q.msg = p.msg := by rw [← hq,storeChunkSize_msg]
  have hqc : q.cursor = p.cursor := by rw [← hq,storeChunkSize_cursor]
  by_cases hm : (scannerMatch chunkFmt p.rest).status = .ok
  · have hs := scannerMatch_stable chunkFmt_incremental (by rw [hm]; decide) x
    have hv : parserParseChunkyEntity p = (.continue1,beginChunk
        ((q.advance (scannerMatch chunkFmt p.rest).used).deleteTo q.cursor)) := by
      simp [parserParseChunkyEntity,hq,hm]
    rw [hv]
    refine ⟨(by rintro ⟨⟩),fun _ => ?_⟩
    have hu := scannerMatch_used_le chunkFmt p.rest
    rw [HttpParser.rest_length] at hu
    have hle : (q.advance (scannerMatch chunkFmt p.rest).used).cursor ≤
        (q.advance (scannerMatch chunkFmt p.rest).used).msg.msg.length := by
      simp only [HttpParser.advance,hqm,hqc]
      omega
    have hd := HttpParser.deleteTo_append hle
      (show q.cursor ≤ q.msg.msg.length by rw [hqm,hqc]; exact h) x
    simp only [parserParseChunkyEntity,hrest,hs,hm,ne_eq,not_true_eq_false,if_false,
      storeChunkSize_append,hq,HttpParser.advance_append,HttpParser.append_cursor,
      ← beginChunk_append]
    exact congrArg (fun r => (ParseStatus.continue1,beginChunk r)) hd
  · have hv : parserParseChunkyEntity p = ((scannerMatch chunkFmt p.rest).status,q) := by
      simp [parserParseChunkyEntity,hq,hm]
    rw [hv]
    constructor
    · intro _
      have hqrest : (q.append x).rest = p.rest++x := by
        rw [HttpParser.rest_append (by rw [hqm,hqc]; exact h)]
        simp only [HttpParser.rest,hqm,hqc]
      have hagain : storeChunkSize (q.append x) (scannerMatch chunkFmt (p.rest++x)) =
          storeChunkSize (p.append x) (scannerMatch chunkFmt (p.rest++x)) := by
        rw [storeChunkSize_append,storeChunkSize_append,← hq,storeChunkSize_again]
      simp only [parserParseChunkyEntity,hrest,hqrest,hagain]
    · intro hw
      have hs := scannerMatch_stable chunkFmt_incremental (r := p.rest)
        (by rintro hi; rw [hi] at hw; cases hw) x
      simp [parserParseChunkyEntity,hrest,hs,hm,hq]

/-! The entity loop. -/

theorem status_ne_continue (st : StopStatus) : st.status ≠ .continue1 := by
  cases st <;> decide

theorem parserParseChunkyEntity_rest {p : HttpParser}
    (h : (parserParseChunkyEntity p).1 = .continue1) :
    (parserParseChunkyEntity p).2.rest.length < p.rest.length ∧
      (parserParseChunkyEntity p).2.entPosition ≠ .determineReadMethod := by
  rcases scannerMatch_status chunkFmt p.rest with hm | ⟨st,hm⟩
  · have hpos : 0 < (scannerMatch chunkFmt p.rest).used := scannerMatch_used_pos rfl hm
    have hu := scannerMatch_used_le chunkFmt p.rest
    generalize hq : (storeChunkSize p (scannerMatch chunkFmt p.rest)).advance
      (scannerMatch chunkFmt p.rest).used = q
    have hv : parserParseChunkyEntity p = (.continue1,beginChunk (q.deleteTo p.cursor)) := by
      simp [parserParseChunkyEntity,hm,hq]
    have hqm : q.msg = p.msg := by rw [← hq]; simp [HttpParser.advance]
    have hqc : q.cursor = p.cursor+(scannerMatch chunkFmt p.rest).used := by
      rw [← hq]
      simp [HttpParser.advance]
    rw [HttpParser.rest_length] at hu
    have hr : (beginChunk (q.deleteTo p.cursor)).rest = q.rest := by
      rw [← HttpParser.deleteTo_rest q p.cursor (by rw [hqm]; omega)]
      unfold beginChunk
      split <;> rfl
    rw [hv]
    constructor
    · rw [hr,HttpParser.rest_length,HttpParser.rest_length,hqm,hqc]
      omega
    · unfold beginChunk
      split <;> rintro ⟨⟩
  · simp only [parserParseChunkyEntity,hm,if_pos (status_ne_ok st)] at h
    exact absurd h (status_ne_continue st)

theorem parserParseChunkyBody_rest {p : HttpParser}
    (h : (parserParseChunkyBody p).1 = .continue1) :
    (parserParseChunkyBody p).2.rest.length < p.rest.length ∧
      (parserParseChunkyBody p).2.entPosition ≠ .determineReadMethod := by
  by_cases hsz : p.chunkSize ≤ p.msg.msg.length-p.cursor
  · rcases scannerMatch_status crlfFmt (p.advance p.chunkSize).rest with hm | ⟨st,hm⟩
    · have hpos : 0 < (scannerMatch crlfFmt (p.advance p.chunkSize).rest).used :=
        scannerMatch_used_pos rfl hm
      have hu := scannerMatch_used_le crlfFmt (p.advance p.chunkSize).rest
      have hv : parserParseChunkyBody p = (.continue1,endChunk
          (((p.advance p.chunkSize).advance
            (scannerMatch crlfFmt (p.advance p.chunkSize).rest).used).deleteTo
              (p.advance p.chunkSize).cursor)) := by
        simp only [parserParseChunkyBody,if_pos hsz,ne_eq,hm,not_true_eq_false,if_false]
      rw [hv]
      refine ⟨?_,(by rintro ⟨⟩)⟩
      rw [HttpParser.rest_length] at hu
      generalize hn : (scannerMatch crlfFmt (p.advance p.chunkSize).rest).used = n at hu hpos
      have hle : p.cursor+p.chunkSize+n ≤ p.msg.msg.length := by
        simp only [HttpParser.advance] at hu
        omega
      have hr := HttpParser.deleteTo_rest ((p.advance p.chunkSize).advance n)
        (p.advance p.chunkSize).cursor (by simp only [HttpParser.advance]; omega)
      have he : ∀ q : HttpParser, (endChunk q).rest = q.rest := fun _ => rfl
      rw [he,hr,HttpParser.rest_length,HttpParser.rest_length]
      simp only [HttpParser.advance]
      omega
    · simp only [parserParseChunkyBody,if_pos hsz,hm,if_pos (status_ne_ok st)] at h
      exact absurd h (status_ne_continue st)
  · simp [parserParseChunkyBody,hsz] at h

/-- What the statuses of the header loop say of the position. -/
structure HeaderStatus (pos : ParserPos) (r : ParseStatus × HttpParser) : Prop where
  not_continue : r.1 ≠ .continue1
  not_entity : r.1 ≠ .incompleteEntity
  waiting : r.1 = .incomplete → r.2.position = pos
  done : r.1 = .ok → r.2.position = .entity

theorem headerStatus_stop (st : StopStatus) (p : HttpParser) :
    HeaderStatus p.position (st.status,p) := by
  refine ⟨status_ne_continue st,?_,fun _ => rfl,fun h => absurd h (status_ne_ok st)⟩
  show st.status ≠ .incompleteEntity
  cases st <;> decide

theorem headerRound_status {p : HttpParser} {r : ParseStatus × HttpParser}
    (h : headerRound p = .inr r) : HeaderStatus p.position r := by
  rcases headerRound_cases p with
    ⟨st,n,-,he⟩ | ⟨t,n,-,⟨-,he⟩ | ⟨-,hm,he⟩ | ⟨-,-,he⟩ | ⟨-,-,he⟩⟩ <;> rw [he] at h <;> cases h
  · exact headerStatus_stop st p
  · unfold endHeaders
    split
    · exact ⟨(by rintro ⟨⟩),(by rintro ⟨⟩),(by rintro ⟨⟩),(by rintro ⟨⟩)⟩
    · exact ⟨(by rintro ⟨⟩),(by rintro ⟨⟩),(by rintro ⟨⟩),fun _ => rfl⟩
  · rcases scannerMatch_status headerFmt (p.advance n).rest with hok | ⟨st,hst⟩
    · exact absurd hok hm
    · rw [hst]
      exact headerStatus_stop st p
  · exact ⟨(by rintro ⟨⟩),(by rintro ⟨⟩),(by rintro ⟨⟩),(by rintro ⟨⟩)⟩

theorem headerRound_position {p q : HttpParser} (h : headerRound p = .inl q) :
    q.position = p.position := by
  rcases headerRound_cases p with
    ⟨st,n,-,he⟩ | ⟨t,n,-,⟨-,he⟩ | ⟨-,-,he⟩ | ⟨-,-,he⟩ | ⟨-,-,he⟩⟩ <;> rw [he] at h <;> cases h
  rfl

theorem parserParseHeaders_status (p : HttpParser) :
    HeaderStatus p.position (parserParseHeaders p) :=
  Loop.run_induction headerRound_descends (e := fun q : HttpParser => (ParseStatus.failure,q))
    (P := fun p r => HeaderStatus p.position r) (fun _ _ h => headerRound_status h)
    (fun _ _ h ih => headerRound_position h ▸ ih) p

theorem parserParseChunkyHeaders_eq (p : HttpParser) :
    parserParseChunkyHeaders p =
      if (parserParseHeaders p).1 = .ok then
        (.success,endTrailers ((parserParseHeaders p).2.deleteTo p.cursor))
      else parserParseHeaders p := by
  rcases hh : parserParseHeaders p with ⟨st,q⟩
  cases st <;> simp only [parserParseChunkyHeaders,hh] <;> simp

theorem parserParseChunkyHeaders_status (p : HttpParser) :
    (parserParseChunkyHeaders p).1 ≠ .continue1 ∧ (parserParseChunkyHeaders p).1 ≠ .ok := by
  rw [parserParseChunkyHeaders_eq]
  split
  · exact ⟨(by rintro ⟨⟩),(by rintro ⟨⟩)⟩
  · rename_i h
    exact ⟨(parserParseHeaders_status p).not_continue,h⟩

theorem parserGetEntityReadMethod_rest (p : HttpParser) :
    (parserGetEntityReadMethod p).2.rest = p.rest ∧
      ((parserGetEntityReadMethod p).1 = .continue1 →
        (parserGetEntityReadMethod p).2.entPosition ≠ .determineReadMethod) := by
  have hx : readMethod { p.msg with entity := ⟨p.cursor,0⟩ } = readMethod p.msg := rfl
  cases hr : readMethod p.msg <;>
    simp only [parserGetEntityReadMethod,HttpParser.setEntity,hx,hr]
  · exact ⟨rfl,(by rintro ⟨⟩)⟩
  · exact ⟨rfl,(by rintro - ⟨⟩)⟩
  · exact ⟨rfl,(by rintro - ⟨⟩)⟩
  · exact ⟨rfl,(by rintro ⟨⟩)⟩
  · exact ⟨rfl,(by rintro - ⟨⟩)⟩

theorem entityStep_descends :
    Loop.Descends entityMeasure (Loop.doWhile (· == .continue1) entityStep) := by
  intro p t ht
  rcases Loop.doWhile_inl ht with ⟨ha,rfl⟩
  rw [beq_iff_eq] at ha
  cases hp : p.entPosition with
  | usingClen =>
    simp only [entityStep,hp,parserParseEntityUsingClen] at ha
    split at ha <;> cases ha
  | usingChunked =>
    simp only [entityStep,hp] at ha ⊢
    have hr := parserParseChunkyEntity_rest ha
    simp only [entityMeasure,hr.2,hp]
    simpa using hr.1
  | chunkyBody =>
    simp only [entityStep,hp] at ha ⊢
    have hr := parserParseChunkyBody_rest ha
    simp only [entityMeasure,hr.2,hp]
    simpa using hr.1
  | chunkyHeaders =>
    simp only [entityStep,hp] at ha
    exact absurd ha (parserParseChunkyHeaders_status p).1
  | untilClose =>
    simp only [entityStep,hp,parserParseEntityUntilClose] at ha
    cases ha
  | determineReadMethod =>
    simp only [entityStep,hp] at ha ⊢
    have hr := parserGetEntityReadMethod_rest p
    simp only [entityMeasure,hr.1,hr.2 ha,hp,if_true,if_false]
    omega

theorem entityBytes_deleteTo {l : List UInt8} {start len pos c : ℕ} (h : start+len ≤ pos)
    (hpos : pos ≤ l.length) :
    ((l.take pos++l.drop c).drop start).take len = (l.drop start).take len := by
  rw [List.drop_append_of_le_length (by rw [List.length_take]; omega),
    List.take_append_of_le_length (by rw [List.length_drop,List.length_take]; omega),
    List.drop_take,List.take_take]
  congr 1
  omega

theorem endTrailers_view {p : HttpParser} {pos : ℕ}
    (h : p.entityStartPosition+p.msg.entity.length ≤ pos) (hpos : pos ≤ p.msg.msg.length) :
    (endTrailers (p.deleteTo pos)).messageView =
      { p.messageView with entityBytes :=
          (p.msg.msg.drop p.entityStartPosition).take p.msg.entity.length } := by
  simp only [HttpParser.messageView,HttpParser.view,endTrailers,HttpParser.setEntity,HttpParser.deleteTo,
    entityBytes_deleteTo h hpos]

theorem doWhile_chunkyHeaders {p : HttpParser} (hp : p.entPosition = .chunkyHeaders) :
    Loop.doWhile (· == .continue1) entityStep p = .inr (parserParseChunkyHeaders p) := by
  have hne := (parserParseChunkyHeaders_status p).1
  simp [Loop.doWhile,entityStep,hp,beq_eq_false_iff_ne.mpr hne]

/-- Trailers that came in pieces leave the lines read before in the buffer; the entity
lies in front of them. -/
theorem entityRound_chunkyHeaders {p : HttpParser} (h : Framed p)
    (hp : p.entPosition = .chunkyHeaders) : EntityRound p := by
  have hf := parserParseHeaders_frame h.cursor_le
  have hx := exactFor_parserParseHeaders h.cursor_le
  have hentity : p.entityStartPosition+p.msg.entity.length ≤ p.cursor := h.entity_le hp
  have hbuf : p.msg.entity.buf = p.entityStartPosition := h.buf_eq (by rw [hp]; rintro ⟨⟩)
  have hge := hf.cursor_ge
  have hle := hf.cursor_le
  constructor
  · intro t ht
    rw [doWhile_chunkyHeaders hp] at ht
    cases ht
  · intro r hr hw x
    rw [doWhile_chunkyHeaders hp] at hr
    cases hr
    refine ⟨_,doWhile_chunkyHeaders (p := p.append x) hp,?_⟩
    rw [parserParseChunkyHeaders_eq] at hw ⊢
    rw [parserParseChunkyHeaders_eq p]
    by_cases hok : (parserParseHeaders p).1 = .ok
    · have hxp := hx.final (by rw [hok]; rfl) x
      have hd := HttpParser.deleteTo_append hle (show p.cursor ≤ _ by omega) x
      rw [hxp,if_pos hok,if_pos hok]
      refine Eq.trans (congrArg (fun q => observeMessage (ParseStatus.success,endTrailers q)) hd) ?_
      refine observe_append (r := (.success,endTrailers _)) (fun _ => ?_) x
      simp [endTrailers,HttpParser.setEntity,HttpParser.deleteTo,hf.entity,hf.start]
      omega
    · rw [if_neg hok] at hw
      have hxp := hx.final hw x
      rw [hxp,if_neg hok,if_neg hok]
      refine observe_append (r := parserParseHeaders p) (fun _ => ?_) x
      rw [hf.entity,hbuf]
      omega
  · intro r hr hw x
    right
    rw [doWhile_chunkyHeaders hp] at hr
    cases hr
    have hne : (parserParseHeaders p).1 ≠ .ok := by
      intro hok
      rw [parserParseChunkyHeaders_eq,if_pos hok] at hw
      cases hw
    rw [parserParseChunkyHeaders_eq,if_neg hne] at hw ⊢
    have hxp := hx.resume hw x
    generalize hq : (parserParseHeaders p).2 = q at *
    have hqp : q.entPosition = .chunkyHeaders := hf.entPosition.trans hp
    refine ⟨_,_,doWhile_chunkyHeaders (p := q.append x) hqp,
      doWhile_chunkyHeaders (p := p.append x) hp,?_⟩
    have hu := parserParseHeaders_frame (p := p.append x) (h.append x).cursor_le
    have hu' := parserParseHeaders_frame (p := q.append x) (by
      simp only [HttpParser.append_msg,HttpParser.append_cursor,List.length_append]
      omega)
    rw [parserParseChunkyHeaders_eq,parserParseChunkyHeaders_eq,hxp]
    rw [hxp] at hu'
    split
    · have hs : ∀ pos, p.cursor ≤ pos → pos ≤ (parserParseHeaders (p.append x)).2.cursor →
          (endTrailers ((parserParseHeaders (p.append x)).2.deleteTo pos)).messageView = _ :=
        fun pos h₁ h₂ => endTrailers_view (by
          rw [hu.start,hu.entity]
          exact Nat.le_trans hentity h₁) (Nat.le_trans h₂ hu.cursor_le)
      simp only [observeMessage,HttpParser.append_cursor]
      rw [hs _ hge hu'.cursor_ge,hs _ (Nat.le_refl _) hu.cursor_ge]
    · rfl

theorem doWhile_inr_of_ne {p : HttpParser} {f : HttpParser → ParseStatus × HttpParser}
    (hf : entityStep p = f p) (hne : (f p).1 ≠ .continue1) :
    Loop.doWhile (· == .continue1) entityStep p = .inr (f p) := by
  simp [Loop.doWhile,hf,beq_eq_false_iff_ne.mpr hne]

@[simp] theorem entityBytes_set (l : List UInt8) (start len : ℕ) (c : UInt8) :
    ((l.set (start+len) c).drop start).take len = (l.drop start).take len := by
  rw [List.drop_set,if_neg (by omega),List.take_set,Nat.add_sub_cancel_left,
    List.set_eq_of_length_le]
  rw [List.length_take]
  omega

theorem usingClen_observe {p : HttpParser} (hd : p.msg.amountDiscarded = 0)
    (hlen : ¬p.msg.msg.length-p.entityStartPosition < p.contentLength) :
    observeMessage (parserParseEntityUsingClen p) =
      (.success,some { p.messageView with
        entityLength := p.contentLength
        entityBytes := (p.msg.msg.drop p.entityStartPosition).take p.contentLength }) := by
  simp only [parserParseEntityUsingClen,hd,Nat.add_zero,Nat.sub_zero,if_neg hlen,observeMessage,
    true_or,if_true,HttpParser.messageView,HttpParser.view,Prod.mk.injEq,Option.some.injEq,
    MessageView.mk.injEq,ResponseView.mk.injEq,true_and,and_true]
  split
  · exact entityBytes_set _ _ _ _
  · rfl

/-- With a length the entity is the bytes that follow its start, whatever else has come. -/
theorem entityRound_usingClen {p : HttpParser} (h : Framed p)
    (hp : p.entPosition = .usingClen) : EntityRound p := by
  have hne : ∀ q : HttpParser, (parserParseEntityUsingClen q).1 ≠ .continue1 := by
    intro q
    simp only [parserParseEntityUsingClen]
    split <;> rintro ⟨⟩
  have hstep : ∀ q : HttpParser, q.entPosition = .usingClen →
      Loop.doWhile (· == .continue1) entityStep q = .inr (parserParseEntityUsingClen q) :=
    fun q hq => doWhile_inr_of_ne (by simp only [entityStep,hq]) (hne q)
  have hstart : p.entityStartPosition ≤ p.msg.msg.length :=
    Nat.le_trans (h.start_le (by rw [hp]; rintro ⟨⟩)) h.cursor_le
  have hdisc := h.discarded
  constructor
  · intro t ht
    rw [hstep p hp] at ht
    cases ht
  · intro r hr hw x
    rw [hstep p hp] at hr
    cases hr
    refine ⟨_,hstep (p.append x) hp,?_⟩
    by_cases hlen : p.msg.msg.length-p.entityStartPosition < p.contentLength
    · simp only [parserParseEntityUsingClen,hdisc,Nat.add_zero,if_pos hlen] at hw
      cases hw
    · have hlenx : ¬(p.append x).msg.msg.length-(p.append x).entityStartPosition <
          (p.append x).contentLength := by
        simp only [HttpParser.append,List.length_append]
        omega
      rw [usingClen_observe hdisc hlen,usingClen_observe (p := p.append x) hdisc hlenx]
      simp only [HttpParser.messageView,HttpParser.view,HttpParser.append]
      rw [List.drop_append_of_le_length hstart,List.take_append_of_le_length]
      rw [List.length_drop]
      omega
  · intro r hr hw x
    left
    rw [hstep p hp] at hr
    cases hr
    by_cases hlen : p.msg.msg.length-p.entityStartPosition < p.contentLength
    · have hv : parserParseEntityUsingClen p = (.incomplete,p.setEntity
          { p.msg.entity with length := p.msg.msg.length-p.entityStartPosition }) := by
        simp only [parserParseEntityUsingClen,hdisc,Nat.add_zero,if_pos hlen]
      rw [hv,hstep (p.append x) hp]
      exact hstep ((p.setEntity _).append x) hp
    · simp only [parserParseEntityUsingClen,hdisc,Nat.add_zero,if_neg hlen] at hw
      cases hw

theorem parserGetEntityReadMethod_success {p : HttpParser}
    (h : (parserGetEntityReadMethod p).1 = .success) :
    (parserGetEntityReadMethod p).2.msg.entity = ⟨p.cursor,0⟩ ∧
      (parserGetEntityReadMethod p).2.msg.msg = p.msg.msg := by
  have hx : readMethod { p.msg with entity := ⟨p.cursor,0⟩ } = readMethod p.msg := rfl
  cases hr : readMethod p.msg <;>
    simp only [parserGetEntityReadMethod,HttpParser.setEntity,hx,hr] at h ⊢
  · exact ⟨trivial,trivial⟩
  all_goals cases h

theorem parserParseChunkyEntity_status (p : HttpParser) :
    (parserParseChunkyEntity p).1 ≠ .success ∧ (parserParseChunkyEntity p).1 ≠ .ok := by
  rcases scannerMatch_status chunkFmt p.rest with hm | ⟨st,hm⟩
  · simp only [parserParseChunkyEntity,hm]
    exact ⟨(by rintro ⟨⟩),(by rintro ⟨⟩)⟩
  · simp only [parserParseChunkyEntity,hm,if_pos (status_ne_ok st)]
    cases st <;> exact ⟨(by rintro ⟨⟩),(by rintro ⟨⟩)⟩

theorem parserParseChunkyEntity_waiting {p : HttpParser}
    (h : waitsForMore (parserParseChunkyEntity p).1 = true) :
    (parserParseChunkyEntity p).2 = storeChunkSize p (scannerMatch chunkFmt p.rest) := by
  rcases scannerMatch_status chunkFmt p.rest with hm | ⟨st,hm⟩
  · simp only [parserParseChunkyEntity,hm] at h
    cases h
  · simp only [parserParseChunkyEntity,hm,if_pos (status_ne_ok st)]

theorem parserParseChunkyBody_status (p : HttpParser) :
    (parserParseChunkyBody p).1 ≠ .success ∧ (parserParseChunkyBody p).1 ≠ .ok := by
  by_cases hsz : p.chunkSize ≤ p.msg.msg.length-p.cursor
  · rcases scannerMatch_status crlfFmt (p.advance p.chunkSize).rest with hm | ⟨st,hm⟩
    · simp only [parserParseChunkyBody,if_pos hsz,hm]
      exact ⟨(by rintro ⟨⟩),(by rintro ⟨⟩)⟩
    · simp only [parserParseChunkyBody,if_pos hsz,hm,if_pos (status_ne_ok st)]
      cases st <;> exact ⟨(by rintro ⟨⟩),(by rintro ⟨⟩)⟩
  · simp only [parserParseChunkyBody,if_neg hsz]
    exact ⟨(by rintro ⟨⟩),(by rintro ⟨⟩)⟩

theorem entityRound {p : HttpParser} (h : Framed p) : EntityRound p := by
  have hc := h.cursor_le
  cases hp : p.entPosition with
  | usingClen => exact entityRound_usingClen h hp
  | chunkyHeaders => exact entityRound_chunkyHeaders h hp
  | usingChunked =>
    have hv : ∀ q : HttpParser, q.entPosition = .usingChunked →
        entityStep q = parserParseChunkyEntity q := fun q hq => by simp only [entityStep,hq]
    apply entityRound_of_exact
    · constructor
      · intro hw x
        rw [hv p hp] at hw ⊢
        rw [hv (p.append x) hp]
        exact (parserParseChunkyEntity_append hc x).2 hw
      · intro hw x
        rw [hv p hp] at hw ⊢
        have hq : ((parserParseChunkyEntity p).2.append x).entPosition = .usingChunked := by
          rw [HttpParser.append_entPosition,parserParseChunkyEntity_waiting hw,
            storeChunkSize_entPosition,hp]
        rw [hv _ hq,hv (p.append x) hp]
        exact (parserParseChunkyEntity_append hc x).1 hw
    · intro hs
      rw [hv p hp] at hs
      exact absurd hs (parserParseChunkyEntity_status p).1
  | chunkyBody =>
    have hv : ∀ q : HttpParser, q.entPosition = .chunkyBody →
        entityStep q = parserParseChunkyBody q := fun q hq => by simp only [entityStep,hq]
    apply entityRound_of_exact
    · constructor
      · intro hw x
        rw [hv p hp] at hw ⊢
        rw [hv (p.append x) hp]
        exact (parserParseChunkyBody_append hc x).2 hw
      · intro hw x
        rw [hv p hp] at hw ⊢
        rw [(parserParseChunkyBody_append hc x).1 hw]
    · intro hs
      rw [hv p hp] at hs
      exact absurd hs (parserParseChunkyBody_status p).1
  | untilClose =>
    have hv : ∀ q : HttpParser, q.entPosition = .untilClose →
        entityStep q = parserParseEntityUntilClose q := fun q hq => by simp only [entityStep,hq]
    apply entityRound_of_exact
    · constructor
      · intro hw x
        rw [hv p hp] at hw
        cases hw
      · intro hw x
        rw [hv p hp,hv (p.append x) hp]
        exact hv _ hp
    · intro hs
      rw [hv p hp] at hs
      cases hs
  | determineReadMethod =>
    have hv : ∀ q : HttpParser, q.entPosition = .determineReadMethod →
        entityStep q = parserGetEntityReadMethod q := fun q hq => by simp only [entityStep,hq]
    apply entityRound_of_exact
    · constructor
      · intro _ x
        rw [hv p hp,hv (p.append x) hp]
        exact (parserGetEntityReadMethod_append p x).2
      · intro hw
        rw [hv p hp,(parserGetEntityReadMethod_append p []).1] at hw
        cases hw
    · rw [hv p hp]
      intro hs
      rw [(parserGetEntityReadMethod_success hs).1,(parserGetEntityReadMethod_success hs).2]
      exact hc

theorem deleteTo_length {p : HttpParser} {pos : ℕ} (h : pos ≤ p.msg.msg.length) :
    pos ≤ (p.deleteTo pos).msg.msg.length := by
  simp only [HttpParser.deleteTo,List.length_append,List.length_take]
  omega

theorem Framed.advance {p : HttpParser} (h : Framed p) {n : ℕ}
    (hn : p.cursor+n ≤ p.msg.msg.length) : Framed (p.advance n) :=
  ⟨hn,h.discarded,fun hp => Nat.le_trans (h.start_le hp) (Nat.le_add_right _ _),h.buf_eq,
    fun hp => Nat.le_trans (h.entity_le hp) (Nat.le_add_right _ _)⟩

/-- Framing bytes at the cursor are taken out of the buffer. -/
theorem Framed.deleteTo {p : HttpParser} (h : Framed p) (n : ℕ) :
    Framed ((p.advance n).deleteTo p.cursor) :=
  ⟨deleteTo_length h.cursor_le,h.discarded,h.start_le,h.buf_eq,h.entity_le⟩

theorem storeChunkSize_framed {p : HttpParser} (h : Framed p) (m : Match) :
    Framed (storeChunkSize p m) := by
  unfold storeChunkSize
  split <;> exact ⟨h.cursor_le,h.discarded,h.start_le,h.buf_eq,h.entity_le⟩

theorem beginChunk_framed {p : HttpParser} (h : Framed p)
    (hp : p.entPosition = .usingChunked) : Framed (beginChunk p) := by
  have hs := h.start_le (by rw [hp]; rintro ⟨⟩)
  have hb := h.buf_eq (by rw [hp]; rintro ⟨⟩)
  have hd := h.discarded
  unfold beginChunk
  split
  · refine ⟨h.cursor_le,hd,fun _ => hs,fun _ => hb,fun _ => ?_⟩
    simp only [HttpParser.setEntity,hd]
    omega
  · exact ⟨h.cursor_le,hd,fun _ => hs,fun _ => hb,(by rintro ⟨⟩)⟩

theorem parserParseChunkyEntity_framed {p : HttpParser} (h : Framed p)
    (hp : p.entPosition = .usingChunked) :
    Framed (parserParseChunkyEntity p).2 ∧
      (parserParseChunkyEntity p).2.position = p.position := by
  have hq := storeChunkSize_framed h (scannerMatch chunkFmt p.rest)
  have hqp : (storeChunkSize p (scannerMatch chunkFmt p.rest)).position = p.position := by
    unfold storeChunkSize
    split <;> rfl
  rcases scannerMatch_status chunkFmt p.rest with hm | ⟨st,hm⟩
  · generalize hqe : storeChunkSize p (scannerMatch chunkFmt p.rest) = q at hq hqp
    have hv : parserParseChunkyEntity p = (.continue1,beginChunk
        ((q.advance (scannerMatch chunkFmt p.rest).used).deleteTo q.cursor)) := by
      simp [parserParseChunkyEntity,hm,hqe]
    have hqn : q.entPosition = .usingChunked := by rw [← hqe,storeChunkSize_entPosition,hp]
    have hb : ∀ r : HttpParser, (beginChunk r).position = r.position := by
      intro r
      unfold beginChunk
      split <;> rfl
    rw [hv]
    exact ⟨beginChunk_framed (hq.deleteTo _) hqn,(hb _).trans hqp⟩
  · have hv : parserParseChunkyEntity p =
        (st.status,storeChunkSize p (scannerMatch chunkFmt p.rest)) := by
      simp only [parserParseChunkyEntity,hm,if_pos (status_ne_ok st)]
    rw [hv]
    exact ⟨hq,hqp⟩

theorem parserParseChunkyBody_framed {p : HttpParser} (h : Framed p)
    (hp : p.entPosition = .chunkyBody) :
    Framed (parserParseChunkyBody p).2 ∧ (parserParseChunkyBody p).2.position = p.position := by
  by_cases hsz : p.chunkSize ≤ p.msg.msg.length-p.cursor
  · rcases scannerMatch_status crlfFmt (p.advance p.chunkSize).rest with hm | ⟨st,hm⟩
    · simp only [parserParseChunkyBody,if_pos hsz,hm,ne_eq,not_true_eq_false,if_false]
      have hc := h.cursor_le
      have hq := (h.advance (n := p.chunkSize) (by omega)).deleteTo
        (scannerMatch crlfFmt (p.advance p.chunkSize).rest).used
      have hne : p.entPosition ≠ .determineReadMethod := by rw [hp]; rintro ⟨⟩
      exact ⟨⟨hq.cursor_le,h.discarded,fun _ => hq.start_le hne,fun _ => h.buf_eq hne,(by rintro ⟨⟩)⟩,rfl⟩
    · simp only [parserParseChunkyBody,if_pos hsz,hm,if_pos (status_ne_ok st)]
      exact ⟨h,trivial⟩
  · simp only [parserParseChunkyBody,if_neg hsz]
    exact ⟨h,trivial⟩

theorem parserGetEntityReadMethod_framed {p : HttpParser} (h : Framed p)
    (hw : (parserGetEntityReadMethod p).1 = .continue1) :
    Framed (parserGetEntityReadMethod p).2 ∧
      (parserGetEntityReadMethod p).2.position = p.position := by
  have hx : readMethod { p.msg with entity := ⟨p.cursor,0⟩ } = readMethod p.msg := rfl
  cases hr : readMethod p.msg <;>
    simp only [parserGetEntityReadMethod,HttpParser.setEntity,hx,hr] at hw ⊢
  · cases hw
  · exact ⟨⟨h.cursor_le,h.discarded,fun _ => Nat.le_refl _,fun _ => rfl,(by rintro ⟨⟩)⟩,trivial⟩
  · exact ⟨⟨h.cursor_le,h.discarded,fun _ => Nat.le_refl _,fun _ => rfl,(by rintro ⟨⟩)⟩,trivial⟩
  · cases hw
  · exact ⟨⟨h.cursor_le,h.discarded,fun _ => Nat.le_refl _,fun _ => rfl,(by rintro ⟨⟩)⟩,trivial⟩

theorem entityStep_framed {p : HttpParser} (h : Framed p)
    (hw : (entityStep p).1 = .continue1 ∨ waitsForMore (entityStep p).1 = true) :
    Framed (entityStep p).2 ∧ (entityStep p).2.position = p.position := by
  have hstart := h.start_le
  have hbuf := h.buf_eq
  cases hp : p.entPosition with
  | usingClen =>
    simp only [entityStep,hp,parserParseEntityUsingClen] at hw ⊢
    split at hw
    · rename_i hlen
      rw [if_pos hlen]
      refine ⟨⟨h.cursor_le,h.discarded,h.start_le,h.buf_eq,fun hc => ?_⟩,rfl⟩
      have hc' : p.entPosition = .chunkyHeaders := hc
      rw [hp] at hc'
      cases hc'
    · rcases hw with hw | hw <;> cases hw
  | usingChunked =>
    simp only [entityStep,hp] at hw ⊢
    exact parserParseChunkyEntity_framed h hp
  | chunkyBody =>
    simp only [entityStep,hp] at hw ⊢
    exact parserParseChunkyBody_framed h hp
  | chunkyHeaders =>
    simp only [entityStep,hp] at hw ⊢
    have hf := parserParseHeaders_frame h.cursor_le
    have hst := parserParseHeaders_status p
    have hge := hf.cursor_ge
    rw [parserParseChunkyHeaders_eq] at hw ⊢
    by_cases hok : (parserParseHeaders p).1 = .ok
    · rw [if_pos hok] at hw
      rcases hw with hw | hw <;> cases hw
    · rw [if_neg hok] at hw ⊢
      have hinc : (parserParseHeaders p).1 = .incomplete := by
        rcases hw with hw | hw
        · exact absurd hw hst.not_continue
        · exact incomplete_of_waits hw hst.not_entity
      refine ⟨⟨hf.cursor_le,hf.discarded.trans h.discarded,?_,?_,?_⟩,hst.waiting hinc⟩
      · intro hne
        rw [hf.entPosition] at hne
        rw [hf.start]
        exact Nat.le_trans (hstart hne) hge
      · intro hne
        rw [hf.entPosition] at hne
        rw [hf.entity,hf.start]
        exact hbuf hne
      · intro _
        rw [hf.entity,hf.start]
        exact Nat.le_trans (h.entity_le hp) hge
  | untilClose =>
    simp only [entityStep,hp]
    refine ⟨⟨Nat.le_refl _,h.discarded,fun _ => ?_,fun _ => rfl,fun hc => ?_⟩,rfl⟩
    · exact Nat.le_trans (hstart (by rw [hp]; rintro ⟨⟩)) h.cursor_le
    · have hc' : p.entPosition = .chunkyHeaders := hc
      rw [hp] at hc'
      cases hc'
  | determineReadMethod =>
    simp only [entityStep,hp] at hw ⊢
    rw [(parserGetEntityReadMethod_append p []).1] at hw
    exact parserGetEntityReadMethod_framed h (hw.resolve_right (by decide))

/-! The whole parser. -/

/-- The entity loop as a machine of its own. -/
theorem parserParseEntity_resumable :
    Resumable ⟨HttpParser.append,parserParseEntity,waitsForMore⟩
      (fun p => Framed p ∧ p.position = .entity) observeMessage := by
  apply resumable_of_rounds entityStep_descends
  · intro p x y
    exact HttpParser.append_append p x y
  · rintro p x ⟨h,hp⟩
    exact ⟨h.append x,hp⟩
  · rintro p t ⟨h,hp⟩ ht
    rcases Loop.doWhile_inl ht with ⟨ha,rfl⟩
    have hs := entityStep_framed h (.inl (beq_iff_eq.mp ha))
    exact ⟨hs.1,hs.2.trans hp⟩
  · rintro p r ⟨h,hp⟩ hr hw
    rcases Loop.doWhile_inr hr with ⟨-,rfl⟩
    have hs := entityStep_framed h (.inr hw)
    exact ⟨hs.1,hs.2.trans hp⟩
  · rintro p ⟨h,-⟩
    exact entityRound h

theorem entityStep_status (p : HttpParser) : (entityStep p).1 ≠ .ok := by
  cases hp : p.entPosition <;> simp only [entityStep,hp]
  · have hx : readMethod { p.msg with entity := ⟨p.cursor,0⟩ } = readMethod p.msg := rfl
    cases hr : readMethod p.msg <;>
      simp only [parserGetEntityReadMethod,HttpParser.setEntity,hx,hr] <;> rintro ⟨⟩
  · simp only [parserParseEntityUsingClen]
    split <;> rintro ⟨⟩
  · exact (parserParseChunkyEntity_status p).2
  · rintro ⟨⟩
  · exact (parserParseChunkyBody_status p).2
  · exact (parserParseChunkyHeaders_status p).2

theorem parserParseEntity_status (p : HttpParser) : (parserParseEntity p).1 ≠ .ok := by
  refine Loop.run_induction entityStep_descends (e := fun q : HttpParser => (ParseStatus.failure,q))
    (P := fun _ r => r.1 ≠ .ok) ?_ (fun _ _ _ ih => ih) p
  intro p r hr
  rcases Loop.doWhile_inr hr with ⟨-,rfl⟩
  exact entityStep_status p

theorem parserParseEntity_again {p : HttpParser} (h : (entityStep p).1 = .continue1) :
    parserParseEntity p = parserParseEntity (entityStep p).2 := by
  apply Loop.run_inl entityStep_descends
  simp [Loop.doWhile,h]

theorem parserParseEntity_done {p : HttpParser} (h : (entityStep p).1 ≠ .continue1) :
    parserParseEntity p = entityStep p := by
  apply Loop.run_inr
  simp [Loop.doWhile,h]

theorem endHeaders_success {p : HttpParser} (h : (endHeaders p).1 = .success) :
    (endHeaders p).2.position = .complete := by
  unfold endHeaders at h ⊢
  split
  · rfl
  · rename_i hne
    rw [if_neg hne] at h
    cases h

theorem headerRound_success {p : HttpParser} {r : ParseStatus × HttpParser}
    (hr : headerRound p = .inr r) (h : r.1 = .success) : r.2.position = .complete := by
  have hstop : ∀ st : StopStatus, st.status ≠ .success := by
    rintro (_ | _ | _) <;> rintro ⟨⟩
  rcases headerRound_cases p with ⟨st,n,-,he⟩ | ⟨t,n,-,he⟩
  · rw [hr,Sum.inr.injEq] at he
    rw [he] at h
    exact absurd h (hstop st)
  · rcases he with ⟨-,he⟩ | ⟨-,hm,he⟩ | ⟨-,-,he⟩ | ⟨-,-,he⟩ <;> rw [hr] at he
    · rw [Sum.inr.injEq] at he
      rw [he] at h ⊢
      exact endHeaders_success h
    · rw [Sum.inr.injEq] at he
      rw [he] at h
      rcases scannerMatch_status headerFmt (p.advance n).rest with hs | ⟨st,hs⟩
      · exact absurd hs hm
      · exact absurd (hs.symm.trans h) (hstop st)
    · cases he
    · rw [Sum.inr.injEq] at he
      rw [he] at h
      cases h

theorem parserParseHeaders_success {p : HttpParser} (h : (parserParseHeaders p).1 = .success) :
    (parserParseHeaders p).2.position = .complete := by
  revert h
  refine Loop.run_induction headerRound_descends (e := fun q : HttpParser => (ParseStatus.failure,q))
    (P := fun _ r => r.1 = .success → r.2.position = .complete) ?_ ?_ p
  · intro p r hr h
    exact headerRound_success hr h
  · intro p q _ ih
    exact ih

/-- How the entity functions leave a message that is complete. -/
theorem entityStep_success {p : HttpParser} (hf : Framed p) (h : (entityStep p).1 = .success) :
    (entityStep p).2.position = .complete ∧
      (entityStep p).2.msg.entity.buf = (entityStep p).2.entityStartPosition := by
  cases he : p.entPosition with
  | usingClen =>
    simp only [entityStep,he,parserParseEntityUsingClen] at h ⊢
    split at h
    · cases h
    · rename_i hlt
      rw [if_neg hlt]
      exact ⟨rfl,rfl⟩
  | usingChunked =>
    simp only [entityStep,he] at h
    exact absurd h (parserParseChunkyEntity_status p).1
  | chunkyBody =>
    simp only [entityStep,he] at h
    exact absurd h (parserParseChunkyBody_status p).1
  | chunkyHeaders =>
    simp only [entityStep,he] at h ⊢
    rw [parserParseChunkyHeaders_eq] at h ⊢
    split
    · exact ⟨rfl,rfl⟩
    · rename_i hne
      rw [if_neg hne] at h
      have hh := parserParseHeaders_frame hf.cursor_le
      refine ⟨parserParseHeaders_success h,?_⟩
      rw [hh.entity,hh.start]
      apply hf.buf_eq
      rw [he]
      rintro ⟨⟩
  | untilClose =>
    simp only [entityStep,he] at h
    cases h
  | determineReadMethod =>
    have hx : readMethod (p.setEntity ⟨p.cursor,0⟩).msg = readMethod p.msg := rfl
    simp only [entityStep,he] at h ⊢
    cases hr : readMethod p.msg <;> simp only [parserGetEntityReadMethod,hx,hr] at h ⊢
    · exact ⟨trivial,rfl⟩
    all_goals cases h

theorem parserParseEntity_success {p : HttpParser} (hf : Framed p)
    (h : (parserParseEntity p).1 = .success) :
    (parserParseEntity p).2.position = .complete ∧
      (parserParseEntity p).2.msg.entity.buf = (parserParseEntity p).2.entityStartPosition := by
  revert hf h
  refine Loop.run_induction entityStep_descends (e := fun q : HttpParser => (ParseStatus.failure,q))
    (P := fun p r => Framed p → r.1 = .success →
      r.2.position = .complete ∧ r.2.msg.entity.buf = r.2.entityStartPosition) ?_ ?_ p
  · intro p r hr hf h
    rcases Loop.doWhile_inr hr with ⟨-,rfl⟩
    exact entityStep_success hf h
  · intro p q hq ih hf h
    rcases Loop.doWhile_inl hq with ⟨ha,rfl⟩
    exact ih (entityStep_framed hf (.inl (beq_iff_eq.mp ha))).1 h
theorem statusLine_frame (p : HttpParser) (line text : List UInt8)
    (h : p.cursor ≤ p.msg.msg.length) : HeaderFrame p (statusLine p line text).2 := by
  simp only [statusLine]
  split
  · exact ⟨rfl,rfl,rfl,rfl,rfl,rfl,rfl,rfl,Nat.le_refl _,h⟩
  · split <;> exact ⟨rfl,rfl,rfl,rfl,rfl,rfl,rfl,rfl,Nat.le_refl _,h⟩

theorem responseLine_frame {p : HttpParser} (h : p.cursor ≤ p.msg.msg.length) :
    HeaderFrame p (responseLine p).2 := by
  simp only [responseLine]
  split
  · exact HeaderFrame.refl h
  · have ha := HeaderFrame.advance h (scannerMatch_used_le responseLineFmt p.rest)
    exact ha.trans (statusLine_frame _ _ _ ha.cursor_le)

theorem requestLine_frame (res : Resolver) {p : HttpParser} (h : p.cursor ≤ p.msg.msg.length) :
    HeaderFrame p (requestLine res p).2 := by
  have hs := HeaderFrame.advance h (scannerMatch_used_le simpleGetFmt p.rest)
  have hm := HeaderFrame.advance h (scannerMatch_used_le requestLineFmt p.rest)
  simp only [requestLine]
  split
  · split
    · exact ⟨rfl,rfl,rfl,rfl,rfl,rfl,rfl,rfl,hs.cursor_ge,hs.cursor_le⟩
    · split
      · exact ⟨rfl,rfl,rfl,rfl,rfl,rfl,rfl,rfl,hs.cursor_ge,hs.cursor_le⟩
      · split <;> exact ⟨rfl,rfl,rfl,rfl,rfl,rfl,rfl,rfl,hs.cursor_ge,hs.cursor_le⟩
  · split
    · exact HeaderFrame.refl h
    · split
      · exact ⟨rfl,rfl,rfl,rfl,rfl,rfl,rfl,rfl,hm.cursor_ge,hm.cursor_le⟩
      · split
        · exact ⟨rfl,rfl,rfl,rfl,rfl,rfl,rfl,rfl,hm.cursor_ge,hm.cursor_le⟩
        · split <;> exact ⟨rfl,rfl,rfl,rfl,rfl,rfl,rfl,rfl,hm.cursor_ge,hm.cursor_le⟩

theorem afterBlankLines_frame {line : HttpParser → ParseStatus × HttpParser}
    (hline : ∀ q : HttpParser, q.cursor ≤ q.msg.msg.length → HeaderFrame q (line q).2)
    {p : HttpParser} (h : p.cursor ≤ p.msg.msg.length) :
    HeaderFrame p (afterBlankLines line p).2 := by
  have hb := skipBlankLines_bounded false p.rest
  unfold afterBlankLines
  cases hs : skipBlankLines false p.rest with
  | stop st n =>
    rw [hs] at hb
    exact HeaderFrame.advance h hb
  | ok u n =>
    rw [hs] at hb
    have ha := HeaderFrame.advance h hb
    exact ha.trans (hline _ ha.cursor_le)

theorem parserParseResponseline_frame {p : HttpParser} (h : p.cursor ≤ p.msg.msg.length) :
    HeaderFrame p (parserParseResponseline p).2 :=
  afterBlankLines_frame (fun _ hq => responseLine_frame hq) h

theorem parserParseRequestline_frame (res : Resolver) {p : HttpParser}
    (h : p.cursor ≤ p.msg.msg.length) : HeaderFrame p (parserParseRequestline res p).2 :=
  afterBlankLines_frame (fun _ hq => requestLine_frame res hq) h

/-- Where a start line leaves the parser. -/
structure LineStatus (pos : ParserPos) (r : ParseStatus × HttpParser) : Prop where
  waiting : waitsForMore r.1 = true → r.2.position = pos
  done : r.1 = .ok → r.2.position = .headers

theorem afterBlankLines_status {line : HttpParser → ParseStatus × HttpParser}
    (hline : ∀ p, LineStatus p.position (line p)) (p : HttpParser) :
    LineStatus p.position (afterBlankLines line p) := by
  unfold afterBlankLines
  cases skipBlankLines false p.rest with
  | stop st n => exact ⟨fun _ => rfl,fun h => absurd h (status_ne_ok st)⟩
  | ok u n => exact hline (p.advance n)

theorem responseLine_status (p : HttpParser) : LineStatus p.position (responseLine p) := by
  simp only [responseLine]
  split
  · rename_i hm
    exact ⟨fun _ => rfl,fun h => absurd h hm⟩
  · refine ⟨fun h => ?_,fun h => ?_⟩
    · rw [statusLine_status] at h
      cases h
    · revert h
      simp only [statusLine]
      split
      · rintro ⟨⟩
      · split
        · exact fun _ => rfl
        · rintro ⟨⟩

/-- What a request line answers: it is refused, it is a simple GET, the full format is read, or the
full format stops and nothing is changed. -/
theorem requestLine_answers (res : Resolver) (p : HttpParser) :
    (requestLine res p).1 = .failure ∨ (requestLine res p).1 = .success ∨
      ((scannerMatch requestLineFmt p.rest).status = .ok ∧ (requestLine res p).1 = .ok ∧
        (requestLine res p).2.position = .headers) ∨
      ∃ st : StopStatus, requestLine res p = (st.status,p) := by
  simp only [requestLine]
  split
  · split
    · exact .inl rfl
    · split
      · exact .inl rfl
      · split
        · exact .inl rfl
        · exact .inr (.inl rfl)
  · rcases scannerMatch_status requestLineFmt p.rest with hm | ⟨st,hm⟩
    · simp only [hm,ne_eq,not_true_eq_false,if_false]
      split
      · exact .inl rfl
      · split
        · exact .inl rfl
        · split
          · exact .inl rfl
          · exact .inr (.inr (.inl ⟨trivial,rfl,rfl⟩))
    · rw [if_pos (by rw [hm]; exact status_ne_ok st),hm]
      exact .inr (.inr (.inr ⟨st,rfl⟩))

theorem requestLine_status (res : Resolver) (p : HttpParser) :
    LineStatus p.position (requestLine res p) := by
  rcases requestLine_answers res p with h | h | ⟨-,h,hpos⟩ | ⟨st,h⟩
  · exact ⟨fun hw => (by rw [h] at hw; cases hw),fun hok => (by rw [h] at hok; cases hok)⟩
  · exact ⟨fun hw => (by rw [h] at hw; cases hw),fun hok => (by rw [h] at hok; cases hok)⟩
  · exact ⟨fun hw => (by rw [h] at hw; cases hw),fun _ => hpos⟩
  · rw [h]
    exact ⟨fun _ => rfl,fun hok => absurd hok (status_ne_ok st)⟩

theorem parserStep_descends (res : Resolver) :
    Loop.Descends positionMeasure (Loop.doWhile (· == .ok) (parserStep res)) := by
  intro p t ht
  rcases Loop.doWhile_inl ht with ⟨ha,rfl⟩
  rw [beq_iff_eq] at ha
  cases hp : p.position with
  | requestLine =>
    simp only [parserStep,hp] at ha ⊢
    have hs := (afterBlankLines_status (requestLine_status res) p).done ha
    simp only [positionMeasure,parserParseRequestline,hs,hp]
    decide
  | responseLine =>
    simp only [parserStep,hp] at ha ⊢
    have hs := (afterBlankLines_status responseLine_status p).done ha
    simp only [positionMeasure,parserParseResponseline,hs,hp]
    decide
  | headers =>
    simp only [parserStep,hp] at ha ⊢
    have hs := (parserParseHeaders_status p).done ha
    simp only [positionMeasure,hs,hp]
    decide
  | entity =>
    simp only [parserStep,hp] at ha
    exact absurd ha (parserParseEntity_status p)
  | complete =>
    simp only [parserStep,hp] at ha
    cases ha

theorem parserParse_again {res : Resolver} {p : HttpParser} (h : (parserStep res p).1 = .ok) :
    parserParse res p = parserParse res (parserStep res p).2 := by
  apply Loop.run_inl (parserStep_descends res)
  simp [Loop.doWhile,h]

theorem parserParse_done {res : Resolver} {p : HttpParser} (h : (parserStep res p).1 ≠ .ok) :
    parserParse res p = parserStep res p := by
  apply Loop.run_inr
  simp [Loop.doWhile,h]

/-- What holds of a parser between its rounds, whatever it reads. -/
structure Parsing (p : HttpParser) : Prop where
  framed : Framed p
  fresh : p.position = .requestLine ∨ p.position = .responseLine ∨ p.position = .headers →
    p.msg.entity = ⟨0,0⟩

/-- What holds of a response parser between calls. -/
structure Responding (p : HttpParser) : Prop where
  framed : Framed p
  position : p.position ≠ .requestLine
  fresh : p.position = .responseLine ∨ p.position = .headers → p.msg.entity = ⟨0,0⟩

theorem Responding.parsing {p : HttpParser} (h : Responding p) : Parsing p :=
  ⟨h.framed,fun hp => h.fresh (hp.resolve_left h.position)⟩

theorem Parsing.responding {p : HttpParser} (h : Parsing p) (hp : p.position ≠ .requestLine) :
    Responding p := ⟨h.framed,hp,fun hf => h.fresh (.inr hf)⟩

theorem Parsing.append {p : HttpParser} (h : Parsing p) (x : List UInt8) : Parsing (p.append x) :=
  ⟨h.framed.append x,h.fresh⟩

theorem HeaderFrame.framed {p q : HttpParser} (h : HeaderFrame p q) (hp : Framed p) :
    Framed q := by
  refine ⟨h.cursor_le,h.discarded.trans hp.discarded,?_,?_,?_⟩
  · intro hne
    rw [h.entPosition] at hne
    rw [h.start]
    exact Nat.le_trans (hp.start_le hne) h.cursor_ge
  · intro hne
    rw [h.entPosition] at hne
    rw [h.entity,h.start]
    exact hp.buf_eq hne
  · intro he
    rw [h.entPosition] at he
    rw [h.entity,h.start]
    exact Nat.le_trans (hp.entity_le he) h.cursor_ge

/-- A round that goes on or waits; it stays at the request line only while it waits. -/
theorem parserStep_parsing {res : Resolver} {p : HttpParser} (h : Parsing p)
    (hw : (parserStep res p).1 = .ok ∨ waitsForMore (parserStep res p).1 = true) :
    Parsing (parserStep res p).2 ∧
      ((parserStep res p).2.position = .requestLine → p.position = .requestLine) := by
  have hc := h.framed.cursor_le
  have hline : ∀ {r : ParseStatus × HttpParser}, HeaderFrame p r.2 → p.msg.entity = ⟨0,0⟩ →
      (r.1 = .ok → r.2.position ≠ .requestLine) →
      (waitsForMore r.1 = true → r.2.position = p.position) →
      (r.1 = .ok ∨ waitsForMore r.1 = true) →
      Parsing r.2 ∧ (r.2.position = .requestLine → p.position = .requestLine) := by
    intro r hf he hdone hwait hw
    refine ⟨⟨hf.framed h.framed,fun _ => hf.entity.trans he⟩,fun hpos => ?_⟩
    rcases hw with hw | hw
    · exact absurd hpos (hdone hw)
    · rw [← hwait hw]
      exact hpos
  have hstart : ∀ {r : ParseStatus × HttpParser}, LineStatus p.position r →
      r.1 = .ok → r.2.position ≠ .requestLine := by
    intro r hl hok
    rw [hl.done hok]
    rintro ⟨⟩
  cases hp : p.position with
  | requestLine =>
    simp only [parserStep,hp] at hw ⊢
    have hl := afterBlankLines_status (requestLine_status res) p
    have hr := hline (parserParseRequestline_frame res hc) (h.fresh (.inl hp)) (hstart hl)
      hl.waiting hw
    exact ⟨hr.1,fun _ => trivial⟩
  | responseLine =>
    simp only [parserStep,hp] at hw ⊢
    have hl := afterBlankLines_status responseLine_status p
    have hr := hline (parserParseResponseline_frame hc) (h.fresh (.inr (.inl hp))) (hstart hl)
      hl.waiting hw
    rwa [hp] at hr
  | headers =>
    simp only [parserStep,hp] at hw ⊢
    have hs := parserParseHeaders_status p
    have hr := hline (parserParseHeaders_frame hc) (h.fresh (.inr (.inr hp)))
      (fun hok => by rw [hs.done hok]; rintro ⟨⟩)
      (fun hwt => hs.waiting (incomplete_of_waits hwt hs.not_entity)) hw
    rwa [hp] at hr
  | entity =>
    simp only [parserStep,hp] at hw ⊢
    have hw' := hw.resolve_left (parserParseEntity_status p)
    have hk := parserParseEntity_resumable.keep_process p ⟨h.framed,hp⟩ hw'
    have hpos : (parserParseEntity p).2.position = .entity := hk.2
    refine ⟨⟨hk.1,?_⟩,?_⟩
    · rw [show (parserParseEntity p).2.position = _ from hpos]
      rintro (h | h | h) <;> cases h
    · rw [hpos]
      rintro ⟨⟩
  | complete =>
    simp only [parserStep,hp] at hw
    rcases hw with hw | hw <;> cases hw

theorem parserStep_responding {res : Resolver} {p : HttpParser} (h : Responding p)
    (hw : (parserStep res p).1 = .ok ∨ waitsForMore (parserStep res p).1 = true) :
    Responding (parserStep res p).2 :=
  have hs := parserStep_parsing h.parsing hw
  hs.1.responding fun hp => h.position (hs.2 hp)

/-- A position whose function is exact and leaves the parser there when it waits. -/
theorem parserRound_of_exact {res : Resolver} {p : HttpParser}
    {f : HttpParser → ParseStatus × HttpParser} {x : List UInt8}
    (h : ExactOn HttpParser.append waitsForMore f p x)
    (hf : ∀ q : HttpParser, q.position = p.position → parserStep res q = f q)
    (hpos : waitsForMore (f p).1 = true → (f p).2.position = p.position)
    (hs : (f p).1 = .success → (f p).2.msg.entity.buf+(f p).2.msg.entity.length ≤
      (f p).2.msg.msg.length) :
    RoundOn HttpParser.append waitsForMore (fun _ => observeMessage)
      (Loop.doWhile (· == .ok) (parserStep res)) p x := by
  have hp := hf p rfl
  have hx : parserStep res (p.append x) = f (p.append x) := hf _ rfl
  apply ExactOn.round
  · constructor
    · intro hw
      rw [hp] at hw ⊢
      rw [hx]
      exact h.final hw
    · intro hw
      rw [hp] at hw ⊢
      rw [hx,hf ((f p).2.append x) (hpos hw)]
      exact h.resume hw
  · intro i hi
    rw [beq_iff_eq] at hi
    rw [hi]
    rfl
  · intro _ hw
    rw [hp] at hw ⊢
    apply observe_append
    rintro (he | he)
    · exact hs he
    · rw [he] at hw
      cases hw

theorem responseLine_not_success (p : HttpParser) :
    (parserParseResponseline p).1 ≠ .success := by
  unfold parserParseResponseline afterBlankLines
  cases skipBlankLines false p.rest with
  | stop st n => cases st <;> rintro ⟨⟩
  | ok u n =>
    simp only [responseLine]
    rcases scannerMatch_status responseLineFmt (p.advance n).rest with hm | ⟨st,hm⟩
    · simp only [hm,ne_eq,not_true_eq_false,if_false,statusLine]
      split
      · rintro ⟨⟩
      · split <;> rintro ⟨⟩
    · simp only [hm,if_pos (status_ne_ok st)]
      cases st <;> rintro ⟨⟩

/-- A round of the parser, if the request line can be resumed when it is what is read. -/
theorem parserRoundOn (res : Resolver) {p : HttpParser} {x : List UInt8} (h : Parsing p)
    (hreq : p.position = .requestLine →
      ExactOn HttpParser.append waitsForMore (parserParseRequestline res) p x) :
    RoundOn HttpParser.append waitsForMore (fun _ => observeMessage)
      (Loop.doWhile (· == .ok) (parserStep res)) p x := by
  have hc := h.framed.cursor_le
  cases hp : p.position with
  | requestLine =>
    apply parserRound_of_exact (hreq hp)
    · intro q hq
      simp only [parserStep,hq,hp]
    · exact (afterBlankLines_status (requestLine_status res) p).waiting
    · intro _
      rw [(parserParseRequestline_frame res hc).entity,h.fresh (.inl hp)]
      exact Nat.zero_le _
  | responseLine =>
    apply parserRound_of_exact (f := parserParseResponseline)
    · refine (exactFor_afterBlankLines hc fun n hn => ?_).on x
      have hb := skipBlankLines_bounded false p.rest
      rw [hn] at hb
      exact responseLine_exact (HeaderFrame.advance hc hb).cursor_le
    · intro q hq
      simp only [parserStep,hq,hp]
    · exact (afterBlankLines_status responseLine_status p).waiting
    · intro hs
      exact absurd hs (responseLine_not_success p)
  | headers =>
    apply parserRound_of_exact ((exactFor_parserParseHeaders hc).on x)
    · intro q hq
      simp only [parserStep,hq,hp]
    · intro hw
      have hs := parserParseHeaders_status p
      exact hs.waiting (incomplete_of_waits hw hs.not_entity)
    · intro _
      rw [(parserParseHeaders_frame hc).entity,h.fresh (.inr (.inr hp))]
      exact Nat.zero_le _
  | entity =>
    have hr := parserParseEntity_resumable
    have hv : ∀ q : HttpParser, q.position = .entity →
        Loop.doWhile (· == .ok) (parserStep res) q = .inr (parserParseEntity q) := by
      intro q hq
      simp [Loop.doWhile,parserStep,hq,beq_eq_false_iff_ne.mpr (parserParseEntity_status q)]
    constructor
    · intro t ht
      rw [hv p hp] at ht
      cases ht
    · intro r ht hw
      rw [hv p hp] at ht
      cases ht
      exact ⟨_,hv (p.append x) hp,hr.final p x ⟨h.framed,hp⟩ hw⟩
    · intro r ht hw
      rw [hv p hp] at ht
      cases ht
      right
      have hk := hr.keep_process p ⟨h.framed,hp⟩ hw
      exact ⟨_,_,hv (HttpParser.append _ x) hk.2,hv (p.append x) hp,
        hr.resume p x ⟨h.framed,hp⟩ hw⟩
  | complete =>
    apply parserRound_of_exact (f := fun q => (.failure,q))
    · exact ⟨fun _ => rfl,(by rintro ⟨⟩)⟩
    · intro q hq
      simp only [parserStep,hq,hp]
    · rintro ⟨⟩
    · rintro ⟨⟩

theorem parserRound (res : Resolver) {p : HttpParser} (h : Responding p) :
    RoundAt HttpParser.append waitsForMore (fun _ => observeMessage)
      (Loop.doWhile (· == .ok) (parserStep res)) p :=
  .of_on fun _ => parserRoundOn res h.parsing fun hp => absurd hp h.position

theorem parserParse_resumable (res : Resolver) :
    Resumable ⟨HttpParser.append,parserParse res,waitsForMore⟩ Responding observeMessage := by
  apply resumable_of_rounds (parserStep_descends res)
  · intro p x y
    exact HttpParser.append_append p x y
  · intro p x h
    exact ⟨h.framed.append x,h.position,h.fresh⟩
  · intro p t h ht
    rcases Loop.doWhile_inl ht with ⟨ha,rfl⟩
    exact parserStep_responding h (.inl (beq_iff_eq.mp ha))
  · intro p r h hr hw
    rcases Loop.doWhile_inr hr with ⟨-,rfl⟩
    exact parserStep_responding h (.inr hw)
  · intro p h
    exact parserRound res h

theorem parserResponseInit_responding (method : HttpMethod) :
    Responding (parserResponseInit method) :=
  ⟨⟨Nat.le_refl _,rfl,fun h => absurd rfl h,fun h => absurd rfl h,(by rintro ⟨⟩)⟩,(by rintro ⟨⟩),fun _ => rfl⟩

/-- Append the pieces in order, up to the first status that does not ask for more. -/
def feedParser (res : Resolver) (p : HttpParser) : List (List UInt8) → ParseStatus × HttpParser
  | [] => parserParse res p
  | [x] => parserAppend res p x
  | x::y::xs =>
    let r := parserAppend res p x
    if waitsForMore r.1 then feedParser res r.2 (y::xs) else r

theorem feedParser_eq_feed (res : Resolver) (xs : List (List UInt8)) (p : HttpParser) :
    feedParser res p xs = feed ⟨HttpParser.append,parserParse res,waitsForMore⟩ p xs := by
  induction xs generalizing p with
  | nil => rfl
  | cons x xs ih =>
    cases xs with
    | nil => rfl
    | cons y xs =>
      simp only [feedParser,feed,ih]
      rfl

/-- A response is read alike however its bytes are cut into pieces. -/
theorem parserAppend_fragmentation (res : Resolver) (method : HttpMethod)
    (xs ys : List (List UInt8)) (hx : xs ≠ []) (hy : ys ≠ []) (h : xs.flatten = ys.flatten) :
    observe (feedParser res (parserResponseInit method) xs) =
      observe (feedParser res (parserResponseInit method) ys) := by
  rw [observe_eq,observe_eq,feedParser_eq_feed,feedParser_eq_feed]
  rw [(parserParse_resumable res).feed_congr hx hy h _ (parserResponseInit_responding method)]

theorem parserAppend_fragmentation_cut :
    observe (feedParser Resolver.empty (parserResponseInit .get)
        [cstr "HTTP/1.1 200 OK\r\nContent-Length: 3\r",cstr "\n\r\nab",cstr "c"]) =
      observe (feedParser Resolver.empty (parserResponseInit .get)
        [cstr "HTTP/1.1 200 OK\r\nContent-Length: 3\r\n\r\nabc"]) :=
  parserAppend_fragmentation Resolver.empty .get _ _ (by decide) (by decide) (by decide)

example : (feedParser Resolver.empty (parserResponseInit .get)
    [cstr "HTTP/1.1 200 OK\r\nContent-Length: 3\r",cstr "\n\r\nab",cstr "c"]).1 = .success := by
  decide

end Http
end CtrlPt
