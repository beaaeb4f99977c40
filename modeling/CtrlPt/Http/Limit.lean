import CtrlPt.Http.Post

/-! `g_maxContentLength`: which messages `http_RecvMessage` holds to the limit. The bytes of
the head decide how the body is framed, however they are cut into reads. -/
namespace CtrlPt
namespace Http

open CText Uri Resume

/-- The bytes `s` begin with the head of a message, and `p` is the parser behind it. -/
structure HeadRead (res : Resolver) (p₀ : HttpParser) (s : List UInt8) (p : HttpParser) : Prop where
  line : (parserStep res (p₀.append s)).1 = .ok
  headers : parserStep res (parserStep res (p₀.append s)).2 = (.ok,p)

/-- The head does not say how long the body is. -/
def lengthUnannounced (m : HttpMessage) : Prop :=
  readMethod m = .chunked ∨ readMethod m = .untilClose

/-- A message that is received is not longer than `g_maxContentLength`. -/
def Limited (res : Resolver) (maxContentLength : ℕ) (method : HttpMethod) (sock : SockInfo) : Prop :=
  let r := httpRecvMessage res maxContentLength method sock
  r.code = upnpESuccess → r.parser.msg.entity.length ≤ maxContentLength

theorem afterBlankLines_plain {line : HttpParser → ParseStatus × HttpParser}
    (hline : ∀ p, (line p).1 ≠ .incompleteEntity ∧ (line p).1 ≠ .continue1) (p : HttpParser) :
    (afterBlankLines line p).1 ≠ .incompleteEntity ∧ (afterBlankLines line p).1 ≠ .continue1 := by
  unfold afterBlankLines
  cases skipBlankLines false p.rest with
  | stop st n => cases st <;> exact ⟨(by rintro ⟨⟩),(by rintro ⟨⟩)⟩
  | ok u n => exact hline (p.advance n)

theorem responseLine_plain (p : HttpParser) :
    (responseLine p).1 ≠ .incompleteEntity ∧ (responseLine p).1 ≠ .continue1 := by
  simp only [responseLine]
  rcases scannerMatch_status responseLineFmt p.rest with hm | ⟨st,hm⟩
  · simp only [hm,ne_eq,not_true_eq_false,if_false,statusLine]
    split
    · exact ⟨(by rintro ⟨⟩),(by rintro ⟨⟩)⟩
    · split <;> exact ⟨(by rintro ⟨⟩),(by rintro ⟨⟩)⟩
  · simp only [hm,if_pos (status_ne_ok st)]
    cases st <;> exact ⟨(by rintro ⟨⟩),(by rintro ⟨⟩)⟩

theorem requestLine_plain (res : Resolver) (p : HttpParser) :
    (requestLine res p).1 ≠ .incompleteEntity ∧ (requestLine res p).1 ≠ .continue1 := by
  rcases requestLine_answers res p with h | h | ⟨-,h,-⟩ | ⟨st,h⟩
  · rw [h]
    exact ⟨(by rintro ⟨⟩),(by rintro ⟨⟩)⟩
  · rw [h]
    exact ⟨(by rintro ⟨⟩),(by rintro ⟨⟩)⟩
  · rw [h]
    exact ⟨(by rintro ⟨⟩),(by rintro ⟨⟩)⟩
  · rw [h]
    cases st <;> exact ⟨(by rintro ⟨⟩),(by rintro ⟨⟩)⟩

/-- The parser is in front of the entity or in its head. -/
structure Heading (p : HttpParser) : Prop where
  parsing : Parsing p
  position : p.position = .requestLine ∨ p.position = .responseLine ∨ p.position = .headers
  entPosition : p.entPosition = .determineReadMethod
  contentLength : p.contentLength = 0
  chunkSize : p.chunkSize = 0

theorem recvInit_heading (method : HttpMethod) : Heading (recvInit method) := by
  unfold recvInit
  split
  · exact ⟨parserRequestInit_parsing,.inl rfl,rfl,rfl,rfl⟩
  · exact ⟨(parserResponseInit_responding method).parsing,.inr (.inl rfl),rfl,rfl,rfl⟩

theorem Heading.append {p : HttpParser} (h : Heading p) (x : List UInt8) : Heading (p.append x) :=
  ⟨h.parsing.append x,h.position,h.entPosition,h.contentLength,h.chunkSize⟩

/-- What a step does in the head of a message. -/
structure HeadStep (res : Resolver) (p : HttpParser) : Prop where
  frame : HeaderFrame p (parserStep res p).2
  not_entity : (parserStep res p).1 ≠ .incompleteEntity
  not_continue : (parserStep res p).1 ≠ .continue1
  waiting : waitsForMore (parserStep res p).1 = true → (parserStep res p).2.position = p.position
  done : (parserStep res p).1 = .ok → (parserStep res p).2.position = .headers ∨
    p.position = .headers ∧ (parserStep res p).2.position = .entity

theorem Heading.step {p : HttpParser} (h : Heading p) (res : Resolver) : HeadStep res p := by
  have hc := h.parsing.framed.cursor_le
  rcases h.position with hp | hp | hp
  · have hv : parserStep res p = parserParseRequestline res p := by simp only [parserStep,hp]
    have hs := afterBlankLines_status (requestLine_status res) p
    have hn := afterBlankLines_plain (requestLine_plain res) p
    constructor <;> rw [hv]
    · exact parserParseRequestline_frame res hc
    · exact hn.1
    · exact hn.2
    · exact hs.waiting
    · exact fun hok => .inl (hs.done hok)
  · have hv : parserStep res p = parserParseResponseline p := by simp only [parserStep,hp]
    have hs := afterBlankLines_status responseLine_status p
    have hn := afterBlankLines_plain responseLine_plain p
    constructor <;> rw [hv]
    · exact parserParseResponseline_frame hc
    · exact hn.1
    · exact hn.2
    · exact hs.waiting
    · exact fun hok => .inl (hs.done hok)
  · have hv : parserStep res p = parserParseHeaders p := by simp only [parserStep,hp]
    have hs := parserParseHeaders_status p
    constructor <;> rw [hv]
    · exact parserParseHeaders_frame hc
    · exact hs.not_entity
    · exact hs.not_continue
    · exact fun hw => hs.waiting (incomplete_of_waits hw hs.not_entity)
    · exact fun hok => .inr ⟨hp,hs.done hok⟩

/-- A step in the head that is done or waits can be resumed. -/
theorem Heading.exact {p : HttpParser} (h : Heading p) {res : Resolver}
    (hw : (parserStep res p).1 = .ok ∨ waitsForMore (parserStep res p).1 = true) (x : List UInt8) :
    ExactOn HttpParser.append waitsForMore (parserStep res) p x := by
  have hc := h.parsing.framed.cursor_le
  have hkeep := (h.step res).waiting
  have hlift : ∀ f : HttpParser → ParseStatus × HttpParser,
      (∀ q : HttpParser, q.position = p.position → parserStep res q = f q) →
      ExactOn HttpParser.append waitsForMore f p x →
      ExactOn HttpParser.append waitsForMore (parserStep res) p x := by
    intro f hf hx
    have hp := hf p rfl
    have hpx : parserStep res (p.append x) = f (p.append x) := hf (p.append x) rfl
    constructor
    · intro hfin
      rw [hpx,hp]
      exact hx.final (hp ▸ hfin)
    · intro hwait
      rw [hpx,hf ((parserStep res p).2.append x) (hkeep hwait),hp]
      exact hx.resume (hp ▸ hwait)
  rcases h.position with hp | hp | hp
  · refine hlift (parserParseRequestline res) (fun q hq => by simp only [parserStep,hq,hp]) ?_
    simp only [parserStep,hp] at hw
    exact parserParseRequestline_exact res hc hw x
  · refine hlift parserParseResponseline (fun q hq => by simp only [parserStep,hq,hp]) ?_
    refine (exactFor_afterBlankLines hc fun n hn => ?_).on x
    have hb := skipBlankLines_bounded false p.rest
    rw [hn] at hb
    exact responseLine_exact (HeaderFrame.advance hc hb).cursor_le
  · refine hlift parserParseHeaders (fun q hq => by simp only [parserStep,hq,hp]) ?_
    exact (exactFor_parserParseHeaders hc).on x

theorem Heading.next {p : HttpParser} (h : Heading p) {res : Resolver}
    (hw : (parserStep res p).1 = .ok ∨ waitsForMore (parserStep res p).1 = true)
    (hp : (parserStep res p).2.position ≠ .entity) : Heading (parserStep res p).2 := by
  have hs := h.step res
  refine ⟨(parserStep_parsing h.parsing hw).1,?_,hs.frame.entPosition.trans h.entPosition,
    hs.frame.contentLength.trans h.contentLength,hs.frame.chunkSize.trans h.chunkSize⟩
  rcases hw with hw | hw
  · rcases hs.done hw with hd | ⟨-,hd⟩
    · exact .inr (.inr hd)
    · exact absurd hd hp
  · rw [hs.waiting hw]
    exact h.position

theorem HeadRead.between {res : Resolver} {p₀ p : HttpParser} {s : List UInt8}
    (h : HeadRead res p₀ s p) (h₀ : Heading p₀) :
    Heading (parserStep res (p₀.append s)).2 ∧
      (parserStep res (p₀.append s)).2.position = .headers := by
  have hpos : (parserStep res (p₀.append s)).2.position = .headers := by
    rcases ((h₀.append s).step res).done h.line with hd | ⟨-,hd⟩
    · exact hd
    · have hh := h.headers
      rw [parserStep_entity res hd] at hh
      exact absurd (congrArg Prod.fst hh) (parserParseEntity_status _)
  refine ⟨(h₀.append s).next (.inl h.line) ?_,hpos⟩
  rw [hpos]
  rintro ⟨⟩

/-- The parser behind the head. -/
structure Behind (p : HttpParser) : Prop where
  framed : Framed p
  position : p.position = .entity
  entPosition : p.entPosition = .determineReadMethod
  contentLength : p.contentLength = 0
  chunkSize : p.chunkSize = 0

theorem Heading.behind {p : HttpParser} (h : Heading p) (res : Resolver)
    (hp : p.position = .headers) (hok : (parserStep res p).1 = .ok) :
    Behind (parserStep res p).2 := by
  have hs := h.step res
  refine ⟨(parserStep_parsing h.parsing (.inl hok)).1.framed,?_,
    hs.frame.entPosition.trans h.entPosition,hs.frame.contentLength.trans h.contentLength,
    hs.frame.chunkSize.trans h.chunkSize⟩
  simp only [parserStep,hp] at hok ⊢
  exact (parserParseHeaders_status p).done hok

theorem HeadRead.behind {res : Resolver} {p₀ p : HttpParser} {s : List UInt8}
    (h : HeadRead res p₀ s p) (h₀ : Heading p₀) : Behind p := by
  have hb := h.between h₀
  have hh := h.headers
  have hbe := hb.1.behind res hb.2 (by rw [hh])
  rwa [hh] at hbe

theorem HeadRead.append {res : Resolver} {p₀ p : HttpParser} {s : List UInt8}
    (h : HeadRead res p₀ s p) (h₀ : Heading p₀) (x : List UInt8) :
    HeadRead res p₀ (s++x) (p.append x) := by
  have hl := ((h₀.append s).exact (.inl h.line) x).final (by rw [h.line]; rfl)
  rw [HttpParser.append_append] at hl
  have hh := ((h.between h₀).1.exact (.inl (by rw [h.headers])) x).final (by rw [h.headers]; rfl)
  rw [h.headers] at hh
  exact ⟨by rw [hl]; exact h.line,by rw [hl]; exact hh⟩

/-- How the head and the framing of the body go together. -/
inductive Reading (m : HttpMessage) (p : HttpParser) : Prop
  | clen (n : ℕ) (hm : readMethod m = .clen n) (hp : p.entPosition = .usingClen) : Reading m p
  | chunked (hm : readMethod m = .chunked) (hp : p.entPosition = .usingChunked ∨
      p.entPosition = .chunkyBody ∨ p.entPosition = .chunkyHeaders) (hc : p.contentLength = 0) :
      Reading m p
  | untilClose (hm : readMethod m = .untilClose) (hp : p.entPosition = .untilClose) : Reading m p

/-- A message that is complete: its length is the announced one, or none was announced. -/
inductive Received (m : HttpMessage) (p : HttpParser) : Prop
  | empty (h : p.msg.entity.length = 0) : Received m p
  | clen (n : ℕ) (hm : readMethod m = .clen n) (h : p.msg.entity.length = p.contentLength) :
      Received m p
  | chunked (hm : readMethod m = .chunked) (hc : p.contentLength = 0) : Received m p

/-- What a step in the body does under the head `m`. -/
structure BodyStep (m : HttpMessage) (r : ParseStatus × HttpParser) : Prop where
  goOn : r.1 = .continue1 ∨ waitsForMore r.1 = true → Reading m r.2
  untilClose : r.1 = .incompleteEntity → readMethod m = .untilClose
  success : r.1 = .success → Received m r.2

theorem usingClen_bodyStep {m : HttpMessage} {p : HttpParser} {n : ℕ} (hm : readMethod m = .clen n)
    (hp : p.entPosition = .usingClen) : BodyStep m (parserParseEntityUsingClen p) := by
  simp only [parserParseEntityUsingClen]
  split
  · exact ⟨fun _ => .clen n hm hp,(by rintro ⟨⟩),(by rintro ⟨⟩)⟩
  · exact ⟨fun _ => .clen n hm hp,(by rintro ⟨⟩),fun _ => .clen n hm rfl⟩

@[simp] theorem beginChunk_contentLength (p : HttpParser) :
    (beginChunk p).contentLength = p.contentLength := by
  unfold beginChunk
  split <;> rfl

@[simp] theorem storeChunkSize_contentLength (p : HttpParser) (m : Match) :
    (storeChunkSize p m).contentLength = p.contentLength := by
  unfold storeChunkSize
  split <;> rfl

theorem chunkyEntity_bodyStep {m : HttpMessage} {p : HttpParser} (hm : readMethod m = .chunked)
    (hp : p.entPosition = .usingChunked) (hc : p.contentLength = 0) :
    BodyStep m (parserParseChunkyEntity p) := by
  have hs := parserParseChunkyEntity_status p
  have hlen : (parserParseChunkyEntity p).2.contentLength = 0 := by
    simp only [parserParseChunkyEntity]
    split
    · rw [storeChunkSize_contentLength,hc]
    · rw [beginChunk_contentLength]
      simp only [HttpParser.deleteTo,HttpParser.advance,storeChunkSize_contentLength,hc]
  have hpos : (parserParseChunkyEntity p).2.entPosition = .usingChunked ∨
      (parserParseChunkyEntity p).2.entPosition = .chunkyBody ∨
      (parserParseChunkyEntity p).2.entPosition = .chunkyHeaders := by
    simp only [parserParseChunkyEntity]
    split
    · rw [storeChunkSize_entPosition]
      exact .inl hp
    · unfold beginChunk
      split
      · exact .inr (.inr rfl)
      · exact .inr (.inl rfl)
  refine ⟨fun _ => .chunked hm hpos hlen,fun hi => ?_,fun h => absurd h hs.1⟩
  rcases scannerMatch_status chunkFmt p.rest with hf | ⟨st,hf⟩
  · simp only [parserParseChunkyEntity,hf] at hi
    cases hi
  · simp only [parserParseChunkyEntity,hf,if_pos (status_ne_ok st)] at hi
    cases st <;> cases hi

theorem chunkyBody_bodyStep {m : HttpMessage} {p : HttpParser} (hm : readMethod m = .chunked)
    (hp : p.entPosition = .chunkyBody) (hc : p.contentLength = 0) :
    BodyStep m (parserParseChunkyBody p) := by
  simp only [parserParseChunkyBody]
  split
  · rcases scannerMatch_status crlfFmt (p.advance p.chunkSize).rest with hf | ⟨st,hf⟩
    · simp only [hf,ne_eq,not_true_eq_false,if_false]
      exact ⟨fun _ => .chunked hm (.inl rfl) hc,(by rintro ⟨⟩),(by rintro ⟨⟩)⟩
    · simp only [hf,ne_eq,status_ne_ok st,not_false_eq_true,if_true]
      refine ⟨fun _ => .chunked hm (.inr (.inl hp)) hc,?_,?_⟩ <;> cases st <;> rintro ⟨⟩
  · exact ⟨fun _ => .chunked hm (.inr (.inl hp)) hc,(by rintro ⟨⟩),(by rintro ⟨⟩)⟩

theorem chunkyHeaders_bodyStep {m : HttpMessage} {p : HttpParser} (hf : Framed p)
    (hm : readMethod m = .chunked) (hp : p.entPosition = .chunkyHeaders)
    (hc : p.contentLength = 0) : BodyStep m (parserParseChunkyHeaders p) := by
  have hh := parserParseHeaders_frame hf.cursor_le
  have hs := parserParseHeaders_status p
  have hlen := hh.contentLength.trans hc
  rw [parserParseChunkyHeaders_eq]
  split
  · exact ⟨(by rintro (h | h) <;> cases h),(by rintro ⟨⟩),fun _ => .chunked hm hlen⟩
  · refine ⟨fun _ => .chunked hm (.inr (.inr (hh.entPosition.trans hp))) hlen,
      fun h => absurd h hs.not_entity,fun _ => .chunked hm hlen⟩

theorem readMethod_bodyStep {m : HttpMessage} {p : HttpParser} (hm : readMethod p.msg = readMethod m)
    (hc : p.contentLength = 0) : BodyStep m (parserGetEntityReadMethod p) := by
  have hx := readMethod_setEntity p ⟨p.cursor,0⟩
  cases hr : readMethod p.msg <;> rw [hr] at hm hx <;> simp only [parserGetEntityReadMethod,hx]
  · exact ⟨(by rintro (h | h) <;> cases h),(by rintro ⟨⟩),fun _ => .empty rfl⟩
  · exact ⟨fun _ => .chunked hm.symm (.inl rfl) hc,(by rintro ⟨⟩),(by rintro ⟨⟩)⟩
  · exact ⟨fun _ => .clen _ hm.symm rfl,(by rintro ⟨⟩),(by rintro ⟨⟩)⟩
  · exact ⟨(by rintro (h | h) <;> cases h),(by rintro ⟨⟩),(by rintro ⟨⟩)⟩
  · exact ⟨fun _ => .untilClose hm.symm rfl,(by rintro ⟨⟩),(by rintro ⟨⟩)⟩

/-- The parser is in the body that the head `m` has announced. -/
structure InBody (m : HttpMessage) (p : HttpParser) : Prop where
  framed : Framed p
  position : p.position = .entity
  method : (p.entPosition = .determineReadMethod ∧ readMethod p.msg = readMethod m ∧
    p.contentLength = 0) ∨ Reading m p

theorem Behind.inBody {p : HttpParser} (h : Behind p) : InBody p.msg p :=
  ⟨h.framed,h.position,.inl ⟨h.entPosition,rfl,h.contentLength⟩⟩

theorem InBody.append {m : HttpMessage} {p : HttpParser} (h : InBody m p) (x : List UInt8) :
    InBody m (p.append x) := by
  refine ⟨h.framed.append x,h.position,?_⟩
  rcases h.method with h | h
  · exact .inl h
  · right
    cases h with
    | clen n hm hp => exact .clen n hm hp
    | chunked hm hp hc => exact .chunked hm hp hc
    | untilClose hm hp => exact .untilClose hm hp

theorem InBody.of_readMethod {m m' : HttpMessage} {p : HttpParser} (h : InBody m p)
    (hm : readMethod m' = readMethod m) : InBody m' p := by
  refine ⟨h.framed,h.position,?_⟩
  rcases h.method with ⟨hp,hr,hc⟩ | hr
  · exact .inl ⟨hp,hr.trans hm.symm,hc⟩
  · right
    cases hr with
    | clen n hr hp => exact .clen n (hm.trans hr) hp
    | chunked hr hp hc => exact .chunked (hm.trans hr) hp hc
    | untilClose hr hp => exact .untilClose (hm.trans hr) hp

theorem entityStep_bodyStep {m : HttpMessage} {p : HttpParser} (h : InBody m p) :
    BodyStep m (entityStep p) := by
  rcases h.method with ⟨hp,hm,hc⟩ | hr
  · simp only [entityStep,hp]
    exact readMethod_bodyStep hm hc
  · cases hr with
    | clen n hm hp =>
      simp only [entityStep,hp]
      exact usingClen_bodyStep hm hp
    | chunked hm hp hc =>
      rcases hp with hp | hp | hp <;> simp only [entityStep,hp]
      · exact chunkyEntity_bodyStep hm hp hc
      · exact chunkyBody_bodyStep hm hp hc
      · exact chunkyHeaders_bodyStep h.framed hm hp hc
    | untilClose hm hp =>
      simp only [entityStep,hp]
      exact ⟨fun _ => .untilClose hm hp,fun _ => hm,(by rintro ⟨⟩)⟩

/-- All the rounds of `parser_parse_entity`. -/
theorem parserParseEntity_bodyStep {m : HttpMessage} {p : HttpParser} (h : InBody m p) :
    BodyStep m (parserParseEntity p) := by
  revert h
  refine Loop.run_induction entityStep_descends (e := fun q : HttpParser => (ParseStatus.failure,q))
    (P := fun p r => InBody m p → BodyStep m r) ?_ ?_ p
  · intro p r hr h
    rcases Loop.doWhile_inr hr with ⟨-,rfl⟩
    exact entityStep_bodyStep h
  · intro p q hq ih h
    rcases Loop.doWhile_inl hq with ⟨ha,rfl⟩
    have hgo : (entityStep p).1 = .continue1 := beq_iff_eq.mp ha
    have hf := entityStep_framed h.framed (.inl hgo)
    exact ih ⟨hf.1,hf.2.trans h.position,.inr ((entityStep_bodyStep h).goOn (.inl hgo))⟩

theorem parserParseEntity_not_continue (p : HttpParser) : (parserParseEntity p).1 ≠ .continue1 := by
  refine Loop.run_induction entityStep_descends (e := fun q : HttpParser => (ParseStatus.failure,q))
    (P := fun _ r => r.1 ≠ .continue1) ?_ (fun _ _ _ ih => ih) p
  intro p r hr
  have ha := (Loop.doWhile_inr hr).1
  exact fun h => absurd (beq_iff_eq.mpr h) (by rw [ha]; decide)

/-- Between two reads, when the bytes `s` have been received: the parser goes on as if it had
been given all of them at once. -/
inductive Tracked (res : Resolver) (p₀ : HttpParser) (s : List UInt8) (p : HttpParser) : Prop
  | line (h : Heading p) (hp : p.position ≠ .headers)
      (hx : ∀ x, parserStep res (p.append x) = parserStep res (p₀.append (s++x))) :
      Tracked res p₀ s p
  | headers (h : Heading p) (hp : p.position = .headers) (q : HttpParser) (hq : Heading q)
      (hpq : q.position = .headers) (hl : parserStep res (p₀.append s) = (.ok,q))
      (hx : ∀ x, parserStep res (p.append x) = parserStep res (q.append x)) : Tracked res p₀ s p
  | body (q : HttpParser) (hq : HeadRead res p₀ s q) (h : InBody q.msg p) : Tracked res p₀ s p

/-- What a call of `parser_append` answers, `s` being what has been received then. -/
structure Answer (res : Resolver) (p₀ : HttpParser) (s : List UInt8)
    (r : ParseStatus × HttpParser) : Prop where
  waiting : waitsForMore r.1 = true → Tracked res p₀ s r.2
  not_continue : r.1 ≠ .continue1
  untilClose : r.1 = .incompleteEntity →
    ∃ q, HeadRead res p₀ s q ∧ readMethod q.msg = .untilClose
  success : r.1 = .success → r.2.msg.entity.length = 0 ∨
    ∃ q, HeadRead res p₀ s q ∧ Received q.msg r.2

theorem parserParse_status (res : Resolver) (p : HttpParser) : (parserParse res p).1 ≠ .ok := by
  refine Loop.run_induction (parserStep_descends res)
    (e := fun q : HttpParser => (ParseStatus.failure,q)) (P := fun _ r => r.1 ≠ .ok) ?_
    (fun _ _ _ ih => ih) p
  intro p r hr
  have ha := (Loop.doWhile_inr hr).1
  exact fun h => absurd (beq_iff_eq.mpr h) (by rw [ha]; decide)

theorem answer_body {res : Resolver} {p₀ p q : HttpParser} {s : List UInt8}
    (hq : HeadRead res p₀ s q) (h : InBody q.msg p) : Answer res p₀ s (parserParse res p) := by
  rw [parserParse_entity res h.position]
  have hb := parserParseEntity_bodyStep h
  refine ⟨fun hw => ?_,parserParseEntity_not_continue p,fun hi => ⟨q,hq,hb.untilClose hi⟩,
    fun hs => .inr ⟨q,hq,hb.success hs⟩⟩
  have hk := parserParseEntity_resumable.keep_process p ⟨h.framed,h.position⟩ hw
  exact .body q hq ⟨hk.1,hk.2,.inr (hb.goOn (.inr hw))⟩

theorem answer_stop {res : Resolver} {p₀ p : HttpParser} {s : List UInt8} (h : Heading p)
    (hne : (parserStep res p).1 ≠ .ok)
    (hw : waitsForMore (parserStep res p).1 = true → Tracked res p₀ s (parserStep res p).2) :
    Answer res p₀ s (parserParse res p) := by
  have hs := h.step res
  rw [parserParse_done hne]
  refine ⟨hw,hs.not_continue,fun hi => absurd hi hs.not_entity,fun _ => .inl ?_⟩
  rw [hs.frame.entity,h.parsing.fresh h.position]

theorem answer_headers {res : Resolver} {p₀ p q : HttpParser} {s : List UInt8} (h : Heading p)
    (hp : p.position = .headers) (hq : Heading q) (hpq : q.position = .headers)
    (hl : parserStep res (p₀.append s) = (.ok,q))
    (hx : ∀ x, parserStep res (p.append x) = parserStep res (q.append x)) :
    Answer res p₀ s (parserParse res p) := by
  have hpq' : parserStep res p = parserStep res q := by
    have h0 := hx []
    rwa [HttpParser.append_nil,HttpParser.append_nil] at h0
  by_cases hok : (parserStep res p).1 = .ok
  · rw [parserParse_again hok]
    have hread : HeadRead res p₀ s (parserStep res p).2 := by
      refine ⟨by rw [hl],?_⟩
      rw [hl,← hpq']
      exact Prod.ext hok rfl
    exact answer_body hread (h.behind res hp hok).inBody
  · refine answer_stop h hok fun hw => ?_
    have hpos : (parserStep res p).2.position = .headers := ((h.step res).waiting hw).trans hp
    refine .headers (h.next (.inr hw) ?_) hpos q hq hpq hl fun x => ?_
    · rw [hpos]
      rintro ⟨⟩
    · rw [((h.exact (.inr hw) x).resume hw),hx]

theorem answer_line {res : Resolver} {p₀ p : HttpParser} {s : List UInt8} (h : Heading p)
    (hp : p.position ≠ .headers)
    (hx : ∀ x, parserStep res (p.append x) = parserStep res (p₀.append (s++x))) :
    Answer res p₀ s (parserParse res p) := by
  have hp₀ : parserStep res p = parserStep res (p₀.append s) := by
    have h0 := hx []
    rwa [HttpParser.append_nil,List.append_nil] at h0
  by_cases hok : (parserStep res p).1 = .ok
  · have hpos : (parserStep res p).2.position = .headers :=
      ((h.step res).done hok).resolve_right fun hd => hp hd.1
    have hnext : Heading (parserStep res p).2 := h.next (.inl hok) (by rw [hpos]; rintro ⟨⟩)
    rw [parserParse_again hok]
    exact answer_headers hnext hpos hnext hpos (hp₀ ▸ Prod.ext hok rfl) fun _ => rfl
  · refine answer_stop h hok fun hw => ?_
    have hpos := (h.step res).waiting hw
    refine .line (h.next (.inr hw) ?_) (hpos ▸ hp) fun x => ?_
    · rw [hpos]
      rcases h.position with hp | hp | hp <;> rw [hp] <;> rintro ⟨⟩
    · rw [((h.exact (.inr hw) x).resume hw),hx]

theorem Tracked.answer {res : Resolver} {p₀ p : HttpParser} {s : List UInt8}
    (h : Tracked res p₀ s p) (h₀ : Heading p₀) (x : List UInt8) :
    Answer res p₀ (s++x) (parserAppend res p x) := by
  unfold parserAppend
  cases h with
  | line hh hp hx =>
    refine answer_line (hh.append x) hp fun y => ?_
    rw [HttpParser.append_append,hx,List.append_assoc]
  | headers hh hp q hq hpq hl hx =>
    refine answer_headers (hh.append x) hp (hq.append x) hpq ?_ fun y => ?_
    · have hf := ((h₀.append s).exact (.inl (by rw [hl])) x).final (by rw [hl]; rfl)
      rw [HttpParser.append_append,hl] at hf
      exact hf
    · rw [HttpParser.append_append,HttpParser.append_append,hx]
  | body q hq hb => exact answer_body (hq.append h₀ x) ((hb.append x).of_readMethod rfl)

theorem recvInit_tracked (res : Resolver) (method : HttpMethod) :
    Tracked res (recvInit method) [] (recvInit method) := by
  refine .line (recvInit_heading method) ?_ fun x => rfl
  unfold recvInit
  split <;> rintro ⟨⟩

theorem recvComplete_limited {maxContentLength : ℕ} (hmax : 0 < maxContentLength) {p : HttpParser}
    (hlen : p.msg.entity.length = 0 ∨ p.msg.entity.length = p.contentLength)
    (h : (recvComplete maxContentLength p).code = upnpESuccess) :
    (recvComplete maxContentLength p).parser.msg.entity.length ≤ maxContentLength := by
  have hmod := Nat.mod_le maxContentLength (2^32)
  simp only [recvComplete,hmax,true_and] at h ⊢
  split
  · rename_i hlt
    rw [if_pos hlt] at h
    cases h
  · rename_i hlt
    simp only
    omega

/-- As long as no head leaves the length open, the limit holds. -/
theorem recvLoop_limited {res : Resolver} {maxContentLength : ℕ} (hmax : 0 < maxContentLength)
    {p₀ : HttpParser} (h₀ : Heading p₀) (sock : SockInfo) {s : List UInt8} {p : HttpParser}
    (h : Tracked res p₀ s p)
    (hhead : ∀ t q, t <+: s++sockBytes sock → HeadRead res p₀ t q → ¬lengthUnannounced q.msg)
    (hc : (recvLoop res maxContentLength sock false p).code = upnpESuccess) :
    (recvLoop res maxContentLength sock false p).parser.msg.entity.length ≤ maxContentLength := by
  induction sock generalizing s p with
  | nil => cases hc
  | cons read sock ih =>
    cases read with
    | error code neg =>
      simp only [recvLoop] at hc
      rw [hc] at neg
      exact absurd neg (by decide)
    | data x hpos hfits =>
      have ha := h.answer h₀ x
      have hpre : s++x <+: s++sockBytes (.data x hpos hfits::sock) := by
        rw [sockBytes_data,← List.append_assoc]
        exact List.prefix_append _ _
      have hnext : waitsForMore (parserAppend res p x).1 = true →
          (recvLoop res maxContentLength sock false (parserAppend res p x).2).code = upnpESuccess →
          (recvLoop res maxContentLength sock false
            (parserAppend res p x).2).parser.msg.entity.length ≤ maxContentLength := by
        intro hw hc
        refine ih (ha.waiting hw) (fun t q ht hq => hhead t q ?_ hq) hc
        rwa [sockBytes_data,← List.append_assoc]
      rcases hr : parserAppend res p x with ⟨st,q⟩
      rw [hr] at ha hnext
      simp only [recvLoop,hr] at hc ⊢
      cases st with
      | success =>
        simp only at hc ⊢
        refine recvComplete_limited hmax ?_ hc
        rcases ha.success rfl with hz | ⟨q',hq',hrec⟩
        · exact .inl hz
        · cases hrec with
          | empty hz => exact .inl hz
          | clen n _ hz => exact .inr hz
          | chunked hm _ => exact absurd (.inl hm) (hhead _ q' hpre hq')
      | failure => cases hc
      | noMatch => cases hc
      | incompleteEntity =>
        rcases ha.untilClose rfl with ⟨q',hq',hm⟩
        exact absurd (.inr hm) (hhead _ q' hpre hq')
      | continue1 => exact absurd rfl ha.not_continue
      | incomplete => exact hnext rfl hc
      | ok => exact absurd (congrArg Prod.fst hr) (parserParse_status res _)

theorem HeadRead.parse {res : Resolver} {p₀ p : HttpParser} {s : List UInt8}
    (h : HeadRead res p₀ s p) (h₀ : Heading p₀) :
    parserParse res (p₀.append s) = parserParseEntity p := by
  have hh : (parserStep res (parserStep res (p₀.append s)).2).1 = .ok := by rw [h.headers]
  rw [parserParse_again h.line,parserParse_again hh,h.headers]
  exact parserParse_entity res (h.behind h₀).position

theorem HeadRead.readMethod_eq {res : Resolver} {p₀ p q : HttpParser} {s t u : List UInt8}
    (hs : HeadRead res p₀ s p) (ht : HeadRead res p₀ t q) (h₀ : Heading p₀) (hsu : s <+: u)
    (htu : t <+: u) : readMethod q.msg = readMethod p.msg := by
  have huniq : ∀ {w : List UInt8} {p' q' : HttpParser}, HeadRead res p₀ w p' →
      HeadRead res p₀ w q' → q' = p' := fun hp hq =>
    congrArg Prod.snd (hq.headers.symm.trans hp.headers)
  rcases List.prefix_or_prefix_of_prefix hsu htu with ⟨y,rfl⟩ | ⟨y,rfl⟩
  · rw [huniq (hs.append h₀ y) ht]
    rfl
  · rw [huniq (ht.append h₀ y) hs]
    rfl

theorem one_le_tempbufSize : 1 ≤ tempbufSize := by decide

def byteReads (b : List UInt8) : SockInfo :=
  b.map fun c => .data [c] Nat.one_pos one_le_tempbufSize

@[simp] theorem sockBytes_byteReads (b : List UInt8) : sockBytes (byteReads b) = b := by
  induction b with
  | nil => rfl
  | cons c b ih =>
    have hc : byteReads (c::b) = .data [c] Nat.one_pos one_le_tempbufSize::byteReads b := rfl
    rw [hc,sockBytes_data,ih]
    rfl

@[simp] theorem flatten_singletons (b : List UInt8) : (b.map fun c => [c]).flatten = b := by
  induction b with
  | nil => rfl
  | cons c b ih => rw [List.map_cons,List.flatten_cons,ih,List.singleton_append]

theorem recvLoop_byteReads (res : Resolver) (maxContentLength : ℕ) (b : List UInt8) (hb : b ≠ [])
    (okOnClose : Bool) (p : HttpParser) :
    ((feedParser res p (b.map fun c => [c])).1 = .success →
      recvLoop res maxContentLength (byteReads b) okOnClose p =
        recvComplete maxContentLength (feedParser res p (b.map fun c => [c])).2) ∧
    ((feedParser res p (b.map fun c => [c])).1 = .incompleteEntity →
      recvLoop res maxContentLength (byteReads b) okOnClose p =
        ⟨upnpESuccess,none,(feedParser res p (b.map fun c => [c])).2⟩) := by
  induction b generalizing okOnClose p with
  | nil => exact absurd rfl hb
  | cons c b ih =>
    have hc : byteReads (c::b) = .data [c] Nat.one_pos one_le_tempbufSize::byteReads b := rfl
    rw [hc]
    cases b with
    | nil =>
      rcases hr : parserAppend res p [c] with ⟨st,q⟩
      simp only [List.map_cons,List.map_nil,feedParser,recvLoop,hr,byteReads]
      constructor <;> rintro rfl <;> rfl
    | cons d b =>
      have hrec := fun ok q => ih (by simp) ok q
      rcases hr : parserAppend res p [c] with ⟨st,q⟩
      simp only [List.map_cons] at hrec ⊢
      simp only [feedParser,recvLoop,hr]
      cases st with
      | success => exact ⟨fun _ => rfl,(by rintro ⟨⟩)⟩
      | incompleteEntity => exact hrec true q
      | incomplete => exact hrec okOnClose q
      | failure | noMatch | continue1 | ok => exact ⟨(by rintro ⟨⟩),(by rintro ⟨⟩)⟩

/-- An answer that ends the message stands when more bytes have been received. -/
theorem Answer.append {res : Resolver} {p₀ : HttpParser} {s : List UInt8}
    {r : ParseStatus × HttpParser} (h : Answer res p₀ s r) (h₀ : Heading p₀)
    (hw : waitsForMore r.1 = false) (x : List UInt8) : Answer res p₀ (s++x) r := by
  refine ⟨fun h => absurd h (by rw [hw]; decide),h.not_continue,fun hi => ?_,fun hs => ?_⟩
  · rw [hi] at hw
    cases hw
  · refine (h.success hs).imp id ?_
    rintro ⟨q,hq,hr⟩
    refine ⟨q.append x,hq.append h₀ x,?_⟩
    cases hr with
    | empty h => exact .empty h
    | clen n hm h => exact .clen n hm h
    | chunked hm hc => exact .chunked hm hc

theorem Tracked.feedParser {res : Resolver} {p₀ : HttpParser} (h₀ : Heading p₀)
    (xs : List (List UInt8)) (hx : xs ≠ []) {s : List UInt8} {p : HttpParser}
    (h : Tracked res p₀ s p) : Answer res p₀ (s++xs.flatten) (Http.feedParser res p xs) := by
  induction xs generalizing s p with
  | nil => exact absurd rfl hx
  | cons x xs ih =>
    have ha := h.answer h₀ x
    cases xs with
    | nil => simpa [Http.feedParser] using ha
    | cons y xs =>
      simp only [Http.feedParser]
      split
      · rename_i hw
        have hr := ih (by simp) (ha.waiting hw)
        rwa [List.append_assoc,← List.flatten_cons] at hr
      · rename_i hw
        rw [List.flatten_cons,← List.append_assoc]
        exact ha.append h₀ (by simpa using hw) _

/-- A body of `n` bytes, as the framing of the head wants it. -/
def longBody (m : HttpMessage) (n : ℕ) : List UInt8 :=
  if readMethod m = .chunked then chunkCoding (List.replicate n [0]) else List.replicate n 0

@[simp] theorem flatten_replicate_singleton (n : ℕ) (c : UInt8) :
    (List.replicate n [c]).flatten = List.replicate n c := by
  induction n with
  | zero => rfl
  | succ n ih => rw [List.replicate_succ,List.flatten_cons,ih,List.replicate_succ,List.singleton_append]

theorem Behind.cursor_eq {p : HttpParser} (h : Behind p) (hr : p.rest = []) :
    p.cursor = p.msg.msg.length := by
  have hlen := hr ▸ p.rest_length
  have hle := h.framed.cursor_le
  simp only [List.length_nil] at hlen
  omega

theorem longBody_ne_nil (m : HttpMessage) (n : ℕ) : longBody m (n+1) ≠ [] := by
  unfold longBody
  split
  · exact fun h => absurd (List.append_eq_nil_iff.mp h).2 (by decide)
  · rintro ⟨⟩

theorem parserGetEntityReadMethod_start (p : HttpParser) :
    (parserGetEntityReadMethod p).2.entityStartPosition = p.cursor ∧
      (parserGetEntityReadMethod p).2.msg.msg = p.msg.msg := by
  simp only [parserGetEntityReadMethod,readMethod_setEntity]
  cases readMethod p.msg <;> exact ⟨rfl,rfl⟩

theorem observeMessage_length {r r' : ParseStatus × HttpParser}
    (h : observeMessage r = observeMessage r') (hs : r.1 = .success ∨ r.1 = .incompleteEntity) :
    r.2.msg.entity.length = r'.2.msg.entity.length := by
  have hst : r'.1 = .success ∨ r'.1 = .incompleteEntity :=
    (congrArg (fun o : ParseStatus × Option MessageView => o.1) h) ▸ hs
  have hv := congrArg (fun o : ParseStatus × Option MessageView => o.2) h
  simp only [observeMessage,if_pos hs,if_pos hst,Option.some.injEq] at hv
  exact congrArg (fun v => v.entityLength) hv

/-- Without an announced length the whole body is taken. -/
theorem parserParseEntity_longBody {p : HttpParser} (h : Behind p) (hr : p.rest = [])
    (hu : lengthUnannounced p.msg) (n : ℕ) :
    ((readMethod p.msg = .chunked ∧
        (parserParseEntity (p.append (longBody p.msg n))).1 = .success) ∨
      (readMethod p.msg = .untilClose ∧
        (parserParseEntity (p.append (longBody p.msg n))).1 = .incompleteEntity)) ∧
      n ≤ (parserParseEntity (p.append (longBody p.msg n))).2.msg.entity.length := by
  rcases hu with hm | hm
  · have hnext : ChunkedNext p := ⟨h.position,hr,.inl ⟨h.entPosition,hm⟩⟩
    have hsz : p.chunkSize < 2^32 := by
      rw [h.chunkSize]
      decide
    have hb : ∀ b ∈ List.replicate n [(0 : UInt8)], b.length < 2^31 := by
      intro b hb
      rw [List.eq_of_mem_replicate hb]
      decide
    have hp := ((chunkCoding_whole hb).parsed hnext h.framed hsz (List.append_nil _)).2 rfl
    have hlen := congrArg List.length hp.2
    rw [flatten_replicate_singleton,List.length_replicate] at hlen
    simp only [longBody,if_pos hm]
    refine ⟨.inl ⟨hm,hp.1⟩,?_⟩
    exact Nat.le_trans (Nat.le_of_eq hlen.symm) (List.length_take_le _ _)
  · have hne : ¬readMethod p.msg = .chunked := by
      rw [hm]
      rintro ⟨⟩
    simp only [longBody,if_neg hne]
    generalize hb : List.replicate n (0 : UInt8) = b
    have hread : readMethod ((p.append b).setEntity ⟨(p.append b).cursor,0⟩).msg = .untilClose := hm
    have hstep : entityStep (p.append b) = parserGetEntityReadMethod (p.append b) := by
      simp only [entityStep,HttpParser.append_entPosition,h.entPosition]
    have hgo : (entityStep (p.append b)).1 = .continue1 := by
      rw [hstep]
      simp only [parserGetEntityReadMethod,hread]
    have hclose : entityStep (entityStep (p.append b)).2 =
        parserParseEntityUntilClose (entityStep (p.append b)).2 := by
      rw [hstep]
      simp only [parserGetEntityReadMethod,hread]
      rfl
    rw [parserParseEntity_again hgo,parserParseEntity_done (by rw [hclose]; rintro ⟨⟩),hclose]
    refine ⟨.inr ⟨hm,rfl⟩,?_⟩
    have hlen : (p.append b).msg.msg.length-p.cursor = n := by
      rw [HttpParser.append_msg,List.length_append,h.cursor_eq hr,← hb,List.length_replicate]
      omega
    have hstart := parserGetEntityReadMethod_start (p.append b)
    rw [← hstep] at hstart
    have hv : ∀ q : HttpParser, (parserParseEntityUntilClose q).2.msg.entity.length =
      q.msg.msg.length-q.entityStartPosition+q.msg.amountDiscarded := fun _ => rfl
    rw [hv,hstart.1,hstart.2,HttpParser.append_cursor,hlen]
    exact Nat.le_add_right _ _

theorem HeadRead.not_splits {res : Resolver} {p₀ p : HttpParser} {s : List UInt8}
    (h : HeadRead res p₀ s p) (h₀ : Heading p₀) (hp : p₀.position = .requestLine)
    (x : List UInt8) : ¬RequestSplits (p₀.rest++(s++x)) := by
  have hl := h.line
  simp only [parserStep,HttpParser.append_position,hp] at hl
  have hn := parserParseRequestline_not_splits res hl x
  rwa [HttpParser.rest_append h₀.parsing.framed.cursor_le,List.append_assoc] at hn

/-- A head that leaves the length open is followed by too long a body. -/
theorem HeadRead.exceeds {res : Resolver} (maxContentLength : ℕ) {method : HttpMethod}
    {s : List UInt8} {p : HttpParser} (h : HeadRead res (recvInit method) s p) (hr : p.rest = [])
    (hu : lengthUnannounced p.msg) :
    ∃ sock, s <+: sockBytes sock ∧ ¬Limited res maxContentLength method sock := by
  have h₀ := recvInit_heading method
  generalize hb : s++longBody p.msg (maxContentLength+1) = b
  have hbody := h.append h₀ (longBody p.msg (maxContentLength+1))
  rw [hb] at hbody
  have hlong := parserParseEntity_longBody (h.behind h₀) hr hu (maxContentLength+1)
  have hne : b ≠ [] := by
    rw [← hb]
    exact fun h => longBody_ne_nil p.msg maxContentLength (List.append_eq_nil_iff.mp h).2
  have hfeed : observeMessage (feedParser res (recvInit method) (b.map fun c => [c])) =
      observeMessage (parserParseEntity (p.append (longBody p.msg (maxContentLength+1)))) := by
    rw [← hbody.parse h₀,feedParser_eq_feed,
      (parserParse_resumableOn res).feed_flatten _ (by simpa using hne),flatten_singletons]
    refine ⟨h₀.parsing,fun hp => ?_⟩
    rw [flatten_singletons,← hb]
    exact h.not_splits h₀ hp _
  have hstatus : (feedParser res (recvInit method) (b.map fun c => [c])).1 =
      (parserParseEntity (p.append (longBody p.msg (maxContentLength+1)))).1 :=
    congrArg (fun o : ParseStatus × Option MessageView => o.1) hfeed
  have ha := (recvInit_tracked res method).feedParser h₀ (b.map fun c => [c]) (by simpa using hne)
  rw [List.nil_append,flatten_singletons] at ha
  have hrecv := recvLoop_byteReads res maxContentLength b hne false
    (recvInit method)
  generalize feedParser res (recvInit method) (b.map fun c => [c]) = r at hfeed hstatus ha hrecv
  refine ⟨byteReads b,?_,fun hlim => ?_⟩
  · rw [sockBytes_byteReads,← hb]
    exact List.prefix_append _ _
  simp only [Limited,httpRecvMessage] at hlim
  rcases hlong with ⟨⟨hm,hs⟩ | ⟨hm,hs⟩,hlen⟩
  · rw [← hstatus] at hs
    rw [← observeMessage_length hfeed (.inl hs)] at hlen
    rw [hrecv.1 hs] at hlim
    rcases ha.success hs with hz | ⟨q,hq,hrec⟩
    · omega
    · have hmq := (hbody.readMethod_eq hq h₀ (List.prefix_rfl) (List.prefix_rfl)).trans hm
      cases hrec with
      | empty hz => omega
      | clen n hmc _ =>
        rw [hmq] at hmc
        cases hmc
      | chunked _ hc =>
        have hv : recvComplete maxContentLength r.2 = ⟨upnpESuccess,none,r.2⟩ := by
          rw [recvComplete,hc,if_neg]
          rintro ⟨-,hlt⟩
          exact absurd hlt (Nat.not_lt_zero _)
        rw [hv] at hlim
        have hle : r.2.msg.entity.length ≤ maxContentLength := hlim rfl
        omega
  · rw [← hstatus] at hs
    rw [← observeMessage_length hfeed (.inr hs)] at hlen
    rw [hrecv.2 hs] at hlim
    have hle : r.2.msg.entity.length ≤ maxContentLength := hlim rfl
    omega

/-- The limit is kept where no head leaves the length of the body open, and a head that does
is followed, from some peer, by a body that is too long. -/
theorem httpRecvMessage_limited_iff (res : Resolver) (maxContentLength : ℕ)
    (hmax : 0 < maxContentLength) (method : HttpMethod) :
    (∀ sock, (∀ s p, s <+: sockBytes sock → HeadRead res (recvInit method) s p →
        ¬lengthUnannounced p.msg) → Limited res maxContentLength method sock) ∧
      ∀ s p, HeadRead res (recvInit method) s p → p.rest = [] →
        ((∀ sock, s <+: sockBytes sock → Limited res maxContentLength method sock) ↔
          ¬lengthUnannounced p.msg) := by
  have h₀ := recvInit_heading method
  have hlim : ∀ sock, (∀ s p, s <+: sockBytes sock → HeadRead res (recvInit method) s p →
      ¬lengthUnannounced p.msg) → Limited res maxContentLength method sock := by
    intro sock hhead hc
    exact recvLoop_limited hmax h₀ sock (recvInit_tracked res method)
      (fun t q ht hq => hhead t q (by simpa using ht) hq) hc
  refine ⟨hlim,fun s p hs hr => ⟨fun hall hu => ?_,fun hu sock hpre => ?_⟩⟩
  · rcases hs.exceeds maxContentLength hr hu with ⟨sock,hpre,hno⟩
    exact hno (hall sock hpre)
  · refine hlim sock fun t q ht hq hq' => hu ?_
    have hm := hs.readMethod_eq hq h₀ hpre ht
    rcases hq' with hq' | hq'
    · exact .inl (hm.symm.trans hq')
    · exact .inr (hm.symm.trans hq')

theorem httpRecvMessage_limited_clen :
    ¬lengthUnannounced (headRead (cstr "HTTP/1.1 200 OK\r\nContent-Length: 5\r\n\r\n")).msg ∧
      ∀ sock, cstr "HTTP/1.1 200 OK\r\nContent-Length: 5\r\n\r\n" <+: sockBytes sock →
        Limited Resolver.empty 1 .get sock := by
  have hhead : HeadRead Resolver.empty (recvInit .get)
      (cstr "HTTP/1.1 200 OK\r\nContent-Length: 5\r\n\r\n")
      (headRead (cstr "HTTP/1.1 200 OK\r\nContent-Length: 5\r\n\r\n")) :=
    ⟨by decide,Prod.ext (by decide) rfl⟩
  have hno : ¬lengthUnannounced
      (headRead (cstr "HTTP/1.1 200 OK\r\nContent-Length: 5\r\n\r\n")).msg := by
    unfold lengthUnannounced
    decide
  exact ⟨hno,((httpRecvMessage_limited_iff Resolver.empty 1 Nat.one_pos .get).2 _ _ hhead
    (by decide)).mpr hno⟩

theorem untilClose_exceeds : ¬ ∀ (res : Resolver) (maxContentLength : ℕ) (method : HttpMethod)
    (sock : SockInfo), 0 < maxContentLength → Limited res maxContentLength method sock := by
  intro h
  have hl := h Resolver.empty 1 .get
    [.data (cstr "HTTP/1.1 200 OK\r\n\r\nab") (by decide) (by decide)] Nat.one_pos
    (by decide)
  revert hl
  decide

end Http
end CtrlPt
