import CtrlPt.Http.Limit
import CtrlPt.Http.HeaderText

/-! The document `http_Download` hands out: the entity with the byte behind it. Whether that
byte is a NUL is decided in the last round of the parser. -/
namespace CtrlPt
namespace Http

open CText Uri Resume

/-- The `doc_length+1` bytes that are moved to the front of the buffer, which has a NUL
behind its last byte. -/
def HttpParser.document (p : HttpParser) : List UInt8 :=
  ((p.msg.msg++[0]).drop p.msg.entity.buf).take (p.msg.entity.length+1)

/-- The document is the entity, as a C string. -/
structure Terminated (p : HttpParser) : Prop where
  inside : p.msg.entity.buf+p.msg.entity.length ≤ p.msg.msg.length
  document : p.document = p.entityBytes++[0]

def lastRound (res : Resolver) (p : HttpParser) : HttpParser :=
  let q := Loop.last positionMeasure (Loop.doWhile (· == .ok) (parserStep res)) p
  if q.position = .entity then
    Loop.last entityMeasure (Loop.doWhile (· == .continue1) entityStep) q
  else q

def recvLast (res : Resolver) : SockInfo → HttpParser → HttpParser
  | [], p => p
  | .error _ _::_, p => p
  | .data x _ _::sock, p =>
    let r := parserAppend res p x
    if waitsForMore r.1 then recvLast res sock r.2 else lastRound res (p.append x)

/-- Trailers are taken out of the buffer whole, and no byte but a NUL stands behind them: the
cursor is still at the end of the entity, and the header block there ends the buffer, or a NUL
follows. -/
def CleanEnd (q : HttpParser) : Prop :=
  q.entPosition = .chunkyHeaders →
    q.cursor = q.entityStartPosition+q.msg.entity.length ∧
      ∃ fields w, HeaderBlock q.rest fields w ∧ (w = [] ∨ w.head? = some 0)

theorem take_succ_drop {l : List UInt8} {b n : ℕ} (h : b+n ≤ l.length) :
    ((l++[0]).drop b).take (n+1) = (l.drop b).take n++[(l.drop (b+n)).headD 0] := by
  have hlen : b ≤ l.length := by omega
  have hn : n ≤ (l.drop b).length := by
    rw [List.length_drop]
    omega
  rw [List.drop_append_of_le_length hlen,← List.drop_drop]
  generalize l.drop b = m at hn ⊢
  rw [List.take_append]
  by_cases he : n = m.length
  · subst he
    rw [List.take_of_length_le (Nat.le_succ _),List.take_length,List.drop_length,
      Nat.add_sub_cancel_left]
    rfl
  · have hlt : n < m.length := by omega
    rw [show n+1-m.length = 0 by omega,List.take_zero,List.append_nil,List.take_add_one,
      List.getElem?_eq_getElem hlt,List.drop_eq_getElem_cons hlt]
    rfl

/-- The document ends with the byte behind the entity, or the NUL behind the buffer. -/
theorem terminated_iff {p : HttpParser}
    (h : p.msg.entity.buf+p.msg.entity.length ≤ p.msg.msg.length) :
    Terminated p ↔
      (p.msg.msg.drop (p.msg.entity.buf+p.msg.entity.length)).headD 0 = 0 := by
  have hd : p.document = p.entityBytes++
      [(p.msg.msg.drop (p.msg.entity.buf+p.msg.entity.length)).headD 0] := take_succ_drop h
  constructor
  · rintro ⟨-,hdoc⟩
    rw [hd] at hdoc
    simpa using List.append_cancel_left hdoc
  · intro h0
    exact ⟨h,by rw [hd,h0]⟩

theorem terminated_of_end {p : HttpParser}
    (h : p.msg.entity.buf+p.msg.entity.length = p.msg.msg.length) : Terminated p := by
  rw [terminated_iff (Nat.le_of_eq h),h,List.drop_length]
  rfl

/-- What the parser of a response keeps in the body. Trailer lines that have been read
begin where the entity ends. -/
structure InResponse (p : HttpParser) : Prop where
  framed : Framed p
  position : p.position = .entity
  response : p.msg.isRequest = false
  trailers : p.entPosition = .chunkyHeaders →
    p.cursor = p.entityStartPosition+p.msg.entity.length ∨
      ∃ c v, p.msg.msg.drop (p.entityStartPosition+p.msg.entity.length) = c::v ∧ c ≠ 0

theorem InResponse.append {p : HttpParser} (h : InResponse p) (x : List UInt8) :
    InResponse (p.append x) := by
  refine ⟨h.framed.append x,h.position,h.response,fun hp => ?_⟩
  refine (h.trailers hp).imp id ?_
  rintro ⟨c,v,hcv,hc⟩
  have hle := Nat.le_trans (h.framed.entity_le hp) h.framed.cursor_le
  refine ⟨c,v++x,?_,hc⟩
  have hd : (p.append x).msg.msg.drop (p.entityStartPosition+p.msg.entity.length) = (c::v)++x := by
    rw [HttpParser.append_msg,List.drop_append_of_le_length hle,hcv]
  exact hd

theorem identifier_ne_nul {c : UInt8} (h : isIdentifierChar c = true) : c ≠ 0 := by
  rintro rfl
  revert h
  decide

theorem parserParseHeaders_moves {p : HttpParser}
    (hw : waitsForMore (parserParseHeaders p).1 = true) :
    (parserParseHeaders p).2.cursor = p.cursor ∨
      ∃ c v, p.rest = c::v ∧ isIdentifierChar c = true := by
  cases hr : headerRound p with
  | inr r =>
    left
    have hv : parserParseHeaders p = r := Loop.run_inr hr
    rw [hv] at hw ⊢
    rcases headerRound_cases p with ⟨st,n,-,he⟩ | ⟨t,n,-,⟨-,he⟩ | ⟨-,-,he⟩ | ⟨-,-,he⟩ | ⟨-,-,he⟩⟩ <;>
      rw [he] at hr <;> cases hr
    · rfl
    · rw [endHeaders_status] at hw
      cases hw
    · rfl
    · cases hw
  | inl q =>
    right
    rcases headerRound_line hr with ⟨line,name,value,hrest,hl,-⟩
    rcases hl.parts with ⟨a,b,raw,brk,rfl,-⟩
    obtain ⟨c,n,hn⟩ := List.exists_cons_of_ne_nil hl.name_ne
    refine ⟨c,_,by rw [hrest,hn]; rfl,hl.name_chars c (by simp [hn])⟩

theorem InResponse.of_plain {p : HttpParser} (hf : Framed p) (hp : p.position = .entity)
    (hr : p.msg.isRequest = false) (he : p.entPosition ≠ .chunkyHeaders) : InResponse p :=
  ⟨hf,hp,hr,fun h => absurd h he⟩

theorem parserParseChunkyEntity_inResponse {p : HttpParser} (h : InResponse p)
    (hp : p.entPosition = .usingChunked) : InResponse (parserParseChunkyEntity p).2 := by
  have hf := parserParseChunkyEntity_framed h.framed hp
  have hlast : ∀ q : HttpParser, (beginChunk q).msg.isRequest = q.msg.isRequest := by
    intro q
    unfold beginChunk
    split <;> rfl
  refine ⟨hf.1,hf.2.trans h.position,?_,?_⟩
  · simp only [parserParseChunkyEntity]
    split
    · rw [storeChunkSize_msg]
      exact h.response
    · rw [hlast]
      simp only [HttpParser.deleteTo,HttpParser.advance,storeChunkSize_msg]
      exact h.response
  · intro hc
    left
    have hstart := h.framed.start_le (by rw [hp]; rintro ⟨⟩)
    have hd := h.framed.discarded
    simp only [parserParseChunkyEntity] at hc ⊢
    split
    · rename_i hm
      rw [if_pos hm,storeChunkSize_entPosition,hp] at hc
      cases hc
    · rename_i hm
      rw [if_neg hm] at hc
      unfold beginChunk at hc ⊢
      split
      · simp [HttpParser.setEntity,HttpParser.deleteTo,HttpParser.advance,hd]
        omega
      · rename_i hz
        rw [if_neg hz] at hc
        cases hc

theorem entityStep_inResponse {p : HttpParser} (h : InResponse p)
    (hw : (entityStep p).1 = .continue1 ∨ waitsForMore (entityStep p).1 = true) :
    InResponse (entityStep p).2 := by
  have hf := entityStep_framed h.framed hw
  have hpos := hf.2.trans h.position
  cases he : p.entPosition with
  | usingClen =>
    simp only [entityStep,he] at hf hpos ⊢
    refine .of_plain hf.1 hpos ?_ ?_ <;> simp only [parserParseEntityUsingClen] <;> split
    · exact h.response
    · exact h.response
    · exact fun hc => by cases he.symm.trans hc
    · exact fun hc => by cases he.symm.trans hc
  | usingChunked =>
    simp only [entityStep,he]
    exact parserParseChunkyEntity_inResponse h he
  | chunkyBody =>
    simp only [entityStep,he] at hf hpos ⊢
    refine .of_plain hf.1 hpos ?_ ?_ <;> simp only [parserParseChunkyBody] <;> split
    · split <;> exact h.response
    · exact h.response
    · split
      · exact fun hc => by cases he.symm.trans hc
      · rintro ⟨⟩
    · exact fun hc => by cases he.symm.trans hc
  | chunkyHeaders =>
    simp only [entityStep,he] at hf hpos hw ⊢
    rw [parserParseChunkyHeaders_eq] at hf hpos hw ⊢
    have hh := parserParseHeaders_frame h.framed.cursor_le
    split
    · rename_i hok
      rw [if_pos hok] at hw
      rcases hw with hw | hw <;> cases hw
    · rename_i hok
      rw [if_neg hok] at hf hpos hw
      have hwait := hw.resolve_left (parserParseHeaders_status p).not_continue
      refine ⟨hf.1,hpos,hh.isRequest.trans h.response,fun _ => ?_⟩
      rw [hh.start,hh.entity,hh.buffer]
      rcases h.trailers he with hcur | hrest
      · rcases parserParseHeaders_moves hwait with hm | ⟨c,v,hcv,hc⟩
        · exact .inl (hm.trans hcur)
        · exact .inr ⟨c,v,hcur ▸ hcv,identifier_ne_nul hc⟩
      · exact .inr hrest
  | untilClose =>
    simp only [entityStep,he] at hf hpos ⊢
    exact .of_plain hf.1 hpos h.response fun hc => by cases he.symm.trans hc
  | determineReadMethod =>
    simp only [entityStep,he] at hf hpos hw ⊢
    have hx := readMethod_setEntity p ⟨p.cursor,0⟩
    cases hr : readMethod p.msg <;> rw [hr] at hx <;>
      simp only [parserGetEntityReadMethod,hx] at hf hpos hw ⊢
    · rcases hw with hw | hw <;> cases hw
    · exact .of_plain hf.1 hpos h.response (by rintro ⟨⟩)
    · exact .of_plain hf.1 hpos h.response (by rintro ⟨⟩)
    · rcases hw with hw | hw <;> cases hw
    · exact .of_plain hf.1 hpos h.response (by rintro ⟨⟩)

/-- Only a request can be complete behind its headers. -/
theorem parserParseHeaders_success_request {p : HttpParser}
    (h : (parserParseHeaders p).1 = .success) : p.msg.isRequest = true := by
  revert h
  refine Loop.run_induction headerRound_descends (e := fun q : HttpParser => (ParseStatus.failure,q))
    (P := fun p r => r.1 = .success → p.msg.isRequest = true) ?_ ?_ p
  · intro p r hr h
    rcases headerRound_cases p with ⟨st,n,-,he⟩ | ⟨t,n,-,⟨-,he⟩ | ⟨-,hm,he⟩ | ⟨-,-,he⟩ | ⟨-,-,he⟩⟩ <;>
      rw [he] at hr <;> cases hr
    · cases st <;> cases h
    · unfold endHeaders at h
      split at h
      · rename_i hreq
        exact hreq.1
      · cases h
    · rcases scannerMatch_status headerFmt (p.advance n).rest with hs | ⟨st,hs⟩
      · exact absurd hs hm
      · simp only [hs] at h
        cases st <;> cases h
    · cases h
  · intro p q hq ih h
    rcases headerRound_cases p with ⟨st,n,-,he⟩ | ⟨t,n,-,⟨-,he⟩ | ⟨-,-,he⟩ | ⟨-,-,he⟩ | ⟨-,-,he⟩⟩ <;>
      rw [he] at hq <;> cases hq
    exact ih h

theorem usingClen_terminated {p : HttpParser} (h : InResponse p) (hp : p.entPosition = .usingClen)
    (hs : (parserParseEntityUsingClen p).1 = .success) :
    Terminated (parserParseEntityUsingClen p).2 := by
  have hstart := h.framed.start_le (by rw [hp]; rintro ⟨⟩)
  have hle := h.framed.cursor_le
  have hd := h.framed.discarded
  simp only [parserParseEntityUsingClen,hd,Nat.add_zero,Nat.sub_zero] at hs ⊢
  by_cases hlt : p.msg.msg.length-p.entityStartPosition < p.contentLength
  · rw [if_pos hlt] at hs
    cases hs
  · rw [if_neg hlt]
    by_cases hcut : p.contentLength < p.msg.msg.length-p.entityStartPosition
    · have hin : p.entityStartPosition+p.contentLength < p.msg.msg.length := by omega
      rw [terminated_iff] <;> simp only [if_pos hcut]
      · rw [List.drop_set,if_neg (Nat.lt_irrefl _),Nat.sub_self,List.drop_eq_getElem_cons hin]
        rfl
      · rw [List.length_set]
        omega
    · apply terminated_of_end
      simp only [if_neg hcut]
      omega

theorem headD_nul_iff (w : List UInt8) : w.headD 0 = 0 ↔ w = [] ∨ w.head? = some 0 := by
  cases w <;> simp

/-- The trailers are deleted from where the cursor was. -/
theorem chunkyHeaders_terminated_iff {p : HttpParser} (h : InResponse p)
    (hp : p.entPosition = .chunkyHeaders) (hs : (parserParseChunkyHeaders p).1 = .success) :
    Terminated (parserParseChunkyHeaders p).2 ↔ CleanEnd p := by
  have hh := parserParseHeaders_frame h.framed.cursor_le
  have hle := h.framed.cursor_le
  have hend := h.framed.entity_le hp
  rw [parserParseChunkyHeaders_eq] at hs ⊢
  by_cases hok : (parserParseHeaders p).1 = .ok
  · rcases parserParseHeaders_block (.inl hok) with ⟨fields,hblock,-⟩
    have hrest : (parserParseHeaders p).2.rest =
        p.msg.msg.drop (parserParseHeaders p).2.cursor := by
      rw [HttpParser.rest,hh.buffer]
    rw [if_pos hok,terminated_iff]
    · have hbuf : (endTrailers ((parserParseHeaders p).2.deleteTo p.cursor)).msg.msg =
          p.msg.msg.take p.cursor++(parserParseHeaders p).2.rest := by
        simp only [endTrailers,HttpParser.setEntity,HttpParser.deleteTo,hh.buffer,hrest]
      have hpos : (endTrailers ((parserParseHeaders p).2.deleteTo p.cursor)).msg.entity.buf+
          (endTrailers ((parserParseHeaders p).2.deleteTo p.cursor)).msg.entity.length =
            p.entityStartPosition+p.msg.entity.length := by
        simp only [endTrailers,HttpParser.setEntity,HttpParser.deleteTo,hh.start,hh.entity]
      rw [hbuf,hpos,List.drop_append_of_le_length (by rw [List.length_take]; omega)]
      by_cases hcur : p.cursor = p.entityStartPosition+p.msg.entity.length
      · have hnil : (p.msg.msg.take p.cursor).drop p.cursor = [] := by
          rw [List.drop_eq_nil_iff,List.length_take]
          omega
        rw [← hcur,hnil,List.nil_append,headD_nul_iff]
        constructor
        · exact fun hw => fun _ => ⟨hcur,fields,_,hblock,hw⟩
        · intro hclean
          rcases hclean hp with ⟨-,fields',w,hblock',hw⟩
          rwa [hblock.unique hblock']
      · rcases h.trailers hp with hc | ⟨c,v,hcv,hc⟩
        · exact absurd hc hcur
        · have hcons : ∃ v', (p.msg.msg.take p.cursor).drop
              (p.entityStartPosition+p.msg.entity.length) = c::v' := by
            rw [List.drop_take,hcv,show p.cursor-(p.entityStartPosition+p.msg.entity.length) =
              (p.cursor-(p.entityStartPosition+p.msg.entity.length)-1)+1 by omega]
            exact ⟨_,List.take_succ_cons⟩
          rcases hcons with ⟨v',hv'⟩
          rw [hv',List.cons_append,List.headD_cons]
          exact ⟨fun h0 => absurd h0 hc,fun hclean => absurd (hclean hp).1 hcur⟩
    · simp [endTrailers,HttpParser.setEntity,HttpParser.deleteTo,hh.start,hh.entity,hh.buffer]
      omega
  · rw [if_neg hok] at hs
    have hreq := parserParseHeaders_success_request hs
    rw [h.response] at hreq
    cases hreq

theorem entityStep_terminated_iff {p : HttpParser} (h : InResponse p)
    (hs : (entityStep p).1 = .success) (hne : (entityStep p).2.msg.entity.length ≠ 0) :
    Terminated (entityStep p).2 ↔ CleanEnd p := by
  have hclean : p.entPosition ≠ .chunkyHeaders → CleanEnd p := fun hp hc => absurd hc hp
  cases he : p.entPosition with
  | usingClen =>
    simp only [entityStep,he] at hs ⊢
    exact iff_of_true (usingClen_terminated h he hs) (hclean (by rw [he]; rintro ⟨⟩))
  | usingChunked =>
    simp only [entityStep,he] at hs
    exact absurd hs (parserParseChunkyEntity_status p).1
  | chunkyBody =>
    simp only [entityStep,he] at hs
    exact absurd hs (parserParseChunkyBody_status p).1
  | chunkyHeaders =>
    simp only [entityStep,he] at hs ⊢
    exact chunkyHeaders_terminated_iff h he hs
  | untilClose =>
    simp only [entityStep,he] at hs
    cases hs
  | determineReadMethod =>
    simp only [entityStep,he] at hs hne
    rw [(parserGetEntityReadMethod_success hs).1] at hne
    exact absurd rfl hne

/-- A parser of a response, in the head or in the body. -/
inductive Receiving (p : HttpParser) : Prop
  | head (h : Heading p) (hr : p.msg.isRequest = false) : Receiving p
  | body (h : InResponse p) : Receiving p

theorem Receiving.append {p : HttpParser} (h : Receiving p) (x : List UInt8) :
    Receiving (p.append x) := by
  cases h with
  | head h hr => exact .head (h.append x) hr
  | body h => exact .body (h.append x)

theorem Behind.inResponse {p : HttpParser} (h : Behind p) (hr : p.msg.isRequest = false) :
    InResponse p :=
  .of_plain h.framed h.position hr (by rw [h.entPosition]; rintro ⟨⟩)

theorem entityRound_inResponse {p q : HttpParser} (h : InResponse p)
    (hq : Loop.doWhile (· == .continue1) entityStep p = .inl q) : InResponse q := by
  rcases Loop.doWhile_inl hq with ⟨ha,rfl⟩
  exact entityStep_inResponse h (.inl (beq_iff_eq.mp ha))

theorem parserRound_receiving {res : Resolver} {p q : HttpParser} (h : Receiving p)
    (hq : Loop.doWhile (· == .ok) (parserStep res) p = .inl q) : Receiving q := by
  rcases Loop.doWhile_inl hq with ⟨ha,rfl⟩
  have hok : (parserStep res p).1 = .ok := beq_iff_eq.mp ha
  cases h with
  | head h hr =>
    have hs := h.step res
    have hreq := hs.frame.isRequest.trans hr
    rcases hs.done hok with hd | ⟨hp,-⟩
    · exact .head (h.next (.inl hok) (by rw [hd]; rintro ⟨⟩)) hreq
    · exact .body ((h.behind res hp hok).inResponse hreq)
  | body h =>
    rw [parserStep_entity res h.position] at hok
    exact absurd hok (parserParseEntity_status p)

theorem lastRound_spec (res : Resolver) {p : HttpParser} (h : Receiving p)
    (hne : (parserParse res p).2.msg.entity.length ≠ 0) :
    InResponse (lastRound res p) ∧ entityStep (lastRound res p) = parserParse res p := by
  have hlast := Loop.last_spec (e := fun q : HttpParser => (ParseStatus.failure,q))
    (parserStep_descends res) (fun _ _ => parserRound_receiving) p h
  have hp : parserStep res (Loop.last positionMeasure (Loop.doWhile (· == .ok) (parserStep res)) p) =
      parserParse res p := (Loop.doWhile_inr hlast.2).2
  unfold lastRound
  generalize Loop.last positionMeasure (Loop.doWhile (· == .ok) (parserStep res)) p = q at hlast hp
  cases hlast.1 with
  | head hq hr =>
    rw [← hp,(hq.step res).frame.entity,hq.parsing.fresh hq.position] at hne
    exact absurd rfl hne
  | body hq =>
    rw [if_pos hq.position,← hp,parserStep_entity res hq.position]
    have hl := Loop.last_spec (e := fun q : HttpParser => (ParseStatus.failure,q))
      entityStep_descends (fun _ _ => entityRound_inResponse) q hq
    exact ⟨hl.1,(Loop.doWhile_inr hl.2).2⟩

theorem parserParseEntity_inResponse {p : HttpParser} (h : InResponse p)
    (hw : waitsForMore (parserParseEntity p).1 = true) : InResponse (parserParseEntity p).2 := by
  have hl := Loop.last_spec (e := fun q : HttpParser => (ParseStatus.failure,q))
    entityStep_descends (fun _ _ => entityRound_inResponse) p h
  have he : entityStep _ = parserParseEntity p := (Loop.doWhile_inr hl.2).2
  rw [← he] at hw ⊢
  exact entityStep_inResponse hl.1 (.inr hw)

theorem parserParse_receiving (res : Resolver) {p : HttpParser} (h : Receiving p)
    (hw : waitsForMore (parserParse res p).1 = true) : Receiving (parserParse res p).2 := by
  have hlast := Loop.last_spec (e := fun q : HttpParser => (ParseStatus.failure,q))
    (parserStep_descends res) (fun _ _ => parserRound_receiving) p h
  have hp : parserStep res _ = parserParse res p := (Loop.doWhile_inr hlast.2).2
  rw [← hp] at hw ⊢
  cases hlast.1 with
  | head hq hr =>
    have hs := hq.step res
    refine .head (hq.next (.inr hw) ?_) (hs.frame.isRequest.trans hr)
    rw [hs.waiting hw]
    rcases hq.position with hpos | hpos | hpos <;> rw [hpos] <;> rintro ⟨⟩
  | body hq =>
    rw [parserStep_entity res hq.position] at hw ⊢
    exact .body (parserParseEntity_inResponse hq hw)

theorem parserParse_not_continue (res : Resolver) {p : HttpParser} (h : Receiving p) :
    (parserParse res p).1 ≠ .continue1 := by
  have hlast := Loop.last_spec (e := fun q : HttpParser => (ParseStatus.failure,q))
    (parserStep_descends res) (fun _ _ => parserRound_receiving) p h
  have hp : parserStep res _ = parserParse res p := (Loop.doWhile_inr hlast.2).2
  rw [← hp]
  cases hlast.1 with
  | head hq hr => exact (hq.step res).not_continue
  | body hq =>
    rw [parserStep_entity res hq.position]
    exact parserParseEntity_not_continue _

/-- A body that is read until the connection is closed. -/
structure UntilClose (p : HttpParser) : Prop where
  response : InResponse p
  entPosition : p.entPosition = .untilClose
  terminated : Terminated p

theorem parserParseEntityUntilClose_terminated {p : HttpParser} (h : InResponse p)
    (hp : p.entPosition = .untilClose) : Terminated (parserParseEntityUntilClose p).2 := by
  have hstart := h.framed.start_le (by rw [hp]; rintro ⟨⟩)
  have hle := h.framed.cursor_le
  have hd := h.framed.discarded
  apply terminated_of_end
  simp only [parserParseEntityUntilClose,HttpParser.setEntity,hd]
  omega

theorem entityStep_untilClose {p : HttpParser} (h : InResponse p)
    (hi : (entityStep p).1 = .incompleteEntity) : UntilClose (entityStep p).2 := by
  have hr := entityStep_inResponse h (.inr (by rw [hi]; rfl))
  cases he : p.entPosition with
  | usingClen =>
    simp only [entityStep,he,parserParseEntityUsingClen] at hi
    split at hi <;> cases hi
  | usingChunked =>
    simp only [entityStep,he,parserParseChunkyEntity] at hi
    rcases scannerMatch_status chunkFmt p.rest with hm | ⟨st,hm⟩
    · simp only [hm] at hi
      cases hi
    · simp only [hm,if_pos (status_ne_ok st)] at hi
      cases st <;> cases hi
  | chunkyBody =>
    simp only [entityStep,he,parserParseChunkyBody] at hi
    split at hi
    · rcases scannerMatch_status crlfFmt (p.advance p.chunkSize).rest with hm | ⟨st,hm⟩
      · simp only [hm] at hi
        cases hi
      · simp only [hm,if_pos (status_ne_ok st)] at hi
        cases st <;> cases hi
    · cases hi
  | chunkyHeaders =>
    simp only [entityStep,he,parserParseChunkyHeaders_eq] at hi
    split at hi
    · cases hi
    · exact absurd hi (parserParseHeaders_status p).not_entity
  | untilClose =>
    simp only [entityStep,he] at hr ⊢
    exact ⟨hr,he,parserParseEntityUntilClose_terminated h he⟩
  | determineReadMethod =>
    simp only [entityStep,he,parserGetEntityReadMethod,readMethod_setEntity] at hi
    cases hm : readMethod p.msg <;> simp only [hm] at hi <;> cases hi

theorem parserParse_untilClose (res : Resolver) {p : HttpParser} (h : Receiving p)
    (hi : (parserParse res p).1 = .incompleteEntity) : UntilClose (parserParse res p).2 := by
  have hlast := Loop.last_spec (e := fun q : HttpParser => (ParseStatus.failure,q))
    (parserStep_descends res) (fun _ _ => parserRound_receiving) p h
  have hp : parserStep res _ = parserParse res p := (Loop.doWhile_inr hlast.2).2
  rw [← hp] at hi ⊢
  cases hlast.1 with
  | head hq hr => exact absurd hi (hq.step res).not_entity
  | body hq =>
    rw [parserStep_entity res hq.position] at hi ⊢
    have hl := Loop.last_spec (e := fun q : HttpParser => (ParseStatus.failure,q))
      entityStep_descends (fun _ _ => entityRound_inResponse) _ hq
    have he : entityStep _ = parserParseEntity _ := (Loop.doWhile_inr hl.2).2
    rw [← he] at hi ⊢
    exact entityStep_untilClose hl.1 hi

theorem UntilClose.read {p : HttpParser} (h : UntilClose p) (res : Resolver) (x : List UInt8) :
    (parserAppend res p x).1 = .incompleteEntity := by
  have hstep : entityStep (p.append x) = parserParseEntityUntilClose (p.append x) := by
    simp only [entityStep,HttpParser.append_entPosition,h.entPosition]
  rw [parserAppend,parserParse_entity res (h.response.append x).position,
    parserParseEntity_done (by rw [hstep]; rintro ⟨⟩),hstep]
  rfl

theorem recvLoop_document_iff (res : Resolver) (maxContentLength : ℕ) (sock : SockInfo)
    {okOnClose : Bool} {p : HttpParser} (h : Receiving p) (hok : okOnClose = true → UntilClose p)
    (hc : (recvLoop res maxContentLength sock okOnClose p).code = upnpESuccess)
    (hne : (recvLoop res maxContentLength sock okOnClose p).parser.msg.entity.length ≠ 0) :
    Terminated (recvLoop res maxContentLength sock okOnClose p).parser ↔
      CleanEnd (recvLast res sock p) := by
  induction sock generalizing okOnClose p with
  | nil =>
    cases okOnClose with
    | false => cases hc
    | true =>
      have hu := hok rfl
      refine iff_of_true hu.terminated fun he => ?_
      rw [show recvLast res [] p = p from rfl,hu.entPosition] at he
      cases he
  | cons read sock ih =>
    cases read with
    | error code neg =>
      simp only [recvLoop] at hc
      rw [hc] at neg
      exact absurd neg (by decide)
    | data x hpos hfits =>
      have hx := h.append x
      rcases hr : parserAppend res p x with ⟨st,q⟩
      have hv : parserParse res (p.append x) = (st,q) := hr
      simp only [recvLoop,recvLast,hr] at hc hne ⊢
      cases st with
      | success =>
        have hq : (recvComplete maxContentLength q).parser = q := by
          unfold recvComplete
          split <;> rfl
        simp only [hq] at hne ⊢
        have hlast := lastRound_spec res hx (by rw [hv]; exact hne)
        rw [hv] at hlast
        have hiff := entityStep_terminated_iff hlast.1 (by rw [hlast.2]) (by rw [hlast.2]; exact hne)
        rw [hlast.2] at hiff
        exact hiff
      | failure => cases hc
      | noMatch => cases hc
      | incompleteEntity =>
        have hu := parserParse_untilClose res hx (by rw [hv])
        rw [hv] at hu
        exact ih (.body hu.response) (fun _ => hu) hc hne
      | continue1 => exact absurd (congrArg Prod.fst hv) (parserParse_not_continue res hx)
      | incomplete =>
        have hn := parserParse_receiving res hx (by rw [hv]; rfl)
        rw [hv] at hn
        refine ih hn (fun ht => ?_) hc hne
        have hi := (hok ht).read res x
        rw [hr] at hi
        cases hi
      | ok => exact absurd (congrArg Prod.fst hv) (parserParse_status res _)

/-- The document of a response is the entity and a NUL if and only if no trailer line was read
before the last round, and nothing but a NUL stands behind the message then. -/
theorem httpRecvMessage_document_iff (res : Resolver) (maxContentLength : ℕ) (method : HttpMethod)
    (hmethod : method ≠ .unknown) (sock : SockInfo)
    (hc : (httpRecvMessage res maxContentLength method sock).code = upnpESuccess)
    (hne : (httpRecvMessage res maxContentLength method sock).parser.msg.entity.length ≠ 0) :
    Terminated (httpRecvMessage res maxContentLength method sock).parser ↔
      CleanEnd (recvLast res sock (recvInit method)) := by
  have hr : (recvInit method).msg.isRequest = false := by
    rw [recvInit,if_neg hmethod]
    rfl
  exact recvLoop_document_iff res maxContentLength sock (.head (recvInit_heading method) hr)
    (by rintro ⟨⟩) hc hne

def oneChunk : List UInt8 :=
  cstr "HTTP/1.1 200 OK\r\nTransfer-Encoding: chunked\r\n\r\n1\r\na\r\n0\r\n"

theorem httpRecvMessage_document_clean :
    Terminated (httpRecvMessage Resolver.empty 0 .get
        [.data (oneChunk++[cr,lf]) (by decide) (by decide)]).parser ↔
      CleanEnd (recvLast Resolver.empty [.data (oneChunk++[cr,lf]) (by decide) (by decide)]
        (recvInit .get)) :=
  httpRecvMessage_document_iff Resolver.empty 0 .get (by decide) _ (by decide)
    (by decide)

example : (httpRecvMessage Resolver.empty 0 .get
    [.data (oneChunk++[cr,lf]) (by decide) (by decide)]).parser.document = [97,0] := by
  decide

/-- One byte follows the message, and the document ends with it. -/
theorem surplus_unterminated : ¬ ∀ (res : Resolver) (maxContentLength : ℕ) (method : HttpMethod)
    (sock : SockInfo), method ≠ .unknown →
      (httpRecvMessage res maxContentLength method sock).code = upnpESuccess →
      (httpRecvMessage res maxContentLength method sock).parser.msg.entity.length ≠ 0 →
      Terminated (httpRecvMessage res maxContentLength method sock).parser := by
  intro h
  have ht := h Resolver.empty 0 .get
    [.data (oneChunk++[cr,lf,88]) (by decide) (by decide)] (by decide) (by decide)
    (by decide)
  have hd := ht.document
  revert hd
  decide

end Http
end CtrlPt
