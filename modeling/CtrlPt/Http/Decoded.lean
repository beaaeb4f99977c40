import CtrlPt.Http.Limit
import CtrlPt.Http.Post

/-! The decoded part of an entity. While the parser waits for more of a message, the bytes
that it has found to be of the entity are at the start position; what it does next only adds
to them. -/
namespace CtrlPt
namespace Http

open CText

/-- The bytes that are known to be of the entity. -/
def HttpParser.decoded (p : HttpParser) : List UInt8 :=
  if p.entPosition = .determineReadMethod then []
  else (p.msg.msg.drop p.entityStartPosition).take p.msg.entity.length

theorem decoded_nil {p : HttpParser} (h : p.entPosition = .determineReadMethod) :
    p.decoded = [] := if_pos h

theorem decoded_eq {p : HttpParser} (h : p.entPosition ≠ .determineReadMethod) :
    p.decoded = (p.msg.msg.drop p.entityStartPosition).take p.msg.entity.length := if_neg h

/-- The decoded bytes are in the buffer, and none of them is framing. -/
structure Counted (p : HttpParser) : Prop extends Framed p where
  inBuffer : p.entPosition ≠ .determineReadMethod →
    p.entityStartPosition+p.msg.entity.length ≤ p.msg.msg.length
  clen : p.entPosition = .usingClen → p.msg.entity.length ≤ p.contentLength
  chunked : p.entPosition = .usingChunked ∨ p.entPosition = .chunkyBody →
    p.entityStartPosition+p.msg.entity.length ≤ p.cursor

/-- The decoded bytes are those a message view shows. -/
structure Settled (q : HttpParser) : Prop where
  entityBytes : q.decoded = q.entityBytes
  length : q.decoded.length = q.msg.entity.length

theorem settled_of {q : HttpParser} (hne : q.entPosition ≠ .determineReadMethod)
    (hb : q.msg.entity.buf = q.entityStartPosition)
    (hl : q.entityStartPosition+q.msg.entity.length ≤ q.msg.msg.length) : Settled q := by
  constructor
  · simp only [decoded_eq hne,HttpParser.entityBytes,HttpParser.messageView,HttpParser.view,hb]
  · simp only [decoded_eq hne,List.length_take,List.length_drop]
    omega

theorem settled_nil {q : HttpParser} (h : q.entPosition = .determineReadMethod)
    (hz : q.msg.entity.length = 0) : Settled q := by
  constructor
  · simp only [decoded_nil h,HttpParser.entityBytes,HttpParser.messageView,HttpParser.view,hz,
      List.take_zero]
  · rw [decoded_nil h,hz]
    rfl

theorem Counted.settled {p : HttpParser} (h : Counted p)
    (hne : p.entPosition ≠ .determineReadMethod) : Settled p :=
  settled_of hne (h.buf_eq hne) (h.inBuffer hne)

theorem Counted.append {p : HttpParser} (h : Counted p) (x : List UInt8) :
    Counted (p.append x) := by
  refine ⟨h.toFramed.append x,fun hne => ?_,h.clen,h.chunked⟩
  have hl := h.inBuffer hne
  simp only [HttpParser.append,List.length_append]
  omega

theorem prefix_of_take {a b : List UInt8} {s n m : ℕ} (hab : b.take (s+n) = a.take (s+n))
    (hnm : n ≤ m) : (a.drop s).take n <+: (b.drop s).take m := by
  have he : (a.drop s).take n = (b.drop s).take n := by
    rw [List.take_drop,List.take_drop,hab]
  rw [he]
  exact List.take_prefix_take_left hnm

theorem decoded_grows {p q : HttpParser} (hne : q.entPosition ≠ .determineReadMethod)
    (hs : q.entityStartPosition = p.entityStartPosition)
    (hl : p.msg.entity.length ≤ q.msg.entity.length)
    (hb : q.msg.msg.take (p.entityStartPosition+p.msg.entity.length) =
      p.msg.msg.take (p.entityStartPosition+p.msg.entity.length)) :
    p.decoded <+: q.decoded := by
  rw [decoded_eq hne,hs]
  by_cases hp : p.entPosition = .determineReadMethod
  · rw [decoded_nil hp]
    exact List.nil_prefix
  · rw [decoded_eq hp]
    exact prefix_of_take hb hl

theorem decoded_append {p : HttpParser} (h : Counted p) (x : List UInt8) :
    (p.append x).decoded = p.decoded := by
  by_cases hne : p.entPosition = .determineReadMethod
  · rw [decoded_nil hne,decoded_nil (p := p.append x) hne]
  · have hl := h.inBuffer hne
    rw [decoded_eq hne,decoded_eq (p := p.append x) hne]
    simp only [HttpParser.append]
    rw [List.drop_append_of_le_length (by omega),List.take_append_of_le_length]
    rw [List.length_drop]
    omega

/-- What a step makes of a parser that has counted its bytes. -/
structure Grown (p : HttpParser) (r : ParseStatus × HttpParser) : Prop where
  grows : p.decoded <+: r.2.decoded
  counted : r.1 = .continue1 ∨ waitsForMore r.1 = true → Counted r.2
  settled : r.1 = .success ∨ waitsForMore r.1 = true → Settled r.2

theorem grown_self {p : HttpParser} {st : ParseStatus} (h : Counted p)
    (hne : p.entPosition ≠ .determineReadMethod) : Grown p (st,p) :=
  ⟨List.prefix_refl _,fun _ => h,fun _ => h.settled hne⟩

theorem parserParseEntityUsingClen_grown {p : HttpParser} (h : Counted p)
    (hp : p.entPosition = .usingClen) : Grown p (parserParseEntityUsingClen p) := by
  have hne : p.entPosition ≠ .determineReadMethod := by rw [hp]; rintro ⟨⟩
  have hbuf := h.inBuffer hne
  have hclen := h.clen hp
  have hd := h.discarded
  unfold parserParseEntityUsingClen
  simp only [hd,Nat.add_zero,Nat.sub_zero]
  split
  · rename_i hlt
    have hc : Counted (p.setEntity { p.msg.entity with
        length := p.msg.msg.length-p.entityStartPosition }) := by
      refine ⟨⟨h.cursor_le,hd,h.start_le,h.buf_eq,fun hc => ?_⟩,fun _ => ?_,fun _ => ?_,fun hc => ?_⟩
      · have hc' : p.entPosition = .chunkyHeaders := hc
        rw [hp] at hc'
        cases hc'
      · simp
        omega
      · exact Nat.le_of_lt hlt
      · have hc' : p.entPosition = .usingChunked ∨ p.entPosition = .chunkyBody := hc
        rw [hp] at hc'
        rcases hc' with hc' | hc' <;> cases hc'
    refine ⟨?_,fun _ => hc,fun _ => hc.settled hne⟩
    refine decoded_grows hne rfl ?_ rfl
    simp
    omega
  · rename_i hlt
    refine ⟨decoded_grows hne rfl hclen ?_,(by rintro (⟨⟨⟩⟩ | ⟨⟨⟩⟩)),fun _ => settled_of hne rfl ?_⟩
    · show (if _ then _ else _ : List UInt8).take _ = _
      split
      · rw [List.take_set_of_le (by omega)]
      · rfl
    · show p.entityStartPosition+p.contentLength ≤ (if _ then _ else _ : List UInt8).length
      split
      · rw [List.length_set]
        omega
      · omega

theorem parserParseEntityUntilClose_grown {p : HttpParser} (h : Counted p)
    (hp : p.entPosition = .untilClose) : Grown p (parserParseEntityUntilClose p) := by
  have hne : p.entPosition ≠ .determineReadMethod := by rw [hp]; rintro ⟨⟩
  have hbuf := h.inBuffer hne
  have hd := h.discarded
  have hf := (entityStep_framed h.toFramed (.inr (by simp only [entityStep,hp]; rfl))).1
  simp only [entityStep,hp] at hf
  have hc : Counted (parserParseEntityUntilClose p).2 := by
    refine ⟨hf,fun _ => ?_,fun hc => ?_,fun hc => ?_⟩
    · simp [parserParseEntityUntilClose,hd]
      omega
    · have hc' : p.entPosition = .usingClen := hc
      rw [hp] at hc'
      cases hc'
    · have hc' : p.entPosition = .usingChunked ∨ p.entPosition = .chunkyBody := hc
      rw [hp] at hc'
      rcases hc' with hc' | hc' <;> cases hc'
  refine ⟨decoded_grows hne rfl ?_ rfl,fun _ => hc,fun _ => hc.settled hne⟩
  simp [parserParseEntityUntilClose,hd]
  omega

theorem take_deleteTo {p q : HttpParser} {n pos : ℕ} (hb : q.msg.msg = p.msg.msg) (hn : n ≤ pos)
    (hpos : pos ≤ p.msg.msg.length) : (q.deleteTo pos).msg.msg.take n = p.msg.msg.take n := by
  simp [hb]
  rw [List.take_append_of_le_length (by rw [List.length_take]; omega),List.take_take,
    Nat.min_eq_left hn]

theorem storeChunkSize_counted {p : HttpParser} (h : Counted p) (m : Match) :
    Counted (storeChunkSize p m) := by
  have hf := storeChunkSize_framed h.toFramed m
  have hi := h.inBuffer
  have hl := h.clen
  have hc := h.chunked
  unfold storeChunkSize at hf ⊢
  split at hf <;> exact ⟨hf,hi,hl,hc⟩

@[simp] theorem storeChunkSize_decoded (p : HttpParser) (m : Match) :
    (storeChunkSize p m).decoded = p.decoded := by
  unfold storeChunkSize
  split <;> rfl

theorem beginChunk_grown {p : HttpParser} (h : Counted p) (hp : p.entPosition = .usingChunked)
    (n : ℕ) : Counted (beginChunk ((p.advance n).deleteTo p.cursor)) ∧
      p.decoded <+: (beginChunk ((p.advance n).deleteTo p.cursor)).decoded := by
  have hne : p.entPosition ≠ .determineReadMethod := by rw [hp]; rintro ⟨⟩
  have hd := h.discarded
  have hs := h.start_le hne
  have hchunked := h.chunked (.inl hp)
  have hq := h.toFramed.deleteTo n
  have hlen := deleteTo_length (p := p.advance n) h.cursor_le
  have hkeep : ((p.advance n).deleteTo p.cursor).msg.msg.take
      (p.entityStartPosition+p.msg.entity.length) =
        p.msg.msg.take (p.entityStartPosition+p.msg.entity.length) :=
    take_deleteTo rfl hchunked h.cursor_le
  have hf := beginChunk_framed hq hp
  unfold beginChunk at hf ⊢
  split
  · rename_i hz
    rw [if_pos hz] at hf
    refine ⟨⟨hf,fun _ => ?_,(by rintro ⟨⟩),(by rintro (⟨⟨⟩⟩ | ⟨⟨⟩⟩))⟩,
      decoded_grows (by rintro ⟨⟩) rfl ?_ hkeep⟩
    · simp at hlen ⊢
      simp only [HttpParser.deleteTo,HttpParser.advance,hd] at hlen ⊢
      omega
    · simp
      omega
  · rename_i hz
    rw [if_neg hz] at hf
    refine ⟨⟨hf,fun _ => Nat.le_trans hchunked hlen,(by rintro ⟨⟩),fun _ => hchunked⟩,
      decoded_grows (by rintro ⟨⟩) rfl (Nat.le_refl _) hkeep⟩

theorem parserParseChunkyEntity_grown {p : HttpParser} (h : Counted p)
    (hp : p.entPosition = .usingChunked) : Grown p (parserParseChunkyEntity p) := by
  have hq := storeChunkSize_counted h (scannerMatch chunkFmt p.rest)
  have hqp : (storeChunkSize p (scannerMatch chunkFmt p.rest)).entPosition = .usingChunked := by
    rw [storeChunkSize_entPosition,hp]
  have hqd := storeChunkSize_decoded p (scannerMatch chunkFmt p.rest)
  generalize hqe : storeChunkSize p (scannerMatch chunkFmt p.rest) = q at hq hqp hqd
  have hne : q.entPosition ≠ .determineReadMethod := by rw [hqp]; rintro ⟨⟩
  rcases scannerMatch_status chunkFmt p.rest with hm | ⟨st,hm⟩
  · simp only [parserParseChunkyEntity,hm,ne_eq,not_true_eq_false,if_false,hqe]
    have hb := beginChunk_grown hq hqp (scannerMatch chunkFmt p.rest).used
    exact ⟨hqd ▸ hb.2,fun _ => hb.1,(by rintro (⟨⟨⟩⟩ | ⟨⟨⟩⟩))⟩
  · simp only [parserParseChunkyEntity,hm,if_pos (status_ne_ok st),hqe]
    have hg : Grown q (st.status,q) := grown_self hq hne
    exact ⟨hqd ▸ hg.grows,hg.counted,hg.settled⟩

theorem parserParseChunkyBody_grown {p : HttpParser} (h : Counted p)
    (hp : p.entPosition = .chunkyBody) : Grown p (parserParseChunkyBody p) := by
  have hne : p.entPosition ≠ .determineReadMethod := by rw [hp]; rintro ⟨⟩
  by_cases hsz : p.chunkSize ≤ p.msg.msg.length-p.cursor
  · rcases scannerMatch_status crlfFmt (p.advance p.chunkSize).rest with hm | ⟨st,hm⟩
    · have hc := h.cursor_le
      have hchunked := h.chunked (.inr hp)
      have hf := (parserParseChunkyBody_framed h.toFramed hp).1
      simp only [parserParseChunkyBody,if_pos hsz,hm,ne_eq,not_true_eq_false,if_false] at hf ⊢
      have hend : p.entityStartPosition+(p.msg.entity.length+p.chunkSize) ≤
          p.cursor+p.chunkSize := by omega
      refine ⟨?_,fun _ => ⟨hf,fun _ => Nat.le_trans hend hf.cursor_le,(by rintro ⟨⟩),fun _ => hend⟩,
        (by rintro (⟨⟨⟩⟩ | ⟨⟨⟩⟩))⟩
      refine decoded_grows (by rintro ⟨⟩) rfl (Nat.le_add_right _ _) ?_
      refine take_deleteTo rfl ?_ ?_
      · simp
        omega
      · simp
        omega
    · simp only [parserParseChunkyBody,if_pos hsz,hm,if_pos (status_ne_ok st)]
      exact grown_self h hne
  · simp only [parserParseChunkyBody,if_neg hsz]
    exact grown_self h hne

theorem parserParseChunkyHeaders_grown {p : HttpParser} (h : Counted p)
    (hp : p.entPosition = .chunkyHeaders) : Grown p (parserParseChunkyHeaders p) := by
  have hne : p.entPosition ≠ .determineReadMethod := by rw [hp]; rintro ⟨⟩
  have hentity := h.entity_le hp
  have hframe := parserParseHeaders_frame h.cursor_le
  have hqne : (parserParseHeaders p).2.entPosition ≠ .determineReadMethod := by
    rwa [hframe.entPosition]
  rw [parserParseChunkyHeaders_eq]
  split
  · have hlen : p.cursor ≤ ((parserParseHeaders p).2.deleteTo p.cursor).msg.msg.length :=
      deleteTo_length (Nat.le_trans hframe.cursor_ge hframe.cursor_le)
    refine ⟨?_,(by rintro (⟨⟨⟩⟩ | ⟨⟨⟩⟩)),fun _ => settled_of hqne rfl ?_⟩
    · refine decoded_grows hqne hframe.start ?_ ?_
      · show p.msg.entity.length ≤ (parserParseHeaders p).2.msg.entity.length
        rw [hframe.entity]
      · exact take_deleteTo hframe.buffer hentity h.cursor_le
    · show (parserParseHeaders p).2.entityStartPosition+(parserParseHeaders p).2.msg.entity.length ≤ _
      rw [hframe.start,hframe.entity]
      exact Nat.le_trans hentity hlen
  · rename_i hok
    have hcounted : Framed (parserParseHeaders p).2 → Counted (parserParseHeaders p).2 := by
      intro hf
      refine ⟨hf,fun _ => ?_,fun hc => ?_,fun hc => ?_⟩
      · rw [hframe.start,hframe.entity,hframe.buffer]
        exact Nat.le_trans hentity h.cursor_le
      · rw [hframe.entPosition,hp] at hc
        cases hc
      · rw [hframe.entPosition,hp] at hc
        rcases hc with hc | hc <;> cases hc
    have hq : Framed (parserParseHeaders p).2 := by
      refine ⟨hframe.cursor_le,hframe.discarded.trans h.discarded,fun _ => ?_,fun _ => ?_,fun _ => ?_⟩
      · rw [hframe.start]
        exact Nat.le_trans (h.start_le hne) hframe.cursor_ge
      · rw [hframe.entity,hframe.start]
        exact h.buf_eq hne
      · rw [hframe.entity,hframe.start]
        exact Nat.le_trans hentity hframe.cursor_ge
    refine ⟨?_,fun _ => hcounted hq,fun _ => (hcounted hq).settled hqne⟩
    refine decoded_grows hqne hframe.start ?_ (by rw [hframe.buffer])
    rw [hframe.entity]

/-- The read method is chosen while nothing has been decoded. -/
theorem parserGetEntityReadMethod_grown {p : HttpParser} (h : Counted p)
    (hp : p.entPosition = .determineReadMethod) : Grown p (parserGetEntityReadMethod p) := by
  have hgrows : p.decoded <+: (parserGetEntityReadMethod p).2.decoded := by
    rw [decoded_nil hp]
    exact List.nil_prefix
  have hz : (parserGetEntityReadMethod p).2.msg.entity.length = 0 ∧
      (parserGetEntityReadMethod p).2.entityStartPosition ≤
        (parserGetEntityReadMethod p).2.cursor := by
    cases hr : readMethod p.msg <;>
      simp [parserGetEntityReadMethod,hr]
  refine ⟨hgrows,fun hgo => ?_,fun hdone => ?_⟩
  · have hgo' : (parserGetEntityReadMethod p).1 = .continue1 := by
      rcases hgo with hgo | hgo
      · exact hgo
      · rw [(parserGetEntityReadMethod_append p []).1] at hgo
        cases hgo
    have hf := (parserGetEntityReadMethod_framed h.toFramed hgo').1
    refine ⟨hf,fun _ => ?_,fun _ => ?_,fun _ => ?_⟩
    · rw [hz.1]
      exact Nat.le_trans hz.2 hf.cursor_le
    · rw [hz.1]
      exact Nat.zero_le _
    · rw [hz.1]
      exact hz.2
  · rcases hdone with hdone | hdone
    · cases hr : readMethod p.msg <;>
        simp [parserGetEntityReadMethod,hr] at hdone ⊢
      exact settled_nil hp rfl
    · rw [(parserGetEntityReadMethod_append p []).1] at hdone
      cases hdone

theorem entityStep_grown {p : HttpParser} (h : Counted p) : Grown p (entityStep p) := by
  cases hp : p.entPosition with
  | usingClen =>
    simp only [entityStep,hp]
    exact parserParseEntityUsingClen_grown h hp
  | usingChunked =>
    simp only [entityStep,hp]
    exact parserParseChunkyEntity_grown h hp
  | chunkyBody =>
    simp only [entityStep,hp]
    exact parserParseChunkyBody_grown h hp
  | chunkyHeaders =>
    simp only [entityStep,hp]
    exact parserParseChunkyHeaders_grown h hp
  | untilClose =>
    simp only [entityStep,hp]
    exact parserParseEntityUntilClose_grown h hp
  | determineReadMethod =>
    simp only [entityStep,hp]
    exact parserGetEntityReadMethod_grown h hp

theorem parserParseEntity_grown {p : HttpParser} (h : Counted p) : Grown p (parserParseEntity p) := by
  refine Loop.run_induction entityStep_descends (e := fun q : HttpParser => (ParseStatus.failure,q))
    (P := fun p r => Counted p → Grown p r) ?_ ?_ p h
  · intro p r hr h
    rcases Loop.doWhile_inr hr with ⟨-,rfl⟩
    exact entityStep_grown h
  · intro p q hq ih h
    rcases Loop.doWhile_inl hq with ⟨ha,rfl⟩
    have hs := entityStep_grown h
    have hr := ih (hs.counted (.inl (beq_iff_eq.mp ha)))
    exact ⟨hs.grows.trans hr.grows,hr.counted,hr.settled⟩

structure Asked (p : HttpParser) : Prop where
  request : p.msg.isRequest = true
  sized : p.entPosition ≠ .untilClose

theorem StopStatus.status_ne_entity (st : StopStatus) : st.status ≠ .incompleteEntity := by
  cases st <;> rintro ⟨⟩

theorem readMethod_request {m : HttpMessage} (h : m.isRequest = true) :
    readMethod m ≠ .untilClose := by
  rw [readMethod_eq,h,if_pos rfl]
  by_cases hno : noBody m = true
  · rw [if_pos hno]
    rintro ⟨⟩
  · rw [if_neg hno]
    by_cases hchunked : announcesChunked m = true
    · rw [if_pos hchunked]
      rintro ⟨⟩
    · rw [if_neg hchunked]
      cases findHdr m.headers .contentLength <;> rintro ⟨⟩

theorem beginChunk_asked {p : HttpParser} (h : Asked p) : Asked (beginChunk p) := by
  unfold beginChunk
  split <;> exact ⟨h.request,by rintro ⟨⟩⟩

theorem entityStep_asked {p : HttpParser} (hc : p.cursor ≤ p.msg.msg.length) (h : Asked p) :
    (entityStep p).1 ≠ .incompleteEntity ∧ Asked (entityStep p).2 := by
  have hx : readMethod { p.msg with entity := ⟨p.cursor,0⟩ } = readMethod p.msg := rfl
  cases hp : p.entPosition with
  | usingClen =>
    simp only [entityStep,hp,parserParseEntityUsingClen]
    split
    · exact ⟨(by rintro ⟨⟩),h.request,h.sized⟩
    · exact ⟨(by rintro ⟨⟩),h.request,by rintro ⟨⟩⟩
  | usingChunked =>
    have hs : Asked (storeChunkSize p (scannerMatch chunkFmt p.rest)) :=
      ⟨by rw [storeChunkSize_msg]; exact h.request,by rw [storeChunkSize_entPosition]; exact h.sized⟩
    simp only [entityStep,hp]
    rcases scannerMatch_status chunkFmt p.rest with hm | ⟨st,hm⟩
    · simp only [parserParseChunkyEntity,hm,ne_eq,not_true_eq_false,if_false]
      exact ⟨(by rintro ⟨⟩),beginChunk_asked ⟨hs.request,hs.sized⟩⟩
    · simp only [parserParseChunkyEntity,hm,if_pos (status_ne_ok st)]
      exact ⟨st.status_ne_entity,hs⟩
  | chunkyBody =>
    simp only [entityStep,hp,parserParseChunkyBody]
    split
    · rcases scannerMatch_status crlfFmt (p.advance p.chunkSize).rest with hm | ⟨st,hm⟩
      · simp only [hm,ne_eq,not_true_eq_false,if_false]
        exact ⟨(by rintro ⟨⟩),h.request,by rintro ⟨⟩⟩
      · simp only [hm,if_pos (status_ne_ok st)]
        exact ⟨st.status_ne_entity,h⟩
    · exact ⟨(by rintro ⟨⟩),h⟩
  | chunkyHeaders =>
    have hframe := parserParseHeaders_frame hc
    have ha : Asked (parserParseHeaders p).2 :=
      ⟨hframe.isRequest.trans h.request,by rw [hframe.entPosition]; exact h.sized⟩
    simp only [entityStep,hp]
    rw [parserParseChunkyHeaders_eq]
    split
    · exact ⟨(by rintro ⟨⟩),ha.request,ha.sized⟩
    · exact ⟨(parserParseHeaders_status p).not_entity,ha⟩
  | untilClose => exact absurd hp h.sized
  | determineReadMethod =>
    have hclose := readMethod_request h.request
    simp only [entityStep,hp]
    cases hr : readMethod p.msg <;>
      simp only [parserGetEntityReadMethod,HttpParser.setEntity,hx,hr]
    · exact ⟨(by rintro ⟨⟩),h.request,h.sized⟩
    · exact ⟨(by rintro ⟨⟩),h.request,by rintro ⟨⟩⟩
    · exact ⟨(by rintro ⟨⟩),h.request,by rintro ⟨⟩⟩
    · exact ⟨(by rintro ⟨⟩),h.request,h.sized⟩
    · exact absurd hr hclose

theorem parserParseEntity_asked {p : HttpParser} (hf : Framed p) (h : Asked p) :
    (parserParseEntity p).1 ≠ .incompleteEntity ∧ Asked (parserParseEntity p).2 := by
  refine Loop.run_induction entityStep_descends (e := fun q : HttpParser => (ParseStatus.failure,q))
    (P := fun p r => Framed p → Asked p → r.1 ≠ .incompleteEntity ∧ Asked r.2) ?_ ?_ p hf h
  · intro p r hr hf h
    rcases Loop.doWhile_inr hr with ⟨-,rfl⟩
    exact entityStep_asked hf.cursor_le h
  · intro p q hq ih hf h
    rcases Loop.doWhile_inl hq with ⟨ha,rfl⟩
    exact ih (entityStep_framed hf (.inl (beq_iff_eq.mp ha))).1 (entityStep_asked hf.cursor_le h).2

end Http
end CtrlPt
