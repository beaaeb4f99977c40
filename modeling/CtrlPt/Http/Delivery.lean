import CtrlPt.Http.Fragmentation
import CtrlPt.Http.Download
import CtrlPt.Http.Chunked

/-! Downloads deliver the entity. The parser takes the framing out of the buffer while the
caller takes decoded bytes out of it; between any two steps the bytes already delivered,
the decoded ones in the buffer and those still to be decoded are the entity. -/
namespace CtrlPt
namespace Http

open CText

/-- Where the bytes of the entity `e` are: `out` has been copied out, `mid` is decoded and
lies at the start position, and `todo` is still to be decoded from `tail` on. -/
structure Layout (p : HttpParser) (e pre out mid tail todo : List UInt8) : Prop where
  entity : e = out++(mid++todo)
  buffer : p.msg.msg = pre++(mid++tail)
  start : p.entityStartPosition = pre.length
  discarded : p.msg.amountDiscarded = out.length
  length : p.msg.entity.length = out.length+mid.length

/-- How `todo` is coded in `tail` and the bytes `u` that are still to come, `pos` being the
end of the decoded bytes. -/
inductive Expects (p : HttpParser) (pos : ℕ) (tail u : List UInt8) : List UInt8 → Prop
  | clen (todo extra : List UInt8) (hp : p.entPosition = .usingClen)
      (hn : p.contentLength = p.msg.entity.length+todo.length) (h : tail++u = todo++extra) :
      Expects p pos tail u todo
  | untilClose (todo : List UInt8) (hp : p.entPosition = .untilClose) (h : tail++u = todo) :
      Expects p pos tail u todo
  | chunkLine (todo : List UInt8) (hp : p.entPosition = .usingChunked) (hc : p.cursor = pos)
      (hs : p.chunkSize < 2^32) (h : Chunked (tail++u) todo) : Expects p pos tail u todo
  | chunkData (data brk s rest : List UInt8) (hp : p.entPosition = .chunkyBody)
      (hc : p.cursor = pos) (hs : p.chunkSize = data.length) (hn : data.length < 2^31)
      (hb : LineBreak brk) (hu : tail++u = data++(brk++s)) (h : Chunked s rest) :
      Expects p pos tail u (data++rest)
  | trailers (hp : p.entPosition = .chunkyHeaders) (hge : pos ≤ p.cursor)
      (hle : p.cursor ≤ p.msg.msg.length) : Expects p pos tail u []

/-- The parser is in the middle of the entity `e`, of which `out` has been delivered. -/
structure Downloading (p : HttpParser) (u e out : List UInt8) : Prop where
  parts : ∃ pre mid tail todo, Layout p e pre out mid tail todo ∧
    (p.position = .complete → todo = []) ∧
    (p.position ≠ .complete → Expects p (pre.length+mid.length) tail u todo)

/-- Everything in the buffer counts as entity. -/
structure AllCounted (p : HttpParser) : Prop where
  untilClose : p.entPosition = .untilClose
  length : p.msg.entity.length =
    p.msg.amountDiscarded+(p.msg.msg.length-p.entityStartPosition)

/-- What a step of the entity parser, or all of them, make of such a parser. -/
structure Decoded (p : HttpParser) (u e out : List UInt8) (r : ParseStatus × HttpParser) :
    Prop where
  downloading : Downloading r.2 u e out
  counted : r.1 = .incompleteEntity → AllCounted r.2
  untilClose : p.entPosition = .untilClose → r.1 = .incompleteEntity
  goOn : r.1 = .continue1 → r.2.position ≠ .complete

theorem Layout.length_eq {p : HttpParser} {e pre out mid tail todo : List UInt8}
    (h : Layout p e pre out mid tail todo) :
    p.msg.msg.length-p.entityStartPosition = mid.length+tail.length := by
  rw [h.buffer,h.start]
  simp only [List.length_append]
  omega

theorem Layout.rest_eq {p : HttpParser} {e pre out mid tail todo : List UInt8}
    (h : Layout p e pre out mid tail todo) (hc : p.cursor = pre.length+mid.length) :
    p.rest = tail := by
  rw [HttpParser.rest,h.buffer,hc,← List.append_assoc,← List.length_append,List.drop_left]

theorem append_split {a b c d : List UInt8} (h : a++b = c++d) (hl : a.length ≤ c.length) :
    ∃ s, c = a++s ∧ b = s++d := by
  rcases List.append_eq_append_iff.mp h with ⟨s,hs,hb⟩ | ⟨s,hs,hd⟩
  · exact ⟨s,hs,hb⟩
  · have hnil : s = [] := by
      rw [hs,List.length_append] at hl
      exact List.eq_nil_of_length_eq_zero (by omega)
    subst hnil
    exact ⟨[],by simpa using hs.symm,by simpa using hd.symm⟩

theorem Downloading.clen {p : HttpParser} {u e pre out mid tail todo extra : List UInt8}
    (hl : Layout p e pre out mid tail todo) (hpos : p.position ≠ .complete)
    (hp : p.entPosition = .usingClen)
    (hn : p.contentLength = p.msg.entity.length+todo.length) (hu : tail++u = todo++extra) :
    Decoded p u e out (parserParseEntityUsingClen p) := by
  have hlen : p.msg.msg.length-p.entityStartPosition+p.msg.amountDiscarded =
      out.length+mid.length+tail.length := by
    rw [hl.length_eq,hl.discarded]
    omega
  rw [hl.length] at hn
  have hno : p.entPosition = .untilClose → False := by
    rw [hp]
    rintro ⟨⟩
  simp only [parserParseEntityUsingClen,hlen]
  by_cases hlt : out.length+mid.length+tail.length < p.contentLength
  · rw [if_pos hlt]
    rcases append_split hu (by omega) with ⟨todo',rfl,hu'⟩
    refine ⟨⟨pre,mid++tail,[],todo',?_,fun hc => absurd hc hpos,fun _ => ?_⟩,(by rintro ⟨⟩),
      fun h => (hno h).elim,(by rintro ⟨⟩)⟩
    · exact ⟨by simp [hl.entity],by simp [HttpParser.setEntity,hl.buffer],hl.start,hl.discarded,
        by simp [HttpParser.setEntity,Nat.add_assoc]⟩
    · refine Expects.clen todo' extra hp ?_ (by simpa using hu')
      rw [List.length_append] at hn
      simp only [HttpParser.setEntity]
      omega
  · rw [if_neg hlt]
    rcases append_split hu.symm (by omega) with ⟨tail',rfl,-⟩
    refine ⟨⟨pre,mid++todo,tail'.set 0 0,[],?_,fun _ => rfl,fun hc => absurd rfl hc⟩,(by rintro ⟨⟩),
      fun h => (hno h).elim,(by rintro ⟨⟩)⟩
    refine ⟨by simp [hl.entity],?_,hl.start,hl.discarded,by simp [hn,Nat.add_assoc]⟩
    have hcut : p.entityStartPosition+p.contentLength-p.msg.amountDiscarded =
        (pre++(mid++todo)).length := by
      rw [hl.start,hl.discarded,hn]
      simp only [List.length_append]
      omega
    have hbuf : p.msg.msg = (pre++(mid++todo))++tail' := by simp [hl.buffer]
    simp only [hcut,hbuf,List.set_append_right _ _ (Nat.le_refl _),Nat.sub_self]
    split
    · simp
    · rename_i hge
      rw [List.length_append] at hge
      have hnil : tail' = [] := List.eq_nil_of_length_eq_zero (by omega)
      simp [hnil]

theorem Downloading.untilClose {p : HttpParser} {u e pre out mid tail todo : List UInt8}
    (hl : Layout p e pre out mid tail todo) (hpos : p.position ≠ .complete)
    (hp : p.entPosition = .untilClose) (hu : tail++u = todo) :
    Decoded p u e out (parserParseEntityUntilClose p) := by
  have hlen := hl.length_eq
  subst hu
  refine ⟨⟨pre,mid++tail,[],u,?_,fun hc => absurd hc hpos,fun _ => ?_⟩,fun _ => ⟨hp,?_⟩,
    fun _ => rfl,(by rintro ⟨⟩)⟩
  · refine ⟨by simp [hl.entity],by simp [parserParseEntityUntilClose,HttpParser.setEntity,hl.buffer],
      hl.start,hl.discarded,?_⟩
    simp only [parserParseEntityUntilClose,HttpParser.setEntity,hlen,hl.discarded,
      List.length_append]
    omega
  · exact Expects.untilClose u hp rfl
  · simp only [parserParseEntityUntilClose,HttpParser.setEntity]
    omega

@[simp] theorem storeChunkSize_position (p : HttpParser) (m : Match) :
    (storeChunkSize p m).position = p.position := by
  unfold storeChunkSize
  split <;> rfl

@[simp] theorem storeChunkSize_start (p : HttpParser) (m : Match) :
    (storeChunkSize p m).entityStartPosition = p.entityStartPosition := by
  unfold storeChunkSize
  split <;> rfl

theorem toUInt_lt (n : ℤ) : toUInt n < 2^32 := by
  unfold toUInt
  omega

theorem storeChunkSize_lt {p : HttpParser} (h : p.chunkSize < 2^32) (m : Match) :
    (storeChunkSize p m).chunkSize < 2^32 := by
  unfold storeChunkSize
  split
  · rename_i n hn
    have hlt := toUInt_lt n
    simp only [storeInt]
    omega
  · exact h

theorem storeChunkSize_of_int {p : HttpParser} (h : p.chunkSize < 2^32) {m : Match} {n : ℕ}
    (hm : m.intAt 0 = some (n : ℤ)) (hn : n < 2^31) : (storeChunkSize p m).chunkSize = n := by
  simp only [storeChunkSize,hm,storeInt,toUInt]
  omega

theorem Layout.deleteTo {p : HttpParser} {e pre out mid cut tail todo : List UInt8}
    (h : Layout p e pre out mid (cut++tail) todo) (hc : p.cursor = pre.length+mid.length) :
    Layout ((p.advance cut.length).deleteTo p.cursor) e pre out mid tail todo := by
  refine ⟨h.entity,?_,h.start,h.discarded,h.length⟩
  have hb : p.msg.msg = (pre++mid)++(cut++tail) := by simp [h.buffer]
  simp only [HttpParser.deleteTo,HttpParser.advance,hc,hb]
  rw [← List.length_append,List.take_left,← List.drop_drop,List.drop_left,List.drop_left]
  simp

theorem Layout.storeChunkSize {p : HttpParser} {e pre out mid tail todo : List UInt8}
    (h : Layout p e pre out mid tail todo) (m : Match) :
    Layout (storeChunkSize p m) e pre out mid tail todo :=
  ⟨h.entity,by simpa using h.buffer,by simpa using h.start,by simpa using h.discarded,
    by simpa using h.length⟩

theorem beginChunk_last {p : HttpParser} {u e pre out mid tail : List UInt8}
    (hl : Layout p e pre out mid tail []) (hc : p.cursor = pre.length+mid.length)
    (hs : p.chunkSize = 0) : Downloading (beginChunk p) u e out := by
  have hv : beginChunk p = { p.setEntity
      { p.msg.entity with length := p.cursor-p.entityStartPosition+p.msg.amountDiscarded } with
      entPosition := .chunkyHeaders } := if_pos hs
  rw [hv]
  refine ⟨pre,mid,tail,[],⟨hl.entity,hl.buffer,hl.start,hl.discarded,?_⟩,fun _ => rfl,
    fun _ => Expects.trailers rfl (Nat.le_of_eq hc.symm) ?_⟩
  · simp only [HttpParser.setEntity,hc,hl.start,hl.discarded]
    omega
  · simp only [HttpParser.setEntity,hc,hl.buffer,List.length_append]
    omega

theorem beginChunk_data {p : HttpParser} {u e pre out mid tail data brk s rest : List UInt8}
    (hl : Layout p e pre out mid tail (data++rest)) (hc : p.cursor = pre.length+mid.length)
    (hpos : p.position ≠ .complete) (hs : p.chunkSize = data.length) (hd : data ≠ [])
    (hn : data.length < 2^31) (hb : LineBreak brk) (hu : tail++u = data++(brk++s))
    (h : Chunked s rest) : Downloading (beginChunk p) u e out := by
  have hne : p.chunkSize ≠ 0 := by
    rw [hs]
    exact fun h0 => hd (List.eq_nil_of_length_eq_zero h0)
  have hv : beginChunk p = { p with entPosition := .chunkyBody } := if_neg hne
  rw [hv]
  exact ⟨pre,mid,tail,data++rest,⟨hl.entity,hl.buffer,hl.start,hl.discarded,hl.length⟩,
    fun h => absurd h hpos,fun _ => Expects.chunkData data brk s rest rfl hc hs hn hb hu h⟩

/-- The line in front of a chunk is either incomplete, or it is read and taken out of the
buffer, and then the parser knows the size of the chunk. -/
theorem chunkLine_read {p : HttpParser} {u e pre out mid tail todo line s : List UInt8} {n : ℕ}
    (hl : Layout p e pre out mid tail todo) (hc : p.cursor = pre.length+mid.length)
    (hs : p.chunkSize < 2^32) (hline : ChunkLine line n) (hn : n < 2^31)
    (hu : tail++u = line++s) :
    (u ≠ [] ∧ parserParseChunkyEntity p =
        (.incomplete,storeChunkSize p (scannerMatch chunkFmt tail))) ∨
      ∃ tail' q, s = tail'++u ∧ parserParseChunkyEntity p = (.continue1,beginChunk q) ∧
        Layout q e pre out mid tail' todo ∧ q.chunkSize = n ∧ q.cursor = p.cursor ∧
        q.position = p.position := by
  have hrest := hl.rest_eq hc
  have hm := hline.match hn s
  by_cases hw : (scannerMatch chunkFmt tail).status = .incomplete
  · left
    refine ⟨?_,?_⟩
    · rintro rfl
      rw [← hu,List.append_nil,hw] at hm
      cases hm.1
    · simp only [parserParseChunkyEntity,hrest,hw]
      rfl
  · right
    rw [← hu,scannerMatch_stable chunkFmt_incremental hw u] at hm
    have hle := scannerMatch_used_le chunkFmt tail
    rw [hm.2.2] at hle
    rcases append_split hu.symm hle with ⟨tail',rfl,hs'⟩
    generalize hq : storeChunkSize p (scannerMatch chunkFmt (line++tail')) = q
    have hlq : Layout q e pre out mid (line++tail') todo := hq ▸ hl.storeChunkSize _
    have hcq : q.cursor = p.cursor := by rw [← hq,storeChunkSize_cursor]
    refine ⟨tail',(q.advance line.length).deleteTo q.cursor,hs',?_,hlq.deleteTo (hcq.trans hc),
      ?_,hcq,?_⟩
    · simp [parserParseChunkyEntity,hrest,hq,hm.1,hm.2.2]
    · exact (hq ▸ storeChunkSize_of_int hs hm.2.1 hn : q.chunkSize = n)
    · exact (hq ▸ storeChunkSize_position p _ : q.position = p.position)

theorem Downloading.chunkLine {p : HttpParser} {u e pre out mid tail todo : List UInt8}
    (hl : Layout p e pre out mid tail todo) (hpos : p.position ≠ .complete)
    (hp : p.entPosition = .usingChunked) (hc : p.cursor = pre.length+mid.length)
    (hs : p.chunkSize < 2^32) (hu : Chunked (tail++u) todo) :
    Decoded p u e out (parserParseChunkyEntity p) := by
  have hno : p.entPosition = .untilClose → False := by
    rw [hp]
    rintro ⟨⟩
  have hwait : Downloading (storeChunkSize p (scannerMatch chunkFmt tail)) u e out := by
    refine ⟨pre,mid,tail,todo,hl.storeChunkSize _,fun h => ?_,fun _ => ?_⟩
    · exact absurd (by simpa using h) hpos
    · exact Expects.chunkLine todo (by simpa using hp) (by simpa using hc)
        (storeChunkSize_lt hs _) hu
  have hgo : ∀ q, (beginChunk q).position = q.position := by
    intro q
    unfold beginChunk
    split <;> rfl
  generalize hsu : tail++u = su at hu
  cases hu with
  | last line rest hline =>
    rcases chunkLine_read hl hc hs hline (by decide) hsu with
      ⟨-,hv⟩ | ⟨tail',q,-,hv,hlq,hsq,hcq,hpq⟩ <;> rw [hv]
    · exact ⟨hwait,(by rintro ⟨⟩),fun h => (hno h).elim,(by rintro ⟨⟩)⟩
    · exact ⟨beginChunk_last hlq (hcq.trans hc) hsq,(by rintro ⟨⟩),fun h => (hno h).elim,
        fun _ => by rw [hgo,hpq]; exact hpos⟩
  | chunk line data brk s rest hline hd hn hb h =>
    rcases chunkLine_read hl hc hs hline hn hsu with
      ⟨-,hv⟩ | ⟨tail',q,hs',hv,hlq,hsq,hcq,hpq⟩ <;> rw [hv]
    · exact ⟨hwait,(by rintro ⟨⟩),fun h => (hno h).elim,(by rintro ⟨⟩)⟩
    · refine ⟨?_,(by rintro ⟨⟩),fun h => (hno h).elim,fun _ => by rw [hgo,hpq]; exact hpos⟩
      exact beginChunk_data hlq (hcq.trans hc) (hpq ▸ hpos) hsq hd hn hb hs'.symm h

/-- The bytes of a chunk and the line break behind them are either not all there, or they
are read, and the line break is taken out of the buffer. -/
theorem chunkData_read {p : HttpParser} {u e pre out mid tail data brk s rest : List UInt8}
    (hl : Layout p e pre out mid tail (data++rest)) (hc : p.cursor = pre.length+mid.length)
    (hs : p.chunkSize = data.length) (hb : LineBreak brk) (hu : tail++u = data++(brk++s)) :
    (u ≠ [] ∧ parserParseChunkyBody p = (.incomplete,p)) ∨
      ∃ tail' q, s = tail'++u ∧ parserParseChunkyBody p = (.continue1,q) ∧
        Layout q e pre out (mid++data) tail' rest ∧ q.entPosition = .usingChunked ∧
        q.cursor = pre.length+(mid++data).length ∧ q.chunkSize = p.chunkSize ∧
        q.position = p.position := by
  have hrest := hl.rest_eq hc
  have hlen : p.msg.msg.length-p.cursor = tail.length := by
    rw [← HttpParser.rest_length,hrest]
  simp only [parserParseChunkyBody,hlen,hs]
  by_cases hle : data.length ≤ tail.length
  · rw [if_pos hle]
    rcases append_split hu.symm hle with ⟨tail₂,rfl,hu₂⟩
    have hr₂ : (p.advance data.length).rest = tail₂ := by
      rw [HttpParser.rest_advance,hrest,List.drop_left]
    have hm := hb.match s
    rw [hr₂]
    by_cases hw : (scannerMatch crlfFmt tail₂).status = .incomplete
    · left
      refine ⟨?_,by simp only [hw]; rfl⟩
      rintro rfl
      rw [hu₂,List.append_nil] at hm
      rw [hm] at hw
      cases hw
    · right
      rw [hu₂,scannerMatch_stable crlfFmt_incremental hw u] at hm
      have hle₂ := scannerMatch_used_le crlfFmt tail₂
      rw [hm] at hle₂
      rcases append_split hu₂ hle₂ with ⟨tail₃,rfl,hu₃⟩
      simp only [hm,ne_eq,not_true_eq_false,if_false]
      have hla : Layout (endChunk (p.advance data.length)) e pre out (mid++data)
          (brk++tail₃) rest :=
        ⟨by simp [hl.entity],by simp [endChunk,HttpParser.setEntity,HttpParser.advance,hl.buffer],
          hl.start,hl.discarded,by
            simp [endChunk,HttpParser.setEntity,HttpParser.advance,hl.length,hs,Nat.add_assoc]⟩
      have hca : (endChunk (p.advance data.length)).cursor = pre.length+(mid++data).length := by
        simp only [endChunk,HttpParser.setEntity,HttpParser.advance,hc,List.length_append]
        omega
      exact ⟨tail₃,_,hu₃,rfl,hla.deleteTo hca,rfl,hca,hs,rfl⟩
  · rw [if_neg hle]
    left
    refine ⟨?_,rfl⟩
    rintro rfl
    rw [List.append_nil] at hu
    rw [hu,List.length_append] at hle
    omega

theorem Downloading.chunkData {p : HttpParser}
    {u e pre out mid tail data brk s rest : List UInt8}
    (hl : Layout p e pre out mid tail (data++rest)) (hpos : p.position ≠ .complete)
    (hp : p.entPosition = .chunkyBody) (hc : p.cursor = pre.length+mid.length)
    (hs : p.chunkSize = data.length) (hn : data.length < 2^31) (hb : LineBreak brk)
    (hu : tail++u = data++(brk++s)) (h : Chunked s rest) :
    Decoded p u e out (parserParseChunkyBody p) := by
  have hno : p.entPosition = .untilClose → False := by
    rw [hp]
    rintro ⟨⟩
  rcases chunkData_read hl hc hs hb hu with ⟨-,hv⟩ | ⟨tail',q,hs',hv,hlq,heq,hcq,hsq,hpq⟩ <;> rw [hv]
  · exact ⟨⟨pre,mid,tail,data++rest,hl,fun h => absurd h hpos,
      fun _ => Expects.chunkData data brk s rest hp hc hs hn hb hu h⟩,(by rintro ⟨⟩),
      fun h => (hno h).elim,(by rintro ⟨⟩)⟩
  · have hposq : q.position ≠ .complete := hpq ▸ hpos
    refine ⟨⟨pre,mid++data,tail',rest,hlq,fun h => absurd h hposq,fun _ => ?_⟩,(by rintro ⟨⟩),
      fun h => (hno h).elim,fun _ => hposq⟩
    have hlt : q.chunkSize < 2^32 := by omega
    exact Expects.chunkLine rest heq hcq hlt (hs' ▸ h)

theorem Downloading.trailers {p : HttpParser} {u e pre out mid tail : List UInt8}
    (hl : Layout p e pre out mid tail []) (hp : p.entPosition = .chunkyHeaders)
    (hge : pre.length+mid.length ≤ p.cursor) (hle : p.cursor ≤ p.msg.msg.length) :
    Decoded p u e out (parserParseChunkyHeaders p) := by
  have hno : p.entPosition = .untilClose → False := by
    rw [hp]
    rintro ⟨⟩
  have hf := parserParseHeaders_frame hle
  have hst := parserParseHeaders_status p
  have hlq : Layout (parserParseHeaders p).2 e pre out mid tail [] :=
    ⟨hl.entity,hf.buffer.trans hl.buffer,hf.start.trans hl.start,
      hf.discarded.trans hl.discarded,by rw [hf.entity,hl.length]⟩
  rw [parserParseChunkyHeaders_eq]
  split
  · refine ⟨⟨pre,mid,tail.take (p.cursor-(pre++mid).length)++
      p.msg.msg.drop (parserParseHeaders p).2.cursor,[],?_,fun _ => rfl,fun _ => ?_⟩,(by rintro ⟨⟩),
      fun h => (hno h).elim,(by rintro ⟨⟩)⟩
    · refine ⟨hl.entity,?_,hlq.start,hlq.discarded,hlq.length⟩
      have hb : p.msg.msg = (pre++mid)++tail := by simp [hl.buffer]
      have ht : p.msg.msg.take p.cursor = (pre++mid)++tail.take (p.cursor-(pre++mid).length) := by
        rw [hb,List.take_append,List.take_of_length_le]
        rw [List.length_append]
        exact hge
      simp only [endTrailers,HttpParser.setEntity,HttpParser.deleteTo,hf.buffer,ht,
        List.append_assoc]
    · rename_i hc
      exact absurd rfl hc
  · refine ⟨⟨pre,mid,tail,[],hlq,fun _ => rfl,fun _ => ?_⟩,fun h => absurd h hst.not_entity,
      fun h => (hno h).elim,fun h => absurd h hst.not_continue⟩
    exact Expects.trailers (hf.entPosition.trans hp) (Nat.le_trans hge hf.cursor_ge) hf.cursor_le

theorem entityStep_decoded {p : HttpParser} {u e out : List UInt8} (h : Downloading p u e out)
    (hpos : p.position ≠ .complete) : Decoded p u e out (entityStep p) := by
  rcases h.parts with ⟨pre,mid,tail,todo,hl,-,hx⟩
  cases hx hpos with
  | clen todo extra hp hn hu =>
    simp only [entityStep,hp]
    exact Downloading.clen hl hpos hp hn hu
  | untilClose todo hp hu =>
    simp only [entityStep,hp]
    exact Downloading.untilClose hl hpos hp hu
  | chunkLine todo hp hc hs hu =>
    simp only [entityStep,hp]
    exact Downloading.chunkLine hl hpos hp hc hs hu
  | chunkData data brk s rest hp hc hs hn hb hu h =>
    simp only [entityStep,hp]
    exact Downloading.chunkData hl hpos hp hc hs hn hb hu h
  | trailers hp hge hle =>
    simp only [entityStep,hp]
    exact Downloading.trailers hl hp hge hle

theorem parserParseEntity_decoded {p : HttpParser} {u e out : List UInt8}
    (h : Downloading p u e out) (hpos : p.position ≠ .complete) :
    Decoded p u e out (parserParseEntity p) := by
  refine Loop.run_induction entityStep_descends (e := fun q : HttpParser => (ParseStatus.failure,q))
    (P := fun p r => Downloading p u e out → p.position ≠ .complete → Decoded p u e out r)
    ?_ ?_ p h hpos
  · intro p r hr h hpos
    rcases Loop.doWhile_inr hr with ⟨-,rfl⟩
    exact entityStep_decoded h hpos
  · intro p q hq ih h hpos
    rcases Loop.doWhile_inl hq with ⟨ha,rfl⟩
    rw [beq_iff_eq] at ha
    have hs := entityStep_decoded h hpos
    have hr := ih hs.downloading (hs.goOn ha)
    refine ⟨hr.downloading,hr.counted,fun hu => ?_,hr.goOn⟩
    have hi := hs.untilClose hu
    rw [ha] at hi
    cases hi

theorem Downloading.append {p : HttpParser} {x u e out : List UInt8}
    (h : Downloading p (x++u) e out) : Downloading (p.append x) u e out := by
  rcases h.parts with ⟨pre,mid,tail,todo,hl,hdone,hx⟩
  refine ⟨pre,mid,tail++x,todo,?_,hdone,fun hpos => ?_⟩
  · exact ⟨hl.entity,by simp [hl.buffer],hl.start,hl.discarded,hl.length⟩
  · have hu : ∀ w, tail++(x++u) = w → (tail++x)++u = w := by
      intro w hw
      rw [List.append_assoc,hw]
    cases hx hpos with
    | clen todo extra hp hn h => exact Expects.clen todo extra hp hn (hu _ h)
    | untilClose todo hp h => exact Expects.untilClose todo hp (hu _ h)
    | chunkLine todo hp hc hs h =>
      refine Expects.chunkLine todo hp hc hs ?_
      rwa [List.append_assoc]
    | chunkData data brk s rest hp hc hs hn hb hd h =>
      exact Expects.chunkData data brk s rest hp hc hs hn hb (hu _ hd) h
    | trailers hp hge hle =>
      refine Expects.trailers hp hge ?_
      simp only [HttpParser.append,List.length_append]
      exact Nat.le_trans hle (Nat.le_add_right _ _)

/-- Bytes that are copied out move from the buffer to the caller. -/
theorem Downloading.discard {p : HttpParser} {u e out : List UInt8} (h : Downloading p u e out)
    {n : ℕ} (hn : out.length+n ≤ p.msg.entity.length) (hlt : out.length+n < sizeMod) :
    ((p.msg.msg.drop p.entityStartPosition).take n).length = n ∧
      Downloading (p.discard n) u e
        (out++(p.msg.msg.drop p.entityStartPosition).take n) := by
  rcases h.parts with ⟨pre,mid,tail,todo,hl,hdone,hx⟩
  rw [hl.length] at hn
  have hm : n ≤ mid.length := by omega
  have htake : (p.msg.msg.drop p.entityStartPosition).take n = mid.take n := by
    rw [hl.buffer,hl.start,List.drop_left,List.take_append_of_le_length hm]
  have hlen : (mid.take n).length = n := by rw [List.length_take]; omega
  have hcursor : ∀ c, pre.length+mid.length ≤ c → sizeSub c n = c-n := fun c hc =>
    sizeSub_of_le (by omega)
  have hdrop : (mid.drop n).length = mid.length-n := List.length_drop
  rw [htake]
  refine ⟨hlen,pre,mid.drop n,tail,todo,?_,hdone,fun hpos => ?_⟩
  · refine ⟨?_,?_,hl.start,?_,?_⟩
    · rw [hl.entity,List.append_assoc,← List.append_assoc (mid.take n),List.take_append_drop]
    · simp only [HttpParser.discard,hl.buffer,hl.start]
      rw [List.take_left,← List.drop_drop,List.drop_left,List.drop_append_of_le_length hm]
    · simp only [HttpParser.discard,hl.discarded,sizeAdd_of_lt hlt,List.length_append,hlen]
    · simp only [HttpParser.discard,hl.length,List.length_append,hlen,hdrop]
      omega
  · cases hx hpos with
    | clen todo extra hp hn h => exact Expects.clen todo extra hp hn h
    | untilClose todo hp h => exact Expects.untilClose todo hp h
    | chunkLine todo hp hc hs h =>
      refine Expects.chunkLine todo hp ?_ hs h
      show sizeSub p.cursor n = _
      rw [hc,hcursor _ (Nat.le_refl _),hdrop]
      omega
    | chunkData data brk s rest hp hc hs hn hb hd h =>
      refine Expects.chunkData data brk s rest hp ?_ hs hn hb hd h
      show sizeSub p.cursor n = _
      rw [hc,hcursor _ (Nat.le_refl _),hdrop]
      omega
    | trailers hp hge hle =>
      refine Expects.trailers hp ?_ ?_
      · simp only [HttpParser.discard,hcursor _ hge,hdrop]
        omega
      · simp only [HttpParser.discard,hcursor _ hge,hl.start,List.length_append,List.length_take,
          List.length_drop]
        have hb : p.msg.msg.length = pre.length+(mid.length+tail.length) := by
          rw [hl.buffer]
          simp only [List.length_append]
        omega

theorem Downloading.close {p : HttpParser} {e out : List UInt8} (h : Downloading p [] e out)
    (hc : AllCounted p) : Downloading { p with position := .complete } [] e out := by
  rcases h.parts with ⟨pre,mid,tail,todo,hl,hdone,hx⟩
  have htail : tail = [] := by
    have hlen := hc.length
    rw [hl.length_eq,hl.length,hl.discarded] at hlen
    exact List.eq_nil_of_length_eq_zero (by omega)
  have htodo : todo = [] := by
    by_cases hpos : p.position = .complete
    · exact hdone hpos
    · have hu := hc.untilClose
      cases hx hpos with
      | untilClose todo hp h => simpa [htail] using h.symm
      | clen todo extra hp hn h =>
        rw [hu] at hp
        cases hp
      | chunkLine todo hp hc hs h =>
        rw [hu] at hp
        cases hp
      | chunkData data brk s rest hp hc hs hn hb hd h =>
        rw [hu] at hp
        cases hp
      | trailers hp hge hle => rfl
  exact ⟨pre,mid,tail,todo,⟨hl.entity,hl.buffer,hl.start,hl.discarded,hl.length⟩,
    fun _ => htodo,fun hpos => absurd rfl hpos⟩

theorem Downloading.setError {p : HttpParser} {u e out : List UInt8} (h : Downloading p u e out)
    (code : ℕ) : Downloading { p with httpErrorCode := code } u e out := by
  rcases h.parts with ⟨pre,mid,tail,todo,hl,hdone,hx⟩
  refine ⟨pre,mid,tail,todo,⟨hl.entity,hl.buffer,hl.start,hl.discarded,hl.length⟩,hdone,
    fun hpos => ?_⟩
  cases hx hpos with
  | clen todo extra hp hn h => exact Expects.clen todo extra hp hn h
  | untilClose todo hp h => exact Expects.untilClose todo hp h
  | chunkLine todo hp hc hs h => exact Expects.chunkLine todo hp hc hs h
  | chunkData data brk s rest hp hc hs hn hb hd h =>
    exact Expects.chunkData data brk s rest hp hc hs hn hb hd h
  | trailers hp hge hle => exact Expects.trailers hp hge hle

/-- What holds of a download that is not cancelled. -/
structure Transfer (h : HttpGetHandle) (e out : List UInt8) : Prop where
  downloading : Downloading h.response (sockBytes h.sockInfo) e out
  active : h.cancel = false

theorem readMoreRound_descends (size : ℕ) :
    Loop.Descends readMoreMeasure (readMoreRound size) := by
  rintro ⟨ok,h⟩ y hy
  simp only [readMoreRound] at hy
  split at hy
  · rename_i hgo
    split at hy
    · rename_i b hp hf sock hs
      split at hy
      · cases hy
        simp only [readMoreMeasure,hs,List.length_cons]
        split <;> split <;> omega
      · cases hy
    · cases hy
    · rename_i hs
      split at hy
      · cases hy
        simp only [readMoreMeasure,hs,if_neg hgo.2.2]
        simp
      · cases hy
  · cases hy

/-- What the loop of `http_ReadHttpGet` leaves with: the wanted bytes, the whole entity, or
an error. -/
structure ReadMore (size : ℕ) (e out : List UInt8) (r : Option ℤ × HttpGetHandle) : Prop where
  transfer : Transfer r.2 e out
  enough : r.1 = none → r.2.response.position = .complete ∨
    ¬r.2.response.msg.entity.length < sizeAdd r.2.response.msg.amountDiscarded size
  error : ∀ c, r.1 = some c → c ≠ upnpESuccess

theorem entitySwitch_some {ok ok' : Bool} {st : ParseStatus} (h : entitySwitch ok st = some ok') :
    st = .incompleteEntity ∨ ok' = ok := by
  cases st <;> simp only [entitySwitch,Option.some.injEq] at h <;>
    first | exact .inl rfl | exact .inr h.symm | cases h

theorem readMore_spec (size : ℕ) {e out : List UInt8} (ok : Bool) (h : HttpGetHandle)
    (ht : Transfer h e out) (hok : ok = true → AllCounted h.response) :
    ReadMore size e out (readMore size (ok,h)) := by
  refine Loop.run_induction (readMoreRound_descends size) (e := fun y => (none,y.2))
    (P := fun x r => Transfer x.2 e out → (x.1 = true → AllCounted x.2.response) →
      ReadMore size e out r) ?_ ?_ (ok,h) ht hok
  · rintro ⟨ok,h⟩ r hr ht hok
    simp only [readMoreRound] at hr
    split at hr
    · rename_i hgo
      split at hr
      · rename_i b hp hf sock hs
        split at hr
        · cases hr
        · cases hr
          have hd := ht.downloading
          rw [hs,sockBytes_data] at hd
          have hpe := parserParseEntity_decoded hd.append hgo.2.2
          exact ⟨⟨hpe.downloading,ht.active⟩,(by rintro ⟨⟩),by rintro c ⟨⟩; decide⟩
      · rename_i code hneg sock hs
        cases hr
        have hd := ht.downloading
        rw [hs,sockBytes_error] at hd
        refine ⟨⟨hd,ht.active⟩,(by rintro ⟨⟩),?_⟩
        rintro c ⟨⟩
        exact Int.ne_of_lt hneg
      · rename_i hs
        split at hr
        · cases hr
        · cases hr
          refine ⟨⟨?_,ht.active⟩,(by rintro ⟨⟩),by rintro c ⟨⟩; decide⟩
          exact ht.downloading.setError _
    · rename_i hgo
      cases hr
      refine ⟨ht,fun _ => ?_,(by rintro c ⟨⟩)⟩
      by_contra hne
      rw [not_or,not_not] at hne
      exact hgo ⟨hne.2,ht.active,hne.1⟩
  · rintro ⟨ok,h⟩ y hy ih ht hok
    simp only [readMoreRound] at hy
    split at hy
    · rename_i hgo
      split at hy
      · rename_i b hp hf sock hs
        split at hy
        · rename_i ok' hsw
          cases hy
          have hd := ht.downloading
          rw [hs,sockBytes_data] at hd
          have hpe := parserParseEntity_decoded hd.append hgo.2.2
          refine ih ⟨hpe.downloading,ht.active⟩ fun ht' => hpe.counted ?_
          rcases entitySwitch_some hsw with hi | rfl
          · exact hi
          · exact hpe.untilClose (hok ht').untilClose
        · cases hy
      · cases hy
      · rename_i hs
        split at hy
        · rename_i hclose
          cases hy
          have hd := ht.downloading
          have hc := hok hclose
          rw [hs] at hd
          refine ih ⟨?_,ht.active⟩ fun _ => ⟨hc.untilClose,hc.length⟩
          simp only [hs]
          exact hd.close hc
        · cases hy
    · cases hy

/-- What one call does. -/
structure Call (n : ℕ) (e out : List UInt8) (r : ReadResult × HttpGetHandle) : Prop where
  success : r.1.code = upnpESuccess → r.1.size = min n (e.length-out.length) ∧
    r.1.buf.length = r.1.size ∧ Transfer r.2 e (out++r.1.buf)
  failure : r.1.code ≠ upnpESuccess → Transfer r.2 e out

theorem Downloading.lengths {p : HttpParser} {u e out : List UInt8} (h : Downloading p u e out) :
    p.msg.amountDiscarded = out.length ∧ out.length ≤ p.msg.entity.length ∧
      p.msg.entity.length ≤ e.length ∧
      (p.position = .complete → p.msg.entity.length = e.length) := by
  rcases h.parts with ⟨pre,mid,tail,todo,hl,hdone,-⟩
  have he : e.length = out.length+mid.length+todo.length := by
    rw [hl.entity]
    simp only [List.length_append]
    omega
  refine ⟨hl.discarded,?_,?_,fun hc => ?_⟩
  · rw [hl.length]
    omega
  · rw [hl.length]
    omega
  · rw [hl.length,he,hdone hc]
    rfl

theorem Downloading.initial {p : HttpParser} {u e out : List UInt8} (h : Downloading p u e out) :
    out <+: e := by
  rcases h.parts with ⟨pre,mid,tail,todo,hl,-,-⟩
  exact ⟨mid++todo,hl.entity.symm⟩

theorem copyOut_spec {h : HttpGetHandle} {n : ℕ} {e out : List UInt8} (ht : Transfer h e out)
    (hn : out.length+n < sizeMod)
    (hen : h.response.position = .complete ∨
      ¬h.response.msg.entity.length < sizeAdd h.response.msg.amountDiscarded n) :
    Call n e out (copyOut h n) := by
  have hlen := ht.downloading.lengths
  rw [hlen.1,sizeAdd_of_lt hn] at hen
  generalize hm : (if h.response.msg.entity.length < sizeAdd h.response.msg.amountDiscarded n then
    sizeSub h.response.msg.entity.length h.response.msg.amountDiscarded else n) = m
  have hmin : m = min n (e.length-out.length) ∧ out.length+m ≤ h.response.msg.entity.length := by
    rw [hlen.1,sizeAdd_of_lt hn,sizeSub_of_le hlen.2.1] at hm
    rw [← hm]
    split
    · rename_i hlt
      have hc := hlen.2.2.2 (hen.resolve_right (not_not.mpr hlt))
      omega
    · omega
  simp only [copyOut,hm]
  split
  · have hd := ht.downloading.discard hmin.2 (by omega)
    exact ⟨fun _ => ⟨hmin.1,hd.1,⟨hd.2,ht.active⟩⟩,fun hne => absurd rfl hne⟩
  · refine ⟨fun _ => ⟨hmin.1,?_,?_⟩,fun hne => absurd rfl hne⟩
    · simp only [List.length_nil]
      omega
    · simpa using ht

theorem httpReadHttpGet_spec {h : HttpGetHandle} {n : ℕ} {e out : List UInt8}
    (ht : Transfer h e out) (hn : out.length+n < sizeMod) :
    Call n e out (httpReadHttpGet h n) := by
  have hgot : Downloading (parseGotten h.response).2 (sockBytes h.sockInfo) e out ∧
      ((parseGotten h.response).1 = .incompleteEntity → AllCounted (parseGotten h.response).2) := by
    unfold parseGotten
    split
    · exact ⟨ht.downloading,(by rintro ⟨⟩)⟩
    · rename_i hpos
      have hd := parserParseEntity_decoded ht.downloading hpos
      exact ⟨hd.downloading,hd.counted⟩
  simp only [httpReadHttpGet]
  split
  · exact ⟨(by rintro ⟨⟩),fun _ => ⟨hgot.1,ht.active⟩⟩
  · rename_i ok hsw
    have hm := readMore_spec n ok { h with response := (parseGotten h.response).2 }
      ⟨hgot.1,ht.active⟩ fun hok => by
        rcases entitySwitch_some hsw with hi | rfl
        · exact hgot.2 hi
        · cases hok
    split
    · rename_i code h' hr
      rw [hr] at hm
      exact ⟨fun hc => absurd hc (hm.error code rfl),fun _ => hm.transfer⟩
    · rename_i h' hr
      rw [hr] at hm
      rw [if_neg (by rw [hm.transfer.active]; decide)]
      exact copyOut_spec hm.transfer hn (hm.enough rfl)

theorem readCalls_spec (sizes : List ℕ) {h : HttpGetHandle} {e out : List UInt8}
    (ht : Transfer h e out) (hn : out.length+sizes.sum < sizeMod) :
    Transfer (readCalls h sizes).2 e (out++delivered (readCalls h sizes).1) ∧
      (delivered (readCalls h sizes).1).length ≤ sizes.sum := by
  induction sizes generalizing h out with
  | nil => simpa [readCalls,delivered] using ht
  | cons n ns ih =>
    rw [List.sum_cons] at hn ⊢
    have hc := httpReadHttpGet_spec (n := n) ht (by omega)
    simp only [readCalls,delivered,List.flatMap_cons]
    by_cases hs : (httpReadHttpGet h n).1.code = upnpESuccess
    · rcases hc.success hs with ⟨hsize,hlen,ht'⟩
      have hle : (httpReadHttpGet h n).1.buf.length ≤ n := by omega
      have hi := ih ht' (by rw [List.length_append]; omega)
      rw [if_pos hs,← List.append_assoc]
      refine ⟨hi.1,?_⟩
      have hl := hi.2
      rw [delivered] at hl
      rw [List.length_append]
      omega
    · have hi := ih (hc.failure hs) (by omega)
      rw [if_neg hs,List.nil_append]
      exact ⟨hi.1,Nat.le_trans hi.2 (Nat.le_add_left _ _)⟩

def announcesChunked (m : HttpMessage) : Bool :=
  ((findHdr m.headers .transferEncoding).bind fun v => rawFindStr v (cstr "chunked")).isSome

theorem readMethod_eq (m : HttpMessage) :
    readMethod m =
      if noBody m then .noBody
      else if announcesChunked m then .chunked
      else (findHdr m.headers .contentLength).elim
        (if m.isRequest then .lengthRequired else .untilClose)
        (fun v => .clen (toUInt (rawToInt 10 v))) := by
  unfold readMethod announcesChunked
  cases findHdr m.headers .contentLength <;> rfl

/-- `BodyOf m body e`: under the headers of `m` the bytes `body` behind them carry the
entity `e`. -/
inductive BodyOf (m : HttpMessage) (body : List UInt8) : List UInt8 → Prop
  | empty (h : noBody m = true) : BodyOf m body []
  | clen (v : List UInt8) (n : ℕ) (hb : noBody m = false) (hc : announcesChunked m = false)
      (hv : findHdr m.headers .contentLength = some v) (hn : Numeral 10 v n) (hlt : n < 2^31)
      (hle : n ≤ body.length) : BodyOf m body (body.take n)
  | chunked (e : List UInt8) (hb : noBody m = false) (hc : announcesChunked m = true)
      (h : Chunked body e) : BodyOf m body e
  | untilClose (hb : noBody m = false) (hc : announcesChunked m = false)
      (hv : findHdr m.headers .contentLength = none) : BodyOf m body body

theorem rawToInt_numeral {v : List UInt8} {n : ℕ} (h : Numeral 10 v n) (hn : n < 2^31) :
    rawToInt 10 v = n := by
  have hint : toInt (n : ℤ) = n := by
    unfold toInt
    rw [Int.bmod_eq_of_le] <;> omega
  have hne : v.isEmpty = false := by
    cases v with
    | nil => exact absurd rfl h.ne_nil
    | cons a t => rfl
  simp only [rawToInt,hne,strtol_numeral (by decide) h (by omega),Bool.false_eq_true,if_false,hint]
  rw [if_neg]
  simp

/-- A response whose headers have been read and whose entity has not been begun. -/
structure Fresh (p : HttpParser) : Prop where
  cursor_le : p.cursor ≤ p.msg.msg.length
  discarded : p.msg.amountDiscarded = 0
  chunkSize : p.chunkSize = 0
  isRequest : p.msg.isRequest = false

theorem HeaderFrame.fresh {p q : HttpParser} (h : HeaderFrame p q) (hp : Fresh p) : Fresh q :=
  ⟨h.cursor_le,h.discarded.trans hp.discarded,h.chunkSize.trans hp.chunkSize,
    h.isRequest.trans hp.isRequest⟩

theorem Fresh.append {p : HttpParser} (h : Fresh p) (x : List UInt8) : Fresh (p.append x) := by
  refine ⟨?_,h.discarded,h.chunkSize,h.isRequest⟩
  simp only [HttpParser.append,List.length_append]
  exact Nat.le_trans h.cursor_le (Nat.le_add_right _ _)

theorem readPart_spec {parse : HttpParser → ParseStatus × HttpParser}
    (hparse : ∀ p, p.cursor ≤ p.msg.msg.length → HeaderFrame p (parse p).2) (sock : SockInfo)
    (p : HttpParser) (hp : Fresh p) :
    Fresh (readPart parse sock p).2.1 ∧
      ∀ st, (readPart parse sock p).1 = .parsed st →
        ∃ q, parse q = (st,(readPart parse sock p).2.1) := by
  induction sock generalizing p with
  | nil =>
    have hf := (hparse p hp.cursor_le).fresh hp
    simp only [readPart]
    split
    · exact ⟨hf,(by rintro st ⟨⟩)⟩
    · refine ⟨hf,?_⟩
      rintro st ⟨⟩
      exact ⟨p,rfl⟩
  | cons read sock ih =>
    have hf := (hparse p hp.cursor_le).fresh hp
    simp only [readPart]
    split
    · cases read with
      | data x hx hfit => exact ih _ (hf.append x)
      | error code hneg => exact ⟨hf,(by rintro st ⟨⟩)⟩
    · refine ⟨hf,?_⟩
      rintro st ⟨⟩
      exact ⟨p,rfl⟩

theorem readResponseLineAndHeaders_spec {sock rest : SockInfo} {p q : HttpParser} (hp : Fresh p)
    (h : readResponseLineAndHeaders sock p = (.parsed .ok,q,rest)) :
    Fresh q ∧ q.position = .entity := by
  have h₁ := readPart_spec (fun _ => parserParseResponseline_frame) sock p hp
  unfold readResponseLineAndHeaders at h
  split at h
  · rename_i p₁ s₁ hr
    rw [hr] at h₁
    have h₂ := readPart_spec (fun _ => parserParseHeaders_frame) s₁ p₁ h₁.1
    rw [h] at h₂
    rcases h₂.2 .ok rfl with ⟨p₂,hp₂⟩
    have hst := (parserParseHeaders_status p₂).done (by rw [hp₂])
    rw [hp₂] at hst
    exact ⟨h₂.1,hst⟩
  · rename_i hno
    exact absurd (h ▸ rfl) (hno q rest)

/-- The read method that is chosen begins the download of the entity. -/
theorem parserGetEntityReadMethod_downloading {p : HttpParser} {u e : List UInt8} (hp : Fresh p)
    (hpos : p.position = .entity) (hb : BodyOf p.msg (p.rest++u) e) :
    ((parserGetEntityReadMethod p).1 = .continue1 ∨ (parserGetEntityReadMethod p).1 = .success) ∧
      Downloading (parserGetEntityReadMethod p).2 u e [] := by
  have hx : readMethod { p.msg with entity := ⟨p.cursor,0⟩ } = readMethod p.msg := rfl
  have hbuf : p.msg.msg = p.msg.msg.take p.cursor++([]++p.rest) := by
    rw [List.nil_append,HttpParser.rest,List.take_append_drop]
  have hlen : p.cursor = (p.msg.msg.take p.cursor).length := by
    rw [List.length_take]
    exact (Nat.min_eq_left hp.cursor_le).symm
  have hne : p.position ≠ .complete := by
    rw [hpos]
    rintro ⟨⟩
  have hread := readMethod_eq p.msg
  cases hb with
  | empty h =>
    rw [h,if_pos rfl] at hread
    simp only [parserGetEntityReadMethod,HttpParser.setEntity,hx,hread]
    exact ⟨.inr trivial,p.msg.msg.take p.cursor,[],p.rest,[],⟨rfl,hbuf,hlen,hp.discarded,rfl⟩,
      fun _ => rfl,fun hc => absurd rfl hc⟩
  | clen v n hb hc hv hn hlt hle =>
    have hto : toUInt (n : ℤ) = n := by
      unfold toUInt
      omega
    rw [hb,hc,hv] at hread
    simp only [Bool.false_eq_true,if_false,Option.elim,rawToInt_numeral hn hlt,hto] at hread
    simp only [parserGetEntityReadMethod,HttpParser.setEntity,hx,hread]
    refine ⟨.inl trivial,p.msg.msg.take p.cursor,[],p.rest,(p.rest++u).take n,
      ⟨rfl,hbuf,hlen,hp.discarded,rfl⟩,fun hc => absurd hc hne,fun _ => ?_⟩
    refine Expects.clen _ ((p.rest++u).drop n) rfl ?_ (List.take_append_drop _ _).symm
    rw [List.length_take,Nat.min_eq_left hle]
    exact (Nat.zero_add n).symm
  | chunked e hb hc h =>
    rw [hb,hc] at hread
    simp only [Bool.false_eq_true,if_false,if_true] at hread
    simp only [parserGetEntityReadMethod,HttpParser.setEntity,hx,hread]
    refine ⟨.inl trivial,p.msg.msg.take p.cursor,[],p.rest,e,⟨rfl,hbuf,hlen,hp.discarded,rfl⟩,
      fun hc => absurd hc hne,fun _ => ?_⟩
    refine Expects.chunkLine e rfl hlen ?_ h
    rw [show p.chunkSize = 0 from hp.chunkSize]
    decide
  | untilClose hb hc hv =>
    rw [hb,hc,hv,hp.isRequest] at hread
    simp only [Bool.false_eq_true,if_false,Option.elim] at hread
    simp only [parserGetEntityReadMethod,HttpParser.setEntity,hx,hread]
    exact ⟨.inl trivial,p.msg.msg.take p.cursor,[],p.rest,p.rest++u,
      ⟨rfl,hbuf,hlen,hp.discarded,rfl⟩,fun hc => absurd hc hne,
      fun _ => Expects.untilClose _ rfl rfl⟩

theorem httpOpenHttpGet_transfer {sock rest : SockInfo} {p : HttpParser} {e : List UInt8}
    (hhead : readResponseLineAndHeaders sock (parserResponseInit .get) = (.parsed .ok,p,rest))
    (hbody : BodyOf p.msg (p.rest++sockBytes rest) e) :
    (httpOpenHttpGet sock).code = upnpESuccess ∧ Transfer (httpOpenHttpGet sock).handle e [] := by
  have hinit : Fresh (parserResponseInit .get) := ⟨Nat.le_refl _,rfl,rfl,rfl⟩
  have hp := readResponseLineAndHeaders_spec hinit hhead
  have hd := parserGetEntityReadMethod_downloading hp.1 hp.2 hbody
  simp only [httpOpenHttpGet,hhead,if_pos hd.1]
  exact ⟨trivial,hd.2,rfl⟩

/-- A download delivers its entity. After any calls, what they have delivered is a prefix of
the entity, and one more successful call copies out the bytes that follow: as many as it
was asked for, or all that are left. -/
theorem httpReadHttpGet_delivers (sock rest : SockInfo) (p : HttpParser) (e : List UInt8)
    (hhead : readResponseLineAndHeaders sock (parserResponseInit .get) = (.parsed .ok,p,rest))
    (hbody : BodyOf p.msg (p.rest++sockBytes rest) e) (sizes : List ℕ) (n : ℕ)
    (hsum : sizes.sum+n < sizeMod) :
    let calls := readCalls (httpOpenHttpGet sock).handle sizes
    let last := (httpReadHttpGet calls.2 n).1
    delivered calls.1 <+: e ∧
      (last.code = upnpESuccess → delivered calls.1++last.buf <+: e ∧
        last.buf.length = last.size ∧ last.size = min n (e.length-(delivered calls.1).length) ∧
        (last.size < n → delivered calls.1++last.buf = e)) := by
  have ht := (httpOpenHttpGet_transfer hhead hbody).2
  have hc := readCalls_spec sizes ht (by rw [List.length_nil]; omega)
  rw [List.nil_append] at hc
  have hl := httpReadHttpGet_spec (n := n) hc.1 (by omega)
  refine ⟨hc.1.downloading.initial,fun hs => ?_⟩
  rcases hl.success hs with ⟨hsize,hlen,ht'⟩
  have hpre := ht'.downloading.initial
  refine ⟨hpre,hlen,hsize,fun hlt => ?_⟩
  apply hpre.eq_of_length
  rw [List.length_append]
  have hle := hpre.length_le
  rw [List.length_append] at hle
  omega

def chunkedReads : SockInfo :=
  [.data (cstr "HTTP/1.1 200 OK\r\nTransfer-Encoding: chunked\r\n\r\n5\r\nhel") (by decide)
    (by decide),
   .data (cstr "lo\r\n0\r\n\r\n") (by decide) (by decide)]

theorem chunkedReads_body : Chunked (cstr "5\r\nhello\r\n0\r\n\r\n") (cstr "hello") := by
  have hline : ∀ d : UInt8, isBaseDigit 16 d = true →
      ChunkLine [d,cr,lf] (numeralValue 16 [d]) := fun d h =>
    ⟨[d],[],[cr,lf],rfl,⟨(by rintro ⟨⟩),List.forall_mem_singleton.mpr h,rfl⟩,LineText.nil,by simp,.inl rfl⟩
  exact Chunked.chunk [53,cr,lf] (cstr "hello") [cr,lf] (cstr "0\r\n\r\n") []
    (hline 53 rfl) (by decide) (by decide) (.inl rfl)
    (Chunked.last [48,cr,lf] [cr,lf] (hline 48 rfl))

theorem httpReadHttpGet_delivers_chunks :
    let calls := readCalls (httpOpenHttpGet chunkedReads).handle [3]
    let last := (httpReadHttpGet calls.2 10).1
    delivered calls.1 <+: cstr "hello" ∧
      (last.code = upnpESuccess → delivered calls.1++last.buf <+: cstr "hello" ∧
        last.buf.length = last.size ∧
        last.size = min 10 ((cstr "hello").length-(delivered calls.1).length) ∧
        (last.size < 10 → delivered calls.1++last.buf = cstr "hello")) :=
  httpReadHttpGet_delivers chunkedReads
    (readResponseLineAndHeaders chunkedReads (parserResponseInit .get)).2.2
    (readResponseLineAndHeaders chunkedReads (parserResponseInit .get)).2.1 (cstr "hello")
    (Prod.ext (by decide) rfl)
    (BodyOf.chunked _ (by decide) (by decide)
      (show Chunked _ _ from (by decide :
        (readResponseLineAndHeaders chunkedReads (parserResponseInit .get)).2.1.rest++
          sockBytes (readResponseLineAndHeaders chunkedReads (parserResponseInit .get)).2.2 =
            cstr "5\r\nhello\r\n0\r\n\r\n") ▸ chunkedReads_body))
    [3] 10 (by decide)

end Http
end CtrlPt
