import CtrlPt.Http.Recv
import CtrlPt.Http.Lengths

/-! The upload of `httpreadwrite.c`: `http_WriteHttpPost` and `http_CloseHttpPost`, and the
chunked coding they send, read back by the parser. -/
namespace CtrlPt
namespace Http

open CText Uri Resume

inductive SockWrite
  | complete
  | failed (sent : ℕ) (code : ℤ) (neg : code < 0)

/-- `http_post_handle_t`, with the outcomes of the writes to come, behind which every write
is complete, and what has been sent. -/
structure HttpPostHandle where
  sockInfo : SockInfo
  writes : List SockWrite
  sent : List UInt8
  contentLength : ℤ

def sockWrite (h : HttpPostHandle) (b : List UInt8) : ℤ × HttpPostHandle :=
  match h.writes with
  | .failed n code _::ws => (code,{ h with writes := ws, sent := h.sent++b.take n })
  | .complete::ws => (toInt b.length,{ h with writes := ws, sent := h.sent++b })
  | [] => (toInt b.length,{ h with sent := h.sent++b })

def chunkHeaderSize : ℕ := 10
def chunkTailSize : ℕ := 10

/-- A chunk, with a header that fits the buffer it is printed to. -/
def chunkOf (buf : List UInt8) : List UInt8 :=
  let tempSize := sizeAdd buf.length (chunkHeaderSize+chunkTailSize)
  (printNumeral 16 buf.length++[cr,lf]).take (tempSize-1)++buf++[cr,lf]

/-- Nothing is sent for an empty buffer. -/
def chunkText (buf : List UInt8) : List UInt8 := if buf.length = 0 then [] else chunkOf buf

def httpWriteHttpPost (h : HttpPostHandle) (buf : List UInt8) : ℤ × ℕ × HttpPostHandle :=
  let tempbuf := if h.contentLength = upnpUsingChunked then chunkText buf else buf
  let r := sockWrite h tempbuf
  if r.1 < 0 then (r.1,0,r.2) else (upnpESuccess,r.1.toNat,r.2)

/-- `http_CloseHttpPost`: the code, `*httpStatus`, and what has been sent in all. -/
structure CloseResult where
  code : ℤ
  httpStatus : Option ℕ
  sent : List UInt8

def httpCloseHttpPost (res : Resolver) (maxContentLength : ℕ) (h : HttpPostHandle) : CloseResult :=
  -- send the last chunk
  let h :=
    if h.contentLength = upnpUsingChunked then (sockWrite h (cstr "0\r\n\r\n")).2 else h
  let r := httpRecvMessage res maxContentLength .post h.sockInfo
  ⟨r.code,r.httpErrorCode,h.sent⟩

def writeCalls (h : HttpPostHandle) : List (List UInt8) → HttpPostHandle
  | [] => h
  | b::bs => writeCalls (httpWriteHttpPost h b).2.2 bs

/-- `WholeChunked s e`: the bytes `s` are a chunked coding of `e` without trailers. -/
inductive WholeChunked : List UInt8 → List UInt8 → Prop
  | last (line brk : List UInt8) (h : ChunkLine line 0) (hb : LineBreak brk) :
      WholeChunked (line++brk) []
  | chunk (line data brk s e : List UInt8) (hl : ChunkLine line data.length) (hd : data ≠ [])
      (hn : data.length < 2^31) (hb : LineBreak brk) (h : WholeChunked s e) :
      WholeChunked (line++(data++(brk++s))) (data++e)

theorem WholeChunked.chunked {s e : List UInt8} (h : WholeChunked s e) : Chunked s e := by
  induction h with
  | last line brk h _ => exact Chunked.last line brk h
  | chunk line data brk s e hl hd hn hb _ ih => exact Chunked.chunk line data brk s e hl hd hn hb ih

theorem printNumeral_chunkLine (n : ℕ) : ChunkLine (printNumeral 16 n++[cr,lf]) n :=
  ⟨printNumeral 16 n,[],[cr,lf],by simp,printNumeral_numeral (by decide) (by decide) n,LineText.nil,
    by simp,.inl rfl⟩

theorem chunkOf_eq {buf : List UInt8} (h : buf.length < 2^31) :
    chunkOf buf = (printNumeral 16 buf.length++[cr,lf])++(buf++[cr,lf]) := by
  have hlen : (printNumeral 16 buf.length).length ≤ 8 :=
    printNumeral_length (by decide) (by decide) (by omega)
  have hsize : sizeAdd buf.length (chunkHeaderSize+chunkTailSize) = buf.length+20 := by
    apply sizeAdd_of_lt
    simp only [chunkHeaderSize,chunkTailSize,sizeMod]
    omega
  simp only [chunkOf,hsize]
  rw [List.take_of_length_le,List.append_assoc]
  simp only [List.length_append,List.length_cons,List.length_nil]
  omega

/-- What the calls send, and the terminator. -/
def chunkCoding (bufs : List (List UInt8)) : List UInt8 :=
  bufs.flatMap chunkText++cstr "0\r\n\r\n"

theorem chunkCoding_whole {bufs : List (List UInt8)} (h : ∀ b ∈ bufs, b.length < 2^31) :
    WholeChunked (chunkCoding bufs) bufs.flatten := by
  induction bufs with
  | nil => exact WholeChunked.last _ [cr,lf] (printNumeral_chunkLine 0) (.inl rfl)
  | cons b bs ih =>
    have hb := h b (by simp)
    have hbs := ih fun c hc => h c (by simp [hc])
    by_cases hz : b.length = 0
    · have hnil := List.eq_nil_of_length_eq_zero hz
      simpa [chunkCoding,chunkText,hnil] using hbs
    · have hs : chunkCoding (b::bs) =
          (printNumeral 16 b.length++[cr,lf])++(b++([cr,lf]++chunkCoding bs)) := by
        simp only [chunkCoding,List.flatMap_cons,chunkText,if_neg hz,chunkOf_eq hb]
        simp only [List.append_assoc]
      rw [hs,List.flatten_cons]
      have hne : b ≠ [] := fun h0 => hz (h0 ▸ rfl)
      exact WholeChunked.chunk _ b [cr,lf] _ _ (printNumeral_chunkLine _) hne hb (.inl rfl) hbs

def HttpPostHandle.Reliable (h : HttpPostHandle) : Prop := ∀ w ∈ h.writes, w = .complete

theorem sockWrite_reliable {h : HttpPostHandle} (hr : h.Reliable) (b : List UInt8) :
    (sockWrite h b).2.Reliable ∧ (sockWrite h b).2.sent = h.sent++b ∧
      (sockWrite h b).2.contentLength = h.contentLength := by
  unfold sockWrite
  split
  · rename_i n code hneg ws hws
    have hf := hr (.failed n code hneg) (by simp [hws])
    cases hf
  · rename_i ws hws
    exact ⟨fun w hw => hr w (by simp [hws,show w ∈ ws from hw]),rfl,rfl⟩
  · exact ⟨hr,rfl,rfl⟩

theorem httpWriteHttpPost_reliable {h : HttpPostHandle} (hr : h.Reliable)
    (hc : h.contentLength = upnpUsingChunked) (b : List UInt8) :
    (httpWriteHttpPost h b).2.2.Reliable ∧
      (httpWriteHttpPost h b).2.2.sent = h.sent++chunkText b ∧
      (httpWriteHttpPost h b).2.2.contentLength = upnpUsingChunked := by
  have hs := sockWrite_reliable hr (chunkText b)
  have hv : (httpWriteHttpPost h b).2.2 = (sockWrite h (chunkText b)).2 := by
    simp only [httpWriteHttpPost,if_pos hc]
    split <;> rfl
  rw [hv,← hc]
  exact hs

theorem writeCalls_reliable (bufs : List (List UInt8)) {h : HttpPostHandle} (hr : h.Reliable)
    (hc : h.contentLength = upnpUsingChunked) :
    (writeCalls h bufs).Reliable ∧
      (writeCalls h bufs).sent = h.sent++bufs.flatMap chunkText ∧
      (writeCalls h bufs).contentLength = upnpUsingChunked := by
  induction bufs generalizing h with
  | nil => exact ⟨hr,by simp [writeCalls],hc⟩
  | cons b bs ih =>
    have hs := httpWriteHttpPost_reliable hr hc b
    have hb := ih hs.1 hs.2.2
    refine ⟨hb.1,?_,hb.2.2⟩
    rw [writeCalls,hb.2.1,hs.2.1,List.flatMap_cons,List.append_assoc]

theorem httpCloseHttpPost_sent (res : Resolver) (maxContentLength : ℕ)
    (bufs : List (List UInt8)) {h : HttpPostHandle} (hr : h.Reliable)
    (hc : h.contentLength = upnpUsingChunked) :
    (httpCloseHttpPost res maxContentLength (writeCalls h bufs)).sent =
      h.sent++chunkCoding bufs := by
  have hw := writeCalls_reliable bufs hr hc
  simp only [httpCloseHttpPost,if_pos hw.2.2,(sockWrite_reliable hw.1 _).2.1,hw.2.1,chunkCoding,
    List.append_assoc]

/-- The line break behind the last chunk's line ends the entity. -/
theorem parserParseChunkyHeaders_end {p : HttpParser} {u brk : List UInt8} (hb : LineBreak brk)
    (hu : p.rest++u = brk) :
    (parserParseChunkyHeaders p).1 = if u = [] then .success else .incomplete := by
  have hround : ∀ r, headerRound p = .inr r → parserParseHeaders p = r := fun r hr =>
    Loop.run_inr hr
  split
  · rename_i hnil
    subst hnil
    rw [List.append_nil] at hu
    have ht : scannerGetToken false p.rest = .ok ⟨brk,.crlf⟩ brk.length := by
      have h := hb.token []
      rw [List.append_nil] at h
      rw [hu,h]
    have hr : headerRound p = .inr (endHeaders (p.advance brk.length)) := by
      simp only [headerRound,ht]
    rw [parserParseChunkyHeaders_eq,hround _ hr]
    split
    · rfl
    · rename_i hne
      unfold endHeaders at hne ⊢
      split
      · rfl
      · rename_i hno
        rw [if_neg hno] at hne
        exact absurd rfl hne
  · rename_i hne
    have ht : scannerGetToken false p.rest = .stop .incomplete 0 := by
      have hshort : p.rest = [] ∨ p.rest = [cr] := by
        rcases hb with rfl | rfl
        · rcases List.append_eq_cons_iff.mp hu with ⟨h,-⟩ | ⟨v,hv,hvu⟩
          · exact .inl h
          · rcases List.append_eq_cons_iff.mp hvu.symm with ⟨rfl,-⟩ | ⟨w,-,hwu⟩
            · exact .inr hv
            · exact absurd (List.append_eq_nil_iff.mp hwu.symm).2 hne
        · rcases List.append_eq_cons_iff.mp hu with ⟨h,-⟩ | ⟨v,-,hvu⟩
          · exact .inl h
          · exact absurd (List.append_eq_nil_iff.mp hvu.symm).2 hne
      rcases hshort with h | h <;> rw [h] <;> decide
    have hr : headerRound p = .inr (.incomplete,p) := by
      simp only [headerRound,ht]
      rfl
    rw [parserParseChunkyHeaders_eq,hround _ hr]
    rfl

/-- A parser in front of a coding reads it to its end, and not further. -/
theorem WholeChunked.ends {s todo : List UInt8} (h : WholeChunked s todo) {p : HttpParser}
    {u e pre out mid tail : List UInt8} (hl : Layout p e pre out mid tail todo)
    (hp : p.entPosition = .usingChunked) (hc : p.cursor = pre.length+mid.length)
    (hs : p.chunkSize < 2^32) (hu : tail++u = s) :
    (parserParseEntity p).1 = if u = [] then .success else .incomplete := by
  induction h generalizing p mid tail with
  | last line brk hline hb =>
    have hstep : entityStep p = parserParseChunkyEntity p := by simp only [entityStep,hp]
    rcases chunkLine_read hl hc hs hline (by decide) hu with
      ⟨hne,hv⟩ | ⟨tail',q,hs',hv,hlq,hsq,hcq,-⟩
    · rw [parserParseEntity_done (by rw [hstep,hv]; rintro ⟨⟩),hstep,hv,if_neg hne]
    · have hbegin : entityStep (beginChunk q) = parserParseChunkyHeaders (beginChunk q) := by
        simp only [entityStep,beginChunk,if_pos hsq]
      have hrest : (beginChunk q).rest = tail' := by
        have hr := hlq.rest_eq (hcq.trans hc)
        simp only [beginChunk,if_pos hsq]
        exact hr
      rw [parserParseEntity_again (by rw [hstep,hv]),hstep,hv,parserParseEntity_done,hbegin]
      · exact parserParseChunkyHeaders_end hb (by rw [hrest,hs'])
      · rw [hbegin]
        exact (parserParseChunkyHeaders_status _).1
  | chunk line data brk s rest hline hd hn hb _ ih =>
    have hstep : entityStep p = parserParseChunkyEntity p := by simp only [entityStep,hp]
    rcases chunkLine_read hl hc hs hline hn hu with
      ⟨hne,hv⟩ | ⟨tail',q,hs',hv,hlq,hsq,hcq,-⟩
    · rw [parserParseEntity_done (by rw [hstep,hv]; rintro ⟨⟩),hstep,hv,if_neg hne]
    · have hne : q.chunkSize ≠ 0 := by
        rw [hsq]
        exact fun h0 => hd (List.eq_nil_of_length_eq_zero h0)
      have hbegin : beginChunk q = { q with entPosition := .chunkyBody } := if_neg hne
      have hbody : entityStep (beginChunk q) = parserParseChunkyBody (beginChunk q) := by
        rw [hbegin]
        rfl
      have hlb : Layout (beginChunk q) e pre out mid tail' (data++rest) := by
        rw [hbegin]
        exact ⟨hlq.entity,hlq.buffer,hlq.start,hlq.discarded,hlq.length⟩
      have hcb : (beginChunk q).cursor = pre.length+mid.length := by
        rw [hbegin]
        exact hcq.trans hc
      have hsb : (beginChunk q).chunkSize = data.length := by
        rw [hbegin]
        exact hsq
      rw [parserParseEntity_again (by rw [hstep,hv]),hstep,hv]
      rcases chunkData_read hlb hcb hsb hb hs'.symm with
        ⟨hne,hv'⟩ | ⟨tail₂,q₂,hs₂,hv',hl₂,hp₂,hc₂,hz₂,-⟩
      · rw [parserParseEntity_done (by rw [hbody,hv']; rintro ⟨⟩),hbody,hv',if_neg hne]
      · rw [parserParseEntity_again (by rw [hbody,hv']),hbody,hv']
        have hlt : q₂.chunkSize < 2^32 := by omega
        exact ih hl₂ hp₂ hc₂ hlt hs₂.symm

/-- The headers have announced a chunked body, of which nothing has been read. -/
structure ChunkedNext (p : HttpParser) : Prop where
  position : p.position = .entity
  unread : p.rest = []
  chunked : (p.entPosition = .determineReadMethod ∧ readMethod p.msg = .chunked) ∨
    (p.entPosition = .usingChunked ∧ p.entityStartPosition = p.cursor ∧ p.msg.entity.length = 0)

/-- The first bytes of the body lie where the decoded entity will begin. -/
theorem ChunkedNext.begin {p : HttpParser} (h : ChunkedNext p) (hf : Framed p)
    (hs : p.chunkSize < 2^32) (s e : List UInt8) :
    ∃ q, parserParseEntity (p.append s) = parserParseEntity q ∧ Framed q ∧
      Layout q e p.msg.msg [] [] s e ∧ q.entPosition = .usingChunked ∧
      q.cursor = p.msg.msg.length ∧ q.chunkSize < 2^32 ∧ q.position = .entity := by
  have hcur : p.cursor = p.msg.msg.length := by
    have hlen := h.unread ▸ p.rest_length
    have hle := hf.cursor_le
    simp only [List.length_nil] at hlen
    omega
  rcases h.chunked with ⟨hp,hm⟩ | ⟨hp,hstart,hzero⟩
  · have hstep : entityStep (p.append s) = parserGetEntityReadMethod (p.append s) := by
      simp only [entityStep,HttpParser.append_entPosition,hp]
    have hread : readMethod ((p.append s).setEntity ⟨(p.append s).cursor,0⟩).msg = .chunked := hm
    have hgo : (entityStep (p.append s)).1 = .continue1 := by
      rw [hstep]
      simp only [parserGetEntityReadMethod,hread]
    have hfq := (entityStep_framed (hf.append s) (.inl hgo))
    refine ⟨_,parserParseEntity_again hgo,hfq.1,?_,?_,?_,?_,hfq.2.trans h.position⟩ <;> rw [hstep]
    · refine ⟨rfl,?_,?_,?_,?_⟩ <;> simp only [parserGetEntityReadMethod,hread]
      · rfl
      · exact hcur
      · exact hf.discarded
      · rfl
    all_goals simp only [parserGetEntityReadMethod,hread]
    · exact hcur
    · exact hs
  · exact ⟨p.append s,rfl,hf.append s,⟨rfl,rfl,hstart.trans hcur,hf.discarded,hzero⟩,hp,hcur,hs,
      h.position⟩

theorem parserStep_entity (res : Resolver) {p : HttpParser} (hp : p.position = .entity) :
    parserStep res p = parserParseEntity p := by
  simp only [parserStep,hp]

theorem parserParse_entity (res : Resolver) {p : HttpParser} (hp : p.position = .entity) :
    parserParse res p = parserParseEntity p := by
  have hstep := parserStep_entity res hp
  rw [← hstep]
  apply Loop.run_inr
  rw [Loop.doWhile,if_neg]
  rw [hstep,beq_iff_eq]
  exact parserParseEntity_status p

def HttpParser.entityBytes (p : HttpParser) : List UInt8 := p.messageView.entityBytes

/-- Fed at once, a prefix of a coding is incomplete, and the coding gives the entity. -/
theorem WholeChunked.parsed {s e : List UInt8} (h : WholeChunked s e) {p : HttpParser}
    (hp : ChunkedNext p) (hf : Framed p) (hs : p.chunkSize < 2^32) {x u : List UInt8}
    (hu : x++u = s) :
    (u ≠ [] → (parserParseEntity (p.append x)).1 = .incomplete) ∧
      (u = [] → (parserParseEntity (p.append x)).1 = .success ∧
        (parserParseEntity (p.append x)).2.entityBytes = e) := by
  rcases hp.begin hf hs x e with ⟨q,hq,hfq,hl,hpq,hcq,hsq,hposq⟩
  have hpos : q.position ≠ .complete := by
    rw [hposq]
    rintro ⟨⟩
  have hends := h.ends hl hpq hcq hsq hu
  rw [hq]
  refine ⟨fun hne => by rw [hends,if_neg hne],fun hnil => ?_⟩
  rw [if_pos hnil] at hends
  refine ⟨hends,?_⟩
  have hd : Downloading q u e [] := ⟨p.msg.msg,[],x,e,hl,fun hc => absurd hc hpos,fun _ =>
    Expects.chunkLine e hpq hcq hsq (hu ▸ h.chunked)⟩
  rcases (parserParseEntity_decoded hd hpos).downloading.parts with ⟨pre,mid,tail,todo,hlr,hdone,-⟩
  have hend := parserParseEntity_success hfq hends
  have hmid : e = mid := by
    rw [hlr.entity,hdone hend.1]
    simp
  simp only [HttpParser.entityBytes,HttpParser.messageView,HttpParser.view,hend.2,hlr.start,
    hlr.buffer,hlr.length,List.drop_left,List.length_nil,Nat.zero_add]
  rw [List.take_left,hmid]

/-- What is written in chunks is read back. However the bytes that have been sent are cut
into pieces, a parser that is to read a chunked body succeeds with the last of them and not
before, and the entity is what has been written. -/
theorem httpWriteHttpPost_readBack (res : Resolver) (maxContentLength : ℕ)
    (handle : HttpPostHandle) (hc : handle.contentLength = upnpUsingChunked)
    (hw : handle.Reliable) (bufs : List (List UInt8)) (hb : ∀ b ∈ bufs, b.length < 2^31) :
    ∃ sent, (httpCloseHttpPost res maxContentLength (writeCalls handle bufs)).sent =
        handle.sent++sent ∧
      ∀ (ls : List Length) (p : HttpParser), ParserRun res ls p → ChunkedNext p →
        ∀ xs : List (List UInt8), xs ≠ [] →
          (xs.flatten <+: sent → xs.flatten ≠ sent → (feedParser res p xs).1 = .incomplete) ∧
          (xs.flatten = sent → (feedParser res p xs).1 = .success ∧
            (feedParser res p xs).2.entityBytes = bufs.flatten) := by
  refine ⟨chunkCoding bufs,httpCloseHttpPost_sent res maxContentLength bufs hw hc,?_⟩
  intro ls p hrun hp xs hx
  have hpar := hrun.parsing
  have hposx : (p.append xs.flatten).position = .entity := hp.position
  have hfeed : observeMessage (feedParser res p xs) =
      observeMessage (parserParseEntity (p.append xs.flatten)) := by
    rw [← parserParse_entity res hposx,feedParser_eq_feed,
      (parserParse_resumableOn res).feed_flatten xs hx]
    refine ⟨hpar.1,fun hpos => ?_⟩
    rw [hp.position] at hpos
    cases hpos
  have hstatus : (feedParser res p xs).1 = (parserParseEntity (p.append xs.flatten)).1 :=
    congrArg (fun r : ParseStatus × Option MessageView => r.1) hfeed
  have hwhole := fun u => (chunkCoding_whole hb).parsed hp hpar.1.framed hpar.2 (x := xs.flatten) (u := u)
  constructor
  · rintro ⟨u,hu⟩ hne
    rw [hstatus]
    refine (hwhole u hu).1 ?_
    rintro rfl
    exact hne (by simpa using hu)
  · intro he
    have hr := (hwhole [] (by simpa using he)).2 rfl
    rw [hstatus]
    refine ⟨hr.1,?_⟩
    have hview := congrArg Prod.snd hfeed
    have hs : (feedParser res p xs).1 = .success := hstatus.trans hr.1
    simp only [observeMessage,hs,hr.1,true_or,if_true,Option.some.injEq] at hview
    rw [← hr.2]
    exact congrArg (fun v => v.entityBytes) hview

def chunkedResponse : HttpParser :=
  (parserAppend Resolver.empty (parserResponseInit .get)
    (cstr "HTTP/1.1 200 OK\r\nTransfer-Encoding: chunked\r\n\r\n")).2

theorem httpWriteHttpPost_readBack_three :
    ∃ sent, (httpCloseHttpPost Resolver.empty 0
        (writeCalls ⟨[],[],[],upnpUsingChunked⟩ [cstr "hello",[],cstr "0\r\n\r\n"])).sent =
          []++sent ∧
      (feedParser Resolver.empty chunkedResponse [sent]).1 = .success ∧
      (feedParser Resolver.empty chunkedResponse [sent]).2.entityBytes =
        cstr "hello0\r\n\r\n" := by
  have hinit : ParserRun Resolver.empty [] (parserResponseInit .get) := .response .get
  obtain ⟨new,hrun⟩ := hinit.parserAppend
    (cstr "HTTP/1.1 200 OK\r\nTransfer-Encoding: chunked\r\n\r\n") (by decide)
  have hnext : ChunkedNext chunkedResponse :=
    ⟨by decide,by decide,.inr (by decide)⟩
  obtain ⟨sent,hsent,hread⟩ := httpWriteHttpPost_readBack Resolver.empty 0
    ⟨[],[],[],upnpUsingChunked⟩ rfl (by simp [HttpPostHandle.Reliable])
    [cstr "hello",[],cstr "0\r\n\r\n"] (by decide)
  exact ⟨sent,hsent,(hread _ chunkedResponse hrun hnext [sent] (by simp)).2 (by simp)⟩

/-- The response is taken: the parser gets to its end, and the content is not too long; or it
gets to the entity, which lasts until the connection is closed, or to a web post. -/
inductive Accepted (res : Resolver) (maxContentLength : ℕ) : SockInfo → Bool → HttpParser → Prop
  | closed (p : HttpParser) : Accepted res maxContentLength [] true p
  | complete {x : List UInt8} {hp : 0 < x.length} {hf : x.length ≤ tempbufSize} {sock : SockInfo}
      {okOnClose : Bool} {p q : HttpParser} (h : parserAppend res p x = (.success,q))
      (hmax : ¬(0 < maxContentLength ∧ maxContentLength % 2^32 < q.contentLength)) :
      Accepted res maxContentLength (.data x hp hf::sock) okOnClose p
  | webPost {x : List UInt8} {hp : 0 < x.length} {hf : x.length ≤ tempbufSize} {sock : SockInfo}
      {okOnClose : Bool} {p q : HttpParser} (h : parserAppend res p x = (.continue1,q)) :
      Accepted res maxContentLength (.data x hp hf::sock) okOnClose p
  | goesOn {x : List UInt8} {hp : 0 < x.length} {hf : x.length ≤ tempbufSize} {sock : SockInfo}
      {okOnClose : Bool} {p q : HttpParser} {s : ParseStatus} (h : parserAppend res p x = (s,q))
      (hs : s = .incompleteEntity ∨ s = .incomplete ∨ s = .ok)
      (hrest : Accepted res maxContentLength sock (okOnClose || decide (s = .incompleteEntity)) q) :
      Accepted res maxContentLength (.data x hp hf::sock) okOnClose p

theorem Accepted.data_inv {res : Resolver} {maxContentLength : ℕ} {x : List UInt8}
    {hp : 0 < x.length} {hf : x.length ≤ tempbufSize} {sock : SockInfo} {okOnClose : Bool}
    {p q : HttpParser} {s : ParseStatus}
    (h : Accepted res maxContentLength (.data x hp hf::sock) okOnClose p)
    (hstep : parserAppend res p x = (s,q)) :
    s = .success ∧ ¬(0 < maxContentLength ∧ maxContentLength % 2^32 < q.contentLength) ∨
      s = .continue1 ∨ (s = .incompleteEntity ∨ s = .incomplete ∨ s = .ok) ∧
        Accepted res maxContentLength sock (okOnClose || decide (s = .incompleteEntity)) q := by
  cases h with
  | complete h hmax =>
    rw [hstep] at h
    cases h
    exact .inl ⟨rfl,hmax⟩
  | webPost h =>
    rw [hstep] at h
    cases h
    exact .inr (.inl rfl)
  | goesOn h hs hrest =>
    rw [hstep] at h
    cases h
    exact .inr (.inr ⟨hs,hrest⟩)

/-- An exit of the loop: with success it has stored no code, and otherwise one. -/
def ExitsWith (accepted : Prop) (r : RecvResult) : Prop :=
  accepted ∧ r.code = upnpESuccess ∧ r.httpErrorCode = none ∨
    ¬accepted ∧ r.code ≠ upnpESuccess ∧ r.httpErrorCode.isSome = true

theorem recvLoop_exits (res : Resolver) (maxContentLength : ℕ) (sock : SockInfo) (okOnClose : Bool)
    (p : HttpParser) : ExitsWith (Accepted res maxContentLength sock okOnClose p)
      (recvLoop res maxContentLength sock okOnClose p) := by
  have hbad : upnpEBadHttpmsg ≠ upnpESuccess := by decide
  induction sock generalizing okOnClose p with
  | nil =>
    cases okOnClose with
    | true => exact .inl ⟨.closed p,rfl,rfl⟩
    | false => exact .inr ⟨fun h => (by cases h),hbad,rfl⟩
  | cons read sock ih =>
    cases read with
    | error code neg =>
      refine .inr ⟨fun h => (by cases h),?_,rfl⟩
      exact fun h0 => absurd neg (by rw [show code = 0 from h0]; decide)
    | data x hp hf =>
      rcases hstep : parserAppend res p x with ⟨s,q⟩
      simp only [recvLoop,hstep]
      have hgoes := ih (okOnClose || decide (s = .incompleteEntity)) q
      -- the statuses after which the loop goes on
      have hnext : (s = .incompleteEntity ∨ s = .incomplete ∨ s = .ok) →
          (Accepted res maxContentLength (.data x hp hf::sock) okOnClose p ↔
            Accepted res maxContentLength sock (okOnClose || decide (s = .incompleteEntity)) q) := by
        intro hs
        constructor
        · intro h
          rcases h.data_inv hstep with ⟨rfl,-⟩ | rfl | ⟨-,hrest⟩
          · simp at hs
          · simp at hs
          · exact hrest
        · exact fun hrest => .goesOn hstep hs hrest
      cases s with
      | success =>
        show ExitsWith _ (recvComplete maxContentLength q)
        rw [recvComplete]
        by_cases hmax : 0 < maxContentLength ∧ maxContentLength % 2^32 < q.contentLength
        · rw [if_pos hmax]
          have hcode : upnpEOutofBounds ≠ upnpESuccess := by decide
          refine .inr ⟨fun h => ?_,hcode,rfl⟩
          rcases h.data_inv hstep with ⟨-,hno⟩ | h | ⟨h,-⟩
          · exact hno hmax
          · cases h
          · simp at h
        · rw [if_neg hmax]
          exact .inl ⟨.complete hstep hmax,rfl,rfl⟩
      | continue1 => exact .inl ⟨.webPost hstep,rfl,rfl⟩
      | failure =>
        refine .inr ⟨fun h => ?_,hbad,rfl⟩
        rcases h.data_inv hstep with ⟨h,-⟩ | h | ⟨h,-⟩
        · cases h
        · cases h
        · simp at h
      | noMatch =>
        refine .inr ⟨fun h => ?_,hbad,rfl⟩
        rcases h.data_inv hstep with ⟨h,-⟩ | h | ⟨h,-⟩
        · cases h
        · cases h
        · simp at h
      | incompleteEntity =>
        rw [hnext (.inl rfl)]
        rwa [show (okOnClose || decide (ParseStatus.incompleteEntity = .incompleteEntity)) = true
          from Bool.or_true _] at hgoes ⊢
      | incomplete =>
        rw [hnext (.inr (.inl rfl))]
        rwa [show (okOnClose || decide (ParseStatus.incomplete = .incompleteEntity)) = okOnClose
          from Bool.or_false _] at hgoes ⊢
      | ok =>
        rw [hnext (.inr (.inr rfl))]
        rwa [show (okOnClose || decide (ParseStatus.ok = .incompleteEntity)) = okOnClose
          from Bool.or_false _] at hgoes ⊢

/-- With success the status of the response is reported, and with an error of the receive loop
the code that it has stored. -/
structure StatusReported (res : Resolver) (maxContentLength : ℕ) (h : HttpPostHandle) : Prop where
  ofSuccess : (httpCloseHttpPost res maxContentLength h).code = upnpESuccess →
    ∃ n : ℕ, (httpCloseHttpPost res maxContentLength h).httpStatus = some n ∧
      (n : ℤ) = (httpRecvMessage res maxContentLength .post h.sockInfo).parser.msg.statusCode
  ofError : (httpRecvMessage res maxContentLength .post h.sockInfo).code ≠ upnpESuccess →
    (httpCloseHttpPost res maxContentLength h).httpStatus.isSome = true ∧
      (httpCloseHttpPost res maxContentLength h).httpStatus =
        (httpRecvMessage res maxContentLength .post h.sockInfo).httpErrorCode

@[simp] theorem sockWrite_sockInfo (h : HttpPostHandle) (b : List UInt8) :
    (sockWrite h b).2.sockInfo = h.sockInfo := by
  unfold sockWrite
  split <;> rfl

/-- The last chunk is written, and nothing of it is seen in the answer. -/
theorem httpCloseHttpPost_recv (res : Resolver) (maxContentLength : ℕ) (h : HttpPostHandle) :
    (httpCloseHttpPost res maxContentLength h).code =
        (httpRecvMessage res maxContentLength .post h.sockInfo).code ∧
      (httpCloseHttpPost res maxContentLength h).httpStatus =
        (httpRecvMessage res maxContentLength .post h.sockInfo).httpErrorCode := by
  unfold httpCloseHttpPost
  split
  · dsimp only
    rw [sockWrite_sockInfo]
    exact ⟨rfl,rfl⟩
  · exact ⟨rfl,rfl⟩

/-- With success the code is not set. -/
theorem StatusReported.notAccepted {res : Resolver} {maxContentLength : ℕ} {h : HttpPostHandle}
    (hr : StatusReported res maxContentLength h) :
    ¬Accepted res maxContentLength h.sockInfo false (recvInit .post) := by
  intro haccepted
  rcases httpCloseHttpPost_recv res maxContentLength h with ⟨hcode,hstatus⟩
  rcases recvLoop_exits res maxContentLength h.sockInfo false (recvInit .post) with
    ⟨-,hsuccess,hnone⟩ | ⟨hno,-⟩
  · rcases hr.ofSuccess (hcode.trans hsuccess) with ⟨n,hn,-⟩
    rw [hstatus.trans hnone] at hn
    cases hn
  · exact hno haccepted

theorem statusReported_iff (res : Resolver) (maxContentLength : ℕ) (h : HttpPostHandle) :
    StatusReported res maxContentLength h ↔
      ¬Accepted res maxContentLength h.sockInfo false (recvInit .post) := by
  refine ⟨StatusReported.notAccepted,fun hno => ?_⟩
  rcases httpCloseHttpPost_recv res maxContentLength h with ⟨hcode,hstatus⟩
  rcases recvLoop_exits res maxContentLength h.sockInfo false (recvInit .post) with
    ⟨haccepted,-⟩ | ⟨-,herror,hsome⟩
  · exact absurd haccepted hno
  · refine ⟨fun h0 => absurd (hcode.symm.trans h0) herror,fun _ => ⟨?_,hstatus⟩⟩
    rw [hstatus]
    exact hsome

def okResponse : List UInt8 := cstr "HTTP/1.1 200 OK\r\nCONTENT-LENGTH: 0\r\n\r\n"

theorem okResponse_not_reported :
    ¬StatusReported Resolver.empty 0
      ⟨[.data okResponse (by decide) (by decide)],[],[],upnpUsingChunked⟩ := by
  intro hr
  have hsuccess : (parserAppend Resolver.empty (recvInit .post) okResponse).1 = .success := by
    decide
  refine hr.notAccepted (.complete (q := (parserAppend Resolver.empty (recvInit .post) okResponse).2) ?_ ?_)
  · rw [← hsuccess]
  · exact fun h => absurd h.1 (Nat.lt_irrefl 0)

end Http
end CtrlPt
