import CtrlPt.Http.CheckedParser
import CtrlPt.Http.Decoded
import CtrlPt.Web.Request

/-! The body of a POST. `http_RecvPostMessage` writes the entity to a file, block by block,
while it is still being received; what it answers and what it has written is what the entity
parser says of the message as a whole. -/
namespace CtrlPt
namespace Web

open CText Http Resume

def httpUnauthorized : ℤ := 401
def httpServiceUnavailable : ℤ := 503

/-- `Data_Buf_Size`, the size of `Buf`. -/
def postBufSize : ℕ := 1024

/-- Where the body goes: a file behind `fopen` and `fwrite`, or the callbacks of a virtual
directory. `write` is what the next write answers when these blocks have been written. -/
structure Destination where
  isVirtualFile : Bool
  opens : Bool
  write : List (List UInt8) → List UInt8 → ℤ

/-- The callback reports an error, or `fwrite` a count other than the one it was asked for. -/
def Destination.refuses (d : Destination) (blocks : List (List UInt8)) (block : List UInt8)
    (size : ℕ) : Bool :=
  if d.isVirtualFile then d.write blocks block < 0 else d.write blocks block ≠ size

/-- The local variables of `http_RecvPostMessage`, and the blocks that have been written. -/
structure Upload where
  parser : HttpParser
  sockInfo : SockInfo
  status : ParseStatus
  okOnClose : Bool
  dataBufSize : ℕ
  entityOffset : ℕ
  blocks : List (List UInt8)

/-- What has already been gotten is parsed first. -/
def parseReceived (u : Upload) : Upload :=
  if u.parser.position = .complete then u
  else { u with
    parser := (parserParseEntity u.parser).2, status := (parserParseEntity u.parser).1 }

/-- One round of the inner loop, which reads more if necessary. It leaves with `none`, or with
the code to return. -/
def moreRound (u : Upload) : Upload ⊕ (Option ℤ × Upload) :=
  if u.parser.msg.entity.length < u.entityOffset+u.dataBufSize ∧ u.parser.position ≠ .complete then
    match u.sockInfo with
    | .data x _ _::sock =>
      let r := parserParseEntity (u.parser.append x)
      let u := { u with parser := r.2, sockInfo := sock, status := r.1 }
      match entitySwitch u.okOnClose r.1 with
      | some ok => .inl { u with okOnClose := ok }
      | none => .inr (some httpBadRequest,u)
    | .error _ _::sock => .inr (some httpServiceUnavailable,{ u with sockInfo := sock })
    | [] =>
      if u.okOnClose then .inl { u with parser := { u.parser with position := .complete } }
      else .inr (some httpBadRequest,
        { u with parser := { u.parser with httpErrorCode := Http.httpBadRequest } })
  else .inr (none,u)

/-- Two for every read to come, and one more until the message is complete. -/
def moreMeasure (u : Upload) : ℕ :=
  2*u.sockInfo.length + if u.parser.position = .complete then 0 else 1

def readMoreBody (u : Upload) : Option ℤ × Upload :=
  Loop.run moreMeasure moreRound (fun v => (none,v)) u

/-- `Data_Buf_Size` for the next block. -/
def Upload.blockSize (u : Upload) : ℕ :=
  if u.parser.msg.entity.length < u.entityOffset+u.dataBufSize then
    u.parser.msg.entity.length-u.entityOffset
  else u.dataBufSize

/-- What is copied to `Buf`. -/
def Upload.block (u : Upload) : List UInt8 :=
  (u.parser.msg.msg.drop (u.parser.entityStartPosition+u.entityOffset)).take u.blockSize

def Upload.stored (u : Upload) : Upload :=
  { u with
    dataBufSize := u.blockSize, entityOffset := u.entityOffset+u.blockSize
    blocks := u.blocks++[u.block] }

/-- One round of the outer loop, which writes a block. -/
def storeRound (d : Destination) (u : Upload) : Upload ⊕ (ℤ × Upload) :=
  let u := parseReceived u
  match entitySwitch u.okOnClose u.status with
  | none => .inr (httpBadRequest,u)
  | some ok =>
    match readMoreBody { u with okOnClose := ok } with
    | (some code,u) => .inr (code,u)
    | (none,u) =>
      if d.refuses u.blocks u.block u.blockSize then .inr (httpInternalServerError,u.stored)
      else if u.parser.position ≠ .complete ∨ u.stored.entityOffset ≠ u.parser.msg.entity.length then
        .inl u.stored
      else .inr (httpOk,u.stored)

def Upload.total (u : Upload) : ℕ := u.parser.msg.msg.length+(sockBytes u.sockInfo).length

/-- No more blocks are written than there are bytes. -/
def storeMeasure (u : Upload) : ℕ := u.total-u.entityOffset

def uploadInit (p : HttpParser) (sock : SockInfo) : Upload :=
  ⟨{ p with position := .entity },sock,.ok,false,postBufSize,0,[]⟩

/-- Reads into `Buf` are of at most `Data_Buf_Size` bytes. -/
def httpRecvPostMessage (d : Destination) (p : HttpParser) (sock : SockInfo) : ℤ × Upload :=
  if d.opens then
    Loop.run storeMeasure (storeRound d) (fun u => (httpInternalServerError,u)) (uploadInit p sock)
  else (if d.isVirtualFile then httpInternalServerError else httpUnauthorized,uploadInit p sock)

/-- The bytes that come before the first error. -/
def heard : SockInfo → List UInt8
  | [] => []
  | .data x _ _::sock => x++heard sock
  | .error _ _::_ => []

def Destination.Reliable (d : Destination) : Prop :=
  ∀ blocks block, if d.isVirtualFile then 0 ≤ d.write blocks block
    else d.write blocks block = block.length

/-- The entity parser as a machine that is fed. -/
abbrev entityMachine : Machine HttpParser UInt8 ParseStatus :=
  ⟨HttpParser.append,parserParseEntity,waitsForMore⟩

def wholeBody (p : HttpParser) (sock : SockInfo) : ParseStatus × HttpParser :=
  parserParseEntity ({ p with position := .entity }.append (heard sock))

/-- What has been read is the beginning of the message, and `r` is what the parser says of it. -/
structure ReadUpTo (p : HttpParser) (sock rest : SockInfo) (r : ParseStatus × HttpParser) : Prop where
  taken : ∃ taken, heard sock = taken++heard rest ∧
    Reached entityMachine (fun q => Framed q ∧ q.position = .entity) observeMessage
      { p with position := .entity } taken r

theorem observeMessage_status {r r' : ParseStatus × HttpParser}
    (h : observeMessage r = observeMessage r') : r.1 = r'.1 :=
  congrArg (fun o : ParseStatus × Option MessageView => o.1) h

theorem observeMessage_entity {r r' : ParseStatus × HttpParser}
    (h : observeMessage r = observeMessage r') (hs : r'.1 = .success) :
    r.2.entityBytes = r'.2.entityBytes := by
  have hr : r.1 = .success := (observeMessage_status h).trans hs
  have hv := congrArg Prod.snd h
  simp only [observeMessage,hr,hs,true_or,if_true,Option.some.injEq] at hv
  exact congrArg (fun v => v.entityBytes) hv

/-- An answer that is not waiting is that to the whole message. -/
theorem ReadUpTo.whole {p : HttpParser} {sock rest : SockInfo} {r : ParseStatus × HttpParser}
    (h : ReadUpTo p sock rest r) (hw : waitsForMore r.1 = false) :
    observeMessage (wholeBody p sock) = observeMessage r := by
  obtain ⟨taken,ht,hr⟩ := h.taken
  have hx := hr.final hw (heard rest)
  rw [← ht] at hx
  exact hx

/-- When nothing more is heard, any answer is. -/
theorem ReadUpTo.end {p : HttpParser} {sock rest : SockInfo} {r : ParseStatus × HttpParser}
    (h : ReadUpTo p sock rest r) (hrest : heard rest = []) :
    observeMessage (wholeBody p sock) = observeMessage r := by
  obtain ⟨taken,ht,hr⟩ := h.taken
  rw [hrest,List.append_nil] at ht
  rw [← hr.now,← ht]
  rfl

theorem ReadUpTo.next {p : HttpParser} {sock rest rest' : SockInfo} {r : ParseStatus × HttpParser}
    (h : ReadUpTo p sock rest r) (hw : waitsForMore r.1 = true) {x : List UInt8}
    (hx : heard rest = x++heard rest') :
    ReadUpTo p sock rest' (parserParseEntity (r.2.append x)) := by
  obtain ⟨taken,ht,hr⟩ := h.taken
  refine ⟨taken++x,?_,parserParseEntity_resumable.reached_next hr hw x⟩
  rw [ht,hx,List.append_assoc]

/-- The parser waits for more of the message, or is done with it. -/
structure Reading (p : HttpParser) (sock : SockInfo) (u : Upload) : Prop where
  readUpTo : ReadUpTo p sock u.sockInfo (u.status,u.parser)
  waiting : u.status = .incomplete → Counted u.parser
  settled : Settled u.parser
  asked : Asked u.parser
  status : u.status = .incomplete ∧ u.parser.position = .entity ∨
    u.status = .success ∧ u.parser.position = .complete
  written : u.blocks.flatten = u.parser.decoded.take u.entityOffset
  offset : u.entityOffset ≤ u.parser.msg.entity.length
  bufSize : u.dataBufSize = postBufSize
  closed : u.okOnClose = false

/-- What has been received is to be parsed. -/
structure Ready (p : HttpParser) (sock : SockInfo) (u : Upload) : Prop where
  next : u.parser.position ≠ .complete → Counted u.parser ∧ Asked u.parser ∧
    ReadUpTo p sock u.sockInfo (parserParseEntity u.parser)
  done : u.parser.position = .complete → Reading p sock u
  written : u.blocks.flatten = u.parser.decoded.take u.entityOffset
  offset : u.entityOffset ≤ u.parser.decoded.length
  bufSize : u.dataBufSize = postBufSize
  closed : u.okOnClose = false

/-- The message is at fault. -/
structure Failed (p : HttpParser) (sock : SockInfo) (u : Upload) : Prop where
  inOrder : u.blocks.flatten <+: u.parser.decoded
  rejected : (wholeBody p sock).1 ≠ .success

theorem Reading.inOrder {p : HttpParser} {sock : SockInfo} {u : Upload} (h : Reading p sock u) :
    u.blocks.flatten <+: u.parser.decoded := by
  rw [h.written]
  exact List.take_prefix _ _

/-- A message that is waited for in vain is not accepted. -/
theorem Reading.failed {p : HttpParser} {sock : SockInfo} {u : Upload} (h : Reading p sock u)
    (hpos : u.parser.position ≠ .complete) (hend : heard u.sockInfo = []) :
    (wholeBody p sock).1 ≠ .success := by
  rw [observeMessage_status (h.readUpTo.end hend)]
  rcases h.status with ⟨hs,-⟩ | ⟨-,hc⟩
  · rw [hs]
    rintro ⟨⟩
  · exact absurd hc hpos

theorem entitySwitch_request {st : ParseStatus} (he : st ≠ .incompleteEntity)
    (hc : st ≠ .continue1) :
    entitySwitch false st = some false ∧ (st = .incomplete ∨ st = .success) ∨
      entitySwitch false st = none ∧ waitsForMore st = false ∧ st ≠ .success := by
  cases st with
  | success => exact .inl ⟨rfl,.inr rfl⟩
  | incomplete => exact .inl ⟨rfl,.inl rfl⟩
  | incompleteEntity => exact absurd rfl he
  | continue1 => exact absurd rfl hc
  | _ => exact .inr ⟨rfl,rfl,by rintro ⟨⟩⟩

theorem take_of_front {a b : List UInt8} (h : a <+: b) {n : ℕ} (hn : n ≤ a.length) :
    b.take n = a.take n := by
  obtain ⟨t,rfl⟩ := h
  exact List.take_append_of_le_length hn

/-- What the parser makes of an upload whose unparsed message is `q`. -/
theorem parsed_upload {p q : HttpParser} {sock rest : SockInfo} {u : Upload} (hq : Counted q)
    (ha : Asked q) (hr : ReadUpTo p sock rest (parserParseEntity q))
    (hw : u.blocks.flatten = q.decoded.take u.entityOffset) (ho : u.entityOffset ≤ q.decoded.length)
    (hb : u.dataBufSize = postBufSize) :
    entitySwitch false (parserParseEntity q).1 = some false ∧
        Reading p sock { u with
          parser := (parserParseEntity q).2, sockInfo := rest, status := (parserParseEntity q).1,
          okOnClose := false } ∨
      entitySwitch false (parserParseEntity q).1 = none ∧
        Failed p sock { u with
          parser := (parserParseEntity q).2, sockInfo := rest, status := (parserParseEntity q).1,
          okOnClose := false } := by
  have hg := parserParseEntity_grown hq
  have hask := parserParseEntity_asked hq.toFramed ha
  have hkept : u.blocks.flatten = (parserParseEntity q).2.decoded.take u.entityOffset := by
    rw [hw,take_of_front hg.grows ho]
  rcases entitySwitch_request hask.1 (parserParseEntity_not_continue q) with
    ⟨hsw,hst⟩ | ⟨hsw,hwait,hne⟩
  · have hset : Settled (parserParseEntity q).2 := by
      refine hg.settled ?_
      rcases hst with hst | hst
      · exact .inr (by rw [hst]; rfl)
      · exact .inl hst
    refine .inl ⟨hsw,hr,fun hi => hg.counted (.inr ?_),hset,hask.2,?_,hkept,?_,hb,rfl⟩
    · have hi' : (parserParseEntity q).1 = .incomplete := hi
      rw [hi']
      rfl
    · rcases hst with hst | hst
      · obtain ⟨taken,-,hreached⟩ := hr.taken
        exact .inl ⟨hst,(hreached.keep (by rw [hst]; rfl)).2⟩
      · exact .inr ⟨hst,(parserParseEntity_success hq.toFramed hst).1⟩
    · show u.entityOffset ≤ (parserParseEntity q).2.msg.entity.length
      rw [← hset.length]
      exact Nat.le_trans ho hg.grows.length_le
  · refine .inr ⟨hsw,?_,?_⟩
    · show u.blocks.flatten <+: (parserParseEntity q).2.decoded
      rw [hkept]
      exact List.take_prefix _ _
    · rw [observeMessage_status (hr.whole hwait)]
      exact hne

theorem Reading.more {p : HttpParser} {sock rest : SockInfo} {u : Upload} (h : Reading p sock u)
    (hpos : u.parser.position ≠ .complete) {x : List UInt8} {hp : 0 < x.length}
    {hf : x.length ≤ tempbufSize} (hs : u.sockInfo = .data x hp hf::rest) :
    (entitySwitch false (parserParseEntity (u.parser.append x)).1 = some false ∧
        Reading p sock { u with
          parser := (parserParseEntity (u.parser.append x)).2, sockInfo := rest,
          status := (parserParseEntity (u.parser.append x)).1, okOnClose := false } ∨
      entitySwitch false (parserParseEntity (u.parser.append x)).1 = none ∧
        Failed p sock { u with
          parser := (parserParseEntity (u.parser.append x)).2, sockInfo := rest,
          status := (parserParseEntity (u.parser.append x)).1, okOnClose := false }) ∧
      (parserParseEntity (u.parser.append x)).2.msg.msg.length+(sockBytes rest).length ≤
        u.total := by
  have hst : u.status = .incomplete := by
    rcases h.status with ⟨hst,-⟩ | ⟨-,hc⟩
    · exact hst
    · exact absurd hc hpos
  have hq := (h.waiting hst).append x
  have hd := decoded_append (h.waiting hst) x
  have hr := h.readUpTo.next (by rw [hst]; rfl)
    (show heard u.sockInfo = x++heard rest by rw [hs]; rfl)
  refine ⟨parsed_upload hq ⟨h.asked.request,h.asked.sized⟩ hr ?_ ?_ h.bufSize,?_⟩
  · rw [hd]
    exact h.written
  · rw [hd,h.settled.length]
    exact h.offset
  · have hl := (Checked.parserParseEntity_within hq.toFramed).length_le
    rw [HttpParser.append_msg,List.length_append] at hl
    simp only [Upload.total,hs,sockBytes_data,List.length_append]
    omega

/-- What `http_RecvPostMessage` answers, and what it has written by then. -/
structure Stored (p : HttpParser) (sock : SockInfo) (d : Destination) (r : ℤ × Upload) : Prop where
  inOrder : r.2.blocks.flatten <+: r.2.parser.decoded
  accepted : r.1 = httpOk → (wholeBody p sock).1 = .success ∧
    r.2.blocks.flatten = (wholeBody p sock).2.entityBytes
  complete : d.opens = true → d.Reliable → (wholeBody p sock).1 = .success → r.1 = httpOk

theorem Failed.stored {p : HttpParser} {sock : SockInfo} {u : Upload} (h : Failed p sock u)
    (d : Destination) {code : ℤ} (hc : code ≠ httpOk) : Stored p sock d (code,u) :=
  ⟨h.inOrder,fun he => absurd he hc,fun _ _ hs => absurd hs h.rejected⟩

theorem Reading.blockSize_le {p : HttpParser} {sock : SockInfo} {u : Upload}
    (h : Reading p sock u) : u.entityOffset+u.blockSize ≤ u.parser.msg.entity.length := by
  have ho := h.offset
  unfold Upload.blockSize
  split <;> omega

/-- The block is copied from the decoded bytes, all of it from inside the buffer. -/
theorem Reading.block_eq {p : HttpParser} {sock : SockInfo} {u : Upload} (h : Reading p sock u) :
    u.block = (u.parser.decoded.drop u.entityOffset).take u.blockSize := by
  have hle := h.blockSize_le
  by_cases hd : u.parser.entPosition = .determineReadMethod
  · have hz := h.settled.length
    rw [decoded_nil hd,List.length_nil] at hz
    have hsize : u.blockSize = 0 := by omega
    simp only [Upload.block,hsize,List.take_zero]
  · rw [decoded_eq hd,List.drop_take,List.take_take,List.drop_drop,Nat.min_eq_left (by omega)]
    rfl

theorem Reading.stored_written {p : HttpParser} {sock : SockInfo} {u : Upload}
    (h : Reading p sock u) :
    u.stored.blocks.flatten = u.parser.decoded.take u.stored.entityOffset := by
  simp only [Upload.stored,List.flatten_append,List.flatten_cons,List.flatten_nil,List.append_nil]
  rw [h.written,h.block_eq,← List.take_add]

/-- The last block has been written. -/
theorem Reading.complete {p : HttpParser} {sock : SockInfo} {u : Upload} (h : Reading p sock u)
    (hpos : u.parser.position = .complete)
    (hoff : u.stored.entityOffset = u.parser.msg.entity.length) :
    (wholeBody p sock).1 = .success ∧
      u.stored.blocks.flatten = (wholeBody p sock).2.entityBytes := by
  have hs : u.status = .success := by
    rcases h.status with ⟨-,hc⟩ | ⟨hs,-⟩
    · rw [hpos] at hc
      cases hc
    · exact hs
  have hwhole := h.readUpTo.whole (by rw [hs]; rfl)
  refine ⟨(observeMessage_status hwhole).trans hs,?_⟩
  rw [observeMessage_entity hwhole hs,h.stored_written,hoff,← h.settled.length,List.take_length]
  exact h.settled.entityBytes

/-- Behind a block of the full size the upload goes on. -/
theorem Reading.ready {p : HttpParser} {sock : SockInfo} {u : Upload} (h : Reading p sock u)
    (hfull : u.blockSize = postBufSize) : Ready p sock u.stored := by
  have hle := h.blockSize_le
  refine ⟨fun hpos => ?_,fun hpos => ?_,h.stored_written,?_,hfull,h.closed⟩
  · have hst : u.status = .incomplete := by
      rcases h.status with ⟨hst,-⟩ | ⟨-,hc⟩
      · exact hst
      · exact absurd hc hpos
    have hr := h.readUpTo.next (by rw [hst]; rfl)
      (show heard u.sockInfo = []++heard u.sockInfo from rfl)
    rw [HttpParser.append_nil] at hr
    exact ⟨h.waiting hst,h.asked,hr⟩
  · exact ⟨h.readUpTo,h.waiting,h.settled,h.asked,h.status,h.stored_written,hle,hfull,h.closed⟩
  · rw [show u.stored.parser = u.parser from rfl,h.settled.length]
    exact hle

end Web
end CtrlPt
