import CtrlPt.Http.Document
import CtrlPt.Http.Fields
import CtrlPt.Http.Sock

/-! `http_RequestAndResponse`: a connection is made, the request is sent and the response is
received, all under one time limit. -/
namespace CtrlPt
namespace Exchange

open CText Http Sock
open Uri (Resolver)

/-- What becomes of a `connect` that goes on in the background. -/
inductive Pending
  | selectFails | expired | ready (optFails : Bool) (valopt : ℤ)
  deriving DecidableEq, Repr

inductive ConnectRes
  | connected | inProgress (pending : Pending) | failed
  deriving DecidableEq, Repr

/-- The results of `private_connect`'s calls. -/
structure ConnectEnv where
  noBlocking : Bool
  connect : ConnectRes
  blocking : Bool
  deriving DecidableEq, Repr

def checkConnect : ConnectRes → ℤ
  | .connected => 0
  | .inProgress .selectFails | .inProgress .expired => -1
  | .inProgress (.ready optFails valopt) => if optFails = true ∨ valopt ≠ 0 then -1 else 0
  -- an error that is there at once is not looked at
  | .failed => 0

def privateConnect (env : ConnectEnv) : ℤ :=
  if env.noBlocking = false then -1
  else
    let ret := checkConnect env.connect
    if ret ≠ -1 then if env.blocking then 0 else -1 else ret

/-- What the exchange does with its socket. -/
inductive SockOp
  | socket | connect | write (bytes : List UInt8) | read | destroy
  deriving DecidableEq, Repr

/-- A peer that has closed. -/
def closedEnv : ReadEnv := ⟨[],.data [],0⟩

def recvEnd (x : SockResult) (okOnClose : Bool) (p : HttpParser) : RecvResult :=
  if x.ret = 0 then
    if okOnClose then ⟨upnpESuccess,none,p⟩ else ⟨upnpEBadHttpmsg,some httpBadRequest,p⟩
  else ⟨x.ret,some p.httpErrorCode,p⟩

/-- The loop of `http_RecvMessage` over `sock_read`. -/
def recvTimed (res : Resolver) (maxContentLength : ℕ) :
    List ReadEnv → ℤ → Bool → HttpParser → RecvResult
  | [], t, okOnClose, p => recvEnd (sockRead tempbufSize t closedEnv) okOnClose p
  | env::envs, t, okOnClose, p =>
    let x := sockRead tempbufSize t env
    if 0 < x.ret then
      match parserAppend res p x.bytes with
      | (.success,q) => recvComplete maxContentLength q
      | (.failure,q) => ⟨upnpEBadHttpmsg,some q.httpErrorCode,q⟩
      | (.noMatch,q) => ⟨upnpEBadHttpmsg,some q.httpErrorCode,q⟩
      | (.incompleteEntity,q) => recvTimed res maxContentLength envs x.timeoutSecs true q
      | (.continue1,q) => ⟨upnpESuccess,none,q⟩
      | (.incomplete,q) => recvTimed res maxContentLength envs x.timeoutSecs okOnClose q
      | (.ok,q) => recvTimed res maxContentLength envs x.timeoutSecs okOnClose q
    else recvEnd x okOnClose p

/-- What an exchange meets. -/
structure ExchangeEnv where
  socket : Bool
  connect : ConnectEnv
  write : WriteEnv
  reads : List ReadEnv
  deriving DecidableEq, Repr

/-- What is returned, the parser of the response, and what has been done with the socket. -/
structure ExchangeResult where
  ret : ℤ
  response : HttpParser
  ops : List SockOp

/-- `http_SendMessage` with the format `"b"`: it returns 0 also if it cannot send everything. -/
def httpSendMessage (request : List UInt8) (timeoutSecs : ℤ) (env : WriteEnv) :
    ℤ × List UInt8 × ℤ :=
  if 0 < request.length then
    let x := sockWrite request timeoutSecs env
    (0,x.bytes,x.timeoutSecs)
  else (0,[],timeoutSecs)

def httpRequestAndResponse (res : Resolver) (maxContentLength : ℕ) (request : List UInt8)
    (reqMethod : HttpMethod) (timeoutSecs : ℤ) (env : ExchangeEnv) : ExchangeResult :=
  if env.socket = false then ⟨upnpESocketError,parserResponseInit reqMethod,[]⟩
  else if privateConnect env.connect = -1 then
    ⟨upnpESocketConnect,parserResponseInit reqMethod,[.socket,.connect,.destroy]⟩
  else
    let sent := httpSendMessage request timeoutSecs env.write
    if sent.1 ≠ 0 then
      ⟨sent.1,parserResponseInit reqMethod,[.socket,.connect,.write sent.2.1,.destroy]⟩
    else
      let r := recvTimed res maxContentLength env.reads sent.2.2 false (recvInit reqMethod)
      ⟨r.code,r.parser,[.socket,.connect,.write sent.2.1,.read,.destroy]⟩

/-- What a call of `sock_read` gives, unless the peer has closed. -/
def toRead (x : SockResult) : Option SockRead :=
  if hneg : x.ret < 0 then some (.error x.ret hneg)
  else if hpos : 0 < x.bytes.length then
    if hfits : x.bytes.length ≤ tempbufSize then some (.data x.bytes hpos hfits) else none
  else none

/-- The reads of the calls of `sock_read`, each with the limit that the one before has left. -/
def readOutcomes : List ReadEnv → ℤ → SockInfo
  | [], t => (toRead (sockRead tempbufSize t closedEnv)).toList
  | env::envs, t =>
    let x := sockRead tempbufSize t env
    match toRead x with
    | some (.data b hpos hfits) => .data b hpos hfits::readOutcomes envs x.timeoutSecs
    | some (.error e he) => [.error e he]
    | none => []

theorem toRead_error {x : SockResult} (h : x.ret < 0) : toRead x = some (.error x.ret h) := dif_pos h

theorem toRead_data {x : SockResult} (h : x.ret = x.bytes.length) (hpos : 0 < x.bytes.length)
    (hfits : x.bytes.length ≤ tempbufSize) : toRead x = some (.data x.bytes hpos hfits) := by
  have hno : ¬x.ret < 0 := by omega
  rw [toRead,dif_neg hno,dif_pos hpos,dif_pos hfits]

theorem toRead_closed {x : SockResult} (h : x.ret = 0) (hb : x.bytes = []) : toRead x = none := by
  have hno : ¬x.ret < 0 := by omega
  rw [toRead,dif_neg hno,dif_neg]
  rw [hb]
  exact Nat.lt_irrefl 0

/-- What the receive loop sees of a read. -/
inductive ReadCase (x : SockResult) : Prop
  | error (hneg : x.ret < 0)
  | closed (hret : x.ret = 0) (hread : toRead x = none)
  | data (hret : 0 < x.ret) (hpos : 0 < x.bytes.length) (hfits : x.bytes.length ≤ tempbufSize)
      (hread : toRead x = some (.data x.bytes hpos hfits))

theorem readCase_bytes {b : List UInt8} (hfits : b.length ≤ tempbufSize) (t : ℤ) :
    ReadCase ⟨toInt b.length,b,t⟩ := by
  have hret : toInt (b.length : ℤ) = b.length := toInt_of_lt (Nat.lt_of_le_of_lt hfits (by decide))
  rw [hret]
  rcases Nat.eq_zero_or_pos b.length with hzero | hpos
  · have hz : (b.length : ℤ) = 0 := Int.natCast_eq_zero.mpr hzero
    exact .closed hz (toRead_closed hz (List.length_eq_zero_iff.mp hzero))
  · exact .data (Int.natCast_pos.mpr hpos) hpos hfits (toRead_data rfl hpos hfits)

theorem sockRead_case (t : ℤ) (env : ReadEnv) : ReadCase (sockRead tempbufSize t env) := by
  have hout := sockReadWrite_outcome t env.selects env.elapsed (recvInto tempbufSize env.recv)
  change ReadCase (sockReadWrite t env.selects env.elapsed (recvInto tempbufSize env.recv))
  generalize sockReadWrite t env.selects env.elapsed (recvInto tempbufSize env.recv) = x at hout
  cases hrecv : env.recv with
  | failed =>
    rw [hrecv] at hout
    cases hout with
    | refused e he ht => exact .error he
    | broken e ht hm =>
      cases hm
      exact .error (by decide : upnpESocketError < 0)
    | done ht hm => cases hm
  | data bytes =>
    rw [hrecv] at hout
    cases hout with
    | refused e he ht => exact .error he
    | broken e ht hm => cases hm
    | done ht hm => exact readCase_bytes (List.length_take_le _ _) _

theorem recvTimed_eq (res : Resolver) (maxContentLength : ℕ) (envs : List ReadEnv) (t : ℤ)
    (okOnClose : Bool) (p : HttpParser) : recvTimed res maxContentLength envs t okOnClose p =
      recvLoop res maxContentLength (readOutcomes envs t) okOnClose p := by
  induction envs generalizing t okOnClose p with
  | nil =>
    cases sockRead_case t closedEnv with
    | error hneg =>
      simp only [recvTimed,readOutcomes,toRead_error hneg,recvEnd,if_neg hneg.ne,
        Option.toList_some,recvLoop]
    | closed hret hread =>
      simp only [recvTimed,readOutcomes,hread,recvEnd,if_pos hret,Option.toList_none,recvLoop]
    | data hret hpos _ _ =>
      have hnil : (sockRead tempbufSize t closedEnv).bytes = [] := by
        unfold sockRead sockReadWrite
        split <;> rfl
      rw [hnil] at hpos
      exact absurd hpos (Nat.lt_irrefl 0)
  | cons env envs ih =>
    cases sockRead_case t env with
    | error hneg =>
      simp only [recvTimed,readOutcomes,toRead_error hneg,recvEnd,if_neg hneg.ne,
        if_neg hneg.not_gt,recvLoop]
    | closed hret hread =>
      have hno : ¬0 < (sockRead tempbufSize t env).ret := by omega
      simp only [recvTimed,readOutcomes,hread,recvEnd,if_neg hno,if_pos hret,recvLoop]
    | data hret hpos hfits hread =>
      simp only [recvTimed,readOutcomes,hread,if_pos hret,recvLoop]
      rcases parserAppend res p (sockRead tempbufSize t env).bytes with ⟨st,q⟩
      cases st with
      | incompleteEntity | incomplete | ok => exact ih _ _ _
      | success | failure | noMatch | continue1 => rfl

/-- A length has been announced only where the body is read by it. -/
def Sized (p : HttpParser) : Prop := p.contentLength = 0 ∨ p.entPosition = .usingClen

/-- A message that is complete is as long as was announced. -/
def Settled (p : HttpParser) : Prop :=
  p.contentLength = 0 ∨ p.contentLength = p.msg.entity.length

structure SizedStep (r : ParseStatus × HttpParser) : Prop where
  sized : Sized r.2
  settled : r.1 = .success → Settled r.2

theorem sizedStep_of_zero {r : ParseStatus × HttpParser} (h : r.2.contentLength = 0) : SizedStep r :=
  ⟨.inl h,fun _ => .inl h⟩

theorem entityStep_sized {p : HttpParser} (h : InResponse p) (hs : Sized p) :
    SizedStep (entityStep p) := by
  cases he : p.entPosition with
  | usingClen =>
    simp only [entityStep,he,parserParseEntityUsingClen]
    split
    · exact ⟨.inr he,by rintro ⟨⟩⟩
    · exact ⟨.inr rfl,fun _ => .inr rfl⟩
  | determineReadMethod =>
    have hc := hs.resolve_right (by rw [he]; rintro ⟨⟩)
    simp only [entityStep,he,parserGetEntityReadMethod]
    cases readMethod (p.setEntity ⟨p.cursor,0⟩).msg with
    | clen n => exact ⟨.inr rfl,by rintro ⟨⟩⟩
    | noBody | chunked | lengthRequired | untilClose => exact sizedStep_of_zero hc
  | usingChunked =>
    have hc := hs.resolve_right (by rw [he]; rintro ⟨⟩)
    refine sizedStep_of_zero ?_
    simp only [entityStep,he,parserParseChunkyEntity]
    split
    · rw [storeChunkSize_contentLength,hc]
    · rw [beginChunk_contentLength]
      simp only [HttpParser.deleteTo,HttpParser.advance,storeChunkSize_contentLength,hc]
  | chunkyBody =>
    have hc := hs.resolve_right (by rw [he]; rintro ⟨⟩)
    refine sizedStep_of_zero ?_
    simp only [entityStep,he,parserParseChunkyBody]
    split
    · split <;> exact hc
    · exact hc
  | chunkyHeaders =>
    have hc := hs.resolve_right (by rw [he]; rintro ⟨⟩)
    have hlen := (parserParseHeaders_frame h.framed.cursor_le).contentLength.trans hc
    refine sizedStep_of_zero ?_
    simp only [entityStep,he,parserParseChunkyHeaders_eq]
    split <;> exact hlen
  | untilClose =>
    have hc := hs.resolve_right (by rw [he]; rintro ⟨⟩)
    refine sizedStep_of_zero ?_
    simp only [entityStep,he]
    exact hc

theorem parserParseEntity_sized {p : HttpParser} (h : InResponse p) (hs : Sized p) :
    SizedStep (parserParseEntity p) := by
  have hl := Loop.last_spec (e := fun q : HttpParser => (ParseStatus.failure,q))
    (I := fun q => InResponse q ∧ Sized q) entityStep_descends ?_ p ⟨h,hs⟩
  · have he : entityStep _ = parserParseEntity p := (Loop.doWhile_inr hl.2).2
    rw [← he]
    exact entityStep_sized hl.1.1 hl.1.2
  · intro q r hq hr
    rcases Loop.doWhile_inl hr with ⟨-,rfl⟩
    exact ⟨entityRound_inResponse hq.1 hr,(entityStep_sized hq.1 hq.2).sized⟩

theorem parserStep_sized (res : Resolver) {p : HttpParser} (h : Receiving p) (hs : Sized p) :
    SizedStep (parserStep res p) := by
  cases h with
  | head h hr => exact sizedStep_of_zero ((h.step res).frame.contentLength.trans h.contentLength)
  | body h =>
    rw [parserStep_entity res h.position]
    exact parserParseEntity_sized h hs

theorem parserParse_sized (res : Resolver) {p : HttpParser} (h : Receiving p) (hs : Sized p) :
    SizedStep (parserParse res p) := by
  have hl := Loop.last_spec (e := fun q : HttpParser => (ParseStatus.failure,q))
    (I := fun q => Receiving q ∧ Sized q) (parserStep_descends res) ?_ p ⟨h,hs⟩
  · have he : parserStep res _ = parserParse res p := (Loop.doWhile_inr hl.2).2
    rw [← he]
    exact parserStep_sized res hl.1.1 hl.1.2
  · intro q r hq hr
    rcases Loop.doWhile_inl hr with ⟨-,rfl⟩
    exact ⟨parserRound_receiving hq.1 hr,(parserStep_sized res hq.1 hq.2).sized⟩

theorem feedParser_sized (res : Resolver) (xs : List (List UInt8)) (hx : xs ≠ []) {p : HttpParser}
    (h : Receiving p) (hs : Sized p) : SizedStep (feedParser res p xs) := by
  induction xs generalizing p with
  | nil => exact absurd rfl hx
  | cons x xs ih =>
    have hstep : SizedStep (parserAppend res p x) := parserParse_sized res (h.append x) hs
    cases xs with
    | nil => exact hstep
    | cons y ys =>
      rw [feedParser]
      by_cases hw : waitsForMore (parserAppend res p x).1 = true
      · simp only [hw,if_true]
        exact ih (List.cons_ne_nil _ _) (parserParse_receiving res (h.append x) hw) hstep.sized
      · simp only [hw,Bool.false_eq_true,if_false]
        exact hstep

theorem feedParser_status (res : Resolver) {xs : List (List UInt8)} (hx : xs ≠ []) (p : HttpParser) :
    (feedParser res p xs).1 ≠ .ok := by
  induction xs generalizing p with
  | nil => exact absurd rfl hx
  | cons x xs ih =>
    cases xs with
    | nil => exact parserParse_status res _
    | cons y ys =>
      rw [feedParser]
      split
      · exact ih (List.cons_ne_nil _ _) _
      · exact parserParse_status res _

theorem recvInit_receiving {method : HttpMethod} (hmethod : method ≠ .unknown) :
    Receiving (recvInit method) := by
  refine .head (recvInit_heading method) ?_
  rw [recvInit,if_neg hmethod]
  rfl

/-- Of two ways to cut a response both announce the same length. -/
theorem feedParser_contentLength (res : Resolver) {method : HttpMethod} (hmethod : method ≠ .unknown)
    {xs ys : List (List UInt8)} (hx : xs ≠ []) (hy : ys ≠ []) (hflat : xs.flatten = ys.flatten)
    (hobs : observeMessage (feedParser res (recvInit method) xs) =
      observeMessage (feedParser res (recvInit method) ys))
    (hs : (feedParser res (recvInit method) xs).1 = .success) :
    (feedParser res (recvInit method) xs).2.contentLength =
      (feedParser res (recvInit method) ys).2.contentLength := by
  have h₀ := recvInit_heading method
  have hs' : (feedParser res (recvInit method) ys).1 = .success :=
    (congrArg Prod.fst hobs).symm.trans hs
  have hrecv := recvInit_receiving hmethod
  have hsized : Sized (recvInit method) := .inl h₀.contentLength
  have hset := (feedParser_sized res xs hx hrecv hsized).settled hs
  have hset' := (feedParser_sized res ys hy hrecv hsized).settled hs'
  have hlen := observeMessage_length hobs (.inl hs)
  have ha := ((recvInit_tracked res method).feedParser h₀ xs hx).success hs
  have ha' := ((recvInit_tracked res method).feedParser h₀ ys hy).success hs'
  rw [← hflat] at ha'
  unfold Settled at hset hset'
  generalize feedParser res (recvInit method) xs = r at *
  generalize feedParser res (recvInit method) ys = r' at *
  by_cases hzero : r.2.msg.entity.length = 0
  · omega
  · rcases ha.resolve_left hzero with ⟨q,hq,hread⟩
    rcases ha'.resolve_left (hlen ▸ hzero) with ⟨q',hq',hread'⟩
    have hm := hq.readMethod_eq hq' h₀ List.prefix_rfl List.prefix_rfl
    cases hread with
    | empty h => exact absurd h hzero
    | clen n hc h =>
      cases hread' with
      | empty h' => exact absurd (hlen.trans h') hzero
      | clen n' hc' h' => exact h.symm.trans (hlen.trans h')
      | chunked hc' h' => exact absurd (hc'.symm.trans (hm.trans hc)) (by rintro ⟨⟩)
    | chunked hc h =>
      cases hread' with
      | empty h' => exact absurd (hlen.trans h') hzero
      | clen n' hc' h' => exact absurd (hc'.symm.trans (hm.trans hc)) (by rintro ⟨⟩)
      | chunked hc' h' => exact h.trans h'.symm

/-- The bytes of the reads up to the first error, piece by piece. -/
def pieces : SockInfo → List (List UInt8)
  | [] | .error _ _::_ => []
  | .data x _ _::sock => x::pieces sock

/-- The error behind the pieces, unless the peer closes there. -/
def ending : SockInfo → Option ℤ
  | [] => none
  | .error code _::_ => some code
  | .data _ _ _::sock => ending sock

/-- What the loop makes of the end of the reads. -/
def atEnd (e : Option ℤ) (okOnClose : Bool) (p : HttpParser) : RecvResult :=
  match e with
  | some code => ⟨code,some p.httpErrorCode,p⟩
  | none =>
    if okOnClose then ⟨upnpESuccess,none,p⟩ else ⟨upnpEBadHttpmsg,some httpBadRequest,p⟩

/-- What it makes of the last status. -/
def verdict (maxContentLength : ℕ) (e : Option ℤ) (r : ParseStatus × HttpParser) : RecvResult :=
  match r.1 with
  | .success => recvComplete maxContentLength r.2
  | .failure | .noMatch => ⟨upnpEBadHttpmsg,some r.2.httpErrorCode,r.2⟩
  | .incompleteEntity => atEnd e true r.2
  | .incomplete => atEnd e false r.2
  | .continue1 | .ok => ⟨upnpESuccess,none,r.2⟩

theorem recvLoop_ended (res : Resolver) (maxContentLength : ℕ) {sock : SockInfo}
    (h : pieces sock = []) (okOnClose : Bool) (p : HttpParser) :
    recvLoop res maxContentLength sock okOnClose p = atEnd (ending sock) okOnClose p := by
  cases sock with
  | nil => rfl
  | cons read sock =>
    cases read with
    | error code neg => rfl
    | data x hpos hfits => cases h

theorem recvLoop_verdict (res : Resolver) (maxContentLength : ℕ) (sock : SockInfo)
    (hne : pieces sock ≠ []) {okOnClose : Bool} {p : HttpParser} (h : Receiving p)
    (hok : okOnClose = true → UntilClose p) : recvLoop res maxContentLength sock okOnClose p =
      verdict maxContentLength (ending sock) (feedParser res p (pieces sock)) := by
  induction sock generalizing okOnClose p with
  | nil => exact absurd rfl hne
  | cons read sock ih =>
    cases read with
    | error code neg => exact absurd rfl hne
    | data x hpos hfits =>
      have hx := h.append x
      rcases hr : parserAppend res p x with ⟨st,q⟩
      have hv : parserParse res (p.append x) = (st,q) := hr
      have hclosing : st = .incompleteEntity → UntilClose q := by
        rintro rfl
        have hu := parserParse_untilClose res hx (by rw [hv])
        rwa [hv] at hu
      have hwaiting : waitsForMore st = true → Receiving q := by
        intro hw
        have hn := parserParse_receiving res hx (by rw [hv]; exact hw)
        rwa [hv] at hn
      have hflag : st = .incomplete → okOnClose = false := by
        rintro rfl
        cases okOnClose with
        | false => rfl
        | true =>
          have hi := (hok rfl).read res x
          rw [hr] at hi
          cases hi
      cases hp : pieces sock with
      | nil =>
        simp only [pieces,hp,feedParser,ending,recvLoop,hr,verdict]
        cases st with
        | success | failure | noMatch | continue1 => rfl
        | incompleteEntity => exact recvLoop_ended res maxContentLength hp true q
        | incomplete =>
          rw [hflag rfl]
          exact recvLoop_ended res maxContentLength hp false q
        | ok => exact absurd (congrArg Prod.fst hv) (parserParse_status res _)
      | cons y ys =>
        have hpne : pieces sock ≠ [] := by
          rw [hp]
          exact List.cons_ne_nil _ _
        simp only [pieces,hp,feedParser,ending,recvLoop,hr]
        cases st with
        | success | failure | noMatch | continue1 => rfl
        | incompleteEntity =>
          rw [← hp]
          exact ih hpne (hwaiting rfl) fun _ => hclosing rfl
        | incomplete =>
          rw [← hp,hflag rfl]
          exact ih hpne (hwaiting rfl) (by rintro ⟨⟩)
        | ok => exact absurd (congrArg Prod.fst hv) (parserParse_status res _)

theorem pieces_eq_nil (sock : SockInfo) : (pieces sock).flatten = [] ↔ pieces sock = [] := by
  constructor
  · intro h
    cases sock with
    | nil => rfl
    | cons read sock =>
      cases read with
      | error code neg => rfl
      | data x hpos hfits =>
        rw [pieces,List.flatten_cons,List.append_eq_nil_iff] at h
        rw [h.1] at hpos
        exact absurd hpos (Nat.lt_irrefl 0)
  · intro h
    rw [h]
    rfl

/-- What two receive loops agree on. -/
structure SameMessage (r r' : RecvResult) : Prop where
  code : r.code = r'.code
  view : r.code = upnpESuccess → r.parser.messageView = r'.parser.messageView

theorem ending_neg (sock : SockInfo) : ∀ code ∈ ending sock, code < 0 := by
  induction sock with
  | nil => exact fun _ h => nomatch h
  | cons read sock ih =>
    cases read with
    | error code neg =>
      intro c hc
      cases hc
      exact neg
    | data x hpos hfits => exact ih

theorem verdict_same (maxContentLength : ℕ) {e : Option ℤ} (he : ∀ code ∈ e, code < 0)
    {r r' : ParseStatus × HttpParser}
    (hobs : observeMessage r = observeMessage r')
    (hlen : r.1 = .success → r.2.contentLength = r'.2.contentLength)
    (hnot : r.1 ≠ .ok ∧ r.1 ≠ .continue1) :
    SameMessage (verdict maxContentLength e r) (verdict maxContentLength e r') := by
  have hst : r.1 = r'.1 := congrArg (fun o : ParseStatus × Option MessageView => o.1) hobs
  have hview : r.1 = .success ∨ r.1 = .incompleteEntity → r.2.messageView = r'.2.messageView := by
    intro hs
    have hv := congrArg (fun o : ParseStatus × Option MessageView => o.2) hobs
    simpa only [observeMessage,if_pos hs,if_pos (hst ▸ hs),Option.some.injEq] using hv
  rcases r with ⟨st,p⟩
  rcases r' with ⟨st',p'⟩
  obtain rfl : st = st' := hst
  have hend : ∀ ok, (ok = true → p.messageView = p'.messageView) →
      SameMessage (atEnd e ok p) (atEnd e ok p') := by
    intro ok hok
    cases e with
    | some code =>
      have hneg := he code rfl
      refine ⟨rfl,fun h => ?_⟩
      rw [show code = 0 from h] at hneg
      exact absurd hneg (by decide)
    | none =>
      cases ok with
      | true => exact ⟨rfl,fun _ => hok rfl⟩
      | false => exact ⟨rfl,by rintro ⟨⟩⟩
  cases st with
  | success =>
    have hc := hlen rfl
    have hv := hview (.inl rfl)
    simp only [verdict,recvComplete]
    rw [hc]
    split
    · exact ⟨rfl,by rintro ⟨⟩⟩
    · exact ⟨rfl,fun _ => hv⟩
  | failure | noMatch => exact ⟨rfl,by rintro ⟨⟩⟩
  | incompleteEntity => exact hend true fun _ => hview (.inr rfl)
  | incomplete => exact hend false (by rintro ⟨⟩)
  | continue1 => exact absurd rfl hnot.2
  | ok => exact absurd rfl hnot.1

theorem httpRecvMessage_same (res : Resolver) (maxContentLength : ℕ) {method : HttpMethod}
    (hmethod : method ≠ .unknown) {sock sock' : SockInfo}
    (hflat : (pieces sock).flatten = (pieces sock').flatten) (hend : ending sock = ending sock') :
    SameMessage (httpRecvMessage res maxContentLength method sock)
      (httpRecvMessage res maxContentLength method sock') := by
  have hrecv := recvInit_receiving hmethod
  by_cases hne : pieces sock = []
  · have hne' : pieces sock' = [] := by
      rwa [← pieces_eq_nil,← hflat,pieces_eq_nil]
    simp only [httpRecvMessage,recvLoop_ended res maxContentLength hne,
      recvLoop_ended res maxContentLength hne',hend]
    exact ⟨rfl,fun _ => rfl⟩
  · have hne' : pieces sock' ≠ [] := by
      rwa [ne_eq,← pieces_eq_nil,← hflat,pieces_eq_nil]
    simp only [httpRecvMessage]
    rw [recvLoop_verdict res maxContentLength sock hne hrecv (by rintro ⟨⟩),
      recvLoop_verdict res maxContentLength sock' hne' hrecv (by rintro ⟨⟩),← hend]
    have hobs : observeMessage (feedParser res (recvInit method) (pieces sock)) =
        observeMessage (feedParser res (recvInit method) (pieces sock')) := by
      rw [recvInit,if_neg hmethod,feedParser_eq_feed,feedParser_eq_feed]
      exact (parserParse_resumable res).feed_congr hne hne' hflat _
        (parserResponseInit_responding method)
    have hnot := (recvInit_tracked res method).feedParser (recvInit_heading method) _ hne
    exact verdict_same maxContentLength (ending_neg sock) hobs
      (feedParser_contentLength res hmethod hne hne' hflat hobs)
      ⟨feedParser_status res hne (recvInit method),hnot.not_continue⟩

/-- Over a socket a response is received alike however its bytes are cut and whenever they arrive,
also where it breaks off and where it is too long. -/
theorem recvTimed_fragmentation (res : Resolver) (maxContentLength : ℕ) {method : HttpMethod}
    (hmethod : method ≠ .unknown) {envs envs' : List ReadEnv} {t t' : ℤ}
    (hflat : (pieces (readOutcomes envs t)).flatten = (pieces (readOutcomes envs' t')).flatten)
    (hend : ending (readOutcomes envs t) = ending (readOutcomes envs' t')) :
    SameMessage (recvTimed res maxContentLength envs t false (recvInit method))
      (recvTimed res maxContentLength envs' t' false (recvInit method)) := by
  rw [recvTimed_eq,recvTimed_eq]
  exact httpRecvMessage_same res maxContentLength hmethod hflat hend

theorem recvTimed_twoPieces : SameMessage
    (recvTimed Resolver.empty 0 [⟨[],.data (cstr "HTTP/1.1 200 OK\r\n\r\nab"),1⟩] 30 false
      (recvInit .get))
    (recvTimed Resolver.empty 0 [⟨[],.data (cstr "HTTP/1.1 200 OK\r\n\r\na"),10⟩,
      ⟨[.interrupted,.ready],.data (cstr "b"),5⟩] 30 false (recvInit .get)) :=
  recvTimed_fragmentation Resolver.empty 0 (by decide) (by decide) (by decide)

/-- A socket that is opened is closed, once and in the end. -/
def Tidy (ops : List SockOp) : Prop :=
  ops = [] ∨ ∃ mid, ops = .socket::(mid++[.destroy]) ∧ .socket ∉ mid ∧ .destroy ∉ mid

/-- What the receive loop of an exchange meets, with the time that sending has left. -/
def arrivals (request : List UInt8) (timeoutSecs : ℤ) (env : ExchangeEnv) : SockInfo :=
  readOutcomes env.reads (httpSendMessage request timeoutSecs env.write).2.2

theorem httpSendMessage_front (request : List UInt8) (t : ℤ) (env : WriteEnv) :
    (httpSendMessage request t env).1 = 0 ∧ (httpSendMessage request t env).2.1 <+: request := by
  unfold httpSendMessage
  split
  · exact ⟨rfl,sockWrite_front request t env⟩
  · exact ⟨rfl,List.nil_prefix⟩

theorem httpRequestAndResponse_connected (res : Resolver) (maxContentLength : ℕ)
    (request : List UInt8) (method : HttpMethod) (t : ℤ) {env : ExchangeEnv}
    (hs : env.socket = true) (hc : privateConnect env.connect ≠ -1) :
    httpRequestAndResponse res maxContentLength request method t env =
      let r := httpRecvMessage res maxContentLength method (arrivals request t env)
      ⟨r.code,r.parser,[.socket,.connect,.write (httpSendMessage request t env.write).2.1,.read,
        .destroy]⟩ := by
  have hsent := (httpSendMessage_front request t env.write).1
  have hso : ¬env.socket = false := by
    rw [hs]
    decide
  rw [httpRequestAndResponse,if_neg hso,if_neg hc]
  simp only [hsent,recvTimed_eq]
  rfl

/-- Every exchange leaves its socket closed, and sends nothing but a front of the request. -/
theorem httpRequestAndResponse_tidy (res : Resolver) (maxContentLength : ℕ)
    (request : List UInt8) (method : HttpMethod) (t : ℤ) (env : ExchangeEnv) :
    let e := httpRequestAndResponse res maxContentLength request method t env
    Tidy e.ops ∧ ∀ bytes, .write bytes ∈ e.ops → bytes <+: request := by
  intro e
  by_cases hs : env.socket = true
  · by_cases hc : privateConnect env.connect = -1
    · have he : e = ⟨upnpESocketConnect,parserResponseInit method,[.socket,.connect,.destroy]⟩ := by
        simp only [e,httpRequestAndResponse,hs,hc]
        rfl
      rw [he]
      exact ⟨.inr ⟨[.connect],rfl,by decide,by decide⟩,fun bytes h => by simp at h⟩
    · have he := httpRequestAndResponse_connected res maxContentLength request method t hs hc
      simp only [e,he]
      refine ⟨.inr ⟨[.connect,.write _,.read],rfl,by simp,by simp⟩,fun bytes h => ?_⟩
      have hb : bytes = (httpSendMessage request t env.write).2.1 := by simpa using h
      rw [hb]
      exact (httpSendMessage_front request t env.write).2
  · have hs' : env.socket = false := by simpa using hs
    have he : e = ⟨upnpESocketError,parserResponseInit method,[]⟩ := if_pos hs'
    rw [he]
    exact ⟨.inl rfl,fun bytes h => nomatch h⟩

def readBytes (env : ReadEnv) : List UInt8 :=
  match env.recv with
  | .data bytes => bytes
  | .failed => []

/-- A read that gives bytes, with a clock that goes forward. -/
structure Calm (env : ReadEnv) : Prop where
  ready : ∀ t, waitReady t env.selects = none
  data : env.recv = .data (readBytes env)
  pos : 0 < (readBytes env).length
  fits : (readBytes env).length ≤ tempbufSize
  forward : 0 ≤ env.elapsed

theorem Calm.read {env : ReadEnv} (h : Calm env) {t : ℤ} (ht : 0 < t) : ∃ x,
    sockRead tempbufSize t env = x ∧ x.bytes = readBytes env ∧ x.timeoutSecs = t-env.elapsed ∧
      toRead x = some (.data (readBytes env) h.pos h.fits) := by
  have htake : (readBytes env).take tempbufSize = readBytes env := List.take_of_length_le h.fits
  have hno : ¬t < 0 := by omega
  have hne : t ≠ 0 := by omega
  have hret : toInt ((readBytes env).length : ℤ) = (readBytes env).length :=
    toInt_of_lt (Nat.lt_of_le_of_lt h.fits (by decide))
  refine ⟨⟨(readBytes env).length,readBytes env,t-env.elapsed⟩,?_,rfl,rfl,
    toRead_data rfl h.pos h.fits⟩
  rw [sockRead,h.data]
  simp only [sockReadWrite,if_neg hno,h.ready,recvInto,htake,hret,spend,if_pos hne]

theorem readOutcomes_inTime {envs : List ReadEnv} (h : ∀ env ∈ envs, Calm env) {t : ℤ}
    (ht : (envs.map ReadEnv.elapsed).sum < t) :
    pieces (readOutcomes envs t) = envs.map readBytes ∧ ending (readOutcomes envs t) = none := by
  have hsum : ∀ l : List ReadEnv, (∀ env ∈ l, Calm env) → 0 ≤ (l.map ReadEnv.elapsed).sum :=
    fun l hl => List.sum_nonneg fun x hx => by
      rcases List.mem_map.mp hx with ⟨env,henv,rfl⟩
      exact (hl env henv).forward
  induction envs generalizing t with
  | nil =>
    have hno : ¬t < 0 := by
      have hz : (([] : List ReadEnv).map ReadEnv.elapsed).sum = 0 := rfl
      omega
    have hclosed : sockRead tempbufSize t closedEnv = ⟨0,[],spend t 0⟩ := if_neg hno
    rw [readOutcomes,hclosed,toRead_closed rfl rfl]
    exact ⟨rfl,rfl⟩
  | cons env envs ih =>
    have hcalm := h env (.head _)
    have hrest := hsum envs fun x hx => h x (.tail _ hx)
    have hforward := hcalm.forward
    rw [List.map_cons,List.sum_cons] at ht
    rcases hcalm.read (t := t) (by omega) with ⟨x,hx,-,hleft,hread⟩
    have hrec := ih (fun y hy => h y (.tail _ hy)) (t := x.timeoutSecs) (by omega)
    simp only [readOutcomes,hx,hread,pieces,ending,List.map_cons]
    exact ⟨congrArg _ hrec.1,hrec.2⟩

/-- A connection is made, and after what has become of the request the response arrives within the
time that is left. -/
structure Answers (request : List UInt8) (timeoutSecs : ℤ) (env : ExchangeEnv) : Prop where
  socket : env.socket = true
  connected : privateConnect env.connect ≠ -1
  calm : ∀ read ∈ env.reads, Calm read
  inTime : (env.reads.map ReadEnv.elapsed).sum <
    (httpSendMessage request timeoutSecs env.write).2.2

/-- Two networks that deliver the same bytes in time give the same response. -/
theorem httpRequestAndResponse_network (res : Resolver) (maxContentLength : ℕ)
    (request : List UInt8) {method : HttpMethod} (hmethod : method ≠ .unknown) {t t' : ℤ}
    {env env' : ExchangeEnv} (h : Answers request t env) (h' : Answers request t' env')
    (hflat : env.reads.flatMap readBytes = env'.reads.flatMap readBytes) :
    let e := httpRequestAndResponse res maxContentLength request method t env
    let e' := httpRequestAndResponse res maxContentLength request method t' env'
    e.ret = e'.ret ∧ (e.ret = upnpESuccess → e.response.messageView = e'.response.messageView) ∧
      Tidy e.ops ∧ Tidy e'.ops := by
  have hin := readOutcomes_inTime h.calm h.inTime
  have hin' := readOutcomes_inTime h'.calm h'.inTime
  have hpieces : (pieces (arrivals request t env)).flatten =
      (pieces (arrivals request t' env')).flatten := by
    rw [arrivals,arrivals,hin.1,hin'.1,← List.flatMap_def,← List.flatMap_def]
    exact hflat
  have hsame := httpRecvMessage_same res maxContentLength hmethod hpieces (hin.2.trans hin'.2.symm)
  have htidy := (httpRequestAndResponse_tidy res maxContentLength request method t env).1
  have htidy' := (httpRequestAndResponse_tidy res maxContentLength request method t' env').1
  intro e e'
  refine ⟨?_,?_,htidy,htidy'⟩ <;> simp only [e,e']
  all_goals
    rw [httpRequestAndResponse_connected res maxContentLength request method t h.socket
      h.connected,httpRequestAndResponse_connected res maxContentLength request method t' h'.socket
      h'.connected]
  · exact hsame.code
  · exact hsame.view

def fastNetwork : ExchangeEnv :=
  ⟨true,⟨true,.connected,true⟩,⟨[],[],0⟩,[⟨[],.data (cstr "HTTP/1.1 200 OK\r\n\r\nab"),1⟩]⟩

/-- A network that refuses the connection, which nobody notices, and the request, and all the same
delivers a response in two pieces. -/
def oddNetwork : ExchangeEnv :=
  ⟨true,⟨true,.failed,true⟩,⟨[],[.failed],0⟩,[⟨[],.data (cstr "HTTP/1.1 200 OK\r\n\r\n"),9⟩,
    ⟨[.interrupted],.data (cstr "ab"),9⟩]⟩

theorem fastNetwork_answers : Answers (cstr "GET / HTTP/1.1\r\n\r\n") 30 fastNetwork := by
  refine ⟨rfl,by decide,?_,by decide⟩
  intro read hread
  rw [List.mem_singleton.mp hread]
  exact ⟨fun _ => rfl,rfl,by decide,by decide,by decide⟩

theorem oddNetwork_answers : Answers (cstr "GET / HTTP/1.1\r\n\r\n") 30 oddNetwork := by
  refine ⟨rfl,by decide,?_,by decide⟩
  intro read hread
  rcases List.mem_cons.mp hread with rfl | hread
  · exact ⟨fun _ => rfl,rfl,by decide,by decide,by decide⟩
  · rw [List.mem_singleton.mp hread]
    exact ⟨fun _ => rfl,rfl,by decide,by decide,by decide⟩

theorem httpRequestAndResponse_networks :
    let request := cstr "GET / HTTP/1.1\r\n\r\n"
    let e := httpRequestAndResponse Resolver.empty 0 request .get 30 fastNetwork
    let e' := httpRequestAndResponse Resolver.empty 0 request .get 30 oddNetwork
    e.ret = e'.ret ∧ (e.ret = upnpESuccess → e.response.messageView = e'.response.messageView) ∧
      Tidy e.ops ∧ Tidy e'.ops :=
  httpRequestAndResponse_network Resolver.empty 0 (cstr "GET / HTTP/1.1\r\n\r\n") (by decide)
    fastNetwork_answers oddNetwork_answers (by decide)

end Exchange
end CtrlPt
