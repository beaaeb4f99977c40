import CtrlPt.Http.Post

/-! `sock.c`: reads and writes under a time limit that the calls of one exchange share. -/
namespace CtrlPt
namespace Sock

open CText Http

/-- What happens in a `select` on one socket. `expired`: the time passes that the limit gives it. -/
inductive Select
  | ready | expired | interrupted | failed
  deriving DecidableEq, Repr

/-- The loop around `select`: an error code, unless the socket is ready. It is ready behind the
last result. -/
def waitReady (timeoutSecs : ℤ) : List Select → Option ℤ
  | [] | .ready::_ => none
  -- without a limit `select` gets no time-out, and waits on
  | .expired::selects =>
    if timeoutSecs = 0 then waitReady timeoutSecs selects else some upnpETimedout
  | .interrupted::selects => waitReady timeoutSecs selects
  | .failed::_ => some upnpESocketError

/-- What a `recv` gives: nothing once the peer has closed. -/
inductive Recv
  | data (bytes : List UInt8)
  | failed
  deriving DecidableEq, Repr

inductive Send
  | sent (n : ℕ)
  | failed
  deriving DecidableEq, Repr

/-- What the system does in one call: the results of `select` and of what follows it, and the
seconds between the two readings of the clock. -/
structure ReadEnv where
  selects : List Select
  recv : Recv
  elapsed : ℤ
  deriving DecidableEq, Repr

structure WriteEnv where
  selects : List Select
  sends : List Send
  elapsed : ℤ
  deriving DecidableEq, Repr

/-- The loop around `send`: whether everything is sent, and what is. Behind the last result all
that is left is sent. -/
def sendLoop : List Send → List UInt8 → Bool × List UInt8
  | _, [] => (true,[])
  | [], buffer => (true,buffer)
  | .failed::_, _::_ => (false,[])
  | .sent n::sends, c::buffer =>
    let r := sendLoop sends ((c::buffer).drop n)
    (r.1,(c::buffer).take n++r.2)

/-- The time that is left; a limit of zero stands for no limit. -/
def spend (timeoutSecs elapsed : ℤ) : ℤ :=
  if timeoutSecs ≠ 0 then timeoutSecs-elapsed else timeoutSecs

/-- What a call returns, the bytes it moves and what it leaves of the limit. -/
structure SockResult where
  ret : ℤ
  bytes : List UInt8
  timeoutSecs : ℤ
  deriving DecidableEq, Repr

/-- `sock_read_write`, where `moved` is what the part for one direction moves, and the error with
which it leaves, if it does. -/
def sockReadWrite (timeoutSecs : ℤ) (selects : List Select) (elapsed : ℤ)
    (moved : Option ℤ × List UInt8) : SockResult :=
  if timeoutSecs < 0 then ⟨upnpETimedout,[],timeoutSecs⟩
  else
    match waitReady timeoutSecs selects with
    | some e => ⟨e,[],timeoutSecs⟩
    | none =>
      match moved with
      | (some e,bytes) => ⟨e,bytes,timeoutSecs⟩
      | (none,bytes) => ⟨toInt bytes.length,bytes,spend timeoutSecs elapsed⟩

def recvInto (bufsize : ℕ) : Recv → Option ℤ × List UInt8
  | .data bytes => (none,bytes.take bufsize)
  | .failed => (some upnpESocketError,[])

/-- A `send` that fails is returned as it is, `-1`. -/
def sendFrom (sends : List Send) (buffer : List UInt8) : Option ℤ × List UInt8 :=
  let r := sendLoop sends buffer
  (if r.1 then none else some (-1),r.2)

def sockRead (bufsize : ℕ) (timeoutSecs : ℤ) (env : ReadEnv) : SockResult :=
  sockReadWrite timeoutSecs env.selects env.elapsed (recvInto bufsize env.recv)

def sockWrite (buffer : List UInt8) (timeoutSecs : ℤ) (env : WriteEnv) : SockResult :=
  sockReadWrite timeoutSecs env.selects env.elapsed (sendFrom env.sends buffer)

theorem waitReady_neg {t : ℤ} {selects : List Select} {e : ℤ} (h : waitReady t selects = some e) :
    e < 0 := by
  induction selects with
  | nil => cases h
  | cons s selects ih =>
    cases s with
    | ready => cases h
    | interrupted => exact ih h
    | failed =>
      cases h
      decide
    | expired =>
      rw [waitReady] at h
      split at h
      · exact ih h
      · cases h
        decide

/-- What is sent is the front of the buffer, and all of it if no `send` fails. -/
theorem sendLoop_front (sends : List Send) (buffer : List UInt8) :
    (sendLoop sends buffer).2 <+: buffer ∧
      ((sendLoop sends buffer).1 = true → (sendLoop sends buffer).2 = buffer) := by
  induction sends generalizing buffer with
  | nil => cases buffer <;> exact ⟨List.prefix_rfl,fun _ => rfl⟩
  | cons s sends ih =>
    cases buffer with
    | nil => exact ⟨List.prefix_rfl,fun _ => rfl⟩
    | cons c buffer =>
      cases s with
      | failed => exact ⟨List.nil_prefix,by rintro ⟨⟩⟩
      | sent n =>
        have hrest := ih ((c::buffer).drop n)
        have hcut := List.take_append_drop n (c::buffer)
        constructor
        · have hp := List.prefix_append_right_inj ((c::buffer).take n) |>.mpr hrest.1
          rwa [hcut] at hp
        · intro hall
          change (c::buffer).take n++(sendLoop sends ((c::buffer).drop n)).2 = _
          rw [hrest.2 hall,hcut]

/-- What a call can do to the limit and to the bytes. -/
inductive Outcome (t : ℤ) (moved : Option ℤ × List UInt8) (elapsed : ℤ) : SockResult → Prop
  /-- The time is up, or the socket does not get ready. -/
  | refused (e : ℤ) (he : e < 0) (ht : t < 0 → e = upnpETimedout) : Outcome t moved elapsed ⟨e,[],t⟩
  | broken (e : ℤ) (ht : 0 ≤ t) (hm : moved.1 = some e) : Outcome t moved elapsed ⟨e,moved.2,t⟩
  | done (ht : 0 ≤ t) (hm : moved.1 = none) :
      Outcome t moved elapsed ⟨toInt moved.2.length,moved.2,spend t elapsed⟩

theorem sockReadWrite_outcome (t : ℤ) (selects : List Select) (elapsed : ℤ)
    (moved : Option ℤ × List UInt8) :
    Outcome t moved elapsed (sockReadWrite t selects elapsed moved) := by
  unfold sockReadWrite
  by_cases ht : t < 0
  · rw [if_pos ht]
    exact .refused _ (by decide) fun _ => rfl
  · rw [if_neg ht]
    cases hw : waitReady t selects with
    | some e => exact .refused e (waitReady_neg hw) fun h => absurd h ht
    | none =>
      rcases moved with ⟨_ | e,bytes⟩
      · exact .done (Int.not_lt.mp ht) rfl
      · exact .broken e (Int.not_lt.mp ht) rfl

theorem sockWrite_front (buffer : List UInt8) (t : ℤ) (env : WriteEnv) :
    (sockWrite buffer t env).bytes <+: buffer := by
  have hfront : (sendFrom env.sends buffer).2 <+: buffer := (sendLoop_front env.sends buffer).1
  have hout := sockReadWrite_outcome t env.selects env.elapsed (sendFrom env.sends buffer)
  rw [sockWrite]
  generalize sockReadWrite t env.selects env.elapsed (sendFrom env.sends buffer) = x at hout
  cases hout with
  | refused => exact List.nil_prefix
  | broken => exact hfront
  | done => exact hfront

inductive Call
  | read (bufsize : ℕ) (env : ReadEnv)
  | write (buffer : List UInt8) (env : WriteEnv)

def Call.selects : Call → List Select
  | .read _ env => env.selects
  | .write _ env => env.selects

def Call.elapsed : Call → ℤ
  | .read _ env => env.elapsed
  | .write _ env => env.elapsed

def Call.moved : Call → Option ℤ × List UInt8
  | .read bufsize env => recvInto bufsize env.recv
  | .write buffer env => sendFrom env.sends buffer

def Call.run (timeoutSecs : ℤ) (c : Call) : SockResult :=
  sockReadWrite timeoutSecs c.selects c.elapsed c.moved

/-- The same call, where the limit passes `n` times before anything happens at the socket. -/
def Call.delayed (n : ℕ) : Call → Call
  | .read bufsize env => .read bufsize { env with selects := List.replicate n .expired++env.selects }
  | .write buffer env => .write buffer { env with selects := List.replicate n .expired++env.selects }

/-- With a limit a call that is late fails. -/
theorem Call.run_late {t : ℤ} (ht : 0 < t) (n : ℕ) (c : Call) :
    (c.delayed (n+1)).run t = ⟨upnpETimedout,[],t⟩ := by
  have hno : ¬t < 0 := by omega
  have hwait : ∀ selects, waitReady t (List.replicate (n+1) .expired++selects) =
      some upnpETimedout := fun selects => if_neg (by omega)
  cases c <;> simp only [run,delayed,selects,sockReadWrite,if_neg hno,hwait]

/-- Without one it waits as long as it takes. -/
@[simp] theorem Call.run_delayed (n : ℕ) (c : Call) : (c.delayed n).run 0 = c.run 0 := by
  have hwait : ∀ selects, waitReady 0 (List.replicate n .expired++selects) = waitReady 0 selects := by
    intro selects
    induction n with
    | zero => rfl
    | succ n ih =>
      rw [List.replicate_succ,List.cons_append,waitReady,if_pos rfl]
      exact ih
  cases c <;> simp only [run,delayed,selects,elapsed,moved,sockReadWrite,hwait]

/-- The calls of an exchange, each with the limit that the one before has left. -/
def runCalls : ℤ → List Call → List SockResult × ℤ
  | t, [] => ([],t)
  | t, c::calls =>
    let r := runCalls (c.run t).timeoutSecs calls
    (c.run t::r.1,r.2)

def Call.completes (timeoutSecs : ℤ) (c : Call) : Bool :=
  0 ≤ timeoutSecs && (waitReady timeoutSecs c.selects).isNone && c.moved.1.isNone

/-- The seconds of the calls that come to their end. -/
def counted : ℤ → List Call → ℤ
  | _, [] => 0
  | t, c::calls => (if c.completes t then c.elapsed else 0)+counted (c.run t).timeoutSecs calls

theorem Call.run_limit (t : ℤ) (c : Call) : (c.run t).timeoutSecs =
    if c.completes t then spend t c.elapsed else t := by
  unfold Call.run Call.completes sockReadWrite
  by_cases ht : t < 0
  · have hno : ¬0 ≤ t := by omega
    simp [ht,hno]
  · have hyes : 0 ≤ t := by omega
    rw [if_neg ht]
    cases waitReady t c.selects with
    | some e => simp
    | none =>
      rcases c.moved with ⟨_ | e,bytes⟩ <;> simp [hyes]

/-- Without a limit the calls stay without one. -/
@[simp] theorem runCalls_unlimited (calls : List Call) :
    runCalls 0 calls = (calls.map (Call.run 0),0) := by
  induction calls with
  | nil => rfl
  | cons c calls ih =>
    have hlimit : (c.run 0).timeoutSecs = 0 := by
      rw [c.run_limit]
      split <;> rfl
    rw [runCalls,hlimit,ih]
    rfl

/-- When the time is up no call gets to the socket. -/
theorem runCalls_up {t : ℤ} (ht : t < 0) (calls : List Call) :
    runCalls t calls = (calls.map fun _ => ⟨upnpETimedout,[],t⟩,t) := by
  have hrun : ∀ c : Call, c.run t = ⟨upnpETimedout,[],t⟩ := fun c => if_pos ht
  induction calls with
  | nil => rfl
  | cons c calls ih => simp only [runCalls,hrun,ih,List.map_cons]

/-- Where a run of calls is with its limit. -/
inductive Phase (t : ℤ) (calls : List Call) : Prop
  /-- The limit is what the calls have left of it, and the next call keeps it. -/
  | counting (h : 0 < (runCalls t calls).2) (hleft : (runCalls t calls).2 = t-counted t calls)
      (hlate : ∀ n c, (Call.delayed (n+1) c).run (runCalls t calls).2 =
        ⟨upnpETimedout,[],(runCalls t calls).2⟩)
  /-- Some calls have used the limit up to the second, and those behind them wait as long as it
  takes. -/
  | unlimited (a b : List Call) (h : calls = a++b) (ha : (runCalls t a).2 = 0)
      (hused : counted t a = t)
      (hdone : runCalls t calls = ((runCalls t a).1++b.map (Call.run 0),0))
      (hwait : ∀ n, b.map (fun c => (c.delayed n).run 0) = b.map (Call.run 0))
  /-- Some calls have taken longer, and those behind them do nothing. -/
  | up (a b : List Call) (t' : ℤ) (h : calls = a++b) (ha : (runCalls t a).2 = t') (hneg : t' < 0)
      (hused : t < counted t a) (hdone : runCalls t calls =
        ((runCalls t a).1++b.map fun _ => ⟨upnpETimedout,[],t'⟩,t'))

/-- The limit is counted down until it is hit to the second, which takes it away, or overrun. -/
theorem runCalls_phase {t : ℤ} (ht : 0 < t) (calls : List Call) : Phase t calls := by
  induction calls generalizing t with
  | nil => exact .counting ht (by simp [runCalls,counted]) (Call.run_late ht)
  | cons c calls ih =>
    have hlimit := c.run_limit t
    have hspent : (c.run t).timeoutSecs = t-(if c.completes t then c.elapsed else 0) := by
      rw [hlimit]
      split
      · rw [spend,if_pos (by omega)]
      · omega
    have hone : counted t [c] = if c.completes t then c.elapsed else 0 := Int.add_zero _
    rcases lt_trichotomy (c.run t).timeoutSecs 0 with hneg | hzero | hpos
    · refine .up [c] calls _ rfl rfl hneg ?_ ?_
      · rw [hone]
        omega
      · simp only [runCalls,runCalls_up hneg,List.singleton_append]
    · refine .unlimited [c] calls rfl hzero ?_ ?_ fun n => by simp only [Call.run_delayed]
      · rw [hone]
        omega
      · simp only [runCalls,hzero,runCalls_unlimited,List.singleton_append]
    · have hrun : ∀ l : List Call, (runCalls t (c::l)).2 = (runCalls (c.run t).timeoutSecs l).2 :=
        fun _ => rfl
      have hcounted : ∀ l : List Call, counted t (c::l) =
          t-(c.run t).timeoutSecs+counted (c.run t).timeoutSecs l := by
        intro l
        rw [counted]
        omega
      cases ih hpos with
      | counting h hleft hlate =>
        refine .counting ((hrun calls).symm ▸ h) ?_ ((hrun calls).symm ▸ hlate)
        rw [hrun,hleft,hcounted]
        omega
      | unlimited a b h ha hused hdone hwait =>
        subst h
        refine .unlimited (c::a) b rfl ((hrun a).trans ha) ?_ ?_ hwait
        · rw [hcounted,hused]
          omega
        · simp only [runCalls,hdone,List.cons_append]
      | up a b t' h ha hneg hused hdone =>
        subst h
        refine .up (c::a) b t' rfl ((hrun a).trans ha) hneg ?_ ?_
        · rw [hcounted]
          omega
        · simp only [runCalls,hdone,List.cons_append]

/-- A write that takes the whole time, and a read that then waits for ever. -/
theorem runCalls_lastSecond : Phase 30 [.write [1,2] ⟨[],[.sent 1],30⟩,
    .read 8 ⟨[.expired,.interrupted,.expired],.data [3],600⟩] :=
  runCalls_phase (by decide) _

example : runCalls 30 [.write [1,2] ⟨[],[.sent 1],30⟩,
    .read 8 ⟨[.expired,.interrupted,.expired],.data [3],600⟩] =
    ([⟨2,[1,2],0⟩,⟨1,[3],0⟩],0) := by decide

end Sock
end CtrlPt
