import CtrlPt.Codes
import CtrlPt.Lib.Transition

/-! The miniserver: the thread that waits on the sockets, and the calls that start and stop it.
The calls and the thread take their steps in any order, and every socket is a descriptor that is
opened and closed. -/
namespace CtrlPt
namespace MiniServer

open Transition

inductive MServ
  | idle | running | stopping
  deriving DecidableEq, Repr

/-- How the creation of a socket ends: without a descriptor, with one that is closed again, or
with one that is kept. -/
inductive Create
  | noSocket (code : ℤ) | failed (code : ℤ) | created
  deriving DecidableEq, Repr

/-- The descriptors that have been opened, numbered in order, and those that have been closed. -/
structure Descriptors where
  next : ℕ
  closed : List ℕ
  deriving DecidableEq, Repr

def Descriptors.close (d : Descriptors) (socks : List ℕ) : Descriptors :=
  { d with closed := d.closed++socks }

def createSocket (d : Descriptors) : Create → Except ℤ ℕ × Descriptors
  | .noSocket code => (.error code,d)
  | .failed code => (.error code,⟨d.next+1,d.closed++[d.next]⟩)
  | .created => (.ok d.next,⟨d.next+1,d.closed⟩)

/-- The sockets of `get_ssdp_sockets`, one after the other, where there is an address for them. A
failure closes those that there are. -/
def getSsdpSockets (d : Descriptors) (socks : List ℕ) :
    List (Bool × Create) → Except ℤ (List ℕ) × Descriptors
  | [] => (.ok socks,d)
  | (false,_)::wanted => getSsdpSockets d socks wanted
  | (true,c)::wanted =>
    match createSocket d c with
    | (.ok sock,d) => getSsdpSockets d (socks++[sock]) wanted
    | (.error code,d) => (.error code,d.close socks)

/-- Where the thread is. Its job is queued until it begins. -/
inductive ServerPc
  | queued | selecting | closing | freeing | leaving | ended
  deriving DecidableEq, Repr

/-- A `MiniServerSockArray` and its thread: the valid sockets, of which the stop socket is one, the
`ShutDown` datagrams that wait there, and how often the array has been freed. -/
structure Instance where
  socks : List ℕ
  stopSock : ℕ
  pc : ServerPc
  shutdowns : ℕ
  freed : ℕ
  deriving DecidableEq, Repr

/-- Where the application is. A start waits for its thread, with the sockets of its array, also if
the job of the thread was refused. -/
inductive MainPc
  | out | waiting (accepted : Bool) (socks : List ℕ) (count : ℕ)
  | marking | opening | knocking (sock : ℕ)
  deriving DecidableEq, Repr

structure State where
  mserv : MServ
  main : MainPc
  -- what the last call has returned
  ret : ℤ
  instances : List Instance
  fds : Descriptors
  -- the socket behind `miniStopSockPort`
  stopPort : ℕ
  deriving DecidableEq, Repr

def State.init : State := ⟨.idle,.out,0,[],⟨0,[]⟩,0⟩

/-- What `StartMiniServer` meets: the allocation, the stop socket, the others, and what
`ThreadPoolAddPersistent` returns: 0 for a job that is accepted. -/
structure StartEnv where
  malloc : Bool
  stop : Create
  ssdp : List (Bool × Create)
  addPersistent : ℤ
  deriving DecidableEq, Repr

inductive Event
  | start (env : StartEnv) | poll
  | begin (i : ℕ) | wake (i : ℕ) | close (i : ℕ) | free (i : ℕ) | idle (i : ℕ)
  | stop | mark | openSock (ok : Bool) | knock (arrives : Bool)
  | stray (i : ℕ)
  deriving DecidableEq, Repr

def maxCount : ℕ := 10000

/-- `StartMiniServer` up to the loop that waits for the thread. -/
def startMiniServer (s : State) (env : StartEnv) : State :=
  if s.mserv ≠ .idle then { s with ret := upnpEInternalError }
  else if env.malloc = false then { s with ret := upnpEOutofMemory }
  else
    match createSocket s.fds env.stop with
    | (.error code,d) => { s with ret := code, fds := d }
    | (.ok stopSock,d) =>
      match getSsdpSockets d [] env.ssdp with
      | (.error code,d) => { s with ret := code, fds := d.close [stopSock], stopPort := stopSock }
      | (.ok socks,d) =>
        if env.addPersistent < 0 then
          { s with ret := upnpEOutofMemory, fds := d.close (stopSock::socks), stopPort := stopSock }
        else
          -- the errors of the pool are positive
          { s with
            main := .waiting (decide (env.addPersistent = 0)) (stopSock::socks) 0
            instances := if env.addPersistent = 0 then
                s.instances++[⟨stopSock::socks,stopSock,.queued,0,0⟩]
              else s.instances
            fds := d
            stopPort := stopSock }

def moveThread (s : State) (i : ℕ) (pc pc' : ServerPc) (f : Instance → Instance) : Option State :=
  match s.instances[i]? with
  | some x =>
    if x.pc = pc then some { s with instances := s.instances.set i { f x with pc := pc' } } else none
  | none => none

/-- A datagram for the stop socket of an array that is still open. -/
def deliver (sock : ℕ) (instances : List Instance) : List Instance :=
  instances.map fun x =>
    if x.stopSock = sock ∧ (x.pc = .queued ∨ x.pc = .selecting ∨ x.pc = .closing) then
      { x with shutdowns := x.shutdowns+1 }
    else x

def step (s : State) : Event → Option State
  | .start env => if s.main = .out then some (startMiniServer s env) else none
  | .poll =>
    match s.main with
    | .waiting accepted socks count =>
      if s.mserv ≠ .running ∧ count < maxCount then
        some { s with main := .waiting accepted socks (count+1) }
      else if maxCount ≤ count then
        -- it took too long
        some { s with main := .out, ret := upnpEInternalError, fds := s.fds.close socks }
      else some { s with main := .out, ret := 0 }
    | _ => none
  | .begin i => (moveThread s i .queued .selecting id).map fun s => { s with mserv := .running }
  | .wake i =>
    match s.instances[i]? with
    | some x =>
      if 0 < x.shutdowns then
        moveThread s i .selecting .closing fun x => { x with shutdowns := x.shutdowns-1 }
      else none
    | none => none
  | .close i =>
    match s.instances[i]? with
    | some x => (moveThread s i .closing .freeing id).map fun s =>
        { s with fds := s.fds.close x.socks }
    | none => none
  | .free i => moveThread s i .freeing .leaving fun x => { x with freed := x.freed+1 }
  | .idle i => (moveThread s i .leaving .ended id).map fun s => { s with mserv := .idle }
  | .stop =>
    if s.main = .out then
      if s.mserv = .running then some { s with main := .marking } else some { s with ret := 0 }
    else none
  | .mark => if s.main = .marking then some { s with main := .opening, mserv := .stopping } else none
  | .openSock ok =>
    if s.main = .opening then
      if ok then some { s with main := .knocking s.fds.next, fds := { s.fds with next := s.fds.next+1 } }
      else some { s with main := .out, ret := 0 }
    else none
  | .knock arrives =>
    match s.main with
    | .knocking sock =>
      if s.mserv = .idle then some { s with main := .out, ret := 0, fds := s.fds.close [sock] }
      else if arrives then some { s with instances := deliver s.stopPort s.instances }
      else some s
    | _ => none
  -- somebody else on the host sends the same datagram
  | .stray i =>
    match s.instances[i]? with
    | some x => some { s with instances := deliver x.stopSock s.instances }
    | none => none

/-! Every descriptor is in one place. -/

/-- The sockets an array still has open. -/
def Instance.holds (x : Instance) : List ℕ :=
  if x.pc = .queued ∨ x.pc = .selecting ∨ x.pc = .closing then x.socks else []

/-- The sockets that no thread will have are with the start. -/
def MainPc.holds : MainPc → List ℕ
  | .knocking sock => [sock]
  | .waiting false socks _ => socks
  | _ => []

def State.openFds (s : State) : List ℕ := s.main.holds++s.instances.flatMap Instance.holds

/-- Every descriptor that was opened is in `held`, or has been closed, once. -/
def Balanced (d : Descriptors) (held : List ℕ) : Prop :=
  (d.closed++held).Perm (List.range d.next)

def Ledger (s : State) : Prop := Balanced s.fds s.openFds

theorem Balanced.perm {d : Descriptors} {a b : List ℕ} (h : Balanced d a) (hp : b.Perm a) :
    Balanced d b :=
  (hp.append_left d.closed).trans h

theorem Balanced.opened {d : Descriptors} {held : List ℕ} (h : Balanced d held) :
    Balanced ⟨d.next+1,d.closed⟩ (d.next::held) := by
  have hnew : (d.closed++d.next::held).Perm (d.closed++held++[d.next]) := by
    rw [List.append_assoc]
    exact (List.perm_append_singleton d.next held).symm.append_left d.closed
  unfold Balanced
  rw [List.range_succ]
  exact hnew.trans (h.append_right _)

theorem Balanced.close {d : Descriptors} (socks : List ℕ) {held : List ℕ}
    (h : Balanced d (socks++held)) : Balanced (d.close socks) held := by
  unfold Balanced Descriptors.close
  rw [List.append_assoc]
  exact h

theorem createSocket_balanced {d d' : Descriptors} {held : List ℕ} (h : Balanced d held) (c : Create)
    {r : Except ℤ ℕ} (hc : createSocket d c = (r,d')) :
    (∀ code, r = .error code → Balanced d' held) ∧
      ∀ sock, r = .ok sock → Balanced d' (sock::held) := by
  cases c with
  | noSocket code =>
    cases hc
    exact ⟨fun _ _ => h,fun _ hs => nomatch hs⟩
  | failed code =>
    cases hc
    exact ⟨fun _ _ => Balanced.close [d.next] h.opened,fun _ hs => nomatch hs⟩
  | created =>
    cases hc
    refine ⟨(fun _ hs => nomatch hs),fun sock hs => ?_⟩
    cases hs
    exact h.opened

theorem getSsdpSockets_balanced {d : Descriptors} (socks : List ℕ) {held : List ℕ}
    (h : Balanced d (socks++held)) (wanted : List (Bool × Create)) {r : Except ℤ (List ℕ)}
    {d' : Descriptors} (hr : getSsdpSockets d socks wanted = (r,d')) :
    (∀ code, r = .error code → Balanced d' held) ∧
      ∀ socks', r = .ok socks' → Balanced d' (socks'++held) := by
  induction wanted generalizing d socks with
  | nil =>
    cases hr
    refine ⟨(fun _ hs => nomatch hs),fun socks' hs => ?_⟩
    cases hs
    exact h
  | cons w wanted ih =>
    rcases w with ⟨_ | _,c⟩
    · exact ih _ h hr
    · rw [getSsdpSockets] at hr
      rcases hc : createSocket d c with ⟨code | sock,d₁⟩
      · have hb := (createSocket_balanced h c hc).1 code rfl
        rw [hc] at hr
        cases hr
        exact ⟨fun _ _ => hb.close _,fun _ hs => nomatch hs⟩
      · have hb := (createSocket_balanced h c hc).2 sock rfl
        rw [hc] at hr
        refine ih _ (hb.perm ?_) hr
        rw [List.append_assoc]
        exact (@List.perm_middle _ sock socks held)

theorem startMiniServer_ledger {s : State} (h : Ledger s) (hmain : s.main = .out) (env : StartEnv) :
    Ledger (startMiniServer s env) := by
  unfold startMiniServer
  split
  · exact h
  split
  · exact h
  rcases hc : createSocket s.fds env.stop with ⟨code | stopSock,d⟩
  · exact (createSocket_balanced h env.stop hc).1 code rfl
  have hb := (createSocket_balanced h env.stop hc).2 stopSock rfl
  simp only
  rcases hg : getSsdpSockets d [] env.ssdp with ⟨code | socks,d'⟩
  · have hd := (getSsdpSockets_balanced [] hb env.ssdp hg).1 code rfl
    exact hd.close [stopSock]
  have hd := (getSsdpSockets_balanced [] hb env.ssdp hg).2 socks rfl
  have hall : Balanced d' ((stopSock::socks)++s.openFds) := hd.perm List.perm_middle.symm
  simp only
  split
  · exact hall.close _
  by_cases hadd : env.addPersistent = 0
  · refine hall.perm ?_
    simp only [State.openFds,hmain,MainPc.holds,hadd,decide_true,if_true,List.flatMap_append,
      List.flatMap_cons,List.flatMap_nil,List.nil_append,List.append_nil]
    exact List.perm_append_comm
  · simpa only [Ledger,State.openFds,hmain,MainPc.holds,hadd,decide_false,if_false,
      List.nil_append] using hall

theorem flatMap_set {α β : Type} (f : α → List β) {l : List α} {i : ℕ} {x : α} (h : l[i]? = some x)
    (y : α) : ∃ r, (l.flatMap f).Perm (f x++r) ∧ ((l.set i y).flatMap f).Perm (f y++r) := by
  induction l generalizing i with
  | nil => cases h
  | cons a l ih =>
    cases i with
    | zero =>
      cases h
      exact ⟨l.flatMap f,.refl _,.refl _⟩
    | succ i =>
      rcases ih h with ⟨r,hx,hy⟩
      have hswap : ∀ b : List β, (f a++(b++r)).Perm (b++(f a++r)) := by
        intro b
        rw [← List.append_assoc,← List.append_assoc]
        exact List.perm_append_comm.append_right r
      refine ⟨f a++r,?_,?_⟩
      · rw [List.flatMap_cons]
        exact (hx.append_left (f a)).trans (hswap (f x))
      · rw [List.set_cons_succ,List.flatMap_cons]
        exact (hy.append_left (f a)).trans (hswap (f y))

@[simp] theorem deliver_holds (sock : ℕ) (instances : List Instance) :
    (deliver sock instances).flatMap Instance.holds = instances.flatMap Instance.holds := by
  rw [deliver,List.flatMap_map]
  congr 1
  funext x
  split <;> rfl

theorem moveThread_spec {s t : State} {i : ℕ} {pc pc' : ServerPc} {f : Instance → Instance}
    (h : moveThread s i pc pc' f = some t) : ∃ x, s.instances[i]? = some x ∧ x.pc = pc ∧
      t = { s with instances := s.instances.set i { f x with pc := pc' } } := by
  unfold moveThread at h
  cases hx : s.instances[i]? with
  | none =>
    rw [hx] at h
    cases h
  | some x =>
    simp only [hx] at h
    split at h
    · cases h
      exact ⟨x,rfl,‹_›,rfl⟩
    · cases h

theorem moveThread_ledger {s t : State} (hl : Ledger s) {i : ℕ} {pc pc' : ServerPc}
    {f : Instance → Instance} (h : moveThread s i pc pc' f = some t)
    (hsame : ∀ x : Instance, x.pc = pc → Instance.holds { f x with pc := pc' } = x.holds) :
    Ledger t := by
  rcases moveThread_spec h with ⟨x,hx,hpc,rfl⟩
  rcases flatMap_set Instance.holds hx { f x with pc := pc' } with ⟨r,hr,hr'⟩
  rw [hsame x hpc] at hr'
  exact hl.perm ((hr'.trans hr.symm).append_left s.main.holds)

/-- A start does not give up waiting for a thread whose job was accepted. -/
def InTime (s : State) : Event → Prop
  | .poll =>
    match s.main with
    | .waiting true _ count => count < maxCount
    | _ => True
  | _ => True

instance (s : State) (e : Event) : Decidable (InTime s e) := by
  cases e <;> simp only [InTime] <;> try infer_instance
  split <;> infer_instance

/-! Only a thread that a start waits for can begin. -/

/-- What holds of the starts while none of them gives up on its thread. -/
structure Starting (s : State) : Prop where
  last : ∀ (i : ℕ) (x : Instance), s.instances[i]? = some x → x.pc = .queued →
    i+1 = s.instances.length
  waited : ∀ x ∈ s.instances, x.pc = .queued →
    s.mserv ≠ .running ∧ ∃ socks count, s.main = .waiting true socks count
  refused : ∀ socks count, s.main = .waiting false socks count → s.mserv ≠ .running
  socks : ∀ accepted socks count, s.main = .waiting accepted socks count → socks ≠ []

theorem Starting.idle {s : State} (hq : ∀ x ∈ s.instances, x.pc ≠ .queued)
    (hm : ∀ accepted socks count, s.main ≠ .waiting accepted socks count) : Starting s :=
  ⟨fun _ x hx h => absurd h (hq x (List.mem_of_getElem? hx)),fun x hx h => absurd h (hq x hx),
    fun _ _ h => absurd h (hm _ _ _),fun _ _ _ h => absurd h (hm _ _ _)⟩

theorem Starting.not_queued {s : State} (h : Starting s)
    (hm : ∀ socks count, s.main ≠ .waiting true socks count) : ∀ x ∈ s.instances, x.pc ≠ .queued := by
  intro x hx hpc
  obtain ⟨-,socks,count,hmain⟩ := h.waited x hx hpc
  exact hm socks count hmain

theorem startMiniServer_starting {s : State} (h : Starting s) (hmain : s.main = .out)
    (env : StartEnv) : Starting (startMiniServer s env) := by
  have hq := h.not_queued (by simp [hmain])
  unfold startMiniServer
  split
  · exact .idle hq (by simp [hmain])
  rename_i hserv
  split
  · exact .idle hq (by simp [hmain])
  rcases createSocket s.fds env.stop with ⟨code | stopSock,d⟩
  · exact .idle hq (by simp [hmain])
  simp only
  rcases getSsdpSockets d [] env.ssdp with ⟨code | socks,d'⟩
  · exact .idle hq (by simp [hmain])
  simp only
  split
  · exact .idle hq (by simp [hmain])
  have hidle : s.mserv ≠ .running := by
    rw [not_not.mp hserv]
    decide
  by_cases hadd : env.addPersistent = 0
  · simp only [hadd,decide_true,if_true]
    refine ⟨fun i x hx hpc => ?_,fun x _ _ => ⟨hidle,_,_,rfl⟩,fun _ _ _ => hidle,?_⟩
    · by_contra hi
      have hlt := (List.getElem?_eq_some_iff.mp hx).1
      simp only [List.length_append,List.length_singleton] at hi hlt
      rw [List.getElem?_append_left (by omega)] at hx
      exact hq x (List.mem_of_getElem? hx) hpc
    · rintro _ _ _ ⟨⟩
      exact List.cons_ne_nil _ _
  · simp only [hadd,decide_false,if_false]
    refine ⟨fun i x hx hpc => absurd hpc (hq x (List.mem_of_getElem? hx)),
      fun x hx hpc => absurd hpc (hq x hx),fun _ _ _ => hidle,?_⟩
    rintro _ _ _ ⟨⟩
    exact List.cons_ne_nil _ _

theorem moveThread_starting {s t : State} (hs : Starting s) {i : ℕ} {pc pc' : ServerPc}
    {f : Instance → Instance} (h : moveThread s i pc pc' f = some t) (hpc : pc' ≠ .queued) :
    Starting t := by
  rcases moveThread_spec h with ⟨x,hx,-,rfl⟩
  have hold : ∀ (j : ℕ) (y : Instance), (s.instances.set i { f x with pc := pc' })[j]? = some y →
      y.pc = .queued → s.instances[j]? = some y := by
    intro j y hy hq
    by_cases hj : i = j
    · subst hj
      rw [List.getElem?_set_self (List.getElem?_eq_some_iff.mp hx).1] at hy
      cases hy
      exact absurd hq hpc
    · rwa [List.getElem?_set_ne hj] at hy
  refine ⟨fun j y hy hq => ?_,fun y hy hq => ?_,hs.refused,hs.socks⟩
  · rw [List.length_set]
    exact hs.last j y (hold j y hy hq) hq
  · obtain ⟨j,hy⟩ := List.mem_iff_getElem?.mp hy
    exact hs.waited y (List.mem_of_getElem? (hold j y hy hq)) hq

theorem deliver_starting {s : State} (hs : Starting s) (sock : ℕ) :
    Starting { s with instances := deliver sock s.instances } := by
  have hold : ∀ (j : ℕ) (y : Instance), (deliver sock s.instances)[j]? = some y →
      ∃ x, s.instances[j]? = some x ∧ x.pc = y.pc := by
    intro j y hy
    rw [deliver,List.getElem?_map] at hy
    rcases Option.map_eq_some_iff.mp hy with ⟨x,hx,rfl⟩
    exact ⟨x,hx,by split <;> rfl⟩
  refine ⟨fun j y hy hq => ?_,fun y hy hq => ?_,hs.refused,hs.socks⟩
  · obtain ⟨x,hx,hpc⟩ := hold j y hy
    rw [deliver,List.length_map]
    exact hs.last j x hx (hpc.trans hq)
  · obtain ⟨j,hy⟩ := List.mem_iff_getElem?.mp hy
    obtain ⟨x,hx,hpc⟩ := hold j y hy
    exact hs.waited x (List.mem_of_getElem? hx) (hpc.trans hq)

theorem step_starting {s t : State} {e : Event} (hs : Starting s) (hin : InTime s e)
    (h : step s e = some t) : Starting t := by
  cases e with
  | start env =>
    simp only [step] at h
    split at h <;> cases h
    exact startMiniServer_starting hs ‹_› env
  | poll =>
    simp only [step] at h
    split at h
    · rename_i accepted socks count hmain
      split at h
      · cases h
        refine ⟨hs.last,fun x hx hq => ?_,fun _ _ he => ?_,fun _ _ _ he => ?_⟩
        · obtain ⟨hserv,_,_,hw⟩ := hs.waited x hx hq
          rw [hmain] at hw
          cases hw
          exact ⟨hserv,_,_,rfl⟩
        · cases he
          exact hs.refused _ _ hmain
        · cases he
          exact hs.socks _ _ _ hmain
      rename_i hover
      split at h
      · rename_i hlate
        cases h
        refine .idle (hs.not_queued fun socks' count' hw => ?_) (by simp)
        rw [hw] at hmain
        cases hmain
        simp only [InTime,hw] at hin
        omega
      · rename_i hlate
        cases h
        have hserv : s.mserv = .running := by
          by_contra hne
          exact hover ⟨hne,Nat.not_le.mp hlate⟩
        exact .idle (fun x hx hq => (hs.waited x hx hq).1 hserv) (by simp)
    · cases h
  | begin i =>
    rcases Option.map_eq_some_iff.mp h with ⟨u,hu,rfl⟩
    have hu' := moveThread_starting hs hu (by decide)
    rcases moveThread_spec hu with ⟨x,hx,hpc,rfl⟩
    obtain ⟨-,socks,count,hmain⟩ := hs.waited x (List.mem_of_getElem? hx) hpc
    -- the thread that begins was the only one in the queue
    have hnone : ∀ y ∈ s.instances.set i { id x with pc := .selecting }, y.pc ≠ .queued := by
      intro y hy hq
      obtain ⟨j,hy⟩ := List.mem_iff_getElem?.mp hy
      have hj := hu'.last j y hy hq
      have hi := hs.last i x hx hpc
      rw [List.length_set] at hj
      obtain rfl : i = j := by omega
      rw [List.getElem?_set_self (List.getElem?_eq_some_iff.mp hx).1] at hy
      cases hy
      cases hq
    refine ⟨hu'.last,fun y hy hq => absurd hq (hnone y hy),fun _ _ he => ?_,hu'.socks⟩
    rw [show s.main = _ from he] at hmain
    cases hmain
  | wake i =>
    simp only [step] at h
    repeat' split at h
    · exact moveThread_starting hs h (by decide)
    all_goals cases h
  | close i =>
    simp only [step] at h
    split at h
    · rcases Option.map_eq_some_iff.mp h with ⟨u,hu,rfl⟩
      have hu' := moveThread_starting hs hu (by decide)
      exact ⟨hu'.last,hu'.waited,hu'.refused,hu'.socks⟩
    · cases h
  | free i => exact moveThread_starting hs h (by decide)
  | idle i =>
    rcases Option.map_eq_some_iff.mp h with ⟨u,hu,rfl⟩
    have hu' := moveThread_starting hs hu (by decide)
    exact ⟨hu'.last,fun x hx hq => ⟨by simp,(hu'.waited x hx hq).2⟩,fun _ _ _ => by simp,hu'.socks⟩
  | stop =>
    simp only [step] at h
    split at h
    · rename_i hmain
      have hq := hs.not_queued (by simp [hmain])
      split at h <;> cases h
      · exact .idle hq (by simp)
      · exact .idle hq (by simp [hmain])
    · cases h
  | mark =>
    simp only [step] at h
    split at h <;> cases h
    rename_i hmain
    exact .idle (hs.not_queued (by simp [hmain])) (by simp)
  | openSock ok =>
    simp only [step] at h
    split at h
    · rename_i hmain
      have hq := hs.not_queued (by simp [hmain])
      split at h <;> cases h
      · exact .idle hq (by simp)
      · exact .idle hq (by simp)
    · cases h
  | knock arrives =>
    simp only [step] at h
    split at h
    · rename_i sock hmain
      split at h
      · cases h
        exact .idle (hs.not_queued (by simp [hmain])) (by simp)
      split at h <;> cases h
      · exact deliver_starting hs _
      · exact hs
    · cases h
  | stray i =>
    simp only [step] at h
    split at h <;> cases h
    exact deliver_starting hs _

theorem step_ledger {s t : State} {e : Event} (hl : Ledger s) (hs : Starting s) (hin : InTime s e)
    (h : step s e = some t) : Ledger t := by
  cases e with
  | start env =>
    simp only [step] at h
    split at h
    · cases h
      exact startMiniServer_ledger hl ‹_› env
    · cases h
  | poll =>
    simp only [step] at h
    split at h
    · rename_i accepted socks count hmain
      split at h
      · cases h
        refine hl.perm ?_
        simp only [State.openFds,hmain]
        cases accepted <;> exact .refl _
      rename_i hover
      split at h
      · rename_i hlate
        cases h
        cases accepted with
        | true =>
          simp only [InTime,hmain] at hin
          omega
        | false =>
          refine Balanced.close socks (hl.perm ?_)
          simp only [State.openFds,hmain]
          exact .refl _
      · rename_i hlate
        cases h
        cases accepted with
        | true =>
          refine hl.perm ?_
          simp only [State.openFds,hmain]
          exact .refl _
        | false =>
          -- without a thread the server does not run
          exact absurd ⟨hs.refused _ _ hmain,Nat.not_le.mp hlate⟩ hover
    · cases h
  | begin i =>
    rcases Option.map_eq_some_iff.mp h with ⟨u,hu,rfl⟩
    have hu' : Ledger u := moveThread_ledger hl hu fun x hx => by simp [Instance.holds,hx]
    exact hu'
  | wake i =>
    simp only [step] at h
    split at h
    · split at h
      · exact moveThread_ledger hl h fun x hx => by simp [Instance.holds,hx]
      · cases h
    · cases h
  | close i =>
    simp only [step] at h
    split at h
    · rename_i x hx
      rcases Option.map_eq_some_iff.mp h with ⟨u,hu,rfl⟩
      rcases moveThread_spec hu with ⟨y,hy,hpc,rfl⟩
      cases hx.symm.trans hy
      rcases flatMap_set Instance.holds hx { x with pc := .freeing } with ⟨r,hr,hr'⟩
      have hopen : s.openFds.Perm (x.socks++(s.main.holds++r)) := by
        have hheld : x.holds = x.socks := by simp [Instance.holds,hpc]
        rw [hheld] at hr
        refine (hr.append_left s.main.holds).trans ?_
        rw [← List.append_assoc,← List.append_assoc]
        exact List.perm_append_comm.append_right r
      exact (Balanced.close x.socks (hl.perm hopen.symm)).perm (hr'.append_left s.main.holds)
    · cases h
  | free i => exact moveThread_ledger hl h fun x hx => by simp [Instance.holds,hx]
  | idle i =>
    rcases Option.map_eq_some_iff.mp h with ⟨u,hu,rfl⟩
    have hu' : Ledger u := moveThread_ledger hl hu fun x hx => by simp [Instance.holds,hx]
    exact hu'
  | stop =>
    simp only [step] at h
    split at h
    · rename_i hmain
      split at h <;> cases h
      · refine hl.perm ?_
        simp only [State.openFds,hmain]
        exact .refl _
      · exact hl
    · cases h
  | mark =>
    simp only [step] at h
    split at h
    · rename_i hmain
      cases h
      refine hl.perm ?_
      simp only [State.openFds,hmain]
      exact .refl _
    · cases h
  | openSock ok =>
    simp only [step] at h
    split at h
    · rename_i hmain
      split at h <;> cases h
      · refine (Balanced.opened hl).perm ?_
        simp only [State.openFds,hmain]
        exact .refl _
      · refine hl.perm ?_
        simp only [State.openFds,hmain]
        exact .refl _
    · cases h
  | knock arrives =>
    cases hmain : s.main with
    | knocking sock =>
      simp only [step,hmain] at h
      split at h
      · cases h
        refine Balanced.close [sock] (hl.perm ?_)
        simp only [State.openFds,hmain]
        exact .refl _
      split at h <;> cases h
      · refine hl.perm ?_
        simp only [State.openFds,deliver_holds,hmain]
        exact .refl _
      · exact hl
    | out | marking | opening | waiting accepted socks count =>
      simp only [step,hmain] at h
      cases h
  | stray i =>
    simp only [step] at h
    split at h
    · cases h
      refine hl.perm ?_
      simp only [State.openFds,deliver_holds]
      exact .refl _
    · cases h

/-- A start that takes too long closes the sockets that the thread will use, or has closed. -/
theorem inTime_of_ledger {s t : State} {e : Event} (hl : Ledger s) (hs : Starting s)
    (h : step s e = some t) (ht : Ledger t) : InTime s e := by
  cases e with
  | poll =>
    simp only [InTime]
    split
    · rename_i socks count hmain
      by_contra hlate
      simp only [step,hmain,hlate,and_false,if_false,if_pos (Nat.not_lt.mp hlate)] at h
      cases h
      -- the ledger of `t` has the sockets twice
      have hlen := List.Perm.length_eq ht
      have hlen' := List.Perm.length_eq hl
      have hpos := List.length_pos_iff.mpr (hs.socks _ _ _ hmain)
      simp only [State.openFds,hmain,MainPc.holds,Descriptors.close,List.length_append,
        List.length_range,List.nil_append] at hlen hlen'
      omega
    · trivial
  | start | begin | wake | close | free | idle | stop | mark | openSock | knock | stray =>
    exact trivial

/-- Every socket is open in one place, or has been closed once. -/
structure Accounted (s : State) : Prop where
  closed : s.fds.closed.Nodup
  opened : s.openFds.Nodup
  split : ∀ sock, sock ∈ s.openFds ↔ sock < s.fds.next ∧ sock ∉ s.fds.closed

theorem Ledger.accounted {s : State} (h : Ledger s) : Accounted s := by
  have hnodup : (s.fds.closed++s.openFds).Nodup := h.nodup_iff.mpr List.nodup_range
  rcases List.nodup_append.mp hnodup with ⟨hclosed,hopen,hdisj⟩
  refine ⟨hclosed,hopen,fun sock => ?_⟩
  have hmem : sock ∈ s.fds.closed++s.openFds ↔ sock < s.fds.next :=
    h.mem_iff.trans List.mem_range
  rw [← hmem,List.mem_append]
  constructor
  · intro hs
    exact ⟨.inr hs,fun hc => hdisj sock hc sock hs rfl⟩
  · rintro ⟨hc | hs,hnot⟩
    · exact absurd hc hnot
    · exact hs

theorem runs_starting {s : State} (h : Runs step InTime State.init s) : Ledger s ∧ Starting s :=
  h.invariant (I := fun s => Ledger s ∧ Starting s)
    ⟨List.Perm.refl _,.idle (fun _ hx => nomatch hx) (by simp [State.init])⟩
    fun _ _ _ ⟨hl,hs⟩ hin hstep => ⟨step_ledger hl hs hin hstep,step_starting hs hin hstep⟩

/-- As long as no start gives up on its thread, whatever the order of the steps, the sockets are
accounted for; the first one that does ends that. -/
theorem runs_ledger {s : State} (h : Runs step InTime State.init s) :
    Accounted s ∧ ∀ e t, step s e = some t → (Ledger t ↔ InTime s e) := by
  rcases runs_starting h with ⟨hl,hs⟩
  exact ⟨hl.accounted,fun e t hstep =>
    ⟨fun ht => inTime_of_ledger hl hs hstep ht,fun hin => step_ledger hl hs hin hstep⟩⟩

def lanStopped : State := ⟨.idle,.out,0,[⟨[0,1,2],0,.ended,0,1⟩],⟨4,[0,1,2,3]⟩,0⟩

def lanEvents : List Event :=
  [.start ⟨true,.created,[(true,.created),(false,.created),(true,.created)],0⟩,.poll,.begin 0,
    .poll,.stop,.mark,.openSock true,.knock true,.wake 0,.close 0,.free 0,.idle 0,.knock true]

theorem runs_ledger_lan : Accounted lanStopped ∧
    ∀ e t, step lanStopped e = some t → (Ledger t ↔ InTime lanStopped e) :=
  runs_ledger (Runs.of_run lanEvents (by decide))

/-! Stopping the server. The steps are those of a run in which the socket for the datagram can be
opened, and nobody else sends one. -/

def Undisturbed (s : State) (e : Event) : Prop :=
  InTime s e ∧ e ≠ .openSock false ∧ ∀ i, e ≠ .stray i

instance (s : State) (e : Event) : Decidable (Undisturbed s e) := by
  have : Decidable (∀ i, e ≠ .stray i) := by
    cases e
    case stray i => exact isFalse fun h => h i rfl
    all_goals exact isTrue fun _ h => nomatch h
  exact inferInstanceAs (Decidable (_ ∧ _ ∧ _))

/-- The thread has left, and the array has been freed once. -/
def Instance.Ended (x : Instance) : Prop := x.pc = .ended ∧ x.freed = 1

/-- Where the application and the last of the threads can be at the same time. -/
inductive Live (socks : List ℕ) (sock : ℕ) : MServ → MainPc → Instance → Prop
  | queued (count : ℕ) :
      Live socks sock .idle (.waiting true socks count) ⟨socks,sock,.queued,0,0⟩
  | begun (count : ℕ) :
      Live socks sock .running (.waiting true socks count) ⟨socks,sock,.selecting,0,0⟩
  | up : Live socks sock .running .out ⟨socks,sock,.selecting,0,0⟩
  | marking : Live socks sock .running .marking ⟨socks,sock,.selecting,0,0⟩
  | opening : Live socks sock .stopping .opening ⟨socks,sock,.selecting,0,0⟩
  | selecting (k n : ℕ) : Live socks sock .stopping (.knocking n) ⟨socks,sock,.selecting,k,0⟩
  | closing (k n : ℕ) : Live socks sock .stopping (.knocking n) ⟨socks,sock,.closing,k,0⟩
  | freeing (k n : ℕ) : Live socks sock .stopping (.knocking n) ⟨socks,sock,.freeing,k,0⟩
  | leaving (k n : ℕ) : Live socks sock .stopping (.knocking n) ⟨socks,sock,.leaving,k,1⟩

/-- Where the application can be when there is no thread. -/
inductive Down : MainPc → Prop
  | out : Down .out
  | knocking (sock : ℕ) : Down (.knocking sock)
  | refused (socks : List ℕ) (count : ℕ) : Down (.waiting false socks count)

inductive Phase : State → Prop
  | down {main : MainPc} {ret : ℤ} {instances : List Instance} {fds : Descriptors} {stopPort : ℕ}
      (hmain : Down main) (hended : ∀ x ∈ instances, x.Ended) :
      Phase ⟨.idle,main,ret,instances,fds,stopPort⟩
  | live {mserv : MServ} {main : MainPc} {ret : ℤ} {pre : List Instance} {x : Instance}
      {fds : Descriptors} {stopPort : ℕ} {socks : List ℕ} (hended : ∀ y ∈ pre, y.Ended)
      (hlive : Live socks stopPort mserv main x) :
      Phase ⟨mserv,main,ret,pre++[x],fds,stopPort⟩

theorem startMiniServer_phase {ret : ℤ} {instances : List Instance} {fds : Descriptors}
    {stopPort : ℕ} (hended : ∀ x ∈ instances, x.Ended) (env : StartEnv) :
    Phase (startMiniServer ⟨.idle,.out,ret,instances,fds,stopPort⟩ env) := by
  unfold startMiniServer
  repeat' split
  all_goals try exact .down .out hended
  · rename_i hadd
    simp only [hadd,decide_true]
    exact .live hended (.queued 0)
  · rename_i hadd
    simp only [hadd,decide_false]
    exact .down (.refused _ 0) hended

theorem startMiniServer_refused {s : State} (h : s.mserv ≠ .idle) (env : StartEnv) :
    startMiniServer s env = { s with ret := upnpEInternalError } := by
  rw [startMiniServer,if_pos h]

theorem last_of_getElem? {pre : List Instance} {x y : Instance} {i : ℕ}
    (hended : ∀ y ∈ pre, y.Ended) (hy : (pre++[x])[i]? = some y) (hpc : y.pc ≠ .ended) :
    i = pre.length ∧ x = y := by
  rcases Nat.lt_trichotomy i pre.length with hlt | rfl | hgt
  · rw [List.getElem?_append_left hlt] at hy
    exact absurd (hended y (List.mem_of_getElem? hy)).1 hpc
  · rw [List.getElem?_concat_length] at hy
    cases hy
    exact ⟨rfl,rfl⟩
  · rw [List.getElem?_eq_none (by simp; omega)] at hy
    cases hy

theorem moveThread_last {s t : State} {i : ℕ} {pc pc' : ServerPc} {f : Instance → Instance}
    (h : moveThread s i pc pc' f = some t) (hpc : pc ≠ .ended) {pre : List Instance} {x : Instance}
    (hinst : s.instances = pre++[x]) (hended : ∀ y ∈ pre, y.Ended) :
    i = pre.length ∧ x.pc = pc ∧ t = { s with instances := pre++[{ f x with pc := pc' }] } := by
  rcases moveThread_spec h with ⟨y,hy,hypc,rfl⟩
  rw [hinst] at hy
  rcases last_of_getElem? hended hy (hypc ▸ hpc) with ⟨rfl,rfl⟩
  refine ⟨rfl,hypc,?_⟩
  rw [hinst]
  simp

theorem moveThread_ended {mserv : MServ} {main : MainPc} {ret : ℤ} {instances : List Instance}
    {fds : Descriptors} {stopPort : ℕ} {i : ℕ} {pc pc' : ServerPc} {f : Instance → Instance}
    (hended : ∀ x ∈ instances, x.Ended) (hpc : pc ≠ .ended) :
    moveThread ⟨mserv,main,ret,instances,fds,stopPort⟩ i pc pc' f = none := by
  rcases hm : moveThread ⟨mserv,main,ret,instances,fds,stopPort⟩ i pc pc' f with _ | t
  · rfl
  · rcases moveThread_spec hm with ⟨y,hy,hypc,_⟩
    exact absurd (hypc.symm.trans (hended y (List.mem_of_getElem? hy)).1) hpc

theorem deliver_ended (sock : ℕ) {instances : List Instance} (hended : ∀ x ∈ instances, x.Ended) :
    deliver sock instances = instances := by
  refine (List.map_congr_left fun y hy => ?_).trans (List.map_id instances)
  rw [if_neg]
  · rfl
  rintro ⟨_,hpc⟩
  rw [(hended y hy).1] at hpc
  simp at hpc

theorem deliver_last (sock : ℕ) {pre : List Instance} (hended : ∀ y ∈ pre, y.Ended) (x : Instance) :
    ∃ k, deliver sock (pre++[x]) = pre++[{ x with shutdowns := k }] ∧
      (x.stopSock = sock → x.pc = .selecting → 0 < k) := by
  have happend : deliver sock (pre++[x]) = deliver sock pre++deliver sock [x] := List.map_append
  rw [happend,deliver_ended sock hended]
  by_cases hx : x.stopSock = sock ∧ (x.pc = .queued ∨ x.pc = .selecting ∨ x.pc = .closing)
  · refine ⟨x.shutdowns+1,?_,fun _ _ => Nat.succ_pos _⟩
    rw [deliver,List.map_singleton,if_pos hx]
  · refine ⟨x.shutdowns,?_,fun hsock hpc => absurd ⟨hsock,.inr (.inl hpc)⟩ hx⟩
    rw [deliver,List.map_singleton,if_neg hx]

theorem step_down {main : MainPc} {ret : ℤ} {instances : List Instance} {fds : Descriptors}
    {stopPort : ℕ} {t : State} {e : Event} (hmain : Down main)
    (hended : ∀ x ∈ instances, x.Ended) (hok : ∀ i, e ≠ .stray i)
    (h : step ⟨.idle,main,ret,instances,fds,stopPort⟩ e = some t) : Phase t := by
  cases e with
  | start env =>
    simp only [step] at h
    split at h
    · rename_i hout
      cases hout
      cases h
      exact startMiniServer_phase hended env
    · cases h
  | poll =>
    cases hmain with
    | out | knocking sock => cases h
    | refused socks count =>
      simp only [step] at h
      split at h
      · cases h
        exact .down (.refused _ _) hended
      split at h
      · cases h
        exact .down .out hended
      · rename_i hover hlate
        exact absurd ⟨by simp,Nat.not_le.mp hlate⟩ hover
  | begin i | free i | idle i => simp [step,moveThread_ended hended] at h
  | wake i | close i =>
    simp only [step] at h
    split at h
    · simp [moveThread_ended hended] at h
    · cases h
  | stop =>
    simp only [step] at h
    split at h <;> cases h
    exact .down hmain hended
  | mark | openSock ok => cases hmain <;> cases h
  | knock arrives =>
    cases hmain <;> cases h
    exact .down .out hended
  | stray i => exact absurd rfl (hok i)

theorem step_live {mserv : MServ} {main : MainPc} {ret : ℤ} {pre : List Instance} {x : Instance}
    {fds : Descriptors} {stopPort : ℕ} {t : State} {e : Event} (hended : ∀ y ∈ pre, y.Ended)
    {socks : List ℕ} (hlive : Live socks stopPort mserv main x)
    (hok : Undisturbed ⟨mserv,main,ret,pre++[x],fds,stopPort⟩ e)
    (h : step ⟨mserv,main,ret,pre++[x],fds,stopPort⟩ e = some t) : Phase t := by
  cases e with
  | start env =>
    cases hlive
    case up =>
      cases h
      rw [startMiniServer_refused (by simp)]
      exact .live hended .up
    all_goals cases h
  | poll =>
    have hin := hok.1
    cases hlive
    case queued count =>
      have hlt : count < maxCount := hin
      simp only [step,ne_eq,reduceCtorEq,not_false_eq_true,true_and,if_pos hlt] at h
      cases h
      exact .live hended (.queued _)
    case begun count =>
      have hlt : ¬maxCount ≤ count := Nat.not_le.mpr hin
      simp only [step,ne_eq,not_true_eq_false,false_and,if_false,if_neg hlt] at h
      cases h
      exact .live hended .up
    all_goals cases h
  | begin i =>
    rcases Option.map_eq_some_iff.mp h with ⟨u,hu,rfl⟩
    rcases moveThread_last hu (by decide) rfl hended with ⟨rfl,hpc,rfl⟩
    cases hlive <;> cases hpc
    exact .live hended (.begun _)
  | wake i =>
    simp only [step] at h
    split at h
    · split at h
      · rename_i y hy hpos
        rcases moveThread_last h (by decide) rfl hended with ⟨rfl,hpc,rfl⟩
        rw [List.getElem?_concat_length] at hy
        cases hy
        cases hlive <;> cases hpc
        all_goals try exact absurd hpos (Nat.lt_irrefl 0)
        exact .live hended (.closing _ _)
      · cases h
    · cases h
  | close i =>
    simp only [step] at h
    split at h
    · rcases Option.map_eq_some_iff.mp h with ⟨u,hu,rfl⟩
      rcases moveThread_last hu (by decide) rfl hended with ⟨rfl,hpc,rfl⟩
      cases hlive <;> cases hpc
      exact .live hended (.freeing _ _)
    · cases h
  | free i =>
    rcases moveThread_last h (by decide) rfl hended with ⟨rfl,hpc,rfl⟩
    cases hlive <;> cases hpc
    exact .live hended (.leaving _ _)
  | idle i =>
    rcases Option.map_eq_some_iff.mp h with ⟨u,hu,rfl⟩
    rcases moveThread_last hu (by decide) rfl hended with ⟨rfl,hpc,rfl⟩
    cases hlive <;> cases hpc
    refine .down (.knocking _) fun y hy => ?_
    rcases List.mem_append.mp hy with hy | hy
    · exact hended y hy
    · rw [List.mem_singleton.mp hy]
      exact ⟨rfl,rfl⟩
  | stop =>
    cases hlive <;> cases h
    exact .live hended .marking
  | mark =>
    cases hlive <;> cases h
    exact .live hended .opening
  | openSock ok =>
    cases ok with
    | false => exact absurd rfl hok.2.1
    | true =>
      cases hlive <;> cases h
      exact .live hended (.selecting 0 _)
  | knock arrives =>
    rcases deliver_last stopPort hended x with ⟨k,hdeliver,_⟩
    cases arrives with
    | false =>
      cases hlive <;> cases h
      · exact .live hended (.selecting _ _)
      · exact .live hended (.closing _ _)
      · exact .live hended (.freeing _ _)
      · exact .live hended (.leaving _ _)
    | true =>
      cases hlive <;> cases h
      · exact hdeliver ▸ .live hended (.selecting k _)
      · exact hdeliver ▸ .live hended (.closing k _)
      · exact hdeliver ▸ .live hended (.freeing k _)
      · exact hdeliver ▸ .live hended (.leaving k _)
  | stray i => exact absurd rfl (hok.2.2 i)

theorem step_phase {s t : State} {e : Event} (hp : Phase s) (hok : Undisturbed s e)
    (h : step s e = some t) : Phase t := by
  cases hp with
  | down hmain hended => exact step_down hmain hended hok.2.2 h
  | live hended hlive => exact step_live hended hlive hok h

theorem runs_phase {s : State} (h : Runs step Undisturbed State.init s) : Phase s :=
  h.invariant (.down .out fun _ hx => nomatch hx) fun _ _ _ hp hok hstep => step_phase hp hok hstep

theorem flatMap_ended {instances : List Instance} (h : ∀ x ∈ instances, x.Ended) :
    instances.flatMap Instance.holds = [] := by
  rw [List.flatMap_eq_nil_iff]
  intro x hx
  simp [Instance.holds,(h x hx).1]

/-- Between two calls the server is down, with every socket closed once and every array freed once,
or up. -/
inductive Settled (s : State) : Prop
  | down (hserv : s.mserv = .idle) (hended : ∀ x ∈ s.instances, x.Ended)
      (hclosed : s.fds.closed.Perm (List.range s.fds.next))
  | up (hserv : s.mserv = .running) (pre : List Instance) (x : Instance)
      (hinst : s.instances = pre++[x]) (hended : ∀ y ∈ pre, y.Ended) (hpc : x.pc = .selecting)
      (hport : x.stopSock = s.stopPort) (hfreed : x.freed = 0) (hopen : s.openFds = x.socks)

theorem Phase.settled {s : State} (hp : Phase s) (hl : Ledger s) (hmain : s.main = .out) :
    Settled s := by
  cases hp with
  | down _ hended =>
    cases hmain
    rw [Ledger,Balanced,State.openFds,flatMap_ended hended] at hl
    refine .down rfl hended ?_
    rw [← List.append_nil (Descriptors.closed _)]
    exact hl
  | live hended hlive =>
    cases hmain
    cases hlive
    refine .up rfl _ _ rfl hended rfl rfl rfl ?_
    rw [State.openFds,List.flatMap_append,flatMap_ended hended]
    simp [MainPc.holds,Instance.holds]

/-! The end of a stop. -/

/-- There is a way to the end of the call. -/
def Ends (s : State) : Prop := ∃ t, Runs step Undisturbed s t ∧ t.main = .out ∧ t.mserv = .idle

theorem Ends.step {s t : State} {e : Event} (h : Ends t) (hstep : MiniServer.step s e = some t)
    (hok : Undisturbed s e) : Ends s := by
  rcases h with ⟨u,hu,hend⟩
  exact ⟨u,(Runs.tail e Runs.refl hok hstep).trans hu,hend⟩

theorem moveThread_here {mserv : MServ} {main : MainPc} {ret : ℤ} {pre : List Instance}
    {x : Instance} {fds : Descriptors} {stopPort : ℕ} {pc pc' : ServerPc} (hpc : x.pc = pc)
    (f : Instance → Instance) :
    moveThread ⟨mserv,main,ret,pre++[x],fds,stopPort⟩ pre.length pc pc' f =
      some ⟨mserv,main,ret,pre++[{ f x with pc := pc' }],fds,stopPort⟩ := by
  simp [moveThread,hpc]

section Stop
variable {sock : ℕ} {ret : ℤ} {pre : List Instance} {socks : List ℕ} {fds : Descriptors}
variable {stopPort : ℕ}

theorem ends_stopped (instances : List Instance) :
    Ends ⟨.idle,.knocking sock,ret,instances,fds,stopPort⟩ :=
  ⟨_,Runs.tail (.knock true) Runs.refl ⟨trivial,by simp,by simp⟩ rfl,rfl,rfl⟩

theorem ends_leaving (k : ℕ) :
    Ends ⟨.stopping,.knocking sock,ret,pre++[⟨socks,stopPort,.leaving,k,1⟩],fds,stopPort⟩ := by
  have hidle : step ⟨.stopping,.knocking sock,ret,pre++[⟨socks,stopPort,.leaving,k,1⟩],fds,stopPort⟩
      (.idle pre.length) = some ⟨.idle,.knocking sock,ret,pre++[⟨socks,stopPort,.ended,k,1⟩],fds,
        stopPort⟩ := by
    simp [step,moveThread_here]
  exact (ends_stopped _).step hidle ⟨trivial,by simp,by simp⟩

theorem ends_freeing (k : ℕ) :
    Ends ⟨.stopping,.knocking sock,ret,pre++[⟨socks,stopPort,.freeing,k,0⟩],fds,stopPort⟩ :=
  (ends_leaving k).step (e := .free pre.length) (moveThread_here rfl _) ⟨trivial,by simp,by simp⟩

theorem ends_closing (k : ℕ) :
    Ends ⟨.stopping,.knocking sock,ret,pre++[⟨socks,stopPort,.closing,k,0⟩],fds,stopPort⟩ := by
  have hclose : step ⟨.stopping,.knocking sock,ret,pre++[⟨socks,stopPort,.closing,k,0⟩],fds,stopPort⟩
      (.close pre.length) = some ⟨.stopping,.knocking sock,ret,
        pre++[⟨socks,stopPort,.freeing,k,0⟩],fds.close socks,stopPort⟩ := by
    simp [step,moveThread_here]
  exact (ends_freeing k).step hclose ⟨trivial,by simp,by simp⟩

theorem ends_selecting (hended : ∀ y ∈ pre, y.Ended) (k : ℕ) :
    Ends ⟨.stopping,.knocking sock,ret,pre++[⟨socks,stopPort,.selecting,k,0⟩],fds,stopPort⟩ := by
  rcases deliver_last stopPort hended ⟨socks,stopPort,.selecting,k,0⟩ with ⟨k',hdeliver,hk⟩
  have hpos : 0 < k' := hk rfl rfl
  have hknock : step ⟨.stopping,.knocking sock,ret,pre++[⟨socks,stopPort,.selecting,k,0⟩],fds,stopPort⟩
      (.knock true) = some ⟨.stopping,.knocking sock,ret,
        pre++[⟨socks,stopPort,.selecting,k',0⟩],fds,stopPort⟩ := by
    simp [step,hdeliver]
  have hwake : step ⟨.stopping,.knocking sock,ret,pre++[⟨socks,stopPort,.selecting,k',0⟩],fds,stopPort⟩
      (.wake pre.length) = some ⟨.stopping,.knocking sock,ret,
        pre++[⟨socks,stopPort,.closing,k'-1,0⟩],fds,stopPort⟩ := by
    simp [step,moveThread_here,hpos]
  have hend := (ends_closing (k'-1)).step hwake ⟨trivial,by simp,by simp⟩
  exact hend.step hknock ⟨trivial,by simp,by simp⟩

end Stop

/-- A stop is on its way. -/
inductive StopPc : MainPc → Prop
  | marking : StopPc .marking
  | opening : StopPc .opening
  | knocking (sock : ℕ) : StopPc (.knocking sock)

theorem Phase.ends {s : State} (hp : Phase s) (hmain : StopPc s.main) : Ends s := by
  cases hp with
  | down hdown _ =>
    cases hdown with
    | knocking sock => exact ends_stopped _
    | out | refused => cases hmain
  | @live mserv main ret pre x fds stopPort socks hended hlive =>
    have hopen : ∀ fds' : Descriptors,
        Ends ⟨.stopping,.opening,ret,pre++[⟨socks,stopPort,.selecting,0,0⟩],fds',stopPort⟩ :=
      fun fds' => Ends.step (e := .openSock true) (ends_selecting hended 0) rfl
        ⟨trivial,by simp,by simp⟩
    cases hlive with
    | queued | begun | up => cases hmain
    | marking => exact (hopen fds).step (e := .mark) rfl ⟨trivial,by simp,by simp⟩
    | opening => exact hopen fds
    | selecting k n => exact ends_selecting hended k
    | closing k n => exact ends_closing k
    | freeing k n => exact ends_freeing k
    | leaving k n => exact ends_leaving k

/-- No two threads are there at the same time. -/
def Alone (s : State) : Prop :=
  ∀ (i j : ℕ) (x y : Instance), s.instances[i]? = some x → s.instances[j]? = some y →
    x.pc ≠ .ended → y.pc ≠ .ended → i = j

theorem Phase.alone {s : State} (hp : Phase s) : Alone s := by
  intro i j x y hx hy hxpc hypc
  cases hp with
  | down _ hended => exact absurd (hended x (List.mem_of_getElem? hx)).1 hxpc
  | live hended _ => rw [(last_of_getElem? hended hx hxpc).1,(last_of_getElem? hended hy hypc).1]

/-- In every run of starts and stops, whatever the order of the steps, the server is down or up when
no call is running; there is never more than one thread; and a stop can end, wherever it is. -/
theorem runs_settled {s : State} (h : Runs step Undisturbed State.init s) :
    (s.main = .out → Settled s) ∧ Alone s ∧ (StopPc s.main → Ends s) := by
  have hp := runs_phase h
  have hl := (runs_starting (h.mono fun _ _ hok => hok.1)).1
  exact ⟨hp.settled hl,hp.alone,hp.ends⟩

theorem runs_settled_lan : (lanStopped.main = .out → Settled lanStopped) ∧ Alone lanStopped ∧
    (StopPc lanStopped.main → Ends lanStopped) :=
  runs_settled (Runs.of_run lanEvents (by decide))

/-! A stop without a socket for its datagram. -/

/-- The thread waits on, and nobody will wake it. -/
structure Stuck (s : State) : Prop where
  mserv : s.mserv = .stopping
  main : s.main = .out
  asleep : ∃ pre x, s.instances = pre++[x] ∧ (∀ y ∈ pre, y.Ended) ∧ x.pc = .selecting ∧
    x.shutdowns = 0

theorem step_stuck {s t : State} {e : Event} (hs : Stuck s) (hok : ∀ i, e ≠ .stray i)
    (h : step s e = some t) : ∃ ret, t = { s with ret := ret } := by
  rcases s with ⟨mserv,main,ret,instances,fds,stopPort⟩
  rcases hs with ⟨rfl,rfl,pre,x,rfl,hended,hpc,hnone⟩
  cases e with
  | start env =>
    cases h
    exact ⟨_,startMiniServer_refused (by simp) env⟩
  | begin i | idle i =>
    rcases Option.map_eq_some_iff.mp h with ⟨u,hu,rfl⟩
    rcases moveThread_last hu (by decide) rfl hended with ⟨rfl,hpc',_⟩
    cases hpc.symm.trans hpc'
  | wake i =>
    simp only [step] at h
    split at h
    · split at h
      · rename_i y hy hpos
        rcases moveThread_last h (by decide) rfl hended with ⟨rfl,_,_⟩
        rw [List.getElem?_concat_length] at hy
        cases hy
        omega
      · cases h
    · cases h
  | close i =>
    simp only [step] at h
    split at h
    · rcases Option.map_eq_some_iff.mp h with ⟨u,hu,rfl⟩
      rcases moveThread_last hu (by decide) rfl hended with ⟨rfl,hpc',_⟩
      cases hpc.symm.trans hpc'
    · cases h
  | free i =>
    rcases moveThread_last h (by decide) rfl hended with ⟨rfl,hpc',_⟩
    cases hpc.symm.trans hpc'
  | stop =>
    cases h
    exact ⟨0,rfl⟩
  | poll | mark | openSock ok | knock arrives => cases h
  | stray i => exact absurd rfl (hok i)

/-- When `StopMiniServer` gets no socket the server waits for ever, the calls that follow say that
they have stopped it, and none of them starts it. -/
theorem stopMiniServer_noSocket {s t u : State} (h : Runs step Undisturbed State.init s)
    (hstep : step s (.openSock false) = some t)
    (hrun : Runs step (fun _ e => ∀ i, e ≠ .stray i) t u) :
    t.ret = 0 ∧ (∃ ret, u = { t with ret := ret }) ∧ Stuck u ∧
      step u .stop = some { u with ret := 0 } ∧
      ∀ env, step u (.start env) = some { u with ret := upnpEInternalError } := by
  have hp := runs_phase h
  have ht : t.ret = 0 ∧ Stuck t := by
    cases hp with
    | down hmain _ => cases hmain <;> cases hstep
    | live hended hlive =>
      cases hlive <;> cases hstep
      exact ⟨rfl,rfl,rfl,_,_,rfl,hended,rfl,rfl⟩
  have hu : (∃ ret, u = { t with ret := ret }) ∧ Stuck u := by
    refine hrun.invariant (I := fun u => (∃ ret, u = { t with ret := ret }) ∧ Stuck u)
      ⟨⟨t.ret,rfl⟩,ht.2⟩ ?_
    intro v e w ⟨⟨ret,hv⟩,hstuck⟩ hok hw
    rcases step_stuck hstuck hok hw with ⟨ret',rfl⟩
    exact ⟨⟨ret',by rw [hv]⟩,hstuck.mserv,hstuck.main,hstuck.asleep⟩
  refine ⟨ht.1,hu.1,hu.2,?_,fun env => ?_⟩
  · simp [step,hu.2.main,hu.2.mserv]
  · rw [step,if_pos hu.2.main,startMiniServer_refused (by rw [hu.2.mserv]; simp)]

def stuckServer (ret : ℤ) : State :=
  ⟨.stopping,.out,ret,[⟨[0],0,.selecting,0,0⟩],⟨1,[]⟩,0⟩

theorem stopMiniServer_noSocket_lan :
    (stuckServer 0).ret = 0 ∧
      (∃ ret, stuckServer upnpEInternalError = { stuckServer 0 with ret := ret }) ∧
      Stuck (stuckServer upnpEInternalError) ∧
      step (stuckServer upnpEInternalError) .stop =
        some { stuckServer upnpEInternalError with ret := 0 } ∧
      ∀ env, step (stuckServer upnpEInternalError) (.start env) =
        some { stuckServer upnpEInternalError with ret := upnpEInternalError } :=
  stopMiniServer_noSocket (s := ⟨.stopping,.opening,0,[⟨[0],0,.selecting,0,0⟩],⟨1,[]⟩,0⟩)
    (Runs.of_run [.start ⟨true,.created,[],0⟩,.begin 0,.poll,.stop,.mark] (by decide)) rfl
    (Runs.tail (.start ⟨true,.created,[],0⟩) Runs.refl (by simp) rfl)

/-! A stop and a datagram of somebody else. -/

/-- The application waits for a thread that has ended. -/
structure Lost (s : State) : Prop where
  mserv : s.mserv = .stopping
  main : ∃ sock, s.main = .knocking sock
  ended : ∀ x ∈ s.instances, x.Ended

theorem step_lost {s t : State} {e : Event} (hs : Lost s) (h : step s e = some t) : Lost t := by
  rcases s with ⟨mserv,main,ret,instances,fds,stopPort⟩
  rcases hs with ⟨rfl,⟨sock,rfl⟩,hended⟩
  cases e with
  | begin i | free i | idle i => simp [step,moveThread_ended hended] at h
  | wake i | close i =>
    simp only [step] at h
    split at h
    · simp [moveThread_ended hended] at h
    · cases h
  | knock arrives =>
    have hsame := deliver_ended stopPort hended
    cases arrives <;> cases h
    · exact ⟨rfl,⟨sock,rfl⟩,hended⟩
    · exact ⟨rfl,⟨sock,rfl⟩,fun x hx => hended x (hsame ▸ hx)⟩
  | stray i =>
    simp only [step] at h
    split at h <;> cases h
    rename_i x hx
    have hsame := deliver_ended x.stopSock hended
    exact ⟨rfl,⟨sock,rfl⟩,fun x hx => hended x (hsame ▸ hx)⟩
  | start env | poll | stop | mark | openSock ok => cases h

/-- While the application is between looking at the state of the server and changing it, the
datagram of a stranger can end the thread; `StopMiniServer` then never comes back. -/
theorem stopMiniServer_lost {s : State} (h : Runs step Undisturbed State.init s)
    (hmain : s.main = .marking) :
    ∃ i t u, step s (.stray i) = some t ∧ Runs step Undisturbed t u ∧
      ∀ v, Runs step free u v → Lost v := by
  have hp := runs_phase h
  cases hp with
  | down hdown _ => cases hdown <;> cases hmain
  | @live mserv main ret pre x fds stopPort socks hended hlive =>
    cases hmain
    cases hlive
    rcases deliver_last stopPort hended ⟨socks,stopPort,.selecting,0,0⟩ with ⟨k,hdeliver,hk⟩
    have hpos : 0 < k := hk rfl rfl
    have hstray : step ⟨.running,.marking,ret,pre++[⟨socks,stopPort,.selecting,0,0⟩],fds,stopPort⟩
        (.stray pre.length) = some ⟨.running,.marking,ret,
          pre++[⟨socks,stopPort,.selecting,k,0⟩],fds,stopPort⟩ := by
      simp [step,hdeliver]
    have hwake : step ⟨.running,.marking,ret,pre++[⟨socks,stopPort,.selecting,k,0⟩],fds,stopPort⟩
        (.wake pre.length) = some ⟨.running,.marking,ret,
          pre++[⟨socks,stopPort,.closing,k-1,0⟩],fds,stopPort⟩ := by
      simp [step,moveThread_here,hpos]
    have hclose : step ⟨.running,.marking,ret,pre++[⟨socks,stopPort,.closing,k-1,0⟩],fds,stopPort⟩
        (.close pre.length) = some ⟨.running,.marking,ret,
          pre++[⟨socks,stopPort,.freeing,k-1,0⟩],fds.close socks,stopPort⟩ := by
      simp [step,moveThread_here]
    have hidle : step ⟨.running,.marking,ret,pre++[⟨socks,stopPort,.leaving,k-1,1⟩],fds.close socks,
        stopPort⟩ (.idle pre.length) = some ⟨.idle,.marking,ret,
          pre++[⟨socks,stopPort,.ended,k-1,1⟩],fds.close socks,stopPort⟩ := by
      simp [step,moveThread_here]
    have hend : Runs step Undisturbed _ _ :=
      Runs.tail (.wake pre.length) .refl ⟨trivial,by simp,by simp⟩ hwake
    have hend := hend.tail (Event.close pre.length) ⟨trivial,by simp,by simp⟩ hclose
    have hend := hend.tail (Event.free pre.length) ⟨trivial,by simp,by simp⟩ (moveThread_here rfl _)
    have hend := hend.tail (Event.idle pre.length) ⟨trivial,by simp,by simp⟩ hidle
    have hend := hend.tail Event.mark ⟨trivial,by simp,by simp⟩ rfl
    have hend := hend.tail (Event.openSock true) ⟨trivial,by simp,by simp⟩ rfl
    refine ⟨_,_,_,hstray,hend,fun v hv => hv.invariant ⟨rfl,⟨_,rfl⟩,fun y hy => ?_⟩ ?_⟩
    · rcases List.mem_append.mp hy with hy | hy
      · exact hended y hy
      · rw [List.mem_singleton.mp hy]
        exact ⟨rfl,rfl⟩
    · exact fun _ _ _ hs _ hstep => step_lost hs hstep

theorem stopMiniServer_lost_lan :
    ∃ i t u, step ⟨.running,.marking,0,[⟨[0],0,.selecting,0,0⟩],⟨1,[]⟩,0⟩ (.stray i) = some t ∧
      Runs step Undisturbed t u ∧ ∀ v, Runs step free u v → Lost v :=
  stopMiniServer_lost
    (Runs.of_run [.start ⟨true,.created,[],0⟩,.begin 0,.poll,.stop] (by decide)) rfl

end MiniServer
end CtrlPt
