import CtrlPt.Thread.Pool
import CtrlPt.Uuid.Md5

/-! `uuid.c` and `sysdep.c`: identifiers made of the time, a clock sequence and a node. -/
namespace CtrlPt
namespace Uuid

open CText Thread

abbrev UuidNode := {l : List UInt8 // l.length = 6}

structure UuidUpnp where
  timeLow : BitVec 32
  timeMid : BitVec 16
  timeHiAndVersion : BitVec 16
  clockSeqHiAndReserved : BitVec 8
  clockSeqLow : BitVec 8
  node : UuidNode
  deriving DecidableEq

def formatUuidV1 (clockSeq : BitVec 16) (timestamp : BitVec 64) (node : UuidNode) : UuidUpnp where
  timeLow := (timestamp &&& 0xFFFFFFFF).setWidth 32
  timeMid := ((timestamp >>> 32) &&& 0xFFFF).setWidth 16
  timeHiAndVersion := ((timestamp >>> 48) &&& 0x0FFF).setWidth 16 ||| 1 <<< 12
  clockSeqLow := (clockSeq &&& 0xFF).setWidth 8
  clockSeqHiAndReserved := ((clockSeq &&& 0x3F00) >>> 8).setWidth 8 ||| 0x80
  node := node

def printHex (n k : ℕ) : List UInt8 :=
  List.replicate (n-(printNumeral 16 k).length) 48++printNumeral 16 k

def uuidUnpack (u : UuidUpnp) : List UInt8 :=
  printHex 8 u.timeLow.toNat++cstr "-"++printHex 4 u.timeMid.toNat++cstr "-"++
    printHex 4 u.timeHiAndVersion.toNat++cstr "-"++printHex 2 u.clockSeqHiAndReserved.toNat++
    printHex 2 u.clockSeqLow.toNat++cstr "-"++u.node.1.flatMap fun c => printHex 2 c.toNat

def uuidsPerTick : ℕ := 1024

/-- Ticks of 100 ns since October 15, 1582. -/
def getSystemTime (tp : Timeval) : BitVec 64 :=
  BitVec.ofInt 64 (tp.sec*10000000+tp.usec*10+0x01B21DD213814000)

/-- What `get_random_info` leaves in its seed. The context it starts from does not matter. -/
def getRandomInfo (r : List UInt8) : List UInt8 := md5Digest (emptyCtx 64) [r]

structure UuidState where
  ts : BitVec 64
  node : UuidNode
  cs : BitVec 16
  deriving DecidableEq

/-- The static variables. `st` is there when `stateInited` is set. -/
structure Generator where
  inited : Bool
  uuidsThisTick : ℕ
  timeLast : BitVec 64
  savedNode : Option UuidNode
  st : Option UuidState
  nextSave : BitVec 64
  deriving DecidableEq

def Generator.init : Generator := ⟨false,0,0,none,none,0⟩

/-- The loop of `get_current_time` spins as long as it has readings of the clock. -/
def spin (tick : ℕ) (timeLast : BitVec 64) : List Timeval → Option (ℕ × BitVec 64)
  | [] => none
  | tp::readings =>
    if timeLast ≠ getSystemTime tp then some (0,getSystemTime tp)
    else if tick < uuidsPerTick then some (tick+1,getSystemTime tp)
    else spin tick timeLast readings

def getCurrentTime (g : Generator) (readings : List Timeval) : Option (BitVec 64 × Generator) :=
  (spin (if g.inited then g.uuidsThisTick else uuidsPerTick) g.timeLast readings).map fun s =>
    (s.2+BitVec.ofNat 64 s.1,{ g with
      inited := true
      uuidsThisTick := s.1
      timeLast := s.2+BitVec.ofNat 64 s.1 })

@[simp] theorem encodeWords_length {w : ℕ} (s : MessageDigest.Words w) :
    (encodeWords s).length = 16 := rfl

@[simp] theorem getRandomInfo_length (r : List UInt8) : (getRandomInfo r).length = 16 :=
  encodeWords_length _

@[simp] theorem seed_length (r : List UInt8) :
    (((getRandomInfo r).set 0 ((getRandomInfo r).headD 0 ||| 0x80)).take 6).length = 6 := by
  rw [List.length_take,List.length_set,getRandomInfo_length]
  rfl

def seedNode (r : List UInt8) : UuidNode :=
  ⟨((getRandomInfo r).set 0 ((getRandomInfo r).headD 0 ||| 0x80)).take 6,seed_length r⟩

def getIeeeNodeIdentifier (g : Generator) (randomness : List UInt8) : UuidNode × Generator :=
  let node := g.savedNode.getD (seedNode randomness)
  (node,{ g with savedNode := some node })

/-- Ten seconds. -/
def saveInterval : BitVec 64 := 10*10*1000*1000

def writeState (g : Generator) (clockseq : BitVec 16) (timestamp : BitVec 64) (node : UuidNode) :
    Generator :=
  let nextSave := if g.st.isNone then timestamp else g.nextSave
  { g with
    st := some ⟨timestamp,node,clockseq⟩
    nextSave := if nextSave ≤ timestamp then timestamp+saveInterval else nextSave }

/-- What a call takes from the system: the readings of the clock, the bytes that are hashed and a
random number. -/
structure CreateEnv where
  readings : List Timeval
  randomness : List UInt8
  trueRandom : BitVec 16
  deriving DecidableEq, Repr

/-- `none` when the clock stands still. -/
def uuidCreate (g : Generator) (env : CreateEnv) : Option (UuidUpnp × Generator) :=
  (getCurrentTime g env.readings).map fun r =>
    let timestamp := r.1
    let n := getIeeeNodeIdentifier r.2 env.randomness
    let clockseq := match n.2.st with
      | none => env.trueRandom
      | some last =>
        if n.1 ≠ last.node then env.trueRandom
        else if timestamp < last.ts then last.cs+1
        else last.cs
    (formatUuidV1 clockseq timestamp n.1,writeState n.2 clockseq timestamp n.1)

/-- The identifiers of one call after the other. -/
def creates (g : Generator) : List CreateEnv → Option (List UuidUpnp × Generator)
  | [] => some ([],g)
  | env::envs => do
    let r ← uuidCreate g env
    let s ← creates r.2 envs
    return (r.1::s.1,s.2)

def UuidUpnp.time (u : UuidUpnp) : ℕ :=
  u.timeLow.toNat+2^32*u.timeMid.toNat+2^48*(u.timeHiAndVersion.toNat % 2^12)

def UuidUpnp.clockSeq (u : UuidUpnp) : ℕ :=
  u.clockSeqLow.toNat+2^8*(u.clockSeqHiAndReserved.toNat % 2^6)

@[simp] theorem formatUuidV1_time (clockSeq : BitVec 16) (timestamp : BitVec 64) (node : UuidNode) :
    (formatUuidV1 clockSeq timestamp node).time = timestamp.toNat % 2^60 := by
  have hlow : ((timestamp &&& 0xFFFFFFFF).setWidth 32).toNat = timestamp.toNat % 2^32 := by
    rw [BitVec.toNat_setWidth,show (0xFFFFFFFF : BitVec 64) = BitVec.ofNat 64 (2^32-1) from rfl,
      and_mask (by decide),Nat.mod_mod]
  have hmid : (((timestamp >>> 32) &&& 0xFFFF).setWidth 16).toNat =
      timestamp.toNat/2^32 % 2^16 := by
    rw [BitVec.toNat_setWidth,show (0xFFFF : BitVec 64) = BitVec.ofNat 64 (2^16-1) from rfl,
      and_mask (by decide),Nat.mod_mod,BitVec.toNat_ushiftRight,Nat.shiftRight_eq_div_pow]
  have hhi : (((timestamp >>> 48) &&& 0x0FFF).setWidth 16).toNat =
      timestamp.toNat/2^48 % 2^12 := by
    rw [BitVec.toNat_setWidth,show (0x0FFF : BitVec 64) = BitVec.ofNat 64 (2^12-1) from rfl,
      and_mask (by decide),BitVec.toNat_ushiftRight,Nat.shiftRight_eq_div_pow]
    omega
  have hver : (((timestamp >>> 48) &&& 0x0FFF).setWidth 16 ||| (1 : BitVec 16) <<< 12).toNat % 2^12 =
      timestamp.toNat/2^48 % 2^12 := by
    rw [BitVec.toNat_or,hhi,show ((1 : BitVec 16) <<< 12).toNat = 1 <<< 12 from rfl,
      shifted_or (Nat.mod_lt _ (by decide))]
    omega
  simp only [UuidUpnp.time,formatUuidV1]
  rw [hlow,hmid]
  refine (congrArg _ (congrArg _ hver)).trans ?_
  omega

@[simp] theorem formatUuidV1_clockSeq (clockSeq : BitVec 16) (timestamp : BitVec 64) (node : UuidNode) :
    (formatUuidV1 clockSeq timestamp node).clockSeq = clockSeq.toNat % 2^14 := by
  have hlow : ((clockSeq &&& 0xFF).setWidth 8).toNat = clockSeq.toNat % 2^8 := by
    rw [BitVec.toNat_setWidth,show (0xFF : BitVec 16) = BitVec.ofNat 16 (2^8-1) from rfl,
      and_mask (by decide),Nat.mod_mod]
  have hhi : (((clockSeq &&& 0x3F00) >>> 8).setWidth 8).toNat = clockSeq.toNat/2^8 % 2^6 := by
    rw [BitVec.ushiftRight_and_distrib,
      show (0x3F00 : BitVec 16) >>> 8 = BitVec.ofNat 16 (2^6-1) from rfl,BitVec.toNat_setWidth,
      and_mask (by decide),BitVec.toNat_ushiftRight,Nat.shiftRight_eq_div_pow]
    omega
  have hvar : (((clockSeq &&& 0x3F00) >>> 8).setWidth 8 ||| (0x80 : BitVec 8)).toNat % 2^6 =
      clockSeq.toNat/2^8 % 2^6 := by
    rw [BitVec.toNat_or,hhi,show (0x80 : BitVec 8).toNat = 2 <<< 6 from rfl,
      shifted_or (Nat.mod_lt _ (by decide))]
    omega
  simp only [UuidUpnp.clockSeq,formatUuidV1]
  rw [hlow]
  refine (congrArg _ (congrArg _ hvar)).trans ?_
  omega

/-- What an identifier was made of, apart from the node. -/
structure Stamp where
  ts : BitVec 64
  cs : BitVec 16
  deriving DecidableEq

def Stamp.uuid (node : UuidNode) (s : Stamp) : UuidUpnp := formatUuidV1 s.cs s.ts node

/-- A timestamp that goes back changes the clock sequence. -/
def Follows (s t : Stamp) : Prop := t.ts < s.ts ∧ t.cs = s.cs+1 ∨ s.ts < t.ts ∧ t.cs = s.cs

/-- How often a list of times goes back. -/
def setbacks : List ℕ → ℕ
  | t::u::l => (if u < t then 1 else 0)+setbacks (u::l)
  | _ => 0

def Stamp.times (l : List Stamp) : List ℕ := l.map fun s => s.ts.toNat

/-- The sequence has moved on, by the setbacks at most; where it has not, the time has. -/
theorem follows_later {s : Stamp} {l : List Stamp} (h : (s::l).IsChain Follows) {t : Stamp}
    (ht : t ∈ l) : ∃ d ≤ setbacks (Stamp.times (s::l)), t.cs = s.cs+BitVec.ofNat 16 d ∧
      (d = 0 → s.ts < t.ts) := by
  induction l generalizing s with
  | nil => cases ht
  | cons u l ih =>
    rw [List.isChain_cons_cons] at h
    obtain ⟨d,hd,hcs,hts⟩ : ∃ d ≤ setbacks (Stamp.times (u::l)), t.cs = u.cs+BitVec.ofNat 16 d ∧
        (d = 0 → u.ts ≤ t.ts) := by
      rcases List.mem_cons.mp ht with rfl | ht
      · exact ⟨0,Nat.zero_le _,(BitVec.add_zero _).symm,fun _ => BitVec.le_refl _⟩
      · rcases ih h.2 ht with ⟨d,hd,hcs,hts⟩
        exact ⟨d,hd,hcs,fun h0 => BitVec.le_of_lt (hts h0)⟩
    have hset : setbacks (Stamp.times (s::u::l)) =
        (if u.ts.toNat < s.ts.toNat then 1 else 0)+setbacks (Stamp.times (u::l)) := rfl
    rw [hset]
    rcases h.1 with ⟨hback,hseq⟩ | ⟨hon,hseq⟩
    · refine ⟨d+1,?_,?_,fun h0 => absurd h0 (Nat.succ_ne_zero d)⟩
      · rw [if_pos (BitVec.lt_def.mp hback)]
        omega
      · rw [hcs,hseq,BitVec.add_assoc,Nat.add_comm d 1,BitVec.ofNat_add]
        rfl
    · refine ⟨d,by omega,by rw [hcs,hseq],fun h0 => ?_⟩
      exact BitVec.lt_def.mpr (Nat.lt_of_lt_of_le (BitVec.lt_def.mp hon) (BitVec.le_def.mp (hts h0)))

/-- Two of them that are that close differ in the clock sequence or in the time. -/
theorem follows_uuid_ne {node : UuidNode} {s t : Stamp} {l : List Stamp}
    (h : (s::l).IsChain Follows) (ht : t ∈ l)
    (hset : setbacks (Stamp.times (s::l)) < 2^14) (hera : s.ts.toNat < 2^60 ∧ t.ts.toNat < 2^60) :
    s.uuid node ≠ t.uuid node := by
  intro he
  rcases follows_later h ht with ⟨d,hd,hcs,hts⟩
  have hclock := congrArg UuidUpnp.clockSeq he
  have htime := congrArg UuidUpnp.time he
  rw [Stamp.uuid,Stamp.uuid,formatUuidV1_clockSeq,formatUuidV1_clockSeq,hcs,BitVec.toNat_add,
    BitVec.toNat_ofNat] at hclock
  rw [Stamp.uuid,Stamp.uuid,formatUuidV1_time,formatUuidV1_time,Nat.mod_eq_of_lt hera.1,
    Nat.mod_eq_of_lt hera.2] at htime
  have hd0 : d = 0 := by omega
  have hlt := BitVec.lt_def.mp (hts hd0)
  omega

theorem follows_nodup {node : UuidNode} {l : List Stamp} (h : l.IsChain Follows)
    (hset : setbacks (Stamp.times l) < 2^14) (hera : ∀ s ∈ l, s.ts.toNat < 2^60) :
    (l.map (Stamp.uuid node)).Nodup := by
  induction l with
  | nil => exact List.nodup_nil
  | cons s l ih =>
    have htail : setbacks (Stamp.times l) ≤ setbacks (Stamp.times (s::l)) := by
      cases l with
      | nil => exact Nat.zero_le _
      | cons u l => exact Nat.le_add_left _ _
    rw [List.map_cons,List.nodup_cons]
    refine ⟨fun hm => ?_,ih h.tail (by omega) fun t ht => hera t (.tail _ ht)⟩
    rcases List.mem_map.mp hm with ⟨t,ht,he⟩
    exact follows_uuid_ne h ht hset ⟨hera s (.head _),hera t (.tail _ ht)⟩ he.symm

/-- The state that is saved is that of the last identifier. -/
structure Ready (g : Generator) : Prop where
  last : ∀ st ∈ g.st, g.timeLast = st.ts ∧ g.savedNode = some st.node

theorem Ready.init : Ready Generator.init := ⟨fun _ h => by cases h⟩

/-- A reading of the clock and the ticks that are added to it. -/
theorem spin_spec {tick tick' : ℕ} {timeLast now : BitVec 64} {readings : List Timeval}
    (h : spin tick timeLast readings = some (tick',now)) :
    (∃ tp ∈ readings, now = getSystemTime tp) ∧ tick' ≤ uuidsPerTick ∧
      (timeLast ≠ now ∧ tick' = 0 ∨ timeLast = now ∧ 0 < tick') := by
  induction readings with
  | nil => cases h
  | cons tp readings ih =>
    unfold spin at h
    split at h
    · rename_i hne
      cases h
      exact ⟨⟨tp,.head _,rfl⟩,Nat.zero_le _,.inl ⟨hne,rfl⟩⟩
    · rename_i heq
      split at h
      · rename_i hlt
        cases h
        exact ⟨⟨tp,.head _,rfl⟩,hlt,.inr ⟨not_not.mp heq,Nat.succ_pos _⟩⟩
      · rcases ih h with ⟨⟨tp',hm,he⟩,hrest⟩
        exact ⟨⟨tp',.tail _ hm,he⟩,hrest⟩

/-- The time is not the last one. -/
theorem getCurrentTime_spec {g g' : Generator} {readings : List Timeval} {timestamp : BitVec 64}
    (h : getCurrentTime g readings = some (timestamp,g')) :
    timestamp ≠ g.timeLast ∧ g'.timeLast = timestamp ∧ g'.st = g.st ∧ g'.savedNode = g.savedNode ∧
      ∃ tp ∈ readings, ∃ tick ≤ uuidsPerTick,
        timestamp = getSystemTime tp+BitVec.ofNat 64 tick := by
  rcases Option.map_eq_some_iff.mp h with ⟨⟨tick,now⟩,hs,he⟩
  cases he
  rcases spin_spec hs with ⟨⟨tp,htp,rfl⟩,hle,hcase⟩
  refine ⟨fun heq => ?_,rfl,rfl,rfl,tp,htp,tick,hle,rfl⟩
  dsimp only at heq
  rcases hcase with ⟨hne,rfl⟩ | ⟨hlast,hpos⟩
  · exact hne (heq.symm.trans (BitVec.add_zero _))
  · rw [hlast] at heq
    have hz := congrArg BitVec.toNat heq
    rw [BitVec.toNat_add,BitVec.toNat_ofNat] at hz
    unfold uuidsPerTick at hle
    omega

/-- A call makes an identifier of a stamp that follows the last one. -/
theorem uuidCreate_spec {g g' : Generator} {env : CreateEnv} {u : UuidUpnp} (hg : Ready g)
    (h : uuidCreate g env = some (u,g')) :
    ∃ s : Stamp, ∃ node, u = s.uuid node ∧ g'.st = some ⟨s.ts,node,s.cs⟩ ∧ Ready g' ∧
      (∀ last ∈ g.st, node = last.node ∧ Follows ⟨last.ts,last.cs⟩ s) ∧
      ∃ tp ∈ env.readings, ∃ tick ≤ uuidsPerTick, s.ts = getSystemTime tp+BitVec.ofNat 64 tick := by
  rcases Option.map_eq_some_iff.mp h with ⟨⟨timestamp,g₁⟩,hs,he⟩
  rcases getCurrentTime_spec hs with ⟨hne,hlast,hst,hnode,htime⟩
  dsimp only [getIeeeNodeIdentifier] at he
  rw [hst,hnode] at he
  cases he
  cases hsaved : g.st with
  | none =>
    refine ⟨⟨timestamp,env.trueRandom⟩,_,rfl,rfl,⟨fun st hst' => ?_⟩,fun last hl => ?_,htime⟩
    · cases hst'
      exact ⟨hlast,rfl⟩
    · cases hl
  | some last =>
    rcases hg.last last hsaved with ⟨htl,hsn⟩
    have hsame : g.savedNode.getD (seedNode env.randomness) = last.node := by
      rw [hsn]
      rfl
    refine ⟨⟨timestamp,if timestamp < last.ts then last.cs+1 else last.cs⟩,last.node,?_,?_,
      ⟨fun st hst' => ?_⟩,fun last' hl => ?_,htime⟩
    · simp [hsame,Stamp.uuid]
    · simp [hsame,writeState]
    · cases hst'
      exact ⟨hlast,rfl⟩
    · cases hl
      refine ⟨rfl,?_⟩
      rw [htl] at hne
      by_cases hback : timestamp < last.ts
      · exact .inl ⟨hback,if_pos hback⟩
      · refine .inr ⟨?_,if_neg hback⟩
        have hle := BitVec.not_lt.mp hback
        exact BitVec.lt_of_le_ne hle hne.symm

theorem creates_spec {g g' : Generator} {envs : List CreateEnv} {us : List UuidUpnp} (hg : Ready g)
    (h : creates g envs = some (us,g')) :
    Ready g' ∧ ∃ stamps : List Stamp, ∃ node, us = stamps.map (Stamp.uuid node) ∧
      stamps.IsChain Follows ∧
      (∀ last ∈ g.st, us ≠ [] → node = last.node) ∧
      (∀ last ∈ g.st, ∀ s ∈ stamps.head?, Follows ⟨last.ts,last.cs⟩ s) ∧
      ∀ s ∈ stamps, ∃ env ∈ envs, ∃ tp ∈ env.readings, ∃ tick ≤ uuidsPerTick,
        s.ts = getSystemTime tp+BitVec.ofNat 64 tick := by
  induction envs generalizing g us with
  | nil =>
    cases h
    refine ⟨hg,[],seedNode [],rfl,.nil,fun _ _ hne => absurd rfl hne,?_,?_⟩
    · rintro _ _ _ ⟨⟩
    · rintro _ ⟨⟩
  | cons env envs ih =>
    rcases Option.bind_eq_some_iff.mp h with ⟨⟨u,g₁⟩,hu,h⟩
    rcases Option.bind_eq_some_iff.mp h with ⟨⟨vs,g₂⟩,hv,h⟩
    cases h
    rcases uuidCreate_spec hg hu with ⟨s,node,hsu,hst,hready,hfollows,tp,htp,htick⟩
    rcases ih hready hv with ⟨hready',stamps,node',hvs,hchain,hnode,hhead,htimes⟩
    have hvs' : vs = stamps.map (Stamp.uuid node) := by
      by_cases hne : vs = []
      · rw [hne] at hvs ⊢
        rw [List.map_eq_nil_iff.mp hvs.symm]
        rfl
      · rw [hvs,hnode _ hst hne]
    refine ⟨hready',s::stamps,node,?_,?_,fun last hl _ => (hfollows last hl).1,fun last hl t ht => ?_,
      fun t ht => ?_⟩
    · rw [List.map_cons,hsu,hvs']
    · exact List.isChain_cons.mpr ⟨fun t ht => hhead _ hst t ht,hchain⟩
    · cases ht
      exact (hfollows last hl).2
    · rcases List.mem_cons.mp ht with rfl | ht
      · exact ⟨env,.head _,tp,htp,htick⟩
      · rcases htimes t ht with ⟨env',he,hrest⟩
        exact ⟨env',.tail _ he,hrest⟩

def hexDigits : ℕ → ℕ → List UInt8
  | 0, _ => []
  | n+1, k => digitChar (k/16^n % 16)::hexDigits n k

theorem hexDigits_mod (n k : ℕ) {m : ℕ} (h : n ≤ m) : hexDigits n (k % 16^m) = hexDigits n k := by
  induction n with
  | zero => rfl
  | succ n ih =>
    have hdvd : 16^(n+1) ∣ 16^m := pow_dvd_pow 16 h
    have hq : k % 16^m/16^n % 16 = k/16^n % 16 := by
      rw [← Nat.mod_mul_right_div_self,← Nat.mod_mul_right_div_self (m := k),← pow_succ,
        Nat.mod_mod_of_dvd _ hdvd]
    rw [hexDigits,hexDigits,hq,ih (by omega)]

theorem hexDigits_last (n k : ℕ) :
    hexDigits (n+1) k = hexDigits n (k/16)++[digitChar (k % 16)] := by
  induction n with
  | zero => simp [hexDigits]
  | succ n ih =>
    rw [hexDigits,ih,hexDigits,Nat.div_div_eq_div_mul,← pow_succ']
    rfl

@[simp] theorem hexDigits_zero (n : ℕ) : hexDigits n 0 = List.replicate n 48 := by
  induction n with
  | zero => rfl
  | succ n ih =>
    rw [hexDigits,ih,Nat.zero_div]
    rfl

theorem printNumeral_small {k : ℕ} (h : k < 16) : printNumeral 16 k = [digitChar k] := by
  revert k
  decide

theorem printNumeral_last {k : ℕ} (h : 16 ≤ k) :
    printNumeral 16 k = printNumeral 16 (k/16)++[digitChar (k % 16)] := by
  have hq : k/16 ≠ 0 := by omega
  rw [printNumeral,printNumeral,if_neg (by omega),if_neg hq,
    Nat.digits_def' (by decide) (by omega),List.map_cons,List.reverse_cons]

/-- A number that fits is printed with as many digits as are asked for. -/
theorem printHex_eq {n k : ℕ} (h : k < 16^(n+1)) : printHex (n+1) k = hexDigits (n+1) k := by
  induction n generalizing k with
  | zero =>
    have hk : k < 16 := by simpa using h
    rw [printHex,printNumeral_small hk,hexDigits,hexDigits,pow_zero,Nat.div_one,Nat.mod_eq_of_lt hk]
    rfl
  | succ n ih =>
    rw [hexDigits_last]
    by_cases hk : k < 16
    · rw [printHex,printNumeral_small hk,Nat.div_eq_of_lt hk,hexDigits_zero,Nat.mod_eq_of_lt hk]
      rfl
    · have hq : k/16 < 16^(n+1) := Nat.div_lt_of_lt_mul (by rw [← pow_succ']; exact h)
      rw [← ih hq,printHex,printHex,printNumeral_last (by omega),List.length_append,
        List.length_singleton,Nat.add_sub_add_right,List.append_assoc]

theorem digitChar_lt {a b : ℕ} (ha : a < 16) (hb : b < 16) :
    (digitChar a).toNat < (digitChar b).toNat ↔ a < b := by
  have hall : ∀ a < 16, ∀ b < 16, (digitChar a).toNat < (digitChar b).toNat ↔ a < b := by decide
  exact hall a ha b hb

theorem digitChar_ne_nul {a : ℕ} (ha : a < 16) : digitChar a ≠ 0 := by
  revert a
  decide

def check (f₁ f₂ : ℕ) (next : ℤ) : ℤ := if f₁ ≠ f₂ then if f₁ < f₂ then -1 else 1 else next

theorem strncmp_cons {c d : UInt8} (hc : c ≠ 0) (l m : List UInt8) (n : ℕ) :
    (strncmp (c::l) (d::m) (n+1)).sign = check c.toNat d.toNat (strncmp l m n).sign := by
  have hstep : strncmp (c::l) (d::m) (n+1) =
      if c ≠ d then (c.toNat : ℤ)-d.toNat else if c = 0 then 0 else strncmp l m n := rfl
  rw [hstep]
  by_cases h : c = d
  · rw [if_neg (not_not.mpr h),if_neg hc,check,if_neg (not_not.mpr (congrArg UInt8.toNat h))]
  · have hn : c.toNat ≠ d.toNat := fun he => h (UInt8.toNat.inj he)
    rw [if_pos h,check,if_pos hn]
    split
    · exact Int.sign_eq_neg_one_of_neg (by omega)
    · exact Int.sign_eq_one_of_pos (by omega)

/-- Two numbers with the same first digit are compared by the other ones. -/
theorem check_digits {a b p : ℕ} (next : ℤ) :
    check (a/p) (b/p) (check (a % p) (b % p) next) = check a b next := by
  rcases Nat.eq_zero_or_pos p with rfl | hp
  · simp [check]
  have ha := Nat.div_add_mod a p
  have hb := Nat.div_add_mod b p
  unfold check
  by_cases hq : a/p = b/p
  · rw [if_neg (not_not.mpr hq)]
    rw [hq] at ha
    obtain ⟨q,hqv⟩ : ∃ q, q = p*(b/p) := ⟨_,rfl⟩
    rw [← hqv] at ha hb
    have hne : a % p ≠ b % p ↔ a ≠ b := by omega
    have hlt : a % p < b % p ↔ a < b := by omega
    simp only [hne,hlt]
  · have hne : a ≠ b := by
      rintro rfl
      exact hq rfl
    have hlt : a/p < b/p ↔ a < b := by
      refine ⟨fun h => Nat.lt_of_div_lt_div h,fun h => ?_⟩
      exact lt_of_le_of_ne (Nat.div_le_div_right h.le) hq
    rw [if_pos hq,if_pos hne]
    simp only [hlt]

theorem strncmp_hexDigits (n a b : ℕ) (ha : a < 16^n) (hb : b < 16^n) (l m : List UInt8) (k : ℕ) :
    (strncmp (hexDigits n a++l) (hexDigits n b++m) (n+k)).sign =
      check a b (strncmp l m k).sign := by
  induction n generalizing a b with
  | zero =>
    obtain rfl : a = 0 := by simpa using ha
    obtain rfl : b = 0 := by simpa using hb
    rw [Nat.zero_add]
    rfl
  | succ n ih =>
    have hqa : a/16^n < 16 := Nat.div_lt_of_lt_mul (by rw [← pow_succ]; exact ha)
    have hqb : b/16^n < 16 := Nat.div_lt_of_lt_mul (by rw [← pow_succ]; exact hb)
    have hpos : 0 < 16^n := Nat.pow_pos (by decide)
    have hrest := ih (a % 16^n) (b % 16^n) (Nat.mod_lt _ hpos) (Nat.mod_lt _ hpos)
    rw [hexDigits_mod n a le_rfl,hexDigits_mod n b le_rfl] at hrest
    rw [hexDigits,hexDigits,Nat.mod_eq_of_lt hqa,Nat.mod_eq_of_lt hqb,List.cons_append,
      List.cons_append,Nat.add_right_comm,strncmp_cons (digitChar_ne_nul hqa),hrest,
      ← check_digits (a := a) (b := b) (p := 16^n)]
    have hne : (digitChar (a/16^n)).toNat ≠ (digitChar (b/16^n)).toNat ↔ a/16^n ≠ b/16^n := by
      have h1 := digitChar_lt hqa hqb
      have h2 := digitChar_lt hqb hqa
      omega
    simp only [check,hne,digitChar_lt hqa hqb]

theorem strncmp_printHex (n : ℕ) {a b : ℕ} (ha : a < 16^(n+1)) (hb : b < 16^(n+1))
    (l m : List UInt8) (k : ℕ) :
    (strncmp (printHex (n+1) a++l) (printHex (n+1) b++m) (n+1+k)).sign =
      check a b (strncmp l m k).sign := by
  rw [printHex_eq ha,printHex_eq hb]
  exact strncmp_hexDigits (n+1) a b ha hb l m k

def compareNode : List UInt8 → List UInt8 → ℤ
  | c::l, d::m => if c < d then -1 else if d < c then 1 else compareNode l m
  | _, _ => 0

def uuidCompare (u v : UuidUpnp) : ℤ :=
  check u.timeLow.toNat v.timeLow.toNat <| check u.timeMid.toNat v.timeMid.toNat <|
    check u.timeHiAndVersion.toNat v.timeHiAndVersion.toNat <|
      check u.clockSeqHiAndReserved.toNat v.clockSeqHiAndReserved.toNat <|
        check u.clockSeqLow.toNat v.clockSeqLow.toNat <| compareNode u.node.1 v.node.1

theorem strncmp_node {l m : List UInt8} (h : l.length = m.length) :
    (strncmp (l.flatMap fun c => printHex 2 c.toNat) (m.flatMap fun c => printHex 2 c.toNat)
      (2*l.length)).sign = compareNode l m := by
  induction l generalizing m with
  | nil =>
    cases m with
    | nil => rfl
    | cons d m => cases h
  | cons c l ih =>
    cases m with
    | nil => cases h
    | cons d m =>
      have hc : c.toNat < 16^(1+1) := UInt8.toNat_lt c
      have hd : d.toNat < 16^(1+1) := UInt8.toNat_lt d
      have hl : l.length = m.length := by simpa using h
      rw [List.flatMap_cons,List.flatMap_cons,List.length_cons,Nat.mul_add_one,Nat.add_comm,
        strncmp_printHex 1 hc hd,ih hl,compareNode,check]
      have hcd : c < d ↔ c.toNat < d.toNat := UInt8.lt_iff_toNat_lt
      have hdc : d < c ↔ d.toNat < c.toNat := UInt8.lt_iff_toNat_lt
      rw [← ite_not (p := c.toNat ≠ d.toNat)]
      simp only [hcd,hdc,not_not]
      split_ifs <;> first | rfl | omega

theorem strncmp_uuidUnpack (u v : UuidUpnp) :
    (strncmp (uuidUnpack u) (uuidUnpack v) 36).sign = uuidCompare u v := by
  have hdash : ∀ (l m : List UInt8) (n : ℕ), (strncmp (cstr "-"++l) (cstr "-"++m) (1+n)).sign =
      (strncmp l m n).sign := by
    intro l m n
    rw [Nat.add_comm]
    exact (strncmp_cons (by decide) l m n).trans (if_neg (by decide))
  have h2 : ∀ x : BitVec 8, x.toNat < 16^(1+1) := fun x => x.isLt
  have h4 : ∀ x : BitVec 16, x.toNat < 16^(3+1) := fun x => x.isLt
  have h8 : ∀ x : BitVec 32, x.toNat < 16^(7+1) := fun x => x.isLt
  simp only [uuidUnpack,List.append_assoc]
  have hnode := strncmp_node (u.node.2.trans v.node.2.symm)
  rw [u.node.2] at hnode
  rw [uuidCompare,← hnode,show (36 : ℕ) = 7+1+(1+(3+1+(1+(3+1+(1+(1+1+(1+1+(1+2*6)))))))) from rfl,
    strncmp_printHex 7 (h8 _) (h8 _),hdash,strncmp_printHex 3 (h4 _) (h4 _),hdash,
    strncmp_printHex 3 (h4 _) (h4 _),hdash,strncmp_printHex 1 (h2 _) (h2 _),
    strncmp_printHex 1 (h2 _) (h2 _),hdash]

theorem check_eq_zero {f₁ f₂ : ℕ} {next : ℤ} (h : check f₁ f₂ next = 0) : f₁ = f₂ ∧ next = 0 := by
  unfold check at h
  split at h
  · split at h <;> cases h
  · rename_i he
    exact ⟨not_not.mp he,h⟩

theorem compareNode_eq_zero {l m : List UInt8} (hlen : l.length = m.length)
    (h : compareNode l m = 0) : l = m := by
  induction l generalizing m with
  | nil => exact (List.length_eq_zero_iff.mp hlen.symm).symm
  | cons c l ih =>
    cases m with
    | nil => cases hlen
    | cons d m =>
      unfold compareNode at h
      split at h
      · cases h
      · rename_i hcd
        split at h
        · cases h
        · rename_i hdc
          have he : c = d := UInt8.le_antisymm (UInt8.not_lt.mp hdc) (UInt8.not_lt.mp hcd)
          rw [he,ih (by simpa using hlen) h]

/-- Only an identifier itself is no smaller and no larger. -/
theorem uuidCompare_eq_zero {u v : UuidUpnp} (h : uuidCompare u v = 0) : u = v := by
  obtain ⟨hlow,h⟩ := check_eq_zero h
  obtain ⟨hmid,h⟩ := check_eq_zero h
  obtain ⟨hhi,h⟩ := check_eq_zero h
  obtain ⟨hres,h⟩ := check_eq_zero h
  obtain ⟨hseq,h⟩ := check_eq_zero h
  have hnode := compareNode_eq_zero (u.node.2.trans v.node.2.symm) h
  cases u
  cases v
  simp only [UuidUpnp.mk.injEq]
  exact ⟨BitVec.eq_of_toNat_eq hlow,BitVec.eq_of_toNat_eq hmid,BitVec.eq_of_toNat_eq hhi,
    BitVec.eq_of_toNat_eq hres,BitVec.eq_of_toNat_eq hseq,Subtype.ext hnode⟩

@[simp] theorem strncmp_self (l : List UInt8) (n : ℕ) : strncmp l l n = 0 := by
  induction n generalizing l with
  | zero => rfl
  | succ n ih =>
    rw [strncmp,strncmpBy,if_neg (by simp)]
    split
    · rfl
    · exact ih l.tail

theorem uuidUnpack_injective : Function.Injective uuidUnpack := by
  intro u v h
  apply uuidCompare_eq_zero
  rw [← strncmp_uuidUnpack,h,strncmp_self]
  rfl

theorem check_swap (f₁ f₂ : ℕ) (next : ℤ) : check f₂ f₁ (-next) = -check f₁ f₂ next := by
  unfold check
  split_ifs <;> first | rfl | omega

theorem compareNode_swap (l m : List UInt8) (h : l.length = m.length) :
    compareNode m l = -compareNode l m := by
  induction l generalizing m with
  | nil =>
    cases m with
    | nil => rfl
    | cons d m => cases h
  | cons c l ih =>
    cases m with
    | nil => cases h
    | cons d m =>
      have hl := ih m (by simpa using h)
      have hcd : c < d → ¬d < c := fun h₁ h₂ => UInt8.lt_irrefl c (UInt8.lt_trans h₁ h₂)
      unfold compareNode
      split_ifs with h₁ h₂ h₂
      · exact absurd h₁ (hcd h₂)
      · rfl
      · rfl
      · exact hl

/-- Identifiers are ordered as their texts are, and only an identifier itself compares equal. -/
theorem uuidCompare_strncmp (u v : UuidUpnp) :
    (strncmp (uuidUnpack u) (uuidUnpack v) 36).sign = uuidCompare u v ∧
      (uuidCompare u v = 0 ↔ u = v) ∧ uuidCompare v u = -uuidCompare u v := by
  refine ⟨strncmp_uuidUnpack u v,⟨uuidCompare_eq_zero,?_⟩,?_⟩
  · rintro rfl
    rw [← strncmp_uuidUnpack,strncmp_self]
    rfl
  · simp only [uuidCompare,compareNode_swap u.node.1 v.node.1 (u.node.2.trans v.node.2.symm),
      check_swap]

/-- What the calls before have left. -/
def Reachable (g : Generator) : Prop :=
  ∃ envs us, creates Generator.init envs = some (us,g)

/-- A timestamp has 60 bits: they last until the year 5236. -/
def InEra (env : CreateEnv) : Prop :=
  ∀ tp ∈ env.readings, (getSystemTime tp).toNat+uuidsPerTick < 2^60

instance : DecidablePred InEra := fun env =>
  inferInstanceAs (Decidable (∀ tp ∈ env.readings, _))

theorem Reachable.ready {g : Generator} (h : Reachable g) : Ready g := by
  rcases h with ⟨envs,us,h⟩
  exact (creates_spec Ready.init h).1

theorem stamp_era {envs : List CreateEnv} (hera : ∀ env ∈ envs, InEra env) {s : Stamp}
    (h : ∃ env ∈ envs, ∃ tp ∈ env.readings, ∃ tick ≤ uuidsPerTick,
      s.ts = getSystemTime tp+BitVec.ofNat 64 tick) : s.ts.toNat < 2^60 := by
  rcases h with ⟨env,henv,tp,htp,tick,htick,hts⟩
  have hlt := hera env henv tp htp
  unfold uuidsPerTick at hlt htick
  rw [hts,BitVec.toNat_add,BitVec.toNat_ofNat]
  omega

/-- As long as the time has not gone back `2^14` times the texts are different. -/
theorem texts_nodup {g g' : Generator} {envs : List CreateEnv} {us : List UuidUpnp}
    (hg : Reachable g) (h : creates g envs = some (us,g')) (hera : ∀ env ∈ envs, InEra env)
    (hset : setbacks (us.map UuidUpnp.time) < 2^14) : (us.map uuidUnpack).Nodup := by
  rcases creates_spec hg.ready h with ⟨-,stamps,node,rfl,hchain,-,-,htimes⟩
  have hlt : ∀ s ∈ stamps, s.ts.toNat < 2^60 := fun s hs => stamp_era hera (htimes s hs)
  have htime : (stamps.map (Stamp.uuid node)).map UuidUpnp.time = Stamp.times stamps := by
    rw [List.map_map]
    refine List.map_congr_left fun s hs => ?_
    exact (formatUuidV1_time _ _ _).trans (Nat.mod_eq_of_lt (hlt s hs))
  rw [htime] at hset
  exact (follows_nodup hchain hset hlt).map uuidUnpack_injective

/-- Whatever the clock does, no two of the identifiers print alike, and `uuid_compare` tells them
apart. -/
theorem creates_nodup {g g' : Generator} {envs : List CreateEnv} {us : List UuidUpnp}
    (hg : Reachable g) (h : creates g envs = some (us,g')) (hera : ∀ env ∈ envs, InEra env)
    (hset : setbacks (us.map UuidUpnp.time) < 2^14) :
    (us.map uuidUnpack).Nodup ∧ us.Pairwise fun u v => uuidCompare u v ≠ 0 := by
  have hnodup := texts_nodup hg h hera hset
  refine ⟨hnodup,?_⟩
  refine (List.nodup_iff_pairwise_ne.mp hnodup.of_map).imp ?_
  exact fun hne hzero => hne (uuidCompare_eq_zero hzero)

def someEnv : CreateEnv := ⟨[⟨1700000000,0⟩],cstr "host",7⟩

theorem creates_nodup_three : ∃ us g, creates Generator.init (List.replicate 3 someEnv) = some (us,g) ∧
    setbacks (us.map UuidUpnp.time) = 1 ∧
      (us.map uuidUnpack).Nodup ∧ us.Pairwise fun u v => uuidCompare u v ≠ 0 := by
  have h : (creates Generator.init (List.replicate 3 someEnv)).map
      (fun r => setbacks (r.1.map UuidUpnp.time)) = some 1 := by decide
  rcases Option.map_eq_some_iff.mp h with ⟨⟨us,g⟩,hc,hset⟩
  have hera : ∀ env ∈ List.replicate 3 someEnv, InEra env := by decide
  refine ⟨us,g,hc,hset,creates_nodup ⟨[],[],rfl⟩ hc hera ?_⟩
  rw [hset]
  decide

theorem creates_append (g : Generator) (envs envs' : List CreateEnv) :
    creates g (envs++envs') = (creates g envs).bind fun r =>
      (creates r.2 envs').map fun s => (r.1++s.1,s.2) := by
  induction envs generalizing g with
  | nil =>
    show creates g envs' = (creates g envs').map fun s => s
    exact Option.map_id'.symm ▸ rfl
  | cons env envs ih =>
    rw [List.cons_append,creates,creates]
    cases uuidCreate g env with
    | none => rfl
    | some r =>
      simp only [Option.bind_eq_bind,Option.bind_some,ih]
      cases creates r.2 envs with
      | none => rfl
      | some s =>
        simp only [Option.bind_some,pure]
        cases creates s.2 envs' <;> rfl

theorem uuidCreate_again {g g₁ : Generator} {env : CreateEnv} {timestamp : BitVec 64}
    {last : UuidState} (hst : g.st = some last) (hnode : g.savedNode = some last.node)
    (h : getCurrentTime g env.readings = some (timestamp,g₁)) :
    ∃ g', uuidCreate g env = some (formatUuidV1
        (if timestamp < last.ts then last.cs+1 else last.cs) timestamp last.node,g') ∧
      g'.st = some ⟨timestamp,last.node,if timestamp < last.ts then last.cs+1 else last.cs⟩ ∧
      g'.savedNode = some last.node ∧ g'.inited = g₁.inited ∧ g'.timeLast = g₁.timeLast ∧
      g'.uuidsThisTick = g₁.uuidsThisTick := by
  rcases getCurrentTime_spec h with ⟨-,-,hst₁,hnode₁,-⟩
  rw [hst] at hst₁
  rw [hnode] at hnode₁
  refine ⟨writeState { g₁ with savedNode := some last.node }
    (if timestamp < last.ts then last.cs+1 else last.cs) timestamp last.node,?_,rfl,rfl,rfl,rfl,rfl⟩
  simp [uuidCreate,h,getIeeeNodeIdentifier,hst₁,hnode₁]

/-- The last timestamp was the reading of the clock itself. -/
structure Stuck (time : BitVec 64) (node : UuidNode) (cs : BitVec 16) (g : Generator) : Prop where
  inited : g.inited = true
  timeLast : g.timeLast = time
  ticks : g.uuidsThisTick = 0
  savedNode : g.savedNode = some node
  st : g.st = some ⟨time,node,cs⟩

/-- Two calls at one time: the first adds a tick, and the second has to go back. -/
theorem Stuck.two {tp : Timeval} {node : UuidNode} {cs : BitVec 16} {g : Generator}
    (h : Stuck (getSystemTime tp) node cs g) (htp : (getSystemTime tp).toNat+1 < 2^64)
    {env : CreateEnv} (henv : env.readings = [tp]) :
    ∃ u g', creates g [env,env] = some ([u,formatUuidV1 (cs+1) (getSystemTime tp) node],g') ∧
      Stuck (getSystemTime tp) node (cs+1) g' := by
  have hon : getSystemTime tp < getSystemTime tp+1 := by
    rw [BitVec.lt_def,BitVec.toNat_add,show (1 : BitVec 64).toNat = 1 from rfl]
    omega
  have hnot : ¬getSystemTime tp+1 < getSystemTime tp := by
    rw [BitVec.lt_def] at hon ⊢
    omega
  have hne : getSystemTime tp+1 ≠ getSystemTime tp := by
    intro he
    rw [he] at hon
    exact absurd hon (BitVec.lt_irrefl _)
  have htick : getCurrentTime g env.readings = some (getSystemTime tp+1,{ g with
      inited := true
      uuidsThisTick := 1
      timeLast := getSystemTime tp+1 }) := by
    rw [getCurrentTime,henv,spin,h.inited,h.timeLast,h.ticks,if_neg (by simp)]
    rfl
  rcases uuidCreate_again h.st h.savedNode htick with ⟨g₁,hu₁,hst₁,hnode₁,hin₁,hlast₁,-⟩
  rw [if_neg hnot] at hu₁ hst₁
  have hback : getCurrentTime g₁ env.readings = some (getSystemTime tp,{ g₁ with
      inited := true
      uuidsThisTick := 0
      timeLast := getSystemTime tp }) := by
    rw [getCurrentTime,henv,spin,hlast₁,if_pos hne,Option.map_some,BitVec.add_zero]
  rcases uuidCreate_again hst₁ hnode₁ hback with ⟨g₂,hu₂,hst₂,hnode₂,hin₂,hlast₂,hticks₂⟩
  rw [if_pos hon] at hu₂ hst₂
  refine ⟨formatUuidV1 cs (getSystemTime tp+1) node,g₂,?_,hin₂,hlast₂,hticks₂,hnode₂,hst₂⟩
  simp [creates,hu₁,hu₂]

theorem Stuck.many {tp : Timeval} {node : UuidNode} {cs : BitVec 16} {g : Generator}
    (h : Stuck (getSystemTime tp) node cs g) (htp : (getSystemTime tp).toNat+1 < 2^64)
    {env : CreateEnv} (henv : env.readings = [tp]) (n : ℕ) :
    ∃ us g', creates g (List.replicate (2*(n+1)) env) = some (us++[formatUuidV1
        (cs+BitVec.ofNat 16 (n+1)) (getSystemTime tp) node],g') ∧
      Stuck (getSystemTime tp) node (cs+BitVec.ofNat 16 (n+1)) g' := by
  induction n with
  | zero =>
    rcases h.two htp henv with ⟨u,g',hc,hg'⟩
    exact ⟨[u],g',hc,hg'⟩
  | succ n ih =>
    rcases ih with ⟨us,g₁,hc₁,hg₁⟩
    rcases hg₁.two htp henv with ⟨u,g₂,hc₂,hg₂⟩
    have hcs : cs+BitVec.ofNat 16 (n+1)+1 = cs+BitVec.ofNat 16 (n+1+1) := by
      rw [BitVec.add_assoc,BitVec.ofNat_add (n+1) 1]
      rfl
    rw [hcs] at hc₂ hg₂
    refine ⟨us++[formatUuidV1 (cs+BitVec.ofNat 16 (n+1)) (getSystemTime tp) node,u],g₂,?_,hg₂⟩
    rw [Nat.mul_add_one 2 (n+1),List.replicate_add,creates_append,hc₁,Option.bind_some]
    have hc₂' : creates g₁ (List.replicate 2 env) = _ := hc₂
    simp only [hc₂',Option.map_some,List.append_assoc,List.cons_append,List.nil_append]

/-- Only 14 bits of the clock sequence are used. -/
@[simp] theorem formatUuidV1_period (cs : BitVec 16) (time : BitVec 64) (node : UuidNode) :
    formatUuidV1 (cs+BitVec.ofNat 16 (2^14)) time node = formatUuidV1 cs time node := by
  have hlow : (cs+BitVec.ofNat 16 (2^14)) &&& 0xFF = cs &&& 0xFF := by
    apply BitVec.eq_of_toNat_eq
    rw [show (0xFF : BitVec 16) = BitVec.ofNat 16 (2^8-1) from rfl,and_mask (by decide),
      and_mask (by decide),BitVec.toNat_add,BitVec.toNat_ofNat]
    omega
  have hhi : ((cs+BitVec.ofNat 16 (2^14)) &&& 0x3F00) >>> 8 = (cs &&& 0x3F00) >>> 8 := by
    apply BitVec.eq_of_toNat_eq
    rw [BitVec.ushiftRight_and_distrib,BitVec.ushiftRight_and_distrib,
      show (0x3F00 : BitVec 16) >>> 8 = BitVec.ofNat 16 (2^6-1) from rfl,and_mask (by decide),
      and_mask (by decide),BitVec.toNat_ushiftRight,BitVec.toNat_ushiftRight,BitVec.toNat_add,
      BitVec.toNat_ofNat,Nat.shiftRight_eq_div_pow,Nat.shiftRight_eq_div_pow]
    omega
  rw [formatUuidV1,formatUuidV1,hlow,hhi]

/-- The ticks never come to their limit while the clock stands still: the identifier of the
first call is made again. -/
theorem stuckClock_repeats {tp : Timeval} (h0 : getSystemTime tp ≠ 0)
    (htp : (getSystemTime tp).toNat+1 < 2^64) {env : CreateEnv} (henv : env.readings = [tp]) :
    ∃ u us g, creates Generator.init (List.replicate (2^15+1) env) = some (u::us++[u],g) := by
  have hfirst : getCurrentTime Generator.init env.readings = some (getSystemTime tp,
      { Generator.init with
        inited := true
        uuidsThisTick := 0
        timeLast := getSystemTime tp }) := by
    rw [getCurrentTime,henv,spin,if_pos (show Generator.init.timeLast ≠ _ from h0.symm),
      Option.map_some,BitVec.add_zero]
  obtain ⟨node,g,hu,hg⟩ : ∃ node g, uuidCreate Generator.init env =
      some (formatUuidV1 env.trueRandom (getSystemTime tp) node,g) ∧
        Stuck (getSystemTime tp) node env.trueRandom g := by
    refine ⟨seedNode env.randomness,writeState { Generator.init with
      inited := true
      uuidsThisTick := 0
      timeLast := getSystemTime tp
      savedNode := some (seedNode env.randomness) } env.trueRandom (getSystemTime tp)
        (seedNode env.randomness),?_,⟨rfl,rfl,rfl,rfl,rfl⟩⟩
    rw [uuidCreate,hfirst]
    rfl
  rcases hg.many htp henv (2^14-1) with ⟨us,g',hc,-⟩
  have hsum : 2*(2^14-1+1) = 2^15 := by decide
  rw [hsum,show 2^14-1+1 = 2^14 from rfl,formatUuidV1_period] at hc
  generalize 2^15 = n at hc ⊢
  refine ⟨formatUuidV1 env.trueRandom (getSystemTime tp) node,us,g',?_⟩
  rw [List.replicate_succ,creates,hu]
  simp only [Option.bind_eq_bind,Option.bind_some,hc,List.cons_append]
  rfl

theorem stuckClock_repeats_2023 :
    ∃ u us g, creates Generator.init (List.replicate (2^15+1) someEnv) = some (u::us++[u],g) :=
  stuckClock_repeats (show getSystemTime ⟨1700000000,0⟩ ≠ 0 by decide) (by decide) rfl

end Uuid
end CtrlPt
