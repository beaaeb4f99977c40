import CtrlPt.CText
import CtrlPt.Lib.MessageDigest

/-! `md5.c`. A `UINT4` is an `unsigned long`: its width is a parameter of the model. -/
namespace CtrlPt
namespace Uuid

open MessageDigest

variable {w : ℕ}

def md5F (x y z : BitVec w) : BitVec w := (x &&& y) ||| (~~~x &&& z)
def md5G (x y z : BitVec w) : BitVec w := (x &&& z) ||| (y &&& ~~~z)
def md5H (x y z : BitVec w) : BitVec w := x ^^^ y ^^^ z
def md5I (x y z : BitVec w) : BitVec w := y ^^^ (x ||| ~~~z)

def rotateLeft (x : BitVec w) (n : ℕ) : BitVec w := (x <<< n) ||| (x >>> (32-n))

inductive Macro
  | FF | GG | HH | II
  deriving DecidableEq, Repr

def Macro.basic : Macro → BitVec w → BitVec w → BitVec w → BitVec w
  | .FF => md5F
  | .GG => md5G
  | .HH => md5H
  | .II => md5I

/-- What a macro leaves in its first argument. -/
def Macro.value (m : Macro) (a b c d x : BitVec w) (s : ℕ) (ac : BitVec w) : BitVec w :=
  rotateLeft (a+(m.basic b c d+x+ac)) s+b

/-- The local variables of `MD5Transform` that the macros change. -/
inductive Var
  | a | b | c | d
  deriving DecidableEq, Repr

def get (s : Words w) : Var → BitVec w
  | .a => s.a
  | .b => s.b
  | .c => s.c
  | .d => s.d

def set (s : Words w) (v : BitVec w) : Var → Words w
  | .a => { s with a := v }
  | .b => { s with b := v }
  | .c => { s with c := v }
  | .d => { s with d := v }

/-- One use of a macro, with its arguments. -/
structure MacroCall where
  name : Macro
  a : Var
  b : Var
  c : Var
  d : Var
  x : ℕ
  s : ℕ
  ac : ℕ
  deriving DecidableEq, Repr

def MacroCall.exec (x : ℕ → BitVec w) (s : Words w) (m : MacroCall) : Words w :=
  set s (m.name.value (get s m.a) (get s m.b) (get s m.c) (get s m.d) (x m.x) m.s
    (BitVec.ofNat w m.ac)) m.a

def s11 : ℕ := 7
def s12 : ℕ := 12
def s13 : ℕ := 17
def s14 : ℕ := 22
def s21 : ℕ := 5
def s22 : ℕ := 9
def s23 : ℕ := 14
def s24 : ℕ := 20
def s31 : ℕ := 4
def s32 : ℕ := 11
def s33 : ℕ := 16
def s34 : ℕ := 23
def s41 : ℕ := 6
def s42 : ℕ := 10
def s43 : ℕ := 15
def s44 : ℕ := 21

/-- The body of `MD5Transform`, in its order. -/
def transformCalls : List MacroCall :=
  [⟨.FF,.a,.b,.c,.d,0,s11,0xd76aa478⟩,⟨.FF,.d,.a,.b,.c,1,s12,0xe8c7b756⟩,
    ⟨.FF,.c,.d,.a,.b,2,s13,0x242070db⟩,⟨.FF,.b,.c,.d,.a,3,s14,0xc1bdceee⟩,
    ⟨.FF,.a,.b,.c,.d,4,s11,0xf57c0faf⟩,⟨.FF,.d,.a,.b,.c,5,s12,0x4787c62a⟩,
    ⟨.FF,.c,.d,.a,.b,6,s13,0xa8304613⟩,⟨.FF,.b,.c,.d,.a,7,s14,0xfd469501⟩,
    ⟨.FF,.a,.b,.c,.d,8,s11,0x698098d8⟩,⟨.FF,.d,.a,.b,.c,9,s12,0x8b44f7af⟩,
    ⟨.FF,.c,.d,.a,.b,10,s13,0xffff5bb1⟩,⟨.FF,.b,.c,.d,.a,11,s14,0x895cd7be⟩,
    ⟨.FF,.a,.b,.c,.d,12,s11,0x6b901122⟩,⟨.FF,.d,.a,.b,.c,13,s12,0xfd987193⟩,
    ⟨.FF,.c,.d,.a,.b,14,s13,0xa679438e⟩,⟨.FF,.b,.c,.d,.a,15,s14,0x49b40821⟩,
    ⟨.GG,.a,.b,.c,.d,1,s21,0xf61e2562⟩,⟨.GG,.d,.a,.b,.c,6,s22,0xc040b340⟩,
    ⟨.GG,.c,.d,.a,.b,11,s23,0x265e5a51⟩,⟨.GG,.b,.c,.d,.a,0,s24,0xe9b6c7aa⟩,
    ⟨.GG,.a,.b,.c,.d,5,s21,0xd62f105d⟩,⟨.GG,.d,.a,.b,.c,10,s22,0x2441453⟩,
    ⟨.GG,.c,.d,.a,.b,15,s23,0xd8a1e681⟩,⟨.GG,.b,.c,.d,.a,4,s24,0xe7d3fbc8⟩,
    ⟨.GG,.a,.b,.c,.d,9,s21,0x21e1cde6⟩,⟨.GG,.d,.a,.b,.c,14,s22,0xc33707d6⟩,
    ⟨.GG,.c,.d,.a,.b,3,s23,0xf4d50d87⟩,⟨.GG,.b,.c,.d,.a,8,s24,0x455a14ed⟩,
    ⟨.GG,.a,.b,.c,.d,13,s21,0xa9e3e905⟩,⟨.GG,.d,.a,.b,.c,2,s22,0xfcefa3f8⟩,
    ⟨.GG,.c,.d,.a,.b,7,s23,0x676f02d9⟩,⟨.GG,.b,.c,.d,.a,12,s24,0x8d2a4c8a⟩,
    ⟨.HH,.a,.b,.c,.d,5,s31,0xfffa3942⟩,⟨.HH,.d,.a,.b,.c,8,s32,0x8771f681⟩,
    ⟨.HH,.c,.d,.a,.b,11,s33,0x6d9d6122⟩,⟨.HH,.b,.c,.d,.a,14,s34,0xfde5380c⟩,
    ⟨.HH,.a,.b,.c,.d,1,s31,0xa4beea44⟩,⟨.HH,.d,.a,.b,.c,4,s32,0x4bdecfa9⟩,
    ⟨.HH,.c,.d,.a,.b,7,s33,0xf6bb4b60⟩,⟨.HH,.b,.c,.d,.a,10,s34,0xbebfbc70⟩,
    ⟨.HH,.a,.b,.c,.d,13,s31,0x289b7ec6⟩,⟨.HH,.d,.a,.b,.c,0,s32,0xeaa127fa⟩,
    ⟨.HH,.c,.d,.a,.b,3,s33,0xd4ef3085⟩,⟨.HH,.b,.c,.d,.a,6,s34,0x4881d05⟩,
    ⟨.HH,.a,.b,.c,.d,9,s31,0xd9d4d039⟩,⟨.HH,.d,.a,.b,.c,12,s32,0xe6db99e5⟩,
    ⟨.HH,.c,.d,.a,.b,15,s33,0x1fa27cf8⟩,⟨.HH,.b,.c,.d,.a,2,s34,0xc4ac5665⟩,
    ⟨.II,.a,.b,.c,.d,0,s41,0xf4292244⟩,⟨.II,.d,.a,.b,.c,7,s42,0x432aff97⟩,
    ⟨.II,.c,.d,.a,.b,14,s43,0xab9423a7⟩,⟨.II,.b,.c,.d,.a,5,s44,0xfc93a039⟩,
    ⟨.II,.a,.b,.c,.d,12,s41,0x655b59c3⟩,⟨.II,.d,.a,.b,.c,3,s42,0x8f0ccc92⟩,
    ⟨.II,.c,.d,.a,.b,10,s43,0xffeff47d⟩,⟨.II,.b,.c,.d,.a,1,s44,0x85845dd1⟩,
    ⟨.II,.a,.b,.c,.d,8,s41,0x6fa87e4f⟩,⟨.II,.d,.a,.b,.c,15,s42,0xfe2ce6e0⟩,
    ⟨.II,.c,.d,.a,.b,6,s43,0xa3014314⟩,⟨.II,.b,.c,.d,.a,13,s44,0x4e0811a1⟩,
    ⟨.II,.a,.b,.c,.d,4,s41,0xf7537e82⟩,⟨.II,.d,.a,.b,.c,11,s42,0xbd3af235⟩,
    ⟨.II,.c,.d,.a,.b,2,s43,0x2ad7d2bb⟩,⟨.II,.b,.c,.d,.a,9,s44,0xeb86d391⟩]

def encodeWord (x : BitVec w) : List UInt8 :=
  [(x >>> 0 &&& 0xff).toNat.toUInt8,(x >>> 8 &&& 0xff).toNat.toUInt8,
    (x >>> 16 &&& 0xff).toNat.toUInt8,(x >>> 24 &&& 0xff).toNat.toUInt8]

def decode (input : List UInt8) (i : ℕ) : BitVec w :=
  (BitVec.ofNat w (input.getD (4*i) 0).toNat <<< 0) |||
    (BitVec.ofNat w (input.getD (4*i+1) 0).toNat <<< 8) |||
    (BitVec.ofNat w (input.getD (4*i+2) 0).toNat <<< 16) |||
    (BitVec.ofNat w (input.getD (4*i+3) 0).toNat <<< 24)

def md5Transform (state : Words w) (block : List UInt8) : Words w :=
  state.add (transformCalls.foldl (MacroCall.exec (decode block)) state)

/-- An `MD5_CTX`; the buffer has 64 bytes. -/
structure Md5Ctx (w : ℕ) where
  state : Words w
  count0 : BitVec w
  count1 : BitVec w
  buffer : List UInt8
  deriving DecidableEq, Repr

def md5Init (context : Md5Ctx w) : Md5Ctx w :=
  { context with
    count0 := 0
    count1 := 0
    state := ⟨0x67452301,0xefcdab89,0x98badcfe,0x10325476⟩ }

def md5Memcpy (output : List UInt8) (index : ℕ) (input : List UInt8) : List UInt8 :=
  output.take index++input++output.drop (index+input.length)

/-- One round of the loop over the whole blocks of the input. -/
def transformRound (input : List UInt8) (s : ℕ × Words w) : (ℕ × Words w) ⊕ (ℕ × Words w) :=
  if s.1+63 < input.length then .inl (s.1+64,md5Transform s.2 ((input.drop s.1).take 64))
  else .inr s

/-- The loop ends before an index wraps, for an input that is 63 bytes shorter than an `unsigned
int` counts. -/
def md5Update (context : Md5Ctx w) (input : List UInt8) : Md5Ctx w :=
  let index := ((context.count0 >>> 3) &&& 0x3F).toNat
  let bits := BitVec.ofNat w input.length <<< 3
  let count0 := context.count0+bits
  let carried := if count0 < bits then context.count1+1 else context.count1
  let count1 := carried+(BitVec.ofNat w input.length >>> 29)
  let partLen := 64-index
  if partLen ≤ input.length then
    let buffer := md5Memcpy context.buffer index (input.take partLen)
    let s := Loop.run (fun s : ℕ × Words w => input.length-s.1) (transformRound input) id
      (partLen,md5Transform context.state buffer)
    ⟨s.2,count0,count1,md5Memcpy buffer 0 (input.drop s.1)⟩
  else ⟨context.state,count0,count1,md5Memcpy context.buffer index input⟩

def padding : List UInt8 := 0x80::List.replicate 63 0

/-- The digest, and the context, of which nothing is left. -/
def md5Final (context : Md5Ctx w) : List UInt8 × Md5Ctx w :=
  let bits := encodeWord context.count0++encodeWord context.count1
  let index := ((context.count0 >>> 3) &&& 0x3f).toNat
  let padLen := if index < 56 then 56-index else 120-index
  let c := md5Update (md5Update context (padding.take padLen)) bits
  (encodeWord c.state.a++encodeWord c.state.b++encodeWord c.state.c++encodeWord c.state.d,
    ⟨⟨0,0,0,0⟩,0,0,List.replicate 64 0⟩)

/-- The digest of an input that comes in pieces. -/
def md5Digest (context : Md5Ctx w) (pieces : List (List UInt8)) : List UInt8 :=
  (md5Final (pieces.foldl md5Update (md5Init context))).1

def md5Start : Words w := ⟨0x67452301,0xefcdab89,0x98badcfe,0x10325476⟩

theorem and_mask {n : ℕ} (hn : n ≤ w) (x : BitVec w) :
    (x &&& BitVec.ofNat w (2^n-1)).toNat = x.toNat % 2^n := by
  have hlt : 2^n-1 < 2^w :=
    Nat.lt_of_lt_of_le (Nat.sub_one_lt (Nat.two_pow_pos n).ne') (Nat.pow_le_pow_right (by omega) hn)
  rw [BitVec.toNat_and,BitVec.toNat_ofNat,Nat.mod_eq_of_lt hlt,Nat.and_two_pow_sub_one_eq_mod]

theorem index_eq (hw : 32 ≤ w) (n : ℕ) :
    ((BitVec.ofNat w (8*n) >>> 3) &&& 0x3F).toNat = n % 64 := by
  have hdvd : 2^9 ∣ 2^w := pow_dvd_pow 2 (by omega)
  have hmod : 8*n % 2^w % 2^9 = 8*n % 2^9 := Nat.mod_mod_of_dvd _ hdvd
  have hmask := and_mask (show 6 ≤ w by omega) (BitVec.ofNat w (8*n) >>> 3)
  rw [BitVec.toNat_ushiftRight,BitVec.toNat_ofNat,Nat.shiftRight_eq_div_pow] at hmask
  refine hmask.trans ?_
  omega

theorem shiftLeft_three (n : ℕ) : BitVec.ofNat w n <<< 3 = BitVec.ofNat w (8*n) := by
  apply BitVec.eq_of_toNat_eq
  rw [BitVec.toNat_shiftLeft,BitVec.toNat_ofNat,BitVec.toNat_ofNat,Nat.shiftLeft_eq,Nat.mod_mul_mod,
    Nat.mul_comm]

theorem md5Memcpy_length {output input : List UInt8} {index : ℕ}
    (h : index+input.length ≤ output.length) :
    (md5Memcpy output index input).length = output.length := by
  simp only [md5Memcpy,List.length_append,List.length_take,List.length_drop]
  omega

theorem md5Memcpy_take {output input : List UInt8} {index : ℕ}
    (h : index+input.length ≤ output.length) :
    (md5Memcpy output index input).take (index+input.length) = output.take index++input := by
  apply List.take_left'
  rw [List.length_append,List.length_take]
  omega

theorem md5Memcpy_start {output input : List UInt8} (h : input.length ≤ output.length) :
    (md5Memcpy output 0 input).take input.length = input := by
  have htake := @md5Memcpy_take output input 0 (by omega)
  rwa [List.take_zero,List.nil_append,Nat.zero_add] at htake

theorem transformRound_eq (input : List UInt8) :
    transformRound (w := w) input = Blocks.round 64 md5Transform input := rfl

/-- The loop takes all whole blocks behind `i`. -/
theorem transformLoop_eq (input : List UInt8) (i : ℕ) (state : Words w) :
    (Loop.run (fun s : ℕ × Words w => input.length-s.1) (transformRound input) id (i,state)).2 =
        Blocks.absorbed 64 md5Transform state (input.drop i) ∧
      input.drop (Loop.run (fun s : ℕ × Words w => input.length-s.1) (transformRound input) id
        (i,state)).1 = Blocks.leftOver 64 (input.drop i) := by
  rw [transformRound_eq]
  exact Blocks.run_round (by decide) md5Transform input (i,state)

/-- The context behind the bytes `l`: the state behind the blocks, and the rest in the buffer. -/
structure Holds (context : Md5Ctx w) (l : List UInt8) : Prop where
  taken : Blocks.Taken 64 md5Transform md5Start l context.state
    (context.buffer.take (l.length % 64))
  size : context.buffer.length = 64
  count : context.count0 = BitVec.ofNat w (8*l.length)

theorem Holds.init {context : Md5Ctx w} (h : context.buffer.length = 64) :
    Holds (md5Init context) [] :=
  ⟨Blocks.Taken.nil (by decide) _ _,h,rfl⟩

theorem Holds.update (hw : 32 ≤ w) {context : Md5Ctx w} {l : List UInt8} (h : Holds context l)
    (m : List UInt8) : Holds (md5Update context m) (l++m) := by
  have hsize := h.size
  have hr : l.length % 64 < 64 := Nat.mod_lt _ (by decide)
  have hcount : context.count0+(BitVec.ofNat w m.length <<< 3) =
      BitVec.ofNat w (8*(l++m).length) := by
    rw [h.count,shiftLeft_three,← BitVec.ofNat_add,List.length_append,Nat.mul_add]
  have hrest : (context.buffer.take (l.length % 64)).length = l.length % 64 := by
    rw [List.length_take]
    omega
  have htaken := h.taken.append (by decide) m
  have hindex : ((context.count0 >>> 3) &&& 0x3F).toNat = l.length % 64 := by
    rw [h.count,index_eq hw]
  unfold md5Update
  simp only [hindex]
  split
  · rename_i hfull
    have hp : (m.take (64-l.length % 64)).length = 64-l.length % 64 := by
      rw [List.length_take]
      omega
    have hbuf : md5Memcpy context.buffer (l.length % 64) (m.take (64-l.length % 64)) =
        context.buffer.take (l.length % 64)++m.take (64-l.length % 64) := by
      rw [md5Memcpy,hp,Nat.add_sub_of_le hr.le,← hsize,List.drop_length,List.append_nil]
    have hblock : (context.buffer.take (l.length % 64)++m.take (64-l.length % 64)).length = 64 := by
      rw [List.length_append,hrest,hp]
      omega
    have hcut : context.buffer.take (l.length % 64)++m =
        (context.buffer.take (l.length % 64)++m.take (64-l.length % 64))++
          m.drop (64-l.length % 64) := by
      rw [List.append_assoc,List.take_append_drop]
    rw [hcut,Blocks.absorbed_block (by decide) _ _ hblock,
      Blocks.leftOver_block (by decide) hblock,← hbuf] at htaken
    rcases transformLoop_eq m (64-l.length % 64) (md5Transform context.state
      (md5Memcpy context.buffer (l.length % 64) (m.take (64-l.length % 64)))) with ⟨hs,hd⟩
    rw [← hs,← hd] at htaken
    have hleft := htaken.rest_length
    have hlt := htaken.rest_lt (by decide)
    have hlong : (md5Memcpy context.buffer (l.length % 64) (m.take (64-l.length % 64))).length =
        64 := by
      rw [hbuf,hblock]
    refine ⟨?_,?_,hcount⟩
    · dsimp only
      rw [← hleft,md5Memcpy_start (by omega)]
      exact htaken
    · dsimp only
      rw [md5Memcpy_length (by omega),hlong]
  · rename_i hshort
    have hsum : (l++m).length % 64 = l.length % 64+m.length := by
      rw [List.length_append]
      omega
    have hlt : (context.buffer.take (l.length % 64)++m).length < 64 := by
      rw [List.length_append,hrest]
      omega
    rw [Blocks.absorbed_short hlt,Blocks.leftOver_short hlt] at htaken
    refine ⟨?_,?_,hcount⟩
    · dsimp only
      rw [hsum,md5Memcpy_take (by omega)]
      exact htaken
    · dsimp only
      rw [md5Memcpy_length (by omega),hsize]

theorem Holds.pieces (hw : 32 ≤ w) {context : Md5Ctx w} {l : List UInt8} (h : Holds context l)
    (pieces : List (List UInt8)) :
    Holds (pieces.foldl md5Update context) (l++pieces.flatten) := by
  induction pieces generalizing context l with
  | nil => simpa using h
  | cons p pieces ih => simpa using ih (h.update hw p)

theorem bytesOf_mod (n k m : ℕ) (h : 2^(8*n) ∣ m) : bytesOf n (k % m) = bytesOf n k := by
  induction n generalizing k m with
  | zero => rfl
  | succ n ih =>
    obtain ⟨c,rfl⟩ := h
    have hpow : 2^(8*(n+1))*c = 256*(2^(8*n)*c) := by
      rw [Nat.mul_add_one,pow_add]
      ring
    rw [hpow,bytesOf,bytesOf,Nat.mod_mul_right_mod,Nat.mod_mul_right_div_self,
      ih _ _ (Nat.dvd_mul_right _ _)]

theorem bytesOf_add (m n k : ℕ) : bytesOf (m+n) k = bytesOf m k++bytesOf n (k/2^(8*m)) := by
  induction m generalizing k with
  | zero => simp [bytesOf]
  | succ m ih =>
    rw [Nat.succ_add,bytesOf,ih,bytesOf,List.cons_append,Nat.div_div_eq_div_mul,Nat.mul_add_one,
      pow_add,show (2:ℕ)^8 = 256 from rfl,Nat.mul_comm 256]

theorem encodeWord_eq (hw : 32 ≤ w) (x : BitVec w) : encodeWord x = bytesOf 4 x.toNat := by
  have hbyte : ∀ n : ℕ, (x >>> n &&& 0xff).toNat = x.toNat/2^n % 256 := by
    intro n
    have hmask := and_mask (show 8 ≤ w by omega) (x >>> n)
    rw [BitVec.toNat_ushiftRight,Nat.shiftRight_eq_div_pow] at hmask
    exact hmask
  simp only [encodeWord,hbyte,bytesOf,Nat.div_div_eq_div_mul]
  norm_num

/-- The two counts are the length in bits, of which 64 bits are kept. Where a word has more than
32 bits nothing is carried into the second one. -/
def Counted (context : Md5Ctx w) (n : ℕ) : Prop :=
  (w = 32 → context.count1.toNat = 8*n/2^32 % 2^32) ∧ (n < 2^29 → context.count1 = 0)

theorem Counted.update (hw : 32 ≤ w) {context : Md5Ctx w} {l : List UInt8} (h : Holds context l)
    (hc : Counted context l.length) {m : List UInt8} (hm : m.length < 2^32) :
    Counted (md5Update context m) (l++m).length := by
  have hcount1 : (md5Update context m).count1 =
      (if context.count0+(BitVec.ofNat w m.length <<< 3) < BitVec.ofNat w m.length <<< 3 then
        context.count1+1 else context.count1)+(BitVec.ofNat w m.length >>> 29) := by
    unfold md5Update
    dsimp only
    split <;> rfl
  rw [Counted,hcount1,h.count,shiftLeft_three,← BitVec.ofNat_add,List.length_append]
  constructor
  · rintro rfl
    have h1 := hc.1 rfl
    have hlt : BitVec.ofNat 32 (8*l.length+8*m.length) < BitVec.ofNat 32 (8*m.length) ↔
        2^32 ≤ 8*l.length % 2^32+8*m.length % 2^32 := by
      rw [BitVec.lt_def,BitVec.toNat_ofNat,BitVec.toNat_ofNat]
      omega
    have hshift : (BitVec.ofNat 32 m.length >>> 29).toNat = m.length/2^29 := by
      rw [BitVec.toNat_ushiftRight,BitVec.toNat_ofNat,Nat.shiftRight_eq_div_pow,
        Nat.mod_eq_of_lt hm]
    split
    · rename_i hover
      rw [hlt] at hover
      rw [BitVec.toNat_add,BitVec.toNat_add,h1,hshift]
      have hone : (1 : BitVec 32).toNat = 1 := rfl
      rw [hone]
      omega
    · rename_i hover
      rw [hlt] at hover
      rw [BitVec.toNat_add,h1,hshift]
      omega
  · intro hn
    have hpow : 2^32 ≤ 2^w := Nat.pow_le_pow_right (by decide) hw
    have hl : 8*l.length+8*m.length < 2^w := by omega
    have hnot : ¬BitVec.ofNat w (8*l.length+8*m.length) < BitVec.ofNat w (8*m.length) := by
      rw [BitVec.lt_def,BitVec.toNat_ofNat,BitVec.toNat_ofNat,Nat.mod_eq_of_lt hl,
        Nat.mod_eq_of_lt (by omega)]
      omega
    have hshift : BitVec.ofNat w m.length >>> 29 = 0 := by
      apply BitVec.eq_of_toNat_eq
      rw [BitVec.toNat_ushiftRight,BitVec.toNat_ofNat,Nat.shiftRight_eq_div_pow,
        Nat.mod_eq_of_lt (by omega),Nat.div_eq_of_lt (by omega)]
      rfl
    rw [if_neg hnot,hc.2 (by omega),hshift]
    exact BitVec.add_zero _

theorem Counted.pieces (hw : 32 ≤ w) {context : Md5Ctx w} {l : List UInt8} (h : Holds context l)
    (hc : Counted context l.length) {pieces : List (List UInt8)}
    (hp : ∀ p ∈ pieces, p.length < 2^32) :
    Counted (pieces.foldl md5Update context) (l++pieces.flatten).length := by
  induction pieces generalizing context l with
  | nil => simpa using hc
  | cons p pieces ih =>
    have hc' := hc.update hw h (hp p (by simp))
    simpa using ih (h.update hw p) hc' fun q hq => hp q (by simp [hq])

/-- The whole length is known where a word has 32 bits, and that of a short input everywhere. -/
def LengthKnown (w : ℕ) (n : ℕ) : Prop := w = 32 ∨ n < 2^29

theorem length_bytes (hw : 32 ≤ w) {context : Md5Ctx w} {l : List UInt8} (h : Holds context l)
    (hc : Counted context l.length) (hn : LengthKnown w l.length) :
    encodeWord context.count0++encodeWord context.count1 = bytesOf 8 (8*l.length % 2^64) := by
  have hdvd : 2^(8*4) ∣ 2^w := pow_dvd_pow 2 (by omega)
  rw [encodeWord_eq hw,encodeWord_eq hw,h.count,BitVec.toNat_ofNat,bytesOf_mod 4 _ _ hdvd,
    show (8 : ℕ) = 4+4 from rfl,bytesOf_add,bytesOf_mod (4) _ _ (by norm_num)]
  congr 1
  rcases hn with rfl | hn
  · rw [hc.1 rfl,bytesOf_mod 4 _ _ (by norm_num)]
    rw [show (2:ℕ)^64 = 2^(8*4)*2^32 by norm_num,Nat.mod_mul_right_div_self,
      bytesOf_mod 4 _ _ (by norm_num)]
  · rw [hc.2 hn,Nat.mod_eq_of_lt (by omega),Nat.div_eq_of_lt (by omega)]
    rfl

def encodeWords (s : Words w) : List UInt8 :=
  encodeWord s.a++encodeWord s.b++encodeWord s.c++encodeWord s.d

theorem padding_take {n : ℕ} (h0 : 0 < n) (h : n ≤ 64) :
    padding.take n = 0x80::List.replicate (n-1) 0 := by
  obtain ⟨k,rfl⟩ := Nat.exists_eq_succ_of_ne_zero (Nat.pos_iff_ne_zero.mp h0)
  rw [padding,List.take_succ_cons,List.take_replicate,Nat.min_eq_left (by omega)]
  rfl

/-- The digest of a padded message, in one piece. -/
def paddedDigest (w : ℕ) (message : List UInt8) : List UInt8 :=
  encodeWords (Blocks.absorbed 64 md5Transform (md5Start : Words w) (padded message))

/-- What is put behind the message is its padding. -/
theorem md5Final_eq (hw : 32 ≤ w) {context : Md5Ctx w} {l : List UInt8} (h : Holds context l)
    (hc : Counted context l.length) (hn : LengthKnown w l.length) :
    (md5Final context).1 = paddedDigest w l := by
  have hindex : ((context.count0 >>> 3) &&& 0x3f).toNat = l.length % 64 := by
    rw [h.count,index_eq hw]
  have hpad : (if l.length % 64 < 56 then 56-l.length % 64 else 120-l.length % 64) =
      padLength l.length := rfl
  have hfinal := (h.update hw (padding.take (padLength l.length))).update hw
    (bytesOf 8 (8*l.length % 2^64))
  rw [padding_take (padLength_pos _) (padLength_le _)] at hfinal
  unfold md5Final
  dsimp only
  rw [hindex,hpad,length_bytes hw h hc hn,padding_take (padLength_pos _) (padLength_le _)]
  exact congrArg encodeWords hfinal.taken.state

theorem md5Digest_padded (hw : 32 ≤ w) {context : Md5Ctx w} (hsize : context.buffer.length = 64)
    {pieces : List (List UInt8)} (hp : ∀ p ∈ pieces, p.length+63 < 2^32)
    (hn : LengthKnown w pieces.flatten.length) :
    md5Digest context pieces = paddedDigest w pieces.flatten := by
  have hinit : Holds (md5Init context) [] := Holds.init hsize
  have hzero : Counted (md5Init context) ([] : List UInt8).length := ⟨fun _ => rfl,fun _ => rfl⟩
  have hc := Counted.pieces hw hinit hzero fun p hpm =>
    Nat.lt_of_le_of_lt (Nat.le_add_right _ 63) (hp p hpm)
  exact md5Final_eq hw (hinit.pieces hw pieces) hc hn

/-- An input has one digest, however it is cut into pieces and whatever the context held. -/
theorem md5Digest_pieces (hw : 32 ≤ w) {context context' : Md5Ctx w}
    (hsize : context.buffer.length = 64) (hsize' : context'.buffer.length = 64)
    {pieces pieces' : List (List UInt8)} (heq : pieces.flatten = pieces'.flatten)
    (hp : ∀ p ∈ pieces, p.length+63 < 2^32) (hp' : ∀ p ∈ pieces', p.length+63 < 2^32)
    (hn : LengthKnown w pieces.flatten.length) :
    md5Digest context pieces = md5Digest context' pieces' := by
  rw [md5Digest_padded hw hsize hp hn,md5Digest_padded hw hsize' hp' (heq ▸ hn),heq]

def emptyCtx (w : ℕ) : Md5Ctx w := ⟨⟨0,0,0,0⟩,0,0,List.replicate 64 0⟩

theorem md5Digest_pieces_two :
    LengthKnown 64 3 ∧ md5Digest (emptyCtx 64) [CText.cstr "a",CText.cstr "bc"] =
      md5Digest (emptyCtx 64) [CText.cstr "abc"] :=
  ⟨.inr (by decide),md5Digest_pieces (by decide) List.length_replicate List.length_replicate rfl
    (by decide) (by decide) (.inr (by decide))⟩

def callOf (i : ℕ) : MacroCall :=
  let vars : Var × Var × Var × Var := match i % 4 with
    | 0 => (.a,.b,.c,.d)
    | 1 => (.d,.a,.b,.c)
    | 2 => (.c,.d,.a,.b)
    | _ => (.b,.c,.d,.a)
  ⟨match i/16 with
    | 0 => .FF
    | 1 => .GG
    | 2 => .HH
    | _ => .II,vars.1,vars.2.1,vars.2.2.1,vars.2.2.2,wordIndex i,shift i,sines.getD i 0⟩

theorem transformCalls_eq : transformCalls = (List.range 64).map callOf := by decide

/-- The macros change their variables in turn; in the specification the words move on. -/
def turned (i : ℕ) (s : Words w) : Words w :=
  match i % 4 with
  | 0 => s
  | 1 => ⟨s.d,s.a,s.b,s.c⟩
  | 2 => ⟨s.c,s.d,s.a,s.b⟩
  | _ => ⟨s.b,s.c,s.d,s.a⟩

theorem rotateLeft_eq (x : BitVec 32) {n : ℕ} (h : n < 32) : rotateLeft x n = x.rotateLeft n := by
  rw [BitVec.rotateLeft_def,Nat.mod_eq_of_lt h,rotateLeft]

theorem shift_lt {i : ℕ} (h : i < 64) : shift i < 32 := by
  have hall : ∀ i < 64, shift i < 32 := by decide
  exact hall i h

theorem basic_callOf {i : ℕ} (h : i < 64) (x y z : BitVec 32) :
    (callOf i).name.basic x y z = auxiliary i x y z := by
  have h4 : i/16 = 0 ∨ i/16 = 1 ∨ i/16 = 2 ∨ i/16 = 3 := by omega
  rcases h4 with h4 | h4 | h4 | h4 <;> simp only [callOf,auxiliary,h4] <;> rfl

theorem exec_callOf {i : ℕ} (h : i < 64) (x : ℕ → BitVec 32) (s : Words 32) :
    turned (i+1) ((callOf i).exec x s) = step x (turned i s) i := by
  have hvalue : ∀ a b c d : BitVec 32, (callOf i).name.value a b c d (x (callOf i).x) (callOf i).s
      (BitVec.ofNat 32 (callOf i).ac) = b+(a+auxiliary i b c d+x (wordIndex i)+
        BitVec.ofNat 32 (sines.getD i 0)).rotateLeft (shift i) := by
    intro a b c d
    rw [Macro.value,basic_callOf h,show (callOf i).s = shift i from rfl,
      rotateLeft_eq _ (shift_lt h),BitVec.add_comm _ b,← BitVec.add_assoc,← BitVec.add_assoc]
    rfl
  have h4 : i % 4 = 0 ∨ i % 4 = 1 ∨ i % 4 = 2 ∨ i % 4 = 3 := by omega
  rw [MacroCall.exec,hvalue]
  rcases h4 with h4 | h4 | h4 | h4
  · have hi : (i+1) % 4 = 1 := by omega
    simp only [turned,step,callOf,h4,hi,get,set]
  · have hi : (i+1) % 4 = 2 := by omega
    simp only [turned,step,callOf,h4,hi,get,set]
  · have hi : (i+1) % 4 = 3 := by omega
    simp only [turned,step,callOf,h4,hi,get,set]
  · have hi : (i+1) % 4 = 0 := by omega
    simp only [turned,step,callOf,h4,hi,get,set]

theorem calls_eq (x : ℕ → BitVec 32) (s : Words 32) {n : ℕ} (hn : n ≤ 64) :
    turned n (((List.range n).map callOf).foldl (MacroCall.exec x) s) =
      (List.range n).foldl (step x) s := by
  induction n with
  | zero => rfl
  | succ n ih =>
    rw [List.range_succ,List.map_append,List.foldl_append,List.foldl_append,List.map_singleton,
      List.foldl_cons,List.foldl_nil,List.foldl_cons,List.foldl_nil,exec_callOf (by omega),
      ih (by omega)]

theorem shifted_or {a b n : ℕ} (h : a < 2^n) : a ||| b <<< n = a+2^n*b := by
  rw [Nat.or_comm,← Nat.shiftLeft_add_eq_or_of_lt h,Nat.shiftLeft_eq,Nat.mul_comm,Nat.add_comm]

theorem bytes_or {b₀ b₁ b₂ b₃ : ℕ} (h₀ : b₀ < 2^8) (h₁ : b₁ < 2^8) (h₂ : b₂ < 2^8) :
    b₀ ||| b₁ <<< 8 ||| b₂ <<< 16 ||| b₃ <<< 24 = b₀+2^8*b₁+2^16*b₂+2^24*b₃ := by
  have h01 : b₀+2^8*b₁ < 2^16 := by omega
  have h012 : b₀+2^8*b₁+2^16*b₂ < 2^24 := by omega
  rw [shifted_or h₀,shifted_or h01,shifted_or h012]

theorem decode_eq (input : List UInt8) : (decode input : ℕ → BitVec 32) = word input := by
  funext i
  have hbyte : ∀ k, (input.getD k 0).toNat < 2^8 := fun k => UInt8.toNat_lt _
  have hmod : ∀ k n : ℕ, n ≤ 24 → (input.getD k 0).toNat <<< n % 2^32 =
      (input.getD k 0).toNat <<< n := by
    intro k n hn
    apply Nat.mod_eq_of_lt
    have hp := Nat.pow_le_pow_right (show 0 < 2 by decide) hn
    have hb := hbyte k
    rw [Nat.shiftLeft_eq]
    nlinarith
  have hself : ∀ k, (input.getD k 0).toNat % 2^32 = (input.getD k 0).toNat := fun k =>
    Nat.mod_eq_of_lt (by have hb := hbyte k; omega)
  apply BitVec.eq_of_toNat_eq
  rw [decode,word,BitVec.toNat_or,BitVec.toNat_or,BitVec.toNat_or,BitVec.toNat_shiftLeft,
    BitVec.toNat_shiftLeft,BitVec.toNat_shiftLeft,BitVec.toNat_shiftLeft,BitVec.toNat_ofNat,
    BitVec.toNat_ofNat,BitVec.toNat_ofNat,BitVec.toNat_ofNat,BitVec.toNat_ofNat,hself,hself,hself,
    hself,hmod _ 0 (by decide),hmod _ 8 (by decide),hmod _ 16 (by decide),hmod _ 24 (by decide)]
  rw [Nat.shiftLeft_zero,bytes_or (hbyte _) (hbyte _) (hbyte _),Nat.mod_eq_of_lt]
  have h0 := hbyte (4*i)
  have h1 := hbyte (4*i+1)
  have h2 := hbyte (4*i+2)
  have h3 := hbyte (4*i+3)
  omega

theorem md5Transform_eq (state : Words 32) (block : List UInt8) :
    md5Transform state block = compress state block := by
  have h := calls_eq (word block) state (n := 64) le_rfl
  rw [md5Transform,compress,decode_eq,transformCalls_eq,← h]
  rfl

/-- With words of 32 bits `md5.c` is MD5. -/
theorem md5Digest_eq_digest {context : Md5Ctx 32} (hsize : context.buffer.length = 64)
    {pieces : List (List UInt8)} (hp : ∀ p ∈ pieces, p.length+63 < 2^32) :
    md5Digest context pieces = digest pieces.flatten := by
  have htransform : (md5Transform : Words 32 → List UInt8 → Words 32) = compress := by
    funext s b
    exact md5Transform_eq s b
  rw [md5Digest_padded le_rfl hsize hp (.inl rfl),paddedDigest,htransform,digest]
  simp only [encodeWords,Words.bytes,encodeWord_eq le_rfl]
  rfl

theorem md5Digest_eq_digest_two :
    md5Digest (emptyCtx 32) [CText.cstr "a",CText.cstr "bc"] = digest (CText.cstr "abc") :=
  md5Digest_eq_digest List.length_replicate (by decide)

end Uuid
end CtrlPt
