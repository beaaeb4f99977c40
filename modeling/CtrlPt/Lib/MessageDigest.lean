import CtrlPt.Lib.Blocks
import Mathlib.Data.BitVec

/-! The MD5 message digest, as it is specified: a message that is padded to whole blocks, and 64
steps for every block, each of which turns the four words by one place. -/
namespace CtrlPt
namespace MessageDigest

structure Words (w : ℕ) where
  a : BitVec w
  b : BitVec w
  c : BitVec w
  d : BitVec w
  deriving DecidableEq, Repr

def Words.add {w : ℕ} (x y : Words w) : Words w := ⟨x.a+y.a,x.b+y.b,x.c+y.c,x.d+y.d⟩

def start : Words 32 := ⟨0x67452301,0xefcdab89,0x98badcfe,0x10325476⟩

/-- The function of a step: its number gives the round. -/
def auxiliary {w : ℕ} (i : ℕ) (x y z : BitVec w) : BitVec w :=
  match i/16 with
  | 0 => (x &&& y) ||| (~~~x &&& z)
  | 1 => (x &&& z) ||| (y &&& ~~~z)
  | 2 => x ^^^ y ^^^ z
  | _ => y ^^^ (x ||| ~~~z)

def wordIndex (i : ℕ) : ℕ :=
  match i/16 with
  | 0 => i
  | 1 => (5*i+1) % 16
  | 2 => (3*i+5) % 16
  | _ => 7*i % 16

def shifts : List (List ℕ) := [[7,12,17,22],[5,9,14,20],[4,11,16,23],[6,10,15,21]]

def shift (i : ℕ) : ℕ := (shifts.getD (i/16) []).getD (i % 4) 0

/-- The integer part of `4294967296*|sin (i+1)|`, for each step `i`. -/
def sines : List ℕ :=
  [0xd76aa478,0xe8c7b756,0x242070db,0xc1bdceee,0xf57c0faf,0x4787c62a,0xa8304613,0xfd469501,
    0x698098d8,0x8b44f7af,0xffff5bb1,0x895cd7be,0x6b901122,0xfd987193,0xa679438e,0x49b40821,
    0xf61e2562,0xc040b340,0x265e5a51,0xe9b6c7aa,0xd62f105d,0x02441453,0xd8a1e681,0xe7d3fbc8,
    0x21e1cde6,0xc33707d6,0xf4d50d87,0x455a14ed,0xa9e3e905,0xfcefa3f8,0x676f02d9,0x8d2a4c8a,
    0xfffa3942,0x8771f681,0x6d9d6122,0xfde5380c,0xa4beea44,0x4bdecfa9,0xf6bb4b60,0xbebfbc70,
    0x289b7ec6,0xeaa127fa,0xd4ef3085,0x04881d05,0xd9d4d039,0xe6db99e5,0x1fa27cf8,0xc4ac5665,
    0xf4292244,0x432aff97,0xab9423a7,0xfc93a039,0x655b59c3,0x8f0ccc92,0xffeff47d,0x85845dd1,
    0x6fa87e4f,0xfe2ce6e0,0xa3014314,0x4e0811a1,0xf7537e82,0xbd3af235,0x2ad7d2bb,0xeb86d391]

def step (x : ℕ → BitVec 32) (s : Words 32) (i : ℕ) : Words 32 :=
  ⟨s.d,s.b+(s.a+auxiliary i s.b s.c s.d+x (wordIndex i)+BitVec.ofNat 32 (sines.getD i 0)).rotateLeft
    (shift i),s.b,s.c⟩

/-- Bytes as words, the least significant byte first. -/
def word (l : List UInt8) (i : ℕ) : BitVec 32 :=
  BitVec.ofNat 32 ((l.getD (4*i) 0).toNat+2^8*(l.getD (4*i+1) 0).toNat+
    2^16*(l.getD (4*i+2) 0).toNat+2^24*(l.getD (4*i+3) 0).toNat)

def compress (s : Words 32) (block : List UInt8) : Words 32 :=
  s.add ((List.range 64).foldl (step (word block)) s)

/-- The `n` bytes of a number, the least significant one first. -/
def bytesOf : ℕ → ℕ → List UInt8
  | 0, _ => []
  | n+1, k => (k % 256).toUInt8::bytesOf n (k/256)

/-- How many bytes are put behind `n` bytes so that eight more fill the last block. -/
def padLength (n : ℕ) : ℕ := if n % 64 < 56 then 56-n % 64 else 120-n % 64

/-- A message with a one bit, as many zero bits as are needed, and its length in bits. -/
def padded (message : List UInt8) : List UInt8 :=
  message++(0x80::List.replicate (padLength message.length-1) 0)++
    bytesOf 8 (8*message.length % 2^64)

def Words.bytes (s : Words 32) : List UInt8 :=
  bytesOf 4 s.a.toNat++bytesOf 4 s.b.toNat++bytesOf 4 s.c.toNat++bytesOf 4 s.d.toNat

def digest (message : List UInt8) : List UInt8 :=
  (Blocks.absorbed 64 compress start (padded message)).bytes

theorem padLength_pos (n : ℕ) : 0 < padLength n := by
  unfold padLength
  split <;> omega

theorem padLength_le (n : ℕ) : padLength n ≤ 64 := by
  unfold padLength
  split <;> omega

end MessageDigest
end CtrlPt
