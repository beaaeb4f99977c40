import CtrlPt.Lib.Memory
import CtrlPt.Uri.Tokens

/-! `remove_escaped_chars`: the escapes of a string are replaced where they stand. -/
namespace CtrlPt
namespace Uri

open CText Rounds Memory

/-- `is_escaped` in memory; a byte is looked at only if the ones before it fit. -/
def escapeAt (mem : List UInt8) (index : ℕ) : Except Fault Bool := do
  let a ← load mem index
  if a = 37 then do
    let b ← load mem (index+1)
    if isXDigit b then do
      let c ← load mem (index+2)
      .ok (isXDigit c)
    else .ok false
  else .ok false

/-- The C string that begins at `index`. -/
def stringFrom (mem : List UInt8) (index : ℕ) : Except Fault (List UInt8) :=
  if 0 ∈ mem.drop index then .ok (untilNul (mem.drop index)) else .error .unterminated

/-- `sscanf(s,"%2x",&n)` -/
def scanHex2 (s : List UInt8) : Option ℤ :=
  let t := strtol 16 ((s.dropWhile isSpace).take 2)
  if t.used = 0 then none else some t.value

/-- The loop variables of `replace_escaped`. -/
structure Shift where
  mem : List UInt8
  i : ℕ
  j : ℕ
  tempChar : UInt8
  deriving DecidableEq, Repr

def shiftRound (max : ℕ) (s : Shift) : Except Fault (Shift ⊕ List UInt8) :=
  if s.j < max then do
    let mem ← store s.mem s.j s.tempChar
    if s.i < max then do
      let c ← load mem s.i
      .ok (.inl ⟨mem,s.i+1,s.j+1,c⟩)
    else .ok (.inl ⟨mem,s.i+1,s.j+1,0⟩)
  else .ok (.inr s.mem)

/-- Whether something was replaced, the memory and `*max`. -/
def replaceEscaped (mem : List UInt8) (index max : ℕ) : Except Fault (Bool × List UInt8 × ℕ) := do
  let found ← escapeAt mem index
  if found then do
    let s ← stringFrom mem (index+1)
    match scanHex2 s with
    | none => .ok (false,mem,max)
    | some n => do
      let mem ← rounds .running (shiftRound max) (max+1) ⟨mem,index+3,index,(n % 256).toNat.toUInt8⟩
      .ok (true,mem,sizeSub max 2)
  else .ok (false,mem,max)

structure Unescape where
  mem : List UInt8
  i : ℕ
  size : ℕ
  deriving DecidableEq, Repr

def unescapeRound (s : Unescape) : Except Fault (Unescape ⊕ (List UInt8 × ℕ)) :=
  if s.i < s.size then do
    let r ← replaceEscaped s.mem s.i s.size
    .ok (.inl ⟨r.2.1,s.i+1,r.2.2⟩)
  else .ok (.inr (s.mem,s.size))

/-- The memory and `*size`, as the function leaves them. -/
def removeEscapedChars (mem : List UInt8) (size : ℕ) : Except Fault (List UInt8 × ℕ) :=
  rounds .running unescapeRound (size+1) ⟨mem,0,size⟩

/-- The byte two hexadecimal digits denote. -/
def hexByte (b c : UInt8) : UInt8 := (16*digitValue b+digitValue c).toUInt8

/-- Every escape is replaced by its byte, once and from left to right. -/
def unescape : List UInt8 → List UInt8
  | a::b::c::r =>
    if isEscaped (a::b::c::r) then hexByte b c::unescape r else a::unescape (b::c::r)
  | r => r

def escapes : List UInt8 → ℕ
  | a::b::c::r => if isEscaped (a::b::c::r) then escapes r+1 else escapes (b::c::r)
  | _ => 0

example : unescape (cstr "a%2525%4") = cstr "a%25%4" := by decide

theorem unescape_length (s : List UInt8) : (unescape s).length+2*escapes s = s.length := by
  induction s using unescape.induct with
  | case1 a b c r h ih =>
    rw [unescape,if_pos h,escapes,if_pos h,List.length_cons,List.length_cons,List.length_cons,
      List.length_cons]
    omega
  | case2 a b c r h ih =>
    rw [unescape,if_neg h,escapes,if_neg h,List.length_cons,List.length_cons]
    omega
  | case3 r h =>
    have hr : unescape r = r ∧ escapes r = 0 := by
      unfold unescape escapes
      split
      · exact absurd rfl (h _ _ _ _)
      · exact ⟨rfl,rfl⟩
    rw [hr.1,hr.2]
    rfl

theorem unescape_skip {c : UInt8} {cs : List UInt8} (h : ¬isEscaped (c::cs) = true) :
    unescape (c::cs) = c::unescape cs ∧ escapes (c::cs) = escapes cs := by
  match cs with
  | [] => exact ⟨rfl,rfl⟩
  | [a] => exact ⟨rfl,rfl⟩
  | a::b::r => exact ⟨by rw [unescape,if_neg h],by rw [escapes,if_neg h]⟩

/-- What the loop leaves in the place of `t`, with `c` in `tempChar`. -/
def shifted : UInt8 → List UInt8 → List UInt8
  | _, [] => []
  | c, _::t => c::shifted (t.getD 2 0) t

@[simp] theorem shifted_escape (c a b d : UInt8) (r : List UInt8) :
    shifted c (a::b::d::r) = c::(r++[0,0]) := by
  induction r generalizing c a b d with
  | nil => rfl
  | cons e r ih =>
    rw [shifted,ih]
    rfl

theorem shiftRound_run {max n : ℕ} (t done z : List UInt8) (c : UInt8)
    (hmax : max = done.length+t.length) (hn : t.length < n) :
    rounds .running (shiftRound max) n ⟨done++(t++z),done.length+3,done.length,c⟩ =
      .ok (done++(shifted c t++z)) := by
  induction t generalizing done c n with
  | nil =>
    apply rounds_leave (Nat.zero_lt_of_lt hn)
    rw [shiftRound,if_neg (by simp [hmax])]
    rfl
  | cons x t ih =>
    obtain ⟨n,rfl⟩ : ∃ m, n = m+1 := ⟨n-1,by omega⟩
    rw [List.length_cons] at hmax hn
    have hnext := ih (n := n) (done++[c]) (t.getD 2 0) (by simp; omega) (by omega)
    simp only [List.append_assoc,List.singleton_append,List.length_append,List.length_singleton]
      at hnext
    refine (rounds_next ?_).trans hnext
    rw [shiftRound,if_pos (by simp only; omega),List.cons_append,store_mid,ok_bind]
    by_cases hi : 2 < t.length
    · have hload : load (done++c::(t++z)) (done.length+3) = .ok (t.getD 2 0) := by
        apply load_behind
        rw [List.getElem?_cons_succ,List.getElem?_append_left hi,List.getD_eq_getElem?_getD,
          List.getElem?_eq_getElem hi]
        rfl
      rw [if_pos (by simp only; omega),hload]
      simp only [ok_bind,Nat.add_assoc,Nat.reduceAdd]
    · have hnone : t.getD 2 0 = 0 := by
        rw [List.getD_eq_getElem?_getD,List.getElem?_eq_none (by omega)]
        rfl
      rw [if_neg (by simp only; omega),hnone]

theorem isXDigit_plain (c : UInt8) (h : isXDigit c = true) :
    c ≠ 0 ∧ isBaseDigit 16 c = true ∧ isSpace c = false ∧ digitValue c < 16 :=
  byte_forall (P := fun c => isXDigit c = true → c ≠ 0 ∧ isBaseDigit 16 c = true ∧
    isSpace c = false ∧ digitValue c < 16) (by decide +kernel) c h

theorem escapeAt_eq (out : List UInt8) (c : UInt8) (cs z : List UInt8) :
    escapeAt (out++(c::cs++0::z)) out.length = .ok (isEscaped (c::cs)) := by
  have hload : load (out++(c::cs++0::z)) out.length = .ok c := load_mid _ _ _
  have hnul : isXDigit 0 = false := rfl
  rw [escapeAt,hload,ok_bind]
  by_cases hc : c = 37
  · rw [if_pos hc,hc]
    match cs with
    | [] =>
      rw [load_behind (k := 1) (a := 0) _ rfl]
      rfl
    | [b] =>
      rw [load_behind (k := 1) (a := b) _ rfl,ok_bind]
      split
      · rw [load_behind (k := 2) (a := 0) _ rfl]
        rfl
      · rfl
    | b::d::r =>
      rw [load_behind (k := 1) (a := b) _ rfl,ok_bind]
      split
      · rename_i hb
        rw [load_behind (k := 2) (a := d) _ rfl,ok_bind,isEscaped,hb]
        rfl
      · rename_i hb
        rw [Bool.not_eq_true] at hb
        rw [isEscaped,hb]
        rfl
  · rw [if_neg hc]
    congr 1
    rw [eq_comm,← Bool.not_eq_true]
    exact fun h => hc (isEscaped_head h)

theorem isEscaped_split {c : UInt8} {cs : List UInt8} (h : isEscaped (c::cs) = true) :
    ∃ b d r, c = 37 ∧ cs = b::d::r ∧ isXDigit b = true ∧ isXDigit d = true := by
  unfold isEscaped at h
  split at h
  · rename_i a b d r he
    cases he
    simp only [Bool.and_eq_true,beq_iff_eq] at h
    exact ⟨b,d,r,h.1.1,rfl,h.1.2,h.2⟩
  · cases h

theorem scanHex2_digits {b d : UInt8} {r : List UInt8} (hb : isXDigit b = true)
    (hd : isXDigit d = true) :
    ∃ n, scanHex2 (b::d::r) = some n ∧ (n % 256).toNat.toUInt8 = hexByte b d := by
  rcases isXDigit_plain b hb with ⟨-,hb₁,hb₂,hb₃⟩
  rcases isXDigit_plain d hd with ⟨-,hd₁,-,hd₃⟩
  have hnum : Numeral 16 [b,d] (16*digitValue b+digitValue d) := by
    refine ⟨by rintro ⟨⟩,?_,?_⟩
    · intro c hc
      rcases List.mem_pair.mp hc with rfl | rfl
      · exact hb₁
      · exact hd₁
    · simp only [numeralValue,List.foldl_cons,List.foldl_nil]
      omega
  refine ⟨(16*digitValue b+digitValue d : ℕ),?_,?_⟩
  · rw [scanHex2,List.dropWhile_cons,hb₂]
    simp only [Bool.false_eq_true,if_false,List.take_succ_cons,List.take_zero]
    rw [strtol_numeral (Nat.le_refl 16) hnum (by omega)]
    rfl
  · rw [hexByte,Int.emod_eq_of_lt (by omega) (by omega),Int.toNat_natCast]

theorem replaceEscaped_escape {c : UInt8} {cs : List UInt8} (h : isEscaped (c::cs) = true)
    (out z : List UInt8) :
    replaceEscaped (out++(c::cs++0::z)) out.length (out.length+(c::cs).length) =
      .ok (true,out++hexByte (cs.getD 0 0) (cs.getD 1 0)::(cs.drop 2++0::0::0::z),
        out.length+(cs.length-1)) := by
  rcases isEscaped_split h with ⟨b,d,r,rfl,rfl,hb,hd⟩
  rcases scanHex2_digits (r := untilNul (r++0::z)) hb hd with ⟨n,hn,hbyte⟩
  have hstring : stringFrom (out++(37::b::d::r++0::z)) (out.length+1) =
      .ok (b::d::untilNul (r++0::z)) := by
    have hdrop : (out++(37::b::d::r++0::z)).drop (out.length+1) = b::d::(r++0::z) := by
      rw [← List.drop_drop,List.drop_left]
      rfl
    rw [stringFrom,hdrop,if_pos (by simp),untilNul,List.takeWhile_cons,
      if_pos (by simpa using (isXDigit_plain b hb).1),List.takeWhile_cons,
      if_pos (by simpa using (isXDigit_plain d hd).1)]
    rfl
  have hshift := shiftRound_run (n := out.length+(37::b::d::r).length+1) (37::b::d::r) out (0::z)
    (hexByte b d) rfl (by omega)
  rw [shifted_escape] at hshift
  rw [replaceEscaped,escapeAt_eq,ok_bind,h,if_pos rfl,hstring]
  simp only [ok_bind,hn,hbyte,hshift]
  simp only [List.length_cons,List.getD_cons_zero,List.getD_cons_succ,List.drop_succ_cons,
    List.drop_zero,List.append_assoc,List.cons_append,List.nil_append]
  rw [sizeSub_of_le (by omega)]
  congr 3

theorem replaceEscaped_skip {c : UInt8} {cs : List UInt8} (h : ¬isEscaped (c::cs) = true)
    (out z : List UInt8) (max : ℕ) :
    replaceEscaped (out++(c::cs++0::z)) out.length max = .ok (false,out++(c::cs++0::z),max) := by
  rw [replaceEscaped,escapeAt_eq,ok_bind,if_neg h]

/-- What has been decoded and what has not, with zeros for the bytes that were saved, in a
memory with `tail` behind the string. -/
structure Unescaping (s tail : List UInt8) (u : Unescape) : Prop where
  parts : ∃ out rest saved, u.mem = out++(rest++0::(List.replicate (2*saved) 0++tail)) ∧
    u.i = out.length ∧ u.size = out.length+rest.length ∧
    unescape s = out++unescape rest ∧ escapes s = saved+escapes rest

theorem unescape_escape {b d : UInt8} {r : List UInt8} (h : isEscaped (37::b::d::r) = true) :
    unescape (37::b::d::r) = hexByte b d::unescape r ∧ escapes (37::b::d::r) = escapes r+1 :=
  ⟨by rw [unescape,if_pos h],by rw [escapes,if_pos h]⟩

theorem unescapeRound_step {s tail : List UInt8} {u : Unescape} (hu : Unescaping s tail u) :
    unescapeRound u = .ok (.inr (unescape s++0::(List.replicate (2*escapes s) 0++tail),
        (unescape s).length)) ∨
      ∃ v, unescapeRound u = .ok (.inl v) ∧ Unescaping s tail v ∧ v.size-v.i < u.size-u.i := by
  rcases hu.parts with ⟨out,rest,saved,hmem,hi,hsize,hdec,hcount⟩
  cases rest with
  | nil =>
    left
    rw [unescapeRound,if_neg (by rw [hi,hsize]; simp),hmem,hsize,hdec,hcount]
    simp [unescape,escapes]
  | cons c cs =>
    right
    rw [unescapeRound,if_pos (by rw [hi,hsize]; simp),hmem,hi,hsize]
    by_cases h : isEscaped (c::cs) = true
    · rw [replaceEscaped_escape h]
      rcases isEscaped_split h with ⟨b,d,r,rfl,rfl,-,-⟩
      rcases unescape_escape h with ⟨hd,he⟩
      refine ⟨_,rfl,⟨⟨out++[hexByte b d],r,saved+1,?_,?_,?_,?_,?_⟩⟩,?_⟩
      · simp [Nat.mul_add,List.replicate_succ]
      · simp
      · simp
        omega
      · rw [hdec,hd]
        simp
      · omega
      · simp
        omega
    · rw [replaceEscaped_skip h]
      rcases unescape_skip h with ⟨hd,he⟩
      refine ⟨_,rfl,⟨⟨out++[c],cs,saved,?_,?_,?_,?_,?_⟩⟩,?_⟩
      · simp
      · simp
      · simp
        omega
      · rw [hdec,hd]
        simp
      · omega
      · simp
        omega

/-- Percent decoding. The memory may end with the NUL of the string; what stands behind it is
left as it is. -/
theorem removeEscapedChars_unescape (s tail : List UInt8) :
    removeEscapedChars (s++0::tail) s.length =
        .ok (unescape s++List.replicate (2*escapes s) 0++0::tail,s.length-2*escapes s) ∧
      (unescape s).length = s.length-2*escapes s := by
  have hlen := unescape_length s
  have hrun : removeEscapedChars (s++0::tail) s.length =
      .ok (unescape s++0::(List.replicate (2*escapes s) 0++tail),(unescape s).length) := by
    refine rounds_eq (I := Unescaping s tail) (μ := fun u => u.size-u.i)
      (f := fun _ => (unescape s++0::(List.replicate (2*escapes s) 0++tail),(unescape s).length))
      ?_ ?_ ?_
    · intro u hu
      rcases unescapeRound_step hu with h | ⟨v,hv,hk,hμ⟩
      · exact .inl h
      · exact .inr ⟨v,hv,hk,hμ,rfl⟩
    · exact ⟨⟨[],s,0,by simp,rfl,by simp,rfl,by simp⟩⟩
    · exact Nat.lt_succ_self _
  have hzeros : (0 : UInt8)::(List.replicate (2*escapes s) 0++tail) =
      List.replicate (2*escapes s) 0++0::tail := by
    rw [← List.cons_append,← List.replicate_succ,List.replicate_succ',List.append_assoc]
    rfl
  rw [hrun,hzeros,List.append_assoc,show (unescape s).length = s.length-2*escapes s by omega]
  exact ⟨rfl,rfl⟩

end Uri
end CtrlPt
