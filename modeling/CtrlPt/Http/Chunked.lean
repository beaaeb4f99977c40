import CtrlPt.Http.Stability

/-! The chunked coding, and how the scanner reads the line that begins a chunk. -/
namespace CtrlPt
namespace Http

open CText

/-- A line break: CR LF, or LF alone. -/
def LineBreak (b : List UInt8) : Prop := b = [cr,lf] ∨ b = [lf]

/-- The inside of a quoted string. -/
inductive QuotedText : List UInt8 → Prop
  | nil : QuotedText []
  | text (c : UInt8) (cs : List UInt8) (hc : isQdtextChar c = true) (hq : c ≠ 34) (hs : c ≠ 92)
      (h : QuotedText cs) : QuotedText (c::cs)
  | escaped (c : UInt8) (cs : List UInt8) (h : QuotedText cs) : QuotedText (92::c::cs)

def isPlainChar (c : UInt8) : Bool := decide (c.toNat < 128) && c != cr && c != lf && c != 34

/-- The text of a line, in which a line break may only stand inside quotes. -/
inductive LineText : List UInt8 → Prop
  | nil : LineText []
  | plain (c : UInt8) (cs : List UInt8) (hc : isPlainChar c = true) (h : LineText cs) :
      LineText (c::cs)
  | quoted (q cs : List UInt8) (hq : QuotedText q) (h : LineText cs) :
      LineText (34::(q++34::cs))

/-- The line in front of a chunk: its size, an extension and a line break. -/
structure ChunkLine (line : List UInt8) (n : ℕ) : Prop where
  parts : ∃ num ext brk, line = num++ext++brk ∧ Numeral 16 num n ∧ LineText ext ∧
    (∀ c ∈ ext.head?, isIdentifierChar c = false) ∧ LineBreak brk

/-- `Chunked s e`: the bytes `s` begin with a chunked coding of the entity `e`. What follows
the line of the last chunk, trailers and whatever else, is not part of the entity. -/
inductive Chunked : List UInt8 → List UInt8 → Prop
  | last (line tail : List UInt8) (h : ChunkLine line 0) : Chunked (line++tail) []
  | chunk (line data brk s e : List UInt8) (hl : ChunkLine line data.length) (hd : data ≠ [])
      (hn : data.length < 2^31) (hb : LineBreak brk) (h : Chunked s e) :
      Chunked (line++(data++(brk++s))) (data++e)

theorem LineBreak.token {b : List UInt8} (h : LineBreak b) (u : List UInt8) :
    scannerGetToken false (b++u) = .ok ⟨b,.crlf⟩ b.length := by
  have hcr : isIdentifierChar cr = false ∧ isBlank cr = false := by decide
  have hlf : isIdentifierChar lf = false ∧ isBlank lf = false ∧ lf ≠ cr := by decide
  rcases h with rfl | rfl
  · simp [scannerGetToken,hcr]
  · simp [scannerGetToken,hlf]

/-- A line break ends every run of bytes that holds neither CR nor LF. -/
theorem LineBreak.head {b : List UInt8} (h : LineBreak b) :
    ∃ c u, b = c::u ∧ (c = cr ∨ c = lf) := by
  rcases h with rfl | rfl
  · exact ⟨cr,[lf],rfl,.inl rfl⟩
  · exact ⟨lf,[],rfl,.inr rfl⟩

theorem QuotedText.quotedEnd {q : List UInt8} (h : QuotedText q) (n : ℕ) (u : List UInt8) :
    quotedEnd n (q++34::u) = .ok () (n+q.length+1) := by
  induction h generalizing n with
  | nil => simp [quotedEnd_cons]
  | text c cs hc hq hs _ ih =>
    rw [List.cons_append,quotedEnd_cons,if_neg hq,if_neg hs,if_pos hc,ih,List.length_cons]
    congr 1
    omega
  | escaped c cs _ ih =>
    rw [List.cons_append,quotedEnd_cons,if_neg (by decide),if_pos rfl]
    simp only [List.cons_append,ih,List.length_cons]
    congr 1
    omega

theorem LineText.tail {c : UInt8} {cs : List UInt8} (h : LineText (c::cs)) (hc : c ≠ 34) :
    LineText cs := by
  cases h with
  | plain _ _ _ h => exact h
  | quoted => exact absurd rfl hc

theorem LineText.drop_run {p : UInt8 → Bool} (hp : p 34 = false) {cs : List UInt8}
    (h : LineText cs) : LineText (cs.drop (cs.takeWhile p).length) := by
  induction cs with
  | nil => exact h
  | cons c cs ih =>
    by_cases hc : p c = true
    · rw [List.takeWhile_cons_of_pos hc]
      refine ih (h.tail ?_)
      rintro rfl
      rw [hp] at hc
      cases hc
    · rw [List.takeWhile_cons_of_neg hc]
      exact h

theorem scanRun_before {p : UInt8 → Bool} {type : TokenType} {c b : UInt8} {cs u : List UInt8}
    (hb : p b = false) :
    scanRun false p type c (cs++b::u) =
      .ok ⟨c::cs.takeWhile p,type⟩ ((cs.takeWhile p).length+1) := by
  have htake : (cs++b::u).takeWhile p = cs.takeWhile p := by
    rw [List.takeWhile_append]
    split
    · rename_i hl
      rw [List.takeWhile_cons_of_neg (by simp [hb]),List.append_nil]
      exact (List.IsPrefix.eq_of_length (List.takeWhile_prefix p) hl).symm
    · rfl
  have hl := takeWhile_length_le p cs
  simp only [scanRun,htake]
  rw [if_neg]
  simp [beq_iff_eq]
  omega

theorem isPlainChar_control (c : UInt8) (h : isPlainChar c = true) :
    c ≠ cr ∧ c ≠ lf ∧ c ≠ 34 ∧
      (isIdentifierChar c = false → isBlank c = false → isSeparatorChar c = false →
        isControlChar c = true) := by
  revert h
  exact byte_forall (P := fun c => isPlainChar c = true → c ≠ cr ∧ c ≠ lf ∧ c ≠ 34 ∧
    (isIdentifierChar c = false → isBlank c = false → isSeparatorChar c = false →
      isControlChar c = true)) (by decide +kernel) c

/-- The tokens of a line's text are no line breaks, and what follows one is text again. -/
theorem LineText.token {c : UInt8} {cs brk : List UInt8} (h : LineText (c::cs))
    (hb : LineBreak brk) (u : List UInt8) :
    ∃ t k, scannerGetToken false (c::cs++(brk++u)) = .ok t k ∧ t.type ≠ .crlf ∧ 0 < k ∧
      k ≤ (c::cs).length ∧ LineText ((c::cs).drop k) := by
  rcases hb.head with ⟨b,v,rfl,hbv⟩
  have hrun : ∀ p : UInt8 → Bool, ∀ type, p cr = false → p lf = false → p 34 = false → c ≠ 34 →
      type ≠ .crlf → ∃ t k, scanRun false p type c (cs++b::(v++u)) = .ok t k ∧ t.type ≠ .crlf ∧
        0 < k ∧ k ≤ (c::cs).length ∧ LineText ((c::cs).drop k) := by
    intro p type hcr hlf hq hc ht
    have hpb : p b = false := by rcases hbv with rfl | rfl <;> assumption
    have hl := takeWhile_length_le p cs
    refine ⟨_,_,scanRun_before hpb,ht,Nat.succ_pos _,by simp only [List.length_cons]; omega,?_⟩
    exact (h.tail hc).drop_run hq
  simp only [scannerGetToken,List.cons_append]
  cases h with
  | quoted q es hq hes =>
    have hi : isIdentifierChar 34 = false ∧ isBlank 34 = false ∧ (34 : UInt8) ≠ cr ∧
      (34 : UInt8) ≠ lf := by decide
    rw [if_neg (by simp [hi]),if_neg (by simp [hi]),if_neg hi.2.2.1,if_neg hi.2.2.2,if_pos rfl]
    rw [List.append_assoc,List.cons_append,hq.quotedEnd]
    refine ⟨_,_,rfl,by simp,by omega,?_,?_⟩
    · simp only [List.length_cons,List.length_append]
      omega
    · have hd : (34::(q++34::es)).drop (1+q.length+1) = es := by
        rw [show 1+q.length+1 = (q++[34]).length+1 by simp; omega,List.drop_succ_cons,
          show q++34::es = (q++[34])++es by simp,List.drop_left]
      rw [hd]
      exact hes
  | plain _ _ hc hcs =>
    have hp := isPlainChar_control c hc
    by_cases hi : isIdentifierChar c = true
    · rw [if_pos hi]
      exact hrun _ _ (by decide) (by decide) (by decide) hp.2.2.1 (by decide)
    rw [if_neg hi]
    by_cases hbl : isBlank c = true
    · rw [if_pos hbl]
      exact hrun _ _ (by decide) (by decide) (by decide) hp.2.2.1 (by decide)
    rw [if_neg hbl,if_neg hp.1,if_neg hp.2.1,if_neg hp.2.2.1]
    by_cases hs : isSeparatorChar c = true
    · rw [if_pos hs]
      exact ⟨_,_,rfl,by simp,Nat.one_pos,by simp,hcs⟩
    · rw [if_neg hs,if_pos (hp.2.2.2 (by simpa using hi) (by simpa using hbl) (by simpa using hs))]
      exact ⟨_,_,rfl,by simp,Nat.one_pos,by simp,hcs⟩

theorem LineText.readUntilCrlf {l brk : List UInt8} (h : LineText l) (hb : LineBreak brk)
    (u : List UInt8) : readUntilCrlf false (l++(brk++u)) = .ok () l.length := by
  suffices ∀ n, readFrom false
      { onToken := fun s n t => if t.type = .crlf then .inr (.ok () n) else .inl s
        onStop := fun _ n st => .stop st n : Reader Unit (Scan Unit) } ((),n,l++(brk++u)) =
      .ok () (n+l.length) by
    have h0 := this 0
    rw [Nat.zero_add] at h0
    exact h0
  induction hl : l.length using Nat.strong_induction_on generalizing l with
  | _ m ih =>
    subst hl
    intro n
    cases l with
    | nil => exact readFrom_leave (hb.token u) rfl
    | cons c cs =>
      rcases h.token hb u with ⟨t,k,ht,hty,hk,hle,hrest⟩
      rw [readFrom_token ht (if_neg hty),List.drop_append_of_le_length hle,
        ih _ (by rw [List.length_drop]; omega) hrest rfl,List.length_drop]
      congr 1
      omega

theorem matchInt_numeral {num : List UInt8} {n : ℕ} (h : Numeral 16 num n) (hn : n < 2^31)
    {c : UInt8} (hc : isIdentifierChar c = false) (u : List UInt8) :
    matchInt false 16 (num++c::u) = (some (n : ℤ),.ok () num.length) := by
  have hid : ∀ d ∈ num, isIdentifierChar d = true := fun d hd =>
    isIdentifierChar_of_alnum d (isAlnum_of_isBaseDigit (by decide) (h.digits d hd))
  have hal : isAlnum c = false := by
    by_contra hne
    rw [isIdentifierChar_of_alnum c (by simpa using hne)] at hc
    cases hc
  have hval := strtol_numeral (by decide) h (by omega)
  obtain ⟨a,s,rfl⟩ := List.exists_cons_of_ne_nil h.ne_nil
  have ha := hid a (by simp)
  have htoken : scannerGetToken false (a::s++c::u) = .ok ⟨a::s,.identifier⟩ (a::s).length := by
    have hs : s.takeWhile isIdentifierChar = s :=
      List.takeWhile_eq_self_iff.mpr fun d hd => hid d (by simp [hd])
    simp [scannerGetToken,if_pos ha,scanRun_before hc,hs]
  have hstr := strtol_append (by decide : 16 ≤ 36) s u (isSpace_of_identifier a ha) hal
  have hint : toInt (n : ℤ) = n := by
    unfold toInt
    rw [Int.bmod_eq_of_le] <;> omega
  simp only [matchInt,htoken,hstr,hval,hint,if_true]
  rw [if_neg]
  simp

/-- How the line in front of a chunk is matched, whatever follows it. -/
theorem ChunkLine.match {line : List UInt8} {n : ℕ} (h : ChunkLine line n) (hn : n < 2^31)
    (u : List UInt8) :
    (scannerMatch chunkFmt (line++u)).status = .ok ∧
      (scannerMatch chunkFmt (line++u)).intAt 0 = some (n : ℤ) ∧
      (scannerMatch chunkFmt (line++u)).used = line.length := by
  rcases h.parts with ⟨num,ext,brk,rfl,hnum,hext,hhead,hb⟩
  have hc : ∃ c v, ext++(brk++u) = c::v ∧ isIdentifierChar c = false := by
    cases ext with
    | nil =>
      rcases hb.head with ⟨c,w,rfl,hc⟩
      exact ⟨c,w++u,rfl,by rcases hc with rfl | rfl <;> decide⟩
    | cons c w => exact ⟨c,w++(brk++u),rfl,hhead c (by simp)⟩
  rcases hc with ⟨c,v,hcv,hc⟩
  have hint : matchInt false 16 (num++(ext++(brk++u))) = (some (n : ℤ),.ok () num.length) := by
    rw [hcv]
    exact matchInt_numeral hnum hn hc v
  have hline := hext.readUntilCrlf hb u
  have hbrk : expectToken false .crlf (brk++u) = .ok ⟨brk,.crlf⟩ brk.length := by
    simp only [expectToken,hb.token u,if_true]
  have hs : (num++ext++brk)++u = num++(ext++(brk++u)) := by simp
  have hm : scannerMatch chunkFmt ((num++ext++brk)++u) =
      ⟨.ok,[.int n,.text num.length ext],num.length+ext.length+brk.length⟩ := by
    rw [hs]
    simp only [scannerMatch,vfmatch,chunkFmt,vfmatchFrom,directive,hint,List.drop_left,hline,
      Scan.store,hbrk]
    simp
  rw [hm]
  refine ⟨rfl,rfl,?_⟩
  simp only [List.length_append]

theorem LineBreak.match {brk : List UInt8} (h : LineBreak brk) (u : List UInt8) :
    scannerMatch crlfFmt (brk++u) = ⟨.ok,[],brk.length⟩ := by
  have hbrk : expectToken false .crlf (brk++u) = .ok ⟨brk,.crlf⟩ brk.length := by
    simp only [expectToken,h.token u,if_true]
  simp only [scannerMatch,vfmatch,crlfFmt,vfmatchFrom,directive,hbrk,Scan.store]
  simp

end Http
end CtrlPt
