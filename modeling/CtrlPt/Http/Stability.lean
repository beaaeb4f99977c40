import CtrlPt.Http.Match

/-! Prefix stability of the scanner. A routine that does not ask for more bytes has
given its final answer: nothing that arrives behind the bytes it was given changes it. -/
namespace CtrlPt
namespace Http

open CText

def Scan.waiting {α : Type} : Scan α → Prop
  | .stop .incomplete _ => True
  | _ => False

@[simp] theorem waiting_ok {α : Type} (a : α) (n : ℕ) : ¬(Scan.ok a n).waiting := id

@[simp] theorem waiting_stop {α : Type} (st : StopStatus) (n : ℕ) :
    (Scan.stop st n : Scan α).waiting ↔ st = .incomplete := by
  cases st <;> simp [Scan.waiting]

/-- Bytes behind the input change nothing unless the routine is waiting. -/
def Stable {α : Type} (f : List UInt8 → Scan α) : Prop :=
  ∀ r x, ¬(f r).waiting → f (r++x) = f r

def Scan.used {α : Type} : Scan α → ℕ
  | .ok _ n => n
  | .stop _ n => n

@[simp] theorem used_ok {α : Type} (a : α) (n : ℕ) : (Scan.ok a n).used = n := rfl

@[simp] theorem used_stop {α : Type} (st : StopStatus) (n : ℕ) :
    (Scan.stop st n : Scan α).used = n := rfl

def Bounded {α : Type} (f : List UInt8 → Scan α) : Prop := ∀ r, (f r).used ≤ r.length

theorem takeWhile_append_of_lt {α : Type} {p : α → Bool} {l : List α} (x : List α)
    (h : (l.takeWhile p).length ≠ l.length) : (l++x).takeWhile p = l.takeWhile p := by
  rw [List.takeWhile_append,if_neg h]

theorem quotedEnd_cons (n : ℕ) (c : UInt8) (cs : List UInt8) :
    quotedEnd n (c::cs) =
      if c = 34 then .ok () (n+1)
      else if c = 92 then
        match cs with
        | [] => .stop .incomplete 0
        | _::ds => quotedEnd (n+2) ds
      else if isQdtextChar c then quotedEnd (n+1) cs
      else .stop .failure 0 := by
  cases cs <;> rfl

theorem quotedEnd_append (n : ℕ) (r x : List UInt8) (h : ¬(quotedEnd n r).waiting) :
    quotedEnd n (r++x) = quotedEnd n r := by
  induction n, r using quotedEnd.induct with
  | case1 n => simp [quotedEnd] at h
  | case2 n cs => simp [quotedEnd_cons]
  | case3 n h34 => simp [quotedEnd_cons] at h
  | case4 n d ds h34 ih =>
    rw [quotedEnd_cons,if_neg h34,if_pos rfl] at h ⊢
    rw [List.cons_append,List.cons_append,quotedEnd_cons,if_neg h34,if_pos rfl]
    exact ih h
  | case5 n c cs h34 h92 hq ih =>
    rw [quotedEnd_cons,if_neg h34,if_neg h92,if_pos hq] at h ⊢
    rw [List.cons_append,quotedEnd_cons,if_neg h34,if_neg h92,if_pos hq]
    exact ih h
  | case6 n c cs h34 h92 hq =>
    rw [List.cons_append,quotedEnd_cons,quotedEnd_cons]
    simp only [if_neg h34,if_neg h92,if_neg hq]

theorem quotedEnd_le (n : ℕ) (r : List UInt8) (m : ℕ) (h : quotedEnd n r = .ok () m) :
    n < m ∧ m ≤ n+r.length := by
  induction n, r using quotedEnd.induct with
  | case1 n => simp [quotedEnd] at h
  | case2 n cs =>
    rw [quotedEnd_cons,if_pos rfl,Scan.ok.injEq] at h
    simp only [List.length_cons]
    omega
  | case3 n h34 => simp [quotedEnd_cons] at h
  | case4 n d ds h34 ih =>
    rw [quotedEnd_cons,if_neg h34,if_pos rfl] at h
    have hd := ih h
    simp only [List.length_cons]
    omega
  | case5 n c cs h34 h92 hq ih =>
    rw [quotedEnd_cons,if_neg h34,if_neg h92,if_pos hq] at h
    have hc := ih h
    simp only [List.length_cons]
    omega
  | case6 n c cs h34 h92 hq => simp [quotedEnd_cons,h34,h92,hq] at h

theorem scanRun_append (p : UInt8 → Bool) (type : TokenType) (c : UInt8) (cs x : List UInt8)
    (h : ¬(scanRun false p type c cs).waiting) :
    scanRun false p type c (cs++x) = scanRun false p type c cs := by
  by_cases hl : (cs.takeWhile p).length = cs.length
  · simp [scanRun,hl] at h
  · have ht := takeWhile_append_of_lt x hl
    have hle := takeWhile_length_le p cs
    simp only [scanRun,ht,List.length_append,Bool.not_false,Bool.true_and]
    rw [if_neg,if_neg]
    · simpa using hl
    · simp only [beq_iff_eq]
      omega

/-- A token, once read, is read again however the input goes on. -/
theorem scannerGetToken_stable : Stable (scannerGetToken false) := by
  intro r x h
  cases r with
  | nil => simp [scannerGetToken] at h
  | cons c cs =>
    simp only [scannerGetToken,List.cons_append] at h ⊢
    by_cases hi : isIdentifierChar c = true
    · rw [if_pos hi] at h ⊢
      rw [if_pos hi]
      exact scanRun_append _ _ _ _ _ h
    rw [if_neg hi] at h ⊢
    rw [if_neg hi]
    by_cases hb : isBlank c = true
    · rw [if_pos hb] at h ⊢
      rw [if_pos hb]
      exact scanRun_append _ _ _ _ _ h
    rw [if_neg hb] at h ⊢
    rw [if_neg hb]
    by_cases hcr : c = cr
    · rw [if_pos hcr] at h ⊢
      rw [if_pos hcr]
      cases cs with
      | nil => simp at h
      | cons d ds => simp
    rw [if_neg hcr] at h ⊢
    rw [if_neg hcr]
    by_cases hlf : c = lf
    · rw [if_pos hlf,if_pos hlf]
    rw [if_neg hlf] at h ⊢
    rw [if_neg hlf]
    by_cases hq : c = 34
    · rw [if_pos hq] at h ⊢
      rw [if_pos hq]
      have hw : ¬(quotedEnd 1 cs).waiting := by
        cases hqe : quotedEnd 1 cs with
        | ok _ n => simp
        | stop st n => simpa [hqe] using h
      rw [quotedEnd_append 1 cs x hw]
      cases hqe : quotedEnd 1 cs with
      | stop st n => rfl
      | ok u n =>
        have hn := (quotedEnd_le 1 cs n hqe).2
        have ht : (c::(cs++x)).take n = (c::cs).take n := by
          rw [← List.cons_append]
          exact List.take_append_of_le_length (by simp only [List.length_cons]; omega)
        simp only [ht]
    · rw [if_neg hq,if_neg hq]

theorem scanRun_spec (loaded : Bool) (p : UInt8 → Bool) (type : TokenType) (c : UInt8)
    (cs : List UInt8) :
    match scanRun loaded p type c cs with
    | .ok t n => 0 < n ∧ n ≤ (c::cs).length ∧ t.text = (c::cs).take n
    | .stop _ n => n = 0 := by
  have hle := takeWhile_length_le p cs
  have htake : cs.takeWhile p = cs.take (cs.takeWhile p).length :=
    List.prefix_iff_eq_take.mp (List.takeWhile_prefix p)
  by_cases hw : (!loaded && (cs.takeWhile p).length == cs.length) = true
  · simp only [scanRun,if_pos hw]
  · simp only [scanRun,if_neg hw,List.length_cons,List.take_succ_cons]
    exact ⟨by omega,by omega,by rw [← htake]⟩

theorem scannerGetToken_spec (loaded : Bool) (r : List UInt8) :
    match scannerGetToken loaded r with
    | .ok t n => 0 < n ∧ n ≤ r.length ∧ t.text = r.take n
    | .stop _ n => n = 0 := by
  cases r with
  | nil => rfl
  | cons c cs =>
    simp only [scannerGetToken]
    by_cases hi : isIdentifierChar c = true
    · rw [if_pos hi]
      exact scanRun_spec _ _ _ _ _
    rw [if_neg hi]
    by_cases hb : isBlank c = true
    · rw [if_pos hb]
      exact scanRun_spec _ _ _ _ _
    rw [if_neg hb]
    by_cases hcr : c = cr
    · rw [if_pos hcr]
      cases cs with
      | nil => rfl
      | cons d ds => by_cases hd : d = lf <;> simp [hd]
    rw [if_neg hcr]
    by_cases hlf : c = lf
    · rw [if_pos hlf]
      exact ⟨by decide,by simp,rfl⟩
    rw [if_neg hlf]
    by_cases hq : c = 34
    · rw [if_pos hq]
      cases hqe : quotedEnd 1 cs with
      | stop st m => rfl
      | ok u m =>
        have hm := quotedEnd_le 1 cs m hqe
        exact ⟨by omega,by simp only [List.length_cons]; omega,rfl⟩
    rw [if_neg hq]
    by_cases hs : isSeparatorChar c = true
    · simp [hs]
    rw [if_neg hs]
    by_cases hc : isControlChar c = true
    · simp [hc]
    rw [if_neg hc]

/-- What a token is made of: the bytes the cursor moves over. -/
theorem scannerGetToken_ok {loaded : Bool} {r : List UInt8} {t : Token} {n : ℕ}
    (h : scannerGetToken loaded r = .ok t n) : 0 < n ∧ n ≤ r.length ∧ t.text = r.take n := by
  simpa [h] using scannerGetToken_spec loaded r

theorem scannerGetToken_stop {loaded : Bool} {r : List UInt8} {st : StopStatus} {n : ℕ}
    (h : scannerGetToken loaded r = .stop st n) : n = 0 := by
  simpa [h] using scannerGetToken_spec loaded r

/-- A quoted string that ends within `r` is complete in `r`. -/
theorem quotedEnd_prompt (n : ℕ) (r x : List UInt8) {m : ℕ} (h : quotedEnd n (r++x) = .ok () m)
    (hm : m ≤ n+r.length) : ¬(quotedEnd n r).waiting := by
  induction n, r using quotedEnd.induct with
  | case1 n =>
    have hx := (quotedEnd_le n _ m h).1
    simp only [List.length_nil] at hm
    omega
  | case2 n cs => simp [quotedEnd_cons]
  | case3 n h34 =>
    rw [List.cons_append,List.nil_append,quotedEnd_cons,if_neg h34,if_pos rfl] at h
    cases x with
    | nil => cases h
    | cons d ds =>
      have hx := (quotedEnd_le _ _ m h).1
      simp only [List.length_cons,List.length_nil] at hm
      omega
  | case4 n d ds h34 ih =>
    rw [List.cons_append,List.cons_append,quotedEnd_cons,if_neg h34,if_pos rfl] at h
    rw [quotedEnd_cons,if_neg h34,if_pos rfl]
    simp only [List.length_cons] at hm
    exact ih h (by omega)
  | case5 n c cs h34 h92 hq ih =>
    rw [List.cons_append,quotedEnd_cons,if_neg h34,if_neg h92,if_pos hq] at h
    rw [quotedEnd_cons,if_neg h34,if_neg h92,if_pos hq]
    simp only [List.length_cons] at hm
    exact ih h (by omega)
  | case6 n c cs h34 h92 hq => simp [quotedEnd_cons,h34,h92,hq]

theorem scanRun_prompt (p : UInt8 → Bool) (type : TokenType) (c : UInt8) (cs x : List UInt8)
    {t : Token} {k : ℕ} (h : scanRun false p type c (cs++x) = .ok t k) (hk : k ≤ cs.length) :
    ¬(scanRun false p type c cs).waiting := by
  have hlen : k = ((cs++x).takeWhile p).length+1 := by
    simp only [scanRun] at h
    split at h
    · cases h
    · exact (Scan.ok.inj h).2.symm
  by_cases hl : (cs.takeWhile p).length = cs.length
  · rw [List.takeWhile_append,if_pos hl,List.length_append] at hlen
    omega
  · simp [scanRun,hl]

/-- A token with a byte behind it is read without waiting for more. -/
theorem scannerGetToken_prompt {r x : List UInt8} {t : Token} {k : ℕ}
    (h : scannerGetToken false (r++x) = .ok t k) (hk : k < r.length) :
    scannerGetToken false r = .ok t k := by
  suffices hw : ¬(scannerGetToken false r).waiting by rw [← scannerGetToken_stable r x hw,h]
  cases r with
  | nil => exact absurd hk (Nat.not_lt_zero k)
  | cons c cs =>
    simp only [scannerGetToken,List.cons_append] at h ⊢
    simp only [List.length_cons] at hk
    by_cases hi : isIdentifierChar c = true
    · rw [if_pos hi] at h ⊢
      exact scanRun_prompt _ _ _ _ x h (by omega)
    rw [if_neg hi] at h ⊢
    by_cases hb : isBlank c = true
    · rw [if_pos hb] at h ⊢
      exact scanRun_prompt _ _ _ _ x h (by omega)
    rw [if_neg hb] at h ⊢
    by_cases hcr : c = cr
    · rw [if_pos hcr] at h ⊢
      cases cs with
      | nil =>
        cases x with
        | nil => cases h
        | cons d ds =>
          simp only [List.nil_append,List.length_nil] at h hk
          split at h <;> cases h <;> omega
      | cons d ds => by_cases hd : d = lf <;> simp [hd]
    rw [if_neg hcr] at h ⊢
    by_cases hlf : c = lf
    · simp [if_pos hlf]
    rw [if_neg hlf] at h ⊢
    by_cases hq : c = 34
    · rw [if_pos hq] at h ⊢
      cases hqe : quotedEnd 1 (cs++x) with
      | stop st m => simp [hqe] at h
      | ok u m =>
        simp only [hqe,Scan.ok.injEq] at h
        have hw := quotedEnd_prompt 1 cs x hqe (by omega)
        cases hq1 : quotedEnd 1 cs with
        | ok u j => simp
        | stop st j => simpa [hq1] using hw
    · rw [if_neg hq]
      by_cases hs : isSeparatorChar c = true
      · simp [hs]
      by_cases hc : isControlChar c = true
      · simp [hs,hc]
      · simp [hs,hc]

theorem scannerGetToken_bounded (loaded : Bool) : Bounded (scannerGetToken loaded) := by
  intro r
  cases h : scannerGetToken loaded r with
  | ok t n => exact (scannerGetToken_ok h).2.1
  | stop st n => simp [scannerGetToken_stop h]

/-- The tokens, by the byte they begin with. -/
inductive TokenAt (loaded : Bool) : List UInt8 → Token → ℕ → Prop
  | identifier (c : UInt8) (cs : List UInt8) (hc : isIdentifierChar c = true)
      (hend : loaded = true ∨ (cs.takeWhile isIdentifierChar).length ≠ cs.length) :
      TokenAt loaded (c::cs) ⟨c::cs.takeWhile isIdentifierChar,.identifier⟩
        ((cs.takeWhile isIdentifierChar).length+1)
  | whitespace (c : UInt8) (cs : List UInt8) (hc : isBlank c = true)
      (hend : loaded = true ∨ (cs.takeWhile isBlank).length ≠ cs.length) :
      TokenAt loaded (c::cs) ⟨c::cs.takeWhile isBlank,.whitespace⟩
        ((cs.takeWhile isBlank).length+1)
  | crlf (cs : List UInt8) : TokenAt loaded (cr::lf::cs) ⟨[cr,lf],.crlf⟩ 2
  | loneCr (d : UInt8) (cs : List UInt8) (hd : d ≠ lf) :
      TokenAt loaded (cr::d::cs) ⟨[cr],.ctrl⟩ 1
  | lf (cs : List UInt8) : TokenAt loaded (lf::cs) ⟨[lf],.crlf⟩ 1
  | quoted (cs : List UInt8) (n : ℕ) (hq : quotedEnd 1 cs = .ok () n) :
      TokenAt loaded (34::cs) ⟨(34::cs).take n,.quotedString⟩ n
  | separator (c : UInt8) (cs : List UInt8) (hc : isSeparatorChar c = true) (hb : isBlank c = false)
      (hq : c ≠ 34) : TokenAt loaded (c::cs) ⟨[c],.separator⟩ 1
  | ctrl (c : UInt8) (cs : List UInt8) (hc : isControlChar c = true) (hb : isBlank c = false)
      (hcr : c ≠ cr) (hlf : c ≠ Http.lf) : TokenAt loaded (c::cs) ⟨[c],.ctrl⟩ 1

theorem scanRun_ok {loaded : Bool} {p : UInt8 → Bool} {type : TokenType} {c : UInt8}
    {cs : List UInt8} {t : Token} {n : ℕ} (h : scanRun loaded p type c cs = .ok t n) :
    (loaded = true ∨ (cs.takeWhile p).length ≠ cs.length) ∧ t = ⟨c::cs.takeWhile p,type⟩ ∧
      n = (cs.takeWhile p).length+1 := by
  simp only [scanRun] at h
  split at h
  · cases h
  · rename_i hne
    simp only [Scan.ok.injEq] at h
    refine ⟨?_,h.1.symm,h.2.symm⟩
    cases loaded with
    | true => exact .inl rfl
    | false => exact .inr (by simpa using hne)

@[simp] theorem scannerGetToken_crlf (loaded : Bool) (cs : List UInt8) :
    scannerGetToken loaded (cr::lf::cs) = .ok ⟨[cr,lf],.crlf⟩ 2 := by
  have hcr : isIdentifierChar cr = false ∧ isBlank cr = false := by decide
  simp [scannerGetToken,hcr]

@[simp] theorem scannerGetToken_lf (loaded : Bool) (cs : List UInt8) :
    scannerGetToken loaded (lf::cs) = .ok ⟨[lf],.crlf⟩ 1 := by
  have hlf : isIdentifierChar lf = false ∧ isBlank lf = false ∧ lf ≠ cr := by decide
  simp [scannerGetToken,hlf]

theorem scannerGetToken_at {loaded : Bool} {r : List UInt8} {t : Token} {n : ℕ}
    (h : scannerGetToken loaded r = .ok t n) : TokenAt loaded r t n := by
  cases r with
  | nil => cases h
  | cons c cs =>
    simp only [scannerGetToken] at h
    split at h
    · rename_i hi
      rcases scanRun_ok h with ⟨hend,rfl,rfl⟩
      exact .identifier c cs hi hend
    split at h
    · rename_i hb
      rcases scanRun_ok h with ⟨hend,rfl,rfl⟩
      exact .whitespace c cs hb hend
    rename_i hb
    split at h
    · rename_i hcr
      subst hcr
      cases cs with
      | nil => cases h
      | cons d ds =>
        simp only at h
        split at h
        · rename_i hd
          subst hd
          cases h
          exact .crlf ds
        · rename_i hd
          cases h
          exact .loneCr d ds hd
    rename_i hcr
    split at h
    · rename_i hlf
      subst hlf
      cases h
      exact .lf cs
    rename_i hlf
    split at h
    · rename_i hq
      subst hq
      cases hqe : quotedEnd 1 cs with
      | stop st m =>
        simp only [hqe] at h
        cases h
      | ok u m =>
        simp only [hqe] at h
        cases h
        exact .quoted cs _ hqe
    rename_i hq
    split at h
    · rename_i hs
      cases h
      exact .separator c cs hs (by simpa using hb) hq
    split at h
    · rename_i hc
      cases h
      exact .ctrl c cs hc (by simpa using hb) hcr hlf
    · cases h

theorem isIdentifierChar_of_alnum (c : UInt8) (h : isAlnum c = true) :
    isIdentifierChar c = true := by
  have hsep : isSeparatorChar c = false := by
    cases hs : isSeparatorChar c with
    | false => rfl
    | true =>
      have hnone : (0::separators).any isAlnum = false := rfl
      have hmem : c ∈ 0::separators := by
        simpa [isSeparatorChar,strchr,or_comm] using hs
      exact absurd (List.any_eq_true.mpr ⟨c,hmem,h⟩) (by rw [hnone]; exact Bool.false_ne_true)
  simp [isAlnum,isAlpha,isLower,isUpper,isDigit,UInt8.le_iff_toNat_le] at h
  simp [isIdentifierChar,hsep,charInt]
  grind

theorem isSpace_of_identifier (c : UInt8) (h : isIdentifierChar c = true) :
    isSpace c = false := by
  have hsep : isSeparatorChar 32 = true := by decide
  cases hs : isSpace c with
  | false => rfl
  | true =>
    simp [isSpace,UInt8.le_iff_toNat_le] at hs
    simp [isIdentifierChar,charInt] at h
    rcases hs with rfl | hs
    · simp [hsep] at h
    · grind

/-- An identifier is followed by a byte that cannot belong to it. -/
theorem scannerGetToken_identifier {r : List UInt8} {t : Token} {n : ℕ}
    (h : scannerGetToken false r = .ok t n) (ht : t.type = .identifier) :
    ∃ a s c u, r = a::s++c::u ∧ n = s.length+1 ∧ t.text = a::s ∧
      (∀ b ∈ a::s, isIdentifierChar b = true) ∧ isIdentifierChar c = false := by
  cases r with
  | nil => simp [scannerGetToken] at h
  | cons a cs =>
    simp only [scannerGetToken] at h
    by_cases hi : isIdentifierChar a = true
    · rw [if_pos hi] at h
      simp only [scanRun,Bool.not_false,Bool.true_and,beq_iff_eq] at h
      split at h
      · cases h
      · rename_i hl
        simp only [Scan.ok.injEq] at h
        rcases h with ⟨rfl,rfl⟩
        have hsplit := List.takeWhile_append_dropWhile (p := isIdentifierChar) (l := cs)
        have hall : ∀ b ∈ a::cs.takeWhile isIdentifierChar, isIdentifierChar b = true := by
          intro b hb
          rcases List.mem_cons.mp hb with rfl | hb
          · exact hi
          · exact List.all_eq_true.mp List.all_takeWhile b hb
        cases hd : cs.dropWhile isIdentifierChar with
        | nil =>
          rw [hd,List.append_nil] at hsplit
          exact absurd (congrArg List.length hsplit) hl
        | cons c u =>
          refine ⟨a,cs.takeWhile isIdentifierChar,c,u,?_,rfl,rfl,hall,?_⟩
          · rw [← hd,List.cons_append,hsplit]
          · have hc := List.head_dropWhile_not isIdentifierChar (l := cs) (by simp [hd])
            simpa [hd] using hc
    · have hno : ∀ (type : TokenType), type ≠ .identifier → t.type = type → False := by
        intro type hne he
        exact hne (he.symm.trans ht)
      rw [if_neg hi] at h
      split at h
      · simp only [scanRun] at h
        split at h
        · cases h
        · simp only [Scan.ok.injEq] at h
          exact (hno .whitespace (by decide) (by rw [← h.1])).elim
      split at h
      · cases cs with
        | nil => simp at h
        | cons d ds =>
          simp only at h
          split at h <;> simp only [Scan.ok.injEq] at h
          · exact (hno .crlf (by decide) (by rw [← h.1])).elim
          · exact (hno .ctrl (by decide) (by rw [← h.1])).elim
      split at h
      · simp only [Scan.ok.injEq] at h
        exact (hno .crlf (by decide) (by rw [← h.1])).elim
      split at h
      · cases hqe : quotedEnd 1 cs with
        | stop st m => simp [hqe] at h
        | ok u m =>
          simp only [hqe,Scan.ok.injEq] at h
          exact (hno .quotedString (by decide) (by rw [← h.1])).elim
      split at h
      · simp only [Scan.ok.injEq] at h
        exact (hno .separator (by decide) (by rw [← h.1])).elim
      split at h
      · simp only [Scan.ok.injEq] at h
        exact (hno .ctrl (by decide) (by rw [← h.1])).elim
      · cases h

theorem strtol_identifier {base : ℕ} (hb : base ≤ 36) {r x : List UInt8} {t : Token} {n : ℕ}
    (h : scannerGetToken false r = .ok t n) (ht : t.type = .identifier) :
    strtol base (r++x) = strtol base t.text := by
  rcases scannerGetToken_identifier h ht with ⟨a,s,c,u,rfl,-,htext,hall,hc⟩
  have hsp := isSpace_of_identifier a (hall a (by simp))
  have hal : isAlnum c = false := by
    by_contra hne
    rw [isIdentifierChar_of_alnum c (by simpa using hne)] at hc
    cases hc
  rw [htext,List.append_assoc,List.cons_append]
  exact strtol_append hb s (u++x) hsp hal

theorem readRound_descends {σ α : Type} (loaded : Bool) (f : Reader σ α) :
    Loop.Descends (fun y : σ × ℕ × List UInt8 => y.2.2.length) (readRound loaded f) := by
  rintro ⟨s,n,r⟩ y h
  simp only [readRound] at h
  split at h
  · rename_i t k ht
    have hk := scannerGetToken_ok ht
    split at h
    · cases h
      simp only [List.length_drop]
      omega
    · cases h
  · cases h

theorem readFrom_token {σ α : Type} {loaded : Bool} {f : Reader σ α} {s s' : σ} {n k : ℕ}
    {r : List UInt8} {t : Token} (ht : scannerGetToken loaded r = .ok t k)
    (hs : f.onToken s n t = .inl s') :
    readFrom loaded f (s,n,r) = readFrom loaded f (s',n+k,r.drop k) := by
  apply Loop.run_inl (readRound_descends loaded f)
  simp [readRound,ht,hs]

theorem readFrom_leave {σ α : Type} {loaded : Bool} {f : Reader σ α} {s : σ} {n k : ℕ}
    {r : List UInt8} {t : Token} {a : α} (ht : scannerGetToken loaded r = .ok t k)
    (hs : f.onToken s n t = .inr a) : readFrom loaded f (s,n,r) = a := by
  apply Loop.run_inr
  simp [readRound,ht,hs]

theorem readFrom_stop {σ α : Type} {loaded : Bool} {f : Reader σ α} {s : σ} {n k : ℕ}
    {r : List UInt8} {st : StopStatus} (ht : scannerGetToken loaded r = .stop st k) :
    readFrom loaded f (s,n,r) = f.onStop s n st := by
  apply Loop.run_inr
  simp [readRound,ht]

/-- The invariant rule of a token loop over `r`. -/
theorem readFrom_rule {σ α : Type} {loaded : Bool} {f : Reader σ α} (r : List UInt8)
    {I : σ → ℕ → Prop} {Q : α → Prop}
    (goes : ∀ s n t k s', n+k ≤ r.length → scannerGetToken loaded (r.drop n) = .ok t k →
      I s n → f.onToken s n t = .inl s' → I s' (n+k))
    (leaves : ∀ s n t k a, n+k ≤ r.length → scannerGetToken loaded (r.drop n) = .ok t k →
      I s n → f.onToken s n t = .inr a → Q a)
    (stop : ∀ s n st k, n ≤ r.length → scannerGetToken loaded (r.drop n) = .stop st k →
      I s n → Q (f.onStop s n st))
    (s : σ) (n : ℕ) (hn : n ≤ r.length) (hs : I s n) :
    Q (readFrom loaded f (s,n,r.drop n)) := by
  induction hm : r.length-n using Nat.strong_induction_on generalizing s n with
  | _ m ih =>
    subst hm
    cases ht : scannerGetToken loaded (r.drop n) with
    | stop st k =>
      rw [readFrom_stop ht]
      exact stop s n st k hn ht hs
    | ok t k =>
      have hk := scannerGetToken_ok ht
      rw [List.length_drop] at hk
      cases ho : f.onToken s n t with
      | inr a =>
        rw [readFrom_leave ht ho]
        exact leaves s n t k a (by omega) ht hs ho
      | inl s' =>
        have hs' := goes s n t k s' (by omega) ht hs ho
        rw [readFrom_token ht ho,List.drop_drop]
        exact ih _ (by omega) s' (n+k) (by omega) hs' rfl

/-- A token loop either is done with what it has read, or it stands in front of a token
that is not complete, where it goes on when more bytes arrive. -/
theorem readFrom_append {σ α : Type} (f : Reader σ α) (s : σ) (n : ℕ) (r : List UInt8) :
    (∀ x, readFrom false f (s,n,r++x) = readFrom false f (s,n,r)) ∨
    ∃ s' k, k ≤ r.length ∧ (scannerGetToken false (r.drop k)).waiting ∧
      readFrom false f (s,n,r) = f.onStop s' (n+k) .incomplete ∧
      ∀ x, readFrom false f (s,n,r++x) = readFrom false f (s',n+k,r.drop k++x) := by
  induction hm : r.length using Nat.strong_induction_on generalizing s n r with
  | _ m ih =>
    subst hm
    by_cases hw : (scannerGetToken false r).waiting
    · right
      cases ht : scannerGetToken false r with
      | ok t k => simp [ht] at hw
      | stop st k =>
        rw [ht,waiting_stop] at hw
        subst hw
        exact ⟨s,0,by omega,by simp [ht],readFrom_stop ht,by simp⟩
    · have hx := fun x => scannerGetToken_stable r x hw
      cases ht : scannerGetToken false r with
      | stop st k =>
        left
        intro x
        rw [readFrom_stop ht,readFrom_stop ((hx x).trans ht)]
      | ok t k =>
        have hk := scannerGetToken_ok ht
        cases ho : f.onToken s n t with
        | inr a =>
          left
          intro x
          rw [readFrom_leave ht ho,readFrom_leave ((hx x).trans ht) ho]
        | inl s' =>
          have hgo : ∀ x, readFrom false f (s,n,r++x) =
              readFrom false f (s',n+k,r.drop k++x) := by
            intro x
            rw [readFrom_token ((hx x).trans ht) ho,List.drop_append_of_le_length hk.2.1]
          rw [readFrom_token ht ho]
          rcases ih (r.drop k).length (by rw [List.length_drop]; omega) s' (n+k) (r.drop k) rfl
            with hl | ⟨s₂,j,hj,hwait,hstop,hcont⟩
          · left
            intro x
            rw [hgo x,hl x]
          · right
            rw [List.length_drop] at hj
            refine ⟨s₂,k+j,by omega,by rwa [List.drop_drop] at hwait,by rw [hstop,Nat.add_assoc],?_⟩
            intro x
            rw [hgo x,hcont x,List.drop_drop,Nat.add_assoc]

/-! The routines built on token loops. -/

theorem readTokens_stable {σ α : Type} {f : Reader σ (Scan α)} {s : σ}
    (h : ∀ s' n, (f.onStop s' n .incomplete).waiting) : Stable (readTokens false f s) := by
  intro r x hw
  rcases readFrom_append f s 0 r with hl | ⟨s',k,-,-,hstop,-⟩
  · exact hl x
  · unfold readTokens at hw
    rw [hstop] at hw
    exact absurd (h s' (0+k)) hw

/-- The cursor stays in the input when every answer of the reader lies behind it. -/
theorem readTokens_bounded {σ α : Type} {loaded : Bool} {f : Reader σ (Scan α)} {s : σ}
    {I : σ → ℕ → Prop} (hs : I s 0)
    (goes : ∀ s n t s', I s n → f.onToken s n t = .inl s' → I s' (n+t.text.length))
    (leaves : ∀ s n t a, I s n → f.onToken s n t = .inr a → a.used ≤ n)
    (stop : ∀ s n st, I s n → (f.onStop s n st).used ≤ n) :
    Bounded (readTokens loaded f s) := by
  intro r
  refine readFrom_rule (Q := fun a : Scan α => a.used ≤ r.length) r (I := I) ?_ ?_ ?_ s 0
    (Nat.zero_le _) hs
  · intro s n t k s' hk ht hi ho
    have hlen : t.text.length = k := by
      rw [(scannerGetToken_ok ht).2.2,List.length_take,List.length_drop]
      omega
    rw [← hlen]
    exact goes s n t s' hi ho
  · intro s n t k a hk _ hi ho
    exact Nat.le_trans (leaves s n t a hi ho) (by omega)
  · intro s n st k hn _ hi
    exact Nat.le_trans (stop s n st hi) hn

/-- A loop that answers in front of a token needs no more than that token and a byte. -/
theorem readTokens_prompt {σ α : Type} {f : Reader σ (Scan α)} {s : σ}
    (leaves : ∀ s' n t a k, f.onToken s' n t = .inr (.ok a k) → k = n)
    (stop : ∀ s' n st a k, f.onStop s' n st ≠ .ok a k) {r x : List UInt8} {a : α} {n k : ℕ}
    {t : Token} (h : readTokens false f s (r++x) = .ok a n)
    (ht : scannerGetToken false ((r++x).drop n) = .ok t k) (hn : n+k < r.length) :
    readTokens false f s r = .ok a n := by
  unfold readTokens at h ⊢
  rcases readFrom_append f s 0 r with hl | ⟨s',j,hj,hwait,-,hcont⟩
  · rw [← hl x,h]
  exfalso
  rw [hcont x,Nat.zero_add] at h
  cases hg : scannerGetToken false (r.drop j++x) with
  | stop st i =>
    rw [readFrom_stop hg] at h
    exact stop s' j st a n h
  | ok t' i =>
    have hfar : ¬j+i < r.length := by
      intro hlt
      have hp := scannerGetToken_prompt hg (by rw [List.length_drop]; omega)
      rw [hp] at hwait
      exact hwait
    have hi := (scannerGetToken_ok hg).2.1
    rw [List.length_append,List.length_drop] at hi
    cases ho : f.onToken s' j t' with
    | inr b =>
      rw [readFrom_leave hg ho] at h
      subst h
      obtain rfl := leaves s' j t' a n ho
      rw [List.drop_append_of_le_length hj,hg] at ht
      cases ht
      exact hfar hn
    | inl s₂ =>
      rw [readFrom_token hg ho,← List.drop_append_of_le_length hj,List.drop_drop] at h
      revert h
      refine readFrom_rule (Q := fun b : Scan α => b = .ok a n → False) (r++x) (I := fun _ m => j+i ≤ m)
        ?_ ?_ ?_ s₂ (j+i) (by rw [List.length_append]; omega) (Nat.le_refl _)
      · intro _ _ _ _ _ _ _ hm _
        exact Nat.le_trans hm (Nat.le_add_right _ _)
      · rintro s₃ m t₃ k₃ b - - hm hb rfl
        obtain rfl := leaves s₃ m t₃ a n hb
        omega
      · intro s₃ m st k₃ _ _ _ hb
        exact stop s₃ m st a n hb

theorem skipBlankLines_stable : Stable (skipBlankLines false) :=
  readTokens_stable fun _ _ => by simp

theorem skipBlankLines_bounded (loaded : Bool) : Bounded (skipBlankLines loaded) := by
  apply readTokens_bounded (I := fun _ _ => True) trivial
  · intros
    trivial
  · intro s n t a _ h
    simp only at h
    split at h
    · cases h
    · cases h
      exact Nat.le_refl n
  · intro s n st _
    exact Nat.le_refl n

theorem skipBlankLines_prompt {r x : List UInt8} {n k : ℕ} {t : Token}
    (h : skipBlankLines false (r++x) = .ok () n)
    (ht : scannerGetToken false ((r++x).drop n) = .ok t k) (hn : n+k < r.length) :
    skipBlankLines false r = .ok () n := by
  refine readTokens_prompt ?_ ?_ h ht hn
  · intro s m t a k ho
    simp only at ho
    split at ho <;> cases ho
    rfl
  · intro s m st a k ho
    cases ho

theorem skipLws_stable : Stable (skipLws false) :=
  readTokens_stable fun _ _ => by simp

theorem skipLws_bounded (loaded : Bool) : Bounded (skipLws loaded) := by
  apply readTokens_bounded (I := fun s n => s.1 ≤ n) (Nat.le_refl 0)
  · rintro s n t s' hq h
    simp only at h
    split at h
    · cases h
      exact Nat.le_refl _
    split at h
    · cases h
      exact Nat.le_trans hq (Nat.le_add_right _ _)
    · cases h
  · rintro s n t a hq h
    simp only at h
    split at h
    · cases h
    split at h <;> cases h
    exact hq
  · rintro s n st hq
    simp only
    split <;> exact hq

theorem matchNonWsString_stable : Stable (matchNonWsString false) :=
  readTokens_stable fun _ _ => by simp

theorem matchNonWsString_bounded (loaded : Bool) : Bounded (matchNonWsString loaded) := by
  have hf : ∀ n : ℕ, (if n = 0 then .stop .noMatch 0 else .ok () n : Scan Unit).used ≤ n := by
    intro n
    split <;> simp
  apply readTokens_bounded (I := fun _ _ => True) trivial
  · intros
    trivial
  · intro s n t a _ h
    simp only at h
    split at h <;> cases h
    exact hf n
  · intro s n st _
    simp only
    split
    · exact hf n
    · exact Nat.zero_le n

theorem matchNonWsString_prompt {r x : List UInt8} {n k : ℕ} {t : Token}
    (h : matchNonWsString false (r++x) = .ok () n)
    (ht : scannerGetToken false ((r++x).drop n) = .ok t k) (hn : n+k < r.length) :
    matchNonWsString false r = .ok () n := by
  refine readTokens_prompt ?_ ?_ h ht hn
  · intro s m t a k ho
    simp only at ho
    split at ho
    · split at ho <;> cases ho
      rfl
    · cases ho
  · intro s m st a k ho
    simp at ho

theorem readUntilCrlf_stable : Stable (readUntilCrlf false) :=
  readTokens_stable fun _ _ => by simp

theorem readUntilCrlf_bounded (loaded : Bool) : Bounded (readUntilCrlf loaded) := by
  apply readTokens_bounded (I := fun _ _ => True) trivial
  · intros
    trivial
  · intro s n t a _ h
    simp only at h
    split at h <;> cases h
    exact Nat.le_refl n
  · intro s n st _
    exact Nat.le_refl n

theorem rawValueLength_stable : Stable (rawValueLength false) :=
  readTokens_stable fun _ _ => by simp

/-- A raw value ends in the input, and the CRLF the cursor is left at is not behind it. -/
theorem rawValueLength_ok {loaded : Bool} {r : List UInt8} {len q : ℕ}
    (h : rawValueLength loaded r = .ok len q) : q ≤ len ∧ len ≤ r.length := by
  revert h
  refine readFrom_rule (f := _) r (I := fun (s : Option ℕ) n => ∀ q, s = some q → q ≤ n)
    (Q := fun a : Scan ℕ => a = .ok len q → q ≤ len ∧ len ≤ r.length) ?_ ?_ ?_
    none 0 (Nat.zero_le _) (by simp)
  · rintro s n t k s' - ht hq h
    cases s with
    | none =>
      simp only at h
      split at h <;> cases h
      · rintro q ⟨⟩
        exact Nat.le_add_right n k
      · rintro q ⟨⟩
    | some q =>
      simp only at h
      split at h <;> cases h
      rintro q ⟨⟩
  · rintro s n t k a hk ht hq h rfl
    cases s with
    | none =>
      simp only at h
      split at h <;> cases h
    | some q =>
      simp only at h
      split at h <;> cases h
      exact ⟨hq q rfl,by omega⟩
  · rintro s n st k - - - ⟨⟩

theorem matchRawValue_stable : Stable (matchRawValue false) := by
  intro r x hw
  have hr : ¬(rawValueLength false r).waiting := by
    cases h : rawValueLength false r with
    | ok len q => simp
    | stop st k => simpa [matchRawValue,h] using hw
  simp only [matchRawValue]
  rw [rawValueLength_stable r x hr]
  cases h : rawValueLength false r with
  | stop st k => rfl
  | ok len q =>
    have hlen := (rawValueLength_ok h).2
    simp only [List.take_append_of_le_length hlen]

theorem rawValueLength_bounded (loaded : Bool) : Bounded (rawValueLength loaded) := by
  intro r
  cases h : rawValueLength loaded r with
  | ok len q =>
    have hl := rawValueLength_ok h
    exact Nat.le_trans hl.1 hl.2
  | stop st k =>
    have hk : k = 0 := by
      revert h
      refine readFrom_rule (f := _) r (I := fun (_ : Option ℕ) _ => True)
        (Q := fun a : Scan ℕ => a = .stop st k → k = 0) ?_ ?_ ?_
        none 0 (Nat.zero_le _) trivial
      · intros
        trivial
      · rintro s n t j a - - - h rfl
        cases s with
        | none =>
          simp only at h
          split at h <;> cases h
        | some q =>
          simp only at h
          split at h <;> cases h
      · rintro s n st' j - - - ⟨⟩
        rfl
    simp [hk]

theorem matchRawValue_bounded (loaded : Bool) : Bounded (matchRawValue loaded) := by
  intro r
  have hr := rawValueLength_bounded loaded r
  simp only [matchRawValue]
  cases h : rawValueLength loaded r with
  | ok len q => simpa [h] using hr
  | stop st k => simpa [h] using hr

theorem matchInt_stable {base : ℕ} (hb : base ≤ 36) (r x : List UInt8)
    (h : ¬(matchInt false base r).2.waiting) : matchInt false base (r++x) = matchInt false base r := by
  have hw : ¬(scannerGetToken false r).waiting := by
    cases ht : scannerGetToken false r with
    | ok t n => simp
    | stop st n => simpa [matchInt,ht] using h
  simp only [matchInt]
  rw [scannerGetToken_stable r x hw]
  cases ht : scannerGetToken false r with
  | stop st n => rfl
  | ok t n =>
    simp only
    split
    · rename_i hid
      have hx := strtol_identifier (x := x) hb ht hid
      have hnil := strtol_identifier (x := []) hb ht hid
      rw [List.append_nil] at hnil
      rw [hx,hnil]
    · rfl

theorem matchInt_bounded (loaded : Bool) (base : ℕ) : Bounded fun r => (matchInt loaded base r).2 := by
  intro r
  simp only [matchInt]
  cases ht : scannerGetToken loaded r with
  | stop st n => simp
  | ok t n =>
    have hn := (scannerGetToken_ok ht).2.1
    simp only
    split
    · split
      · simp
      · exact hn
    · simp

theorem matchChar_stable (c : UInt8) (cs : Bool) : Stable (matchChar c cs) := by
  intro r x h
  cases r with
  | nil => simp [matchChar] at h
  | cons d ds => rfl

theorem matchChar_bounded (c : UInt8) (cs : Bool) : Bounded (matchChar c cs) := by
  intro r
  cases r with
  | nil => simp [matchChar]
  | cons d ds =>
    simp only [matchChar]
    split <;> split <;> simp

/-! Formats. -/

theorem expectToken_ok {loaded : Bool} {type : TokenType} {r : List UInt8} {t : Token} {k : ℕ}
    (h : expectToken loaded type r = .ok t k) :
    scannerGetToken loaded r = .ok t k ∧ t.type = type := by
  simp only [expectToken] at h
  cases hr : scannerGetToken loaded r with
  | stop st j => simp [hr] at h
  | ok t' j =>
    simp only [hr] at h
    split at h
    · rename_i hty
      cases h
      exact ⟨rfl,hty⟩
    · cases h

theorem expectToken_stable (type : TokenType) : Stable (expectToken false type) := by
  intro r x h
  have hw : ¬(scannerGetToken false r).waiting := by
    cases ht : scannerGetToken false r with
    | ok t n => simp
    | stop st n => simpa [expectToken,ht] using h
  simp only [expectToken]
  rw [scannerGetToken_stable r x hw]

theorem expectToken_bounded (loaded : Bool) (type : TokenType) :
    Bounded (expectToken loaded type) := by
  intro r
  have hb := scannerGetToken_bounded loaded r
  simp only [expectToken]
  cases ht : scannerGetToken loaded r with
  | stop st n => simpa [ht] using hb
  | ok t n =>
    simp only
    split <;> simpa [ht] using hb

/-- The directives of a format for input that may still grow: `%0` is not one, and a
number's base has letters and digits only. -/
def Directive.incremental : Directive → Bool
  | .endMsg => false
  | .num base => decide (base ≤ 36)
  | _ => true

@[simp] theorem store_waiting {α : Type} (s : Scan α) (vals : α → ℕ → List MatchVal) :
    (s.store vals).2.waiting ↔ s.waiting := by
  cases s <;> simp [Scan.store]

@[simp] theorem store_used {α : Type} (s : Scan α) (vals : α → ℕ → List MatchVal) :
    (s.store vals).2.used = s.used := by
  cases s <;> rfl

/-- A string that is given by how far the cursor moves. -/
theorem store_take_append {f : List UInt8 → Scan Unit} (hb : Bounded f) (n : ℕ)
    (r x : List UInt8) :
    (f r).store (fun _ k => [.text n ((r++x).take k)]) =
      (f r).store (fun _ k => [.text n (r.take k)]) := by
  have hr := hb r
  cases h : f r with
  | stop st k => rfl
  | ok u k =>
    rw [h,used_ok] at hr
    simp only [Scan.store,List.take_append_of_le_length hr]

theorem directive_stable {d : Directive} (hd : d.incremental = true) (cs : Bool) (n : ℕ)
    (r x : List UInt8) (h : ¬(directive false cs n r d).2.waiting) :
    directive false cs n (r++x) d = directive false cs n r d := by
  cases d with
  | endMsg => cases hd
  | caseSensitive on => rfl
  | char c => simp only [directive,matchChar_stable c cs r x h]
  | lws => simp only [directive,skipLws_stable r x h]
  | num base =>
    have hb : base ≤ 36 := by simpa [Directive.incremental] using hd
    simp only [directive,matchInt_stable hb r x h]
  | raw =>
    simp only [directive,store_waiting] at h ⊢
    rw [matchRawValue_stable r x h]
  | ident =>
    simp only [directive,store_waiting] at h ⊢
    rw [expectToken_stable .identifier r x h]
  | quoted =>
    simp only [directive,store_waiting] at h ⊢
    rw [expectToken_stable .quotedString r x h]
  | crlf =>
    simp only [directive,store_waiting] at h ⊢
    rw [expectToken_stable .crlf r x h]
  | ws =>
    simp only [directive,store_waiting] at h ⊢
    rw [expectToken_stable .whitespace r x h]
  | nonWs =>
    simp only [directive,store_waiting] at h ⊢
    rw [matchNonWsString_stable r x h]
    exact store_take_append (matchNonWsString_bounded false) n r x
  | line =>
    simp only [directive,store_waiting] at h ⊢
    rw [readUntilCrlf_stable r x h]
    exact store_take_append (readUntilCrlf_bounded false) n r x
  | optWs =>
    have hw : ¬(scannerGetToken false r).waiting := by
      cases ht : scannerGetToken false r with
      | ok t k => simp
      | stop st k => simpa [directive,ht] using h
    simp only [directive,scannerGetToken_stable r x hw]

theorem directive_bounded (loaded cs : Bool) (n : ℕ) (r : List UInt8) (d : Directive) :
    (directive loaded cs n r d).2.used ≤ r.length := by
  cases d with
  | endMsg =>
    simp only [directive]
    split <;> simp
  | caseSensitive on => exact Nat.zero_le _
  | char c => exact matchChar_bounded c cs r
  | lws => exact skipLws_bounded loaded r
  | num base => exact matchInt_bounded loaded base r
  | raw => simpa [directive] using matchRawValue_bounded loaded r
  | ident => simpa [directive] using expectToken_bounded loaded .identifier r
  | quoted => simpa [directive] using expectToken_bounded loaded .quotedString r
  | crlf => simpa [directive] using expectToken_bounded loaded .crlf r
  | ws => simpa [directive] using expectToken_bounded loaded .whitespace r
  | nonWs => simpa [directive] using matchNonWsString_bounded loaded r
  | line => simpa [directive] using readUntilCrlf_bounded loaded r
  | optWs =>
    have hb := scannerGetToken_bounded loaded r
    simp only [directive]
    cases ht : scannerGetToken loaded r with
    | stop st k => simpa [ht] using hb
    | ok t k =>
      rw [ht] at hb
      simp only [used_ok] at hb ⊢
      split <;> omega

theorem directive_waiting {cs : Bool} {n : ℕ} {r : List UInt8} {d : Directive}
    (h : (directive false cs n r d).2.waiting) : (directive false cs n r d).1 = [] := by
  have hs : ∀ {α : Type} (s : Scan α) (vals : α → ℕ → List MatchVal),
      (s.store vals).2.waiting → (s.store vals).1 = [] := by
    intro α s vals hw
    cases s with
    | ok a k => exact absurd hw (by simp)
    | stop st k => rfl
  cases d with
  | endMsg => rfl
  | caseSensitive on => rfl
  | char c => rfl
  | lws => rfl
  | optWs =>
    simp only [directive]
    split <;> rfl
  | num base =>
    simp only [directive,matchInt] at h ⊢
    cases ht : scannerGetToken false r with
    | stop st k => rfl
    | ok t k =>
      simp only [ht] at h
      split at h
      · split at h <;> exact absurd h (by simp)
      · exact absurd h (by simp)
  | raw => exact hs _ _ h
  | ident => exact hs _ _ h
  | quoted => exact hs _ _ h
  | crlf => exact hs _ _ h
  | ws => exact hs _ _ h
  | nonWs => exact hs _ _ h
  | line => exact hs _ _ h

@[simp] theorem status_incomplete (st : StopStatus) :
    st.status = .incomplete ↔ st = .incomplete := by
  cases st <;> decide

theorem status_ne_ok (st : StopStatus) : st.status ≠ .ok := by
  cases st <;> decide

/-- A match that succeeds moves the cursor within its input, at least over what its first
directive takes; one that fails does not move it. -/
theorem vfmatchFrom_used (loaded : Bool) (fmt : List Directive) (cs : Bool) (n : ℕ)
    (r : List UInt8) :
    ((vfmatchFrom loaded fmt cs n r).status = .ok →
      n ≤ (vfmatchFrom loaded fmt cs n r).used ∧
      (vfmatchFrom loaded fmt cs n r).used ≤ n+r.length) ∧
    ((vfmatchFrom loaded fmt cs n r).status ≠ .ok → (vfmatchFrom loaded fmt cs n r).used = 0) := by
  induction fmt generalizing cs n r with
  | nil => simp [vfmatchFrom]
  | cons d ds ih =>
    have hb := directive_bounded loaded cs n r d
    rcases hd : directive loaded cs n r d with ⟨vs,st⟩
    rw [hd] at hb
    cases st with
    | stop st k =>
      simp only [vfmatchFrom,hd]
      exact ⟨fun h => absurd h (status_ne_ok st),fun _ => trivial⟩
    | ok u k =>
      simp only [vfmatchFrom,hd]
      have hi := ih (nextCase cs d) (n+k) (r.drop k)
      rw [List.length_drop] at hi
      rw [used_ok] at hb
      refine ⟨fun h => ?_,hi.2⟩
      have h1 := hi.1 h
      omega

theorem vfmatchFrom_stable {fmt : List Directive} (hf : ∀ d ∈ fmt, d.incremental = true) (cs : Bool)
    (n : ℕ) (r x : List UInt8) (h : (vfmatchFrom false fmt cs n r).status ≠ .incomplete) :
    vfmatchFrom false fmt cs n (r++x) = vfmatchFrom false fmt cs n r := by
  induction fmt generalizing cs n r with
  | nil => rfl
  | cons d ds ih =>
    have hd := hf d (by simp)
    have hw : ¬(directive false cs n r d).2.waiting := by
      rcases hs : directive false cs n r d with ⟨vs,st⟩
      cases st with
      | ok u k => simp
      | stop st k => simpa [vfmatchFrom,hs] using h
    have hb := directive_bounded false cs n r d
    have hx := directive_stable hd cs n r x hw
    rcases hs : directive false cs n r d with ⟨vs,st⟩
    rw [hs] at hx hb
    cases st with
    | stop st k => simp only [vfmatchFrom,hx,hs]
    | ok u k =>
      rw [used_ok] at hb
      simp only [vfmatchFrom,hs] at h
      simp only [vfmatchFrom,hx,hs]
      rw [List.drop_append_of_le_length hb]
      rw [ih (fun e he => hf e (by simp [he])) (nextCase cs d) (n+k) (r.drop k) h]

theorem scannerMatch_stable {fmt : List Directive} (hf : ∀ d ∈ fmt, d.incremental = true)
    {r : List UInt8} (h : (scannerMatch fmt r).status ≠ .incomplete) (x : List UInt8) :
    scannerMatch fmt (r++x) = scannerMatch fmt r := vfmatchFrom_stable hf true 0 r x h

/-- A match either succeeds or ends with the status of one of its directives. -/
theorem vfmatchFrom_status (loaded : Bool) (fmt : List Directive) (cs : Bool) (n : ℕ)
    (r : List UInt8) : (vfmatchFrom loaded fmt cs n r).status = .ok ∨
      ∃ st : StopStatus, (vfmatchFrom loaded fmt cs n r).status = st.status := by
  induction fmt generalizing cs n r with
  | nil => exact .inl rfl
  | cons d ds ih =>
    rcases hd : directive loaded cs n r d with ⟨vs,st⟩
    cases st with
    | stop st k => exact .inr ⟨st,by simp only [vfmatchFrom,hd]⟩
    | ok u k =>
      simp only [vfmatchFrom,hd]
      exact ih _ _ _

theorem scannerMatch_status (fmt : List Directive) (r : List UInt8) :
    (scannerMatch fmt r).status = .ok ∨
      ∃ st : StopStatus, (scannerMatch fmt r).status = st.status :=
  vfmatchFrom_status false fmt true 0 r

theorem scannerMatch_used_le (fmt : List Directive) (r : List UInt8) :
    (scannerMatch fmt r).used ≤ r.length := by
  have h := vfmatchFrom_used false fmt true 0 r
  by_cases hs : (vfmatchFrom false fmt true 0 r).status = .ok
  · simpa [scannerMatch,vfmatch] using (h.1 hs).2
  · simp [scannerMatch,vfmatch,h.2 hs]

/-- Directives that match a token or a byte of their own. -/
def Directive.consuming : Directive → Bool
  | .ident | .quoted | .crlf | .ws | .num _ | .char _ => true
  | _ => false

theorem expectToken_pos {loaded : Bool} {type : TokenType} {r : List UInt8} {t : Token} {k : ℕ}
    (h : expectToken loaded type r = .ok t k) : 0 < k :=
  (scannerGetToken_ok (expectToken_ok h).1).1

theorem directive_pos {loaded cs : Bool} {n k : ℕ} {r : List UInt8} {d : Directive}
    (hd : d.consuming = true) (h : (directive loaded cs n r d).2 = .ok () k) : 0 < k := by
  have hs : ∀ (type : TokenType) (vals : Token → ℕ → List MatchVal),
      ((expectToken loaded type r).store vals).2 = .ok () k → 0 < k := by
    intro type vals hk
    cases he : expectToken loaded type r with
    | stop st j => simp [he,Scan.store] at hk
    | ok t j =>
      simp only [he,Scan.store,Scan.ok.injEq,true_and] at hk
      rw [← hk]
      exact expectToken_pos he
  cases d with
  | ident => exact hs _ _ h
  | quoted => exact hs _ _ h
  | crlf => exact hs _ _ h
  | ws => exact hs _ _ h
  | char c =>
    simp only [directive] at h
    cases r with
    | nil => cases h
    | cons a as =>
      simp only [matchChar] at h
      split at h <;> split at h <;> cases h <;> decide
  | num base =>
    simp only [directive,matchInt] at h
    cases ht : scannerGetToken loaded r with
    | stop st j => simp [ht] at h
    | ok t j =>
      simp only [ht] at h
      split at h
      · split at h
        · cases h
        · cases h
          exact (scannerGetToken_ok ht).1
      · cases h
  | _ => cases hd

theorem scannerMatch_used_pos {d : Directive} {ds : List Directive} (hd : d.consuming = true)
    {r : List UInt8} (h : (scannerMatch (d::ds) r).status = .ok) :
    0 < (scannerMatch (d::ds) r).used := by
  simp only [scannerMatch,vfmatch] at h ⊢
  rcases he : directive false true 0 r d with ⟨vs,st⟩
  cases st with
  | stop st k =>
    simp only [vfmatchFrom,he] at h
    exact absurd h (status_ne_ok st)
  | ok u k =>
    have hk : 0 < k := directive_pos hd (by rw [he])
    simp only [vfmatchFrom,he] at h ⊢
    have hu := ((vfmatchFrom_used false ds (nextCase true d) (0+k) (r.drop k)).1 h).1
    omega

end Http
end CtrlPt
