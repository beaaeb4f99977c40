import CtrlPt.Http.Chunked

/-! The integer fields of GENA headers, which `matchstr` reads. -/
namespace CtrlPt
namespace Http

open CText

def seqFmt : List Directive := [.num 10,.endMsg]

def timeoutFmt : List Directive := [.caseSensitive false] ++ literal "Second-" ++ [.num 10,.endMsg]

def Match.storeTo (m : Match) (old : ℤ) : ℤ := (m.intAt 0).getD old

/-- `Second-`, in any case, and a numeral. -/
def SecondNumeral (v : List UInt8) (n : ℕ) : Prop :=
  ∃ pre ds, v = pre++ds ∧ pre.map toLower = cstr "second-" ∧ Numeral 10 ds n

/-- A field is a numeral of at most 31 bits, or it is not accepted and stores nothing. -/
structure ReadsField (fmt : List Directive) (denotes : List UInt8 → ℕ → Prop) (v : List UInt8) :
    Prop where
  accepts : ∀ n, denotes v n → n < 2^31 →
    (matchstr v fmt).status = .ok ∧ ∀ old, (matchstr v fmt).storeTo old = n
  rejects : (∀ n, denotes v n → ¬n < 2^31) →
    (matchstr v fmt).status ≠ .ok ∧ ∀ old, (matchstr v fmt).storeTo old = old

/-- What begins with an identifier is a numeral of at most 31 bits. -/
def NumeralOrNone (v : List UInt8) : Prop :=
  (∃ n < 2^31, Numeral 10 v n) ∨ ∀ c ∈ v.head?, isIdentifierChar c = false

theorem scanRun_loaded (p : UInt8 → Bool) (type : TokenType) (c : UInt8) (cs : List UInt8) :
    scanRun true p type c cs = .ok ⟨c::cs.takeWhile p,type⟩ ((cs.takeWhile p).length+1) := by
  simp [scanRun]

theorem scannerGetToken_other {loaded : Bool} {r : List UInt8} {t : Token} {n : ℕ}
    (h : scannerGetToken loaded r = .ok t n) (hr : ∀ c ∈ r.head?, isIdentifierChar c = false) :
    t.type ≠ .identifier := by
  cases r with
  | nil => simp [scannerGetToken] at h
  | cons c cs =>
    have hc := hr c rfl
    simp only [scannerGetToken,hc,Bool.false_eq_true,if_false] at h
    have hno : ∀ u : Token, ∀ k : ℕ, u.type ≠ .identifier → Scan.ok u k = Scan.ok t n →
        t.type ≠ .identifier := by
      intro u k hu he
      simp only [Scan.ok.injEq] at he
      rw [← he.1]
      exact hu
    split at h
    · simp only [scanRun] at h
      split at h
      · cases h
      · exact hno _ _ (by rintro ⟨⟩) h
    split at h
    · cases cs with
      | nil => cases h
      | cons d ds =>
        simp only at h
        split at h
        · exact hno _ _ (by rintro ⟨⟩) h
        · exact hno _ _ (by rintro ⟨⟩) h
    split at h
    · exact hno _ _ (by rintro ⟨⟩) h
    split at h
    · cases hq : quotedEnd 1 cs with
      | stop st m => simp [hq] at h
      | ok u m =>
        simp only [hq] at h
        exact hno _ _ (by rintro ⟨⟩) h
    split at h
    · exact hno _ _ (by rintro ⟨⟩) h
    split at h
    · exact hno _ _ (by rintro ⟨⟩) h
    · cases h

theorem matchInt_other (loaded : Bool) (base : ℕ) {r : List UInt8}
    (hr : ∀ c ∈ r.head?, isIdentifierChar c = false) :
    ∃ st, matchInt loaded base r = (none,.stop st 0) := by
  unfold matchInt
  cases ht : scannerGetToken loaded r with
  | stop st k => exact ⟨st,rfl⟩
  | ok t k => exact ⟨.noMatch,if_neg (scannerGetToken_other ht hr)⟩

/-- An identifier is stored as an integer, whatever it is. -/
theorem matchInt_stores (base : ℕ) {c : UInt8} (cs : List UInt8) (hc : isIdentifierChar c = true) :
    ∃ z, (matchInt true base (c::cs)).1 = some z := by
  unfold matchInt
  simp only [scannerGetToken,if_pos hc,scanRun_loaded,if_true]
  split
  · exact ⟨_,rfl⟩
  · exact ⟨_,rfl⟩

theorem toInt_of_lt {n : ℕ} (h : n < 2^31) : toInt (n : ℤ) = n := by
  unfold toInt
  rw [Int.bmod_eq_of_le] <;> omega

theorem matchInt_whole {v : List UInt8} {n : ℕ} (h : Numeral 10 v n) (hn : n < 2^31) :
    matchInt true 10 v = (some (n : ℤ),.ok () v.length) := by
  have hid : ∀ d ∈ v, isIdentifierChar d = true := fun d hd =>
    isIdentifierChar_of_alnum d (isAlnum_of_isBaseDigit (by decide) (h.digits d hd))
  have hval := strtol_numeral (by decide) h (by omega)
  obtain ⟨c,cs,rfl⟩ := List.exists_cons_of_ne_nil h.ne_nil
  have hs : cs.takeWhile isIdentifierChar = cs :=
    List.takeWhile_eq_self_iff.mpr fun d hd => hid d (by simp [hd])
  simp only [matchInt,scannerGetToken,if_pos (hid c (by simp)),scanRun_loaded,hs,hval,if_true,
    toInt_of_lt hn,List.length_cons]
  rw [if_neg]
  simp

theorem numeralEnd_accepts {v : List UInt8} {n : ℕ} (h : Numeral 10 v n) (hn : n < 2^31)
    (cs : Bool) (k : ℕ) :
    (vfmatchFrom true seqFmt cs k v).status = .ok ∧
      (vfmatchFrom true seqFmt cs k v).vals = [.int n] := by
  simp [seqFmt,vfmatchFrom,directive,matchInt_whole h hn]

theorem numeralEnd_other {v : List UInt8} (hv : ∀ c ∈ v.head?, isIdentifierChar c = false)
    (cs : Bool) (k : ℕ) :
    (vfmatchFrom true seqFmt cs k v).status ≠ .ok ∧ (vfmatchFrom true seqFmt cs k v).vals = [] := by
  rcases matchInt_other true 10 hv with ⟨st,hst⟩
  simp only [seqFmt,vfmatchFrom,directive,hst]
  exact ⟨status_ne_ok st,rfl⟩

theorem numeralEnd_stores {c : UInt8} (v : List UInt8) (hc : isIdentifierChar c = true)
    (cs : Bool) (k : ℕ) :
    ∃ z vs, (vfmatchFrom true seqFmt cs k (c::v)).vals = .int z::vs := by
  rcases matchInt_stores 10 v hc with ⟨z,hz⟩
  rcases hm : matchInt true 10 (c::v) with ⟨o,s⟩
  rw [hm] at hz
  simp only at hz
  subst hz
  cases s with
  | ok u k' => exact ⟨z,_,by simp only [seqFmt,vfmatchFrom,directive,hm]; rfl⟩
  | stop st k' => exact ⟨z,[],by simp only [seqFmt,vfmatchFrom,directive,hm]; rfl⟩

/-- Literal text, in any case: either it is there, or nothing has been stored. -/
theorem literal_match (w : List UInt8) (fs : List Directive) (k : ℕ) (v : List UInt8) :
    (∃ pre ds, v = pre++ds ∧ pre.map toLower = w.map toLower ∧
      vfmatchFrom true (w.map .char++fs) false k v = vfmatchFrom true fs false (k+w.length) ds) ∨
    ((∀ pre ds, v = pre++ds → pre.map toLower ≠ w.map toLower) ∧
      (vfmatchFrom true (w.map .char++fs) false k v).status ≠ .ok ∧
      (vfmatchFrom true (w.map .char++fs) false k v).vals = []) := by
  induction w generalizing k v with
  | nil => exact .inl ⟨[],v,rfl,rfl,rfl⟩
  | cons a w ih =>
    cases v with
    | nil =>
      right
      refine ⟨?_,by rintro ⟨⟩,rfl⟩
      rintro pre ds he
      rw [(List.append_eq_nil_iff.mp he.symm).1]
      rintro ⟨⟩
    | cons c v =>
      by_cases hc : toLower a = toLower c
      · have hstep : vfmatchFrom true ((a::w).map .char++fs) false k (c::v) =
            vfmatchFrom true (w.map .char++fs) false (k+1) v := by
          simp [vfmatchFrom,directive,matchChar,hc,nextCase]
        rw [hstep]
        rcases ih (k+1) v with ⟨pre,ds,rfl,hpre,he⟩ | ⟨hno,hst,hvals⟩
        · refine .inl ⟨c::pre,ds,rfl,by simp [hpre,hc],?_⟩
          rw [he,List.length_cons,Nat.add_assoc,Nat.add_comm 1]
        · refine .inr ⟨?_,hst,hvals⟩
          rintro pre ds he hmap
          cases pre with
          | nil => cases hmap
          | cons b pre =>
            simp only [List.cons_append,List.cons.injEq,List.map_cons] at he hmap
            exact hno pre ds he.2 hmap.2
      · have hstep : vfmatchFrom true ((a::w).map .char++fs) false k (c::v) = ⟨.noMatch,[],0⟩ := by
          simp [vfmatchFrom,directive,matchChar,hc,StopStatus.status]
        rw [hstep]
        refine .inr ⟨?_,by rintro ⟨⟩,rfl⟩
        rintro pre ds he hmap
        cases pre with
        | nil => cases hmap
        | cons b pre =>
          simp only [List.cons_append,List.cons.injEq,List.map_cons] at he hmap
          exact hc (by rw [← hmap.1,he.1])

/-- A field that ends in a numeral behind some fixed text is read as documented unless what
stands for the numeral begins with an identifier and is no numeral of 31 bits. -/
theorem numeralOrNone_iff (ds : List UInt8) {m : Match} (cs : Bool) (k : ℕ)
    (hst : m.status = (vfmatchFrom true seqFmt cs k ds).status)
    (hvals : m.vals = (vfmatchFrom true seqFmt cs k ds).vals) :
    ((∀ n, Numeral 10 ds n → n < 2^31 → m.status = .ok ∧ ∀ old, m.storeTo old = n) ∧
      ((∀ n, Numeral 10 ds n → ¬n < 2^31) → m.status ≠ .ok ∧ ∀ old, m.storeTo old = old)) ↔
      NumeralOrNone ds := by
  have hgood : ∀ n, Numeral 10 ds n → n < 2^31 → m.status = .ok ∧ ∀ old, m.storeTo old = n := by
    intro n hd hn
    rcases numeralEnd_accepts hd hn cs k with ⟨ha,hv⟩
    refine ⟨hst.trans ha,fun old => ?_⟩
    simp [Match.storeTo,Match.intAt,hvals,hv]
  constructor
  · rintro ⟨-,hrej⟩
    by_cases hex : ∃ n < 2^31, Numeral 10 ds n
    · exact .inl hex
    right
    intro c hc
    have hno := hrej fun n hd hn => hex ⟨n,hn,hd⟩
    by_contra hne
    cases ds with
    | nil => cases hc
    | cons a t =>
      cases hc
      rcases numeralEnd_stores t (by simpa using hne) cs k with ⟨z,vs,hz⟩
      have hstore : ∀ old, m.storeTo old = z := by
        intro old
        simp [Match.storeTo,Match.intAt,hvals,hz]
      have h0 := (hstore 0).symm.trans (hno.2 0)
      have h1 := (hstore 1).symm.trans (hno.2 1)
      omega
  · rintro (⟨n,hn,hd⟩ | hhead)
    · exact ⟨hgood,fun hall => absurd hn (hall n hd)⟩
    · refine ⟨hgood,fun _ => ?_⟩
      rcases numeralEnd_other hhead cs k with ⟨ha,hv⟩
      refine ⟨by rw [hst]; exact ha,fun old => ?_⟩
      simp [Match.storeTo,Match.intAt,hvals,hv]

/-- The header values that are read as documented. -/
theorem readsField_iff (v : List UInt8) :
    (ReadsField seqFmt (Numeral 10) v ↔ NumeralOrNone v) ∧
      (ReadsField timeoutFmt SecondNumeral v ↔
        ∀ pre ds, v = pre++ds → pre.map toLower = cstr "second-" → NumeralOrNone ds) := by
  constructor
  · have h := numeralOrNone_iff v (m := matchstr v seqFmt) true 0 rfl rfl
    exact ⟨fun hr => h.mp ⟨hr.accepts,hr.rejects⟩,fun hn => ⟨(h.mpr hn).1,(h.mpr hn).2⟩⟩
  · have hw : (cstr "Second-").map toLower = cstr "second-" := by decide
    have hfmt : matchstr v timeoutFmt =
        vfmatchFrom true ((cstr "Second-").map .char++seqFmt) false 0 v := rfl
    rcases literal_match (cstr "Second-") seqFmt 0 v with ⟨pre,ds,rfl,hpre,he⟩ | ⟨hno,hst,hvals⟩
    · rw [← hfmt] at he
      rw [hw] at hpre
      have huniq : ∀ pre' ds', pre++ds = pre'++ds' → pre'.map toLower = cstr "second-" →
          ds' = ds := by
        intro pre' ds' hs hp
        have hl : pre.length = pre'.length := by
          rw [← List.length_map (f := toLower),hpre,← hp,List.length_map]
        exact ((List.append_inj hs hl).2).symm
      have hden : ∀ n, SecondNumeral (pre++ds) n ↔ Numeral 10 ds n := by
        intro n
        constructor
        · rintro ⟨pre',ds',hs,hp,hn⟩
          rwa [huniq pre' ds' hs hp] at hn
        · intro hn
          exact ⟨pre,ds,rfl,hpre,hn⟩
      have h := numeralOrNone_iff ds (m := matchstr (pre++ds) timeoutFmt) false
        (0+(cstr "Second-").length) (congrArg Match.status he) (congrArg Match.vals he)
      constructor
      · intro hr pre' ds' hs hp
        rw [huniq pre' ds' hs hp]
        refine h.mp ⟨fun n hn => hr.accepts n ((hden n).mpr hn),fun hall => hr.rejects fun n hn => ?_⟩
        exact hall n ((hden n).mp hn)
      · intro hn
        have hb := h.mpr (hn pre ds rfl hpre)
        refine ⟨fun n hd => hb.1 n ((hden n).mp hd),fun hall => hb.2 fun n hd => ?_⟩
        exact hall n ((hden n).mpr hd)
    · rw [← hfmt] at hst hvals
      rw [hw] at hno
      refine ⟨fun _ pre ds hs hp => absurd hp (hno pre ds hs),fun _ => ⟨?_,?_⟩⟩
      · rintro n ⟨pre,ds,hs,hp,-⟩
        exact absurd hp (hno pre ds hs)
      · intro _
        refine ⟨hst,fun old => ?_⟩
        simp [Match.storeTo,Match.intAt,hvals]

/-- 4294967296 is accepted, as zero. -/
theorem seq_wraps : ¬ ∀ v : List UInt8, 0 ∉ v →
    ReadsField seqFmt (Numeral 10) v ∧ ReadsField timeoutFmt SecondNumeral v := by
  intro h
  have hr := (h (cstr "4294967296") (by decide)).1.rejects ?_
  · exact hr.1 (by decide)
  · intro n hn hlt
    have hv : numeralValue 10 (cstr "4294967296") = 4294967296 := by decide
    have := hn.value.symm.trans hv
    omega

end Http
end CtrlPt
