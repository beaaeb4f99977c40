import CtrlPt.Lib.Resume
import CtrlPt.Http.Parser
import CtrlPt.Http.Stability

/-! Start lines under fragmentation: reading a start line again from where an incomplete
read left the cursor gives what reading it at once gives. -/
namespace CtrlPt
namespace Http

open CText Resume

/-- The statuses on which a caller reads more bytes and appends them. -/
def waitsForMore : ParseStatus → Bool
  | .incomplete => true
  | .incompleteEntity => true
  | _ => false

abbrev ExactFor (f : HttpParser → ParseStatus × HttpParser) (p : HttpParser) : Prop :=
  ExactAt HttpParser.append waitsForMore f p

@[simp] theorem waitsForMore_status (st : StopStatus) :
    waitsForMore st.status = true ↔ st = .incomplete := by
  cases st <;> decide

theorem incomplete_of_waits {st : ParseStatus} (h : waitsForMore st = true)
    (hne : st ≠ .incompleteEntity) : st = .incomplete := by
  cases st <;> first | rfl | exact absurd rfl hne | cases h

theorem vfmatchFrom_append (loaded : Bool) (fs gs : List Directive) (cs : Bool) (n : ℕ)
    (r : List UInt8) (h : (vfmatchFrom loaded (fs++gs) cs n r).status = .ok) :
    ∃ cs', (vfmatchFrom loaded fs cs n r).status = .ok ∧
      (vfmatchFrom loaded (fs++gs) cs n r).vals =
        (vfmatchFrom loaded fs cs n r).vals ++
          (vfmatchFrom loaded gs cs' (vfmatchFrom loaded fs cs n r).used
            (r.drop ((vfmatchFrom loaded fs cs n r).used-n))).vals ∧
      (vfmatchFrom loaded (fs++gs) cs n r).used =
          (vfmatchFrom loaded gs cs' (vfmatchFrom loaded fs cs n r).used
            (r.drop ((vfmatchFrom loaded fs cs n r).used-n))).used ∧
      (vfmatchFrom loaded gs cs' (vfmatchFrom loaded fs cs n r).used
            (r.drop ((vfmatchFrom loaded fs cs n r).used-n))).status = .ok := by
  induction fs generalizing cs n r with
  | nil =>
    simp only [List.nil_append] at h ⊢
    exact ⟨cs,rfl,by simp [vfmatchFrom],by simp [vfmatchFrom],by simpa [vfmatchFrom] using h⟩
  | cons d ds ih =>
    rcases hd : directive loaded cs n r d with ⟨vs,st⟩
    cases st with
    | stop st k =>
      simp only [List.cons_append,vfmatchFrom,hd] at h
      exact absurd h (status_ne_ok st)
    | ok u k =>
      simp only [List.cons_append,vfmatchFrom,hd] at h ⊢
      rcases ih _ _ _ h with ⟨cs',hs,hv,hu,ho⟩
      have hle := ((vfmatchFrom_used loaded ds (nextCase cs d) (n+k) (r.drop k)).1 hs).1
      rw [List.drop_drop,show k+((vfmatchFrom loaded ds (nextCase cs d) (n+k) (r.drop k)).used-(n+k)) =
        (vfmatchFrom loaded ds (nextCase cs d) (n+k) (r.drop k)).used-n by omega] at hv hu ho
      exact ⟨cs',hs,by rw [hv,List.append_assoc],hu,ho⟩

def Directive.silent : Directive → Bool
  | .crlf | .char _ | .caseSensitive _ | .optWs | .endMsg | .lws | .ws => true
  | _ => false

theorem vfmatchFrom_silent (loaded : Bool) (fs : List Directive) (hf : ∀ d ∈ fs, d.silent = true)
    (cs : Bool) (n : ℕ) (r : List UInt8) : (vfmatchFrom loaded fs cs n r).vals = [] := by
  induction fs generalizing cs n r with
  | nil => rfl
  | cons d ds ih =>
    have hv : (directive loaded cs n r d).1 = [] := by
      have hd := hf d (by simp)
      cases d <;> try (cases hd; done)
      · simp only [directive,Scan.store]
        split <;> rfl
      · rfl
      · rfl
      · simp only [directive]
        split <;> rfl
      · rfl
      · rfl
      · simp only [directive,Scan.store]
        split <;> rfl
    rcases hd : directive loaded cs n r d with ⟨vs,st⟩
    rw [hd] at hv
    subst hv
    cases st with
    | stop st k => simp [vfmatchFrom,hd]
    | ok u k =>
      simp only [vfmatchFrom,hd,List.nil_append]
      exact ih (fun e he => hf e (by simp [he])) _ _ _

theorem crlf_head {loaded : Bool} {r : List UInt8} {t : Token} {n : ℕ}
    (h : scannerGetToken loaded r = .ok t n) (ht : t.type = .crlf) :
    ∃ c u, r = c::u ∧ (c = cr ∨ c = lf) := by
  cases r with
  | nil => simp [scannerGetToken] at h
  | cons c u =>
    refine ⟨c,u,rfl,?_⟩
    by_contra hne
    rw [not_or] at hne
    have hno : ∀ (p : UInt8 → Bool) type, type ≠ .crlf →
        scanRun loaded p type c u ≠ .ok t n := by
      intro p type hty hr
      simp only [scanRun] at hr
      split at hr
      · cases hr
      · simp only [Scan.ok.injEq] at hr
        rcases hr with ⟨rfl,-⟩
        exact hty ht
    simp only [scannerGetToken,if_neg hne.1,if_neg hne.2] at h
    split at h
    · exact hno _ _ (by decide) h
    split at h
    · exact hno _ _ (by decide) h
    split at h
    · split at h
      · simp only [Scan.ok.injEq] at h
        rw [← h.1] at ht
        cases ht
      · cases h
    split at h
    · simp only [Scan.ok.injEq] at h
      rw [← h.1] at ht
      cases ht
    split at h
    · simp only [Scan.ok.injEq] at h
      rw [← h.1] at ht
      cases ht
    · cases h

/-- What `%L%c` at the end of a format has matched: a line and the break behind it. -/
theorem lineCrlf_ok {loaded cs : Bool} {n : ℕ} {r : List UInt8}
    (h : (vfmatchFrom loaded [.line,.crlf] cs n r).status = .ok) :
    ∃ line c u, r = line++c::u ∧ (c = cr ∨ c = lf) ∧
      (vfmatchFrom loaded [.line,.crlf] cs n r).vals = [.text n line] := by
  simp only [vfmatchFrom,directive] at h ⊢
  have hb := readUntilCrlf_bounded loaded r
  cases hl : readUntilCrlf loaded r with
  | stop st k =>
    simp only [hl,Scan.store] at h
    exact absurd h (status_ne_ok st)
  | ok u k =>
    simp only [hl,Scan.store] at h ⊢
    rw [hl,used_ok] at hb
    cases he : expectToken loaded .crlf (r.drop k) with
    | stop st j =>
      simp only [he] at h
      exact absurd h (status_ne_ok st)
    | ok t j =>
      simp only [expectToken] at he
      split at he
      · rename_i t' j' ht
        split at he
        · rename_i hty
          rcases crlf_head ht hty with ⟨c,v,hv,hc⟩
          refine ⟨r.take k,c,v,?_,hc,rfl⟩
          rw [← hv,List.take_append_drop]
        · cases he
      · cases he

/-- `w` begins with a byte that ends both a number and a run of blanks. -/
def EndsRun (w : List UInt8) : Prop := ∃ c u, w = c::u ∧ isDigit c = false ∧ isBlank c = false

theorem EndsRun.append {w : List UInt8} (h : EndsRun w) (x : List UInt8) : EndsRun (w++x) := by
  rcases h with ⟨c,u,rfl,hc⟩
  exact ⟨c,u++x,rfl,hc⟩

theorem EndsRun.dropWhile_digit {w : List UInt8} (hw : EndsRun w) (r : List UInt8) :
    (r++w).dropWhile isDigit = r.dropWhile isDigit++w := by
  rcases hw with ⟨c,u,rfl,hc,-⟩
  rw [List.dropWhile_append]
  split
  · rename_i hr
    rw [List.isEmpty_iff.mp hr,List.dropWhile_cons_of_neg (by simp [hc]),List.nil_append]
  · rfl

theorem EndsRun.dropWhile_blank {w : List UInt8} (hw : EndsRun w) (r : List UInt8) :
    (r++w).dropWhile isBlank = r.dropWhile isBlank++w := by
  rcases hw with ⟨c,u,rfl,-,hc⟩
  rw [List.dropWhile_append]
  split
  · rename_i hr
    rw [List.isEmpty_iff.mp hr,List.dropWhile_cons_of_neg (by simp [hc]),List.nil_append]
  · rfl

theorem EndsRun.headD_append {w : List UInt8} (hw : EndsRun w) (r x : List UInt8) :
    (r++(w++x)).headD 0 = (r++w).headD 0 := by
  rcases hw with ⟨c,u,rfl,-⟩
  cases r <;> rfl

theorem skipInt_of_noDigit {pre : List UInt8} (h : ∀ c ∈ pre, isDigit c = false)
    (r : List UInt8) : skipInt (pre++r) = skipInt r := by
  unfold skipInt
  rw [List.dropWhile_append_of_pos (by simpa using h)]

theorem readSign_split (r : List UInt8) :
    ∃ pre, r = pre++(readSign r).2 ∧ ∀ c ∈ pre, isDigit c = false := by
  unfold readSign
  split
  · exact ⟨[45],rfl,List.forall_mem_singleton.mpr rfl⟩
  · exact ⟨[43],rfl,List.forall_mem_singleton.mpr rfl⟩
  · exact ⟨[],rfl,by simp⟩

theorem isDigit_of_isSpace (c : UInt8) (h : isSpace c = true) : isDigit c = false := by
  revert h
  exact byte_forall (P := fun c => isSpace c = true → isDigit c = false) (by decide +kernel) c

theorem dropWhile_space_split (r : List UInt8) :
    ∃ pre, r = pre++r.dropWhile isSpace ∧ ∀ c ∈ pre, isDigit c = false := by
  refine ⟨r.takeWhile isSpace,List.takeWhile_append_dropWhile.symm,?_⟩
  intro c hc
  exact isDigit_of_isSpace c (List.all_eq_true.mp List.all_takeWhile c hc)

/-- Where `%d` has read a number, `skipInt` goes behind the same digits. -/
theorem skipInt_scanInt {r r' w : List UInt8} {v : ℤ} (h : scanInt r = some (v,r'))
    (hw : EndsRun w) : skipInt (r++w) = r'++w := by
  rcases dropWhile_space_split r with ⟨pre,hpre,hp⟩
  rcases readSign_split (r.dropWhile isSpace) with ⟨sgn,hsgn,hs⟩
  have hbody : skipInt (r++w) = skipInt ((readSign (r.dropWhile isSpace)).2++w) := by
    calc skipInt (r++w) = skipInt (pre++(r.dropWhile isSpace++w)) := by
          rw [← List.append_assoc,← hpre]
      _ = skipInt (r.dropWhile isSpace++w) := skipInt_of_noDigit hp _
      _ = skipInt (sgn++((readSign (r.dropWhile isSpace)).2++w)) := by
          rw [← List.append_assoc,← hsgn]
      _ = skipInt ((readSign (r.dropWhile isSpace)).2++w) := skipInt_of_noDigit hs _
  rw [hbody]
  simp only [scanInt] at h
  generalize (readSign (r.dropWhile isSpace)).2 = body at h
  cases body with
  | nil => simp at h
  | cons d ds =>
    by_cases hd : isDigit d = true
    · simp only [List.takeWhile_cons_of_pos hd,List.isEmpty_cons,Bool.false_eq_true,if_false,
        Option.some.injEq,Prod.mk.injEq] at h
      unfold skipInt
      rw [List.cons_append,List.dropWhile_cons_of_neg (by simp [hd]),← List.cons_append,
        hw.dropWhile_digit,h.2]
    · simp [List.takeWhile_cons_of_neg hd] at h

theorem sscanf_int_cons {fs : List ScanItem} {r : List UInt8} {k : ℕ}
    (h : (sscanf (.int::fs) r).length = k+1) :
    ∃ v r', scanInt r = some (v,r') ∧ (sscanf fs r').length = k := by
  simp only [sscanf] at h
  split at h
  · rename_i v r' hr
    exact ⟨v,r',hr,by simpa using h⟩
  · simp at h

theorem sscanf_lit_cons {fs : List ScanItem} {c : UInt8} {r : List UInt8} {k : ℕ}
    (h : (sscanf (.lit c::fs) r).length = k+1) :
    ∃ r', r = c::r' ∧ (sscanf fs r').length = k+1 := by
  cases r with
  | nil => simp [sscanf] at h
  | cons d r' =>
    simp only [sscanf] at h
    split at h
    · rename_i hc
      exact ⟨r',by rw [hc],h⟩
    · simp at h

/-- The three numbers `sscanf` has found in a response line are the ones that are
skipped in front of the status message. -/
theorem skipInts_of_sscanf {r : List UInt8} (h : (sscanf statusScan r).length = 3) :
    ∃ r', ∀ w, EndsRun w → skipInt (skipInt (skipInt (r++w))) = r'++w := by
  rcases sscanf_int_cons (k := 2) h with ⟨v₁,r₁,h₁,hr₁⟩
  rcases dropWhile_space_split r₁ with ⟨p₁,hp₁,hn₁⟩
  rcases sscanf_lit_cons (k := 1) hr₁ with ⟨r₂,hr₂,hs₂⟩
  rcases dropWhile_space_split r₂ with ⟨p₂,hp₂,hn₂⟩
  rcases sscanf_int_cons (k := 1) hs₂ with ⟨v₃,r₃,h₃,hr₃⟩
  rcases dropWhile_space_split r₃ with ⟨p₃,hp₃,hn₃⟩
  rcases sscanf_int_cons (k := 0) hr₃ with ⟨v₄,r₄,h₄,-⟩
  refine ⟨r₄,fun w hw => ?_⟩
  have hdot : ∀ c ∈ [(46 : UInt8)], isDigit c = false :=
    List.forall_mem_singleton.mpr rfl
  rw [skipInt_scanInt h₁ hw,hp₁,hr₂,List.append_assoc,skipInt_of_noDigit hn₁]
  rw [show (46::r₂)++w = [46]++(r₂++w) from rfl,skipInt_of_noDigit hdot,hp₂,List.append_assoc,
    skipInt_of_noDigit hn₂,skipInt_scanInt h₃ hw,hp₃,List.append_assoc,
    skipInt_of_noDigit hn₃,skipInt_scanInt h₄ hw]

theorem skipBlankLines_ok {r : List UInt8} {n : ℕ} (h : skipBlankLines false r = .ok () n) :
    ∃ t k, scannerGetToken false (r.drop n) = .ok t k ∧
      ¬(t.type = .whitespace ∨ t.type = .crlf) := by
  revert h
  refine readFrom_rule (f := _) r (I := fun (_ : Unit) _ => True)
    (Q := fun a : Scan Unit => a = .ok () n → _) ?_ ?_ ?_ () 0 (Nat.zero_le _) trivial
  · intros
    trivial
  · rintro s m t k a - ht - h rfl
    simp only at h
    split at h
    · cases h
    · rename_i hty
      cases h
      exact ⟨t,k,ht,hty⟩
  · rintro s m st k - - - ⟨⟩

theorem skipBlankLines_of_token {r : List UInt8} {t : Token} {k : ℕ}
    (h : scannerGetToken false r = .ok t k) (ht : ¬(t.type = .whitespace ∨ t.type = .crlf)) :
    skipBlankLines false r = .ok () 0 := by
  apply readFrom_leave h
  simp only [if_neg ht]

/-- A scan that starts `k` bytes earlier. -/
def Scan.shift {α : Type} (k : ℕ) : Scan α → Scan α
  | .ok a n => .ok a (k+n)
  | .stop st n => .stop st (k+n)

abbrev blankReader : Reader Unit (Scan Unit) where
  onToken := fun s n t =>
    if t.type = .whitespace ∨ t.type = .crlf then .inl s else .inr (.ok () n)
  onStop := fun _ n st => .stop st n

theorem blankReader_shift (k m : ℕ) (r : List UInt8) :
    readFrom false blankReader ((),k+m,r) = (readFrom false blankReader ((),m,r)).shift k := by
  induction hl : r.length using Nat.strong_induction_on generalizing m r with
  | _ l ih =>
    subst hl
    cases ht : scannerGetToken false r with
    | stop st j =>
      rw [readFrom_stop ht,readFrom_stop ht]
      rfl
    | ok t j =>
      have hj := scannerGetToken_ok ht
      by_cases hty : t.type = .whitespace ∨ t.type = .crlf
      · have hgo : ∀ n, blankReader.onToken () n t = .inl () := fun n => if_pos hty
        rw [readFrom_token ht (hgo _),readFrom_token ht (hgo _),Nat.add_assoc]
        exact ih _ (by rw [List.length_drop]; omega) (m+j) (r.drop j) rfl
      · have hgo : ∀ n, blankReader.onToken () n t = .inr (.ok () n) := fun n => if_neg hty
        rw [readFrom_leave ht (hgo _),readFrom_leave ht (hgo _)]
        rfl

/-- After an incomplete read the blank lines skipped so far need not be read again. -/
theorem blankReader_resume {m n : ℕ} {r : List UInt8}
    (h : readFrom false blankReader ((),m,r) = .stop .incomplete n) (x : List UInt8) :
    m ≤ n ∧ n ≤ m+r.length ∧
      readFrom false blankReader ((),m,r++x) =
        readFrom false blankReader ((),n,r.drop (n-m)++x) := by
  induction hl : r.length using Nat.strong_induction_on generalizing m r with
  | _ l ih =>
    subst hl
    cases ht : scannerGetToken false r with
    | stop st j =>
      rw [readFrom_stop ht] at h
      cases h
      simp
    | ok t j =>
      have hj := scannerGetToken_ok ht
      by_cases hty : t.type = .whitespace ∨ t.type = .crlf
      · have hgo : ∀ n, blankReader.onToken () n t = .inl () := fun n => if_pos hty
        have hx : scannerGetToken false (r++x) = .ok t j := by
          rw [scannerGetToken_stable r x (by simp [ht]),ht]
        rw [readFrom_token ht (hgo _)] at h
        rw [readFrom_token hx (hgo _),List.drop_append_of_le_length hj.2.1]
        rcases ih _ (by rw [List.length_drop]; omega) h rfl with ⟨hmn,hnl,he⟩
        rw [List.length_drop] at hnl
        refine ⟨by omega,by omega,?_⟩
        rw [he,List.drop_drop,show j+(n-(m+j)) = n-m by omega]
      · have hgo : blankReader.onToken () m t = .inr (.ok () m) := if_neg hty
        rw [readFrom_leave ht hgo] at h
        cases h

theorem skipBlankLines_resume {r : List UInt8} {n : ℕ}
    (h : skipBlankLines false r = .stop .incomplete n) (x : List UInt8) :
    n ≤ r.length ∧
      skipBlankLines false (r++x) = (skipBlankLines false (r.drop n++x)).shift n := by
  rcases blankReader_resume h x with ⟨-,hn,he⟩
  refine ⟨by omega,he.trans ?_⟩
  exact blankReader_shift n 0 (r.drop n++x)

theorem exactOn_afterBlankLines {line : HttpParser → ParseStatus × HttpParser} {p : HttpParser}
    {x : List UInt8} (hp : p.cursor ≤ p.msg.msg.length)
    (hline : ∀ n, skipBlankLines false p.rest = .ok () n →
      (waitsForMore (line (p.advance n)).1 = false →
        line ((p.advance n).append x) = ((line (p.advance n)).1,(line (p.advance n)).2.append x)) ∧
      (waitsForMore (line (p.advance n)).1 = true → (line (p.advance n)).2 = p.advance n)) :
    ExactOn HttpParser.append waitsForMore (afterBlankLines line) p x := by
  cases hb : skipBlankLines false p.rest with
  | stop st n =>
    have hf : afterBlankLines line p = (st.status,p.advance n) := by
      simp only [afterBlankLines,hb]
    constructor
    · intro hw
      rw [hf] at hw ⊢
      have hst : ¬(skipBlankLines false p.rest).waiting := by
        rw [hb,waiting_stop]
        simpa [← waitsForMore_status] using hw
      simp only [afterBlankLines,HttpParser.rest_append hp,skipBlankLines_stable _ x hst,hb]
      rfl
    · intro hw
      rw [hf] at hw ⊢
      rw [waitsForMore_status] at hw
      subst hw
      rcases skipBlankLines_resume hb x with ⟨hn,hx⟩
      have hr : ((p.advance n).append x).rest = p.rest.drop n++x := by
        rw [HttpParser.rest_append,HttpParser.rest_advance]
        rw [HttpParser.rest_length] at hn
        simp only [HttpParser.advance]
        omega
      simp only [afterBlankLines,HttpParser.rest_append hp,hx,hr]
      cases hk : skipBlankLines false (p.rest.drop n++x) with
      | ok u k => simp [Scan.shift]
      | stop st k => simp [Scan.shift]
  | ok u n =>
    have hf : afterBlankLines line p = line (p.advance n) := by
      simp only [afterBlankLines,hb]
    rcases hline n hb with ⟨hfin,hres⟩
    have hst : ¬(skipBlankLines false p.rest).waiting := by simp [hb]
    have hx : afterBlankLines line (p.append x) = line ((p.advance n).append x) := by
      simp only [afterBlankLines,HttpParser.rest_append hp,skipBlankLines_stable _ x hst,hb]
      rfl
    constructor
    · intro hw
      rw [hf] at hw ⊢
      rw [hx]
      exact hfin hw
    · intro hw
      rw [hf] at hw ⊢
      rw [hx,hres hw]
      have hle : n ≤ p.rest.length := by
        have := skipBlankLines_bounded false p.rest
        rwa [hb] at this
      rcases skipBlankLines_ok hb with ⟨t,k,ht,hty⟩
      have hx' : skipBlankLines false ((p.advance n).append x).rest = .ok () 0 := by
        rw [HttpParser.rest_append,HttpParser.rest_advance]
        · apply skipBlankLines_of_token (k := k) _ hty
          rw [scannerGetToken_stable _ x (by simp [ht]),ht]
        · rw [HttpParser.rest_length] at hle
          simp only [HttpParser.advance]
          omega
      simp only [afterBlankLines,hx']
      rfl

theorem exactFor_afterBlankLines {line : HttpParser → ParseStatus × HttpParser} {p : HttpParser}
    (hp : p.cursor ≤ p.msg.msg.length)
    (hline : ∀ n, skipBlankLines false p.rest = .ok () n →
      (waitsForMore (line (p.advance n)).1 = false → ∀ x,
        line ((p.advance n).append x) = ((line (p.advance n)).1,(line (p.advance n)).2.append x)) ∧
      (waitsForMore (line (p.advance n)).1 = true → (line (p.advance n)).2 = p.advance n)) :
    ExactFor (afterBlankLines line) p :=
  .of_on fun x => exactOn_afterBlankLines hp fun n hn =>
    ⟨fun hw => (hline n hn).1 hw x,(hline n hn).2⟩

/-- The line a response line hands to `sscanf`, and what stands behind it. -/
theorem responseLineFmt_ok {r : List UInt8} (h : (scannerMatch responseLineFmt r).status = .ok) :
    ∃ start line c u, (scannerMatch responseLineFmt r).textAt 0 = (start,line) ∧
      start ≤ r.length ∧ r.drop start = line++c::u ∧ (c = cr ∨ c = lf) := by
  let fs : List Directive :=
    [.caseSensitive false] ++ literal "http" ++ [.optWs] ++ literal "/" ++ [.optWs]
  have hfmt : responseLineFmt = fs++[.line,.crlf] := rfl
  simp only [scannerMatch,vfmatch,hfmt] at h ⊢
  rcases vfmatchFrom_append false fs [.line,.crlf] true 0 r h with ⟨cs,hs,hv,-,ho⟩
  have hsil := vfmatchFrom_silent false fs (by decide) true 0 r
  have hle := ((vfmatchFrom_used false fs true 0 r).1 hs).2
  generalize (vfmatchFrom false fs true 0 r).used = start at hv ho hle
  rw [Nat.sub_zero] at hv ho
  rcases lineCrlf_ok ho with ⟨line,c,u,hr,hc,hvals⟩
  refine ⟨start,line,c,u,?_,by omega,hr,hc⟩
  rw [hsil,hvals,List.nil_append] at hv
  simp only [Match.textAt,hv,List.getElem?_cons_zero]

/-- The bytes of a line from its first NUL on, and the line break. -/
theorem endsRun_lineEnd (line : List UInt8) {c : UInt8} (hc : c = cr ∨ c = lf)
    (u : List UInt8) : EndsRun (line.dropWhile (· != 0)++c::u) := by
  cases hd : line.dropWhile (· != 0) with
  | nil =>
    refine ⟨c,u,rfl,?_⟩
    rcases hc with rfl | rfl <;> decide
  | cons d ds =>
    have h0 := List.head_dropWhile_not (p := (· != (0 : UInt8))) (l := line) (by simp [hd])
    simp only [hd,List.head_cons,bne_eq_false_iff_eq] at h0
    exact ⟨d,ds++c::u,rfl,by rw [h0]; decide,by rw [h0]; decide⟩

@[simp] theorem statusLine_status (p : HttpParser) (line text : List UInt8) :
    waitsForMore (statusLine p line text).1 = false := by
  simp only [statusLine]
  split
  · rfl
  · split <;> rfl

/-- The length of a status message is measured from the end of the buffer. -/
theorem take_carried {text : List UInt8} {len : ℕ} (x : List UInt8) (h : len ≤ text.length)
    (msg : List UInt8) :
    (msg++x).take (len-((text++x).length-(msg++x).length)) =
      msg.take (len-(text.length-msg.length)) := by
  simp only [List.length_append]
  rw [Nat.add_sub_add_right,List.take_append_of_le_length (by omega)]

/-- The bytes behind a complete line have no part in its status message. -/
theorem statusLine_append (p : HttpParser) {line text : List UInt8} {c : UInt8} {u : List UInt8}
    (ht : text = line++c::u) (hc : c = cr ∨ c = lf) (x : List UInt8) :
    statusLine (p.append x) line (text++x) =
      ((statusLine p line text).1,(statusLine p line text).2.append x) := by
  subst ht
  by_cases hs : (sscanf statusScan (untilNul line)).length = 3
  · -- the three numbers stand before the first NUL of the line
    have hline : line = untilNul line++line.dropWhile (· != 0) :=
      List.takeWhile_append_dropWhile.symm
    have hw := endsRun_lineEnd line hc u
    have htext : line++c::u = untilNul line++(line.dropWhile (· != 0)++c::u) := by
      rw [← List.append_assoc,← hline]
    generalize line.dropWhile (· != 0)++c::u = w at hw htext
    rcases skipInts_of_sscanf hs with ⟨r',hr'⟩
    have hcode : skipInt (skipInt (skipInt (line++c::u))) = r'++w := by
      rw [htext,hr' w hw]
    have hcodex : skipInt (skipInt (skipInt (line++c::u++x))) = r'++(w++x) := by
      rw [htext,List.append_assoc,hr' _ (hw.append x)]
    have htake := take_carried x (show line.length ≤ (line++c::u).length by simp)
      (r'.dropWhile isBlank++w)
    rw [List.append_assoc _ w x] at htake
    simp only [statusLine,HttpParser.append,hs,hcode,hcodex,hw.headD_append,
      (hw.append x).dropWhile_blank,hw.dropWhile_blank,htake]
    split
    · rfl
    · split <;> rfl
  · simp [statusLine,HttpParser.append,hs]

theorem responseLine_exact {q : HttpParser} (hq : q.cursor ≤ q.msg.msg.length) :
    (waitsForMore (responseLine q).1 = false → ∀ x,
      responseLine (q.append x) = ((responseLine q).1,(responseLine q).2.append x)) ∧
    (waitsForMore (responseLine q).1 = true → (responseLine q).2 = q) := by
  have hinc : ∀ d ∈ responseLineFmt, d.incremental = true := by decide
  by_cases hm : (scannerMatch responseLineFmt q.rest).status = .ok
  · rcases responseLineFmt_ok hm with ⟨start,line,c,u,htext,hstart,hdrop,hc⟩
    have hv : responseLine q = statusLine (q.advance (scannerMatch responseLineFmt q.rest).used)
        line (q.rest.drop start) := by
      simp [responseLine,hm,htext]
    constructor
    · intro _ x
      have hx := scannerMatch_stable hinc (r := q.rest) (by simp [hm]) x
      rw [hv,← statusLine_append _ hdrop hc x,← List.drop_append_of_le_length hstart]
      simp [responseLine,HttpParser.rest_append hq,hx,hm,htext,HttpParser.advance_append]
    · intro hw
      rw [hv,statusLine_status] at hw
      cases hw
  · have hv : responseLine q = ((scannerMatch responseLineFmt q.rest).status,q) := by
      simp [responseLine,hm]
    refine ⟨?_,fun _ => by rw [hv]⟩
    intro hw x
    rw [hv] at hw ⊢
    have hx := scannerMatch_stable hinc (r := q.rest) (by rintro h; simp [h,waitsForMore] at hw) x
    simp [responseLine,HttpParser.rest_append hq,hx,hm]

end Http
end CtrlPt
