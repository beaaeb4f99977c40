import CtrlPt.Http.HeaderText
import CtrlPt.Http.Requests

/-! What the parser makes of text that is written plainly: a request line of single spaces, and
header lines that are not folded. -/
namespace CtrlPt
namespace Http

open CText Uri

theorem scannerGetToken_word {w : List UInt8} (hne : w ≠ [])
    (hw : ∀ c ∈ w, isIdentifierChar c = true) {b : UInt8} (hb : isIdentifierChar b = false)
    (u : List UInt8) : scannerGetToken false (w++b::u) = .ok ⟨w,.identifier⟩ w.length := by
  obtain ⟨a,s,rfl⟩ := List.exists_cons_of_ne_nil hne
  have hs : s.takeWhile isIdentifierChar = s :=
    List.takeWhile_eq_self_iff.mpr fun d hd => hw d (by simp [hd])
  simp [scannerGetToken,if_pos (hw a (by simp)),scanRun_before hb,hs]

theorem scannerGetToken_blanks {w : List UInt8} (hne : w ≠ []) (hw : ∀ c ∈ w, isBlank c = true)
    {b : UInt8} (hb : isBlank b = false) (u : List UInt8) :
    scannerGetToken false (w++b::u) = .ok ⟨w,.whitespace⟩ w.length := by
  obtain ⟨a,s,rfl⟩ := List.exists_cons_of_ne_nil hne
  have hs : s.takeWhile isBlank = s :=
    List.takeWhile_eq_self_iff.mpr fun d hd => hw d (by simp [hd])
  have ha := hw a (by simp)
  have hi := isIdentifierChar_of_blank a ha
  simp [scannerGetToken,hi,if_pos ha,scanRun_before hb,hs]

/-- A token begins here that is not white space. -/
def NextToken (u : List UInt8) : Prop :=
  ∃ t k, scannerGetToken false u = .ok t k ∧ t.type ≠ .whitespace

theorem LineBreak.next {b : List UInt8} (h : LineBreak b) (u : List UInt8) : NextToken (b++u) :=
  ⟨_,_,h.token u,by rintro ⟨⟩⟩

theorem token_not_blank {c : UInt8} {v : List UInt8} {t : Token} {k : ℕ}
    (h : scannerGetToken false (c::v) = .ok t k) (hc : isBlank c = false) :
    t.type ≠ .whitespace := by
  intro hty
  rcases scannerGetToken_text h with ⟨hcr,-⟩ | ⟨-,⟨d,w,he⟩,hb⟩ | ⟨-,hn,-,-⟩
  · rw [hty] at hcr
    cases hcr
  · have hd := hb d (by simp [he])
    have hk := (scannerGetToken_ok h).1
    obtain ⟨j,rfl⟩ : ∃ j, k = j+1 := ⟨k-1,by omega⟩
    rw [List.take_succ_cons,List.cons.injEq] at he
    rw [← he.1,hc] at hd
    cases hd
  · exact hn hty

/-- What a URL in a request line may hold. -/
def isTargetChar (c : UInt8) : Bool := isPlainChar c && !isBlank c

theorem targetChar_kind (c : UInt8) (h : isTargetChar c = true) :
    isBlank c = false ∧ c ≠ cr ∧ c ≠ lf ∧ c ≠ 34 ∧ (isIdentifierChar c = false →
      isSeparatorChar c = false → isControlChar c = true) := by
  simp only [isTargetChar,Bool.and_eq_true,Bool.not_eq_true'] at h
  have hp := isPlainChar_control c h.1
  exact ⟨h.2,hp.1,hp.2.1,hp.2.2.1,fun hi hs => hp.2.2.2 hi h.2 hs⟩

theorem scannerGetToken_target {c : UInt8} {cs : List UInt8}
    (hw : ∀ d ∈ c::cs, isTargetChar d = true) {b : UInt8} (hb : isBlank b = true) (u : List UInt8) :
    ∃ t k, scannerGetToken false (c::cs++b::u) = .ok t k ∧
      ¬(t.type = .whitespace ∨ t.type = .crlf) ∧ 0 < k ∧ k ≤ (c::cs).length := by
  rcases targetChar_kind c (hw c (by simp)) with ⟨hblank,hcr,hlf,hq,hctrl⟩
  have hl := takeWhile_length_le isIdentifierChar cs
  simp only [scannerGetToken,List.cons_append,hblank,Bool.false_eq_true,if_false,if_neg hcr,
    if_neg hlf,if_neg hq]
  by_cases hi : isIdentifierChar c = true
  · rw [if_pos hi,scanRun_before (isIdentifierChar_of_blank b hb)]
    exact ⟨_,_,rfl,by simp,Nat.succ_pos _,by simp only [List.length_cons]; omega⟩
  · rw [if_neg hi]
    by_cases hs : isSeparatorChar c = true
    · rw [if_pos hs]
      exact ⟨_,_,rfl,by simp,Nat.one_pos,by simp⟩
    · rw [if_neg hs,if_pos (hctrl (by simpa using hi) (by simpa using hs))]
      exact ⟨_,_,rfl,by simp,Nat.one_pos,by simp⟩

theorem matchNonWsString_target {w u : List UInt8} {b c : UInt8} (hne : w ≠ [])
    (hw : ∀ d ∈ w, isTargetChar d = true) (hb : isBlank b = true) (hc : isBlank c = false) :
    matchNonWsString false (w++b::c::u) = .ok () w.length := by
  let f : Reader Unit (Scan Unit) :=
    { onToken := fun s n t =>
        if t.type = .whitespace ∨ t.type = .crlf then
          .inr (if n = 0 then .stop .noMatch 0 else .ok () n) else .inl s
      onStop := fun _ n st =>
        if st = .incomplete ∧ false = true then
          (if n = 0 then .stop .noMatch 0 else .ok () n) else .stop st 0 }
  suffices ∀ n, 0 < n+w.length → readFrom false f ((),n,w++b::c::u) = .ok () (n+w.length) by
    have h0 := this 0 (by simpa using List.length_pos_of_ne_nil hne)
    rwa [Nat.zero_add] at h0
  clear hne
  induction hl : w.length using Nat.strong_induction_on generalizing w with
  | _ m ih =>
    subst hl
    intro n hn
    cases w with
    | nil =>
      have ht := scannerGetToken_blanks (w := [b]) (by simp) (by simpa using hb) hc u
      apply readFrom_leave ht
      have hn0 : n ≠ 0 := by simpa using Nat.pos_iff_ne_zero.mp hn
      simp [f,hn0]
    | cons d w =>
      rcases scannerGetToken_target hw hb (c::u) with ⟨t,k,ht,hty,hk,hle⟩
      rw [readFrom_token ht (show f.onToken () n t = .inl () from if_neg hty),
        List.drop_append_of_le_length hle,ih _ (by rw [List.length_drop]; omega)
          (fun e he => hw e (List.mem_of_mem_drop he)) rfl (n+k) (by omega),List.length_drop]
      congr 1
      omega

theorem vfmatchFrom_skip {loaded cs : Bool} {d : Directive} {n k : ℕ} {r : List UInt8}
    {ds : List Directive} (h : directive loaded cs n r d = ([],.ok () k)) :
    vfmatchFrom loaded (d::ds) cs n r = vfmatchFrom loaded ds (nextCase cs d) (n+k) (r.drop k) := by
  simp only [vfmatchFrom,h,List.nil_append]

theorem vfmatchFrom_literal {loaded : Bool} {w w' : List UInt8} (h : w.map toLower = w'.map toLower)
    (ds : List Directive) (n : ℕ) (r : List UInt8) :
    vfmatchFrom loaded (w.map .char++ds) false n (w'++r) =
      vfmatchFrom loaded ds false (n+w.length) r := by
  induction w generalizing w' n with
  | nil =>
    cases w' with
    | nil => rfl
    | cons c w' => cases h
  | cons a w ih =>
    cases w' with
    | nil => cases h
    | cons c w' =>
      simp only [List.map_cons,List.cons.injEq] at h
      have hd : directive loaded false n (c::w'++r) (.char a) = ([],.ok () 1) := by
        simp [directive,matchChar,h.1]
      rw [List.map_cons,List.cons_append,vfmatchFrom_skip hd]
      simp only [nextCase,List.cons_append,List.drop_succ_cons,List.drop_zero,ih h.2,
        List.length_cons]
      rw [Nat.add_assoc,Nat.add_comm 1]

theorem directive_optWs_none {r : List UInt8} (h : NextToken r) (cs : Bool) (n : ℕ) :
    directive false cs n r .optWs = ([],.ok () 0) := by
  rcases h with ⟨t,k,ht,hty⟩
  simp only [directive,ht,if_neg hty]

theorem expectToken_blanks {w : List UInt8} (hne : w ≠ []) (hw : ∀ c ∈ w, isBlank c = true)
    {b : UInt8} (hb : isBlank b = false) (u : List UInt8) :
    expectToken false .whitespace (w++b::u) = .ok ⟨w,.whitespace⟩ w.length := by
  simp only [expectToken,scannerGetToken_blanks hne hw hb u,if_true]

theorem LineBreak.expect {b : List UInt8} (h : LineBreak b) (u : List UInt8) :
    expectToken false .crlf (b++u) = .ok ⟨b,.crlf⟩ b.length := by
  simp only [expectToken,h.token u,if_true]

theorem LineText.next {l brk : List UInt8} (h : LineText l) (hl : ∀ c ∈ l.head?, isBlank c = false)
    (hb : LineBreak brk) {u : List UInt8} : NextToken (l++(brk++u)) := by
  cases l with
  | nil => exact hb.next u
  | cons c cs =>
    rcases h.token hb u with ⟨t,k,ht,-⟩
    exact ⟨t,k,ht,token_not_blank ht (hl c (by simp))⟩

/-- A request line as it is written: single spaces, and the version behind the slash. -/
structure WrittenRequest where
  method : List UInt8
  target : List UInt8
  version : List UInt8
  method_ne : method ≠ []
  method_chars : ∀ c ∈ method, isIdentifierChar c = true
  target_ne : target ≠ []
  target_chars : ∀ c ∈ target, isTargetChar c = true
  version_text : LineText version
  version_head : ∀ c ∈ version.head?, isBlank c = false

def WrittenRequest.line (q : WrittenRequest) : List UInt8 :=
  q.method++32::(q.target++32::(cstr "HTTP"++47::(q.version++[cr,lf])))

theorem WrittenRequest.line_append (q : WrittenRequest) (u : List UInt8) :
    q.line++u = q.method++32::(q.target++32::(cstr "HTTP"++47::(q.version++([cr,lf]++u)))) := by
  simp only [line,List.append_assoc,List.cons_append,List.nil_append]

theorem versionFmt_written (q : WrittenRequest) (n : ℕ) (u : List UInt8) :
    vfmatchFrom false versionFmt true n
        (32::(cstr "HTTP"++47::(q.version++([cr,lf]++u)))) =
      ⟨.ok,[.text (n+6) q.version],n+6+q.version.length+2⟩ := by
  have hbrk : LineBreak [cr,lf] := .inl rfl
  have hfmt : versionFmt = .ws::.caseSensitive false::((cstr "http").map .char++
    [.optWs,.char 47,.optWs,.line,.crlf]) := rfl
  have hws : directive false true n (32::(cstr "HTTP"++47::(q.version++([cr,lf]++u)))) .ws =
      ([],.ok () 1) := by
    have h := expectToken_blanks (w := [32]) (b := 72) (by simp)
      (List.forall_mem_singleton.mpr rfl) (by decide)
      (cstr "TTP"++47::(q.version++([cr,lf]++u)))
    change expectToken false .whitespace (32::(cstr "HTTP"++47::(q.version++([cr,lf]++u)))) = _ at h
    simp only [directive,h,Scan.store]
    rfl
  have hslash : NextToken (47::(q.version++([cr,lf]++u))) := ⟨⟨[47],.separator⟩,1,rfl,by rintro ⟨⟩⟩
  have hversion : NextToken (q.version++([cr,lf]++u)) := q.version_text.next q.version_head hbrk
  have hline : ∀ k, directive false false k (q.version++([cr,lf]++u)) .line =
      ([.text k q.version],.ok () q.version.length) := by
    intro k
    simp only [directive,q.version_text.readUntilCrlf hbrk u,Scan.store,List.take_left]
  have hcrlf : ∀ k, directive false false k ([cr,lf]++u) .crlf = ([],.ok () 2) := by
    intro k
    simp only [directive,hbrk.expect u,Scan.store]
    rfl
  have hmark : ∀ k, directive false false k (47::(q.version++([cr,lf]++u))) (.char 47) =
      ([],.ok () 1) := fun _ => rfl
  generalize hend : q.version++([cr,lf]++u) = r at *
  have hdrop : r.drop q.version.length = [cr,lf]++u := by rw [← hend,List.drop_left]
  have hcase : directive false true (n+1) (cstr "HTTP"++47::r) (.caseSensitive false) =
      ([],.ok () 0) := rfl
  have hhttp : (cstr "http").map toLower = (cstr "HTTP").map toLower := by decide
  have hnext : ∀ (cs : Bool) (d : Directive), (∀ on, d ≠ .caseSensitive on) → nextCase cs d = cs := by
    intro cs d hd
    cases d <;> first | rfl | exact absurd rfl (hd _)
  rw [hfmt,vfmatchFrom_skip hws,List.drop_one,List.tail_cons,hnext true .ws (by simp),
    vfmatchFrom_skip hcase,List.drop_zero]
  simp only [nextCase]
  rw [vfmatchFrom_literal hhttp,vfmatchFrom_skip (directive_optWs_none hslash _ _),List.drop_zero,
    hnext false .optWs (by simp),vfmatchFrom_skip (hmark _),List.drop_one,List.tail_cons,
    hnext false (.char 47) (by simp),vfmatchFrom_skip (directive_optWs_none hversion _ _),
    List.drop_zero,hnext false .optWs (by simp)]
  simp only [vfmatchFrom,nextCase,hline,hdrop,hcrlf]
  rfl

theorem requestLineFmt_written (q : WrittenRequest) (u : List UInt8) :
    scannerMatch requestLineFmt (q.line++u) =
      ⟨.ok,[.text 0 q.method,.text (q.method.length+1) q.target,
        .text (q.method.length+1+q.target.length+6) q.version],q.line.length⟩ := by
  have hparts : UrlParts (q.line++u) ⟨q.method,.identifier⟩ q.method.length 1 q.target.length := by
    rw [q.line_append]
    obtain ⟨c,s,hc⟩ := List.exists_cons_of_ne_nil q.target_ne
    have hcb : isBlank c = false := (targetChar_kind c (q.target_chars c (by simp [hc]))).1
    refine ⟨?_,⟨⟨[32],.whitespace⟩,?_⟩,?_⟩
    · have ht := scannerGetToken_word q.method_ne q.method_chars (b := 32) (by decide)
        (q.target++32::(cstr "HTTP"++47::(q.version++([cr,lf]++u))))
      simp only [expectToken,ht,if_true]
    · have h := expectToken_blanks (w := [32]) (b := c) (by simp)
        (List.forall_mem_singleton.mpr rfl) hcb
        (s++32::(cstr "HTTP"++47::(q.version++([cr,lf]++u))))
      rw [List.drop_left,hc]
      exact h
    · rw [← List.drop_drop,List.drop_left,List.drop_one,List.tail_cons]
      exact matchNonWsString_target q.target_ne q.target_chars (by decide) (by decide)
  have hdrop : (q.line++u).drop (q.method.length+1) =
      q.target++32::(cstr "HTTP"++47::(q.version++([cr,lf]++u))) := by
    rw [q.line_append,← List.drop_drop,List.drop_left,List.drop_one,List.tail_cons]
  rw [requestLineFmt_eq,scannerMatch_url,hparts.match]
  simp only [if_true]
  rw [← List.drop_drop,hdrop,List.drop_left,List.take_left,versionFmt_written]
  simp only [WrittenRequest.line,List.length_append,List.length_cons,List.length_nil,Match.mk.injEq,
    List.cons_append,List.nil_append,true_and]
  have hlen : (cstr "HTTP").length = 4 := rfl
  omega

@[simp] theorem skipBlankLines_written (q : WrittenRequest) (u : List UInt8) :
    skipBlankLines false (q.line++u) = .ok () 0 := by
  rw [q.line_append]
  exact skipBlankLines_of_token
    (scannerGetToken_word q.method_ne q.method_chars (b := 32) (by decide) _) (by simp)

/-- A written request line is read alike in any pieces. -/
theorem requestSplits_written (q : WrittenRequest) (u : List UInt8) : ¬RequestSplits (q.line++u) := by
  rintro ⟨n,hn,hc⟩
  rw [skipBlankLines_written] at hn
  cases hn
  rw [List.drop_zero] at hc
  exact requestLine_not_cutSensitive (by rw [requestLineFmt_written]) hc

def afterRequest (p : HttpParser) (q : WrittenRequest) (uri : UriType) (id : HttpMethod)
    (major minor : ℤ) : HttpParser :=
  { p.advance q.line.length with
    msg :=
      { p.msg with
        urlbuf := q.target
        uri := uri
        majorVersion := major
        minorVersion := minor
        method := id }
    position := .headers }

/-- A written request line stands or falls with its URL. -/
theorem parserParseRequestline_written (res : Resolver) {p : HttpParser} {q : WrittenRequest}
    {u : List UInt8} (hp : p.rest = q.line++u) (id : HttpMethod) (major minor : ℤ)
    (hid : lookupName q.method httpMethodTable true = some id)
    (hver : sscanf versionScan (untilNul q.version) = [major,minor]) (hmajor : 0 ≤ major)
    (hsearch : ¬(major = 1 ∧ minor < 1 ∧ id = .msearch)) :
    (∀ uri, parseUri res q.target q.target.length = .ok uri →
      parserParseRequestline res p = (.ok,afterRequest p q uri id major minor)) ∧
    (∀ e, parseUri res q.target q.target.length = .error e →
      (parserParseRequestline res p).1 = .failure) := by
  have hm := requestLineFmt_written q u
  have hs := requestLine_not_simple (r := q.line++u) (by rw [hm])
  have hline : parserParseRequestline res p = requestLine res p := by
    simp [parserParseRequestline,afterBlankLines,hp,HttpParser.advance]
  rw [hline]
  simp only [requestLine,hp,if_neg hs,hm,ne_eq,not_true_eq_false,if_false,Match.textAt]
  constructor
  · intro uri he
    simp only [List.getElem?_cons_zero,List.getElem?_cons_succ,he,hid,hver,List.length_cons,
      List.length_nil,List.getD_cons_zero,List.getD_cons_succ,not_true_eq_false,false_or,
      hsearch,or_false,if_neg (Int.not_lt.mpr hmajor)]
    rfl
  · intro e he
    simp only [List.getElem?_cons_zero,List.getElem?_cons_succ,he]

theorem skipLws_written {b s : List UInt8} (hb : ∀ c ∈ b, isBlank c = true)
    (hs : (∃ t k, scannerGetToken false s = .ok t k ∧ t.type ≠ .whitespace ∧ t.type ≠ .crlf) ∨
      ∃ brk u, s = brk++u ∧ LineBreak brk ∧ NextToken u) :
    skipLws false (b++s) = .ok () b.length := by
  let f : Reader (ℕ × Bool) (Scan Unit) :=
    { onToken := fun s n t =>
        if t.type = .whitespace then .inl (n+t.text.length,false)
        else if t.type = .crlf ∧ s.2 = false then .inl (s.1,true)
        else .inr (.ok () s.1)
      onStop := fun s _ st =>
        if st = .incomplete ∧ false = true then .ok () s.1 else .stop st s.1 }
  have hend : ∀ q n, readFrom false f ((q,false),n,s) = .ok () q := by
    intro q n
    rcases hs with ⟨t,k,ht,hw,hc⟩ | ⟨brk,u,rfl,hbrk,t,k,ht,hw⟩
    · apply readFrom_leave ht
      simp [f,hw,hc]
    · have hnext : readFrom false f ((q,false),n,brk++u) =
          readFrom false f ((q,true),n+brk.length,u) := by
        rw [readFrom_token (hbrk.token u) (show f.onToken (q,false) n _ = .inl (q,true) by simp [f]),
          List.drop_left]
      rw [hnext]
      apply readFrom_leave ht
      simp [f,hw]
  by_cases hne : b = []
  · subst hne
    exact hend 0 0
  · obtain ⟨c,u,rfl,hc⟩ : ∃ c u, s = c::u ∧ isBlank c = false := by
      rcases hs with ⟨t,k,ht,hw,-⟩ | ⟨brk,u,rfl,hbrk,-⟩
      · cases s with
        | nil => cases ht
        | cons c u =>
          refine ⟨c,u,rfl,?_⟩
          by_contra hc
          exact hw (scannerGetToken_blank ht (by simpa using hc))
      · rcases hbrk.head with ⟨c,v,rfl,hc⟩
        exact ⟨c,v++u,rfl,by rcases hc with rfl | rfl <;> decide⟩
    have hstart : readFrom false f ((0,false),0,b++c::u) =
        readFrom false f ((b.length,false),b.length,c::u) := by
      rw [readFrom_token (scannerGetToken_blanks hne hb hc u)
        (show f.onToken (0,false) 0 _ = .inl (b.length,false) by simp [f]),
        List.drop_left,Nat.zero_add]
    exact hstart.trans (hend b.length b.length)

abbrev rawReader : Reader (Option ℕ) (Scan ℕ) where
  onToken := fun s n t =>
    match s with
    | none => if t.type = .crlf then .inl (some n) else .inl none
    | some q => if t.type = .whitespace then .inl none else .inr (.ok n q)
  onStop := fun _ _ st => .stop st 0

/-- `%R` reads the text of a line up to its line break, when the next line is not a folded part. -/
theorem rawValueLength_written {l brk u : List UInt8} (h : LineText l) (hb : LineBreak brk)
    (hu : NextToken u) :
    rawValueLength false (l++(brk++u)) = .ok (l.length+brk.length) l.length := by
  suffices ∀ n, readFrom false rawReader (none,n,l++(brk++u)) =
      .ok (n+l.length+brk.length) (n+l.length) by
    have h0 := this 0
    rw [Nat.zero_add] at h0
    exact h0
  rcases hu with ⟨t',k',ht',hw'⟩
  induction hl : l.length using Nat.strong_induction_on generalizing l with
  | _ m ih =>
    subst hl
    intro n
    cases l with
    | nil =>
      have hcr : readFrom false rawReader (none,n,brk++u) =
          readFrom false rawReader (some n,n+brk.length,u) := by
        rw [readFrom_token (hb.token u) (show rawReader.onToken none n _ = .inl (some n) by simp),
          List.drop_left]
      rw [List.nil_append,hcr]
      apply readFrom_leave ht'
      simp [hw']
    | cons c cs =>
      rcases h.token hb u with ⟨t,k,ht,hty,hk,hle,hrest⟩
      rw [readFrom_token ht (show rawReader.onToken none n t = .inl none by simp [hty]),
        List.drop_append_of_le_length hle,ih _ (by rw [List.length_drop]; omega) hrest rfl,
        List.length_drop]
      congr 1 <;> omega

theorem LineBreak.trim {b : List UInt8} (h : LineBreak b) (w : List UInt8) :
    trimRight (w++b) = trimRight w := by
  apply trimRight_append
  rcases h with rfl | rfl <;> decide

/-- A header field as it is written: a name, a colon, blanks and a value on one line. -/
structure WrittenField where
  name : List UInt8
  blanks : List UInt8
  value : List UInt8
  name_ne : name ≠ []
  name_chars : ∀ c ∈ name, isIdentifierChar c = true
  blanks_chars : ∀ c ∈ blanks, isBlank c = true
  text : LineText value
  head : ∀ c ∈ value.head?, isBlank c = false

def WrittenField.line (f : WrittenField) : List UInt8 :=
  f.name++58::(f.blanks++(f.value++[cr,lf]))

theorem WrittenField.line_append (f : WrittenField) (u : List UInt8) :
    f.line++u = f.name++58::(f.blanks++(f.value++([cr,lf]++u))) := by
  simp only [line,List.append_assoc,List.cons_append,List.nil_append]

@[simp] theorem WrittenField.token (f : WrittenField) (u : List UInt8) :
    scannerGetToken false (f.line++u) = .ok ⟨f.name,.identifier⟩ f.name.length := by
  rw [f.line_append]
  exact scannerGetToken_word f.name_ne f.name_chars (by decide) _

theorem WrittenField.next (f : WrittenField) (u : List UInt8) : NextToken (f.line++u) :=
  ⟨_,_,f.token u,by rintro ⟨⟩⟩

theorem headerFmt_written (f : WrittenField) {u : List UInt8} (hu : NextToken u) :
    scannerMatch headerFmt (58::(f.blanks++(f.value++([cr,lf]++u)))) =
      ⟨.ok,[.text (1+f.blanks.length) (trimRight f.value)],
        1+f.blanks.length+f.value.length+2⟩ := by
  have hbrk : LineBreak [cr,lf] := .inl rfl
  have hlws : skipLws false (58::(f.blanks++(f.value++([cr,lf]++u)))) = .ok () 0 :=
    skipLws_written (b := []) (by simp) (.inl ⟨⟨[58],.separator⟩,1,rfl,by rintro ⟨⟩,by rintro ⟨⟩⟩)
  have hblanks : skipLws false (f.blanks++(f.value++([cr,lf]++u))) = .ok () f.blanks.length := by
    apply skipLws_written f.blanks_chars
    cases hv : f.value with
    | nil => exact .inr ⟨[cr,lf],u,rfl,hbrk,hu⟩
    | cons c cs =>
      have htext := f.text
      rw [hv] at htext
      rcases htext.token hbrk u with ⟨t,k,ht,hty,-⟩
      exact .inl ⟨t,k,ht,token_not_blank ht (f.head c (by simp [hv])),hty⟩
  have hraw : matchRawValue false (f.value++([cr,lf]++u)) =
      .ok (trimRight f.value) f.value.length := by
    simp only [matchRawValue,rawValueLength_written f.text hbrk hu]
    rw [← List.append_assoc,← List.length_append,List.take_left,hbrk.trim]
  have hfmt : headerFmt = [.lws,.char 58,.lws,.raw,.crlf] := rfl
  simp only [scannerMatch,vfmatch,hfmt,vfmatchFrom,directive,hlws,List.drop_zero,matchChar,nextCase,
    if_true,List.drop_succ_cons,hblanks,List.drop_left,hraw,Scan.store,hbrk.expect u,
    List.nil_append,List.append_nil,Nat.zero_add]
  rfl

def readField (p : HttpParser) (f : WrittenField) : HttpParser :=
  addHeaderLine (p.advance f.line.length) f.name (trimRight f.value)

theorem headerRound_written {p : HttpParser} {f : WrittenField} {u : List UInt8}
    (hp : p.rest = f.line++u) (hu : NextToken u) : headerRound p = .inl (readField p f) := by
  have hrest : (p.advance f.name.length).rest = 58::(f.blanks++(f.value++([cr,lf]++u))) := by
    rw [HttpParser.rest_advance,hp,f.line_append,List.drop_left]
  simp only [headerRound,hp,f.token,hrest,headerFmt_written f hu,ne_eq,not_true_eq_false,if_false,
    Match.textAt,List.getElem?_cons_zero,HttpParser.advance_advance,readField]
  congr 3
  simp only [WrittenField.line,List.length_append,List.length_cons,List.length_nil]
  omega

/-- Written fields and an empty line are read field by field. -/
theorem parserParseHeaders_written {p : HttpParser} (fs : List WrittenField)
    {brk body : List UInt8} (hb : LineBreak brk)
    (hp : p.rest = fs.flatMap WrittenField.line++(brk++body)) :
    parserParseHeaders p = endHeaders ((fs.foldl readField p).advance brk.length) := by
  induction fs generalizing p with
  | nil =>
    apply Loop.run_inr
    rw [List.flatMap_nil,List.nil_append] at hp
    simp only [headerRound,hp,hb.token body,List.foldl_nil]
  | cons f fs ih =>
    rw [List.flatMap_cons,List.append_assoc] at hp
    have hnext : NextToken (fs.flatMap WrittenField.line++(brk++body)) := by
      cases fs with
      | nil => exact hb.next body
      | cons g fs =>
        rw [List.flatMap_cons,List.append_assoc]
        exact g.next _
    have hround := headerRound_written hp hnext
    have hrest : (readField p f).rest = fs.flatMap WrittenField.line++(brk++body) := by
      change (p.advance f.line.length).rest = _
      rw [HttpParser.rest_advance,hp,List.drop_left]
    exact (Loop.run_inl headerRound_descends hround).trans (ih hrest)

theorem readFields_keeps (fs : List WrittenField) (p : HttpParser) :
    fs.foldl readField p = { p with
      msg := { p.msg with
        method := (fs.foldl readField p).msg.method
        headers := (fs.foldl readField p).msg.headers }
      cursor := p.cursor+(fs.flatMap WrittenField.line).length } := by
  induction fs generalizing p with
  | nil => rfl
  | cons f fs ih =>
    rw [List.foldl_cons,ih (readField p f),List.flatMap_cons,List.length_append,← Nat.add_assoc]
    rfl

end Http
end CtrlPt
