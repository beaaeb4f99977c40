import CtrlPt.Http.Fragmentation

/-! Requests under fragmentation. A request line is tried as a simple GET and then as a full
request line, and only the second answer is given when the first one is no match yet. -/
namespace CtrlPt
namespace Http

open CText Uri Resume

/-- `"%s\t%S"`, the beginning of both formats. -/
def urlFmt : List Directive := [.ident,.ws,.nonWs]

/-- `"\t%ihttp%w/%w%L%c"`, the rest of a full request line. -/
def versionFmt : List Directive :=
  [.ws,.caseSensitive false] ++ literal "http" ++ [.optWs] ++ literal "/" ++ [.optWs,.line,.crlf]

theorem simpleGetFmt_eq : simpleGetFmt = urlFmt++[.optWs,.crlf] := rfl

theorem requestLineFmt_eq : requestLineFmt = urlFmt++versionFmt := rfl

theorem vfmatchFrom_append_eq (loaded : Bool) (fs gs : List Directive) (cs : Bool) (n : ℕ)
    (r : List UInt8) :
    vfmatchFrom loaded (fs++gs) cs n r =
      let m := vfmatchFrom loaded fs cs n r
      let m' := vfmatchFrom loaded gs (fs.foldl nextCase cs) m.used (r.drop (m.used-n))
      if m.status = .ok then ⟨m'.status,m.vals++m'.vals,m'.used⟩ else m := by
  induction fs generalizing cs n r with
  | nil => simp [vfmatchFrom]
  | cons d ds ih =>
    rcases hd : directive loaded cs n r d with ⟨vs,st⟩
    cases st with
    | stop st k =>
      simp [vfmatchFrom,hd,status_ne_ok st]
    | ok u k =>
      simp only [List.cons_append,vfmatchFrom,hd,List.foldl_cons,ih]
      split
      · rename_i hs
        have hle := ((vfmatchFrom_used loaded ds (nextCase cs d) (n+k) (r.drop k)).1 hs).1
        rw [List.drop_drop,show k+((vfmatchFrom loaded ds (nextCase cs d) (n+k) (r.drop k)).used-
          (n+k)) = (vfmatchFrom loaded ds (nextCase cs d) (n+k) (r.drop k)).used-n by omega]
        simp only [List.append_assoc]
      · rfl

def urlMatch (r : List UInt8) : Match := scannerMatch urlFmt r

theorem matchNonWsString_end {r : List UInt8} {n : ℕ} (h : matchNonWsString false r = .ok () n) :
    ∃ t k, scannerGetToken false (r.drop n) = .ok t k ∧
      (t.type = .whitespace ∨ t.type = .crlf) := by
  revert h
  refine readFrom_rule (f := _) r (I := fun (_ : Unit) _ => True)
    (Q := fun a : Scan Unit => a = .ok () n → _) ?_ ?_ ?_ () 0 (Nat.zero_le _) trivial
  · intros
    trivial
  · rintro s m t k a - ht - h rfl
    simp only at h
    split at h
    · rename_i hty
      split at h <;> cases h
      exact ⟨t,k,ht,hty⟩
    · cases h
  · rintro s m st k - - - h
    simp only [Bool.false_eq_true,and_false,if_false] at h
    cases h

/-- The method token, white space and the URL. -/
structure UrlParts (r : List UInt8) (t : Token) (k j n : ℕ) : Prop where
  method : expectToken false .identifier r = .ok t k
  blank : ∃ w, expectToken false .whitespace (r.drop k) = .ok w j
  url : matchNonWsString false (r.drop (k+j)) = .ok () n

theorem UrlParts.match {r : List UInt8} {t : Token} {k j n : ℕ} (h : UrlParts r t k j n) :
    urlMatch r = ⟨.ok,[.text 0 t.text,.text (k+j) ((r.drop (k+j)).take n)],k+j+n⟩ := by
  rcases h.blank with ⟨w,hw⟩
  simp [urlMatch,scannerMatch,vfmatch,urlFmt,vfmatchFrom,directive,h.method,Scan.store,hw,h.url]

theorem urlMatch_parts {r : List UInt8} (h : (urlMatch r).status = .ok) :
    ∃ t k j n, UrlParts r t k j n := by
  simp only [urlMatch,scannerMatch,vfmatch,urlFmt,vfmatchFrom,directive] at h
  cases ht : expectToken false .identifier r with
  | stop st k =>
    simp only [ht,Scan.store] at h
    exact absurd h (status_ne_ok st)
  | ok t k =>
    simp only [ht,Scan.store] at h
    cases hw : expectToken false .whitespace (r.drop k) with
    | stop st j =>
      simp only [hw] at h
      exact absurd h (status_ne_ok st)
    | ok w j =>
      simp only [hw] at h
      cases hu : matchNonWsString false ((r.drop k).drop j) with
      | stop st n =>
        simp only [hu] at h
        exact absurd h (status_ne_ok st)
      | ok u n =>
        rw [List.drop_drop] at hu
        exact ⟨t,k,j,n,ht,⟨w,hw⟩,hu⟩

theorem urlMatch_end {r : List UInt8} (h : (urlMatch r).status = .ok) :
    ∃ t k, scannerGetToken false (r.drop (urlMatch r).used) = .ok t k ∧
      (t.type = .whitespace ∨ t.type = .crlf) := by
  rcases urlMatch_parts h with ⟨t,k,j,n,hp⟩
  rcases matchNonWsString_end hp.url with ⟨t',i,ht,hty⟩
  rw [List.drop_drop] at ht
  rw [hp.match]
  exact ⟨t',i,ht,hty⟩

theorem expectToken_prompt {type : TokenType} {r x : List UInt8} {t : Token} {k : ℕ}
    (h : expectToken false type (r++x) = .ok t k) (hk : k < r.length) :
    expectToken false type r = .ok t k := by
  rcases expectToken_ok h with ⟨ht,hty⟩
  simp only [expectToken,scannerGetToken_prompt ht hk,hty,if_true]

/-- A URL is read without waiting when the token behind it and one more byte are there. -/
theorem urlMatch_prompt {r x : List UInt8} {t : Token} {i : ℕ}
    (h : (urlMatch (r++x)).status = .ok)
    (ht : scannerGetToken false ((r++x).drop (urlMatch (r++x)).used) = .ok t i)
    (hi : (urlMatch (r++x)).used+i < r.length) : urlMatch r = urlMatch (r++x) := by
  rcases urlMatch_parts h with ⟨m,k,j,n,hp⟩
  rw [hp.match] at ht hi ⊢
  simp only at ht hi
  have hparts : UrlParts r m k j n := by
    refine ⟨expectToken_prompt hp.method (by omega),?_,?_⟩
    · rcases hp.blank with ⟨w,hw⟩
      rw [List.drop_append_of_le_length (by omega)] at hw
      exact ⟨w,expectToken_prompt hw (by rw [List.length_drop]; omega)⟩
    · have hu := hp.url
      rw [← List.drop_drop] at ht
      rw [List.drop_append_of_le_length (by omega)] at hu ht
      exact matchNonWsString_prompt hu ht (by rw [List.length_drop]; omega)
  rw [hparts.match,List.drop_append_of_le_length (by omega),List.take_append_of_le_length]
  rw [List.length_drop]
  omega

theorem urlFmt_incremental : ∀ d ∈ urlFmt, d.incremental = true := by decide

theorem simpleGetFmt_incremental : ∀ d ∈ simpleGetFmt, d.incremental = true := by decide

theorem requestLineFmt_incremental : ∀ d ∈ requestLineFmt, d.incremental = true := by decide

theorem scannerMatch_url (gs : List Directive) (r : List UInt8) :
    scannerMatch (urlFmt++gs) r =
      let m := urlMatch r
      let m' := vfmatchFrom false gs true m.used (r.drop m.used)
      if m.status = .ok then ⟨m'.status,m.vals++m'.vals,m'.used⟩ else m :=
  vfmatchFrom_append_eq false urlFmt gs true 0 r

theorem simpleEnd_crlf {r : List UInt8} {t : Token} {k : ℕ}
    (ht : scannerGetToken false r = .ok t k) (hty : t.type = .crlf) (n : ℕ) :
    vfmatchFrom false [.optWs,.crlf] true n r = ⟨.ok,[],n+k⟩ := by
  have he : expectToken false .crlf r = .ok t k := by simp only [expectToken,ht,hty,if_true]
  have hz : (if TokenType.crlf = .whitespace then k else 0) = 0 := rfl
  simp only [vfmatchFrom,directive,ht,hty,hz,List.drop_zero,Nat.add_zero,he,Scan.store]
  rfl

theorem simpleEnd_ws {r : List UInt8} {t : Token} {k : ℕ}
    (ht : scannerGetToken false r = .ok t k) (hty : t.type = .whitespace) (n : ℕ) :
    (∀ t' j, expectToken false .crlf (r.drop k) = .ok t' j →
      vfmatchFrom false [.optWs,.crlf] true n r = ⟨.ok,[],n+k+j⟩) ∧
    (∀ st j, expectToken false .crlf (r.drop k) = .stop st j →
      vfmatchFrom false [.optWs,.crlf] true n r = ⟨st.status,[],0⟩) := by
  constructor
  · intro t' j he
    simp only [vfmatchFrom,directive,ht,hty,if_true,he,Scan.store]
    rfl
  · intro st j he
    simp only [vfmatchFrom,directive,ht,hty,if_true,he,Scan.store]
    rfl

theorem versionEnd_status {r : List UInt8} {t : Token} {k : ℕ}
    (ht : scannerGetToken false r = .ok t k) (n : ℕ) :
    (t.type = .crlf → (vfmatchFrom false versionFmt true n r).status = .noMatch) ∧
    (t.type = .whitespace →
      (r.drop k = [] → (vfmatchFrom false versionFmt true n r).status = .incomplete) ∧
      ∀ c u, r.drop k = c::u → toLower 104 ≠ toLower c →
        (vfmatchFrom false versionFmt true n r).status = .noMatch) := by
  have hfmt : ∃ gs, versionFmt = .ws::.caseSensitive false::.char 104::gs := ⟨_,rfl⟩
  rcases hfmt with ⟨gs,hfmt⟩
  rw [hfmt]
  constructor
  · intro hty
    have he : expectToken false .whitespace r = .stop .noMatch k := by
      simp only [expectToken,ht,hty]
      rfl
    simp only [vfmatchFrom,directive,he,Scan.store]
    rfl
  · intro hty
    have he : expectToken false .whitespace r = .ok t k := by
      simp only [expectToken,ht,hty,if_true]
    constructor
    · intro hr
      simp only [vfmatchFrom,directive,he,Scan.store,hr,List.drop_zero,matchChar]
      rfl
    · intro c u hr hc
      simp only [vfmatchFrom,directive,he,Scan.store,hr,List.drop_zero,matchChar,nextCase,
        Bool.false_eq_true,if_false,if_neg hc]
      rfl

theorem expectToken_crlf_head {r : List UInt8} {t : Token} {k : ℕ}
    (h : expectToken false .crlf r = .ok t k) :
    ∃ c u, r = c::u ∧ toLower 104 ≠ toLower c := by
  rcases expectToken_ok h with ⟨ht,hty⟩
  rcases crlf_head ht hty with ⟨c,u,hr,hc⟩
  refine ⟨c,u,hr,?_⟩
  rcases hc with rfl | rfl <;> decide

/-- A full request line is no simple GET. -/
theorem requestLine_not_simple {r : List UInt8} (h : (scannerMatch requestLineFmt r).status = .ok) :
    (scannerMatch simpleGetFmt r).status ≠ .ok := by
  rw [requestLineFmt_eq,scannerMatch_url] at h
  rw [simpleGetFmt_eq,scannerMatch_url]
  simp only at h ⊢
  split at h
  · rename_i hu
    rw [if_pos hu]
    rcases urlMatch_end hu with ⟨t,k,ht,hty⟩
    have hv := versionEnd_status ht (urlMatch r).used
    rcases hty with hty | hty
    · have hs := simpleEnd_ws ht hty (urlMatch r).used
      cases he : expectToken false .crlf ((r.drop (urlMatch r).used).drop k) with
      | stop st j =>
        rw [hs.2 st j he]
        exact status_ne_ok st
      | ok t' j =>
        rcases expectToken_crlf_head he with ⟨c,u,hr,hc⟩
        rw [(hv.2 hty).2 c u hr hc] at h
        cases h
    · rw [hv.1 hty] at h
      cases h
  · rename_i hu
    exact absurd h hu

/-- A simple GET whose URL is followed by white space and CR LF. -/
def CutSensitive (r : List UInt8) : Prop :=
  (urlMatch r).status = .ok ∧ ∃ w k u,
    scannerGetToken false (r.drop (urlMatch r).used) = .ok w k ∧ w.type = .whitespace ∧
      r.drop ((urlMatch r).used+k) = cr::lf::u

/-- Only a carriage return at the end of the input may yet become a line break. -/
theorem crlf_waiting {r x : List UInt8} {j k : ℕ} {t : Token}
    (h : expectToken false .crlf r = .stop .incomplete j)
    (hx : expectToken false .crlf (r++x) = .ok t k) :
    r = [] ∨ ∃ y, r = [cr] ∧ x = lf::y ∧ k = 2 := by
  have hw : scannerGetToken false r = .stop .incomplete j := by
    simp only [expectToken] at h
    cases hr : scannerGetToken false r with
    | ok t' i =>
      simp only [hr] at h
      split at h <;> cases h
    | stop st i =>
      simp only [hr] at h
      exact h
  have ht := expectToken_ok hx
  cases r with
  | nil => exact .inl rfl
  | cons c cs =>
    right
    rcases ht with ⟨ht,hty⟩
    generalize hrx : c::cs++x = s at ht
    cases scannerGetToken_at ht with
    | crlf ds =>
      simp only [List.cons_append,List.cons.injEq] at hrx
      rcases hrx with ⟨rfl,hrx⟩
      cases cs with
      | nil => exact ⟨ds,rfl,hrx,rfl⟩
      | cons d cs =>
        simp only [List.cons_append,List.cons.injEq] at hrx
        rw [hrx.1,scannerGetToken_crlf false cs] at hw
        cases hw
    | lf ds =>
      simp only [List.cons_append,List.cons.injEq] at hrx
      rw [hrx.1,scannerGetToken_lf false cs] at hw
      cases hw
    | identifier | whitespace | loneCr | quoted | separator | ctrl => cases hty

/-- The only request line that looks wrong before it is seen to be a simple GET. -/
theorem requestLine_rejected {r x : List UInt8}
    (hs : (scannerMatch simpleGetFmt r).status ≠ .ok)
    (hw : (scannerMatch requestLineFmt r).status ≠ .incomplete)
    (hx : (scannerMatch simpleGetFmt (r++x)).status = .ok) : CutSensitive (r++x) := by
  have hinc : (scannerMatch simpleGetFmt r).status = .incomplete := by
    by_contra hne
    rw [scannerMatch_stable simpleGetFmt_incremental hne x] at hx
    exact hs hx
  have hu : (urlMatch r).status = .ok := by
    by_contra hu
    rw [simpleGetFmt_eq,scannerMatch_url] at hinc
    rw [requestLineFmt_eq,scannerMatch_url] at hw
    simp only [if_neg hu] at hinc hw
    exact hw hinc
  have hle : (urlMatch r).used ≤ r.length := scannerMatch_used_le urlFmt r
  have hux : urlMatch (r++x) = urlMatch r :=
    scannerMatch_stable urlFmt_incremental (by
      rw [show (scannerMatch urlFmt r).status = _ from hu]
      decide) x
  rcases urlMatch_end hu with ⟨t,k,ht,hty⟩
  have hk := (scannerGetToken_ok ht).2.1
  have htx : scannerGetToken false ((r++x).drop (urlMatch r).used) = .ok t k := by
    rw [List.drop_append_of_le_length hle,scannerGetToken_stable _ x (by simp [ht]),ht]
  have hsimple : ∀ y, urlMatch y = urlMatch r → scannerMatch simpleGetFmt y =
      let m' := vfmatchFrom false [.optWs,.crlf] true (urlMatch r).used (y.drop (urlMatch r).used)
      ⟨m'.status,(urlMatch r).vals++m'.vals,m'.used⟩ := by
    intro y hy
    rw [simpleGetFmt_eq,scannerMatch_url]
    simp only [hy,if_pos hu]
  rw [hsimple r rfl] at hinc
  rw [hsimple (r++x) hux] at hx
  simp only at hinc hx
  rcases hty with hty | hty
  · have hr := simpleEnd_ws ht hty (urlMatch r).used
    have hrx := simpleEnd_ws htx hty (urlMatch r).used
    cases he : expectToken false .crlf ((r.drop (urlMatch r).used).drop k) with
    | ok t' j =>
      rw [hr.1 t' j he] at hinc
      cases hinc
    | stop st j =>
      rw [hr.2 st j he] at hinc
      have hst : st = .incomplete := by cases st <;> first | rfl | cases hinc
      cases hex : expectToken false .crlf (((r++x).drop (urlMatch r).used).drop k) with
      | stop st' j' =>
        rw [hrx.2 st' j' hex] at hx
        exact absurd hx (status_ne_ok st')
      | ok t' j' =>
        have hsplit : ((r++x).drop (urlMatch r).used).drop k =
            (r.drop (urlMatch r).used).drop k++x := by
          rw [List.drop_append_of_le_length hle,List.drop_append_of_le_length hk]
        rw [hsplit] at hex
        subst hst
        rcases crlf_waiting he hex with hnil | ⟨y,hcr,rfl,rfl⟩
        · rw [requestLineFmt_eq,scannerMatch_url] at hw
          simp only [if_pos hu] at hw
          exact absurd (((versionEnd_status ht _).2 hty).1 hnil) hw
        · refine ⟨by rw [hux,hu],t,k,y,by rw [hux,htx],hty,?_⟩
          rw [hux,← List.drop_drop,hsplit,hcr]
          rfl
  · have hr := simpleEnd_crlf ht hty (urlMatch r).used
    rw [hr] at hinc
    cases hinc

/-- The request line is answered from what its two formats match. -/
theorem requestLine_append (res : Resolver) {p : HttpParser} {x : List UInt8}
    (hp : p.cursor ≤ p.msg.msg.length)
    (hs : scannerMatch simpleGetFmt (p.rest++x) = scannerMatch simpleGetFmt p.rest ∨
      ((scannerMatch simpleGetFmt (p.rest++x)).status ≠ .ok ∧
        (scannerMatch simpleGetFmt p.rest).status ≠ .ok))
    (hf : (scannerMatch simpleGetFmt p.rest).status ≠ .ok →
      scannerMatch requestLineFmt (p.rest++x) = scannerMatch requestLineFmt p.rest) :
    requestLine res (p.append x) = ((requestLine res p).1,(requestLine res p).2.append x) := by
  have hr := HttpParser.rest_append hp x
  by_cases hok : (scannerMatch simpleGetFmt p.rest).status = .ok
  · have hx := hs.resolve_right fun h => h.2 hok
    simp only [requestLine,hr,hx,if_pos hok]
    cases lookupName ((scannerMatch simpleGetFmt p.rest).textAt 0).2 httpMethodTable true with
    | none => rfl
    | some id =>
      simp only
      split
      · rfl
      · cases parseUri res ((scannerMatch simpleGetFmt p.rest).textAt 1).2
          ((scannerMatch simpleGetFmt p.rest).textAt 1).2.length <;> rfl
  · have hx : (scannerMatch simpleGetFmt (p.rest++x)).status ≠ .ok := by
      rcases hs with hs | hs
      · rw [hs]
        exact hok
      · exact hs.1
    simp only [requestLine,hr,if_neg hx,if_neg hok,hf hok]
    split
    · rfl
    · cases parseUri res ((scannerMatch requestLineFmt p.rest).textAt 1).2
          ((scannerMatch requestLineFmt p.rest).textAt 1).2.length with
      | error e => rfl
      | ok uri =>
        simp only
        cases lookupName ((scannerMatch requestLineFmt p.rest).textAt 0).2 httpMethodTable true with
        | none => rfl
        | some id =>
          have hmajor : ∀ q : HttpParser, (q.append x).msg.majorVersion = q.msg.majorVersion :=
            fun _ => rfl
          have hminor : ∀ q : HttpParser, (q.append x).msg.minorVersion = q.msg.minorVersion :=
            fun _ => rfl
          simp only [HttpParser.advance_append,hmajor,hminor]
          split
          · rfl
          · rfl

/-- A request line can be resumed unless more bytes make it a simple GET after all. -/
theorem requestLine_exact (res : Resolver) {p : HttpParser} {x : List UInt8}
    (hp : p.cursor ≤ p.msg.msg.length) (hx : ¬CutSensitive (p.rest++x)) :
    (waitsForMore (requestLine res p).1 = false →
      requestLine res (p.append x) = ((requestLine res p).1,(requestLine res p).2.append x)) ∧
    (waitsForMore (requestLine res p).1 = true → (requestLine res p).2 = p) := by
  by_cases hs : (scannerMatch simpleGetFmt p.rest).status = .ok
  · have hst := scannerMatch_stable simpleGetFmt_incremental (by rw [hs]; decide) x
    have hno : waitsForMore (requestLine res p).1 = false := by
      simp only [requestLine,if_pos hs]
      split
      · rfl
      · split
        · rfl
        · split <;> rfl
    refine ⟨fun _ => requestLine_append res hp (.inl hst) fun h => absurd hs h,fun hw => ?_⟩
    rw [hno] at hw
    cases hw
  · by_cases hf : (scannerMatch requestLineFmt p.rest).status = .ok
    · have hst := scannerMatch_stable requestLineFmt_incremental (by rw [hf]; decide) x
      have hsx := requestLine_not_simple (r := p.rest++x) (by rw [hst]; exact hf)
      have hno : waitsForMore (requestLine res p).1 = false := by
        simp only [requestLine,if_neg hs,hf,ne_eq,not_true_eq_false,if_false]
        split
        · rfl
        · split
          · rfl
          · split <;> rfl
      refine ⟨fun _ => requestLine_append res hp (.inr ⟨hsx,hs⟩) fun _ => hst,fun hw => ?_⟩
      rw [hno] at hw
      cases hw
    · have hv : requestLine res p = ((scannerMatch requestLineFmt p.rest).status,p) := by
        simp [requestLine,if_neg hs,hf]
      refine ⟨fun hw => ?_,fun _ => by rw [hv]⟩
      have hinc : (scannerMatch requestLineFmt p.rest).status ≠ .incomplete := by
        intro hi
        rw [hv,hi] at hw
        cases hw
      have hsx : (scannerMatch simpleGetFmt (p.rest++x)).status ≠ .ok :=
        fun h => hx (requestLine_rejected hs hinc h)
      exact requestLine_append res hp (.inr ⟨hsx,hs⟩) fun _ =>
        scannerMatch_stable requestLineFmt_incremental hinc x

/-- The request line of `s`, behind blank lines, is cut-sensitive. -/
def RequestSplits (s : List UInt8) : Prop :=
  ∃ n, skipBlankLines false s = .ok () n ∧ CutSensitive (s.drop n)

theorem skipBlankLines_shift {r : List UInt8} {n : ℕ}
    (h : skipBlankLines false r = .ok () n ∨ skipBlankLines false r = .stop .incomplete n)
    (x : List UInt8) :
    n ≤ r.length ∧
      skipBlankLines false (r++x) = (skipBlankLines false (r.drop n++x)).shift n := by
  rcases h with h | h
  · have hn := skipBlankLines_bounded false r
    rw [h,used_ok] at hn
    rcases skipBlankLines_ok h with ⟨t,k,ht,hty⟩
    have hx : skipBlankLines false (r.drop n++x) = .ok () 0 := by
      apply skipBlankLines_of_token (k := k) _ hty
      rw [scannerGetToken_stable _ x (by simp [ht]),ht]
    rw [hx,skipBlankLines_stable r x (by simp [h]),h]
    exact ⟨hn,rfl⟩
  · exact skipBlankLines_resume h x

theorem requestSplits_drop {r : List UInt8} {n : ℕ}
    (h : skipBlankLines false r = .ok () n ∨ skipBlankLines false r = .stop .incomplete n)
    (x : List UInt8) (hs : RequestSplits (r.drop n++x)) : RequestSplits (r++x) := by
  rcases skipBlankLines_shift h x with ⟨hn,he⟩
  rcases hs with ⟨m,hm,hc⟩
  refine ⟨n+m,by rw [he,hm]; rfl,?_⟩
  rw [← List.drop_drop,List.drop_append_of_le_length hn]
  exact hc

/-- Where a request line that waits has left the cursor. -/
theorem parserParseRequestline_waiting {res : Resolver} {p : HttpParser} {x : List UInt8}
    (hp : p.cursor ≤ p.msg.msg.length) (hx : ¬RequestSplits (p.rest++x))
    (hw : waitsForMore (parserParseRequestline res p).1 = true) :
    ¬RequestSplits ((parserParseRequestline res p).2.rest++x) := by
  unfold parserParseRequestline afterBlankLines at hw ⊢
  cases hb : skipBlankLines false p.rest with
  | stop st n =>
    simp only [hb,waitsForMore_status] at hw ⊢
    subst hw
    rw [HttpParser.rest_advance]
    exact fun h => hx (requestSplits_drop (.inr hb) x h)
  | ok u n =>
    simp only [hb] at hw ⊢
    have hn := skipBlankLines_bounded false p.rest
    rw [hb,used_ok] at hn
    have hdrop : p.rest.drop n++x = (p.rest++x).drop n := by
      rw [List.drop_append_of_le_length hn]
    have hc : ¬CutSensitive ((p.advance n).rest++x) := by
      intro hc
      rw [HttpParser.rest_advance,hdrop] at hc
      exact hx ⟨n,by rw [skipBlankLines_stable _ x (by simp [hb]),hb],hc⟩
    rw [(requestLine_exact res (HeaderFrame.advance hp hn).cursor_le hc).2 hw]
    rw [HttpParser.rest_advance]
    exact fun h => hx (requestSplits_drop (.inl hb) x h)

theorem exactOn_parserParseRequestline (res : Resolver) {p : HttpParser} {x : List UInt8}
    (hp : p.cursor ≤ p.msg.msg.length) (hx : ¬RequestSplits (p.rest++x)) :
    ExactOn HttpParser.append waitsForMore (parserParseRequestline res) p x := by
  apply exactOn_afterBlankLines hp
  intro n hb
  have hn := skipBlankLines_bounded false p.rest
  rw [hb,used_ok] at hn
  apply requestLine_exact res (HeaderFrame.advance hp hn).cursor_le
  intro hc
  rw [HttpParser.rest_advance,← List.drop_append_of_le_length hn] at hc
  exact hx ⟨n,by rw [skipBlankLines_stable _ x (by simp [hb]),hb],hc⟩

theorem requestLine_waiting (res : Resolver) {p : HttpParser}
    (hw : waitsForMore (requestLine res p).1 = true) : (requestLine res p).2 = p := by
  rcases requestLine_answers res p with h | h | ⟨-,h,-⟩ | ⟨st,h⟩
  · rw [h] at hw
    cases hw
  · rw [h] at hw
    cases hw
  · rw [h] at hw
    cases hw
  · rw [h]

theorem requestLine_ok (res : Resolver) {p : HttpParser} (hok : (requestLine res p).1 = .ok) :
    (scannerMatch requestLineFmt p.rest).status = .ok := by
  rcases requestLine_answers res p with h | h | ⟨hm,-,-⟩ | ⟨st,h⟩
  · rw [h] at hok
    cases hok
  · rw [h] at hok
    cases hok
  · exact hm
  · rw [h] at hok
    exact absurd hok (status_ne_ok st)

theorem requestLine_ok_append (res : Resolver) {p : HttpParser} (hp : p.cursor ≤ p.msg.msg.length)
    (h : (requestLine res p).1 = .ok) (x : List UInt8) :
    requestLine res (p.append x) = ((requestLine res p).1,(requestLine res p).2.append x) := by
  have hf := requestLine_ok res h
  have hst := scannerMatch_stable requestLineFmt_incremental (by rw [hf]; decide) x
  have hsx := requestLine_not_simple (r := p.rest++x) (by rw [hst]; exact hf)
  exact requestLine_append res hp (.inr ⟨hsx,requestLine_not_simple hf⟩) fun _ => hst

/-- A request line that is read or waits can be resumed. -/
theorem parserParseRequestline_exact (res : Resolver) {p : HttpParser}
    (hp : p.cursor ≤ p.msg.msg.length)
    (hw : (parserParseRequestline res p).1 = .ok ∨
      waitsForMore (parserParseRequestline res p).1 = true) (x : List UInt8) :
    ExactOn HttpParser.append waitsForMore (parserParseRequestline res) p x := by
  apply exactOn_afterBlankLines hp
  intro n hb
  have hn := skipBlankLines_bounded false p.rest
  rw [hb,used_ok] at hn
  have hv : parserParseRequestline res p = requestLine res (p.advance n) := by
    simp only [parserParseRequestline,afterBlankLines,hb]
  rw [hv] at hw
  refine ⟨fun hfin => ?_,requestLine_waiting res⟩
  rcases hw with hw | hw
  · exact requestLine_ok_append res (HeaderFrame.advance hp hn).cursor_le hw x
  · rw [hw] at hfin
    cases hfin

/-- A line that is read by the full format is not cut-sensitive. -/
theorem requestLine_not_cutSensitive {r : List UInt8}
    (h : (scannerMatch requestLineFmt r).status = .ok) : ¬CutSensitive r := by
  rintro ⟨hu,w,k,u,hw,hty,hr⟩
  rw [requestLineFmt_eq,scannerMatch_url] at h
  rw [← List.drop_drop] at hr
  simp only [if_pos hu,((versionEnd_status hw _).2 hty).2 cr (lf::u) hr (by decide)] at h
  cases h

theorem parserParseRequestline_not_splits (res : Resolver) {p : HttpParser}
    (h : (parserParseRequestline res p).1 = .ok) (x : List UInt8) : ¬RequestSplits (p.rest++x) := by
  rintro ⟨n,hn,hc⟩
  cases hb : skipBlankLines false p.rest with
  | stop st k =>
    simp only [parserParseRequestline,afterBlankLines,hb] at h
    exact absurd h (status_ne_ok st)
  | ok u k =>
    have hk := skipBlankLines_bounded false p.rest
    rw [hb,used_ok] at hk
    rw [skipBlankLines_stable _ x (by simp [hb]),hb,Scan.ok.injEq] at hn
    rw [← hn.2,List.drop_append_of_le_length hk] at hc
    simp only [parserParseRequestline,afterBlankLines,hb] at h
    have hf := requestLine_ok res h
    rw [HttpParser.rest_advance] at hf
    refine requestLine_not_cutSensitive ?_ hc
    rw [scannerMatch_stable requestLineFmt_incremental (by rw [hf]; decide) x]
    exact hf

/-- The parser can be resumed when the bytes it has and those to come hold no cut-sensitive
request line. -/
theorem parserParse_resumableOn (res : Resolver) :
    ResumableOn ⟨HttpParser.append,parserParse res,waitsForMore⟩
      (fun p x => Parsing p ∧ (p.position = .requestLine → ¬RequestSplits (p.rest++x)))
      observeMessage := by
  have hleave : ∀ {p : HttpParser} {x : List UInt8}, Parsing p →
      (p.position = .requestLine → ¬RequestSplits (p.rest++x)) →
      ((parserStep res p).1 = .ok ∨ waitsForMore (parserStep res p).1 = true) →
      Parsing (parserStep res p).2 ∧ ((parserStep res p).2.position = .requestLine →
        ¬RequestSplits ((parserStep res p).2.rest++x)) := by
    intro p x h hr hw
    have hs := parserStep_parsing h hw
    refine ⟨hs.1,fun hpos => ?_⟩
    have hp := hs.2 hpos
    simp only [parserStep,hp] at hw hpos ⊢
    rcases hw with hw | hw
    · have hd := (afterBlankLines_status (requestLine_status res) p).done hw
      rw [show (parserParseRequestline res p).2.position = _ from hd] at hpos
      cases hpos
    · exact parserParseRequestline_waiting h.framed.cursor_le (hr hp) hw
  apply resumableOn_of_rounds (parserStep_descends res)
  · intro p x y
    exact HttpParser.append_append p x y
  · rintro p x y ⟨h,hr⟩
    refine ⟨h.append x,fun hp => ?_⟩
    rw [HttpParser.rest_append h.framed.cursor_le,List.append_assoc]
    exact hr hp
  · rintro p t x ⟨h,hr⟩ ht
    rcases Loop.doWhile_inl ht with ⟨ha,rfl⟩
    exact hleave h hr (.inl (beq_iff_eq.mp ha))
  · rintro p r x ⟨h,hr⟩ hd hw
    rcases Loop.doWhile_inr hd with ⟨-,rfl⟩
    exact hleave h hr (.inr hw)
  · rintro p x ⟨h,hr⟩
    exact parserRoundOn res h fun hp =>
      exactOn_parserParseRequestline res h.framed.cursor_le (hr hp)

theorem parserRequestInit_parsing : Parsing parserRequestInit :=
  ⟨⟨Nat.le_refl _,rfl,fun h => absurd rfl h,fun h => absurd rfl h,(by rintro ⟨⟩)⟩,fun _ => rfl⟩

/-- Without a cut-sensitive request line the pieces make no difference. -/
theorem feedParser_request (res : Resolver) {s : List UInt8} (hs : ¬RequestSplits s)
    {xs : List (List UInt8)} (hx : xs ≠ []) (he : xs.flatten = s) :
    observeMessage (feedParser res parserRequestInit xs) =
      observeMessage (parserAppend res parserRequestInit s) := by
  rw [feedParser_eq_feed,(parserParse_resumableOn res).feed_flatten xs hx,he]
  · rfl
  · rw [he]
    exact ⟨parserRequestInit_parsing,fun _ => hs⟩

/-- Cut right behind its carriage return a cut-sensitive request line is rejected. -/
theorem requestLine_cut (res : Resolver) {r : List UInt8} (h : CutSensitive r) :
    ∃ m, (urlMatch r).used < m ∧ m ≤ r.length ∧
      ∀ p : HttpParser, p.rest = r.take m → requestLine res p = (.noMatch,p) := by
  rcases h with ⟨hu,w,k,u,hw,hty,hr⟩
  have hlen := congrArg List.length hr
  simp only [List.length_drop,List.length_cons] at hlen
  refine ⟨(urlMatch r).used+k+1,by omega,by omega,fun p hp => ?_⟩
  generalize hm : (urlMatch r).used+k+1 = m at hp
  have hsplit : r.take m++r.drop m = r := List.take_append_drop m r
  have htake : (r.take m).length = m := by
    rw [List.length_take]
    omega
  have hu' : urlMatch (r.take m) = urlMatch r := by
    have hx := urlMatch_prompt (r := r.take m) (x := r.drop m) (t := w) (i := k)
    rw [hsplit,htake] at hx
    exact hx hu hw (by omega)
  have hw' : scannerGetToken false ((r.take m).drop (urlMatch r).used) = .ok w k := by
    apply scannerGetToken_prompt (x := r.drop m)
    · rw [← List.drop_append_of_le_length (by omega),hsplit,hw]
    · rw [List.length_drop]
      omega
  have hcr : ((r.take m).drop (urlMatch r).used).drop k = [cr] := by
    rw [List.drop_drop,List.drop_take,hr,show m-((urlMatch r).used+k) = 1 by omega]
    rfl
  have hsimple : (scannerMatch simpleGetFmt p.rest).status ≠ .ok := by
    rw [hp,simpleGetFmt_eq,scannerMatch_url]
    simp only [hu',if_pos hu]
    rw [(simpleEnd_ws hw' hty _).2 .incomplete 0]
    · decide
    · rw [hcr]
      rfl
  have hfull : (scannerMatch requestLineFmt p.rest).status = .noMatch := by
    rw [hp,requestLineFmt_eq,scannerMatch_url]
    simp only [hu',if_pos hu]
    exact ((versionEnd_status hw' _).2 hty).2 cr [] hcr (by decide)
  simp [requestLine,if_neg hsimple,hfull]

/-- Read at once it is a simple GET, whatever comes of that. -/
theorem requestLine_whole (res : Resolver) {p : HttpParser} (h : CutSensitive p.rest) :
    (requestLine res p).1 ≠ .noMatch ∧ (requestLine res p).1 ≠ .ok := by
  rcases h with ⟨hu,w,k,u,hw,hty,hr⟩
  have hs : (scannerMatch simpleGetFmt p.rest).status = .ok := by
    rw [simpleGetFmt_eq,scannerMatch_url]
    simp only [if_pos hu]
    rw [← List.drop_drop] at hr
    have he : expectToken false .crlf ((p.rest.drop (urlMatch p.rest).used).drop k) =
        .ok ⟨[cr,lf],.crlf⟩ 2 := by
      simp only [hr,expectToken,scannerGetToken_crlf,if_true]
    rw [(simpleEnd_ws hw hty _).1 _ _ he]
  simp only [requestLine,if_pos hs]
  split
  · exact ⟨(by rintro ⟨⟩),(by rintro ⟨⟩)⟩
  · split
    · exact ⟨(by rintro ⟨⟩),(by rintro ⟨⟩)⟩
    · split <;> exact ⟨(by rintro ⟨⟩),(by rintro ⟨⟩)⟩

@[simp] theorem parserRequestInit_rest (x : List UInt8) :
    (parserRequestInit.append x).rest = x := rfl

theorem parserAppend_request (res : Resolver) (x : List UInt8) {st : ParseStatus}
    (h : (parserParseRequestline res (parserRequestInit.append x)).1 = st) (hst : st ≠ .ok) :
    parserAppend res parserRequestInit x =
      parserParseRequestline res (parserRequestInit.append x) := by
  apply Loop.run_inr
  have hs : parserStep res (parserRequestInit.append x) =
      parserParseRequestline res (parserRequestInit.append x) := rfl
  simp only [Loop.doWhile,hs,h]
  rw [if_neg (by simpa using hst)]

/-- A cut-sensitive request line is answered differently when it is cut. -/
theorem feedParser_request_splits (res : Resolver) {s : List UInt8} (hs : RequestSplits s) :
    ∃ x y, x++y = s ∧ (feedParser res parserRequestInit [x,y]).1 = .noMatch ∧
      (feedParser res parserRequestInit [s]).1 ≠ .noMatch := by
  rcases hs with ⟨n,hb,hc⟩
  have hn := skipBlankLines_bounded false s
  rw [hb,used_ok] at hn
  rcases requestLine_cut res hc with ⟨m,hum,hm,hcut⟩
  rw [List.length_drop] at hm
  have hwhole : (parserAppend res parserRequestInit s).1 ≠ .noMatch := by
    have hline : parserParseRequestline res (parserRequestInit.append s) =
        requestLine res ((parserRequestInit.append s).advance n) := by
      simp only [parserParseRequestline,afterBlankLines,parserRequestInit_rest,hb]
    have hw := requestLine_whole res (p := (parserRequestInit.append s).advance n) (by
      rwa [HttpParser.rest_advance,parserRequestInit_rest])
    rw [← hline] at hw
    rw [parserAppend_request res s rfl hw.2]
    exact hw.1
  have hblank : skipBlankLines false (s.take (n+m)) = .ok () n := by
    rcases urlMatch_parts hc.1 with ⟨t,k,j,i,hp⟩
    rw [hp.match] at hum
    simp only at hum
    have ht := (expectToken_ok hp.method).1
    apply skipBlankLines_prompt (x := s.drop (n+m)) (t := t) (k := k)
    · rw [List.take_append_drop,hb]
    · rw [List.take_append_drop,ht]
    · rw [List.length_take]
      omega
  have hline : parserParseRequestline res (parserRequestInit.append (s.take (n+m))) =
      (.noMatch,(parserRequestInit.append (s.take (n+m))).advance n) := by
    simp only [parserParseRequestline,afterBlankLines,parserRequestInit_rest,hblank]
    apply hcut
    rw [HttpParser.rest_advance,parserRequestInit_rest,List.drop_take,Nat.add_sub_cancel_left]
  refine ⟨s.take (n+m),s.drop (n+m),List.take_append_drop _ s,?_,hwhole⟩
  have hno : (parserAppend res parserRequestInit (s.take (n+m))).1 = .noMatch := by
    rw [parserAppend_request res _ (by rw [hline]) (by rintro ⟨⟩),hline]
  simp only [feedParser,hno]
  rw [if_neg (by decide),hno]

/-- A request is read alike however its bytes are cut into pieces, except for a simple GET
with white space behind its URL. -/
theorem feedParser_request_iff (res : Resolver) (s : List UInt8) :
    (∀ xs ys : List (List UInt8), xs ≠ [] → ys ≠ [] → xs.flatten = s → ys.flatten = s →
      observeMessage (feedParser res parserRequestInit xs) =
        observeMessage (feedParser res parserRequestInit ys)) ↔ ¬RequestSplits s := by
  constructor
  · intro h hs
    rcases feedParser_request_splits res hs with ⟨x,y,hxy,hcut,hwhole⟩
    have he := h [x,y] [s] (by simp) (by simp) (by simp [hxy]) (by simp)
    exact hwhole (hcut ▸ (congrArg Prod.fst he).symm)
  · intro hs xs ys hx hy hxs hys
    rw [feedParser_request res hs hx hxs,feedParser_request res hs hy hys]

theorem feedParser_request_cut :
    (feedParser Resolver.empty parserRequestInit [cstr "GET /foo \r",cstr "\n"]).1 = .noMatch ∧
      (feedParser Resolver.empty parserRequestInit [cstr "GET /foo \r\n"]).1 = .success := by
  decide

end Http
end CtrlPt
