import CtrlPt.Uri.HostPort
import CtrlPt.Http.Fragmentation

/-! Which bytes a parsed URL lets through. `strchr` finds the terminator of its string too, so
a NUL counts as a reserved character. -/
namespace CtrlPt
namespace Uri

open CText

/-- A letter, a digit or a listed character. -/
def isUriChar (c : UInt8) : Bool := isAlnum c || reservedChars.contains c || markChars.contains c

/-- Every byte is a URI character or begins an escape that is complete in `t`. -/
def OnlyUriChars (t : List UInt8) : Prop :=
  ∀ i c v, t.drop i = c::v → isUriChar c = true ∨ isEscaped (c::v) = true

/-- The length of the run of URI characters and escapes at the head of the string. -/
def uriRun : List UInt8 → ℕ
  | [] => 0
  | c::cs => if isUriChar c || isEscaped (c::cs) then uriRun cs+1 else 0

/-- The run stops at a NUL. -/
def StopsAtNul (r : List UInt8) : Prop := (r.drop (uriRun r)).head? = some 0

theorem parseUric_cons (c : UInt8) (cs : List UInt8) :
    parseUric (c::cs) =
      if (isUriChar c || isEscaped (c::cs)) = true ∨ c = 0 then parseUric cs+1 else 0 := by
  rw [parseUric]
  congr 1
  rw [eq_iff_iff]
  simp only [isUnreserved,isMark,isReserved,strchr,isUriChar,Bool.or_eq_true,beq_iff_eq]
  tauto

theorem onlyUriChars_nil : OnlyUriChars [] := by
  intro i c v h
  rw [List.drop_nil] at h
  cases h

theorem onlyUriChars_cons (c : UInt8) (t : List UInt8) :
    OnlyUriChars (c::t) ↔ (isUriChar c = true ∨ isEscaped (c::t) = true) ∧ OnlyUriChars t := by
  constructor
  · intro h
    exact ⟨h 0 c t rfl,fun i => h (i+1)⟩
  · rintro ⟨hc,ht⟩ i d v h
    cases i with
    | zero =>
      cases h
      exact hc
    | succ i => exact ht i d v h

/-- A run of `parse_uric` holds nothing else exactly if it does not run over a NUL. -/
theorem onlyUriChars_take (r : List UInt8) :
    OnlyUriChars (r.take (parseUric r)) ↔ ¬StopsAtNul r := by
  induction r with
  | nil => exact ⟨fun _ h => absurd h (by rintro ⟨⟩),fun _ => onlyUriChars_nil⟩
  | cons c cs ih =>
    rw [parseUric_cons]
    unfold StopsAtNul at ih ⊢
    rw [uriRun]
    by_cases hc : (isUriChar c || isEscaped (c::cs)) = true
    · rw [if_pos (.inl hc),if_pos hc,List.take_succ_cons,List.drop_succ_cons,onlyUriChars_cons,ih]
      rw [Bool.or_eq_true] at hc
      exact ⟨fun h => h.2,fun h => ⟨hc.imp id isEscaped_take,h⟩⟩
    · rw [if_neg hc,List.drop_zero,List.head?_cons]
      by_cases hz : c = 0
      · rw [if_pos (.inr hz),List.take_succ_cons,onlyUriChars_cons]
        subst hz
        refine ⟨fun h => absurd h.1 ?_,fun h => absurd rfl h⟩
        rintro (h' | h')
        · cases h'
        · exact absurd (isEscaped_head h') (by decide)
      · rw [if_neg (by rintro (h | h); exacts [hc h,hz h]),List.take_zero]
        exact ⟨fun _ h => hz (Option.some.inj h),fun _ => onlyUriChars_nil⟩

theorem parseUric_eq_uriRun {r : List UInt8} (h : ¬StopsAtNul r) : parseUric r = uriRun r := by
  induction r with
  | nil => rfl
  | cons c cs ih =>
    unfold StopsAtNul at ih h
    rw [parseUric_cons]
    rw [uriRun] at h ⊢
    by_cases hc : (isUriChar c || isEscaped (c::cs)) = true
    · rw [if_pos hc] at h
      rw [if_pos (.inl hc),if_pos hc,ih h]
    · rw [if_neg hc] at h
      refine (if_neg ?_).trans (if_neg hc).symm
      rintro (h' | rfl)
      · exact hc h'
      · exact h rfl

/-- Where the path begins, read off the string alone. -/
def pathOffset (s : List UInt8) : ℕ :=
  if afterScheme s+1 < s.length ∧ (s.drop (afterScheme s)).take 2 = [47,47] then
    afterScheme s+2+(authorityText (workCopy (s.drop (afterScheme s+2)))).length
  else afterScheme s

/-- Behind the path and behind the fragment's run there is no NUL. -/
def NoNulBehind (s : List UInt8) : Prop :=
  ¬StopsAtNul (s.drop (pathOffset s)) ∧
    ∀ v, (s.drop (pathOffset s)).drop (uriRun (s.drop (pathOffset s))) = 35::v → ¬StopsAtNul v

theorem parseHostport_text {res : Resolver} {start : ℕ} {r : List UInt8} {hp : HostPort}
    (h : parseHostport res start r = .ok hp) : hp.text = ⟨some start,authorityText (workCopy r)⟩ := by
  rw [parseHostport_eq] at h
  cases ha : hostAddress res (workCopy r) with
  | none =>
    rw [ha] at h
    cases h
  | some a =>
    rw [ha] at h
    have hfill : fillIn start (workCopy r) a = .ok hp := h
    rw [fillIn] at hfill
    split at hfill
    · cases hfill
    · rw [← Except.ok.inj hfill]

theorem pathStart_eq {res : Resolver} {s : List UInt8} {u : UriType}
    (h : parseUri res s s.length = .ok u) : pathStart s u.hostport = pathOffset s := by
  have ha := (parseUri_ok h).1
  simp only [authority,List.take_length] at ha
  unfold pathOffset pathStart
  split at ha
  · rename_i hc
    rw [if_pos hc,parseHostport_text ha,if_neg (by rintro ⟨⟩)]
  · rename_i hc
    rw [if_neg hc,← Except.ok.inj ha]
    rfl

/-- The tokens of a URL hold URI characters exactly if no NUL stands behind one. -/
theorem parseUri_onlyUriChars {res : Resolver} {s : List UInt8} {u : UriType}
    (h : parseUri res s s.length = .ok u) :
    (OnlyUriChars u.pathquery.text ∧ OnlyUriChars u.fragment.text) ↔ NoNulBehind s := by
  have hstart := pathStart_eq h
  have hu := (parseUri_ok h).2
  rw [List.take_length] at hu
  unfold NoNulBehind
  generalize hr : s.drop (pathOffset s) = r
  have hquery : u.pathquery.text = r.take (parseUric r) := by
    rw [hu]
    simp only [uriOf,hstart,hr]
  have hfrag : u.fragment.text = if (r.drop (parseUric r)).headD 0 = 35 then
      (r.drop (parseUric r)).tail.take (parseUric (r.drop (parseUric r)).tail) else [] := by
    rw [hu]
    simp only [uriOf,fragmentStart,hstart,← List.drop_drop,hr]
    split <;> rfl
  rw [hquery,hfrag,onlyUriChars_take]
  refine and_congr_right fun hn => ?_
  rw [parseUric_eq_uriRun hn]
  split
  · rename_i hhash
    rcases cons_of_headD (by decide) hhash with ⟨v,hv⟩
    rw [hv,List.tail_cons,onlyUriChars_take]
    exact ⟨fun h w hw => (List.cons.inj hw).2 ▸ h,fun h => h v rfl⟩
  · rename_i hhash
    refine ⟨fun _ v hv => ?_,fun _ => onlyUriChars_nil⟩
    rw [hv] at hhash
    exact absurd rfl hhash

open Http

/-- The parser is done with the request line. -/
def LineAccepted (st : ParseStatus) : Prop := st = .ok ∨ st = .success

theorem not_lineAccepted (st : StopStatus) : ¬LineAccepted st.status := by
  rintro (h | h) <;> cases st <;> cases h

theorem requestLine_uri {res : Resolver} {p : HttpParser}
    (h : LineAccepted (requestLine res p).1) :
    parseUri res (requestLine res p).2.msg.urlbuf (requestLine res p).2.msg.urlbuf.length =
      .ok (requestLine res p).2.msg.uri := by
  have hfail : ¬LineAccepted .failure := by rintro (h | h) <;> cases h
  unfold requestLine at h ⊢
  simp only at h ⊢
  split at h
  · rename_i hs
    rw [if_pos hs]
    split at h
    · exact absurd h hfail
    split at h
    · exact absurd h hfail
    rename_i hid
    rw [if_neg hid]
    split at h
    · exact absurd h hfail
    rename_i he
    exact he
  · rename_i hs
    rw [if_neg hs]
    split at h
    · rename_i hm
      rcases scannerMatch_status requestLineFmt p.rest with he | ⟨st,he⟩
      · exact absurd he hm
      · rw [he] at h
        exact absurd h (not_lineAccepted st)
    rename_i hm
    rw [if_neg hm]
    split at h
    · exact absurd h hfail
    rename_i he
    split at h
    · exact absurd h hfail
    split at h
    · exact absurd h hfail
    rename_i hv
    rw [if_neg hv]
    exact he

theorem parserParseRequestline_uri {res : Resolver} {p : HttpParser}
    (h : LineAccepted (parserParseRequestline res p).1) :
    parseUri res (parserParseRequestline res p).2.msg.urlbuf
        (parserParseRequestline res p).2.msg.urlbuf.length =
      .ok (parserParseRequestline res p).2.msg.uri := by
  unfold parserParseRequestline afterBlankLines at h ⊢
  cases hb : skipBlankLines false p.rest with
  | stop st n =>
    rw [hb] at h
    exact absurd h (not_lineAccepted st)
  | ok u n =>
    simp only [hb] at h ⊢
    exact requestLine_uri h

/-- The tokens of a parsed URL hold URI characters only. -/
def UriCharsOnly (u : UriType) : Prop :=
  OnlyUriChars u.pathquery.text ∧ OnlyUriChars u.fragment.text

/-- Exactly the URLs without a NUL behind a token let nothing else through, in a request line
and anywhere else. -/
theorem uriCharsOnly_iff (res : Resolver) :
    (∀ s u, parseUri res s s.length = .ok u → (UriCharsOnly u ↔ NoNulBehind s)) ∧
      ∀ p, LineAccepted (parserParseRequestline res p).1 →
        (UriCharsOnly (parserParseRequestline res p).2.msg.uri ↔
          NoNulBehind (parserParseRequestline res p).2.msg.urlbuf) :=
  ⟨fun _ _ h => parseUri_onlyUriChars h,
    fun _ h => parseUri_onlyUriChars (parserParseRequestline_uri h)⟩

def requestFor (target : List UInt8) : HttpParser :=
  parserRequestInit.append (cstr "GET "++target++cstr " HTTP/1.1\r\n")

theorem uriCharsOnly_escape :
    LineAccepted (parserParseRequestline Resolver.empty (requestFor (cstr "/a?b=%20"))).1 ∧
      UriCharsOnly
        (parserParseRequestline Resolver.empty (requestFor (cstr "/a?b=%20"))).2.msg.uri := by
  have h : (parserParseRequestline Resolver.empty (requestFor (cstr "/a?b=%20"))).1 = .ok := by
    decide
  have hurl : (parserParseRequestline Resolver.empty (requestFor (cstr "/a?b=%20"))).2.msg.urlbuf =
      cstr "/a?b=%20" := by decide
  have hrun : uriRun (cstr "/a?b=%20") = 8 := by decide
  refine ⟨.inl h,((uriCharsOnly_iff Resolver.empty).2 _ (.inl h)).mpr ?_⟩
  rw [hurl]
  have hoff : pathOffset (cstr "/a?b=%20") = 0 := by decide
  refine ⟨?_,fun v hv => ?_⟩
  · rw [hoff,List.drop_zero,StopsAtNul,hrun]
    decide
  · rw [hoff,List.drop_zero,hrun] at hv
    have hnil : (cstr "/a?b=%20").drop 8 = [] := by decide
    rw [hnil] at hv
    cases hv

/-- A request for a slash and a NUL is accepted with the NUL in its path. -/
theorem nulPath_accepted :
    LineAccepted (parserParseRequestline Resolver.empty (requestFor [47,0])).1 ∧
      (parserParseRequestline Resolver.empty (requestFor [47,0])).2.msg.uri.pathquery.text =
        [47,0] ∧
      ¬UriCharsOnly (parserParseRequestline Resolver.empty (requestFor [47,0])).2.msg.uri := by
  have h : (parserParseRequestline Resolver.empty (requestFor [47,0])).1 = .ok := by decide
  have hpath : (parserParseRequestline Resolver.empty
      (requestFor [47,0])).2.msg.uri.pathquery.text = [47,0] := by decide
  refine ⟨.inl h,hpath,fun hu => ?_⟩
  have hnul := hu.1 1 0 []
  rw [hpath] at hnul
  rcases hnul rfl with hc | hc <;> revert hc <;> decide

end Uri
end CtrlPt
