import CtrlPt.Uri.HostPort

/-! The decomposition of a URL put together again. -/
namespace CtrlPt
namespace Uri

open CText

/-- A uric character stands here: a letter, a digit, a mark, a reserved character or an escape. -/
def UricAt (r : List UInt8) : Prop :=
  ∃ c cs, r = c::cs ∧ (isUnreserved c = true ∨ isReserved c = true ∨ isEscaped (c::cs) = true)

/-- `t` is the longest run of uric characters at the head of `r`. -/
structure LongestRun (r t : List UInt8) : Prop where
  head : t <+: r
  chars : ∀ i < t.length, UricAt (r.drop i)
  longest : ¬UricAt (r.drop t.length)

/-- A token that is there covers the part `t` of the string behind `pre`. -/
def UriToken.Covers (token : UriToken) (pre t : List UInt8) : Prop :=
  token = ⟨some pre.length,t⟩

/-- The tokens of a URL cover the string from left to right, with nothing but the delimiters
between them. -/
structure Decomposition (inp : List UInt8) (u : UriType) : Prop where
  parts : ∃ scheme authority fragment rest : List UInt8,
    inp = scheme++(authority++(u.pathquery.text++(fragment++rest))) ∧
    (u.scheme = UriToken.null ∧ scheme = [] ∨
      u.scheme.text ≠ [] ∧ u.scheme.Covers [] u.scheme.text ∧ scheme = u.scheme.text++[58]) ∧
    (u.hostport.text = UriToken.null ∧ authority = [] ∨
      u.hostport.text.Covers (scheme++[47,47]) u.hostport.text.text ∧
        authority = [47,47]++u.hostport.text.text) ∧
    u.pathquery.Covers (scheme++authority) u.pathquery.text ∧
    LongestRun (u.pathquery.text++(fragment++rest)) u.pathquery.text ∧
    (u.fragment = UriToken.null ∧ fragment = [] ∧ rest.head? ≠ some 35 ∨
      u.fragment.Covers (scheme++(authority++(u.pathquery.text++[35]))) u.fragment.text ∧
        fragment = 35::u.fragment.text ∧ LongestRun (u.fragment.text++rest) u.fragment.text)
  type : u.type = .absolute ↔ u.scheme.text ≠ []
  pathType : u.pathType = .absPath ↔ u.pathquery.text.head? = some 47

theorem uricAt_cons (c : UInt8) (cs : List UInt8) :
    UricAt (c::cs) ↔ (isUnreserved c || isReserved c || isEscaped (c::cs)) = true := by
  constructor
  · rintro ⟨d,ds,he,h⟩
    cases he
    simpa [or_assoc] using h
  · intro h
    exact ⟨c,cs,rfl,by simpa [or_assoc] using h⟩

theorem parseUric_longest (r : List UInt8) : LongestRun r (r.take (parseUric r)) := by
  have hlen : (r.take (parseUric r)).length = parseUric r := by
    rw [List.length_take,Nat.min_eq_left (parseUric_le r)]
  refine ⟨List.take_prefix _ _,?_,?_⟩
  · rw [hlen]
    clear hlen
    induction r with
    | nil =>
      intro i hi
      exact absurd hi (Nat.not_lt_zero i)
    | cons c cs ih =>
      intro i hi
      rw [parseUric] at hi
      split at hi
      · rename_i hc
        cases i with
        | zero => exact (uricAt_cons c cs).mpr hc
        | succ i => exact ih i (by omega)
      · exact absurd hi (Nat.not_lt_zero i)
  · rw [hlen]
    clear hlen
    induction r with
    | nil =>
      rintro ⟨c,cs,he,-⟩
      cases he
    | cons c cs ih =>
      rw [parseUric]
      split
      · exact ih
      · rename_i hc
        rw [List.drop_zero,uricAt_cons]
        exact hc

theorem schemeEnd_spec {i : ℕ} {cs : List UInt8} (h : schemeEnd i cs ≠ 0) :
    ∃ t u, cs = t++58::u ∧ schemeEnd i cs = i+t.length := by
  induction cs generalizing i with
  | nil => exact absurd rfl h
  | cons c cs ih =>
    rw [schemeEnd] at h ⊢
    split at h
    · rename_i hc
      rw [if_pos hc]
      exact ⟨[],cs,by rw [hc]; rfl,rfl⟩
    · rename_i hc
      rw [if_neg hc]
      split at h
      · rename_i hs
        rw [if_pos hs]
        rcases ih h with ⟨t,u,rfl,he⟩
        refine ⟨c::t,u,rfl,?_⟩
        rw [he,List.length_cons]
        omega
      · exact absurd rfl h

theorem parseScheme_spec {inp : List UInt8} (h : parseScheme inp ≠ 0) :
    ∃ u, inp = inp.take (parseScheme inp)++58::u ∧
      (inp.take (parseScheme inp)).length = parseScheme inp := by
  cases inp with
  | nil => exact absurd rfl h
  | cons c cs =>
    rw [parseScheme] at h ⊢
    split at h
    · rename_i hc
      rw [if_pos hc]
      rcases schemeEnd_spec h with ⟨t,u,rfl,he⟩
      have htake : (c::(t++58::u)).take (schemeEnd 1 (t++58::u)) = c::t := by
        rw [he,Nat.add_comm,List.take_succ_cons,List.take_left]
      refine ⟨u,?_,?_⟩
      · rw [htake]
        rfl
      · rw [htake,he,List.length_cons]
        omega
    · exact absurd rfl h

theorem untilNul_drop {s : List UInt8} {k : ℕ} (h : k ≤ (untilNul s).length) :
    untilNul (s.drop k) = (untilNul s).drop k := by
  induction k generalizing s with
  | zero => rfl
  | succ k ih =>
    cases s with
    | nil => rfl
    | cons c s =>
      unfold untilNul at h ih ⊢
      rw [List.takeWhile_cons] at h ⊢
      split at h
      · rename_i hc
        rw [if_pos hc]
        exact ih (by simpa using h)
      · exact absurd h (Nat.not_succ_le_zero k)

/-- The text of a host is the beginning of the string it is read from. -/
theorem parseHostport_prefix {res : Resolver} {start : ℕ} {r : List UInt8} {hp : HostPort}
    (h : parseHostport res start r = .ok hp) :
    hp.text.buff = some start ∧ hp.text.text <+: untilNul r := by
  rcases (parseHostport_read h).parts with ⟨scan,rest,-,-,-,htext⟩
  rw [htext]
  exact ⟨rfl,(List.take_prefix _ _).trans (List.take_prefix _ _)⟩

theorem scheme_part (inp : List UInt8) (hostport : HostPort) :
    ∃ scheme, inp = scheme++inp.drop (afterScheme inp) ∧ scheme.length = afterScheme inp ∧
      ((uriOf inp hostport).scheme = UriToken.null ∧ scheme = [] ∨
        (uriOf inp hostport).scheme.text ≠ [] ∧
          (uriOf inp hostport).scheme.Covers [] (uriOf inp hostport).scheme.text ∧
          scheme = (uriOf inp hostport).scheme.text++[58]) := by
  by_cases hs : parseScheme inp = 0
  · refine ⟨[],?_,?_,.inl ⟨if_pos hs,rfl⟩⟩
    · rw [afterScheme,if_pos hs]
      rfl
    · rw [afterScheme,if_pos hs]
      rfl
  · rcases parseScheme_spec hs with ⟨v,hinp,hlen⟩
    have hscheme : (uriOf inp hostport).scheme = ⟨some 0,inp.take (parseScheme inp)⟩ := if_neg hs
    have hdrop : inp.drop (parseScheme inp+1) = v := by
      nth_rewrite 2 [hinp]
      rw [← List.drop_drop]
      nth_rewrite 1 [← hlen]
      rw [List.drop_left]
      rfl
    refine ⟨inp.take (parseScheme inp)++[58],?_,?_,.inr ⟨?_,?_,?_⟩⟩
    · rw [afterScheme,if_neg hs,hdrop,List.append_assoc]
      exact hinp
    · rw [afterScheme,if_neg hs,List.length_append,hlen]
      rfl
    · rw [hscheme]
      intro hnil
      rw [show inp.take (parseScheme inp) = [] from hnil] at hlen
      exact hs hlen.symm
    · rw [hscheme]
      rfl
    · rw [hscheme]

theorem authority_part {res : Resolver} {str : List UInt8} {hp : HostPort}
    (h : authority res str (untilNul str).length = .ok hp) (hinp : str.take (untilNul str).length =
      untilNul str) :
    ∃ part, (untilNul str).drop (afterScheme (untilNul str)) =
        part++(untilNul str).drop (pathStart (untilNul str) hp) ∧
      afterScheme (untilNul str)+part.length = pathStart (untilNul str) hp ∧
      (hp.text = UriToken.null ∧ part = [] ∨
        hp.text = ⟨some (afterScheme (untilNul str)+2),hp.text.text⟩ ∧
          part = [47,47]++hp.text.text) := by
  simp only [authority,hinp] at h
  generalize hn : afterScheme (untilNul str) = n at h
  split at h
  · rename_i hc
    rcases parseHostport_prefix h with ⟨hbuff,hpre⟩
    rw [untilNul_drop (by omega)] at hpre
    have hstart : pathStart (untilNul str) hp = n+2+hp.text.text.length := by
      rw [pathStart,if_neg (by rw [hbuff]; rintro ⟨⟩),hn]
    have hslashes : (untilNul str).drop n = [47,47]++(untilNul str).drop (n+2) := by
      have htake : ((untilNul str).drop n).take 2 = [47,47] := by
        have hlen : min 2 ((untilNul str).length-n) = 2 := by omega
        generalize hm : (untilNul str).length = m at hinp hlen
        rw [← hinp,List.drop_take,List.take_take,hlen,hc.2]
      rw [← List.drop_drop,← htake,List.take_append_drop]
    rcases hpre with ⟨v,hv⟩
    refine ⟨[47,47]++hp.text.text,?_,?_,.inr ⟨?_,rfl⟩⟩
    · rw [hstart,hslashes,← hv,← List.drop_drop,← hv,List.drop_left,List.append_assoc]
    · rw [hstart,List.length_append]
      exact (Nat.add_assoc _ _ _).symm
    · rw [← hbuff]
  · cases h
    refine ⟨[],?_,?_,.inl ⟨rfl,rfl⟩⟩
    · rw [pathStart,hn]
      rfl
    · rw [pathStart,hn]
      rfl

/-- Scheme, authority and path stand in this order at the head of the string. -/
theorem parseUri_split {res : Resolver} {str : List UInt8} {u : UriType}
    (h : parseUri res str (untilNul str).length = .ok u) :
    ∃ scheme part rest, untilNul str = scheme++(part++(u.pathquery.text++rest)) ∧
      (u.scheme = UriToken.null ∧ scheme = [] ∨
        u.scheme.text ≠ [] ∧ scheme = u.scheme.text++[58]) ∧
      (u.hostport.text = UriToken.null ∧ part = [] ∨ part = [47,47]++u.hostport.text.text) := by
  have hinp : str.take (untilNul str).length = untilNul str :=
    (List.prefix_iff_eq_take.mp (List.takeWhile_prefix _)).symm
  rcases parseUri_ok h with ⟨hhost,hu⟩
  rw [hinp] at hu
  rcases scheme_part (untilNul str) u.hostport with ⟨scheme,hs,-,hscheme⟩
  rcases authority_part hhost hinp with ⟨part,hp,-,hpart⟩
  rw [← hu] at hscheme
  generalize hr : (untilNul str).drop (pathStart (untilNul str) u.hostport) = r at hp
  have hquery : u.pathquery.text = r.take (parseUric r) := by
    rw [hu]
    simp only [uriOf,hr]
  refine ⟨scheme,part,r.drop (parseUric r),?_,?_,?_⟩
  · rw [hquery,List.take_append_drop,← hp]
    exact hs
  · exact hscheme.imp id fun h => ⟨h.1,h.2.2⟩
  · exact hpart.imp id fun h => h.2

theorem fragment_part (f : List UInt8) {token : UriToken} {pre : List UInt8}
    (h : token = if f.headD 0 = 35 then ⟨some pre.length,f.tail.take (parseUric f.tail)⟩
      else UriToken.null) :
    ∃ fragment rest, f = fragment++rest ∧
      (token = UriToken.null ∧ fragment = [] ∧ rest.head? ≠ some 35 ∨
        token.Covers pre token.text ∧ fragment = 35::token.text ∧
          LongestRun (token.text++rest) token.text) := by
  split at h
  · rename_i hhash
    obtain ⟨v,rfl⟩ : ∃ v, f = 35::v := by
      cases f with
      | nil => cases hhash
      | cons c v => exact ⟨v,by rw [← hhash]; rfl⟩
    refine ⟨35::v.take (parseUric v),v.drop (parseUric v),?_,.inr ⟨?_,?_,?_⟩⟩
    · rw [List.cons_append,List.take_append_drop]
    · rw [h]
      rfl
    · rw [h]
      rfl
    · rw [h]
      simp only [List.tail_cons,List.take_append_drop]
      exact parseUric_longest v
  · rename_i hhash
    refine ⟨[],f,rfl,.inl ⟨h,rfl,?_⟩⟩
    intro he
    cases f with
    | nil => cases he
    | cons c v => exact hhash (Option.some.inj he)

theorem uriOf_type (inp : List UInt8) (hostport : HostPort) :
    (uriOf inp hostport).type = .absolute ↔ (uriOf inp hostport).scheme.text ≠ [] := by
  by_cases hs : parseScheme inp = 0
  · simp [uriOf,hs,UriToken.null]
  · have hne : inp.take (parseScheme inp) ≠ [] := by
      rcases parseScheme_spec hs with ⟨v,-,hlen⟩
      intro hnil
      rw [hnil] at hlen
      exact hs hlen.symm
    simpa [uriOf,hs] using hne

theorem uriOf_pathType (inp : List UInt8) (hostport : HostPort) :
    (uriOf inp hostport).pathType = .absPath ↔
      (uriOf inp hostport).pathquery.text.head? = some 47 := by
  have hhead : ∀ l : List UInt8, l.headD 0 = 47 ↔ l.head? = some 47 := by
    intro l
    cases l with
    | nil => decide
    | cons c v => simp
  have hother : (if parseScheme inp = 0 then PathType.relPath else .opaquePart) ≠ .absPath := by
    split <;> rintro ⟨⟩
  rw [← hhead]
  simp only [uriOf]
  split
  · rename_i hc
    exact ⟨fun _ => hc,fun _ => rfl⟩
  · rename_i hc
    exact ⟨fun he => absurd he hother,fun he => absurd he hc⟩

/-- Nothing of an accepted URL is lost. -/
theorem parseUri_decomposition {res : Resolver} {str : List UInt8} {u : UriType}
    (h : parseUri res str (untilNul str).length = .ok u) : Decomposition (untilNul str) u := by
  have hinp : str.take (untilNul str).length = untilNul str :=
    (List.prefix_iff_eq_take.mp (List.takeWhile_prefix _)).symm
  rcases parseUri_ok h with ⟨hhost,hu⟩
  rw [hinp] at hu
  rcases scheme_part (untilNul str) u.hostport with ⟨scheme,hs,hslen,hscheme⟩
  rcases authority_part hhost hinp with ⟨part,hp,hplen,hpart⟩
  rw [← hu] at hscheme
  generalize hr : (untilNul str).drop (pathStart (untilNul str) u.hostport) = r at hp
  have hquery : u.pathquery = ⟨some (pathStart (untilNul str) u.hostport),r.take (parseUric r)⟩ := by
    nth_rewrite 1 [hu]
    rw [uriOf,hr]
  have hquerytext : u.pathquery.text = r.take (parseUric r) := by rw [hquery]
  have hquerylen : (r.take (parseUric r)).length = parseUric r := by
    rw [List.length_take,Nat.min_eq_left (parseUric_le r)]
  have hstart : (scheme++part).length = pathStart (untilNul str) u.hostport := by
    rw [List.length_append,hslen,hplen]
  generalize hf : r.drop (parseUric r) = f
  have hfrag : u.fragment = if f.headD 0 = 35 then
      ⟨some (scheme++(part++(r.take (parseUric r)++[35]))).length,f.tail.take (parseUric f.tail)⟩
      else UriToken.null := by
    have hlen : (scheme++(part++(r.take (parseUric r)++[35]))).length =
        pathStart (untilNul str) u.hostport+parseUric r+1 := by
      rw [← List.append_assoc,← List.append_assoc,List.length_append,List.length_append,hstart,
        hquerylen]
      rfl
    rw [hlen]
    nth_rewrite 1 [hu]
    simp only [uriOf,fragmentStart,← List.drop_drop,hr,hf]
  rcases fragment_part f hfrag with ⟨fragment,rest,hfr,hfragment⟩
  have hrest : u.pathquery.text++(fragment++rest) = r := by
    rw [hquerytext,← hfr,← hf,List.take_append_drop]
  refine ⟨⟨scheme,part,fragment,rest,?_,hscheme,?_,?_,?_,?_⟩,?_,?_⟩
  · rw [hrest,← hp,← hs]
  · rcases hpart with ⟨ht,he⟩ | ⟨ht,he⟩
    · exact .inl ⟨ht,he⟩
    · refine .inr ⟨?_,he⟩
      rw [UriToken.Covers,List.length_append,hslen]
      exact ht
  · rw [hquery,UriToken.Covers,hstart]
  · rw [hrest,hquerytext]
    exact parseUric_longest r
  · rw [hquerytext]
    exact hfragment
  · rw [hu]
    exact uriOf_type _ _
  · rw [hu]
    exact uriOf_pathType _ _

theorem parseUri_decomposition_parts :
    ∃ u, parseUri numericHost (cstr "http://1.2.3.4/a?b#c")
        (untilNul (cstr "http://1.2.3.4/a?b#c")).length = .ok u ∧
      u.fragment.text = cstr "c" ∧ Decomposition (untilNul (cstr "http://1.2.3.4/a?b#c")) u := by
  have h : ((parseUri numericHost (cstr "http://1.2.3.4/a?b#c")
      (untilNul (cstr "http://1.2.3.4/a?b#c")).length).toOption.map (·.fragment.text)) =
        some (cstr "c") := by
    decide
  cases hu : parseUri numericHost (cstr "http://1.2.3.4/a?b#c")
      (untilNul (cstr "http://1.2.3.4/a?b#c")).length with
  | error e =>
    rw [hu] at h
    cases h
  | ok u =>
    rw [hu] at h
    exact ⟨u,rfl,Option.some.inj h,parseUri_decomposition hu⟩

end Uri
end CtrlPt
