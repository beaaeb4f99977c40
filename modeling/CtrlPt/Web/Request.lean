import CtrlPt.Uri.Escapes
import CtrlPt.Uri.RelativeDots
import CtrlPt.Web.Ranges

/-! The path that the web server looks up: `process_request` up to `request_doc`. -/
namespace CtrlPt
namespace Web

open CText Rounds Memory Uri

def httpForbidden : ℤ := 403

/-- The error code, or the memory of `request_doc`. -/
def requestDoc (pathquery : List UInt8) : Except Fault (ℤ ⊕ List UInt8) := do
  let unescaped ← removeEscapedChars (pathquery++[0]) pathquery.length
  -- the length is that of the string before it was decoded
  let r ← removeDots unescaped.1 pathquery.length
  if r.1 ≠ 0 then .ok (.inl httpForbidden)
  else do
    let c ← load r.2 0
    if c ≠ 47 then .ok (.inl httpBadRequest) else .ok (.inr r.2)

/-- What is looked up is a path from the root without `.` and `..`. -/
def NoTraversal (pathquery : List UInt8) : Prop :=
  ∀ doc, requestDoc pathquery = .ok (.inr doc) → (untilNul doc).head? = some 47 ∧
    ∀ seg ∈ pathSegments (untilNul doc), isDots seg = false

/-- The memory that the dots are removed from: NULs fill the places of the escapes. -/
def decoded (pathquery : List UInt8) : List UInt8 :=
  unescape pathquery++List.replicate (2*escapes pathquery) 0

/-- A segment that is dots for a reader who stops at a NUL, but not for `remove_dots`: a NUL
follows the dots, or they stand before the query or the fragment. It is kept if the segments
behind it resolve by themselves, and it is seen if no NUL is kept before it. -/
def HiddenDots (s : List UInt8) : Prop :=
  ∃ before v after acc, pathSegments s = before++v::after ∧ isDots (untilNul v) = true ∧
    (0 ∈ v ∨ after = [] ∧ pathRest s ≠ []) ∧
    before.foldlM dotStep [] = some acc ∧ (∀ seg ∈ acc, 0 ∉ seg) ∧
    ((if pathRest s = [] then after else after.dropLast).foldlM dotStep []).isSome = true

def cutSegments : List (List UInt8) → List (List UInt8)
  | [] => []
  | v::vs => if 0 ∈ v then [untilNul v] else v::cutSegments vs

theorem mem_cutSegments {segs : List (List UInt8)} {seg : List UInt8} :
    seg ∈ cutSegments segs ↔
      ∃ a v b, segs = a++v::b ∧ (∀ x ∈ a, 0 ∉ x) ∧ seg = untilNul v := by
  induction segs with
  | nil => simp [cutSegments]
  | cons w segs ih =>
    rw [cutSegments]
    constructor
    · intro h
      split at h
      · exact ⟨[],w,segs,rfl,by simp,List.mem_singleton.mp h⟩
      · rename_i hw
        rcases List.mem_cons.mp h with rfl | h
        · exact ⟨[],seg,segs,rfl,by simp,(untilNul_of_no_nul hw).symm⟩
        · rcases ih.mp h with ⟨a,v,b,rfl,ha,hv⟩
          refine ⟨w::a,v,b,rfl,?_,hv⟩
          intro x hx
          rcases List.mem_cons.mp hx with rfl | hx
          · exact hw
          · exact ha x hx
    · rintro ⟨a,v,b,hs,ha,rfl⟩
      cases a with
      | nil =>
        injection hs with hv hb
        subst hv
        split
        · exact .head _
        · rename_i hw
          rw [untilNul_of_no_nul hw]
          exact .head _
      | cons x a =>
        injection hs with hv hb
        subst hv
        rw [if_neg (ha w (.head _))]
        exact .tail _ (ih.mpr ⟨a,v,b,hb,fun y hy => ha y (.tail _ hy),rfl⟩)

theorem cutSegments_ne_nil {segs : List (List UInt8)} (h : segs ≠ []) : cutSegments segs ≠ [] := by
  cases segs with
  | nil => exact absurd rfl h
  | cons v vs =>
    rw [cutSegments]
    split <;> simp

theorem untilNul_cons {c : UInt8} (hc : c ≠ 0) (r : List UInt8) :
    untilNul (c::r) = c::untilNul r := by
  rw [untilNul,List.takeWhile_cons,if_pos (bne_iff_ne.mpr hc)]
  rfl

theorem untilNul_of_mem {l : List UInt8} (h : 0 ∈ l) (r : List UInt8) :
    untilNul (l++r) = untilNul l := by
  obtain ⟨a,b,rfl,ha⟩ := List.eq_append_cons_of_mem h
  rw [List.append_assoc,List.cons_append,untilNul_terminated ha,untilNul_terminated ha]

@[simp] theorem untilNul_nul (l r : List UInt8) : untilNul (l++0::r) = untilNul l := by
  by_cases h : 0 ∈ l
  · exact untilNul_of_mem h _
  · rw [untilNul_terminated h,untilNul_of_no_nul h]

theorem untilNul_joinPath (segs : List (List UInt8)) {rest : List UInt8}
    (hrest : ∀ c v, rest = c::v → isPathEnd c = true) :
    ∃ rest', untilNul (joinPath segs++rest) = joinPath (cutSegments segs)++rest' ∧
      ∀ c v, rest' = c::v → isPathEnd c = true := by
  induction segs with
  | nil =>
    refine ⟨untilNul rest,rfl,?_⟩
    intro c v hc
    cases rest with
    | nil => cases hc
    | cons d r =>
      have hd := hrest d r rfl
      rw [untilNul_cons (by rintro rfl; cases hd)] at hc
      injection hc with hdc
      rw [← hdc]
      exact hd
  | cons v segs ih =>
    rw [joinPath_cons,cutSegments,List.cons_append,untilNul_cons (by decide),List.append_assoc]
    split
    · rename_i hv
      rw [untilNul_of_mem hv]
      exact ⟨[],by simp [joinPath],by simp⟩
    · rename_i hv
      rcases ih with ⟨rest',heq,hend⟩
      refine ⟨rest',?_,hend⟩
      rw [untilNul_append hv,heq,joinPath_cons]
      simp

theorem pathSegments_untilNul {segs : List (List UInt8)} {rest : List UInt8} (hne : segs ≠ [])
    (hchars : ∀ seg ∈ segs, SegmentChars seg) (hrest : ∀ c v, rest = c::v → isPathEnd c = true) :
    pathSegments (untilNul (joinPath segs++rest)) = cutSegments segs := by
  rcases untilNul_joinPath segs hrest with ⟨rest',heq,hend⟩
  rw [heq]
  refine (joinPath_read (cutSegments_ne_nil hne) ?_ hend).2.2
  intro seg hseg
  rcases mem_cutSegments.mp hseg with ⟨a,v,b,rfl,-,rfl⟩
  intro c hc
  exact hchars v (by simp) c ((List.takeWhile_sublist _).subset hc)

theorem nul_of_isDots_untilNul {v : List UInt8} (h : isDots (untilNul v) = true)
    (hv : isDots v = false) : 0 ∈ v := by
  by_contra h0
  rw [untilNul_of_no_nul h0,hv] at h
  cases h

theorem isDots_of_nul {v : List UInt8} (h : 0 ∈ v) : isDots v = false := by
  refine isDots_false ?_ ?_ <;> rintro rfl <;> revert h <;> decide

/-- A path to the end of the string: every segment went over the stack. -/
theorem seenDots_closed {s : List UInt8} (hrest : pathRest s = []) :
    (∃ segs, keptSegments s = some segs ∧ ∃ seg ∈ cutSegments segs, isDots seg = true) ↔
      HiddenDots s := by
  have hkept : keptSegments s = ((pathSegments s).foldlM dotStep []).map fun acc =>
      (if isDots ((pathSegments s).getLastD []) then []::acc else acc).reverse :=
    keptSegments_eq (.inl hrest)
  rw [hkept]
  constructor
  · rintro ⟨segs,hs,seg,hseg,hdots⟩
    rcases Option.map_eq_some_iff.mp hs with ⟨stack,hstack,rfl⟩
    rcases mem_cutSegments.mp hseg with ⟨a,v,b,hsplit,ha,rfl⟩
    obtain ⟨above,habove⟩ : ∃ above, stack = above++v::a.reverse := by
      have hrev := congrArg List.reverse hsplit
      rw [List.reverse_reverse,List.reverse_append,List.reverse_cons,List.append_assoc] at hrev
      split at hrev
      · -- the empty segment that stands for dots at the end is none itself
        cases hb : b.reverse with
        | nil =>
          rw [hb] at hrev
          injection hrev with hv
          subst hv
          cases hdots
        | cons x above =>
          rw [hb] at hrev
          injection hrev with hx hrev
          exact ⟨above,hrev⟩
      · exact ⟨b.reverse,hrev⟩
    rw [habove] at hstack
    rcases foldlM_kept_iff.mp hstack with ⟨before,after,hsegs,hbefore,hv,hafter⟩
    refine ⟨before,v,after,a.reverse,hsegs,hdots,.inl (nul_of_isDots_untilNul hdots hv),hbefore,?_,?_⟩
    · intro x hx
      exact ha x (List.mem_reverse.mp hx)
    · rw [if_pos hrest,hafter]
      rfl
  · rintro ⟨before,v,after,acc,hsegs,hdots,hnul,hbefore,hacc,hafter⟩
    rw [if_pos hrest] at hafter
    obtain ⟨above,hafter⟩ := Option.isSome_iff_exists.mp hafter
    have hv := isDots_of_nul (hnul.resolve_right fun h => h.2 hrest)
    have hstack := foldlM_kept_iff.mpr ⟨before,after,hsegs,hbefore,hv,hafter⟩
    rw [hstack]
    refine ⟨_,rfl,untilNul v,mem_cutSegments.mpr ?_,hdots⟩
    refine ⟨acc.reverse,v,((if isDots ((pathSegments s).getLastD []) then [[]] else [])++above).reverse,
      ?_,fun x hx => hacc x (List.mem_reverse.mp hx),rfl⟩
    split <;> simp

/-- A path with something behind it: the last segment is kept as it is. -/
theorem seenDots_open {s : List UInt8} (hrest : pathRest s ≠ []) :
    (∃ segs, keptSegments s = some segs ∧ ∃ seg ∈ cutSegments segs, isDots seg = true) ↔
      HiddenDots s := by
  obtain ⟨init,last,hl⟩ := exists_concat (pathSegments_ne_nil s)
  rw [keptSegments_open hrest hl]
  constructor
  · rintro ⟨segs,hs,seg,hseg,hdots⟩
    rcases Option.map_eq_some_iff.mp hs with ⟨stack,hstack,rfl⟩
    rcases mem_cutSegments.mp hseg with ⟨a,v,b,hsplit,ha,rfl⟩
    have hrev := congrArg List.reverse hsplit
    rw [List.reverse_reverse,List.reverse_append,List.reverse_cons,List.append_assoc] at hrev
    have ha' : ∀ x ∈ a.reverse, 0 ∉ x := fun x hx => ha x (List.mem_reverse.mp hx)
    cases hb : b.reverse with
    | nil =>
      rw [hb] at hrev
      injection hrev with hv hrev
      subst hv hrev
      exact ⟨init,last,[],_,hl,hdots,.inr ⟨rfl,hrest⟩,hstack,ha',by rw [if_neg hrest]; rfl⟩
    | cons x above =>
      rw [hb] at hrev
      injection hrev with hx hrev
      rw [hrev] at hstack
      rcases foldlM_kept_iff.mp hstack with ⟨before,after,rfl,hbefore,hv,hafter⟩
      refine ⟨before,v,after++[last],a.reverse,?_,hdots,.inl (nul_of_isDots_untilNul hdots hv),
        hbefore,ha',?_⟩
      · rw [hl]
        simp
      · rw [if_neg hrest,List.dropLast_concat,hafter]
        rfl
  · rintro ⟨before,v,after,acc,hsegs,hdots,hnul,hbefore,hacc,hafter⟩
    rw [if_neg hrest] at hafter
    have hacc' : ∀ x ∈ acc.reverse, 0 ∉ x := fun x hx => hacc x (List.mem_reverse.mp hx)
    rw [hl] at hsegs
    rcases List.eq_nil_or_concat after with rfl | ⟨after,u,rfl⟩
    · obtain ⟨rfl,rfl⟩ : init = before ∧ last = v := by simpa using hsegs
      rw [hbefore]
      exact ⟨_,rfl,untilNul last,mem_cutSegments.mpr ⟨acc.reverse,last,[],by simp,hacc',rfl⟩,hdots⟩
    · obtain ⟨rfl,rfl⟩ : init = before++v::after ∧ last = u := by
        rw [List.concat_eq_append,← List.cons_append,← List.append_assoc] at hsegs
        exact List.append_inj' hsegs rfl |>.imp_right (by simp)
      have hv := isDots_of_nul (hnul.resolve_right fun h => by simp at h)
      rw [List.concat_eq_append,List.dropLast_concat] at hafter
      obtain ⟨above,hafter⟩ := Option.isSome_iff_exists.mp hafter
      rw [foldlM_kept_iff.mpr ⟨before,after,rfl,hbefore,hv,hafter⟩]
      exact ⟨_,rfl,untilNul v,mem_cutSegments.mpr ⟨acc.reverse,v,(last::above).reverse,by simp,hacc',
        rfl⟩,hdots⟩

theorem seenDots_iff (s : List UInt8) :
    (∃ segs, keptSegments s = some segs ∧ ∃ seg ∈ cutSegments segs, isDots seg = true) ↔
      HiddenDots s := by
  by_cases hrest : pathRest s = []
  · exact seenDots_closed hrest
  · exact seenDots_open hrest

theorem requestDoc_eq (pathquery : List UInt8) : requestDoc pathquery = (do
    let r ← removeDots (decoded pathquery++[0]) (decoded pathquery).length
    if r.1 ≠ 0 then .ok (.inl httpForbidden)
    else do
      let c ← load r.2 0
      if c ≠ 47 then .ok (.inl httpBadRequest) else .ok (.inr r.2)) := by
  have hlen : (decoded pathquery).length = pathquery.length := by
    rw [decoded,List.length_append,List.length_replicate,unescape_length]
  rw [requestDoc,(removeEscapedChars_unescape pathquery []).1,ok_bind,hlen,decoded]

theorem requestDoc_rejected {pathquery : List UInt8}
    (h : (dropDots (decoded pathquery)).head? ≠ some 47) (doc : List UInt8) :
    requestDoc pathquery ≠ .ok (.inr doc) := by
  rw [requestDoc_eq]
  intro hr
  rcases of_bind_ok hr with ⟨⟨code,mem⟩,hdots,hr⟩
  split at hr
  · cases hr
  rename_i hcode
  obtain rfl : code = upnpESuccess := not_not.mp hcode
  rcases of_bind_ok hr with ⟨c,hc,hr⟩
  split at hr
  · cases hr
  rename_i hslash
  obtain rfl := not_not.mp hslash
  refine removeDots_relative h hdots ?_
  rw [List.head?_eq_getElem?]
  exact of_load_ok hc

/-- The path that is looked up has no dots exactly if none are hidden from `remove_dots`. -/
theorem requestDoc_inside_iff (pathquery : List UInt8) : NoTraversal pathquery ↔
    ¬((dropDots (decoded pathquery)).head? = some 47 ∧
      HiddenDots (dropDots (decoded pathquery))) := by
  by_cases hhead : (dropDots (decoded pathquery)).head? = some 47
  swap
  · refine iff_of_true (fun doc hdoc => absurd hdoc (requestDoc_rejected hhead doc)) ?_
    exact fun h => hhead h.1
  generalize hs : dropDots (decoded pathquery) = s at hhead
  rw [← seenDots_iff]
  rcases removeDots_led hs hhead [] with ⟨hnone,mem,hr⟩ | ⟨segs,rest,hsome,hr⟩
  · refine iff_of_true (fun doc hdoc => ?_) ?_
    · rw [requestDoc_eq,hr] at hdoc
      cases hdoc
    · rintro ⟨-,segs,hsome,-⟩
      rw [hnone] at hsome
      cases hsome
  have hne := (keptSegments_mem hsome).1
  have hfirst : ((joinPath segs++pathRest s)++0::rest).head? = some 47 := by
    rw [List.append_assoc]
    exact joinPath_head hne _
  have hdoc : requestDoc pathquery = .ok (.inr ((joinPath segs++pathRest s)++0::rest)) := by
    rw [requestDoc_eq,hr,ok_bind,if_neg (fun h => h rfl),
      load_eq (List.head?_eq_getElem? ▸ hfirst),ok_bind,if_neg (fun h => h rfl)]
  have hread : pathSegments (untilNul ((joinPath segs++pathRest s)++0::rest)) = cutSegments segs := by
    rw [untilNul_nul,pathSegments_untilNul hne (keptSegments_chars hsome) (pathRest_head s)]
  constructor
  · rintro hinside ⟨-,segs',hsome',seg,hseg,hdots⟩
    obtain rfl := Option.some.inj (hsome'.symm.trans hsome)
    rw [(hinside _ hdoc).2 seg (by rw [hread]; exact hseg)] at hdots
    cases hdots
  · intro hclean doc hd
    rw [hdoc] at hd
    cases hd
    refine ⟨?_,fun seg hseg => ?_⟩
    · cases hm : (joinPath segs++pathRest s)++0::rest with
      | nil => simp at hm
      | cons c r =>
        rw [hm] at hfirst
        obtain rfl := Option.some.inj hfirst
        rw [untilNul_cons (by decide)]
        rfl
    · rw [hread] at hseg
      rw [← Bool.not_eq_true]
      exact fun hdots => hclean ⟨hhead,segs,hsome,seg,hseg,hdots⟩

/-- The dots of `/%2e%2e` are decoded, and NULs follow them: the parent of the root is looked up. -/
theorem encodedDots_lookedUp :
    ((parseUri Resolver.empty (cstr "/%2e%2e") 7).toOption.map fun u => u.pathquery.text) =
        some (cstr "/%2e%2e") ∧
      (∃ rest, requestDoc (cstr "/%2e%2e") = .ok (.inr (cstr "/.."++0::rest))) ∧
      ¬NoTraversal (cstr "/%2e%2e") := by
  have hdoc : requestDoc (cstr "/%2e%2e") = .ok (.inr (cstr "/.."++0::List.replicate 4 0)) := by
    decide
  refine ⟨by decide,⟨_,hdoc⟩,fun h => ?_⟩
  have hdots := (h _ hdoc).2 [46,46] (by decide)
  cases hdots

end Web
end CtrlPt
