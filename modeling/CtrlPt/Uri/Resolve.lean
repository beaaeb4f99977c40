import CtrlPt.Uri.Decompose
import CtrlPt.Uri.Dots

/-! `resolve_rel_url`: a reference and the URL it is relative to. -/
namespace CtrlPt
namespace Uri

open CText Rounds Memory

/-- The loop over the path of the base: what is copied to `finger`, and where its last slash
ends. -/
def copyPath : List UInt8 → List UInt8 → ℕ → ℕ → Except Fault (List UInt8 × ℕ)
  | [], out, _, lastSlash => .ok (out,lastSlash)
  | c::cs, out, finger, lastSlash =>
    if c = 63 then .ok (out,lastSlash)
    else do
      let out ← store out finger c
      copyPath cs out (finger+1) (if c = 47 then finger+1 else lastSlash)

/-- `"//"` and the host of the base, and where `out_finger` stands behind it. -/
def putAuthority (base : List UInt8) (b : UriType) (out : List UInt8) (outFinger : ℕ) :
    Except Fault (List UInt8 × ℕ) :=
  let host := b.hostport.text.text
  if 0 < host.length then do
    require (b.scheme.text.length+1+host.length+2 ≤ base.length)
    let out ← storeAll out outFinger [47,47]
    let out ← storeAll out (outFinger+2) host
    .ok (out,outFinger+2+host.length)
  else .ok (out,outFinger)

/-- `base.pathquery`, or `temp_path` if it is empty. -/
def rootedPathquery (b : UriType) : List UInt8 :=
  if b.pathquery.text.length = 0 then [47] else b.pathquery.text

/-- A reference without a leading slash takes the place of what stands behind the last slash of
the base. `strncpy` does not end the string. -/
def putRelative (base rel : List UInt8) (b : UriType) (out : List UInt8) (outFinger : ℕ) :
    Except Fault (Option (List UInt8)) := do
  require (b.scheme.text.length+1+b.hostport.text.text.length+2+(rootedPathquery b).length ≤
    base.length+1)
  let copied ← copyPath (rootedPathquery b) out outFinger outFinger
  let out ← storeAll copied.1 copied.2 rel
  let dots ← removeDots (out.drop outFinger) (untilNul (out.drop outFinger)).length
  if dots.1 ≠ upnpESuccess then .ok none
  else .ok (some (untilNul (out.take outFinger++dots.2)))

/-- A reference that is not empty, under the scheme of the base. -/
def resolveAgainst (base rel : List UInt8) (b r : UriType) (out : List UInt8) :
    Except Fault (Option (List UInt8)) := do
  require (b.scheme.text.length+1 ≤ base.length)
  let out ← storeAll out 0 b.scheme.text
  let out ← store out b.scheme.text.length 58
  let outFinger := b.scheme.text.length+1
  if 0 < r.hostport.text.text.length then do
    let out ← storeAll out outFinger (rel++[0])
    .ok (some (untilNul out))
  else do
    let put ← putAuthority base b out outFinger
    if r.pathType = .absPath then do
      let out ← storeAll put.1 put.2 rel
      .ok (some (untilNul out))
    else putRelative base rel b put.1 put.2

/-- The URL that is returned, `none` for NULL. -/
def resolveRelUrl (res : Resolver) (baseUrl relUrl : Option (List UInt8)) :
    Except Fault (Option (List UInt8)) :=
  match baseUrl, relUrl with
  | none, some rel => .ok (some rel)
  | _, none => .ok none
  | some base, some rel =>
    let out := List.replicate (base.length+rel.length+2) 0
    match parseUri res rel rel.length with
    | .error _ => .ok none
    | .ok r =>
      if r.type = .absolute then do
        let out ← storeAll out 0 rel
        .ok (some (untilNul out))
      else
        match parseUri res base base.length with
        | .error _ => .ok none
        | .ok b =>
          if b.type = .absolute then
            if rel.length = 0 then do
              let out ← storeAll out 0 base
              .ok (some (untilNul out))
            else resolveAgainst base rel b r out
          else .ok none

/-! Reference resolution. -/

/-- A path up to and with its last slash. -/
def pathDirectory : List UInt8 → List UInt8
  | [] => []
  | c::cs => if c = 47 ∨ 47 ∈ cs then c::pathDirectory cs else []

/-- What follows the last slash. -/
def pathLeaf (path : List UInt8) : List UInt8 := path.drop (pathDirectory path).length

/-- The path of the base without its query; no path is the root. -/
def basePath (b : UriType) : List UInt8 :=
  if b.pathquery.text = [] then [47] else b.pathquery.text.takeWhile (· != 63)

/-- The scheme and the authority of the base. -/
def baseRoot (b : UriType) : List UInt8 :=
  b.scheme.text++(58::if b.hostport.text.text = [] then [] else [47,47]++b.hostport.text.text)

/-- The reference `rel` and the base put together. A reference that is empty or a fragment
only refers to the document of the base. -/
def resolution (base rel : List UInt8) (b r : UriType) : Option (List UInt8) :=
  if r.type = .absolute then some rel
  else if rel = [] then some base
  else if r.hostport.text.text ≠ [] then some (b.scheme.text++58::rel)
  else if r.pathType = .absPath then some (baseRoot b++rel)
  else if rel.head? = some 35 then some (baseRoot b++(b.pathquery.text++rel))
  else (withoutDots (pathDirectory (basePath b)++rel)).map (baseRoot b++·)

example : pathDirectory (cstr "/a/b") = cstr "/a/" := by decide

/-! The parts of the base. -/

theorem pathDirectory_nil {path : List UInt8} (h : 47 ∉ path) : pathDirectory path = [] := by
  cases path with
  | nil => rfl
  | cons c cs =>
    rw [List.mem_cons,not_or] at h
    rw [pathDirectory,if_neg]
    rintro (hc | hc)
    · exact h.1 hc.symm
    · exact h.2 hc

@[simp] theorem pathDirectory_append (path : List UInt8) :
    pathDirectory path++pathLeaf path = path := by
  have h : pathDirectory path <+: path := by
    induction path with
    | nil => exact List.nil_prefix
    | cons c cs ih =>
      rw [pathDirectory]
      split
      · exact (List.prefix_cons_inj c).mpr ih
      · exact List.nil_prefix
  exact List.prefix_iff_eq_append.mp h

theorem pathLeaf_cons {c : UInt8} {cs : List UInt8} (h : c = 47 ∨ 47 ∈ cs) :
    pathLeaf (c::cs) = pathLeaf cs := by
  rw [pathLeaf,pathDirectory,if_pos h]
  rfl

theorem pathLeaf_slash (path : List UInt8) : 47 ∉ pathLeaf path := by
  induction path with
  | nil => exact List.not_mem_nil
  | cons c cs ih =>
    by_cases h : c = 47 ∨ 47 ∈ cs
    · rw [pathLeaf_cons h]
      exact ih
    · rw [pathLeaf,pathDirectory,if_neg h]
      rw [not_or] at h
      intro hm
      rcases List.mem_cons.mp hm with hm | hm
      · exact h.1 hm.symm
      · exact h.2 hm

theorem pathDirectory_getLast {path : List UInt8} (h : 47 ∈ path) :
    (pathDirectory path).getLast? = some 47 := by
  induction path with
  | nil => cases h
  | cons c cs ih =>
    by_cases hcs : 47 ∈ cs
    · rw [pathDirectory,if_pos (.inr hcs),List.getLast?_cons,ih hcs]
      rfl
    · have hc := (List.mem_cons.mp h).resolve_right hcs
      rw [pathDirectory,if_pos (.inl hc.symm),pathDirectory_nil hcs,← hc]
      rfl

theorem copyPath_eq (cs pre : List UInt8) (lastSlash : ℕ) {k : ℕ} (hk : cs.length ≤ k) :
    copyPath cs (pre++List.replicate k 0) pre.length lastSlash =
      .ok ((pre++cs.takeWhile (· != 63))++List.replicate (k-(cs.takeWhile (· != 63)).length) 0,
        if 47 ∈ cs.takeWhile (· != 63) then
          pre.length+(pathDirectory (cs.takeWhile (· != 63))).length else lastSlash) := by
  induction cs generalizing pre lastSlash k with
  | nil => simp [copyPath]
  | cons c cs ih =>
    rw [List.length_cons] at hk
    by_cases hc : c = 63
    · simp [copyPath,hc]
    · have htake : (c::cs).takeWhile (· != 63) = c::cs.takeWhile (· != 63) := by simp [hc]
      have hstep := ih (pre++[c]) (if c = 47 then pre.length+1 else lastSlash) (k := k-1) (by omega)
      rw [copyPath,if_neg hc,store_replicate _ _ _ (by omega),ok_bind,htake]
      rw [List.length_append,List.length_singleton] at hstep
      rw [hstep]
      generalize cs.takeWhile (· != 63) = v
      congr 2
      · have hrest : k-1-v.length = k-(v.length+1) := by omega
        rw [List.length_cons,hrest]
        simp
      · by_cases hv : 47 ∈ v
        · rw [if_pos hv,if_pos (.tail _ hv),pathDirectory,if_pos (.inr hv),List.length_cons]
          omega
        · rw [if_neg hv]
          by_cases h47 : c = 47
          · rw [if_pos h47,if_pos (by rw [h47]; exact .head _),pathDirectory,if_pos (.inl h47),
              pathDirectory_nil hv]
            rfl
          · rw [if_neg h47,if_neg]
            intro hm
            rcases List.mem_cons.mp hm with hm | hm
            · exact h47 hm.symm
            · exact hv hm

/-- What stands in the buffer when the reference is written over the end of the base path. -/
def mergedPath (b : UriType) (rel : List UInt8) : List UInt8 :=
  pathDirectory (basePath b)++(rel++(pathLeaf (basePath b)).drop rel.length)

/-- The string `remove_dots` makes of a path. -/
def keptString (s : List UInt8) : Option (List UInt8) :=
  (keptSegments s).map fun segs => joinPath segs++pathRest s

/-- The last assertion on the lengths of the base's parts. -/
def PartsFit (base : List UInt8) (b : UriType) : Prop :=
  b.scheme.text.length+1+b.hostport.text.text.length+2+max b.pathquery.text.length 1 ≤ base.length+1

/-- What is used of the base: its parts fit into the string and its path begins with a slash. -/
structure BaseRead (base : List UInt8) (b : UriType) : Prop where
  length : (baseRoot b).length+b.pathquery.text.length ≤ base.length
  noNul : 0 ∉ baseRoot b ∧ 0 ∉ basePath b
  head : (basePath b).head? = some 47
  plain : ∀ c ∈ basePath b, isPathEnd c = false

theorem parseUri_scheme {res : Resolver} {str : List UInt8} {max : ℕ} {u : UriType}
    (h : parseUri res str max = .ok u) (ht : u.type = .absolute) : u.scheme ≠ UriToken.null := by
  have hu := (parseUri_ok h).2
  rw [hu] at ht ⊢
  simp only [uriOf] at ht ⊢
  split at ht
  · cases ht
  · rename_i hs
    rw [if_neg hs]
    rintro ⟨⟩

theorem parseUri_absPath {res : Resolver} {str : List UInt8} {max : ℕ} {u : UriType}
    (h : parseUri res str max = .ok u) (ht : u.pathType = .absPath) :
    u.pathquery.text.head? = some 47 := by
  have hu := (parseUri_ok h).2
  rw [hu] at ht ⊢
  simp only [uriOf] at ht ⊢
  split at ht
  · rename_i hc
    rcases cons_of_headD (by decide) hc with ⟨v,hv⟩
    rw [hv]
    rfl
  · split at ht <;> cases ht

theorem parseUri_pathquery_chars {res : Resolver} {str : List UInt8} {max : ℕ} {u : UriType}
    (h : parseUri res str max = .ok u) : ∀ c ∈ u.pathquery.text, c ≠ 35 := by
  have hu := (parseUri_ok h).2
  rw [hu]
  intro c hc
  have hchar := parseUric_chars c hc
  rintro rfl
  revert hchar
  decide

theorem baseRead {res : Resolver} {base : List UInt8} {b : UriType} (hnul : 0 ∉ base)
    (hb : parseUri res base base.length = .ok b) (ht : b.type = .absolute)
    (hpath : b.pathquery.text = [] ∨ b.pathType = .absPath) : BaseRead base b := by
  have hstr := untilNul_of_no_nul hnul
  have hb' : parseUri res base (untilNul base).length = .ok b := by
    rw [hstr]
    exact hb
  rcases parseUri_split hb' with ⟨scheme,part,rest,hbase,hscheme,hpart⟩
  rw [hstr] at hbase
  obtain ⟨-,rfl⟩ := hscheme.resolve_left fun h => parseUri_scheme hb ht h.1
  have hroot : (baseRoot b).length ≤ (b.scheme.text++[58]).length+part.length ∧
      ∀ c ∈ baseRoot b, c ∈ (b.scheme.text++[58])++part := by
    have heq : baseRoot b = (b.scheme.text++[58])++
        if b.hostport.text.text = [] then [] else [47,47]++b.hostport.text.text := by
      simp [baseRoot]
    rw [heq]
    rcases hpart with ⟨hnull,rfl⟩ | rfl
    · rw [hnull,UriToken.null,if_pos rfl]
      exact ⟨by simp,fun c hc => hc⟩
    · split
      · exact ⟨by simp,fun c hc => List.mem_append_left _ (by simpa using hc)⟩
      · exact ⟨by rw [List.length_append],fun c hc => hc⟩
  have hlen := congrArg List.length hbase
  have hsub : ∀ c ∈ basePath b, c = 47 ∨ c ∈ b.pathquery.text := by
    intro c hc
    rw [basePath] at hc
    split at hc
    · exact .inl (List.mem_singleton.mp hc)
    · exact .inr ((List.takeWhile_sublist _).subset hc)
  refine ⟨?_,⟨?_,?_⟩,?_,?_⟩
  · simp only [List.length_append] at hlen hroot
    omega
  · intro h
    refine hnul ?_
    rw [hbase,← List.append_assoc]
    exact List.mem_append_left _ (hroot.2 0 h)
  · intro h
    refine hnul ?_
    rcases hsub 0 h with h | h
    · cases h
    · rw [hbase]
      simp [h]
  · rw [basePath]
    split
    · rfl
    · rename_i hne
      have hhead := parseUri_absPath hb (hpath.resolve_left hne)
      obtain ⟨v,hv⟩ : ∃ v, b.pathquery.text = 47::v := by
        cases hq : b.pathquery.text with
        | nil => exact absurd hq hne
        | cons c v =>
          rw [hq] at hhead
          exact ⟨v,by rw [Option.some.inj hhead]⟩
      rw [hv]
      rfl
  · intro c hc
    have h35 : c ≠ 35 := by
      rcases hsub c hc with rfl | h
      · decide
      · exact parseUri_pathquery_chars hb c h
    have h63 : c ≠ 63 := by
      rw [basePath] at hc
      split at hc
      · rw [List.mem_singleton.mp hc]
        decide
      · simpa using List.all_eq_true.mp List.all_takeWhile c hc
    simp [isPathEnd,h35,h63]

/-! What the buffer holds. -/

theorem putAuthority_eq {base : List UInt8} {b : UriType} {k : ℕ}
    (hlen : (baseRoot b).length ≤ base.length) (hk : (baseRoot b).length ≤ k) :
    putAuthority base b ((b.scheme.text++[58])++List.replicate (k-(b.scheme.text.length+1)) 0)
        (b.scheme.text.length+1) =
      .ok (baseRoot b++List.replicate (k-(baseRoot b).length) 0,(baseRoot b).length) := by
  have hl : b.scheme.text.length+1 = (b.scheme.text++[58]).length := by simp
  unfold putAuthority
  cases hh : b.hostport.text.text with
  | nil =>
    have hroot : baseRoot b = b.scheme.text++[58] := by
      rw [baseRoot,if_pos hh]
    rw [hroot,← hl]
    rfl
  | cons c v =>
    have hroot : baseRoot b = (b.scheme.text++[58])++[47,47]++(c::v) := by
      rw [baseRoot,if_neg (by rw [hh]; simp),hh]
      simp
    have hrl := congrArg List.length hroot
    simp only [List.length_append,List.length_cons,List.length_nil] at hrl
    simp only [List.length_cons]
    rw [if_pos (Nat.succ_pos _),require_true (by rw [decide_eq_true_eq]; omega),ok_bind,hl,
      storeAll_replicate _ _ _ (by simp; omega),ok_bind]
    have hl2 : (b.scheme.text++[58]).length+2 = ((b.scheme.text++[58])++[47,47]).length := by simp
    rw [hl2,storeAll_replicate _ _ _ (by simp; omega),ok_bind,hroot]
    congr 2
    · congr 2
      simp
      omega
    · simp
      omega

theorem upnpEInvalidUrl_ne : upnpEInvalidUrl ≠ upnpESuccess := by decide

@[simp] theorem rootedPathquery_length (b : UriType) :
    (rootedPathquery b).length = max b.pathquery.text.length 1 := by
  rw [rootedPathquery]
  split
  · rename_i h
    rw [h]
    rfl
  · omega

@[simp] theorem rootedPathquery_takeWhile (b : UriType) :
    (rootedPathquery b).takeWhile (· != 63) = basePath b := by
  rw [basePath,rootedPathquery]
  by_cases h : b.pathquery.text = []
  · rw [if_pos (by rw [h]; rfl),if_pos h]
    rfl
  · rw [if_neg (by simpa using h),if_neg h]

theorem mergedPath_facts {base rel : List UInt8} {b : UriType} (hb : BaseRead base b)
    (hrel : 0 ∉ rel) : (mergedPath b rel).head? = some 47 ∧ 0 ∉ mergedPath b rel := by
  have happ := pathDirectory_append (basePath b)
  have hmem : 47 ∈ basePath b := List.mem_of_mem_head? hb.head
  constructor
  · cases hd : pathDirectory (basePath b) with
    | nil =>
      have hlast := pathDirectory_getLast hmem
      rw [hd] at hlast
      cases hlast
    | cons c v =>
      have hhead := hb.head
      rw [← happ,hd] at hhead
      rw [mergedPath,hd]
      exact hhead
  · have hdir : 0 ∉ pathDirectory (basePath b) ∧ 0 ∉ pathLeaf (basePath b) := by
      have h0 := hb.noNul.2
      rw [← happ,List.mem_append,not_or] at h0
      exact h0
    rw [mergedPath,List.mem_append,List.mem_append,not_or,not_or]
    exact ⟨hdir.1,hrel,fun h => hdir.2 (List.mem_of_mem_drop h)⟩

theorem putRelative_eq {base rel : List UInt8} {b : UriType} (hb : BaseRead base b)
    (hrel : 0 ∉ rel) (hfit : PartsFit base b) :
    putRelative base rel b
        (baseRoot b++List.replicate (base.length+rel.length+2-(baseRoot b).length) 0)
        (baseRoot b).length =
      .ok ((keptString (mergedPath b rel)).map (baseRoot b++·)) := by
  have hlen := hb.length
  have happ := pathDirectory_append (basePath b)
  generalize hm : base.length+rel.length+2-(baseRoot b).length = m
  have hpathlen := rootedPathquery_length b
  have htake := rootedPathquery_takeWhile b
  have hbase : (basePath b).length ≤ max b.pathquery.text.length 1 := by
    rw [← htake,← hpathlen]
    exact takeWhile_length_le _ _
  have hmem : 47 ∈ basePath b := List.mem_of_mem_head? hb.head
  have hcopy := copyPath_eq (rootedPathquery b) (baseRoot b) (baseRoot b).length (k := m) (by omega)
  rw [htake,if_pos hmem,← List.length_append] at hcopy
  -- the reference over what stands behind its last slash
  have hsplit : (baseRoot b++basePath b)++List.replicate (m-(basePath b).length) 0 =
      (baseRoot b++pathDirectory (basePath b))++
        (pathLeaf (basePath b)++List.replicate (m-(basePath b).length) 0) := by
    nth_rewrite 1 [← happ]
    simp only [List.append_assoc]
  have hleaf := congrArg List.length happ
  rw [List.length_append] at hleaf
  obtain ⟨z,hz⟩ : ∃ z, (pathLeaf (basePath b)++List.replicate (m-(basePath b).length) 0).drop
      rel.length = (pathLeaf (basePath b)).drop rel.length++0::z := by
    obtain ⟨j,hj⟩ : ∃ j, m-(basePath b).length-(rel.length-(pathLeaf (basePath b)).length) = j+1 :=
      ⟨m-(basePath b).length-(rel.length-(pathLeaf (basePath b)).length)-1,by omega⟩
    rw [List.drop_append,List.drop_replicate,hj,List.replicate_succ]
    exact ⟨_,rfl⟩
  have hstore : storeAll ((baseRoot b++basePath b)++List.replicate (m-(basePath b).length) 0)
      (baseRoot b++pathDirectory (basePath b)).length rel =
        .ok (baseRoot b++(mergedPath b rel++0::z)) := by
    rw [hsplit,storeAll_behind _ _ _ (by simp; omega),hz,mergedPath]
    simp only [List.append_assoc]
  rcases mergedPath_facts hb hrel with ⟨hhead,hnul⟩
  unfold putRelative
  rw [require_true (by rw [decide_eq_true_eq,hpathlen]; exact hfit),ok_bind,hcopy,ok_bind,hstore,
    ok_bind,List.drop_left,untilNul_terminated hnul]
  rcases removeDots_kept hhead z with ⟨hnone,mem,hr⟩ | ⟨segs,rest,hsome,hr⟩
  · rw [hr,ok_bind,if_pos upnpEInvalidUrl_ne,keptString,hnone]
    rfl
  · rcases keptSegments_string hnul hsome with ⟨h0,-,-⟩
    have hnul' : 0 ∉ baseRoot b++(joinPath segs++pathRest (mergedPath b rel)) := by
      rw [List.mem_append,not_or]
      exact ⟨hb.noNul.1,h0⟩
    rw [hr,ok_bind,if_neg (by simp),keptString,hsome,List.take_left,← List.append_assoc,
      untilNul_terminated hnul']
    rfl

theorem putRelative_abort {base rel : List UInt8} {b : UriType} (out : List UInt8) (outFinger : ℕ)
    (hfit : ¬PartsFit base b) : putRelative base rel b out outFinger = .error .assertion := by
  have hbool : decide (b.scheme.text.length+1+b.hostport.text.text.length+2+
      (rootedPathquery b).length ≤ base.length+1) = false := by
    rw [decide_eq_false_iff_not,rootedPathquery_length]
    exact hfit
  unfold putRelative
  rw [hbool]
  rfl

theorem untilNul_replicate {l : List UInt8} (h : 0 ∉ l) {k : ℕ} (hk : 0 < k) :
    untilNul (l++List.replicate k 0) = l := by
  obtain ⟨k,rfl⟩ : ∃ m, k = m+1 := ⟨k-1,by omega⟩
  exact untilNul_terminated h _

theorem storeAll_fresh {bytes : List UInt8} {k : ℕ} (h : bytes.length ≤ k) :
    storeAll (List.replicate k 0) 0 bytes = .ok (bytes++List.replicate (k-bytes.length) 0) :=
  storeAll_replicate [] bytes 0 h

theorem baseRoot_prefix (b : UriType) : ∃ v, baseRoot b = (b.scheme.text++[58])++v :=
  ⟨if b.hostport.text.text = [] then [] else [47,47]++b.hostport.text.text,by simp [baseRoot]⟩

instance (base : List UInt8) (b : UriType) : Decidable (PartsFit base b) :=
  inferInstanceAs (Decidable (_ ≤ _))

theorem resolveAgainst_eq {base rel : List UInt8} {b : UriType} (r : UriType)
    (hb : BaseRead base b) (hrel : 0 ∉ rel) :
    resolveAgainst base rel b r (List.replicate (base.length+rel.length+2) 0) =
      if r.hostport.text.text ≠ [] then .ok (some (b.scheme.text++58::rel))
      else if r.pathType = .absPath then .ok (some (baseRoot b++rel))
      else if PartsFit base b then .ok ((keptString (mergedPath b rel)).map (baseRoot b++·))
      else .error .assertion := by
  have hlen := hb.length
  have hnul := hb.noNul.1
  rcases baseRoot_prefix b with ⟨v,hv⟩
  have hroot := congrArg List.length hv
  rw [List.length_append,List.length_append,List.length_singleton] at hroot
  generalize hk : base.length+rel.length+2 = k
  have hscheme : 0 ∉ b.scheme.text++[58] := by
    rw [hv,List.mem_append,not_or] at hnul
    exact hnul.1
  unfold resolveAgainst
  rw [require_true (by rw [decide_eq_true_eq]; omega),ok_bind,storeAll_fresh (by omega),ok_bind,
    store_replicate _ _ _ (by omega),ok_bind]
  by_cases hh : r.hostport.text.text = []
  · rw [if_neg (by rw [hh]; simp),if_neg (by simpa using hh),Nat.sub_sub,
      putAuthority_eq (by omega) (by omega),ok_bind]
    by_cases hp : r.pathType = .absPath
    · have h0 : 0 ∉ baseRoot b++rel := by
        rw [List.mem_append,not_or]
        exact ⟨hnul,hrel⟩
      rw [if_pos hp,if_pos hp,storeAll_replicate _ _ _ (by omega),ok_bind,
        untilNul_replicate h0 (by omega)]
    · rw [if_neg hp,if_neg hp,← hk]
      by_cases hfit : PartsFit base b
      · rw [if_pos hfit]
        exact putRelative_eq hb hrel hfit
      · rw [if_neg hfit]
        exact putRelative_abort _ _ hfit
  · have h0 : 0 ∉ (b.scheme.text++[58])++rel := by
      rw [List.mem_append,not_or]
      exact ⟨hscheme,hrel⟩
    have hl : b.scheme.text.length+1 = (b.scheme.text++[58]).length := by simp
    rw [if_pos (List.length_pos_iff.mpr hh),if_pos hh,hl,
      storeAll_replicate _ _ _ (by simp; omega),ok_bind,← List.append_assoc,
      List.append_assoc (_++rel),List.singleton_append,untilNul_terminated h0,List.append_assoc]
    rfl

theorem resolveRelUrl_eq {res : Resolver} {base rel : List UInt8} {b r : UriType}
    (hbase : 0 ∉ base) (hrel : 0 ∉ rel) (hb : parseUri res base base.length = .ok b)
    (hr : parseUri res rel rel.length = .ok r) (ht : b.type = .absolute) (hread : BaseRead base b) :
    resolveRelUrl res (some base) (some rel) =
      if r.type = .absolute then .ok (some rel)
      else if rel = [] then .ok (some base)
      else if r.hostport.text.text ≠ [] then .ok (some (b.scheme.text++58::rel))
      else if r.pathType = .absPath then .ok (some (baseRoot b++rel))
      else if PartsFit base b then .ok ((keptString (mergedPath b rel)).map (baseRoot b++·))
      else .error .assertion := by
  simp only [resolveRelUrl,hr,hb]
  by_cases hrt : r.type = .absolute
  · rw [if_pos hrt,if_pos hrt,storeAll_fresh (by omega),ok_bind,untilNul_replicate hrel (by omega)]
  rw [if_neg hrt,if_neg hrt,if_pos ht]
  by_cases hnil : rel = []
  · rw [if_pos (by rw [hnil]; rfl),if_pos hnil,storeAll_fresh (by omega),ok_bind,
      untilNul_replicate hbase (by omega)]
  rw [if_neg (by simpa using hnil),if_neg hnil]
  exact resolveAgainst_eq r hread hrel

/-! The buffer compared with the path it should hold. -/

theorem segmentChars_of_mem {s : List UInt8} {segs : List (List UInt8)}
    (h : ∀ v ∈ segs, v ∈ pathSegments s ∨ v = []) : ∀ v ∈ segs, SegmentChars v := by
  intro v hv
  rcases h v hv with hv | rfl
  · exact pathSegments_chars s v hv
  · intro c hc
    cases hc

/-- What is kept is what the segments say, or it is longer. -/
theorem keptSegments_compare {s : List UInt8} {segs out : List (List UInt8)}
    (hk : keptSegments s = some segs) (ho : removeDotSegments (pathSegments s) = some out) :
    (joinPath out).length ≤ (joinPath segs).length := by
  by_cases h : DotsInside s
  · have he := (keptSegments_inside h).symm.trans hk
    rw [Option.some.inj (ho.symm.trans he)]
  · rcases keptSegments_outside h with ⟨segs',hs,-,hlt⟩
    rw [Option.some.inj (hk.symm.trans hs)]
    exact Nat.le_of_lt (hlt out ho)

theorem keptString_iff (s : List UInt8) :
    (∀ t, keptString s = some t → withoutDots s = some t) ↔ DotsInside s := by
  constructor
  · intro h
    by_contra hout
    rcases keptSegments_outside hout with ⟨segs,hsegs,-,hlt⟩
    have hw := h (joinPath segs++pathRest s) (by rw [keptString,hsegs]; rfl)
    rcases Option.map_eq_some_iff.mp hw with ⟨out,ho,he⟩
    have hlen := hlt out ho
    rw [List.append_cancel_right he] at hlen
    exact absurd hlen (Nat.lt_irrefl _)
  · intro h t ht
    rw [keptString,keptSegments_inside h] at ht
    exact ht

/-- The dots go past the root. -/
def PastRoot (s : List UInt8) : Prop :=
  (pathSegments s).dropLast.foldlM dotStep [] = none ∨
    pathRest s = [] ∧ removeDotSegments (pathSegments s) = none

theorem keptString_none_iff (s : List UInt8) : keptString s = none ↔ PastRoot s := by
  obtain ⟨init,last,hl⟩ := exists_concat (pathSegments_ne_nil s)
  rw [keptString,Option.map_eq_none_iff,PastRoot,hl,List.dropLast_concat]
  by_cases hrest : pathRest s = []
  · rw [keptSegments_eq (.inl hrest),hl]
    refine ⟨fun h => .inr ⟨hrest,h⟩,?_⟩
    rintro (h | h)
    · rw [removeDotSegments_concat,h]
      rfl
    · exact h.2
  · rw [keptSegments_open hrest hl,Option.map_eq_none_iff]
    exact ⟨.inl,fun h => h.resolve_right fun h => hrest h.1⟩

theorem pathRest_append {s t : List UInt8} (h : pathRest s ≠ []) :
    pathPart (s++t) = pathPart s ∧ pathRest (s++t) = pathRest s++t := by
  obtain ⟨c,v,hv⟩ := List.exists_cons_of_ne_nil h
  have hc := pathRest_head s c v hv
  have hplain : ∀ d ∈ pathPart s, (!isPathEnd d) = true := fun d hd =>
    List.all_eq_true.mp List.all_takeWhile d hd
  have happ : s++t = pathPart s++(c::(v++t)) := by
    nth_rewrite 1 [← pathPart_append s]
    rw [hv,List.append_assoc]
    rfl
  have hpart : pathPart (s++t) = pathPart s := by
    rw [happ]
    nth_rewrite 1 [pathPart]
    rw [List.takeWhile_append_of_pos hplain,List.takeWhile_cons,hc]
    simp
  refine ⟨hpart,?_⟩
  have h := pathPart_append (s++t)
  rw [hpart,happ] at h
  rw [hv,happ]
  exact List.append_cancel_left h

/-- Behind a query or a fragment what is left over shows. -/
theorem keptString_tail {s tail : List UInt8} (hrest : pathRest s ≠ []) (htail : tail ≠ [])
    {t : List UInt8} (ht : keptString (s++tail) = some t) : withoutDots s ≠ some t := by
  rcases pathRest_append (t := tail) hrest with ⟨hpart,hre⟩
  have hsegs : pathSegments (s++tail) = pathSegments s := by
    rw [pathSegments,hpart]
    rfl
  have hkept : keptSegments (s++tail) = keptSegments s := by
    have hempty : (pathRest (s++tail)).isEmpty = (pathRest s).isEmpty := by
      rw [hre]
      cases hr : pathRest s with
      | nil => exact absurd hr hrest
      | cons c v => rfl
    rw [keptSegments,hsegs,hempty]
    rfl
  intro hw
  rw [keptString,hkept] at ht
  rcases Option.map_eq_some_iff.mp ht with ⟨segs,hs,rfl⟩
  rcases Option.map_eq_some_iff.mp hw with ⟨out,ho,he⟩
  have hle := keptSegments_compare hs ho
  have hlen := congrArg List.length he
  rw [hre] at hlen
  simp only [List.length_append] at hlen
  have := List.length_pos_iff.mpr htail
  omega

/-- In a path what is left over makes another last segment. -/
theorem pathSegments_tail {s tail : List UInt8} {init : List (List UInt8)} {last : List UInt8}
    (hs : s.head? = some 47) (hrest : pathRest s = []) (hl : pathSegments s = init++[last])
    (htail : SegmentChars tail) :
    pathSegments (s++tail) = init++[last++tail] ∧ pathRest (s++tail) = [] := by
  have hchars := pathSegments_chars s
  have hjoin := joinPath_pathSegments hs
  have happ := pathPart_append s
  rw [hrest,List.append_nil] at happ
  rw [hl] at hchars hjoin
  have hs' : s++tail = joinPath (init++[last++tail])++[] := by
    rw [← happ,← hjoin]
    simp [joinPath]
  have hchars' : ∀ seg ∈ init++[last++tail], SegmentChars seg := by
    intro seg hseg
    rcases List.mem_append.mp hseg with hseg | hseg
    · exact hchars seg (List.mem_append_left _ hseg)
    · rw [List.mem_singleton.mp hseg]
      intro c hc
      rcases List.mem_append.mp hc with hc | hc
      · exact hchars last (by simp) c hc
      · exact htail c hc
  have hnil : ∀ (c : UInt8) (v : List UInt8), [] = c::v → isPathEnd c = true := by
    intro c v h
    cases h
  rw [hs']
  have hread := joinPath_read (by simp) hchars' hnil
  exact ⟨hread.2.2,hread.2.1⟩

theorem joinPath_inj {l l' : List (List UInt8)} (hne : l ≠ []) (hne' : l' ≠ [])
    (h : ∀ v ∈ l, SegmentChars v) (h' : ∀ v ∈ l', SegmentChars v) (he : joinPath l = joinPath l') :
    l = l' := by
  have hnil : ∀ (c : UInt8) (v : List UInt8), [] = c::v → isPathEnd c = true := by
    intro c v h
    cases h
  have hread := (joinPath_read hne h hnil).2.2
  rw [he,(joinPath_read hne' h' hnil).2.2] at hread
  exact hread.symm

/-- The last step of the stack tells a segment from a longer one, but for a dot on its own. -/
theorem lastStep_ne {acc a a' : List (List UInt8)} {last tail : List UInt8} (htail : tail ≠ [])
    (hdot : ¬(tail = [46] ∧ last = [])) (ha : dotStep acc (last++tail) = some a)
    (ha' : dotStep acc last = some a') :
    (if isDots (last++tail) then []::a else a) ≠ if isDots last then []::a' else a' := by
  by_cases hd : isDots (last++tail) = true
  · have htwo : last++tail = [46,46] := by
      rw [isDots,Bool.or_eq_true,beq_iff_eq,beq_iff_eq] at hd
      refine hd.resolve_left fun h => ?_
      cases last with
      | nil => exact hdot ⟨h,rfl⟩
      | cons c v => exact htail (List.append_eq_nil_iff.mp (List.cons.inj h).2).2
    rw [htwo] at ha
    obtain ⟨seg,rest,rfl⟩ : ∃ seg rest, acc = seg::rest := by
      cases acc with
      | nil => cases ha
      | cons seg rest => exact ⟨seg,rest,rfl⟩
    obtain rfl : rest = a := Option.some.inj ha
    have hlast : last = [] ∨ last = [46] := by
      cases last with
      | nil => exact .inl rfl
      | cons c v =>
        obtain ⟨hc,hv⟩ := List.cons.inj htwo
        cases v with
        | nil => exact .inr (by rw [hc])
        | cons d v =>
          have hnil := (List.cons.inj hv).2
          exact absurd (List.append_eq_nil_iff.mp hnil).2 htail
    rw [if_pos hd]
    rcases hlast with rfl | rfl
    · obtain rfl := Option.some.inj ha'
      rw [if_neg (by decide)]
      intro h
      have := congrArg List.length h
      simp at this
    · obtain rfl := Option.some.inj ha'
      rw [if_pos (by decide)]
      intro h
      have := congrArg List.length h
      simp at this
  · rw [Bool.not_eq_true] at hd
    rw [dotStep_plain hd,Option.some.injEq] at ha
    rw [hd,if_neg (by decide),← ha]
    split
    · intro h
      exact htail (List.append_eq_nil_iff.mp (List.cons.inj h).1).2
    · rename_i hl
      rw [Bool.not_eq_true] at hl
      rw [dotStep_plain hl,Option.some.injEq] at ha'
      rw [← ha']
      intro h
      exact htail (List.append_right_eq_self.mp (List.cons.inj h).1)

/-- In a path what is left over shows, unless it is a dot behind a slash. -/
theorem keptString_dangling {s tail : List UInt8} (hs : s.head? = some 47)
    (hrest : pathRest s = []) (htail : tail ≠ []) (hchars : SegmentChars tail) :
    (∀ t, keptString (s++tail) = some t → withoutDots s = some t) ↔
      keptString (s++tail) = none ∨ tail = [46] ∧ (pathSegments s).getLastD [] = [] := by
  obtain ⟨init,last,hl⟩ := exists_concat (pathSegments_ne_nil s)
  rcases pathSegments_tail hs hrest hl hchars with ⟨hsegs,hrest'⟩
  have hlast : (pathSegments s).getLastD [] = last := by
    rw [hl]
    simp
  have hkept : keptString (s++tail) = withoutDots (s++tail) := by
    rw [keptString,keptSegments_eq (.inl hrest')]
    rfl
  rw [hlast,hkept]
  by_cases hdot : tail = [46] ∧ last = []
  · refine ⟨fun _ => .inr hdot,fun _ t ht => ?_⟩
    obtain ⟨rfl,rfl⟩ := hdot
    rw [withoutDots,hsegs,removeDotSegments_concat,hrest'] at ht
    rw [withoutDots,hl,removeDotSegments_concat,hrest]
    cases hacc : init.foldlM dotStep [] with
    | none =>
      rw [hacc] at ht
      cases ht
    | some acc =>
      rw [hacc] at ht
      exact ht
  constructor
  · intro h
    by_contra hne
    have hsome := hne
    rw [not_or] at hsome
    obtain ⟨t,ht⟩ := Option.ne_none_iff_exists'.mp hsome.1
    have hw := h t ht
    rw [withoutDots,hrest'] at ht
    rw [withoutDots,hrest] at hw
    rcases Option.map_eq_some_iff.mp ht with ⟨segs,hs₁,rfl⟩
    rcases Option.map_eq_some_iff.mp hw with ⟨out,ho,he⟩
    rw [List.append_nil,List.append_nil] at he
    have hne₁ := (removeDotSegments_clean (pathSegments_ne_nil _) hs₁).1
    have hne₂ := (removeDotSegments_clean (pathSegments_ne_nil _) ho).1
    have heq := joinPath_inj hne₂ hne₁
      (segmentChars_of_mem (removeDotSegments_mem (pathSegments_ne_nil _) ho))
      (segmentChars_of_mem (removeDotSegments_mem (pathSegments_ne_nil _) hs₁)) he
    rw [hsegs,removeDotSegments_concat] at hs₁
    rw [hl,removeDotSegments_concat] at ho
    cases hacc : init.foldlM dotStep [] with
    | none =>
      rw [hacc] at ho
      cases ho
    | some acc =>
      rw [hacc,Option.bind_some] at hs₁ ho
      rcases Option.map_eq_some_iff.mp hs₁ with ⟨a,ha,rfl⟩
      rcases Option.map_eq_some_iff.mp ho with ⟨a',ha',rfl⟩
      exact lastStep_ne htail hdot ha ha' (List.reverse_injective heq).symm
  · rintro (h | h) t ht
    · rw [h] at ht
      cases ht
    · exact absurd h hdot

theorem lastSegment_nil_iff {s : List UInt8} (hs : s.head? = some 47) (hrest : pathRest s = []) :
    (pathSegments s).getLastD [] = [] ↔ s.getLast? = some 47 := by
  obtain ⟨init,last,hl⟩ := exists_concat (pathSegments_ne_nil s)
  have happ := pathPart_append s
  have hjoin := joinPath_pathSegments hs
  have hchars := pathSegments_chars s last (by rw [hl]; simp)
  rw [hrest,List.append_nil] at happ
  have hs' : s = joinPath init++47::last := by
    rw [← happ,← hjoin,hl]
    simp [joinPath]
  rw [hl,List.getLastD_concat,hs',List.getLast?_append,List.getLast?_cons]
  cases hlast : last.getLast? with
  | none =>
    rw [List.getLast?_eq_none_iff] at hlast
    simp [hlast]
  | some c =>
    have hc := List.mem_of_getLast? hlast
    constructor
    · rintro rfl
      cases hc
    · intro h
      have h47 : c = 47 := by simpa using h
      exact absurd h47 (hchars c hc).1

theorem pathRest_plain {l : List UInt8} (h : ∀ c ∈ l, isPathEnd c = false) (s : List UInt8) :
    pathPart (l++s) = l++pathPart s ∧ pathRest (l++s) = pathRest s := by
  have hplain : ∀ c ∈ l, (!isPathEnd c) = true := by
    intro c hc
    rw [h c hc]
    rfl
  exact ⟨List.takeWhile_append_of_pos hplain,List.dropWhile_append_of_pos hplain⟩

section

variable {base rel : List UInt8} {b : UriType}

theorem BaseRead.directory (hb : BaseRead base b) :
    (∀ c ∈ pathDirectory (basePath b), isPathEnd c = false) ∧ SegmentChars (pathLeaf (basePath b)) ∧
      (pathDirectory (basePath b)).head? = some 47 ∧
      (pathDirectory (basePath b)).getLast? = some 47 := by
  have happ := pathDirectory_append (basePath b)
  have hmem : 47 ∈ basePath b := List.mem_of_mem_head? hb.head
  have hlast := pathDirectory_getLast hmem
  refine ⟨?_,?_,?_,hlast⟩
  · intro c hc
    refine hb.plain c ?_
    rw [← happ]
    exact List.mem_append_left _ hc
  · intro c hc
    refine ⟨?_,hb.plain c ?_⟩
    · rintro rfl
      exact pathLeaf_slash _ hc
    · rw [← happ]
      exact List.mem_append_right _ hc
  · have hhead := hb.head
    cases hd : pathDirectory (basePath b) with
    | nil =>
      rw [hd] at hlast
      cases hlast
    | cons c v =>
      rw [← happ,hd] at hhead
      exact hhead

/-- A relative path is put together with the base as it should be. -/
theorem mergedPath_iff (hb : BaseRead base b) (hne : rel ≠ []) :
    (∀ t, keptString (mergedPath b rel) = some t →
        withoutDots (pathDirectory (basePath b)++rel) = some t) ↔
      keptString (mergedPath b rel) = none ∨
        (pathLeaf (basePath b)).length ≤ rel.length ∧
            DotsInside (pathDirectory (basePath b)++rel) ∨
          (pathLeaf (basePath b)).drop rel.length = [46] ∧ pathRest rel = [] ∧
            rel.getLast? = some 47 := by
  rcases hb.directory with ⟨hplain,hleaf,hhead,-⟩
  have hrest := (pathRest_plain hplain rel).2
  have hhead' : (pathDirectory (basePath b)++rel).head? = some 47 := by
    rw [List.head?_append,hhead]
    rfl
  rw [mergedPath,← List.append_assoc]
  by_cases hlen : (pathLeaf (basePath b)).length ≤ rel.length
  · rw [List.drop_of_length_le hlen,List.append_nil,keptString_iff]
    refine ⟨fun h => .inr (.inl ⟨hlen,h⟩),?_⟩
    rintro (h | h | h)
    · rw [← keptString_iff]
      intro t ht
      rw [h] at ht
      cases ht
    · exact h.2
    · cases h.1
  · have htail : (pathLeaf (basePath b)).drop rel.length ≠ [] := by
      rw [Ne,List.drop_eq_nil_iff]
      exact hlen
    by_cases hr : pathRest rel = []
    · rw [keptString_dangling hhead' (hrest.trans hr) htail fun c hc =>
          hleaf c (List.mem_of_mem_drop hc),
        lastSegment_nil_iff hhead' (hrest.trans hr),List.getLast?_append_of_ne_nil _ hne]
      refine or_congr_right ⟨fun h => .inr ⟨h.1,hr,h.2⟩,?_⟩
      rintro (h | h)
      · exact absurd h.1 hlen
      · exact ⟨h.1,h.2.2⟩
    · constructor
      · intro h
        by_contra hn
        obtain ⟨t,ht⟩ := Option.ne_none_iff_exists'.mp (not_or.mp hn).1
        exact keptString_tail (by rw [hrest]; exact hr) htail ht (h t ht)
      · rintro (h | h | h) t ht
        · rw [h] at ht
          cases ht
        · exact absurd h.1 hlen
        · exact absurd h.2.1 hr

theorem pathPart_directory (hb : BaseRead base b) :
    pathPart (pathDirectory (basePath b)) = pathDirectory (basePath b) ∧
      pathRest (pathDirectory (basePath b)) = [] := by
  have h := pathRest_plain hb.directory.1 []
  rw [List.append_nil,show pathPart [] = [] from rfl,show pathRest [] = [] from rfl,
    List.append_nil] at h
  exact h

theorem joinPath_directory (hb : BaseRead base b) :
    joinPath (pathSegments (pathDirectory (basePath b))) = pathDirectory (basePath b) := by
  have hjoin := joinPath_pathSegments hb.directory.2.2.1
  rwa [(pathPart_directory hb).1] at hjoin

/-- Behind the directory of the base a fragment ends the path. -/
theorem keptString_fragment (hb : BaseRead base b) (w : List UInt8) :
    keptString (pathDirectory (basePath b)++35::w) =
      (removeDotSegments (pathSegments (pathDirectory (basePath b)))).map fun segs =>
        joinPath segs++35::w := by
  rcases hb.directory with ⟨hplain,-,hhead,hlast⟩
  rcases pathRest_plain hplain (35::w) with ⟨hpart,hrest⟩
  rw [show pathPart (35::w) = [] from rfl,List.append_nil] at hpart
  rw [show pathRest (35::w) = 35::w from rfl] at hrest
  have hdirpart := pathPart_directory hb
  have hsegs : pathSegments (pathDirectory (basePath b)++35::w) =
      pathSegments (pathDirectory (basePath b)) := by
    rw [pathSegments,hpart,pathSegments,hdirpart.1]
  have hlastseg : (pathSegments (pathDirectory (basePath b))).getLastD [] = [] :=
    (lastSegment_nil_iff hhead hdirpart.2).mpr hlast
  rw [keptString,keptSegments_eq (.inr (by rw [hsegs,hlastseg]; rfl)),hsegs,hrest]

theorem mergedPath_length {v out : List UInt8} (hout : out ≠ [])
    (hle : out.length ≤ (pathDirectory (basePath b)).length)
    (heq : out++35::(v++(pathLeaf (basePath b)).drop (35::v).length) = b.pathquery.text++35::v) :
    b.pathquery.text = pathDirectory (basePath b) ∧
      (pathLeaf (basePath b)).drop (35::v).length = [] := by
  have hlen := congrArg List.length heq
  have hsplit := pathDirectory_append (basePath b)
  have hsl := congrArg List.length hsplit
  simp only [List.length_append,List.length_cons,List.length_drop] at hlen hsl
  have hpos := List.length_pos_of_ne_nil hout
  have hq : b.pathquery.text ≠ [] := by
    intro hq
    rw [hq,List.length_nil] at hlen
    omega
  have hquery : basePath b++b.pathquery.text.dropWhile (· != 63) = b.pathquery.text := by
    rw [basePath,if_neg hq]
    exact List.takeWhile_append_dropWhile
  have hql := congrArg List.length hquery
  rw [List.length_append] at hql
  have hleafNil : pathLeaf (basePath b) = [] := List.length_eq_zero_iff.mp (by omega)
  have hqueryNil : b.pathquery.text.dropWhile (· != 63) = [] :=
    List.length_eq_zero_iff.mp (by omega)
  rw [hqueryNil,List.append_nil] at hquery
  rw [hleafNil,List.append_nil] at hsplit
  exact ⟨hquery.symm.trans hsplit.symm,by rw [hleafNil,List.drop_nil]⟩

theorem pathLeaf_nil (hb : BaseRead base b)
    (hq : b.pathquery.text = pathDirectory (basePath b)) : pathLeaf (basePath b) = [] := by
  rcases hb.directory with ⟨hplain,-,hhead,-⟩
  have hne : b.pathquery.text ≠ [] := by
    intro hnil
    rw [← hq,hnil] at hhead
    cases hhead
  have hpath : basePath b = pathDirectory (basePath b) := by
    rw [← hq,basePath,if_neg hne,List.takeWhile_eq_self_iff]
    intro c hc
    rw [hq] at hc
    have hc := hplain c hc
    rw [isPathEnd,Bool.or_eq_false_iff] at hc
    rw [bne_iff_ne]
    rintro rfl
    revert hc
    decide
  rw [pathLeaf,← hpath,List.drop_length]

/-- A fragment alone leaves the base as it is only if its path ends with a slash. -/
theorem mergedPath_fragment (hb : BaseRead base b) (hfrag : rel.head? = some 35) :
    (∀ t, keptString (mergedPath b rel) = some t → t = b.pathquery.text++rel) ↔
      keptString (mergedPath b rel) = none ∨
        b.pathquery.text = pathDirectory (basePath b) ∧
          ∀ seg ∈ pathSegments b.pathquery.text, isDots seg = false := by
  obtain ⟨v,rfl⟩ : ∃ v, rel = 35::v := by
    cases rel with
    | nil => cases hfrag
    | cons c v => exact ⟨v,by rw [Option.some.inj hfrag]⟩
  have hjoin := joinPath_directory hb
  have hkept := keptString_fragment hb (v++(pathLeaf (basePath b)).drop (35::v).length)
  rw [show pathDirectory (basePath b)++35::(v++(pathLeaf (basePath b)).drop (35::v).length) =
    mergedPath b (35::v) from rfl] at hkept
  rw [hkept]
  constructor
  · intro h
    by_contra hn
    rw [not_or] at hn
    obtain ⟨t,ht⟩ := Option.ne_none_iff_exists'.mp hn.1
    have heq := h t ht
    rcases Option.map_eq_some_iff.mp ht with ⟨out,ho,rfl⟩
    rcases removeDotSegments_clean (pathSegments_ne_nil _) ho with ⟨hne,hclean,hle⟩
    rw [hjoin] at hle
    have hjne : joinPath out ≠ [] := by
      cases out with
      | nil => exact absurd rfl hne
      | cons seg segs => exact List.cons_ne_nil _ _
    rcases mergedPath_length hjne hle heq with ⟨hpath,htail⟩
    rw [htail,List.append_nil,hpath] at heq
    have hout : joinPath out = joinPath (pathSegments (pathDirectory (basePath b))) := by
      rw [hjoin]
      exact List.append_cancel_right heq
    have hsame := joinPath_inj hne (pathSegments_ne_nil _)
      (segmentChars_of_mem (removeDotSegments_mem (pathSegments_ne_nil _) ho))
      (pathSegments_chars (pathDirectory (basePath b))) hout
    refine hn.2 ⟨hpath,?_⟩
    rw [hpath,← hsame]
    exact hclean
  · rintro (h | ⟨hq,hclean⟩) t ht
    · rw [h] at ht
      cases ht
    · rw [hq] at hclean
      rw [removeDotSegments_plain (pathSegments_ne_nil _) hclean,Option.map_some,hjoin,
        pathLeaf_nil hb hq,List.drop_nil,List.append_nil,Option.some.injEq] at ht
      rw [← ht,hq]

end

/-- What is left over of the base and what follows the path do not show in the result. -/
def RelativeFits (b : UriType) (rel : List UInt8) : Prop :=
  if rel.head? = some 35 then
    b.pathquery.text = pathDirectory (basePath b) ∧
      ∀ seg ∈ pathSegments b.pathquery.text, isDots seg = false
  else
    (pathLeaf (basePath b)).length ≤ rel.length ∧ DotsInside (pathDirectory (basePath b)++rel) ∨
      (pathLeaf (basePath b)).drop rel.length = [46] ∧ pathRest rel = [] ∧ rel.getLast? = some 47

/-- The references that are resolved as they should be, or for which nothing is returned. -/
def Resolves (base rel : List UInt8) (b r : UriType) : Prop :=
  r.type = .absolute ∨ rel = [] ∨ r.hostport.text.text ≠ [] ∨ r.pathType = .absPath ∨
    ¬PartsFit base b ∨ PastRoot (mergedPath b rel) ∨ RelativeFits b rel

theorem mergedPath_resolution {base rel : List UInt8} {b r : UriType} (hb : BaseRead base b)
    (hr : ¬r.type = .absolute) (hne : rel ≠ []) (hh : r.hostport.text.text = [])
    (hp : ¬r.pathType = .absPath) :
    (∀ out, (keptString (mergedPath b rel)).map (baseRoot b++·) = some out →
        resolution base rel b r = some out) ↔
      PastRoot (mergedPath b rel) ∨ RelativeFits b rel := by
  rw [← keptString_none_iff,RelativeFits,resolution,if_neg hr,if_neg hne,if_neg (by simpa using hh),
    if_neg hp]
  by_cases hfrag : rel.head? = some 35
  · rw [if_pos hfrag,if_pos hfrag,← mergedPath_fragment hb hfrag]
    constructor
    · intro h t ht
      have hout := Option.some.inj (h _ (by rw [ht]; rfl))
      exact (List.append_cancel_left hout).symm
    · intro h out hout
      rcases Option.map_eq_some_iff.mp hout with ⟨t,ht,rfl⟩
      rw [h t ht]
  · rw [if_neg hfrag,if_neg hfrag,← mergedPath_iff hb hne]
    constructor
    · intro h t ht
      rcases Option.map_eq_some_iff.mp (h _ (by rw [ht]; rfl)) with ⟨t',ht',he⟩
      rw [ht',List.append_cancel_left he]
    · intro h out hout
      rcases Option.map_eq_some_iff.mp hout with ⟨t,ht,rfl⟩
      rw [h t ht]
      rfl

theorem resolveRelUrl_resolution_iff {res : Resolver} {base rel : List UInt8} {b r : UriType}
    (hbase : 0 ∉ base) (hrel : 0 ∉ rel) (hb : parseUri res base base.length = .ok b)
    (hr : parseUri res rel rel.length = .ok r) (ht : b.type = .absolute)
    (hpath : b.pathquery.text = [] ∨ b.pathType = .absPath) :
    (∀ out, resolveRelUrl res (some base) (some rel) = .ok (some out) →
        resolution base rel b r = some out) ↔ Resolves base rel b r := by
  have hread := baseRead hbase hb ht hpath
  rw [resolveRelUrl_eq hbase hrel hb hr ht hread,Resolves]
  by_cases h₁ : r.type = .absolute
  · rw [if_pos h₁]
    refine iff_of_true ?_ (.inl h₁)
    intro out hout
    rw [resolution,if_pos h₁]
    exact Except.ok.inj hout
  rw [if_neg h₁]
  by_cases h₂ : rel = []
  · rw [if_pos h₂]
    refine iff_of_true ?_ (.inr (.inl h₂))
    intro out hout
    rw [resolution,if_neg h₁,if_pos h₂]
    exact Except.ok.inj hout
  rw [if_neg h₂]
  by_cases h₃ : r.hostport.text.text = []
  swap
  · rw [if_pos h₃]
    refine iff_of_true ?_ (.inr (.inr (.inl h₃)))
    intro out hout
    rw [resolution,if_neg h₁,if_neg h₂,if_pos h₃]
    exact Except.ok.inj hout
  rw [if_neg (by simpa using h₃)]
  by_cases h₄ : r.pathType = .absPath
  · rw [if_pos h₄]
    refine iff_of_true ?_ (.inr (.inr (.inr (.inl h₄))))
    intro out hout
    rw [resolution,if_neg h₁,if_neg h₂,if_neg (by simpa using h₃),if_pos h₄]
    exact Except.ok.inj hout
  rw [if_neg h₄]
  by_cases h₅ : PartsFit base b
  swap
  · rw [if_neg h₅]
    refine iff_of_true ?_ (.inr (.inr (.inr (.inr (.inl h₅)))))
    intro out hout
    cases hout
  rw [if_pos h₅]
  have hmerged := mergedPath_resolution hread h₁ h₂ h₃ h₄
  constructor
  · intro h
    have hfits := hmerged.mp fun out hout => h out (by rw [hout])
    exact .inr (.inr (.inr (.inr (.inr hfits))))
  · rintro (h | h | h | h | h | h) out hout
    · exact absurd h h₁
    · exact absurd h h₂
    · exact absurd h₃ h
    · exact absurd h h₄
    · exact absurd h₅ h
    · exact hmerged.mpr h out (Except.ok.inj hout)

theorem resolveRelUrl_resolution_query :
    ∃ b r, resolution (cstr "http://1.2.3.4/a/b?x") (cstr "cd") b r =
        some (cstr "http://1.2.3.4/a/cd") ∧
      ∀ out, resolveRelUrl numericHost (some (cstr "http://1.2.3.4/a/b?x")) (some (cstr "cd")) =
        .ok (some out) → resolution (cstr "http://1.2.3.4/a/b?x") (cstr "cd") b r = some out := by
  refine ⟨⟨.absolute,⟨some 0,cstr "http"⟩,.absPath,⟨some 14,cstr "/a/b?x"⟩,⟨none,[]⟩,
      ⟨⟨some 7,cstr "1.2.3.4"⟩,⟨.inet,80,[1,2,3,4],0⟩⟩⟩,
    ⟨.relative,⟨none,[]⟩,.relPath,⟨some 0,cstr "cd"⟩,⟨none,[]⟩,⟨⟨none,[]⟩,⟨.unspec,0,[],0⟩⟩⟩,
    by decide,?_⟩
  refine (resolveRelUrl_resolution_iff (by decide) (by decide) (by decide)
    (by decide) rfl (.inr rfl)).mpr ?_
  refine .inr (.inr (.inr (.inr (.inr (.inr ?_)))))
  rw [RelativeFits,if_neg (by decide)]
  exact .inl ⟨by decide,.inl (by decide)⟩

/-- A reference that is shorter than the last segment of the base leaves the end of it standing. -/
theorem shortReference_keeps_base :
    ∃ b r, parseUri numericHost (cstr "http://1.2.3.4/a/long") 21 = .ok b ∧
      parseUri numericHost (cstr "b") 1 = .ok r ∧ b.type = .absolute ∧ b.pathType = .absPath ∧
      resolveRelUrl numericHost (some (cstr "http://1.2.3.4/a/long")) (some (cstr "b")) =
        .ok (some (cstr "http://1.2.3.4/a/bong")) ∧
      resolution (cstr "http://1.2.3.4/a/long") (cstr "b") b r =
        some (cstr "http://1.2.3.4/a/b") := by
  refine ⟨⟨.absolute,⟨some 0,cstr "http"⟩,.absPath,⟨some 14,cstr "/a/long"⟩,⟨none,[]⟩,
      ⟨⟨some 7,cstr "1.2.3.4"⟩,⟨.inet,80,[1,2,3,4],0⟩⟩⟩,
    ⟨.relative,⟨none,[]⟩,.relPath,⟨some 0,cstr "b"⟩,⟨none,[]⟩,⟨⟨none,[]⟩,⟨.unspec,0,[],0⟩⟩⟩,
    by decide,by decide,rfl,rfl,by decide,by decide⟩

end Uri
end CtrlPt
