import CtrlPt.Lib.Rounds
import CtrlPt.Uri

/-! What the tokens of a parsed URL hold. -/
namespace CtrlPt
namespace Uri

open CText Rounds

theorem parseUric_le (r : List UInt8) : parseUric r ≤ r.length := by
  induction r with
  | nil => exact Nat.le_refl 0
  | cons c cs ih =>
    rw [parseUric]
    split
    · simpa using ih
    · exact Nat.zero_le _

theorem isEscaped_head {c : UInt8} {cs : List UInt8} (h : isEscaped (c::cs) = true) : c = 37 := by
  unfold isEscaped at h
  split at h
  · rename_i heq
    cases heq
    simp only [Bool.and_eq_true,beq_iff_eq] at h
    exact h.1.1
  · cases h

theorem parseUric_chars {r : List UInt8} :
    ∀ c ∈ r.take (parseUric r), (isUnreserved c || isReserved c || c == 37) = true := by
  induction r with
  | nil => simp
  | cons a cs ih =>
    intro c hc
    rw [parseUric] at hc
    split at hc
    · rename_i ha
      rw [List.take_succ_cons] at hc
      rcases List.mem_cons.mp hc with rfl | hc
      · rw [Bool.or_eq_true] at ha ⊢
        exact ha.imp id fun he => beq_iff_eq.mpr (isEscaped_head he)
      · exact ih c hc
    · rw [List.take_zero] at hc
      cases hc

theorem isUnreserved_of_isXDigit (c : UInt8) (h : isXDigit c = true) : isUnreserved c = true := by
  revert h
  exact byte_forall (P := fun c => isXDigit c = true → isUnreserved c = true) (by decide +kernel) c

/-- The digits of an escape are in the same run as its percent sign. -/
theorem isEscaped_take {cs : List UInt8} {c : UInt8} (h : isEscaped (c::cs) = true) :
    isEscaped (c::cs.take (parseUric cs)) = true := by
  unfold isEscaped at h
  split at h
  · rename_i a b d u heq
    cases heq
    have hx := h
    simp only [Bool.and_eq_true] at hx
    have hb := isUnreserved_of_isXDigit b hx.1.2
    have hd := isUnreserved_of_isXDigit d hx.2
    have hrun : parseUric (b::d::u) = parseUric u+1+1 := by
      rw [parseUric,parseUric,if_pos (by simp [hb]),if_pos (by simp [hd])]
    rw [hrun,List.take_succ_cons,List.take_succ_cons]
    exact h
  · cases h

@[simp] theorem parseUric_take (r : List UInt8) :
    parseUric (r.take (parseUric r)) = parseUric r := by
  induction r with
  | nil => rfl
  | cons c cs ih =>
    rw [parseUric]
    split
    · rename_i hc
      rw [List.take_succ_cons,parseUric,ih,if_pos]
      rw [Bool.or_eq_true] at hc ⊢
      exact hc.imp id isEscaped_take
    · rfl

/-- What a host and its port may hold. -/
def isHostPortChar (c : UInt8) : Bool := isHostChar c || c == 58 || c == 91 || c == 93

/-- `inet_pton` knows IPv6 addresses of hexadecimal digits, colons and dots. -/
def Inet6Chars (res : Resolver) : Prop :=
  ∀ s a, res.inetPton .inet6 s = some a → ∀ c ∈ s, (isXDigit c || c == 58 || c == 46) = true

theorem isHostPortChar_cases (c : UInt8) :
    (isHostChar c = true → isHostPortChar c = true) ∧
      (isDigit c = true → isHostPortChar c = true) ∧
      ((isXDigit c || c == 58 || c == 46) = true → isHostPortChar c = true) :=
  byte_forall (P := fun c => (isHostChar c = true → isHostPortChar c = true) ∧
    (isDigit c = true → isHostPortChar c = true) ∧
    ((isXDigit c || c == 58 || c == 46) = true → isHostPortChar c = true)) (by decide +kernel) c

/-- What has been read in front of the port, or of what follows the host. -/
structure HostRead (res : Resolver) (workbuf : List UInt8) (h : HostScan) : Prop where
  host : ∃ pre, workbuf = pre++h.rest ∧
    ((h.af = .inet6 → (res.inetPton .inet6 h.srvname).isSome) →
      Inet6Chars res → ∀ c ∈ pre, isHostPortChar c = true)

theorem scanBracket_read (res : Resolver) {r : List UInt8} {h : HostScan}
    (hs : scanBracket r = some h) : HostRead res (91::r) h := by
  have hsplit := List.takeWhile_append_dropWhile (p := (· != 93)) (l := r)
  unfold scanBracket at hs
  generalize r.takeWhile (· != 93) = host at hsplit hs
  split at hs
  · cases hs
  rename_i d rest hd
  obtain rfl : d = 93 := by
    have hne := List.head_dropWhile_not (· != 93) (l := r) (by simp [hd])
    simpa [hd] using hne
  rw [hd] at hsplit
  have hhost : ∀ {af : Family}, af = .inet6 → (af = .inet6 → (res.inetPton .inet6 host).isSome) →
      Inet6Chars res → ∀ c ∈ 91::(host++[93]), isHostPortChar c = true := by
    intro af haf hres hin c hc
    obtain ⟨a,ha⟩ := Option.isSome_iff_exists.mp (hres haf)
    simp only [List.mem_cons,List.mem_append,List.not_mem_nil,or_false] at hc
    rcases hc with rfl | hc | rfl
    · rfl
    · exact (isHostPortChar_cases c).2.2 (hin host a ha c hc)
    · rfl
  simp only at hs
  split at hs
  · rename_i hcolon
    cases hs
    obtain ⟨w,rfl⟩ : ∃ w, rest = 58::w := by
      cases rest with
      | nil => cases hcolon
      | cons c w => exact ⟨w,by rw [← hcolon]; rfl⟩
    refine ⟨91::(host++[93])++[58],?_,fun hres hin c hc => ?_⟩
    · rw [← hsplit]
      simp
    · rcases List.mem_append.mp hc with hc | hc
      · exact hhost rfl hres hin c hc
      · rw [List.mem_singleton.mp hc]
        rfl
  · cases hs
    refine ⟨91::(host++[93]),?_,hhost rfl⟩
    rw [← hsplit]
    simp

theorem scanHost_read (res : Resolver) {r : List UInt8} {h : HostScan}
    (hs : scanHost res r = some h) : HostRead res r h := by
  have hsplit := List.takeWhile_append_dropWhile (p := isHostChar) (l := r)
  have hrest : h.rest = if (r.dropWhile isHostChar).headD 0 == 58 then (r.dropWhile isHostChar).tail
      else r.dropWhile isHostChar := by
    simp only [scanHost] at hs
    split at hs
    · cases hs
      rfl
    · split at hs
      · cases hs
      · split at hs
        · cases hs
        · cases hs
          rfl
  have hchars : ∀ c ∈ r.takeWhile isHostChar, isHostPortChar c = true := fun c hc =>
    (isHostPortChar_cases c).1 (List.all_eq_true.mp List.all_takeWhile c hc)
  split at hrest
  · rename_i hcolon
    obtain ⟨w,hw⟩ : ∃ w, r.dropWhile isHostChar = 58::w := by
      cases hd : r.dropWhile isHostChar with
      | nil => rw [hd] at hcolon; cases hcolon
      | cons c w =>
        rw [hd,List.headD_cons,beq_iff_eq] at hcolon
        exact ⟨w,by rw [hcolon]⟩
    rw [hw,List.tail_cons] at hrest
    rw [hw] at hsplit
    refine ⟨r.takeWhile isHostChar++[58],?_,fun _ _ c hc => ?_⟩
    · rw [hrest,List.append_assoc]
      exact hsplit.symm
    · rcases List.mem_append.mp hc with hc | hc
      · exact hchars c hc
      · rw [List.mem_singleton.mp hc]
        rfl
  · exact ⟨r.takeWhile isHostChar,by rw [hrest,hsplit],fun _ _ => hchars⟩

/-- What the text of a host and port is made of. -/
structure HostPortRead (res : Resolver) (start : ℕ) (r : List UInt8) (hp : HostPort) : Prop where
  parts : ∃ scan rest, HostRead res ((untilNul r).take 255) scan ∧
    (scan.af = .inet6 → (res.inetPton .inet6 scan.srvname).isSome) ∧
    rest = (if scan.hasPort then scan.rest.dropWhile isDigit else scan.rest) ∧
    hp.text = ⟨some start,((untilNul r).take 255).take
      (((untilNul r).take 255).length-rest.length)⟩

theorem parseHostport_read {res : Resolver} {start : ℕ} {r : List UInt8} {hp : HostPort}
    (h : parseHostport res start r = .ok hp) : HostPortRead res start r hp := by
  generalize hw : (untilNul r).take 255 = w
  simp only [parseHostport,hw] at h
  split at h
  · cases h
  rename_i scan hscan
  have hread : HostRead res w scan := by
    split at hscan
    · rename_i hb
      obtain ⟨v,rfl⟩ : ∃ v, w = 91::v := by
        cases w with
        | nil => cases hb
        | cons c v => exact ⟨v,by rw [← hb]; rfl⟩
      exact scanBracket_read res hscan
    · exact scanHost_read res hscan
  rw [← hw] at hread h
  by_cases hport : scan.hasPort = true ∧
      (if scan.hasPort = true then (atoi scan.rest % 65536).toNat else 80) = 0
  · rw [if_pos hport] at h
    cases h
  rw [if_neg hport] at h
  cases haf : scan.af with
  | inet6 =>
    simp only [haf] at h
    split at h
    · rename_i a ha
      cases h
      exact ⟨scan,_,hread,fun _ => Option.isSome_iff_exists.mpr ⟨a,ha⟩,rfl,rfl⟩
    · cases h
  | inet =>
    simp only [haf] at h
    split at h
    · cases h
      exact ⟨scan,_,hread,fun he => absurd (haf.symm.trans he) (by decide),rfl,rfl⟩
    · cases h
  | unspec =>
    simp only [haf] at h
    cases h
    exact ⟨scan,_,hread,fun he => absurd (haf.symm.trans he) (by decide),rfl,rfl⟩
  | other =>
    simp only [haf] at h
    cases h
    exact ⟨scan,_,hread,fun he => absurd (haf.symm.trans he) (by decide),rfl,rfl⟩

/-- The text of a host and port holds nothing else. -/
theorem parseHostport_chars {res : Resolver} (hin : Inet6Chars res) {start : ℕ} {r : List UInt8}
    {hp : HostPort} (h : parseHostport res start r = .ok hp) :
    ∀ c ∈ hp.text.text, isHostPortChar c = true := by
  rcases (parseHostport_read h).parts with ⟨scan,rest,hread,hsome,hrest,htext⟩
  rcases hread.host with ⟨pre,hpre,hchars⟩
  have hsplit : ∃ ds, scan.rest = ds++rest ∧ ∀ c ∈ ds, isDigit c = true := by
    split at hrest
    · refine ⟨scan.rest.takeWhile isDigit,?_,fun c hc => List.all_eq_true.mp List.all_takeWhile c hc⟩
      rw [hrest,List.takeWhile_append_dropWhile]
    · exact ⟨[],by rw [hrest,List.nil_append],by simp⟩
  rcases hsplit with ⟨ds,hds,hdigits⟩
  rw [htext,hpre,hds,← List.append_assoc,List.length_append,Nat.add_sub_cancel,List.take_left]
  intro c hc
  rcases List.mem_append.mp hc with hc | hc
  · exact hchars hsome hin c hc
  · exact (isHostPortChar_cases c).2.1 (hdigits c hc)

/-- Where the part behind the scheme begins. -/
def afterScheme (inp : List UInt8) : ℕ := if parseScheme inp = 0 then 0 else parseScheme inp+1

def authority (res : Resolver) (str : List UInt8) (max : ℕ) : Except ℤ HostPort :=
  let n := afterScheme (str.take max)
  if n+1 < max ∧ (str.drop n).take 2 = [47,47] then parseHostport res (n+2) (str.drop (n+2))
  else .ok HostPort.cleared

def pathStart (inp : List UInt8) (hostport : HostPort) : ℕ :=
  if hostport.text.buff = none then afterScheme inp
  else afterScheme inp+2+hostport.text.text.length

def fragmentStart (inp : List UInt8) (hostport : HostPort) : ℕ :=
  pathStart inp hostport+parseUric (inp.drop (pathStart inp hostport))

/-- The URL that is read around its host. -/
def uriOf (inp : List UInt8) (hostport : HostPort) : UriType where
  type := if parseScheme inp = 0 then .relative else .absolute
  scheme := if parseScheme inp = 0 then UriToken.null else ⟨some 0,inp.take (parseScheme inp)⟩
  pathType :=
    if ((inp.drop (pathStart inp hostport)).take
        (parseUric (inp.drop (pathStart inp hostport)))).headD 0 = 47 then .absPath
    else if parseScheme inp = 0 then .relPath else .opaquePart
  pathquery :=
    ⟨some (pathStart inp hostport),(inp.drop (pathStart inp hostport)).take
      (parseUric (inp.drop (pathStart inp hostport)))⟩
  fragment :=
    if (inp.drop (fragmentStart inp hostport)).headD 0 = 35 then
      ⟨some (fragmentStart inp hostport+1),(inp.drop (fragmentStart inp hostport)).tail.take
        (parseUric (inp.drop (fragmentStart inp hostport)).tail)⟩
    else UriToken.null
  hostport := hostport

/-- A URL is refused for its host only. -/
theorem parseUri_eq (res : Resolver) (str : List UInt8) (max : ℕ) :
    parseUri res str max = (authority res str max).map (uriOf (str.take max)) := by
  unfold parseUri authority
  by_cases hc : afterScheme (str.take max)+1 < max ∧
      (str.drop (afterScheme (str.take max))).take 2 = [47,47]
  · simp only [if_pos hc]
    unfold afterScheme at hc ⊢
    rw [if_pos hc]
    cases parseHostport res _ _ <;> rfl
  · simp only [if_neg hc]
    unfold afterScheme at hc
    rw [if_neg hc]
    rfl

theorem parseUri_ok {res : Resolver} {str : List UInt8} {max : ℕ} {u : UriType}
    (h : parseUri res str max = .ok u) :
    authority res str max = .ok u.hostport ∧ u = uriOf (str.take max) u.hostport := by
  rw [parseUri_eq] at h
  cases ha : authority res str max with
  | error e =>
    rw [ha] at h
    cases h
  | ok hp =>
    rw [ha] at h
    cases h
    exact ⟨rfl,rfl⟩

theorem parseUri_host {res : Resolver} (hin : Inet6Chars res) {str : List UInt8} {max : ℕ}
    {u : UriType} (h : parseUri res str max = .ok u) :
    ∀ c ∈ u.hostport.text.text, isHostPortChar c = true := by
  have ha := (parseUri_ok h).1
  simp only [authority] at ha
  split at ha
  · exact parseHostport_chars hin ha
  · rw [← Except.ok.inj ha]
    simp [HostPort.cleared,UriToken.null]

/-- A path without a scheme and without a host in front is its own path and query. -/
theorem parseUri_path (res : Resolver) {t : List UInt8} (hs : parseScheme t = 0)
    (hh : t.take 2 ≠ [47,47]) (ht : parseUric t = t.length) :
    ∃ u, parseUri res t t.length = .ok u ∧ u.pathquery.text = t := by
  have hafter : afterScheme t = 0 := if_pos hs
  refine ⟨uriOf t HostPort.cleared,?_,?_⟩
  · rw [parseUri_eq,List.take_length,authority,List.take_length,hafter,if_neg]
    · rfl
    · exact fun h => hh h.2
  · have hstart : pathStart t HostPort.cleared = 0 := (if_pos rfl).trans hafter
    simp [uriOf,hstart,ht]

end Uri
end CtrlPt
