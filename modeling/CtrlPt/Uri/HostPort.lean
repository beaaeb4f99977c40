import CtrlPt.Uri.Tokens
import Mathlib.Data.List.DropRight

/-! The host of a URL, the address it stands for and the port behind it. -/
namespace CtrlPt
namespace Uri

open CText

/-- The copy of the string that `parse_hostport` works on. -/
def workCopy (r : List UInt8) : List UInt8 := (untilNul r).take 255

/-- The host as it is written, with the brackets of an IPv6 address. -/
def hostText (w : List UInt8) : List UInt8 :=
  if w.headD 0 = 91 then w.take ((w.tail.takeWhile (· != 93)).length+2) else w.takeWhile isHostChar

def behindHost (w : List UInt8) : List UInt8 := w.drop (hostText w).length

/-- A colon behind the host announces a port. -/
def hasPort (w : List UInt8) : Bool := (behindHost w).headD 0 == 58

def portText (w : List UInt8) : List UInt8 := (behindHost w).tail

def portDigits (w : List UInt8) : List UInt8 := (portText w).takeWhile isDigit

/-- The port that is stored: what `atoi` reads, in 16 bits. -/
def port (w : List UInt8) : ℕ := if hasPort w then (atoi (portText w) % 65536).toNat else 80

def authorityText (w : List UInt8) : List UInt8 :=
  hostText w++if hasPort w then 58::portDigits w else []

def isInternet (a : AddrInfo) : Bool := a.family = .inet ∨ a.family = .inet6

/-- The address taken from the resolver's list, if the search stops before its end. -/
def listedAddress (addrs : List AddrInfo) : Option SockAddr :=
  if (firstInternet addrs).2 = [] then none
  else some ((firstInternet addrs).1.getD SockAddr.cleared)

/-- The address of the host, whatever its port. -/
def hostAddress (res : Resolver) (w : List UInt8) : Option SockAddr :=
  if w.headD 0 = 91 then
    if 93 ∈ w.tail then
      (res.inetPton .inet6 (w.tail.takeWhile (· != 93))).map fun a => ⟨.inet6,0,a,res.ifIndex⟩
    else none
  else if dottedNumber (hostText w) then
    (res.inetPton .inet (hostText w)).map fun a => ⟨.inet,0,a,0⟩
  else (res.getaddrinfo (hostText w)).bind listedAddress

/-- The last step: the port is judged and put into the address. -/
def fillIn (start : ℕ) (w : List UInt8) (a : SockAddr) : Except ℤ HostPort :=
  if hasPort w = true ∧ port w = 0 then .error upnpEInvalidUrl
  else .ok ⟨⟨some start,authorityText w⟩,{ a with port := port w }⟩

theorem cons_of_headD {w : List UInt8} {c : UInt8} (hc : c ≠ 0) (h : w.headD 0 = c) :
    ∃ v, w = c::v := by
  cases w with
  | nil => exact absurd h.symm hc
  | cons d v => exact ⟨v,by rw [← h]; rfl⟩

@[simp] theorem hostText_append (w : List UInt8) : hostText w++behindHost w = w := by
  have h : hostText w <+: w := by
    unfold hostText
    split
    · exact List.take_prefix _ _
    · exact List.takeWhile_prefix _
  exact List.prefix_iff_eq_append.mp h

theorem behindHost_port {w : List UInt8} (h : hasPort w = true) :
    behindHost w = 58::portText w := by
  rcases cons_of_headD (by decide) (beq_iff_eq.mp h) with ⟨v,hv⟩
  rw [portText,hv]
  rfl

/-- What follows the host and its port. -/
def behindAuthority (w : List UInt8) : List UInt8 :=
  if hasPort w then (portText w).dropWhile isDigit else behindHost w

@[simp] theorem authorityText_append (w : List UInt8) : authorityText w++behindAuthority w = w := by
  have hw := hostText_append w
  unfold authorityText behindAuthority portDigits
  split
  · rename_i hp
    rw [behindHost_port hp] at hw
    rw [List.append_assoc,List.cons_append,List.takeWhile_append_dropWhile]
    exact hw
  · rw [List.append_nil]
    exact hw

/-- What is left after the scan of the host, and the text of the host with its port. -/
theorem authorityText_take (w : List UInt8) :
    w.take (w.length-(behindAuthority w).length) = authorityText w := by
  have hw := authorityText_append w
  have hlen : w.length = (authorityText w).length+(behindAuthority w).length := by
    rw [← List.length_append,hw]
  rw [hlen,Nat.add_sub_cancel]
  nth_rewrite 2 [← hw]
  exact List.take_left

theorem bracket_split {v : List UInt8} (h : 93 ∈ v) :
    ∃ rest, v.dropWhile (· != 93) = 93::rest ∧ behindHost (91::v) = rest := by
  have hsplit := List.takeWhile_append_dropWhile (p := (· != 93)) (l := v)
  cases hd : v.dropWhile (· != 93) with
  | nil =>
    rw [List.dropWhile_eq_nil_iff] at hd
    exact absurd (hd 93 h) (by decide)
  | cons d rest =>
    obtain rfl : d = 93 := by
      have hne := List.head_dropWhile_not (· != 93) (l := v) (by simp [hd])
      simpa [hd] using hne
    refine ⟨rest,rfl,?_⟩
    rw [hd] at hsplit
    have hlen : (hostText (91::v)).length = (v.takeWhile (· != 93)).length+2 := by
      have := congrArg List.length hsplit
      simp only [List.length_append,List.length_cons] at this
      simp [hostText]
      omega
    rw [behindHost,hlen,List.drop_succ_cons]
    nth_rewrite 2 [← hsplit]
    rw [← List.drop_drop,List.drop_left]
    rfl

theorem scanBracket_eq (v : List UInt8) :
    scanBracket v = if 93 ∈ v then some ⟨.inet6,v.takeWhile (· != 93),SockAddr.cleared,
      hasPort (91::v),if hasPort (91::v) then portText (91::v) else behindHost (91::v)⟩ else none := by
  split
  · rename_i h
    rcases bracket_split h with ⟨rest,hd,hb⟩
    simp only [scanBracket,hd,hasPort,portText,hb,beq_iff_eq]
    split
    · rename_i hc
      rw [hc]
      rfl
    · rename_i hc
      rw [beq_eq_false_iff_ne.mpr hc]
  · rename_i h
    have hd : v.dropWhile (· != 93) = [] := by
      rw [List.dropWhile_eq_nil_iff]
      intro c hc
      rw [bne_iff_ne]
      rintro rfl
      exact h hc
    simp only [scanBracket,hd]

theorem scanHost_eq {w : List UInt8} (hw : w.headD 0 ≠ 91) (res : Resolver) :
    scanHost res w = if dottedNumber (hostText w) then some ⟨.inet,hostText w,SockAddr.cleared,
        hasPort w,if hasPort w then portText w else behindHost w⟩
      else ((res.getaddrinfo (hostText w)).bind listedAddress).map fun a => ⟨.unspec,hostText w,a,
        hasPort w,if hasPort w then portText w else behindHost w⟩ := by
  have hhost : hostText w = w.takeWhile isHostChar := if_neg hw
  have hbehind : behindHost w = w.dropWhile isHostChar := by
    have h := hostText_append w
    rw [hhost] at h
    exact List.append_cancel_left (h.trans List.takeWhile_append_dropWhile.symm)
  rw [portText,hasPort,hbehind,hhost]
  unfold scanHost
  simp only
  split
  · rfl
  · cases res.getaddrinfo (w.takeWhile isHostChar) with
    | none => rfl
    | some addrs =>
      simp only [listedAddress,Option.bind_some]
      rcases hf : firstInternet addrs with ⟨found,as⟩
      cases as <;> rfl

/-- The host is taken or refused, and then the port is. -/
theorem parseHostport_eq (res : Resolver) (start : ℕ) (r : List UInt8) :
    parseHostport res start r = (hostAddress res (workCopy r)).elim (.error upnpEInvalidUrl)
      (fillIn start (workCopy r)) := by
  unfold parseHostport hostAddress
  rw [← workCopy]
  generalize workCopy r = w
  simp only
  have hrest : (if hasPort w = true then (if hasPort w = true then portText w else
      behindHost w).dropWhile isDigit else (if hasPort w = true then portText w else behindHost w)) =
        behindAuthority w := by
    unfold behindAuthority
    split <;> rfl
  have hport : (if hasPort w = true then (atoi (if hasPort w = true then portText w else
      behindHost w) % 65536).toNat else 80) = port w := by
    unfold port
    split <;> rfl
  by_cases hb : w.headD 0 = 91
  · rcases cons_of_headD (by decide) hb with ⟨v,rfl⟩
    rw [if_pos hb,if_pos hb,List.tail_cons,scanBracket_eq]
    by_cases hv : 93 ∈ v
    · rw [if_pos hv,if_pos hv]
      simp only [hrest,hport,authorityText_take]
      cases res.inetPton .inet6 (v.takeWhile (· != 93)) with
      | none => simp
      | some a => rfl
    · rw [if_neg hv,if_neg hv]
      rfl
  · rw [if_neg hb,if_neg hb,scanHost_eq hb]
    by_cases hd : dottedNumber (hostText w) = true
    · rw [if_pos hd,if_pos hd]
      simp only [hrest,hport,authorityText_take]
      cases res.inetPton .inet (hostText w) with
      | none => simp
      | some a => rfl
    · rw [if_neg hd,if_neg hd]
      cases (res.getaddrinfo (hostText w)).bind listedAddress with
      | none => rfl
      | some a =>
        simp only [Option.map_some,hrest,hport,authorityText_take]
        rfl

theorem firstInternet_eq (addrs : List AddrInfo) :
    firstInternet addrs = ((addrs.find? isInternet).map (·.addr),
      (addrs.dropWhile fun a => !isInternet a).tail) := by
  induction addrs with
  | nil => rfl
  | cons a as ih =>
    rw [firstInternet,List.find?_cons,List.dropWhile_cons]
    by_cases ha : a.family = .inet ∨ a.family = .inet6
    · have hi : isInternet a = true := decide_eq_true ha
      simp [ha,hi]
    · have hi : isInternet a = false := decide_eq_false ha
      simp [ha,hi,ih]

theorem listedAddress_some {addrs : List AddrInfo} {x : SockAddr} (h : listedAddress addrs = some x) :
    ∃ a, addrs.find? isInternet = some a ∧ x = a.addr := by
  rw [listedAddress,firstInternet_eq] at h
  split at h
  · cases h
  rename_i hne
  simp only at h hne
  cases hf : addrs.find? isInternet with
  | none =>
    rw [List.find?_eq_none] at hf
    refine absurd ?_ hne
    rw [List.dropWhile_eq_nil_iff.mpr fun a ha => by simpa using hf a ha]
    rfl
  | some a =>
    rw [hf] at h
    exact ⟨a,rfl,(Option.some.inj h).symm⟩

/-- The search has to stop in front of the last entry. -/
theorem listedAddress_isSome (addrs : List AddrInfo) :
    (listedAddress addrs).isSome = true ↔ ∃ a ∈ addrs.dropLast, isInternet a = true := by
  rw [listedAddress,firstInternet_eq]
  induction addrs with
  | nil => simp
  | cons a as ih =>
    cases as with
    | nil =>
      rw [List.dropWhile_cons]
      split <;> simp
    | cons b as =>
      rw [List.dropLast_cons_cons,List.dropWhile_cons]
      by_cases ha : isInternet a = true
      · simp [ha]
      · rw [Bool.not_eq_true] at ha
        simp only [ha,Bool.not_false,if_true,List.mem_cons,exists_eq_or_imp,Bool.false_eq_true,
          false_or]
        rw [← ih]
        split <;> rfl

/-- The copy begins with a name and not with a numeric address. -/
def NamesHost (w : List UInt8) : Prop := w.headD 0 ≠ 91 ∧ dottedNumber (hostText w) = false

/-- The first internet address of the list is used, wherever it stands. -/
structure ResolvesTo (res : Resolver) (start : ℕ) (r : List UInt8) (addrs : List AddrInfo) :
    Prop where
  accepts : (∃ hp, parseHostport res start r = .ok hp) ↔ ∃ a ∈ addrs, isInternet a = true
  address : ∀ hp, parseHostport res start r = .ok hp → ∃ a, addrs.find? isInternet = some a ∧
    hp.ipAddress = { a.addr with port := port (workCopy r) }

theorem parseHostport_name {res : Resolver} {start : ℕ} {r : List UInt8} {addrs : List AddrInfo}
    (hname : NamesHost (workCopy r)) (hres : res.getaddrinfo (hostText (workCopy r)) = some addrs)
    (hport : hasPort (workCopy r) = true → port (workCopy r) ≠ 0) :
    parseHostport res start r = (listedAddress addrs).elim (.error upnpEInvalidUrl) fun a =>
      .ok ⟨⟨some start,authorityText (workCopy r)⟩,{ a with port := port (workCopy r) }⟩ := by
  have haddr : hostAddress res (workCopy r) = listedAddress addrs := by
    rw [hostAddress,if_neg hname.1,hname.2,if_neg (by decide),hres]
    rfl
  rw [parseHostport_eq,haddr]
  congr 1
  funext a
  exact if_neg fun h => hport h.1 h.2

/-- A name is resolved unless its first internet address is the last of the list. -/
theorem parseHostport_resolves_iff {res : Resolver} {start : ℕ} {r : List UInt8}
    {addrs : List AddrInfo} (hname : NamesHost (workCopy r))
    (hres : res.getaddrinfo (hostText (workCopy r)) = some addrs)
    (hport : hasPort (workCopy r) = true → port (workCopy r) ≠ 0) :
    ResolvesTo res start r addrs ↔
      ((∃ a ∈ addrs, isInternet a = true) → ∃ a ∈ addrs.dropLast, isInternet a = true) := by
  have h : parseHostport res start r = _ := parseHostport_name hname hres hport
  have hok : (∃ hp, parseHostport res start r = .ok hp) ↔ (listedAddress addrs).isSome = true := by
    rw [h]
    cases listedAddress addrs with
    | none => simp
    | some a => simp
  constructor
  · intro hr hex
    rw [← listedAddress_isSome,← hok]
    exact hr.accepts.mpr hex
  · intro himp
    refine ⟨?_,?_⟩
    · rw [hok,listedAddress_isSome]
      exact ⟨fun ⟨a,ha,hi⟩ => ⟨a,List.mem_of_mem_dropLast ha,hi⟩,himp⟩
    · intro hp he
      rw [h] at he
      cases hl : listedAddress addrs with
      | none =>
        rw [hl] at he
        cases he
      | some x =>
        rw [hl] at he
        cases he
        rcases listedAddress_some hl with ⟨a,ha,rfl⟩
        exact ⟨a,ha,rfl⟩

def tvEntry : AddrInfo := ⟨.inet,⟨.inet,0,[10,0,0,7],0⟩⟩

def tvResolver (addrs : List AddrInfo) : Resolver where
  getaddrinfo := fun host => if host = cstr "tv" then some addrs else none
  inetPton := fun _ _ => none
  ifIndex := 2

theorem parseHostport_resolves_two : ResolvesTo (tvResolver [tvEntry,tvEntry]) 7 (cstr "tv:8080/desc")
    [tvEntry,tvEntry] :=
  (parseHostport_resolves_iff ⟨by decide,by decide⟩ (by decide)
    (by decide)).mpr fun _ => ⟨tvEntry,.head _,rfl⟩

/-- A name with one address is refused. -/
theorem oneAddress_refused :
    parseHostport (tvResolver [tvEntry]) 7 (cstr "tv/desc") = .error upnpEInvalidUrl ∧
      ¬ResolvesTo (tvResolver [tvEntry]) 7 (cstr "tv/desc") [tvEntry] := by
  have h : parseHostport (tvResolver [tvEntry]) 7 (cstr "tv/desc") = .error upnpEInvalidUrl := by
    decide
  refine ⟨h,fun hr => ?_⟩
  obtain ⟨hp,he⟩ := hr.accepts.mpr ⟨tvEntry,.head _,rfl⟩
  rw [h] at he
  cases he

/-- The host is one that is taken, whatever its port. -/
def HostUsable (res : Resolver) (w : List UInt8) : Prop :=
  if w.headD 0 = 91 then
    93 ∈ w.tail ∧ (res.inetPton .inet6 (w.tail.takeWhile (· != 93))).isSome = true
  else if dottedNumber (hostText w) then (res.inetPton .inet (hostText w)).isSome = true
  else ∃ addrs, res.getaddrinfo (hostText w) = some addrs ∧
    ∃ a ∈ addrs.dropLast, isInternet a = true

theorem hostAddress_isSome (res : Resolver) (w : List UInt8) :
    (hostAddress res w).isSome = true ↔ HostUsable res w := by
  unfold hostAddress HostUsable
  split
  · split
    · rename_i h
      rw [Option.isSome_map]
      exact ⟨fun hs => ⟨h,hs⟩,fun hs => hs.2⟩
    · rename_i h
      exact ⟨fun hs => absurd hs (by decide),fun hs => absurd hs.1 h⟩
  · split
    · rw [Option.isSome_map]
    · cases hg : res.getaddrinfo (hostText w) with
      | none => simp
      | some addrs => simp [listedAddress_isSome]

/-- The port that is written behind the host is the one that is stored. -/
structure PortFaithful (res : Resolver) (start : ℕ) (r : List UInt8) : Prop where
  stored : ∀ hp, parseHostport res start r = .ok hp →
    ∃ p, 1 ≤ p ∧ p ≤ 65535 ∧ Numeral 10 (portDigits (untilNul r)) p ∧ hp.ipAddress.port = p
  refused : ∀ n, Numeral 10 (portDigits (untilNul r)) n → n = 0 ∨ 65535 < n →
    parseHostport res start r = .error upnpEInvalidUrl

theorem takeWhile_take {p : UInt8 → Bool} {s : List UInt8} {n : ℕ}
    (h : (s.takeWhile p).length ≤ n) : (s.take n).takeWhile p = s.takeWhile p := by
  rw [← List.take_takeWhile,List.take_of_length_le h]

theorem hostText_take {s : List UInt8} {n : ℕ} (hp : hasPort s = true)
    (h : (hostText s).length < n) : hostText (s.take n) = hostText s := by
  have hhead : (s.take n).headD 0 = s.headD 0 := by
    obtain ⟨m,rfl⟩ : ∃ m, n = m+1 := ⟨n-1,by omega⟩
    cases s <;> rfl
  have happ := congrArg List.length (hostText_append s)
  rw [behindHost_port hp,List.length_append,List.length_cons] at happ
  unfold hostText at h happ ⊢
  rw [hhead]
  split
  · rename_i hb
    rw [if_pos hb,List.length_take] at h happ
    have hk : (s.tail.takeWhile (· != 93)).length ≤ n-1 := by omega
    have htail : (s.take n).tail = s.tail.take (n-1) := by
      rw [← List.drop_one,← List.drop_one,List.drop_take]
    rw [htail,takeWhile_take hk,List.take_take]
    congr 1
    omega
  · rename_i hb
    rw [if_neg hb] at h
    exact takeWhile_take (Nat.le_of_lt h)

theorem behindHost_take {s : List UInt8} {n : ℕ} (hp : hasPort s = true)
    (h : (hostText s).length < n) :
    behindHost (s.take n) = (behindHost s).take (n-(hostText s).length) := by
  rw [behindHost,hostText_take hp h,List.drop_take]
  rfl

theorem portDigits_take {s : List UInt8} {n : ℕ} (hp : hasPort s = true)
    (h : (authorityText s).length < n) :
    hasPort (s.take n) = true ∧ portDigits (s.take n) = portDigits s := by
  have hlen : (hostText s).length+((portDigits s).length+1) < n := by
    simpa [authorityText,hp] using h
  have hb := behindHost_take hp (n := n) (by omega)
  obtain ⟨m,hm⟩ : ∃ m, n-(hostText s).length = m+1 := ⟨n-(hostText s).length-1,by omega⟩
  rw [hm,behindHost_port hp,List.take_succ_cons] at hb
  constructor
  · rw [hasPort,hb]
    rfl
  · rw [portDigits,portText,hb,List.tail_cons]
    exact takeWhile_take (by unfold portDigits at hlen; omega)

@[simp] theorem isBaseDigit_ten (c : UInt8) : isBaseDigit 10 c = isDigit c :=
  byte_forall (P := fun c => isBaseDigit 10 c = isDigit c) (by decide +kernel) c

theorem atoi_numeral {t : List UInt8} {n : ℕ} (h : Numeral 10 (t.takeWhile isDigit) n)
    (hn : n ≤ 65535) : atoi t = n := by
  obtain ⟨a,v,hv⟩ := List.exists_cons_of_ne_nil h.ne_nil
  have ha : isDigit a = true := by
    rw [← isBaseDigit_ten]
    exact h.digits a (by rw [hv]; exact .head _)
  have hplain := alnum_plain a (by rw [isAlnum,ha,Bool.or_true])
  obtain ⟨u,rfl⟩ : ∃ u, t = a::u := by
    cases t with
    | nil => cases hv
    | cons b u =>
      rw [List.takeWhile_cons] at hv
      split at hv
      · exact ⟨u,by rw [(List.cons.inj hv).1]⟩
      · cases hv
  have hdrop : (a::u).dropWhile isSpace = a::u := by simp [hplain.1]
  have htake : (a::u).takeWhile (isBaseDigit 10) = (a::u).takeWhile isDigit := by
    congr 1
    exact funext isBaseDigit_ten
  have hskip : skipHexMark 10 (a::u) = a::u := if_neg (by simp)
  have hclamp : clampLong (n : ℤ) = ((n : ℤ),false) := by
    unfold clampLong longMax longMin
    rw [if_neg (by omega),if_neg (by omega)]
  simp only [atoi,strtol,hdrop,readSign_of_plain hplain.2.1 hplain.2.2,hskip,htake,h.value]
  rw [if_neg (by simpa using h.ne_nil)]
  simp only [Bool.false_eq_true,if_false,hclamp,toInt]
  exact Int.bmod_eq_of_le (by omega) (by omega)

theorem numeral_unique {base m n : ℕ} {ds : List UInt8} (h : Numeral base ds m)
    (h' : Numeral base ds n) : m = n := h.value.symm.trans h'.value

/-- The port is stored as it is written exactly if the numeral is none above 65535, unless the
port or the host is refused for another reason. -/
theorem parseHostport_port_iff (res : Resolver) (start : ℕ) (r : List UInt8)
    (hport : hasPort (untilNul r) = true) (hlen : (authorityText (untilNul r)).length < 255) :
    PortFaithful res start r ↔ (∃ n ≤ 65535, Numeral 10 (portDigits (untilNul r)) n) ∨
      atoi (portText (workCopy r)) % 65536 = 0 ∨ ¬HostUsable res (workCopy r) := by
  have hcopy := portDigits_take hport hlen
  rw [← workCopy] at hcopy
  have hval : port (workCopy r) = (atoi (portText (workCopy r)) % 65536).toNat := if_pos hcopy.1
  have hbound := Int.emod_lt_of_pos (atoi (portText (workCopy r))) (b := 65536) (by decide)
  have hnonneg := Int.emod_nonneg (atoi (portText (workCopy r))) (b := 65536) (by decide)
  have hzero : atoi (portText (workCopy r)) % 65536 = 0 ↔ port (workCopy r) = 0 := by omega
  have hread : ∀ n ≤ 65535, Numeral 10 (portDigits (untilNul r)) n → port (workCopy r) = n := by
    intro n hn h
    rw [← hcopy.2] at h
    have := atoi_numeral h hn
    omega
  have hne : port (workCopy r) = 0 → parseHostport res start r = .error upnpEInvalidUrl := by
    intro h
    rw [parseHostport_eq]
    cases hostAddress res (workCopy r) with
    | none => rfl
    | some a => exact if_pos ⟨hcopy.1,h⟩
  have hunusable : ¬HostUsable res (workCopy r) →
      parseHostport res start r = .error upnpEInvalidUrl := by
    intro h
    rw [← hostAddress_isSome,Option.not_isSome_iff_eq_none] at h
    rw [parseHostport_eq,h]
    rfl
  have hrefused : parseHostport res start r = .error upnpEInvalidUrl →
      PortFaithful res start r := by
    intro h
    refine ⟨fun hp he => ?_,fun _ _ _ => h⟩
    rw [h] at he
    cases he
  constructor
  · intro hf
    by_cases hz : port (workCopy r) = 0
    · exact .inr (.inl (hzero.mpr hz))
    by_cases hu : HostUsable res (workCopy r)
    · rw [← hostAddress_isSome,Option.isSome_iff_exists] at hu
      rcases hu with ⟨a,ha⟩
      have hok : parseHostport res start r =
          .ok ⟨⟨some start,authorityText (workCopy r)⟩,{ a with port := port (workCopy r) }⟩ := by
        rw [parseHostport_eq,ha]
        exact if_neg fun h => hz h.2
      rcases hf.stored _ hok with ⟨p,-,hle,hnum,-⟩
      exact .inl ⟨p,hle,hnum⟩
    · exact .inr (.inr hu)
  · rintro (⟨n,hn,hnum⟩ | hz | hu)
    · have hpn := hread n hn hnum
      by_cases hz : port (workCopy r) = 0
      · exact hrefused (hne hz)
      refine ⟨fun hp he => ⟨n,by omega,hn,hnum,?_⟩,fun m hm hmn => ?_⟩
      · rw [parseHostport_eq] at he
        cases ha : hostAddress res (workCopy r) with
        | none =>
          rw [ha] at he
          cases he
        | some a =>
          rw [ha] at he
          have hfill : fillIn start (workCopy r) a = .ok hp := he
          rw [fillIn,if_neg fun h => hz h.2] at hfill
          rw [← Except.ok.inj hfill]
          exact hpn
      · have := numeral_unique hnum hm
        omega
    · exact hrefused (hne (hzero.mp hz))
    · exact hrefused (hunusable hu)

def numericHost : Resolver where
  getaddrinfo := fun _ => none
  inetPton := fun af host =>
    if af = .inet ∧ host = cstr "1.2.3.4" then some [1,2,3,4] else none
  ifIndex := 0

theorem parseHostport_port_8080 : PortFaithful numericHost 7 (cstr "1.2.3.4:8080/desc") :=
  (parseHostport_port_iff numericHost 7 (cstr "1.2.3.4:8080/desc") (by decide)
    (by decide)).mpr (.inl ⟨8080,by decide,by decide,by decide,by decide⟩)

/-- A port above 65535 comes round to another one. -/
theorem port_wraps :
    parseHostport numericHost 7 (cstr "1.2.3.4:65616/desc") =
        .ok ⟨⟨some 7,cstr "1.2.3.4:65616"⟩,⟨.inet,80,[1,2,3,4],0⟩⟩ ∧
      ¬PortFaithful numericHost 7 (cstr "1.2.3.4:65616/desc") := by
  have h : parseHostport numericHost 7 (cstr "1.2.3.4:65616/desc") =
      .ok ⟨⟨some 7,cstr "1.2.3.4:65616"⟩,⟨.inet,80,[1,2,3,4],0⟩⟩ := by decide
  refine ⟨h,fun hf => ?_⟩
  have he := hf.refused 65616 ⟨by decide,by decide,by decide⟩ (.inr (by decide))
  rw [h] at he
  cases he

end Uri
end CtrlPt
