import CtrlPt.Http.WrittenMessage
import CtrlPt.Lib.CharArray
import CtrlPt.Ssdp.Search
import Mathlib.Data.List.DropRight

/-! `CreateClientRequestPacket` on its buffers, and what the request parser makes of the packet. -/
namespace CtrlPt
namespace Ssdp

open CText Memory Sdk Http Uri

/-- What is left to do with `RqstBuf`; it ends with the code that is returned. -/
abbrev Finish (n : ℕ) := CharArray n → Except Fault (ℤ × CharArray n)

/-- `strcat` to `RqstBuf`, if that leaves room for the NUL. -/
def appendRequest {n : ℕ} (rqstBuf : CharArray n) (text : List UInt8) (next : Finish n) :
    Except Fault (ℤ × CharArray n) := do
  let used ← rqstBuf.strlen
  if n ≤ used+text.length then .ok (upnpEBufferTooSmall,rqstBuf)
  else do
    let rqstBuf ← rqstBuf.strcat text
    next rqstBuf

/-- A line goes through `TempBuf`, whose size the result of `snprintf` is compared with. -/
def appendLine {n : ℕ} (rqstBuf : CharArray n) (tempBuf : CharArray commandLen) (text : List UInt8)
    (next : CharArray commandLen → Finish n) : Except Fault (ℤ × CharArray n) := do
  let (rc,tempBuf) ← tempBuf.snprintf text
  if rc < 0 ∨ commandLen ≤ rc.toNat then .ok (upnpEInternalError,rqstBuf)
  else do
    let _ ← tempBuf.strlen
    appendRequest rqstBuf tempBuf.text (next tempBuf)

def hostText (ipv6 : List UInt8) : Family → Option (List UInt8)
  | .inet => some (cstr "HOST: "++ssdpIp++cstr ":"++printInt ssdpPort++cstr "\r\n")
  | .inet6 => some (cstr "HOST: ["++ipv6++cstr "]:"++printInt ssdpPort++cstr "\r\n")
  | _ => none

def appendMx {n : ℕ} (rqstBuf : CharArray n) (tempBuf : CharArray commandLen) (mx : ℤ)
    (next : CharArray commandLen → Finish n) : Except Fault (ℤ × CharArray n) :=
  if 0 < mx then appendLine rqstBuf tempBuf (cstr "MX: "++printInt mx++cstr "\r\n") next
  else next tempBuf rqstBuf

def appendTarget {n : ℕ} (rqstBuf : CharArray n) (tempBuf : CharArray commandLen)
    (searchTarget : Option (List UInt8)) (next : Finish n) : Except Fault (ℤ × CharArray n) :=
  match searchTarget with
  | some target =>
    appendLine rqstBuf tempBuf (cstr "ST: "++target++cstr "\r\n") fun _ rqstBuf => next rqstBuf
  | none => next rqstBuf

/-- `RqstBuf` is an array of `RqstBufSize` bytes, whatever they are. -/
def writeRequestPacket {n : ℕ} (ipv6 : List UInt8) (rqstBuf : CharArray n) (mx : ℤ)
    (searchTarget : Option (List UInt8)) (addressFamily : Family) :
    Except Fault (ℤ × CharArray n) :=
  let command := cstr "M-SEARCH * HTTP/1.1\r\n"
  let man := cstr "MAN: \"ssdp:discover\"\r\n"
  let tempBuf := CharArray.zero commandLen
  if n ≤ command.length then .ok (upnpEInternalError,rqstBuf)
  else do
    let rqstBuf ← rqstBuf.write 0 (command++[0])
    match hostText ipv6 addressFamily with
    | none => .ok (upnpEInvalidArgument,rqstBuf)
    | some host =>
      appendLine rqstBuf tempBuf host fun tempBuf rqstBuf =>
        appendRequest rqstBuf man fun rqstBuf =>
          appendMx rqstBuf tempBuf mx fun tempBuf rqstBuf =>
            appendTarget rqstBuf tempBuf searchTarget fun rqstBuf =>
              appendRequest rqstBuf (cstr "\r\n") fun rqstBuf => .ok (upnpESuccess,rqstBuf)

/-- The call writes inside its buffers: the text if it succeeds, and else an error. -/
def Renders {n : ℕ} (packet : Except ℤ (List UInt8)) (x : Except Fault (ℤ × CharArray n)) : Prop :=
  ∃ code b, x = .ok (code,b) ∧
    match packet with
    | .ok text => code = upnpESuccess ∧ b.Holds text
    | .error e => code = e ∧ e ≠ upnpESuccess

section Buffers

variable {n : ℕ} {rqstBuf : CharArray n} {l text : List UInt8}

theorem renders_error (b : CharArray n) {e : ℤ} (he : e ≠ upnpESuccess) :
    Renders (.error e) (.ok (e,b)) := ⟨e,b,rfl,rfl,he⟩

theorem appendRequest_renders (h : rqstBuf.Holds l) (ht : 0 ∉ text)
    {packet : List UInt8 → Except ℤ (List UInt8)} {next : Finish n}
    (hnext : ∀ b : CharArray n, b.Holds (l++text) → Renders (packet (l++text)) (next b)) :
    Renders (catRequest n l text >>= packet) (appendRequest rqstBuf text next) := by
  unfold appendRequest catRequest
  rw [h.strlen]
  simp only [bind,Except.bind]
  by_cases hfit : n ≤ l.length+text.length
  · rw [if_pos hfit,if_pos hfit]
    exact renders_error rqstBuf (by decide)
  · rw [if_neg hfit,if_neg hfit]
    rcases h.strcat ht (by omega) with ⟨b,hb,hh⟩
    rw [hb]
    exact hnext b hh

theorem appendLine_renders (h : rqstBuf.Holds l) (tempBuf : CharArray commandLen) (ht : 0 ∉ text)
    {packet : List UInt8 → Except ℤ (List UInt8)} {next : CharArray commandLen → Finish n}
    (hnext : ∀ (t : CharArray commandLen) (b : CharArray n), b.Holds (l++text) →
      Renders (packet (l++text)) (next t b)) :
    Renders (printTemp text >>= fun line => catRequest n l line >>= packet)
      (appendLine rqstBuf tempBuf text next) := by
  rcases CharArray.snprintf_holds tempBuf (by decide : 0 < commandLen) ht with ⟨t,hprint,hholds⟩
  unfold appendLine printTemp
  rw [hprint]
  simp only [bind,Except.bind]
  have hcode : ((if text.length < 2^31 then (text.length : ℤ) else -1) < 0 ∨
      commandLen ≤ (if text.length < 2^31 then (text.length : ℤ) else -1).toNat) ↔
        commandLen ≤ text.length := by
    have hlen : commandLen < 2^31 := by decide
    split
    · omega
    · omega
  by_cases hlong : commandLen ≤ text.length
  · rw [if_pos (hcode.mpr hlong),if_pos hlong]
    exact renders_error rqstBuf (by decide)
  · rw [if_neg fun hc => hlong (hcode.mp hc),if_neg hlong]
    have hh := hholds (by omega)
    rw [hh.strlen]
    simp only [hh.text]
    exact appendRequest_renders h ht (hnext t)

theorem printInt_noNul (k : ℤ) : 0 ∉ printInt k := by
  unfold printInt
  split
  · rw [List.mem_cons]
    exact not_or.mpr ⟨by decide,printNumeral_noNul _⟩
  · exact printNumeral_noNul _

theorem catMx_renders {mx : ℤ} (h : rqstBuf.Holds l) (tempBuf : CharArray commandLen)
    {packet : List UInt8 → Except ℤ (List UInt8)} {next : CharArray commandLen → Finish n}
    (hnext : ∀ (l : List UInt8) (t : CharArray commandLen) (b : CharArray n), b.Holds l →
      Renders (packet l) (next t b)) :
    Renders (catMx n mx l >>= packet) (appendMx rqstBuf tempBuf mx next) := by
  unfold catMx appendMx
  by_cases hmx : 0 < mx
  · rw [if_pos hmx,if_pos hmx,bind_assoc]
    refine appendLine_renders h tempBuf ?_ fun t b hb => hnext _ t b hb
    have hnum := printInt_noNul mx
    have hconst : 0 ∉ cstr "MX: " ∧ 0 ∉ cstr "\r\n" := by decide
    simp [hconst.1,hconst.2,hnum,or_self]
  · rw [if_neg hmx,if_neg hmx]
    exact hnext l tempBuf rqstBuf h

theorem catTarget_renders {searchTarget : Option (List UInt8)} (h : rqstBuf.Holds l)
    (tempBuf : CharArray commandLen) (ht : ∀ target ∈ searchTarget, 0 ∉ target)
    {packet : List UInt8 → Except ℤ (List UInt8)} {next : Finish n}
    (hnext : ∀ (l : List UInt8) (b : CharArray n), b.Holds l → Renders (packet l) (next b)) :
    Renders (catTarget n l searchTarget >>= packet)
      (appendTarget rqstBuf tempBuf searchTarget next) := by
  cases searchTarget with
  | none => exact hnext l rqstBuf h
  | some target =>
    change Renders ((do
      let line ← printTemp (cstr "ST: "++target++cstr "\r\n")
      catRequest n l line) >>= packet) _
    rw [bind_assoc]
    refine appendLine_renders h tempBuf ?_ fun _ b hb => hnext _ b hb
    have hnul := ht target rfl
    have hconst : 0 ∉ cstr "ST: " ∧ 0 ∉ cstr "\r\n" := by decide
    simp [hconst.1,hconst.2,hnul,or_self]

end Buffers

/-- The call on its buffers does what the call on lists does, and stays inside of them. -/
theorem writeRequestPacket_renders {n : ℕ} {ipv6 : List UInt8} (hipv6 : 0 ∉ ipv6)
    (rqstBuf : CharArray n) (mx : ℤ) {searchTarget : Option (List UInt8)}
    (ht : ∀ target ∈ searchTarget, 0 ∉ target) (addressFamily : Family) :
    Renders (requestPacket ipv6 n mx searchTarget addressFamily)
      (writeRequestPacket ipv6 rqstBuf mx searchTarget addressFamily) := by
  unfold requestPacket writeRequestPacket
  dsimp only
  have hconst : 0 ∉ cstr "M-SEARCH * HTTP/1.1\r\n" ∧ 0 ∉ cstr "MAN: \"ssdp:discover\"\r\n" ∧
      0 ∉ cstr "\r\n" ∧ 0 ∉ cstr "HOST: [" ∧ 0 ∉ cstr "]:" ∧ 0 ∉ printInt ssdpPort ∧
      0 ∉ cstr "HOST: "++ssdpIp++cstr ":"++printInt ssdpPort++cstr "\r\n" := by decide
  rcases hconst with ⟨hcommand,hman,hend,hopen,hclose,hport,hhost4⟩
  by_cases hshort : n ≤ (cstr "M-SEARCH * HTTP/1.1\r\n").length
  · rw [if_pos hshort,if_pos hshort]
    exact renders_error rqstBuf (by decide)
  rw [if_neg hshort,if_neg hshort]
  rcases CharArray.write_holds (a := rqstBuf) (l := []) (List.take_zero ..) (by simp) hcommand
    (by rw [List.length_nil]; omega) with ⟨b,hb,hh⟩
  rw [List.length_nil] at hb
  rw [List.nil_append] at hh
  rw [hb]
  have hrest : ∀ host : List UInt8, 0 ∉ host → Renders (do
      let line ← printTemp host
      let rqst ← catRequest n (cstr "M-SEARCH * HTTP/1.1\r\n") line
      let rqst ← catRequest n rqst (cstr "MAN: \"ssdp:discover\"\r\n")
      let rqst ← catMx n mx rqst
      let rqst ← catTarget n rqst searchTarget
      catRequest n rqst (cstr "\r\n"))
      (appendLine b (CharArray.zero commandLen) host fun tempBuf rqstBuf =>
        appendRequest rqstBuf (cstr "MAN: \"ssdp:discover\"\r\n") fun rqstBuf =>
          appendMx rqstBuf tempBuf mx fun tempBuf rqstBuf =>
            appendTarget rqstBuf tempBuf searchTarget fun rqstBuf =>
              appendRequest rqstBuf (cstr "\r\n") fun rqstBuf => .ok (upnpESuccess,rqstBuf)) := by
    intro host hhost
    refine appendLine_renders hh _ hhost fun t b hb => ?_
    refine appendRequest_renders hb hman fun b hb => ?_
    refine catMx_renders hb t fun l t b hb => ?_
    refine catTarget_renders hb t ht fun l b hb => ?_
    have hlast : Renders (catRequest n l (cstr "\r\n") >>= pure)
        (appendRequest b (cstr "\r\n") fun b => .ok (upnpESuccess,b)) :=
      appendRequest_renders hb hend fun b hb => ⟨upnpESuccess,b,rfl,rfl,hb⟩
    rwa [bind_pure] at hlast
  cases addressFamily with
  | inet => exact hrest _ hhost4
  | inet6 =>
    refine hrest _ ?_
    simp [hopen,hclose,hport,hend,hipv6,or_self]
  | unspec => exact renders_error b (by decide)
  | other => exact renders_error b (by decide)

theorem catRequest_ok {size : ℕ} {rqst text l : List UInt8} (h : catRequest size rqst text = .ok l) :
    l = rqst++text := by
  unfold catRequest at h
  split at h
  · cases h
  · cases h
    rfl

theorem printTemp_ok {text l : List UInt8} (h : printTemp text = .ok l) : l = text := by
  unfold printTemp at h
  split at h
  · cases h
  · cases h
    rfl

def mxText (mx : ℤ) : List UInt8 :=
  if 0 < mx then cstr "MX: "++printInt mx++cstr "\r\n" else []

def targetText (searchTarget : Option (List UInt8)) : List UInt8 :=
  searchTarget.elim [] fun target => cstr "ST: "++target++cstr "\r\n"

theorem catMx_ok {size : ℕ} {mx : ℤ} {rqst l : List UInt8} (h : catMx size mx rqst = .ok l) :
    l = rqst++mxText mx := by
  unfold catMx at h
  unfold mxText
  split at h
  · rename_i hmx
    rw [if_pos hmx]
    rcases Rounds.of_bind_ok h with ⟨line,hline,hcat⟩
    rw [← printTemp_ok hline]
    exact catRequest_ok hcat
  · rename_i hmx
    cases h
    rw [if_neg hmx,List.append_nil]

theorem catTarget_ok {size : ℕ} {searchTarget : Option (List UInt8)} {rqst l : List UInt8}
    (h : catTarget size rqst searchTarget = .ok l) : l = rqst++targetText searchTarget := by
  cases searchTarget with
  | none =>
    cases h
    exact (List.append_nil _).symm
  | some target =>
    rcases Rounds.of_bind_ok h with ⟨line,hline,hcat⟩
    rw [catRequest_ok hcat,printTemp_ok hline]
    rfl

theorem requestPacket_ok {ipv6 : List UInt8} {size : ℕ} {mx : ℤ} {searchTarget : Option (List UInt8)}
    {addressFamily : Family} {l : List UInt8}
    (h : requestPacket ipv6 size mx searchTarget addressFamily = .ok l) :
    ∃ host, hostText ipv6 addressFamily = some host ∧
      l = cstr "M-SEARCH * HTTP/1.1\r\n"++host++cstr "MAN: \"ssdp:discover\"\r\n"++mxText mx++
        targetText searchTarget++cstr "\r\n" := by
  unfold requestPacket at h
  dsimp only at h
  split at h
  · cases h
  rcases Rounds.of_bind_ok h with ⟨host,hhost,h⟩
  rcases Rounds.of_bind_ok h with ⟨l₁,h₁,h⟩
  rcases Rounds.of_bind_ok h with ⟨l₂,h₂,h⟩
  rcases Rounds.of_bind_ok h with ⟨l₃,h₃,h⟩
  rcases Rounds.of_bind_ok h with ⟨l₄,h₄,h⟩
  refine ⟨host,?_,?_⟩
  · cases addressFamily with
    | inet => exact congrArg some (printTemp_ok hhost).symm
    | inet6 => exact congrArg some (printTemp_ok hhost).symm
    | unspec => cases hhost
    | other => cases hhost
  · rw [catRequest_ok h,catTarget_ok h₄,catMx_ok h₃,catRequest_ok h₂,catRequest_ok h₁]

/-- What a search target is made of. -/
def isSearchChar (c : UInt8) : Bool := 32 ≤ c && c ≤ 126 && c != 34

/-- A target of printable characters without double quotes, not all of them spaces. -/
structure SearchText where
  text : List UInt8
  chars : ∀ c ∈ text, isSearchChar c = true
  visible : ∃ c ∈ text, c ≠ 32

def SearchText.trimmed (t : SearchText) : List UInt8 :=
  (t.text.dropWhile (· == 32)).rdropWhile (· == 32)

theorem searchChar_kind (c : UInt8) : isSearchChar c = true → c ≠ 0 ∧ isPlainChar c = true ∧
    isBlank c = (c == 32) ∧ (c == 32 || c == 9 || c == cr || c == lf) = (c == 32) :=
  byte_forall (P := fun c => isSearchChar c = true → c ≠ 0 ∧ isPlainChar c = true ∧
    isBlank c = (c == 32) ∧ (c == 32 || c == 9 || c == cr || c == lf) = (c == 32))
    (by decide +kernel) c

theorem SearchText.noNul (t : SearchText) : 0 ∉ t.text :=
  fun h => (searchChar_kind 0 (t.chars 0 h)).1 rfl

theorem SearchText.head (t : SearchText) :
    ∃ c v, t.text.dropWhile (· == 32) = c::v ∧ (c == 32) = false := by
  have hne : t.text.dropWhile (· == 32) ≠ [] := by
    intro h
    rcases t.visible with ⟨c,hc,h32⟩
    exact h32 (beq_iff_eq.mp (List.dropWhile_eq_nil_iff.mp h c hc))
  obtain ⟨c,v,hv⟩ := List.exists_cons_of_ne_nil hne
  have hd := List.head?_dropWhile_not (· == (32 : UInt8)) t.text
  rw [hv] at hd
  exact ⟨c,v,hv,hd⟩

theorem SearchText.mem_value {t : SearchText} {c : UInt8} (h : c ∈ t.text.dropWhile (· == 32)) :
    isSearchChar c = true := t.chars c ((List.dropWhile_sublist _).subset h)

theorem dropWhile_congr {α : Type} {p q : α → Bool} {l : List α} (h : ∀ c ∈ l, p c = q c) :
    l.dropWhile p = l.dropWhile q := by
  induction l with
  | nil => rfl
  | cons c l ih =>
    rw [List.dropWhile_cons,List.dropWhile_cons,h c List.mem_cons_self,
      ih fun d hd => h d (List.mem_cons_of_mem _ hd)]

/-- The parser trims what is left of the target on its right. -/
@[simp] theorem SearchText.startValue_eq (t : SearchText) :
    startValue (trimRight (t.text.dropWhile (· == 32))) = t.trimmed := by
  have htrim : trimRight (t.text.dropWhile (· == 32)) = t.trimmed := by
    unfold trimRight trimmed List.rdropWhile
    rw [dropWhile_congr fun c hc =>
      (searchChar_kind c (t.mem_value (List.mem_reverse.mp hc))).2.2.2]
  rw [htrim,startValue,if_neg]
  rcases t.head with ⟨c,v,hv,hc⟩
  intro he
  rw [List.isEmpty_iff,trimmed,List.rdropWhile_eq_nil_iff,hv] at he
  have h32 := he c List.mem_cons_self
  rw [hc] at h32
  cases h32

def stField (t : SearchText) : WrittenField where
  name := cstr "ST"
  blanks := 32::t.text.takeWhile (· == 32)
  value := t.text.dropWhile (· == 32)
  name_ne := by decide
  name_chars := by decide
  blanks_chars := by
    intro c hc
    rcases List.mem_cons.mp hc with rfl | hc
    · rfl
    · have h32 := List.mem_takeWhile_imp hc
      rw [beq_iff_eq.mp h32]
      rfl
  text := lineText_of_plain fun c hc => (searchChar_kind c (t.mem_value hc)).2.1
  head := by
    rcases t.head with ⟨d,v,hv,hd⟩
    intro c hc
    have hmem : d ∈ t.text.dropWhile (· == 32) := by simp [hv]
    rw [hv,List.head?_cons,Option.mem_some_iff] at hc
    rw [← hc,(searchChar_kind d (t.mem_value hmem)).2.2.1]
    exact hd

@[simp] theorem stField_line (t : SearchText) :
    (stField t).line = cstr "ST: "++t.text++cstr "\r\n" := by
  have hname : cstr "ST: " = cstr "ST"++58::[32] := by decide
  have hsplit := List.takeWhile_append_dropWhile (p := (· == (32 : UInt8))) (l := t.text)
  rw [hname]
  change cstr "ST"++58::(32::t.text.takeWhile (· == 32)++
    (t.text.dropWhile (· == 32)++[cr,lf])) = _
  nth_rewrite 3 [← hsplit]
  simp only [List.append_assoc,List.cons_append,List.nil_append]
  rfl

theorem discover_text : LineText (cstr "\"ssdp:discover\"") :=
  .quoted (cstr "ssdp:discover") [] (quotedText_of_plain (by decide)) .nil

def discoverField : WrittenField where
  name := cstr "MAN"
  blanks := [32]
  value := cstr "\"ssdp:discover\""
  name_ne := man_ne
  name_chars := man_chars
  blanks_chars := space_blank
  text := discover_text
  head := by decide

theorem printInt_target (k : ℤ) : ∀ c ∈ printInt k, isTargetChar c = true := by
  unfold printInt
  split
  · intro c hc
    rcases List.mem_cons.mp hc with rfl | hc
    · decide
    · exact printNumeral_target _ c hc
  · exact printNumeral_target _

def mxField (mx : ℤ) : WrittenField :=
  wordField (cstr "MX") (printInt mx) (by decide) (by decide) (printInt_target mx)

@[simp] theorem mxField_line (mx : ℤ) :
    (mxField mx).line = cstr "MX: "++printInt mx++cstr "\r\n" := by
  have hname : cstr "MX: " = cstr "MX"++58::[32] := by decide
  rw [hname]
  simp only [mxField,wordField,WrittenField.line,List.append_assoc,List.cons_append,
    List.nil_append]
  rfl

def multicastHost : Family → Option (List UInt8)
  | .inet => some (cstr "239.255.255.250:1900")
  | .inet6 => some (cstr "[FF02::C]:1900")
  | _ => none

def searchLine : WrittenRequest where
  method := cstr "M-SEARCH"
  target := cstr "*"
  version := cstr "1.1"
  method_ne := by decide
  method_chars := by decide
  target_ne := by decide
  target_chars := by decide
  version_text := version_text
  version_head := version_head

/-- The fields of a packet with the numbers of their names. -/
def packetFields (host : List UInt8) (hhost : ∀ c ∈ host, isTargetChar c = true) (mx : ℤ)
    (target : Option SearchText) : List (WrittenField × HdrId) :=
  [(wordField (cstr "HOST") host host_ne host_chars hhost,.host),(discoverField,.man)]++
    (if 0 < mx then [(mxField mx,.mx)] else [])++(target.map fun t => (stField t,.st)).toList

theorem packetFields_line (host : List UInt8) (hhost : ∀ c ∈ host, isTargetChar c = true) (mx : ℤ)
    (target : Option SearchText) :
    ((packetFields host hhost mx target).map Prod.fst).flatMap WrittenField.line =
      cstr "HOST: "++host++cstr "\r\n"++cstr "MAN: \"ssdp:discover\"\r\n"++mxText mx++
        targetText (target.map SearchText.text) := by
  have hname : cstr "HOST: " = cstr "HOST"++58::[32] := by decide
  have hline : (wordField (cstr "HOST") host host_ne host_chars hhost).line =
      cstr "HOST: "++host++cstr "\r\n" := by
    rw [hname]
    simp only [wordField,WrittenField.line,List.append_assoc,List.cons_append,List.nil_append]
    rfl
  have hman : discoverField.line = cstr "MAN: \"ssdp:discover\"\r\n" := by decide
  have hmx : ((if 0 < mx then [(mxField mx,HdrId.mx)] else []).map Prod.fst).flatMap
      WrittenField.line = mxText mx := by
    unfold mxText
    split
    · simp
    · rfl
  have htarget : (((target.map fun t => (stField t,HdrId.st)).toList).map Prod.fst).flatMap
      WrittenField.line = targetText (target.map SearchText.text) := by
    cases target with
    | none => rfl
    | some t =>
      simp only [Option.map_some,Option.toList_some,List.map_cons,List.map_nil,List.flatMap_cons,
        List.flatMap_nil,List.append_nil]
      exact stField_line t
  unfold packetFields
  rw [List.map_append,List.flatMap_append,htarget,List.map_append,List.flatMap_append,hmx]
  simp [hline,hman]

theorem hostText_multicast {addressFamily : Family} {host : List UInt8}
    (h : hostText ssdpIpv6Linklocal addressFamily = some host) :
    ∃ address, multicastHost addressFamily = some address ∧
      (∀ c ∈ address, isTargetChar c = true) ∧ address ≠ [] ∧
      host = cstr "HOST: "++address++cstr "\r\n" := by
  cases addressFamily with
  | inet =>
    cases h
    exact ⟨_,rfl,by decide,by decide,by decide⟩
  | inet6 =>
    cases h
    exact ⟨_,rfl,by decide,by decide,by decide⟩
  | unspec => cases h
  | other => cases h

/-- What is to be read in a packet. -/
structure Encodes (mx : ℤ) (target : Option SearchText) (addressFamily : Family)
    (view : MessageView) : Prop where
  method : view.method = .msearch
  urlbuf : view.urlbuf = cstr "*"
  version : view.majorVersion = 1 ∧ view.minorVersion = 1
  host : (findHdr view.headers .host).isSome = true ∧
    findHdr view.headers .host = multicastHost addressFamily
  man : findHdr view.headers .man = some (cstr "\"ssdp:discover\"")
  mx : findHdr view.headers .mx = if 0 < mx then some (printInt mx) else none
  st : findHdr view.headers .st = target.map SearchText.trimmed

theorem packetFields_headers {host : List UInt8} (hhost : ∀ c ∈ host, isTargetChar c = true)
    (hne : host ≠ []) (mx : ℤ) (target : Option SearchText) {p : HttpParser}
    (hp : p.msg.headers = []) (hm : p.msg.method = .msearch) :
    (((packetFields host hhost mx target).map Prod.fst).foldl readField p).msg.headers =
        [⟨cstr "HOST",.host,host⟩,⟨cstr "MAN",.man,cstr "\"ssdp:discover\""⟩]++
          (if 0 < mx then [⟨cstr "MX",.mx,printInt mx⟩] else [])++
          (target.map fun t => ⟨cstr "ST",HdrId.st,t.trimmed⟩).toList ∧
      (((packetFields host hhost mx target).map Prod.fst).foldl readField p).msg.method =
        .msearch := by
  have hnames : lookupName (cstr "HOST") httpHeaderNames false = some .host ∧
      lookupName (cstr "MAN") httpHeaderNames false = some .man ∧
      lookupName (cstr "MX") httpHeaderNames false = some .mx ∧
      lookupName (cstr "ST") httpHeaderNames false = some .st := by decide
  rcases hnames with ⟨hnhost,hnman,hnmx,hnst⟩
  have hvman : startValue (trimRight (cstr "\"ssdp:discover\"")) = cstr "\"ssdp:discover\"" := by
    decide
  have hvmx : startValue (trimRight (printInt mx)) = printInt mx := by
    apply startValue_word _ (printInt_target mx)
    unfold printInt
    split
    · exact List.cons_ne_nil _ _
    · exact (printNumeral_numeral (by decide : 1 < 10) (by decide) _).ne_nil
  have hfs := readFields_new (packetFields host hhost mx target) (p := p) ?_ ?_
  · rw [hp,hm,List.nil_append] at hfs
    refine ⟨hfs.1.trans ?_,hfs.2.trans ?_⟩
    · unfold packetFields
      rw [List.map_append,List.map_append]
      simp only [List.map_cons,List.map_nil,wordField,discoverField,startValue_word hne hhost,hvman]
      congr 1
      · congr 1
        split
        · simp [mxField,wordField,hvmx]
        · rfl
      · cases target with
        | none => rfl
        | some t =>
          simp [stField,t.startValue_eq]
    · rw [if_neg]
      unfold packetFields
      cases target <;> split <;> simp
  · intro x hx
    unfold packetFields at hx
    simp only [List.mem_append,List.mem_cons,List.not_mem_nil,or_false] at hx
    rcases hx with ((rfl | rfl) | hx) | hx
    · exact hnhost
    · exact hnman
    · split at hx
      · rw [List.mem_singleton] at hx
        rw [hx]
        exact hnmx
      · cases hx
    · rw [Option.mem_toList] at hx
      replace hx := Option.map_eq_some_iff.mp hx
      rcases hx with ⟨t,-,rfl⟩
      exact hnst
  · rw [hp]
    unfold packetFields
    cases target <;> split <;> simp

/-- A packet is a search that reads back as what it was made of. -/
theorem requestPacket_readBack {n : ℕ} {mx : ℤ} {target : Option SearchText}
    {addressFamily : Family} {l : List UInt8}
    (h : createClientRequestPacket n mx (target.map SearchText.text) addressFamily = .ok l)
    (res : Resolver) {pieces : List (List UInt8)} (hpieces : pieces.flatten = l) :
    ∃ view, observeMessage (feedParser res parserRequestInit pieces) = (.success,some view) ∧
      Encodes mx target addressFamily view := by
  rcases requestPacket_ok h with ⟨hosttext,hhost,hl⟩
  rcases hostText_multicast hhost with ⟨host,haddress,hchars,hne,rfl⟩
  have hfs := packetFields_line host hchars mx target
  have htext : l = writtenMessage searchLine ((packetFields host hchars mx target).map Prod.fst) [] := by
    have hline : searchLine.line = cstr "M-SEARCH * HTTP/1.1\r\n" := by decide
    rw [hl,writtenMessage,hfs,hline]
    simp only [List.append_assoc,List.append_nil]
    rfl
  rw [htext] at hpieces
  have hempty : pieces ≠ [] := by
    rintro rfl
    have hlen := congrArg List.length hpieces
    simp only [List.flatten_nil,List.length_nil,writtenMessage,List.length_append,
      List.length_cons] at hlen
    omega
  have hid : lookupName searchLine.method httpMethodTable true = some .msearch := by
    change lookupName (cstr "M-SEARCH") httpMethodTable true = _
    decide
  have hver : sscanf versionScan (untilNul searchLine.version) = [1,1] := by
    change sscanf versionScan (untilNul (cstr "1.1")) = _
    decide
  have hstar : ∃ star, parseUri res searchLine.target searchLine.target.length = .ok star :=
    ⟨_,rfl⟩
  rcases hstar with ⟨star,hstar⟩
  rcases (parserAppend_written res searchLine ((packetFields host hchars mx target).map Prod.fst) []
    hid hver (by decide) (by decide)
    (fun p hp hm => packetFields_headers hchars hne mx target hp hm) (by decide)).1 star hstar with
    ⟨p,hp,hbody⟩
  have hread := hbody.withoutBody rfl
  rw [feedParser_request res (writtenMessage_splits _ _ _) hempty hpieces,hp,hread]
  refine ⟨_,rfl,rfl,rfl,⟨rfl,rfl⟩,?_,rfl,?_,?_⟩
  · rw [haddress]
    exact ⟨rfl,rfl⟩
  · simp only [writtenView]
    cases target <;> split <;> rfl
  · simp only [writtenView]
    cases target <;> split <;> rfl

/-- Whatever the size of the buffer, `CreateClientRequestPacket` stays inside of its buffers; if
it succeeds the buffer holds a search that reads back in any pieces. -/
theorem writeClientRequestPacket_encodes (n : ℕ) (rqstBuf : CharArray n) (mx : ℤ)
    (target : Option SearchText) (addressFamily : Family) :
    ∃ code b, writeRequestPacket ssdpIpv6Linklocal rqstBuf mx (target.map SearchText.text)
        addressFamily = .ok (code,b) ∧
      (code = upnpESuccess → b.Terminated ∧ b.text.length < n ∧
        ∀ (res : Resolver) (pieces : List (List UInt8)), pieces.flatten = b.text →
          ∃ view, observeMessage (feedParser res parserRequestInit pieces) =
              (.success,some view) ∧
            Encodes mx target addressFamily view) := by
  have hnul : ∀ t ∈ target.map SearchText.text, 0 ∉ t := by
    intro t ht
    rw [Option.mem_def,Option.map_eq_some_iff] at ht
    rcases ht with ⟨s,-,rfl⟩
    exact s.noNul
  rcases writeRequestPacket_renders (by decide : 0 ∉ ssdpIpv6Linklocal) rqstBuf mx hnul
    addressFamily with ⟨code,b,hb,hcase⟩
  refine ⟨code,b,hb,fun hcode => ?_⟩
  cases hpacket : requestPacket ssdpIpv6Linklocal n mx (target.map SearchText.text)
      addressFamily with
  | error e =>
    rw [hpacket] at hcase
    exact absurd (hcase.1.symm.trans hcode) hcase.2
  | ok l =>
    rw [hpacket] at hcase
    have hholds := hcase.2
    refine ⟨hholds.terminated,by rw [hholds.text]; exact hholds.length_lt,fun res pieces hp => ?_⟩
    exact requestPacket_readBack hpacket res (hp.trans hholds.text)

example : (createClientRequestPacket 150 3 (some (cstr " urn:x ")) .inet).toOption =
    some (cstr "M-SEARCH * HTTP/1.1\r\nHOST: 239.255.255.250:1900\r\nMAN: \"ssdp:discover\"\r\n"++
      cstr "MX: 3\r\nST:  urn:x \r\n\r\n") := by decide

end Ssdp
end CtrlPt
