import CtrlPt.Http.Scanner

/-! Messages of `httpparser.h`: methods, header names and the header list. -/
namespace CtrlPt
namespace Http

open CText

inductive HttpMethod
  | post | mpost | subscribe | unsubscribe | notify | get | head | msearch | unknown
  | soapPost | simpleGet
  deriving DecidableEq, Repr

/-- The `HDR_` constants. -/
inductive HdrId
  | unknown | cacheControl | callback | contentLength | contentType | date | ext | host
  | location | man | mx | nt | nts | server | seq | sid | soapaction | st | timeout
  | transferEncoding | dt | userAgent | accept | acceptEncoding | acceptCharset
  | acceptLanguage | acceptRange | contentEncoding | contentLanguage | contentLocation
  | contentRange | ifRange | range | te | uid
  deriving DecidableEq, Repr

def httpMethodTable : List (List UInt8 × HttpMethod) :=
  [(cstr "GET",.get),
   (cstr "HEAD",.head),
   (cstr "M-POST",.mpost),
   (cstr "M-SEARCH",.msearch),
   (cstr "NOTIFY",.notify),
   (cstr "POST",.post),
   (cstr "SUBSCRIBE",.subscribe),
   (cstr "UNSUBSCRIBE",.unsubscribe),
   (cstr "POST",.soapPost)]

def httpHeaderNames : List (List UInt8 × HdrId) :=
  [(cstr "ACCEPT",.accept),
   (cstr "ACCEPT-CHARSET",.acceptCharset),
   (cstr "ACCEPT-ENCODING",.acceptEncoding),
   (cstr "ACCEPT-LANGUAGE",.acceptLanguage),
   (cstr "ACCEPT-RANGES",.acceptRange),
   (cstr "CACHE-CONTROL",.cacheControl),
   (cstr "CALLBACK",.callback),
   (cstr "CONTENT-ENCODING",.contentEncoding),
   (cstr "CONTENT-LANGUAGE",.contentLanguage),
   (cstr "CONTENT-LENGTH",.contentLength),
   (cstr "CONTENT-LOCATION",.contentLocation),
   (cstr "CONTENT-RANGE",.contentRange),
   (cstr "CONTENT-TYPE",.contentType),
   (cstr "DATE",.date),
   (cstr "DT",.dt),
   (cstr "EXT",.ext),
   (cstr "HOST",.host),
   (cstr "IF-RANGE",.ifRange),
   (cstr "LOCATION",.location),
   (cstr "MAN",.man),
   (cstr "MX",.mx),
   (cstr "NT",.nt),
   (cstr "NTS",.nts),
   (cstr "RANGE",.range),
   (cstr "SEQ",.seq),
   (cstr "SERVER",.server),
   (cstr "SID",.sid),
   (cstr "SOAPACTION",.soapaction),
   (cstr "ST",.st),
   (cstr "TE",.te),
   (cstr "TIMEOUT",.timeout),
   (cstr "TRANSFER-ENCODING",.transferEncoding),
   (cstr "UID",.uid),
   (cstr "USER-AGENT",.userAgent)]

/-- `memptr_cmp`, and `memptr_cmp_nocase` with `strncasecmp` for `cmp`. -/
def memptrCmpBy (cmp : List UInt8 → List UInt8 → ℕ → ℤ) (m s : List UInt8) : ℤ :=
  if cmp m s m.length = 0 ∧ m.length < s.length then -1 else cmp m s m.length

def memptrCmp : List UInt8 → List UInt8 → ℤ := memptrCmpBy strncmp
def memptrCmpNocase : List UInt8 → List UInt8 → ℤ := memptrCmpBy strncasecmp

theorem strncmpBy_eq_zero {f : UInt8 → UInt8} (hf : ∀ c, f c = 0 ↔ c = 0) (m s : List UInt8)
    (hs : 0 ∉ s) :
    (strncmpBy f m.length m s = 0 ∧ s.length ≤ m.length) ↔ (untilNul m).map f = s.map f := by
  induction m generalizing s with
  | nil => cases s <;> simp [strncmpBy,untilNul]
  | cons a m ih =>
    have h0 : f 0 = 0 := (hf 0).mpr rfl
    have hsub : ∀ x y : UInt8, x ≠ y → (x.toNat : ℤ)-y.toNat ≠ 0 := by
      intro x y hxy he
      exact hxy (UInt8.toNat_inj.mp (by omega))
    cases s with
    | nil =>
      by_cases ha : a = 0
      · subst ha
        simp [strncmpBy,untilNul,h0]
      · have hfa : f a ≠ f 0 := by rwa [h0,ne_eq,hf]
        simp only [strncmpBy,List.length_cons,List.headD_cons,List.headD_nil,ne_eq,hfa,
          not_false_eq_true,if_true,untilNul,List.takeWhile_cons,bne_iff_ne,ha,List.map_cons,
          List.map_nil,reduceCtorEq,iff_false,not_and]
        intro h
        exact absurd h (hsub _ _ hfa)
    | cons b s =>
      simp only [List.mem_cons,not_or] at hs
      have hb : f b ≠ 0 := fun h => hs.1 ((hf b).mp h).symm
      by_cases hab : f a = f b
      · have ha : a ≠ 0 := by
          rintro rfl
          exact hb (hab ▸ h0)
        have hfa : f b ≠ 0 := hb
        simp only [strncmpBy,List.length_cons,List.headD_cons,hab,ne_eq,not_true_eq_false,
          if_false,hfa,List.tail_cons,Nat.add_le_add_iff_right,untilNul,List.takeWhile_cons,
          bne_iff_ne,ha,not_false_eq_true,if_true,List.map_cons,List.cons.injEq,true_and]
        exact ih s hs.2
      · simp only [strncmpBy,List.length_cons,List.headD_cons,ne_eq,hab,not_false_eq_true,if_true]
        constructor
        · rintro ⟨h,-⟩
          exact absurd h (hsub _ _ hab)
        · intro h
          by_cases ha : a = 0
          · simp [untilNul,ha] at h
          · simp [untilNul,ha,hab] at h

theorem memptrCmpBy_eq_zero {f : UInt8 → UInt8} (hf : ∀ c, f c = 0 ↔ c = 0) (m s : List UInt8)
    (hs : 0 ∉ s) :
    memptrCmpBy (fun a b n => strncmpBy f n a b) m s = 0 ↔ (untilNul m).map f = s.map f := by
  rw [← strncmpBy_eq_zero hf m s hs]
  unfold memptrCmpBy
  split
  · rename_i h
    constructor
    · rintro ⟨⟩
    · rintro ⟨-,hle⟩
      omega
  · rename_i h
    constructor
    · intro h0
      exact ⟨h0,by_contra fun hlt => h ⟨h0,by omega⟩⟩
    · exact And.left

theorem memptrCmp_eq_zero {m s : List UInt8} (hs : 0 ∉ s) : memptrCmp m s = 0 ↔ untilNul m = s := by
  have h := memptrCmpBy_eq_zero (f := id) (fun c => Iff.rfl) m s hs
  rwa [List.map_id,List.map_id] at h

/-- One round of the binary search between `top` and `bot`. -/
def searchRound (cmp : ℕ → ℤ) (x : ℤ × ℤ) : (ℤ × ℤ) ⊕ Option ℕ :=
  if x.1 ≤ x.2 then
    let mid := (x.1+x.2)/2
    if 0 < cmp mid.toNat then .inl (mid+1,x.2)
    else if cmp mid.toNat < 0 then .inl (x.1,mid-1)
    else .inr (some mid.toNat)
  else .inr none

/-- `map_str_to_int`; `none` is -1. -/
def mapStrToInt {ι : Type} (name : List UInt8) (table : List (List UInt8 × ι))
    (caseSensitive : Bool) : Option ℕ :=
  let cmp (i : ℕ) : ℤ :=
    let entry := ((table.map Prod.fst)[i]?).getD []
    if caseSensitive then memptrCmp name entry else memptrCmpNocase name entry
  Loop.run (fun x => (x.2+1-x.1).toNat) (searchRound cmp) (fun _ => none)
    ((0,(table.length : ℤ)-1) : ℤ × ℤ)

def lookupName {ι : Type} (name : List UInt8) (table : List (List UInt8 × ι))
    (caseSensitive : Bool) : Option ι :=
  (mapStrToInt name table caseSensitive).bind fun i => (table.map Prod.snd)[i]?

structure HttpHeader where
  name : List UInt8
  nameId : HdrId
  value : List UInt8
  deriving DecidableEq, Repr

/-- `httpmsg_find_hdr`, by position in the list. -/
def findHdrIdx (headers : List HttpHeader) (id : HdrId) : Option ℕ :=
  headers.findIdx? fun h => h.nameId == id

/-- `httpmsg_find_hdr_str`, by position in the list. -/
def findHdrStrIdx (headers : List HttpHeader) (name : List UInt8) : Option ℕ :=
  headers.findIdx? fun h => memptrCmpNocase h.name (untilNul name) == 0

def findHdr (headers : List HttpHeader) (id : HdrId) : Option (List UInt8) :=
  (headers.find? fun h => h.nameId == id).map HttpHeader.value

/-- The end of the header loop: a header seen before gets a non-empty value appended,
a new one is added, with a NUL for an empty value. -/
def storeHeader (headers : List HttpHeader) (at? : Option ℕ) (name : List UInt8) (id : HdrId)
    (value : List UInt8) : List HttpHeader :=
  match at? with
  | none => headers ++ [⟨name,id,if value.isEmpty then [0] else value⟩]
  | some i =>
    if value.isEmpty then headers
    else headers.modify i fun h => { h with value := h.value ++ cstr ", " ++ value }

def addHeader (headers : List HttpHeader) (name value : List UInt8) : List HttpHeader :=
  match lookupName name httpHeaderNames false with
  | some id => storeHeader headers (findHdrIdx headers id) name id value
  | none => storeHeader headers (findHdrStrIdx headers name) name .unknown value

/-- `raw_to_int`; a raw value is followed by a NUL. -/
def rawToInt (base : ℕ) (v : List UInt8) : ℤ :=
  if v.isEmpty then -1
  else
    let num := strtol base v
    if num.value < 0 ∨ num.used ≠ v.length ∨
        ((num.value = longMin ∨ num.value = longMax) ∧ num.erange = true) then -1
    else toInt num.value

/-- `raw_find_str` first makes the value lowercase, up to a NUL. -/
def rawLower (v : List UInt8) : List UInt8 :=
  (untilNul v).map toLower ++ v.drop (untilNul v).length

/-- `raw_find_str`; `none` is -1. -/
def rawFindStr (v s : List UInt8) : Option ℕ := strstr (untilNul (rawLower v)) s

end Http
end CtrlPt
