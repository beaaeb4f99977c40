import CtrlPt.Http.Message
import CtrlPt.Uri

/-! `http_MakeMessage`, the interpreter of message formats, and the URLs it is given. -/
namespace CtrlPt
namespace Http

open CText Uri

def tokenStringCasecmp (t : UriToken) (s : List UInt8) : ℤ :=
  if t.text.length ≠ s.length then 1 else strncasecmp t.text s t.text.length

/-- The slash that stands for an empty path is no part of the URL. -/
def httpFixUrl (url : UriType) : Except ℤ UriType :=
  if tokenStringCasecmp url.scheme (cstr "http") ≠ 0 then .error upnpEInvalidUrl
  else if url.hostport.text.text.length = 0 then .error upnpEInvalidUrl
  else if url.pathquery.text.length = 0 then .ok { url with pathquery := ⟨none,cstr "/"⟩ }
  else .ok url

def httpFixStrUrl (res : Resolver) (urlstr : List UInt8) (urlstrlen : ℕ) : Except ℤ UriType :=
  match parseUri res urlstr urlstrlen with
  | .error _ => .error upnpEInvalidUrl
  | .ok url => httpFixUrl url

theorem httpFixUrl_ok {u v : UriType} (h : httpFixUrl u = .ok v) :
    httpFixUrl v = .ok v ∧ v.hostport = u.hostport ∧ v.hostport.text.text ≠ [] ∧
      (v.pathquery.text = cstr "/" ∨ v.pathquery.text = u.pathquery.text ∧ v.pathquery.text ≠ []) := by
  have hne : ∀ l : List UInt8, l.length ≠ 0 → l ≠ [] := by
    rintro l hl rfl
    exact hl rfl
  unfold httpFixUrl at h
  split at h
  · cases h
  rename_i hscheme
  split at h
  · cases h
  rename_i hhost
  split at h
  · cases h
    refine ⟨?_,rfl,hne _ hhost,.inl rfl⟩
    unfold httpFixUrl
    rw [if_neg hscheme,if_neg hhost]
    rfl
  · rename_i hpath
    cases h
    refine ⟨?_,rfl,hne _ hhost,.inr ⟨rfl,hne _ hpath⟩⟩
    unfold httpFixUrl
    rw [if_neg hscheme,if_neg hhost,if_neg hpath]

/-- `map_int_to_str` searches from the front. -/
def methodToStr (method : HttpMethod) : Option (List UInt8) :=
  (httpMethodTable.find? fun e => e.2 == method).map Prod.fst

structure Tm where
  sec : ℕ
  min : ℕ
  hour : ℕ
  mday : ℕ
  mon : ℕ
  year : ℕ
  wday : ℕ
  deriving DecidableEq, Repr

/-- What `uname` leaves in a `struct utsname`, whether it fails or not. -/
structure UtsName where
  sysname : List UInt8
  release : List UInt8
  deriving DecidableEq, Repr

/-- What a message takes from the system. -/
structure Platform where
  sysInfo : UtsName
  time : ℤ
  gmtime : ℤ → Option Tm

def packageVersion : List UInt8 := cstr "1.6.19"

/-- The string that is left in a buffer of the given size. -/
def Platform.getSdkInfo (sys : Platform) (infoSize : ℕ) : List UInt8 :=
  (untilNul sys.sysInfo.sysname++cstr "/"++untilNul sys.sysInfo.release++
    cstr ", UPnP/1.0, Portable SDK for UPnP devices/"++packageVersion++[cr,lf]).take (infoSize-1)

/-- The part of a `struct SendInstruction` that requests use. -/
structure SendInstruction where
  rangeHeader : List UInt8
  deriving DecidableEq, Repr

/-- The format letters, except those that only answers have (`L`, `R` and `B`). -/
inductive FormatLetter
  | s | K | G | b | c | d | h | t | D | C | N | S | U | X | Q | q | T
  deriving DecidableEq, Repr

/-- One argument behind a format. A `char *` is the memory it points to. -/
inductive FormatArg
  | str (s : List UInt8)
  | size (n : ℕ)
  | int (n : ℤ)
  | off (n : ℤ)
  | time (n : ℤ)
  | method (m : HttpMethod)
  | uri (u : UriType)
  | instr (i : SendInstruction)
  deriving DecidableEq, Repr

/-- An error code, or an assertion that fails. An argument that is not what its letter asks
for is as bad. -/
inductive BuildError
  | code (n : ℤ)
  | abort
  deriving DecidableEq, Repr

def printInt (n : ℤ) : List UInt8 :=
  if n < 0 then 45::printNumeral 10 n.natAbs else printNumeral 10 n.natAbs

/-- `%02d` of a number that is not negative. -/
def printTwo (n : ℕ) : List UInt8 :=
  if n < 10 then 48::printNumeral 10 n else printNumeral 10 n

def weekdayStr : List (List UInt8) :=
  [cstr "Sun",cstr "Mon",cstr "Tue",cstr "Wed",cstr "Thu",cstr "Fri",cstr "Sat"]

def monthStr : List (List UInt8) :=
  [cstr "Jan",cstr "Feb",cstr "Mar",cstr "Apr",cstr "May",cstr "Jun",cstr "Jul",cstr "Aug",
    cstr "Sep",cstr "Oct",cstr "Nov",cstr "Dec"]

def dateText (date : Tm) : List UInt8 :=
  weekdayStr.getD date.wday []++cstr ", "++printTwo date.mday++cstr " "++
    monthStr.getD date.mon []++cstr " "++printNumeral 10 (date.year+1900)++cstr " "++
    printTwo date.hour++cstr ":"++printTwo date.min++cstr ":"++printTwo date.sec++cstr " GMT"

/-- The size of the `tempbuf` of `http_MakeMessage`. -/
def messageBufSize : ℕ := 200

/-- What a call of `http_MakeMessage` appends, or how it fails. -/
abbrev MakeCall := List FormatLetter → List FormatArg → Except BuildError (List UInt8)

/-- Inside a letter a call that fails is an error of its own. -/
def nestedCall (call : MakeCall) : MakeCall := fun fmt args =>
  match call fmt args with
  | .ok x => .ok x
  | .error .abort => .error .abort
  | .error (.code _) => .error (.code upnpEOutofMemory)

/-- One round of the loop over the format: the text of the letter and the arguments it leaves. -/
def makeLetter (sys : Platform) (major minor : ℤ) (call : MakeCall) :
    FormatLetter → List FormatArg → Except BuildError (List UInt8 × List FormatArg)
  | .s, .str s::args => .ok (untilNul s,args)
  | .K, args => .ok (cstr "TRANSFER-ENCODING: chunked\r\n",args)
  | .G, .instr i::args => .ok (untilNul i.rangeHeader,args)
  | .b, .str s::.size n::args => .ok (s.take n,args)
  | .c, args => .ok ([cr,lf],args)
  -- the number is converted to a `size_t`
  | .d, .int n::args => .ok (printNumeral 10 (n % sizeMod).toNat,args)
  | .h, .off n::args => .ok (printInt n,args)
  | .t, .time n::args =>
    match sys.gmtime n with
    | none => .error (.code upnpEOutofMemory)
    | some date => .ok (dateText date,args)
  | .D, args =>
    match sys.gmtime sys.time with
    | none => .error (.code upnpEOutofMemory)
    | some date => .ok (cstr "DATE: "++dateText date++[cr,lf],args)
  | .C, args =>
    .ok (if major > 1 ∨ (major = 1 ∧ minor = 1) then cstr "CONNECTION: close\r\n" else [],args)
  | .N, .off n::args =>
    if n < 0 then .error .abort
    else do
      let x ← nestedCall call [.s,.h,.c] [.str (cstr "CONTENT-LENGTH: "),.off n]
      return (x,args)
  | .S, args => do
    let x ← nestedCall call [.s,.s]
      [.str (cstr "SERVER: "),.str (sys.getSdkInfo messageBufSize)]
    return (x,args)
  | .U, args => do
    let x ← nestedCall call [.s,.s]
      [.str (cstr "USER-AGENT: "),.str (sys.getSdkInfo messageBufSize)]
    return (x,args)
  | .X, .str s::args => .ok (cstr "X-User-Agent: "++untilNul s,args)
  | .Q, .method m::.str url::.size n::args =>
    match methodToStr m with
    | none => .error .abort
    | some method => do
      let x ← nestedCall call [.s,.s,.b,.s,.d,.s,.d,.c]
        [.str method,.str (cstr " "),.str url,.size n,.str (cstr " HTTP/"),.int major,
          .str (cstr "."),.int minor]
      return (x,args)
  | .q, .method m::.uri u::args =>
    match httpFixUrl u with
    | .error _ => .error (.code upnpEInvalidUrl)
    | .ok url => do
      let x ← nestedCall call [.Q,.s,.b,.c]
        [.method m,.str url.pathquery.text,.size url.pathquery.text.length,.str (cstr "HOST: "),
          .str url.hostport.text.text,.size url.hostport.text.text.length]
      return (x,args)
  | .T, .str s::args => do
    let x ← nestedCall call [.s,.s,.c] [.str (cstr "CONTENT-TYPE: "),.str s]
    return (x,args)
  | _, _ => .error .abort

def makeFormat (sys : Platform) (major minor : ℤ) (call : MakeCall) : MakeCall
  | [], _ => .ok []
  | l::fmt, args => do
    let r ← makeLetter sys major minor call l args
    let x ← makeFormat sys major minor call fmt r.2
    return r.1++x

/-- `depth` bounds how deep the calls in a call go. -/
def makeMessage (sys : Platform) (major minor : ℤ) : ℕ → MakeCall
  | 0 => fun _ _ => .error .abort
  | depth+1 => makeFormat sys major minor (makeMessage sys major minor depth)

/-- No format needs more than three calls in one another. -/
def httpMakeMessage (sys : Platform) (major minor : ℤ) : MakeCall :=
  makeMessage sys major minor 3

theorem makeFormat_step {sys : Platform} {major minor : ℤ} {call : MakeCall} {l : FormatLetter}
    {fmt : List FormatLetter} {args args' : List FormatArg} {x : List UInt8}
    (hl : makeLetter sys major minor call l args = .ok (x,args')) :
    makeFormat sys major minor call (l::fmt) args =
      (makeFormat sys major minor call fmt args').map (x++·) := by
  rw [makeFormat,hl]
  cases h : makeFormat sys major minor call fmt args' <;> simp only [bind,Except.bind,h] <;> rfl

theorem makeFormat_cons {sys : Platform} {major minor : ℤ} {call : MakeCall} {l : FormatLetter}
    {fmt : List FormatLetter} {args args' : List FormatArg} {x y : List UInt8}
    (hl : makeLetter sys major minor call l args = .ok (x,args'))
    (hf : makeFormat sys major minor call fmt args' = .ok y) :
    makeFormat sys major minor call (l::fmt) args = .ok (x++y) := by
  rw [makeFormat_step hl,hf]
  rfl

@[simp] theorem printInt_natCast (n : ℕ) : printInt n = printNumeral 10 n := by
  rw [printInt,if_neg (by omega),Int.natAbs_natCast]

theorem nestedCall_ok {call : MakeCall} {fmt : List FormatLetter} {args : List FormatArg}
    {x : List UInt8} (h : call fmt args = .ok x) : nestedCall call fmt args = .ok x := by
  rw [nestedCall,h]

/-- A letter that stands for a format of its own. -/
theorem makeLetter_nested {sys : Platform} {major minor : ℤ} {call : MakeCall} {l : FormatLetter}
    {args args' rest : List FormatArg} {fmt : List FormatLetter} {x : List UInt8}
    (hl : makeLetter sys major minor call l args = (nestedCall call fmt args').map (·,rest))
    (h : call fmt args' = .ok x) : makeLetter sys major minor call l args = .ok (x,rest) := by
  rw [hl,nestedCall_ok h]
  rfl

theorem makeLetter_N (sys : Platform) (major minor : ℤ) (depth n : ℕ) (args : List FormatArg) :
    makeLetter sys major minor (makeMessage sys major minor (depth+1)) .N (.off n::args) =
      .ok (cstr "CONTENT-LENGTH: "++(printNumeral 10 n++[cr,lf]),args) := by
  have h : makeMessage sys major minor (depth+1) [.s,.h,.c]
      [.str (cstr "CONTENT-LENGTH: "),.off n] =
      .ok (cstr "CONTENT-LENGTH: "++(printInt n++([cr,lf]++[]))) :=
    makeFormat_cons rfl (makeFormat_cons rfl (makeFormat_cons rfl rfl))
  rw [printInt_natCast,List.append_nil] at h
  refine makeLetter_nested ?_ h
  exact (if_neg (Int.not_lt.mpr (Int.natCast_nonneg n)) :
    (if (n : ℤ) < 0 then Except.error BuildError.abort else _) = _)

theorem makeLetter_U (sys : Platform) (major minor : ℤ) (depth : ℕ) (args : List FormatArg) :
    makeLetter sys major minor (makeMessage sys major minor (depth+1)) .U args =
      .ok (cstr "USER-AGENT: "++untilNul (sys.getSdkInfo messageBufSize),args) := by
  have h : makeMessage sys major minor (depth+1) [.s,.s]
      [.str (cstr "USER-AGENT: "),.str (sys.getSdkInfo messageBufSize)] =
      .ok (cstr "USER-AGENT: "++(untilNul (sys.getSdkInfo messageBufSize)++[])) :=
    makeFormat_cons rfl (makeFormat_cons rfl rfl)
  rw [List.append_nil] at h
  exact makeLetter_nested rfl h

theorem makeLetter_T (sys : Platform) (major minor : ℤ) (depth : ℕ) (type : List UInt8)
    (args : List FormatArg) :
    makeLetter sys major minor (makeMessage sys major minor (depth+1)) .T (.str type::args) =
      .ok (cstr "CONTENT-TYPE: "++(untilNul type++[cr,lf]),args) := by
  have h : makeMessage sys major minor (depth+1) [.s,.s,.c] [.str (cstr "CONTENT-TYPE: "),.str type] =
      .ok (cstr "CONTENT-TYPE: "++(untilNul type++([cr,lf]++[]))) :=
    makeFormat_cons rfl (makeFormat_cons rfl (makeFormat_cons rfl rfl))
  rw [List.append_nil] at h
  exact makeLetter_nested rfl h

theorem methodToStr_untilNul {m : HttpMethod} {s : List UInt8} (h : methodToStr m = some s) :
    untilNul s = s := by
  have hall : ∀ e ∈ httpMethodTable, untilNul e.1 = e.1 := by decide
  rcases Option.map_eq_some_iff.mp h with ⟨e,he,rfl⟩
  exact hall e (List.mem_of_find?_eq_some he)

theorem makeLetter_Q (sys : Platform) (major minor : ℕ) (hmajor : major < sizeMod)
    (hminor : minor < sizeMod) (depth : ℕ) {m : HttpMethod} {name : List UInt8}
    (hm : methodToStr m = some name) (url : List UInt8) (n : ℕ) (args : List FormatArg) :
    makeLetter sys major minor (makeMessage sys major minor (depth+1)) .Q
        (.method m::.str url::.size n::args) =
      .ok (name++(cstr " "++(url.take n++(cstr " HTTP/"++(printNumeral 10 major++(cstr "."++
        (printNumeral 10 minor++[cr,lf])))))),args) := by
  have hd : ∀ {k : ℕ}, k < sizeMod → ((k : ℤ) % sizeMod).toNat = k := by
    intro k hk
    rw [Int.emod_eq_of_lt (by omega) (by omega),Int.toNat_natCast]
  have h : makeMessage sys major minor (depth+1) [.s,.s,.b,.s,.d,.s,.d,.c]
      [.str name,.str (cstr " "),.str url,.size n,.str (cstr " HTTP/"),.int major,
        .str (cstr "."),.int minor] =
      .ok (untilNul name++(cstr " "++(url.take n++(cstr " HTTP/"++
        (printNumeral 10 ((major : ℤ) % sizeMod).toNat++(cstr "."++
        (printNumeral 10 ((minor : ℤ) % sizeMod).toNat++([cr,lf]++[])))))))) :=
    makeFormat_cons rfl (makeFormat_cons rfl (makeFormat_cons rfl (makeFormat_cons rfl
      (makeFormat_cons rfl (makeFormat_cons rfl (makeFormat_cons rfl (makeFormat_cons rfl rfl)))))))
  rw [hd hmajor,hd hminor,methodToStr_untilNul hm,List.append_nil] at h
  refine makeLetter_nested ?_ h
  show (match methodToStr m with | none => _ | some method => _) = _
  rw [hm]
  rfl

theorem makeLetter_q (sys : Platform) (major minor : ℕ) (hmajor : major < sizeMod)
    (hminor : minor < sizeMod) (depth : ℕ) {m : HttpMethod} {name : List UInt8}
    (hm : methodToStr m = some name) {u url : UriType} (hu : httpFixUrl u = .ok url)
    (args : List FormatArg) :
    makeLetter sys major minor (makeMessage sys major minor (depth+2)) .q (.method m::.uri u::args) =
      .ok (name++(cstr " "++(url.pathquery.text++(cstr " HTTP/"++(printNumeral 10 major++(cstr "."++
        (printNumeral 10 minor++[cr,lf]))))))++(cstr "HOST: "++(url.hostport.text.text++[cr,lf])),
        args) := by
  have hQ := makeLetter_Q sys major minor hmajor hminor depth hm url.pathquery.text
    url.pathquery.text.length [.str (cstr "HOST: "),.str url.hostport.text.text,
      .size url.hostport.text.text.length]
  have h : makeMessage sys major minor (depth+2) [.Q,.s,.b,.c]
      [.method m,.str url.pathquery.text,.size url.pathquery.text.length,.str (cstr "HOST: "),
        .str url.hostport.text.text,.size url.hostport.text.text.length] = .ok _ :=
    makeFormat_cons hQ (makeFormat_cons rfl (makeFormat_cons rfl (makeFormat_cons rfl rfl)))
  rw [List.take_length,List.take_length,List.append_nil] at h
  refine makeLetter_nested ?_ h
  show (match httpFixUrl u with | .error _ => _ | .ok url => _) = _
  rw [hu]
  rfl

theorem nestedCall_error {call : MakeCall} {fmt : List FormatLetter} {args : List FormatArg}
    {e : ℤ} (h : nestedCall call fmt args = .error (.code e)) : e ≠ 0 := by
  unfold nestedCall at h
  split at h
  · cases h
  · cases h
  · cases h
    decide

theorem nestedCall_bind_error {call : MakeCall} {fmt : List FormatLetter} {args : List FormatArg}
    {β : Type} {f : List UInt8 → β} {e : ℤ}
    (h : (nestedCall call fmt args).bind (fun x => .ok (f x)) = .error (.code e)) : e ≠ 0 := by
  cases hn : nestedCall call fmt args with
  | ok x =>
    rw [hn] at h
    cases h
  | error b =>
    rw [hn] at h
    cases h
    exact nestedCall_error hn

theorem makeLetter_error (sys : Platform) (major minor : ℤ) (call : MakeCall) (l : FormatLetter)
    (args : List FormatArg) {e : ℤ}
    (h : makeLetter sys major minor call l args = .error (.code e)) : e ≠ 0 := by
  unfold makeLetter at h
  split at h
  case h_8 | h_9 =>
    split at h
    · cases h
      decide
    · cases h
  case h_11 =>
    split at h
    · cases h
    · exact nestedCall_bind_error h
  case h_15 =>
    split at h
    · cases h
    · exact nestedCall_bind_error h
  case h_16 =>
    split at h
    · cases h
      decide
    · exact nestedCall_bind_error h
  all_goals first | cases h | exact nestedCall_bind_error h

theorem makeFormat_error (sys : Platform) (major minor : ℤ) (call : MakeCall)
    (fmt : List FormatLetter) (args : List FormatArg) {e : ℤ}
    (h : makeFormat sys major minor call fmt args = .error (.code e)) : e ≠ 0 := by
  induction fmt generalizing args with
  | nil => cases h
  | cons l fmt ih =>
    unfold makeFormat at h
    cases hl : makeLetter sys major minor call l args with
    | error b =>
      rw [hl] at h
      cases h
      exact makeLetter_error sys major minor call l args hl
    | ok r =>
      rw [hl] at h
      cases hf : makeFormat sys major minor call fmt r.2 with
      | error b =>
        simp only [bind,Except.bind,hf] at h
        cases h
        exact ih r.2 hf
      | ok x =>
        simp only [bind,Except.bind,hf] at h
        cases h

theorem httpMakeMessage_error {sys : Platform} {major minor : ℤ} {fmt : List FormatLetter}
    {args : List FormatArg} {e : ℤ}
    (h : httpMakeMessage sys major minor fmt args = .error (.code e)) : e ≠ 0 :=
  makeFormat_error sys major minor _ fmt args h

end Http
end CtrlPt
