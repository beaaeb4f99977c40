import CtrlPt.Codes
import CtrlPt.CText

/-! `uri.c`: the decomposition of a URL. The name resolver and the address conversion
of the C library are a parameter. -/
namespace CtrlPt
namespace Uri

open CText

/-- `AF_UNSPEC` is also what a cleared address has. -/
inductive Family
  | unspec | inet | inet6 | other
  deriving DecidableEq, Repr

structure SockAddr where
  family : Family
  port : ℕ
  addr : List UInt8
  scopeId : ℕ
  deriving DecidableEq, Repr

structure AddrInfo where
  family : Family
  addr : SockAddr
  deriving DecidableEq, Repr

/-- `getaddrinfo` gives the address list of a host, `inet_pton` the bytes of a numeric
address; both may fail. `ifIndex` is `gIF_INDEX`. -/
structure Resolver where
  getaddrinfo : List UInt8 → Option (List AddrInfo)
  inetPton : Family → List UInt8 → Option (List UInt8)
  ifIndex : ℕ

def Resolver.empty : Resolver := ⟨fun _ => none,fun _ _ => none,0⟩

inductive UriKind
  | absolute | relative
  deriving DecidableEq, Repr

inductive PathType
  | absPath | relPath | opaquePart
  deriving DecidableEq, Repr

/-- A `token`: where it starts in the parsed string, `none` for NULL, and its bytes. -/
structure UriToken where
  buff : Option ℕ
  text : List UInt8
  deriving DecidableEq, Repr

def UriToken.null : UriToken := ⟨none,[]⟩

structure HostPort where
  text : UriToken
  ipAddress : SockAddr
  deriving DecidableEq, Repr

def SockAddr.cleared : SockAddr := ⟨.unspec,0,[],0⟩

def HostPort.cleared : HostPort := ⟨UriToken.null,SockAddr.cleared⟩

structure UriType where
  type : UriKind
  scheme : UriToken
  pathType : PathType
  pathquery : UriToken
  fragment : UriToken
  hostport : HostPort
  deriving DecidableEq, Repr

def UriType.cleared : UriType :=
  ⟨.absolute,UriToken.null,.absPath,UriToken.null,UriToken.null,HostPort.cleared⟩

def reservedChars : List UInt8 := cstr ";/?:@&=+$,\x7b\x7d"
def markChars : List UInt8 := cstr "-_.!~*'()"

def isReserved (c : UInt8) : Bool := strchr reservedChars c
def isMark (c : UInt8) : Bool := strchr markChars c
def isUnreserved (c : UInt8) : Bool := isAlnum c || isMark c

def isEscaped : List UInt8 → Bool
  | a::b::c::_ => a == 37 && isXDigit b && isXDigit c
  | _ => false

/-- The length of the run of uric characters at the head of the string. -/
def parseUric : List UInt8 → ℕ
  | [] => 0
  | c::cs =>
    if isUnreserved c || isReserved c || isEscaped (c::cs) then parseUric cs + 1 else 0

/-- The loop of `parse_scheme` after its first character, which has `i` bytes before it. -/
def schemeEnd (i : ℕ) : List UInt8 → ℕ
  | [] => 0
  | c::cs =>
    if c = 58 then i
    else if isAlnum c || c == 43 || c == 45 || c == 46 then schemeEnd (i+1) cs
    else 0

/-- The length of the scheme, 0 if there is none. -/
def parseScheme : List UInt8 → ℕ
  | [] => 0
  | c::cs => if isAlpha c then schemeEnd 1 cs else 0

/-- The loop over the resolver's answer: it copies the first internet address and leaves
`res` on the entry after it. -/
def firstInternet : List AddrInfo → Option SockAddr × List AddrInfo
  | [] => (none,[])
  | a::as =>
    if a.family = .inet ∨ a.family = .inet6 then (some a.addr,as) else firstInternet as

def isHostChar (c : UInt8) : Bool := isAlnum c || c == 46 || c == 45

/-- `last_dot` is followed by a digit. -/
def dottedNumber (host : List UInt8) : Bool :=
  host.contains 46 && isDigit ((host.reverse.takeWhile (· != 46)).reverse.headD 0)

/-- What `parse_hostport` reads before the port. -/
structure HostScan where
  af : Family
  srvname : List UInt8
  /-- What the resolver filled in. -/
  resolved : SockAddr
  hasPort : Bool
  rest : List UInt8
  deriving DecidableEq, Repr

/-- An IPv6 address in square brackets, after the opening one. -/
def scanBracket (r : List UInt8) : Option HostScan :=
  match r.dropWhile (· != 93) with
  | [] => none
  | _::rest =>
    let host := r.takeWhile (· != 93)
    if rest.headD 0 = 58 then some ⟨.inet6,host,SockAddr.cleared,true,rest.tail⟩
    else some ⟨.inet6,host,SockAddr.cleared,false,rest⟩

/-- An IPv4 address or a host name. -/
def scanHost (res : Resolver) (r : List UInt8) : Option HostScan :=
  let host := r.takeWhile isHostChar
  let rest := r.dropWhile isHostChar
  let hasPort := rest.headD 0 == 58
  let rest := if hasPort then rest.tail else rest
  if dottedNumber host then some ⟨.inet,host,SockAddr.cleared,hasPort,rest⟩
  else
    match res.getaddrinfo host with
    | none => none
    | some addrs =>
      match firstInternet addrs with
      | (_,[]) => none
      | (found,_::_) => some ⟨.unspec,host,found.getD SockAddr.cleared,hasPort,rest⟩

/-- `parse_hostport` on the string at `begin` of the URL. -/
def parseHostport (res : Resolver) (start : ℕ) (r : List UInt8) : Except ℤ HostPort :=
  let workbuf := (untilNul r).take 255
  let scan := if workbuf.headD 0 = 91 then scanBracket workbuf.tail else scanHost res workbuf
  match scan with
  | none => .error upnpEInvalidUrl
  | some h =>
    let port := if h.hasPort then (atoi h.rest % 65536).toNat else 80
    let rest := if h.hasPort then h.rest.dropWhile isDigit else h.rest
    if h.hasPort ∧ port = 0 then .error upnpEInvalidUrl
    else
      let text : UriToken := ⟨some start,workbuf.take (workbuf.length-rest.length)⟩
      match h.af with
      | .inet =>
        match res.inetPton .inet h.srvname with
        | some a => .ok ⟨text,⟨.inet,port,a,0⟩⟩
        | none => .error upnpEInvalidUrl
      | .inet6 =>
        match res.inetPton .inet6 h.srvname with
        | some a => .ok ⟨text,⟨.inet6,port,a,res.ifIndex⟩⟩
        | none => .error upnpEInvalidUrl
      | _ => .ok ⟨text,{ h.resolved with port := port }⟩

/-- `parse_uri` on the first `max` bytes of a string. -/
def parseUri (res : Resolver) (str : List UInt8) (max : ℕ) : Except ℤ UriType := do
  let inp := str.take max
  let scheme := parseScheme inp
  let afterScheme := if scheme = 0 then 0 else scheme+1
  let hostport ←
    if afterScheme+1 < max ∧ (str.drop afterScheme).take 2 = [47,47] then
      parseHostport res (afterScheme+2) (str.drop (afterScheme+2))
    else .ok HostPort.cleared
  let beginPath :=
    if hostport.text.buff = none then afterScheme
    else afterScheme+2+hostport.text.text.length
  let path := inp.drop beginPath
  let pathLen := parseUric path
  let beginFragment := beginPath+pathLen
  let frag := inp.drop beginFragment
  let kind : UriKind := if scheme = 0 then .relative else .absolute
  let pathType : PathType :=
    if (path.take pathLen).headD 0 = 47 then .absPath
    else if scheme = 0 then .relPath else .opaquePart
  let fragment : UriToken :=
    if frag.headD 0 = 35 then
      ⟨some (beginFragment+1),frag.tail.take (parseUric frag.tail)⟩
    else UriToken.null
  let schemeToken : UriToken := if scheme = 0 then UriToken.null else ⟨some 0,inp.take scheme⟩
  return ⟨kind,schemeToken,pathType,⟨some beginPath,path.take pathLen⟩,fragment,hostport⟩

end Uri
end CtrlPt
