import CtrlPt.Http.Download

/-! The receive loop of `httpreadwrite.c`: a whole message is read from a connection. -/
namespace CtrlPt
namespace Http

open CText Uri

def httpReqEntityTooLarge : ℕ := 413

/-- What `http_RecvMessage` returns, the error code it has stored, if it has, and the parser. -/
structure RecvResult where
  code : ℤ
  httpErrorCode : Option ℕ
  parser : HttpParser

def recvComplete (maxContentLength : ℕ) (p : HttpParser) : RecvResult :=
  if 0 < maxContentLength ∧ maxContentLength % 2^32 < p.contentLength then
    ⟨upnpEOutofBounds,some httpReqEntityTooLarge,p⟩
  else ⟨upnpESuccess,none,p⟩

/-- The loop, with `ok_on_close`. -/
def recvLoop (res : Resolver) (maxContentLength : ℕ) : SockInfo → Bool → HttpParser → RecvResult
  | [], okOnClose, p =>
    if okOnClose then ⟨upnpESuccess,none,p⟩ else ⟨upnpEBadHttpmsg,some httpBadRequest,p⟩
  | .error code _::_, _, p => ⟨code,some p.httpErrorCode,p⟩
  | .data x _ _::sock, okOnClose, p =>
    match parserAppend res p x with
    | (.success,q) => recvComplete maxContentLength q
    | (.failure,q) => ⟨upnpEBadHttpmsg,some q.httpErrorCode,q⟩
    | (.noMatch,q) => ⟨upnpEBadHttpmsg,some q.httpErrorCode,q⟩
    | (.incompleteEntity,q) => recvLoop res maxContentLength sock true q
    -- a web post request
    | (.continue1,q) => ⟨upnpESuccess,none,q⟩
    | (.incomplete,q) => recvLoop res maxContentLength sock okOnClose q
    | (.ok,q) => recvLoop res maxContentLength sock okOnClose q

/-- A parser for a request, or for the response to a request. -/
def recvInit (requestMethod : HttpMethod) : HttpParser :=
  if requestMethod = .unknown then parserRequestInit else parserResponseInit requestMethod

def httpRecvMessage (res : Resolver) (maxContentLength : ℕ) (requestMethod : HttpMethod)
    (sock : SockInfo) : RecvResult :=
  recvLoop res maxContentLength sock false (recvInit requestMethod)

end Http
end CtrlPt
