import Mathlib.Data.Int.Notation

/-! The return codes of `upnp.h`. -/
namespace CtrlPt

def upnpESuccess : ℤ := 0
def upnpEInvalidHandle : ℤ := -100
def upnpEInvalidParam : ℤ := -101
def upnpEOutofMemory : ℤ := -104
def upnpEBufferTooSmall : ℤ := -106
def upnpEInvalidUrl : ℤ := -108
def upnpEInvalidSid : ℤ := -109
def upnpEBadResponse : ℤ := -113
def upnpEFinish : ℤ := -116
def upnpEBadHttpmsg : ℤ := -119
def upnpESocketConnect : ℤ := -204
def upnpETimedout : ℤ := -207
def upnpESocketError : ℤ := -208
def upnpECanceled : ℤ := -210
def upnpESubscribeUnaccepted : ℤ := -301
def upnpEInvalidArgument : ℤ := -501
def upnpEFileReadError : ℤ := -503
def upnpEOutofBounds : ℤ := -506
def upnpEInternalError : ℤ := -911

end CtrlPt
