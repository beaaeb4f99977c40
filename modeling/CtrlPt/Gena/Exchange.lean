import CtrlPt.Gena.Requests

/-! The lease that is asked for, and the one that is granted. -/
namespace CtrlPt
namespace Subscriptions

open CText Http Soap
open Uri (UriType Resolver Inet6Chars)

def leaseAsked (timeout : ℤ) : ℤ :=
  if timeout < 0 then upnpInfinite else max timeout cpMinimumSubscriptionTime

theorem timeoutStr_numeral {timeout : ℤ} (h : 0 ≤ timeout) :
    timeoutStr timeout = printNumeral 10 (leaseAsked timeout).toNat := by
  have hprint : ∀ n : ℤ, 0 ≤ n → printInt n = printNumeral 10 n.toNat := by
    intro n hn
    rw [printInt,if_neg (by omega)]
    congr 1
    omega
  have hno : ¬timeout < 0 := Int.not_lt.mpr h
  rw [timeoutStr,leaseAsked,if_neg hno,if_neg hno]
  split
  · rename_i hlow
    rw [max_eq_right hlow.le]
    exact hprint _ (by decide)
  · rename_i hhigh
    rw [max_eq_left (Int.not_lt.mp hhigh)]
    exact hprint _ h

theorem secondsValue_read {timeout : ℤ} (h₀ : 0 ≤ timeout) (h : IsInt timeout) :
    (matchstr (secondsValue timeout) timeoutFmt).status = .ok ∧
      (matchstr (secondsValue timeout) timeoutFmt).intAt 0 = some (leaseAsked timeout) := by
  have hlease : (leaseAsked timeout).toNat < 2^31 := by
    have hmax : leaseAsked timeout = max timeout cpMinimumSubscriptionTime :=
      if_neg (by omega)
    have hmin : cpMinimumSubscriptionTime = 15 := rfl
    have hup := h.2
    omega
  have hnonneg : 0 ≤ leaseAsked timeout := by
    rw [leaseAsked,if_neg (by omega)]
    exact le_max_of_le_left h₀
  have hmatch : matchstr (secondsValue timeout) timeoutFmt =
      vfmatchFrom true seqFmt false (0+(cstr "Second-").length) (timeoutStr timeout) :=
    vfmatchFrom_literal rfl seqFmt 0 (timeoutStr timeout)
  rw [timeoutStr_numeral h₀] at hmatch
  have hread := numeralEnd_accepts (printNumeral_numeral (by decide) (by decide)
    (leaseAsked timeout).toNat) hlease false (0+(cstr "Second-").length)
  refine ⟨hmatch ▸ hread.1,?_⟩
  rw [Match.intAt,hmatch,hread.2,Int.toNat_of_nonneg hnonneg]
  rfl

theorem secondsValue_infinite {timeout : ℤ} (h : timeout < 0) :
    secondsValue timeout = cstr "Second-infinite" := by
  rw [secondsValue,timeoutStr,if_pos h]
  rfl

/-- A publisher that grants what it is asked grants the lease that was meant. -/
theorem readLease_echoed {timeout : ℤ} (h : IsInt timeout) {headers : List HttpHeader}
    {sid : List UInt8} (hsid : findHdr headers .sid = some sid) (hne : sid ≠ [])
    (htimeout : findHdr headers .timeout = some (secondsValue timeout)) (request : List UInt8) :
    readLease timeout headers request =
      ⟨upnpESuccess,leaseAsked timeout,untilNul sid,some request⟩ := by
  have hlengths : ¬(sid.length = 0 ∨ (secondsValue timeout).length = 0) := by
    rw [List.length_eq_zero_iff,List.length_eq_zero_iff]
    exact not_or.mpr ⟨hne,secondsValue_ne timeout⟩
  simp only [readLease,hsid,htimeout,if_neg hlengths]
  by_cases hneg : timeout < 0
  · have hother : (matchstr (cstr "Second-infinite") timeoutFmt).status ≠ .ok ∧
        memptrCmpNocase (cstr "Second-infinite") (cstr "Second-infinite") = 0 := by decide
    rw [secondsValue_infinite hneg,if_neg hother.1,if_pos hother.2,leaseAsked,if_pos hneg]
    rfl
  · rcases secondsValue_read (Int.not_lt.mp hneg) h with ⟨hst,hval⟩
    rw [if_pos hst,Match.storeTo,hval]
    rfl

def leaseRequest (renewal : Option SidText) (timeout : ℤ) : GenaRequest :=
  renewal.elim (.subscribe timeout) fun sid => .renew sid timeout

theorem leaseRequest_message (sys : Setup) (dest : UriType) (renewal : Option SidText)
    (timeout : ℤ) : (leaseRequest renewal timeout).message sys dest =
      subscribeRequest sys dest (renewal.map SidText.val) (timeoutStr timeout) := by
  cases renewal <;> rfl

theorem leaseRequest_timeout (sys : Setup) (dest : UriType) (renewal : Option SidText)
    (timeout : ℤ) : findHdr ((leaseRequest renewal timeout).headerList sys dest) .timeout =
      some (secondsValue timeout) := by
  cases renewal <;> rfl

/-- The exchange with a publisher that answers with the TIMEOUT it has read: the lease is the one
that was asked for, not shorter than the shortest. -/
theorem exchangeSubscribe_echoed (res : Resolver) {sys : Setup} (hin : Inet6Chars sys.res)
    (haddr : AddressTexts sys.addr) (hsdk : SdkInfo (sys.platform.getSdkInfo messageBufSize))
    {url : List UInt8} (hnul : 0 ∉ url) {dest : UriType}
    (h : httpFixStrUrl sys.res url url.length = .ok dest) (renewal : Option SidText) {timeout : ℤ}
    (ht : IsInt timeout) {reply : Reply} (hret : reply.ret = 0) (hstatus : reply.msg.statusCode = 200)
    {sid : List UInt8} (hsid : findHdr reply.msg.headers .sid = some sid) (hne : sid ≠ [])
    (hecho : findHdr reply.msg.headers .timeout =
      findHdr ((leaseRequest renewal timeout).headerList sys dest) .timeout) :
    ∃ request, ReadsAs res request dest.pathquery.text .subscribe
        ((leaseRequest renewal timeout).headerList sys dest) ∧
      exchangeSubscribe sys url timeout (renewal.map SidText.val) reply =
        .ok ⟨upnpESuccess,leaseAsked timeout,untilNul sid,some request⟩ := by
  rcases (leaseRequest renewal timeout).readsAs haddr hsdk res (destUrl hin hnul h) with
    ⟨request,hrequest,hread⟩
  have hmethod : (leaseRequest renewal timeout).method = .subscribe := by
    cases renewal <;> rfl
  rw [hmethod] at hread
  rw [leaseRequest_message] at hrequest
  rw [leaseRequest_timeout] at hecho
  refine ⟨request,hread,?_⟩
  have hret : ¬reply.ret ≠ 0 := not_not.mpr hret
  have hstatus : ¬reply.msg.statusCode ≠ 200 := not_not.mpr hstatus
  simp only [exchangeSubscribe,h,hrequest,if_neg hret,if_neg hstatus,
    readLease_echoed ht hsid hne hecho]

theorem exchangeSubscribe_lan : ∃ request dest,
    ReadsAs inet4Resolver request (cstr "/ev") .subscribe
        ((leaseRequest none 1).headerList lanSetup dest) ∧
      exchangeSubscribe lanSetup (cstr "http://1.2.3.4/ev") 1 none
        (leaseReply (cstr "uuid:1") (cstr "Second-15")) =
        .ok ⟨upnpESuccess,15,cstr "uuid:1",some request⟩ := by
  rcases lanSetup_url with ⟨dest,hdest,-,hpath,-⟩
  have hsdk : SdkInfo (lanSetup.platform.getSdkInfo messageBufSize) := somePlatform_sdk
  have hin : Inet6Chars lanSetup.res := inet4Resolver_chars
  have hvalue : secondsValue 1 = cstr "Second-15" := by decide
  have hret : (leaseReply (cstr "uuid:1") (cstr "Second-15")).ret = 0 := rfl
  have hecho : findHdr (leaseReply (cstr "uuid:1") (cstr "Second-15")).msg.headers .timeout =
      findHdr ((leaseRequest none 1).headerList lanSetup dest) .timeout := by
    rw [leaseRequest_timeout,hvalue]
    rfl
  rcases exchangeSubscribe_echoed inet4Resolver hin lanSetup_addr hsdk (by decide) hdest none
    (⟨by decide,by decide⟩ : IsInt 1) hret rfl rfl (by decide) hecho with ⟨request,hread,hexchange⟩
  rw [hpath] at hread
  exact ⟨request,dest,hread,hexchange⟩

end Subscriptions
end CtrlPt
