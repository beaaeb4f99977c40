import CtrlPt.CText
import CtrlPt.Thread.Timer

/-! What the calls of the control point share: the handle table, the memory their objects live
in, and the timer thread. -/
namespace CtrlPt
namespace Sdk

open Thread

def numHandle : ℤ := 200

inductive SsdpSearchType
  | serror | all | rootdevice | deviceudn | devicetype | service
  deriving DecidableEq, Repr

/-- A search that runs. `searchTarget` is `none` for NULL, the cookie is a pointer. -/
structure SsdpSearchArg where
  timeoutEventId : ℤ
  searchTarget : Option (List UInt8)
  cookie : ℕ
  requestType : SsdpSearchType
  deriving DecidableEq, Repr

/-- An entry of the handle table; only clients have one. `clientSubList` holds the addresses of
the subscriptions, in the order of their `m_next` pointers. -/
structure HandleInfo where
  callback : ℕ
  cookie : ℕ
  clientSubList : List ℕ
  ssdpSearchList : List SsdpSearchArg
  deriving DecidableEq, Repr

structure ClientSubscription where
  renewEventId : ℤ
  sid : List UInt8
  actualSid : List UInt8
  eventUrl : List UInt8
  deriving DecidableEq, Repr

/-- A `upnp_timeout` and the `Upnp_Event_Subscribe` it points to. -/
structure UpnpTimeout where
  handle : ℤ
  sid : List UInt8
  errCode : ℤ
  timeOut : ℤ
  publisherUrl : List UInt8
  deriving DecidableEq, Repr

/-- A start routine and its argument. -/
inductive TimerJob
  | genaAutoRenewSubscription (event : UpnpTimeout)
  | searchExpired (id : ℕ)
  deriving DecidableEq, Repr

/-- `subs` and `ids` are the subscriptions and the event ids on the heap, `none` once they are
freed; an address is an index. -/
structure State where
  handleTable : List (Option HandleInfo)
  subs : List (Option ClientSubscription)
  ids : List (Option ℤ)
  gTimerThread : TimerThread TimerJob
  valid : gTimerThread.Valid
  deriving DecidableEq

/-- One client without subscriptions and searches. -/
def idleClient : State where
  handleTable := [none,some ⟨1,0,[],[]⟩]
  subs := []
  ids := []
  gTimerThread := TimerThread.init
  valid := TimerThread.Valid.init

/-- `none` for HND_INVALID. -/
def getHandleInfo (handleTable : List (Option HandleInfo)) (hnd : ℤ) : Option HandleInfo :=
  if hnd < 1 ∨ numHandle ≤ hnd then none else handleTable.getD hnd.toNat none

def getClientHandleInfo (handleTable : List (Option HandleInfo)) : Option (ℤ × HandleInfo) :=
  match getHandleInfo handleTable 1 with
  | some info => some (1,info)
  | none => (getHandleInfo handleTable 2).map fun info => (2,info)

/-- What is written through the pointer that `GetHandleInfo` has stored. -/
def setHandleInfo (handleTable : List (Option HandleInfo)) (hnd : ℤ) (info : HandleInfo) :
    List (Option HandleInfo) := handleTable.set hnd.toNat (some info)

theorem getHandleInfo_some {handleTable : List (Option HandleInfo)} {hnd : ℤ} {info : HandleInfo}
    (h : getHandleInfo handleTable hnd = some info) :
    1 ≤ hnd ∧ hnd < numHandle ∧ handleTable[hnd.toNat]? = some (some info) := by
  unfold getHandleInfo at h
  split at h
  · cases h
  · rename_i hr
    rw [not_or,not_lt,not_le] at hr
    refine ⟨hr.1,hr.2,?_⟩
    rw [List.getD_eq_getElem?_getD] at h
    cases hg : handleTable[hnd.toNat]? with
    | none =>
      rw [hg] at h
      cases h
    | some entry =>
      rw [hg] at h
      rw [← h]
      rfl

theorem getHandleInfo_entry {handleTable : List (Option HandleInfo)} {hnd : ℤ} (h₀ : 1 ≤ hnd)
    (h₁ : hnd < numHandle) (hlt : hnd.toNat < handleTable.length) (entry : Option HandleInfo) :
    getHandleInfo (handleTable.set hnd.toNat entry) hnd = entry := by
  rw [getHandleInfo,if_neg (by omega),List.getD_eq_getElem?_getD,List.getElem?_set_self hlt]
  rfl

theorem getHandleInfo_entry_ne {handleTable : List (Option HandleInfo)} {hnd hnd' : ℤ}
    (hne : hnd ≠ hnd') (h : 1 ≤ hnd) (entry : Option HandleInfo) :
    getHandleInfo (handleTable.set hnd.toNat entry) hnd' = getHandleInfo handleTable hnd' := by
  unfold getHandleInfo
  split
  · rfl
  · rw [List.getD_eq_getElem?_getD,List.getD_eq_getElem?_getD,List.getElem?_set_ne (by omega)]

@[simp] theorem getHandleInfo_set {handleTable : List (Option HandleInfo)} {hnd : ℤ}
    {info : HandleInfo} (h : getHandleInfo handleTable hnd = some info) (info' : HandleInfo) :
    getHandleInfo (setHandleInfo handleTable hnd info') hnd = some info' := by
  rcases getHandleInfo_some h with ⟨h₁,h₂,hg⟩
  exact getHandleInfo_entry h₁ h₂ (List.getElem?_eq_some_iff.mp hg).1 (some info')

theorem getHandleInfo_set_ne {handleTable : List (Option HandleInfo)} {hnd hnd' : ℤ}
    (info : HandleInfo) (hne : hnd ≠ hnd') (h : 1 ≤ hnd) :
    getHandleInfo (setHandleInfo handleTable hnd info) hnd' = getHandleInfo handleTable hnd' :=
  getHandleInfo_entry_ne hne h (some info)

theorem getClientHandleInfo_some {handleTable : List (Option HandleInfo)} {hnd : ℤ}
    {info : HandleInfo} (h : getClientHandleInfo handleTable = some (hnd,info)) :
    getHandleInfo handleTable hnd = some info ∧
      (hnd = 1 ∨ hnd = 2 ∧ getHandleInfo handleTable 1 = none) := by
  unfold getClientHandleInfo at h
  split at h
  · rename_i h₁
    cases h
    exact ⟨h₁,.inl rfl⟩
  · rename_i h₁
    rcases Option.map_eq_some_iff.mp h with ⟨info',h₂,he⟩
    cases he
    exact ⟨h₂,.inr ⟨rfl,h₁⟩⟩

theorem getClientHandleInfo_set {handleTable : List (Option HandleInfo)} {hnd : ℤ}
    {info : HandleInfo} (h : getClientHandleInfo handleTable = some (hnd,info))
    (info' : HandleInfo) :
    getClientHandleInfo (setHandleInfo handleTable hnd info') = some (hnd,info') := by
  rcases getClientHandleInfo_some h with ⟨hg,rfl | ⟨rfl,h₁⟩⟩
  · rw [getClientHandleInfo,getHandleInfo_set hg]
  · rw [getClientHandleInfo,getHandleInfo_set hg,
      getHandleInfo_set_ne info' (by decide) (by decide),h₁]
    rfl

/-- A round of the timer thread: the event whose job is handed to the pool. -/
def dispatch (s : State) (currentTime : ℤ) : Option (TimerEvent TimerJob × State) :=
  match h : nextEvent s.gTimerThread currentTime with
  | none => none
  | some (event,rest) => some (event,{ s with gTimerThread := rest, valid := s.valid.next h })

theorem dispatch_some {s s' : State} {now : ℤ} {e : TimerEvent TimerJob}
    (h : dispatch s now = some (e,s')) :
    s.gTimerThread.eventQ = e::s'.gTimerThread.eventQ ∧ e.eventTime ≤ now ∧
      s'.gTimerThread.lastEventId = s.gTimerThread.lastEventId ∧
      s'.handleTable = s.handleTable ∧ s'.ids = s.ids := by
  unfold dispatch at h
  split at h
  · cases h
  · rename_i hn
    cases h
    rcases nextEvent_some hn with ⟨eventQ,hq,hle,rfl⟩
    exact ⟨hq,hle,rfl,rfl,rfl⟩

theorem dispatch_subs {s s' : State} {now : ℤ} {e : TimerEvent TimerJob}
    (h : dispatch s now = some (e,s')) : s'.subs = s.subs := by
  unfold dispatch at h
  split at h
  · cases h
  · cases h
    rfl

end Sdk
end CtrlPt
