import CtrlPt.Gena.Renewals

/-! Which subscription a pending renewal belongs to, and what the regions under the handle lock
keep of it. -/
namespace CtrlPt
namespace Subscriptions

open CText Http Memory Sdk Thread

/-- The argument of a job that renews a subscription. -/
def renewal : TimerJob → Option UpnpTimeout
  | .genaAutoRenewSubscription event => some event
  | .searchExpired _ => none

theorem subAt_set {subs : List (Option ClientSubscription)} {a b : ℕ}
    {sub sub' : ClientSubscription} {o : Option ClientSubscription}
    (h : subs.getD a none = some sub) :
    (subs.set a o).getD b none = some sub' ↔
      b = a ∧ o = some sub' ∨ b ≠ a ∧ subs.getD b none = some sub' := by
  rw [List.getD_eq_getElem?_getD] at h
  rw [List.getD_eq_getElem?_getD,List.getD_eq_getElem?_getD]
  by_cases hb : b = a
  · subst hb
    have hlt : b < subs.length := by
      by_contra hn
      rw [List.getElem?_eq_none (not_lt.mp hn)] at h
      cases h
    rw [List.getElem?_set_self hlt]
    simp
  · rw [List.getElem?_set_ne (Ne.symm hb)]
    simp [hb]

/-- The subscriptions in `list` and the renewals that are pending. Every renewal is one of a
subscription in the list, which knows its event; every subscription whose lease ends has its event,
or its SID is `covered`. -/
structure Linked (list : List ℕ) (subs : List (Option ClientSubscription))
    (timer : TimerThread TimerJob) (granted : ℕ → ℤ) (covered : List UInt8 → Prop) : Prop where
  nodup : list.Nodup
  member : ∀ a ∈ list, ∃ sub, subs.getD a none = some sub ∧ sub.sid.length < upnpSidSize ∧
    sub.renewEventId < timer.lastEventId
  apart : ∀ a ∈ list, ∀ b ∈ list, a ≠ b → ∀ sub sub', subs.getD a none = some sub →
    subs.getD b none = some sub' →
      sub.sid ≠ sub'.sid ∧ (sub.renewEventId = sub'.renewEventId → sub.renewEventId = -1)
  pending : ∀ e ∈ timer.eventQ, ∀ event, renewal e.job = some event → event.handle = 1 ∧
    ∃ a ∈ list, ∃ sub, subs.getD a none = some sub ∧ sub.sid = event.sid ∧
      sub.renewEventId = e.id
  due : ∀ a ∈ list, ∀ sub, subs.getD a none = some sub → granted a = upnpInfinite ∨
    covered sub.sid ∨ ∃ e ∈ timer.eventQ, ∃ event, renewal e.job = some event ∧
      event.sid = sub.sid ∧ e.id = sub.renewEventId

section

variable {list : List ℕ} {subs : List (Option ClientSubscription)}
  {timer timer' : TimerThread TimerJob} {granted granted' : ℕ → ℤ}
  {covered covered' : List UInt8 → Prop}

theorem Linked.empty (subs : List (Option ClientSubscription)) (granted : ℕ → ℤ)
    (covered : List UInt8 → Prop)
    (h : ∀ e ∈ timer.eventQ, ∀ event, renewal e.job ≠ some event) :
    Linked [] subs timer granted covered where
  nodup := List.nodup_nil
  member := by rintro a ⟨⟩
  apart := by rintro a ⟨⟩
  pending := fun e he event hjob => absurd hjob (h e he event)
  due := by rintro a ⟨⟩

theorem Linked.sid_inj (h : Linked list subs timer granted covered) {a b : ℕ} (ha : a ∈ list)
    (hb : b ∈ list) {sub sub' : ClientSubscription} (hs : subs.getD a none = some sub)
    (hs' : subs.getD b none = some sub') (he : sub.sid = sub'.sid) : a = b := by
  by_contra hne
  exact (h.apart a ha b hb hne sub sub' hs hs').1 he

/-- The list stays as it is. A renewal may go when another call stands for it or its lease does not
end. -/
theorem Linked.events (h : Linked list subs timer granted covered)
    (hcount : timer.lastEventId ≤ timer'.lastEventId)
    (hsub : ∀ e ∈ timer'.eventQ, ∀ event, renewal e.job = some event → e ∈ timer.eventQ)
    (hkeep : ∀ e ∈ timer.eventQ, ∀ event, renewal e.job = some event → e ∈ timer'.eventQ ∨
      ∀ a ∈ list, ∀ sub, subs.getD a none = some sub → sub.sid = event.sid →
        granted a = upnpInfinite ∨ covered' event.sid)
    (hcov : ∀ a ∈ list, ∀ sub, subs.getD a none = some sub → covered sub.sid → covered' sub.sid) :
    Linked list subs timer' granted covered' where
  nodup := h.nodup
  member := by
    intro a ha
    rcases h.member a ha with ⟨sub,hs,hlen,hlt⟩
    exact ⟨sub,hs,hlen,lt_of_lt_of_le hlt hcount⟩
  apart := h.apart
  pending := fun e he event hjob => h.pending e (hsub e he event hjob) event hjob
  due := by
    intro a ha sub hs
    rcases h.due a ha sub hs with hinf | hc | ⟨e,he,event,hjob,hsid,hid⟩
    · exact .inl hinf
    · exact .inr (.inl (hcov a ha sub hs hc))
    · rcases hkeep e he event hjob with he | hgone
      · exact .inr (.inr ⟨e,he,event,hjob,hsid,hid⟩)
      · rw [← hsid]
        rcases hgone a ha sub hs hsid.symm with hinf | hc
        · exact .inl hinf
        · exact .inr (.inl hc)

/-- Another call may stand for a subscription, or its lease does not end. -/
theorem Linked.mono (h : Linked list subs timer granted covered)
    (hgrant : ∀ a ∈ list, granted' a = granted a ∨ granted' a = upnpInfinite)
    (hcov : ∀ a ∈ list, ∀ sub, subs.getD a none = some sub → covered sub.sid →
      granted' a = upnpInfinite ∨ covered' sub.sid) :
    Linked list subs timer granted' covered' where
  nodup := h.nodup
  member := h.member
  apart := h.apart
  pending := h.pending
  due := by
    intro a ha sub hs
    rcases hgrant a ha with hsame | hinf
    · rw [hsame]
      rcases h.due a ha sub hs with hinf | hc | hpending
      · exact .inl hinf
      · rw [← hsame]
        rcases hcov a ha sub hs hc with hinf | hc
        · exact .inl hinf
        · exact .inr (.inl hc)
      · exact .inr (.inr hpending)
    · exact .inl hinf

/-- One subscription gets another event, or none, and the others keep theirs. -/
theorem Linked.update (h : Linked list subs timer granted covered) (hv : timer.Valid) {a : ℕ}
    {sub sub' : ClientSubscription} (ha : a ∈ list) (hs : subs.getD a none = some sub)
    (hsid : sub'.sid = sub.sid) (hcount : timer.lastEventId ≤ timer'.lastEventId)
    (hlt : sub'.renewEventId < timer'.lastEventId)
    (hnew : sub'.renewEventId = sub.renewEventId ∨ sub'.renewEventId = -1 ∨
      timer.lastEventId ≤ sub'.renewEventId)
    (hsub : ∀ e ∈ timer'.eventQ, ∀ event, renewal e.job = some event →
      e ∈ timer.eventQ ∧ (e.id = sub.renewEventId → sub'.renewEventId = sub.renewEventId) ∨
        event.handle = 1 ∧ event.sid = sub.sid ∧ e.id = sub'.renewEventId)
    (hkeep : ∀ e ∈ timer.eventQ, e.id ≠ sub.renewEventId → e ∈ timer'.eventQ)
    (hdue : granted' a = upnpInfinite ∨ covered' sub.sid ∨ ∃ e ∈ timer'.eventQ, ∃ event,
      renewal e.job = some event ∧ event.sid = sub.sid ∧ e.id = sub'.renewEventId)
    (hrest : ∀ b, b ≠ a → granted' b = granted b)
    (hcov : ∀ sid, sid ≠ sub.sid → covered sid → covered' sid) :
    Linked list (subs.set a (some sub')) timer' granted' covered' where
  nodup := h.nodup
  member := by
    intro b hb
    by_cases hba : b = a
    · subst hba
      rcases h.member b hb with ⟨sub₁,hs₁,hlen,-⟩
      cases hs.symm.trans hs₁
      exact ⟨sub',(subAt_set hs).mpr (.inl ⟨rfl,rfl⟩),hsid ▸ hlen,hlt⟩
    · rcases h.member b hb with ⟨sub₁,hs₁,hlen,hlt₁⟩
      exact ⟨sub₁,(subAt_set hs).mpr (.inr ⟨hba,hs₁⟩),hlen,lt_of_lt_of_le hlt₁ hcount⟩
  apart := by
    -- the new event of `sub'` is of no other subscription
    have hother : ∀ b ∈ list, b ≠ a → ∀ sub₁, subs.getD b none = some sub₁ →
        sub₁.sid ≠ sub'.sid ∧ (sub₁.renewEventId = sub'.renewEventId → sub'.renewEventId = -1) := by
      intro b hb hba sub₁ hs₁
      rcases h.apart b hb a ha hba sub₁ sub hs₁ hs with ⟨hne,hid⟩
      refine ⟨hsid ▸ hne,fun he => ?_⟩
      rcases hnew with hsame | hnone | hle
      · rw [← he]
        exact hid (he.trans hsame)
      · exact hnone
      · rcases h.member b hb with ⟨sub₂,hs₂,-,hlt₂⟩
        cases hs₁.symm.trans hs₂
        omega
    intro b hb c hc hne sub₁ sub₂ hs₁ hs₂
    rcases (subAt_set hs).mp hs₁ with ⟨rfl,he₁⟩ | ⟨hba,hold₁⟩
    · rcases (subAt_set hs).mp hs₂ with ⟨rfl,-⟩ | ⟨hca,hold₂⟩
      · exact absurd rfl hne
      · cases he₁
        have ho := hother c hc hca sub₂ hold₂
        exact ⟨ho.1.symm,fun he => ho.2 he.symm⟩
    · rcases (subAt_set hs).mp hs₂ with ⟨rfl,he₂⟩ | ⟨hca,hold₂⟩
      · cases he₂
        have ho := hother b hb hba sub₁ hold₁
        exact ⟨ho.1,fun he => he.trans (ho.2 he)⟩
      · exact h.apart b hb c hc hne sub₁ sub₂ hold₁ hold₂
  pending := by
    intro e he event hjob
    rcases hsub e he event hjob with ⟨he,hid⟩ | ⟨hhnd,hes,hid⟩
    · rcases h.pending e he event hjob with ⟨hhnd,b,hb,sub₁,hs₁,hes,hid₁⟩
      refine ⟨hhnd,b,hb,?_⟩
      by_cases hba : b = a
      · subst hba
        cases hs.symm.trans hs₁
        refine ⟨sub',(subAt_set hs).mpr (.inl ⟨rfl,rfl⟩),hsid.trans hes,?_⟩
        exact (hid hid₁.symm).trans hid₁
      · exact ⟨sub₁,(subAt_set hs).mpr (.inr ⟨hba,hs₁⟩),hes,hid₁⟩
    · exact ⟨hhnd,a,ha,sub',(subAt_set hs).mpr (.inl ⟨rfl,rfl⟩),hsid.trans hes.symm,hid.symm⟩
  due := by
    intro b hb sub₁ hs₁
    rcases (subAt_set hs).mp hs₁ with ⟨rfl,he₁⟩ | ⟨hba,hs₁⟩
    · cases he₁
      rw [hsid]
      exact hdue
    · rcases h.apart b hb a ha hba sub₁ sub hs₁ hs with ⟨hne,hid⟩
      rw [hrest b hba]
      rcases h.due b hb sub₁ hs₁ with hinf | hc | ⟨e,he,event,hjob,hes,hei⟩
      · exact .inl hinf
      · exact .inr (.inl (hcov _ hne hc))
      · refine .inr (.inr ⟨e,hkeep e he fun hee => ?_,event,hjob,hes,hei⟩)
        have hnone := hid (hei.symm.trans hee)
        have hle := (hv.stamped e he).1
        omega

/-- A lease is granted, and until it has an event another call stands for the subscription. -/
theorem Linked.grant (h : Linked list subs timer granted covered) (hv : timer.Valid) {a : ℕ}
    {sub : ClientSubscription} (ha : a ∈ list) (hs : subs.getD a none = some sub)
    (actualSid : List UInt8) (timeOut : ℤ)
    (hcov : ∀ sid, sid ≠ sub.sid → covered sid → covered' sid) (hdue : covered' sub.sid) :
    Linked list (subs.set a (some { sub with actualSid := actualSid })) timer
      (Function.update granted a timeOut) covered' := by
  rcases h.member a ha with ⟨sub',hs',-,hlt⟩
  cases hs.symm.trans hs'
  exact h.update hv ha hs rfl le_rfl hlt (.inl rfl) (fun e he _ _ => .inl ⟨he,fun _ => rfl⟩)
    (fun e he _ => he) (.inr (.inl hdue)) (fun b hb => Function.update_of_ne hb _ _) hcov

/-- A subscription leaves the list, and its event goes. -/
theorem Linked.drop {a : ℕ} {pre post : List ℕ} {sub : ClientSubscription}
    (h : Linked (pre++a::post) subs timer granted covered) (hv : timer.Valid)
    (hs : subs.getD a none = some sub) (hcount : timer.lastEventId ≤ timer'.lastEventId)
    (hsub : ∀ e ∈ timer'.eventQ, e ∈ timer.eventQ ∧ e.id ≠ sub.renewEventId)
    (hkeep : ∀ e ∈ timer.eventQ, e.id ≠ sub.renewEventId → e ∈ timer'.eventQ)
    (hcov : ∀ sid, sid ≠ sub.sid → covered sid → covered' sid) :
    Linked (pre++post) (subs.set a none) timer' granted covered' := by
  have hperm : (pre++a::post).Perm (a::(pre++post)) := List.perm_middle
  have hnodup := hperm.nodup_iff.mp h.nodup
  rw [List.nodup_cons] at hnodup
  have ha : a ∈ pre++a::post := hperm.mem_iff.mpr (.head _)
  have hmem : ∀ b ∈ pre++post, b ∈ pre++a::post ∧ b ≠ a := by
    intro b hb
    refine ⟨hperm.mem_iff.mpr (.tail _ hb),?_⟩
    rintro rfl
    exact hnodup.1 hb
  have hat : ∀ b ∈ pre++post, ∀ sub', (subs.set a none).getD b none = some sub' ↔
      subs.getD b none = some sub' := by
    intro b hb sub'
    refine (subAt_set hs).trans ⟨?_,fun hs' => .inr ⟨(hmem b hb).2,hs'⟩⟩
    rintro (⟨-,⟨⟩⟩ | ⟨-,hs'⟩)
    exact hs'
  refine ⟨hnodup.2,?_,?_,?_,?_⟩
  · intro b hb
    rcases h.member b (hmem b hb).1 with ⟨sub',hs',hlen,hlt⟩
    exact ⟨sub',(hat b hb sub').mpr hs',hlen,lt_of_lt_of_le hlt hcount⟩
  · intro b hb c hc hne sub₁ sub₂ hs₁ hs₂
    exact h.apart b (hmem b hb).1 c (hmem c hc).1 hne sub₁ sub₂ ((hat b hb sub₁).mp hs₁)
      ((hat c hc sub₂).mp hs₂)
  · intro e he event hjob
    rcases hsub e he with ⟨he,hne⟩
    rcases h.pending e he event hjob with ⟨hhnd,b,hb,sub',hs',hes,hid⟩
    refine ⟨hhnd,b,?_⟩
    rcases List.mem_cons.mp (hperm.mem_iff.mp hb) with rfl | hb
    · cases hs.symm.trans hs'
      exact absurd hid.symm hne
    · exact ⟨hb,sub',(hat b hb sub').mpr hs',hes,hid⟩
  · intro b hb sub' hs'
    have hs' := (hat b hb sub').mp hs'
    rcases h.apart b (hmem b hb).1 a ha (hmem b hb).2 sub' sub hs' hs with ⟨hne,hid⟩
    rcases h.due b (hmem b hb).1 sub' hs' with hinf | hc | ⟨e,he,event,hjob,hes,hei⟩
    · exact .inl hinf
    · exact .inr (.inl (hcov _ hne hc))
    · refine .inr (.inr ⟨e,hkeep e he fun hee => ?_,event,hjob,hes,hei⟩)
      have hnone := hid (hei.symm.trans hee)
      have hle := (hv.stamped e he).1
      omega

theorem Linked.allocated (h : Linked list subs timer granted covered) :
    ∀ a ∈ list, a < subs.length := by
  intro a ha
  rcases h.member a ha with ⟨sub,hs,-⟩
  by_contra hle
  rw [List.getD_eq_getElem?_getD,List.getElem?_eq_none (not_lt.mp hle)] at hs
  cases hs

theorem Linked.link (h : Linked list subs timer granted covered) (hv : timer.Valid)
    {sub : ClientSubscription} (hlen : sub.sid.length < upnpSidSize) (hid : sub.renewEventId = -1)
    (hnew : ∀ a ∈ list, ∀ sub', subs.getD a none = some sub' → sub'.sid ≠ sub.sid)
    (hgrant : ∀ a ∈ list, granted' a = granted a) (hcov : ∀ sid, covered sid → covered' sid)
    (hdue : covered' sub.sid) :
    Linked (subs.length::list) (subs++[some sub]) timer granted' covered' := by
  have hold := h.allocated
  have hat : ∀ a ∈ list, (subs++[some sub]).getD a none = subs.getD a none := by
    intro a ha
    rw [List.getD_eq_getElem?_getD,List.getElem?_append_left (hold a ha),
      List.getD_eq_getElem?_getD]
  have hlast : (subs++[some sub]).getD subs.length none = some sub := by
    rw [List.getD_eq_getElem?_getD,List.getElem?_append_right le_rfl,Nat.sub_self]
    rfl
  have hcounted := hv.counted
  refine ⟨List.nodup_cons.mpr ⟨fun hm => lt_irrefl _ (hold _ hm),h.nodup⟩,?_,?_,?_,?_⟩
  · intro a ha
    rcases List.mem_cons.mp ha with rfl | ha
    · exact ⟨sub,hlast,hlen,by omega⟩
    · rw [hat a ha]
      exact h.member a ha
  · intro a ha b hb hne sub₁ sub₂ hs₁ hs₂
    rcases List.mem_cons.mp ha with rfl | ha
    · rcases List.mem_cons.mp hb with rfl | hb
      · exact absurd rfl hne
      · cases hlast.symm.trans hs₁
        rw [hat b hb] at hs₂
        exact ⟨(hnew b hb sub₂ hs₂).symm,fun _ => hid⟩
    · rw [hat a ha] at hs₁
      rcases List.mem_cons.mp hb with rfl | hb
      · cases hlast.symm.trans hs₂
        exact ⟨hnew a ha sub₁ hs₁,fun he => he.trans hid⟩
      · rw [hat b hb] at hs₂
        exact h.apart a ha b hb hne sub₁ sub₂ hs₁ hs₂
  · intro e he event hjob
    rcases h.pending e he event hjob with ⟨hhnd,a,ha,sub',hs',hes,hei⟩
    exact ⟨hhnd,a,.tail _ ha,sub',(hat a ha).trans hs',hes,hei⟩
  · intro a ha sub' hs'
    rcases List.mem_cons.mp ha with rfl | ha
    · cases hlast.symm.trans hs'
      exact .inr (.inl hdue)
    · rw [hat a ha] at hs'
      rw [hgrant a ha]
      rcases h.due a ha sub' hs' with hinf | hc | hpending
      · exact .inl hinf
      · exact .inr (.inl (hcov _ hc))
      · exact .inr (.inr hpending)

end

theorem readSub_ok {subs : List (Option ClientSubscription)} {a : ℕ} {sub : ClientSubscription}
    (h : readSub subs a = .ok sub) : subs.getD a none = some sub := by
  unfold readSub at h
  cases hs : subs.getD a none with
  | none =>
    rw [hs] at h
    cases h
  | some sub' =>
    rw [hs] at h
    cases h
    rfl

theorem getClientSubClientSid_some {subs : List (Option ClientSubscription)} {sid : List UInt8}
    {list : List ℕ} {a : ℕ} (h : getClientSubClientSid subs sid list = .ok (some a)) :
    a ∈ list ∧ ∃ sub, subs.getD a none = some sub ∧ sub.sid = sid := by
  induction list with
  | nil => cases h
  | cons b list ih =>
    rcases Rounds.of_bind_ok h with ⟨sub,hsub,h⟩
    split at h
    · rename_i hsid
      cases h
      exact ⟨.head _,sub,readSub_ok hsub,hsid⟩
    · rcases ih h with ⟨ha,hs⟩
      exact ⟨.tail _ ha,hs⟩

theorem getClientSubClientSid_none {subs : List (Option ClientSubscription)} {sid : List UInt8}
    {list : List ℕ} (h : getClientSubClientSid subs sid list = .ok none) :
    ∀ a ∈ list, ∀ sub, subs.getD a none = some sub → sub.sid ≠ sid := by
  induction list with
  | nil => rintro a ⟨⟩
  | cons b list ih =>
    rcases Rounds.of_bind_ok h with ⟨sub,hsub,h⟩
    split at h
    · cases h
    · rename_i hsid
      intro a ha sub' hs'
      rcases List.mem_cons.mp ha with rfl | ha
      · cases (readSub_ok hsub).symm.trans hs'
        exact hsid
      · exact ih h a ha sub' hs'

theorem mem_removeEvent {s : State} {id : ℤ} {e : TimerEvent TimerJob} :
    e ∈ (removeEvent s id).gTimerThread.eventQ ↔ e ∈ s.gTimerThread.eventQ ∧ e.id ≠ id := by
  unfold removeEvent timerThreadRemove
  dsimp only
  split
  · rename_i ht
    rcases EventQueue.take_some ht with ⟨hid,hperm,hsub⟩
    refine ⟨fun he => ⟨hsub.subset he,EventQueue.take_gone s.valid.distinct ht e he⟩,?_⟩
    rintro ⟨he,hne⟩
    rcases List.mem_cons.mp (hperm.mem_iff.mp he) with rfl | he
    · exact absurd hid hne
    · exact he
  · rename_i ht
    exact ⟨fun he => ⟨he,EventQueue.take_none.mp ht e he⟩,fun h => h.1⟩

theorem freeSubscription_spec (s : State) (a : ℕ) (sub : ClientSubscription) :
    (freeSubscription s a sub).handleTable = s.handleTable ∧
      (freeSubscription s a sub).subs = s.subs.set a none ∧
      ∀ e, e ∈ (freeSubscription s a sub).gTimerThread.eventQ ↔
        e ∈ s.gTimerThread.eventQ ∧ e.id ≠ sub.renewEventId := by
  unfold freeSubscription
  dsimp only
  split
  · exact ⟨rfl,rfl,fun e => mem_removeEvent⟩
  · rename_i hid
    rw [not_not] at hid
    refine ⟨rfl,rfl,fun e => ⟨fun he => ⟨he,?_⟩,fun h => h.1⟩⟩
    have hle := (s.valid.stamped e he).1
    omega

theorem removeClientSubClientSid_ok {s : State} {sid : List UInt8} {list : List ℕ}
    {r : List ℕ × State} (h : removeClientSubClientSid s sid list = .ok r) :
    r = (list,s) ∧ (∀ a ∈ list, ∀ sub, s.subs.getD a none = some sub → sub.sid ≠ sid) ∨
      ∃ pre a post sub, list = pre++a::post ∧ s.subs.getD a none = some sub ∧ sub.sid = sid ∧
        r = (pre++post,freeSubscription s a sub) := by
  induction list generalizing r with
  | nil =>
    cases h
    exact .inl ⟨rfl,by rintro a ⟨⟩⟩
  | cons b list ih =>
    rcases Rounds.of_bind_ok h with ⟨sub,hsub,h⟩
    have hs := readSub_ok hsub
    split at h
    · rename_i hsid
      cases h
      exact .inr ⟨[],b,list,sub,rfl,hs,hsid,rfl⟩
    · rename_i hsid
      rcases Rounds.of_bind_ok h with ⟨r',hr',h⟩
      cases h
      rcases ih hr' with ⟨rfl,hnone⟩ | ⟨pre,a,post,sub',rfl,hs',hsid',rfl⟩
      · refine .inl ⟨rfl,fun a ha sub' hs' => ?_⟩
        rcases List.mem_cons.mp ha with rfl | ha
        · cases hs.symm.trans hs'
          exact hsid
        · exact hnone a ha sub' hs'
      · exact .inr ⟨b::pre,a,post,sub',rfl,hs',hsid',rfl⟩

theorem Linked.scheduled {list : List ℕ} {s : State} {granted : ℕ → ℤ}
    {covered covered' : List UInt8 → Prop} {a : ℕ} {sub : ClientSubscription} {timeOut : ℤ}
    {env : RenewEnv} {r : RenewResult} (h : Linked list s.subs s.gTimerThread granted covered)
    (ha : a ∈ list) (hs : s.subs.getD a none = some sub) (hgrant : granted a = timeOut)
    (hok : RenewalScheduled timeOut env)
    (hnone : timeOut ≠ upnpInfinite → ∀ e ∈ s.gTimerThread.eventQ, e.id ≠ sub.renewEventId)
    (hcov : ∀ sid, sid ≠ sub.sid → covered sid → covered' sid)
    (hr : scheduleGenaAutoRenew s 1 timeOut a env = .ok r) :
    r.ret = upnpESuccess ∧ r.state.handleTable = s.handleTable ∧
      Linked list r.state.subs r.state.gTimerThread granted covered' := by
  unfold scheduleGenaAutoRenew at hr
  rw [readSub,hs] at hr
  simp only [Option.elim_some,bind,Except.bind] at hr
  by_cases hinf : timeOut = upnpInfinite
  · rw [if_pos hinf] at hr
    cases hr
    refine ⟨rfl,rfl,h.mono (fun _ _ => .inl rfl) fun b hb sub' hs' hc => ?_⟩
    by_cases hsid : sub'.sid = sub.sid
    · rw [h.sid_inj hb ha hs' hs hsid]
      exact .inl (hgrant.trans hinf)
    · exact .inr (hcov _ hsid hc)
  rw [if_neg hinf] at hr
  rcases hok.resolve_left hinf with ⟨hstruct,hevent,halloc⟩
  rw [if_neg (by rw [hstruct,hevent]; decide)] at hr
  have hsched := timerThreadSchedule_ok s.gTimerThread env.now (renewDelay timeOut) .relSec
    (.genaAutoRenewSubscription (renewEvent 1 timeOut sub)) .shortTerm halloc
  have hrc : ¬(timerThreadSchedule s.gTimerThread env.now (renewDelay timeOut) .relSec
      (.genaAutoRenewSubscription (renewEvent 1 timeOut sub)) .shortTerm env.timer).rc ≠ 0 := by
    rw [hsched]
    exact not_not.mpr rfl
  rw [if_neg hrc] at hr
  cases hr
  refine ⟨rfl,rfl,?_⟩
  dsimp only
  rw [hsched]
  rcases h.member a ha with ⟨sub₁,hs₁,hlen,-⟩
  cases hs.symm.trans hs₁
  have hsid : sub.sid.take (upnpSidSize-1) = sub.sid := List.take_of_length_le (by omega)
  refine h.update s.valid ha hs rfl (Int.le_add_one le_rfl) (Int.lt_succ _) (.inr (.inr le_rfl)) ?_
    (fun e he _ => EventQueue.mem_insert.mpr (.inr he)) ?_ (fun _ _ => rfl) hcov
  · intro e he event hjob
    rcases EventQueue.mem_insert.mp he with rfl | he
    · cases hjob
      exact .inr ⟨rfl,hsid,rfl⟩
    · exact .inl ⟨he,fun hid => absurd hid (hnone hinf e he)⟩
  · exact .inr (.inr ⟨_,EventQueue.mem_insert.mpr (.inl rfl),_,rfl,hsid,rfl⟩)

end Subscriptions
end CtrlPt
