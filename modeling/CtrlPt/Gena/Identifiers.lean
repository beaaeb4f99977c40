import CtrlPt.Gena.Bijection
import CtrlPt.Uuid.Uuid

/-! The SIDs of the subscriptions are the identifiers that `uuid_create` makes. With them no two
subscriptions share a SID, and that a SID is new needs no condition of its own. -/
namespace CtrlPt
namespace Subscriptions

open CText Http Memory Sdk Thread Transition Uuid

/-- The subscription at an address has the SID. -/
def SidAt (s : State) (a : ℕ) (sid : List UInt8) : Prop :=
  ∃ sub, s.subs.getD a none = some sub ∧ sub.sid = sid

/-- No SID is new. -/
def KeepsSids (s s' : State) : Prop := ∀ a sid, SidAt s' a sid → SidAt s a sid

section

variable {s s' t : State} {hnd : ℤ} {inSid : List UInt8} {info : HandleInfo}

theorem KeepsSids.refl (s : State) : KeepsSids s s := fun _ _ h => h

theorem KeepsSids.trans (h : KeepsSids s t) (h' : KeepsSids t s') : KeepsSids s s' :=
  fun a sid hs => h a sid (h' a sid hs)

theorem KeepsSids.same (h : s'.subs = s.subs) : KeepsSids s s' := by
  intro a sid hs
  rwa [SidAt,h] at hs

theorem KeepsSids.free (a : ℕ) (h : s'.subs = s.subs.set a none) : KeepsSids s s' := by
  rintro b sid ⟨sub,hs,rfl⟩
  refine ⟨sub,?_,rfl⟩
  rw [h,List.getD_eq_getElem?_getD,List.getElem?_set] at hs
  rw [List.getD_eq_getElem?_getD]
  split at hs
  · split at hs <;> cases hs
  · exact hs

theorem KeepsSids.write {a : ℕ} {sub sub' : ClientSubscription} (hs : s.subs.getD a none = some sub)
    (h : s'.subs = s.subs.set a (some sub')) (hsid : sub'.sid = sub.sid) : KeepsSids s s' := by
  rintro b sid ⟨sub₁,hs₁,rfl⟩
  rw [h] at hs₁
  rcases (subAt_set hs).mp hs₁ with ⟨rfl,he⟩ | ⟨-,hs₁⟩
  · cases he
    exact ⟨sub,hs,hsid.symm⟩
  · exact ⟨sub₁,hs₁,rfl⟩

theorem KeepsSids.removeSubscription (h : removeSubscription s hnd info inSid = .ok s') :
    KeepsSids s s' := by
  rcases Rounds.of_bind_ok h with ⟨r,hr,h⟩
  cases h
  rcases removeClientSubClientSid_ok hr with ⟨rfl,-⟩ | ⟨pre,a,post,sub,-,-,-,rfl⟩
  · exact KeepsSids.same rfl
  · exact KeepsSids.free a (freeSubscription_spec s a sub).2.1

theorem KeepsSids.beginRenew {r : Except ℤ ClientSubscription × State}
    (h : beginRenew s hnd inSid = .ok r) : KeepsSids s r.2 := by
  unfold Subscriptions.beginRenew at h
  split at h
  · cases h
    exact KeepsSids.refl s
  · rcases Rounds.of_bind_ok h with ⟨o,-,h⟩
    cases o with
    | none =>
      cases h
      exact KeepsSids.refl s
    | some a =>
      rcases Rounds.of_bind_ok h with ⟨sub,hsub,h⟩
      cases h
      exact KeepsSids.write (readSub_ok hsub) rfl rfl

theorem KeepsSids.schedule {timeOut : ℤ} {a : ℕ} {env : RenewEnv} {r : RenewResult}
    (h : scheduleGenaAutoRenew s hnd timeOut a env = .ok r) : KeepsSids s r.state := by
  rcases Rounds.of_bind_ok h with ⟨sub,hsub,h⟩
  by_cases hinf : timeOut = upnpInfinite
  · rw [if_pos hinf] at h
    cases h
    exact KeepsSids.refl s
  rw [if_neg hinf] at h
  by_cases halloc : env.eventStruct = false ∨ env.event = false
  · rw [if_pos halloc] at h
    cases h
    exact KeepsSids.refl s
  rw [if_neg halloc] at h
  dsimp only at h
  split at h
  · cases h
    exact KeepsSids.same rfl
  · cases h
    exact KeepsSids.write (readSub_ok hsub) rfl rfl

theorem KeepsSids.finishRenew {answer : GenaAnswer} {env : RenewEnv} {r : RenewResult}
    (h : finishRenew s hnd inSid answer env = .ok r) : KeepsSids s r.state := by
  unfold Subscriptions.finishRenew at h
  split at h
  · cases h
    exact KeepsSids.refl s
  split at h
  · rcases Rounds.of_bind_ok h with ⟨s₁,hs₁,h⟩
    cases h
    exact KeepsSids.removeSubscription hs₁
  rcases Rounds.of_bind_ok h with ⟨o,-,h⟩
  cases o with
  | none =>
    cases h
    exact KeepsSids.refl s
  | some a =>
    rcases Rounds.of_bind_ok h with ⟨sub,hsub,h⟩
    rcases Rounds.of_bind_ok h with ⟨scheduled,hsched,h⟩
    have hwrite : KeepsSids s { s with
        subs := s.subs.set a (some { sub with actualSid := answer.sid }) } :=
      KeepsSids.write (readSub_ok hsub) rfl rfl
    have hstep := hwrite.trans (KeepsSids.schedule hsched)
    split at h
    · rcases Rounds.of_bind_ok h with ⟨s₂,hs₂,h⟩
      cases h
      exact hstep.trans (KeepsSids.removeSubscription hs₂)
    · cases h
      exact hstep

theorem KeepsSids.unregisterRound {r : UnregisterRound × State}
    (h : unregisterRound s hnd = .ok r) : KeepsSids s r.2 := by
  unfold Subscriptions.unregisterRound at h
  split at h
  · cases h
    exact KeepsSids.refl s
  split at h
  · cases h
    exact KeepsSids.refl s
  · rcases Rounds.of_bind_ok h with ⟨sub,-,h⟩
    rcases Rounds.of_bind_ok h with ⟨s₁,hs₁,h⟩
    cases h
    exact KeepsSids.removeSubscription hs₁

/-- The subscription that is linked has the new SID, and an address that was free. -/
theorem finishSubscribe_sids {publisherUrl : List UInt8} {answer : GenaAnswer} {env : SubscribeEnv}
    {r : SubscribeResult} (h : finishSubscribe s hnd publisherUrl answer env = .ok r) :
    ∀ a sid, SidAt r.state a sid → SidAt s a sid ∨
      a = s.subs.length ∧ sid = cstr "uuid:"++env.tempSid ∧ answer.ret = upnpESuccess ∧
        (getHandleInfo s.handleTable hnd).isSome = true := by
  unfold Subscriptions.finishSubscribe at h
  split at h
  · cases h
    exact fun _ _ hs => .inl hs
  rename_i hret
  split at h
  · cases h
    exact fun _ _ hs => .inl hs
  rename_i info hinfo
  dsimp only at h
  split at h
  · cases h
    exact fun _ _ hs => .inl hs
  rcases Rounds.of_bind_ok h with ⟨scheduled,hsched,h⟩
  have hlink : ∀ a sid, SidAt scheduled.state a sid → SidAt s a sid ∨
      a = s.subs.length ∧ sid = cstr "uuid:"++env.tempSid := by
    intro a sid hs
    rcases KeepsSids.schedule hsched a sid hs with ⟨sub,hsub,hsid⟩
    rw [linkSubscription,List.getD_eq_getElem?_getD] at hsub
    rcases Nat.lt_trichotomy a s.subs.length with hlt | rfl | hgt
    · rw [List.getElem?_append_left hlt,← List.getD_eq_getElem?_getD] at hsub
      exact .inl ⟨sub,hsub,hsid⟩
    · rw [List.getElem?_append_right le_rfl,Nat.sub_self] at hsub
      cases hsub
      exact .inr ⟨rfl,hsid.symm⟩
    · rw [List.getElem?_eq_none (by simp; omega)] at hsub
      cases hsub
  have hdone : ∀ a sid, SidAt scheduled.state a sid → SidAt s a sid ∨
      a = s.subs.length ∧ sid = cstr "uuid:"++env.tempSid ∧ answer.ret = upnpESuccess ∧
        (getHandleInfo s.handleTable hnd).isSome = true := by
    intro a sid hs
    refine (hlink a sid hs).imp_right fun hnew => ⟨hnew.1,hnew.2,not_not.mp hret,?_⟩
    rw [hinfo]
    rfl
  split at h
  · cases h
    intro a sid hs
    exact hdone a sid (KeepsSids.free s.subs.length rfl a sid hs)
  · cases h
    exact hdone

end

theorem KeepsSids.step {sys : Setup} {x y : System} {e : Event}
    (he : ∀ i env, e ≠ .subscribed i env) (h : step sys x e = some y) : KeepsSids x.sdk y.sdk := by
  have hrecord : ∀ (z : System) (timeOut : ℤ) (auto : Option ℤ) (call : Option TimerCall),
      (z.record timeOut auto call).sdk = z.sdk := by
    rintro z timeOut auto (_ | c) <;> rfl
  have hrenew : ∀ (z : System) (hnd : ℤ) (inSid : List UInt8) (timeOut : ℤ) (auto : Option ℤ),
      stepRenew z hnd inSid timeOut auto = some y → KeepsSids z.sdk y.sdk := by
    intro z hnd inSid timeOut auto hz
    rcases Option.map_eq_some_iff.mp hz with ⟨r,hr,rfl⟩
    have hr := KeepsSids.beginRenew (toOption_some hr)
    split <;> exact hr
  have hunregister : ∀ (z : System) (hnd : ℤ), stepUnregister z hnd = some y →
      KeepsSids z.sdk y.sdk := by
    intro z hnd hz
    rcases Option.map_eq_some_iff.mp hz with ⟨r,hr,rfl⟩
    have hr := KeepsSids.unregisterRound (toOption_some hr)
    split
    · exact hr
    · split <;> exact hr
  cases e with
  | tick now =>
    simp only [Subscriptions.step] at h
    split at h
    · cases h
      exact KeepsSids.refl _
    · cases h
  | register callback cookie =>
    cases h
    unfold stepRegister
    split
    · exact KeepsSids.refl _
    · split <;> exact KeepsSids.same rfl
  | subscribe hnd publisherUrl timeOut =>
    simp only [Subscriptions.step] at h
    split at h <;> cases h <;> exact KeepsSids.refl _
  | subscribed i env => exact absurd rfl (he i env)
  | renew hnd inSid timeOut => exact hrenew x hnd inSid timeOut none h
  | renewed i reply env =>
    rcases Option.bind_eq_some_iff.mp h with ⟨call,-,h⟩
    cases call with
    | renewing hnd inSid timeOut copy auto =>
      rcases Rounds.of_bind_ok (toOption_some h) with ⟨answer,-,h⟩
      cases hr : Subscriptions.finishRenew x.sdk hnd inSid answer { env with now := x.now } with
      | error f =>
        rw [hr] at h
        cases h
      | ok r =>
        rw [hr] at h
        cases h
        rw [hrecord]
        exact KeepsSids.finishRenew hr
    | _ => cases h
  | unSubscribe hnd inSid =>
    rcases Option.map_eq_some_iff.mp h with ⟨r,-,rfl⟩
    split <;> exact KeepsSids.refl _
  | unregister hnd =>
    simp only [Subscriptions.step] at h
    split at h
    · exact hunregister x hnd h
    · cases h
      exact KeepsSids.refl _
  | proceed i =>
    rcases Option.bind_eq_some_iff.mp h with ⟨call,-,h⟩
    cases call with
    | unsubscribing hnd inSid =>
      rcases Option.map_eq_some_iff.mp h with ⟨s,hs,rfl⟩
      have hs := toOption_some hs
      unfold finishUnSubscribe at hs
      split at hs
      · cases hs
        exact KeepsSids.refl _
      · exact KeepsSids.removeSubscription hs
    | unregistering hnd => exact hunregister { x with calls := x.calls.eraseIdx i } hnd h
    | unregistered hnd =>
      simp only [stepCall] at h
      split at h <;> cases h <;> exact KeepsSids.same rfl
    | _ => cases h
  | expire accepted =>
    rcases Option.map_eq_some_iff.mp h with ⟨⟨e,s⟩,hr,rfl⟩
    have hsame : KeepsSids x.sdk s := KeepsSids.same (dispatch_subs hr)
    dsimp only
    split
    · split <;> exact hsame
    · exact hsame
  | autoRenew i =>
    rcases Option.bind_eq_some_iff.mp h with ⟨call,-,h⟩
    cases call with
    | fired id event =>
      exact hrenew { x with
        calls := x.calls.eraseIdx i
        renewals := (id,x.now)::x.renewals } event.handle event.sid event.timeOut (some x.now) h
    | _ => cases h
  | search id timeTillRead alloc =>
    cases h
    exact KeepsSids.same rfl

/-- A run, the generator of its identifiers, and those that it has made. -/
structure Named where
  leased : Leased
  gen : Generator
  issued : List UuidUpnp

def Named.init : Named := ⟨Leased.init,Generator.init,[]⟩

/-- The call comes to `uuid_create`: it was answered, and its handle is a client's. -/
def namesNext (sys : Setup) (s : State) (reply : Reply) : Call → Bool
  | .subscribing hnd publisherUrl timeOut =>
    (answerTo sys reply (.subscribing hnd publisherUrl timeOut)).any
        (fun answer => answer.ret = upnpESuccess) &&
      (getHandleInfo s.handleTable hnd).isSome
  | _ => false

/-- An event, and what `uuid_create` takes from the system there. -/
abbrev NamedEvent := Event × CreateEnv

def namedStep (sys : Setup) (x : Named) : NamedEvent → Option Named
  | (.subscribed i env,create) =>
    if (x.leased.sys.calls[i]?).any (namesNext sys x.leased.sys.sdk env.reply) then do
      let r ← uuidCreate x.gen create
      let leased ← leasedStep sys x.leased (.subscribed i { env with tempSid := uuidUnpack r.1 })
      return ⟨leased,r.2,x.issued++[r.1]⟩
    else (leasedStep sys x.leased (.subscribed i env)).map fun leased => { x with leased := leased }
  | (e,_) => (leasedStep sys x.leased e).map fun leased => { x with leased := leased }

def Named.Steady (x : Named) : Prop := setbacks (x.issued.map UuidUpnp.time) < 2^14

/-- The clock is one of this era. -/
def TimesFit (_ : Named) (e : NamedEvent) : Prop := InEra e.2

def ScheduledWell (answer : GenaAnswer) (env : RenewEnv) : Call → Prop
  | .subscribing _ _ _ => RenewalScheduled answer.timeout env
  | _ => True

/-- What `Orderly` asks for, but that a SID is new. -/
def Timely (sys : Setup) (x : Named) : NamedEvent → Prop
  | (.subscribed i env,create) => InEra create ∧ ∀ call ∈ x.leased.sys.calls[i]?,
    ∀ answer ∈ answerTo sys env.reply call, answer.ret = upnpESuccess →
      ScheduledWell answer env.renew call
  | (e,create) => InEra create ∧ Orderly sys x.leased e

instance (answer : GenaAnswer) (env : RenewEnv) : DecidablePred (ScheduledWell answer env)
  | .subscribing _ _ _ => inferInstanceAs (Decidable (RenewalScheduled _ _))
  | .renewing _ _ _ _ _ | .fired _ _ | .unsubscribing _ _ | .unregistering _ | .unregistered _ =>
    isTrue trivial

instance : DecidableRel TimesFit := fun _ e => inferInstanceAs (Decidable (InEra e.2))

instance (sys : Setup) : DecidableRel (Timely sys)
  | _, (.subscribed _ _,_) => inferInstanceAs (Decidable (_ ∧ ∀ call ∈ _, ∀ answer ∈ answerTo _ _ _, _))
  | x, (.tick n,_) => inferInstanceAs (Decidable (_ ∧ Orderly sys x.leased (.tick n)))
  | x, (.register a b,_) => inferInstanceAs (Decidable (_ ∧ Orderly sys x.leased (.register a b)))
  | x, (.subscribe a b c,_) =>
    inferInstanceAs (Decidable (_ ∧ Orderly sys x.leased (.subscribe a b c)))
  | x, (.renew a b c,_) => inferInstanceAs (Decidable (_ ∧ Orderly sys x.leased (.renew a b c)))
  | x, (.renewed a b c,_) => inferInstanceAs (Decidable (_ ∧ Orderly sys x.leased (.renewed a b c)))
  | x, (.unSubscribe a b,_) =>
    inferInstanceAs (Decidable (_ ∧ Orderly sys x.leased (.unSubscribe a b)))
  | x, (.unregister a,_) => inferInstanceAs (Decidable (_ ∧ Orderly sys x.leased (.unregister a)))
  | x, (.proceed a,_) => inferInstanceAs (Decidable (_ ∧ Orderly sys x.leased (.proceed a)))
  | x, (.expire a,_) => inferInstanceAs (Decidable (_ ∧ Orderly sys x.leased (.expire a)))
  | x, (.autoRenew a,_) => inferInstanceAs (Decidable (_ ∧ Orderly sys x.leased (.autoRenew a)))
  | x, (.search a b c,_) => inferInstanceAs (Decidable (_ ∧ Orderly sys x.leased (.search a b c)))

theorem setbacks_append (l : List ℕ) (t : ℕ) : setbacks l ≤ setbacks (l++[t]) := by
  induction l with
  | nil => exact Nat.zero_le _
  | cons u l ih =>
    cases l with
    | nil => exact Nat.zero_le _
    | cons v l => exact Nat.add_le_add_left ih _

/-- The identifiers are those of the generator, and every SID is one of them; as long as they are
different the subscriptions are. -/
structure Sids (x : Named) : Prop where
  created : ∃ envs, creates Generator.init envs = some (x.issued,x.gen) ∧ ∀ env ∈ envs, InEra env
  named : ∀ a sid, SidAt x.leased.sys.sdk a sid → ∃ u ∈ x.issued, sid = cstr "uuid:"++uuidUnpack u
  apart : x.Steady → ∀ a b sid, SidAt x.leased.sys.sdk a sid → SidAt x.leased.sys.sdk b sid → a = b

theorem Sids.init : Sids Named.init := by
  have hnone : ∀ a sid, ¬SidAt Named.init.leased.sys.sdk a sid := by
    rintro a sid ⟨sub,hs,-⟩
    cases hs
  exact ⟨⟨[],rfl,by rintro env ⟨⟩⟩,fun a sid hs => absurd hs (hnone a sid),
    fun _ a _ sid hs => absurd hs (hnone a sid)⟩

theorem Sids.keep {x y : Named} (h : Sids x) (hgen : y.gen = x.gen) (hissued : y.issued = x.issued)
    (hs : KeepsSids x.leased.sys.sdk y.leased.sys.sdk) : Sids y where
  created := by
    rw [hgen,hissued]
    exact h.created
  named := by
    rw [hissued]
    exact fun a sid ha => h.named a sid (hs a sid ha)
  apart := by
    intro hsteady a b sid ha hb
    rw [Named.Steady,hissued] at hsteady
    exact h.apart hsteady a b sid (hs a sid ha) (hs b sid hb)

theorem creates_snoc {envs : List CreateEnv} {us : List UuidUpnp} {g g' : Generator} {u : UuidUpnp}
    {env : CreateEnv} (h : creates Generator.init envs = some (us,g))
    (hu : uuidCreate g env = some (u,g')) :
    creates Generator.init (envs++[env]) = some (us++[u],g') := by
  rw [creates_append,h,Option.bind_some,creates,hu]
  rfl

theorem Sids.fresh {x : Named} (h : Sids x) {create : CreateEnv} {u : UuidUpnp} {g : Generator}
    (hu : uuidCreate x.gen create = some (u,g)) (hera : InEra create)
    (hsteady : setbacks ((x.issued++[u]).map UuidUpnp.time) < 2^14) :
    ∀ a sid, SidAt x.leased.sys.sdk a sid → sid ≠ cstr "uuid:"++uuidUnpack u := by
  rcases h.created with ⟨envs,hc,henvs⟩
  have hnodup := texts_nodup ⟨[],[],rfl⟩ (creates_snoc hc hu)
    (by simpa [or_imp,forall_and] using ⟨henvs,hera⟩) hsteady
  rw [List.map_append,List.nodup_append] at hnodup
  rintro a sid hs rfl
  rcases h.named a _ hs with ⟨v,hv,he⟩
  exact hnodup.2.2 _ (List.mem_map_of_mem hv) _ (List.mem_singleton.mpr rfl)
    (List.append_cancel_left he).symm

/-- A subscription is answered, and its SID is the identifier that was made. -/
theorem Sids.subscribed {sys : Setup} {x : Named} {l : Leased} {i : ℕ} {env : SubscribeEnv}
    {create : CreateEnv} {u : UuidUpnp} {g : Generator} (h : Sids x) (hera : InEra create)
    (hu : uuidCreate x.gen create = some (u,g))
    (hl : leasedStep sys x.leased (.subscribed i { env with tempSid := uuidUnpack u }) = some l) :
    Sids ⟨l,g,x.issued++[u]⟩ := by
  have hnew : ∀ a sid, SidAt l.sys.sdk a sid → SidAt x.leased.sys.sdk a sid ∨
      a = x.leased.sys.sdk.subs.length ∧ sid = cstr "uuid:"++uuidUnpack u := by
    rcases Option.map_eq_some_iff.mp hl with ⟨y,hy,rfl⟩
    rcases Option.bind_eq_some_iff.mp hy with ⟨call,-,hs⟩
    cases call with
    | subscribing hnd publisherUrl timeOut =>
      rcases Option.map_eq_some_iff.mp hs with ⟨r,hr,rfl⟩
      rcases Rounds.of_bind_ok (toOption_some hr) with ⟨answer,-,hfin⟩
      have hsids := finishSubscribe_sids hfin
      have hrecord : ((x.leased.sys.finish r.state i).record r.timeOut none r.call).sdk =
          r.state := by
        cases r.call <;> rfl
      intro a sid ha
      dsimp only at ha
      rw [hrecord] at ha
      exact (hsids a sid ha).imp_right fun hn => ⟨hn.1,hn.2.1⟩
    | _ => cases hs
  constructor
  · rcases h.created with ⟨envs,hc,henvs⟩
    refine ⟨envs++[create],creates_snoc hc hu,fun env' he => ?_⟩
    rcases List.mem_append.mp he with he | he
    · exact henvs env' he
    · rw [List.mem_singleton.mp he]
      exact hera
  · intro a sid ha
    rcases hnew a sid ha with ha | ⟨-,rfl⟩
    · rcases h.named a sid ha with ⟨v,hv,he⟩
      exact ⟨v,List.mem_append_left _ hv,he⟩
    · exact ⟨u,List.mem_append_right _ (.head _),rfl⟩
  · intro hsteady a b sid ha hb
    have hfresh := h.fresh hu hera hsteady
    have hbefore : x.Steady := by
      refine lt_of_le_of_lt ?_ hsteady
      rw [List.map_append]
      exact setbacks_append _ _
    rcases hnew a sid ha with ha | ⟨rfl,rfl⟩
    · rcases hnew b sid hb with hb | ⟨-,rfl⟩
      · exact h.apart hbefore a b sid ha hb
      · exact absurd rfl (hfresh a _ ha)
    · rcases hnew b _ hb with hb | ⟨rfl,-⟩
      · exact absurd rfl (hfresh b _ hb)
      · rfl

/-- A call that does not come to `uuid_create` links no subscription. -/
theorem KeepsSids.unnamed {sys : Setup} {x : Leased} {l : Leased} {i : ℕ} {env : SubscribeEnv}
    (hno : (x.sys.calls[i]?).any (namesNext sys x.sys.sdk env.reply) = false)
    (hl : leasedStep sys x (.subscribed i env) = some l) : KeepsSids x.sys.sdk l.sys.sdk := by
  rcases Option.map_eq_some_iff.mp hl with ⟨y,hy,rfl⟩
  rcases Option.bind_eq_some_iff.mp hy with ⟨call,hcall,hs⟩
  rw [hcall] at hno
  cases call with
  | subscribing hnd publisherUrl timeOut =>
    rcases Option.map_eq_some_iff.mp hs with ⟨r,hr,rfl⟩
    rcases Rounds.of_bind_ok (toOption_some hr) with ⟨answer,hex,hfin⟩
    have hrecord : ((x.sys.finish r.state i).record r.timeOut none r.call).sdk = r.state := by
      cases r.call <;> rfl
    intro a sid ha
    dsimp only at ha
    rw [hrecord] at ha
    rcases finishSubscribe_sids hfin a sid ha with ha | ⟨-,-,hret,hinfo⟩
    · exact ha
    · simp [namesNext,answerTo,hex,Except.toOption,hret,hinfo] at hno
  | _ => cases hs

theorem namedStep_plain {sys : Setup} {x : Named} {e : Event} {create : CreateEnv}
    (hne : ∀ i env, e ≠ .subscribed i env) : namedStep sys x (e,create) =
      (leasedStep sys x.leased e).map fun leased => { x with leased := leased } := by
  cases e with
  | subscribed i env => exact absurd rfl (hne i env)
  | _ => rfl

theorem timely_orderly {sys : Setup} {x : Named} {e : Event} {create : CreateEnv}
    (hne : ∀ i env, e ≠ .subscribed i env) (h : Timely sys x (e,create)) :
    Orderly sys x.leased e := by
  cases e with
  | subscribed i env => exact absurd rfl (hne i env)
  | _ => exact h.2

theorem timely_era {sys : Setup} {x : Named} {e : NamedEvent} (h : Timely sys x e) :
    InEra e.2 := by
  rcases e with ⟨e,create⟩
  cases e <;> exact h.1

theorem Sids.step {sys : Setup} {x y : Named} {e : NamedEvent} (h : Sids x) (hera : InEra e.2)
    (hs : namedStep sys x e = some y) : Sids y := by
  rcases e with ⟨e,create⟩
  by_cases he : ∃ i env, e = .subscribed i env
  · rcases he with ⟨i,env,rfl⟩
    simp only [namedStep] at hs
    split at hs
    · rcases Option.bind_eq_some_iff.mp hs with ⟨⟨u,g⟩,hu,hs⟩
      rcases Option.bind_eq_some_iff.mp hs with ⟨l,hl,hs⟩
      cases hs
      exact h.subscribed hera hu hl
    · rename_i hno
      rcases Option.map_eq_some_iff.mp hs with ⟨l,hl,rfl⟩
      exact h.keep rfl rfl (KeepsSids.unnamed (by simpa using hno) hl)
  · have hne : ∀ i env, e ≠ .subscribed i env := fun i env hi => he ⟨i,env,hi⟩
    rw [namedStep_plain hne] at hs
    rcases Option.map_eq_some_iff.mp hs with ⟨l,hl,rfl⟩
    rcases Option.map_eq_some_iff.mp hl with ⟨z,hz,rfl⟩
    exact h.keep rfl rfl (KeepsSids.step hne hz)

/-- No two subscriptions have one SID, whatever calls overlap or fail. -/
theorem sids_apart {sys : Setup} {x : Named} (h : Runs (namedStep sys) TimesFit Named.init x)
    (hsteady : x.Steady) {a b : ℕ} {sid : List UInt8} (ha : SidAt x.leased.sys.sdk a sid)
    (hb : SidAt x.leased.sys.sdk b sid) : a = b :=
  (h.invariant (I := Sids) Sids.init fun _ _ _ hi hok hs => hi.step hok hs).apart hsteady a b sid
    ha hb

/-- Two subscriptions that are granted 30 seconds at the same time. -/
def namedRun : List NamedEvent :=
  [(.register 1 0,someEnv),(.subscribe 1 (cstr "http://1.2.3.4/e") 0,someEnv),
    (.subscribed 0 ⟨true,leaseReply (cstr "uuid:p") (cstr "Second-30"),[],RenewEnv.calm⟩,someEnv),
    (.subscribe 1 (cstr "http://1.2.3.4/f") 0,someEnv),
    (.subscribed 0 ⟨true,leaseReply (cstr "uuid:q") (cstr "Second-30"),[],RenewEnv.calm⟩,someEnv)]

theorem sids_apart_subscribed :
    ∃ x sid sid', Runs (namedStep someSetup) TimesFit Named.init x ∧
      clientSubs x.leased.sys.sdk 1 = some [1,0] ∧ SidAt x.leased.sys.sdk 0 sid ∧
      SidAt x.leased.sys.sdk 1 sid' ∧ sid ≠ sid' := by
  have h : (run (namedStep someSetup) TimesFit Named.init namedRun).map
      (fun x => (decide (setbacks (x.issued.map UuidUpnp.time) < 2^14),
        clientSubs x.leased.sys.sdk 1,(x.leased.sys.sdk.subs.getD 0 none).isSome,
        (x.leased.sys.sdk.subs.getD 1 none).isSome)) =
      some (true,some [1,0],true,true) := by decide +kernel
  rcases Option.map_eq_some_iff.mp h with ⟨x,hx,he⟩
  rw [Prod.mk.injEq,Prod.mk.injEq,Prod.mk.injEq,decide_eq_true_eq] at he
  rcases he with ⟨hsteady,hlist,h₀,h₁⟩
  obtain ⟨sub,h₀⟩ := Option.isSome_iff_exists.mp h₀
  obtain ⟨sub',h₁⟩ := Option.isSome_iff_exists.mp h₁
  refine ⟨x,sub.sid,sub'.sid,Runs.of_run _ hx,hlist,⟨sub,h₀,rfl⟩,⟨sub',h₁,rfl⟩,fun hsame => ?_⟩
  have hone := sids_apart (Runs.of_run _ hx) hsteady ⟨sub,h₀,rfl⟩ ⟨sub',h₁,hsame.symm⟩
  cases hone

/-- With the SIDs of the generator a timely event is an orderly one. -/
theorem Kept.named {sys : Setup} {x y : Named} {e : NamedEvent} (h : Sids x)
    (hk : x.Steady → Kept x.leased.sys x.leased.granted) (hok : Timely sys x e)
    (hs : namedStep sys x e = some y) (hsteady : y.Steady) :
    Kept y.leased.sys y.leased.granted := by
  rcases e with ⟨e,create⟩
  by_cases he : ∃ i env, e = .subscribed i env
  · rcases he with ⟨i,env,rfl⟩
    rcases hok with ⟨hera,hwell⟩
    simp only [namedStep] at hs
    split at hs
    · rcases Option.bind_eq_some_iff.mp hs with ⟨⟨u,g⟩,hu,hs⟩
      rcases Option.bind_eq_some_iff.mp hs with ⟨l,hl,hs⟩
      cases hs
      have hbefore : x.Steady := by
        refine lt_of_le_of_lt ?_ hsteady
        rw [List.map_append]
        exact setbacks_append _ _
      have hfresh := h.fresh hu hera hsteady
      refine (hk hbefore).step (e := .subscribed i { env with tempSid := uuidUnpack u })
        (fun call hcall answer ha hret => ?_) hl
      have hsched := hwell call hcall answer ha hret
      cases call with
      | subscribing hnd publisherUrl timeOut =>
        exact fun info _ _ => ⟨hsched,fun a _ sub hsub => hfresh a sub.sid ⟨sub,hsub,rfl⟩⟩
      | _ => trivial
    · rename_i hno
      rcases Option.map_eq_some_iff.mp hs with ⟨l,hl,rfl⟩
      refine (hk hsteady).step (e := .subscribed i env) (fun call hcall answer ha hret => ?_) hl
      cases call with
      | subscribing hnd publisherUrl timeOut =>
        intro info hinfo
        rw [Option.mem_def.mp hcall] at hno
        simp [namesNext,Option.mem_def.mp ha,hret,Option.mem_def.mp hinfo] at hno
      | _ => trivial
  · have hne : ∀ i env, e ≠ .subscribed i env := fun i env hi => he ⟨i,env,hi⟩
    rw [namedStep_plain hne] at hs
    rcases Option.map_eq_some_iff.mp hs with ⟨l,hl,rfl⟩
    exact (hk hsteady).step (timely_orderly hne hok) hl

/-- In a run without a lost or an overlapping renewal, whenever no call is on its way. That every
SID is new is what the generator sees to. -/
theorem named_bijective {sys : Setup} {x : Named}
    (h : Runs (namedStep sys) (Timely sys) Named.init x) (hsteady : x.Steady)
    (hidle : x.leased.sys.calls = []) : Bijective x.leased := by
  have hkept := h.invariant
    (I := fun x => Sids x ∧ (x.Steady → Kept x.leased.sys x.leased.granted))
    ⟨Sids.init,fun _ => Kept.init⟩ fun x e y hi hok hs =>
      ⟨hi.1.step (timely_era hok) hs,Kept.named hi.1 hi.2 hok hs⟩
  exact Kept.bijective (hkept.2 hsteady) hidle

theorem named_bijective_subscribed :
    ∃ x, Runs (namedStep someSetup) (Timely someSetup) Named.init x ∧
      clientSubs x.leased.sys.sdk 1 = some [1,0] ∧ Bijective x.leased := by
  have h : (run (namedStep someSetup) (Timely someSetup) Named.init namedRun).map
      (fun x => (decide (setbacks (x.issued.map UuidUpnp.time) < 2^14),x.leased.sys.calls,
        clientSubs x.leased.sys.sdk 1)) = some (true,[],some [1,0]) := by decide +kernel
  rcases Option.map_eq_some_iff.mp h with ⟨x,hx,he⟩
  rw [Prod.mk.injEq,Prod.mk.injEq,decide_eq_true_eq] at he
  exact ⟨x,Runs.of_run _ hx,he.2.2,named_bijective (Runs.of_run _ hx) he.1 he.2.1⟩

end Subscriptions
end CtrlPt
