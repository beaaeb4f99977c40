import CtrlPt.Thread.Regions

/-! What `BumpPriority` does to the three queues, and when it leaves no job in the two lower
ones that has waited for the starvation time. -/
namespace CtrlPt
namespace Thread

def ThreadPool.jobQ (tp : ThreadPool) : ThreadPriority → List ThreadPoolJob
  | .high => tp.highJobQ
  | .med => tp.medJobQ
  | .low => tp.lowJobQ

def ThreadPriority.rank : ThreadPriority → ℕ
  | .high => 2
  | .med => 1
  | .low => 0

/-- The jobs that go from one queue to another one, or stay. -/
structure Moves (tp tp' : ThreadPool)
    (moved : ThreadPriority → ThreadPriority → List ThreadPoolJob) : Prop where
  source : ∀ p, (moved p .high++(moved p .med++moved p .low)).Perm (tp.jobQ p)
  target : ∀ q, (moved .high q++(moved .med q++moved .low q)).Perm (tp'.jobQ q)
  inOrder : ∀ p q, (moved p q).Sublist (tp.jobQ p) ∧ (moved p q).Sublist (tp'.jobQ q)
  upwards : ∀ p q, q.rank < p.rank → moved p q = []

/-- The loop ends; no job is lost, none goes down, those that go the same way stay in their
order; and no job that has to be bumped is left. -/
structure AntiStarvation (env : Env) (tp : ThreadPool) : Prop where
  ends : Loop.Leaves (bumpRound env) (0,tp) (bumpPriority env tp)
  keeps : (bumpPriority env tp).queued.Perm tp.queued
  moves : ∃ moved, Moves tp (bumpPriority env tp) moved
  fresh : ∀ job ∈ (bumpPriority env tp).medJobQ++(bumpPriority env tp).lowJobQ,
    waited env tp.attr.starvationTime job = false

/-- The low jobs at the front that have waited for the idle time. -/
def idleJobs (env : Env) (tp : ThreadPool) : List ThreadPoolJob :=
  tp.lowJobQ.takeWhile (waited env tp.attr.maxIdleTime)

/-- They come to stand behind the jobs of the med queue. -/
def lined (env : Env) (tp : ThreadPool) : List ThreadPoolJob := tp.medJobQ++idleJobs env tp

/-- Those of them at the front that go on to the high queue. -/
def starvedJobs (env : Env) (tp : ThreadPool) : List ThreadPoolJob :=
  (lined env tp).takeWhile (waited env tp.attr.starvationTime)

def bumps (env : Env) (tp : ThreadPool) : ℕ :=
  (idleJobs env tp).length+(starvedJobs env tp).length

def bumpedPool (env : Env) (tp : ThreadPool) : ThreadPool :=
  { tp with
    highJobQ := tp.highJobQ++starvedJobs env tp
    medJobQ := (lined env tp).dropWhile (waited env tp.attr.starvationTime)
    lowJobQ := tp.lowJobQ.dropWhile (waited env tp.attr.maxIdleTime) }

theorem dropWhile_of_takeWhile_nil {α : Type} {p : α → Bool} {l : List α}
    (h : l.takeWhile p = []) : l.dropWhile p = l := by
  have hsplit := List.takeWhile_append_dropWhile (p := p) (l := l)
  rwa [h,List.nil_append] at hsplit

theorem dropWhile_eq_drop {α : Type} (p : α → Bool) (l : List α) :
    l.dropWhile p = l.drop (l.takeWhile p).length := by
  have hdrop : (l.takeWhile p++l.dropWhile p).drop (l.takeWhile p).length = l.dropWhile p :=
    List.drop_left
  rw [List.takeWhile_append_dropWhile] at hdrop
  exact hdrop.symm

/-- What the rounds from `tp` on come to: no job is lost exactly when each of the nodes is
allocated, and then the queues are those of `bumpedPool`. -/
structure BumpedTo (env : Env) (n : ℕ) (tp tp' : ThreadPool) : Prop where
  le : tp'.queued.length ≤ tp.queued.length
  allocated : tp'.queued.length = tp.queued.length →
    ∀ i < bumps env tp, env.allocates (n+i) = true
  pool : (∀ i < bumps env tp, env.allocates (n+i) = true) → tp' = bumpedPool env tp

theorem BumpedTo.moved {env : Env} {n : ℕ} {tp tp' tp'' : ThreadPool}
    (h : BumpedTo env (n+1) tp' tp'') (hn : env.allocates n = true)
    (hlen : tp'.queued.length = tp.queued.length) (hbumps : bumps env tp = bumps env tp'+1)
    (hpool : bumpedPool env tp' = bumpedPool env tp) : BumpedTo env n tp tp'' := by
  refine ⟨hlen ▸ h.le,?_,?_⟩
  · intro hsame i hi
    cases i with
    | zero => exact hn
    | succ i =>
      have hi' := h.allocated (hsame.trans hlen.symm) i (by omega)
      rwa [Nat.add_assoc,Nat.add_comm 1 i] at hi'
  · intro halloc
    rw [← hpool]
    refine h.pool fun i hi => ?_
    have hi' := halloc (i+1) (by omega)
    rwa [← Nat.add_assoc,Nat.add_right_comm] at hi'

theorem BumpedTo.lost {env : Env} {n : ℕ} {tp tp' tp'' : ThreadPool}
    (h : BumpedTo env (n+1) tp' tp'') (hn : ¬env.allocates n = true)
    (hlen : tp'.queued.length < tp.queued.length) (hbumps : 0 < bumps env tp) :
    BumpedTo env n tp tp'' := by
  have hle := h.le
  refine ⟨by omega,fun hsame => by omega,fun halloc => ?_⟩
  exact absurd (halloc 0 hbumps) hn

theorem bumpPriority_bumpedTo (env : Env) (tp : ThreadPool) :
    BumpedTo env 0 tp (bumpPriority env tp) := by
  refine Loop.run_induction (bumpRound_descends env) (e := Prod.snd)
    (P := fun x tp' => BumpedTo env x.1 x.2 tp') ?_ ?_ (0,tp)
  · rintro ⟨n,tp⟩ tp' h
    rcases bumpRound_cases env n tp with ⟨job,rest,-,-,hr⟩ | hm
    · rw [hr] at h
      cases h
    · rcases bumpRound_low hm with ⟨job,rest,-,-,hr⟩ | ⟨hl,hr⟩
      · rw [hr] at h
        cases h
      · rw [hr] at h
        cases h
        have hlined : lined env tp = tp.medJobQ := by
          rw [lined,idleJobs,hl,List.append_nil]
        have hnone : starvedJobs env tp = [] := by rw [starvedJobs,hlined,hm]
        refine ⟨le_rfl,fun _ i hi => ?_,fun _ => ?_⟩
        · rw [bumps,idleJobs,hl,hnone] at hi
          exact absurd hi (Nat.not_lt_zero i)
        · rw [bumpedPool,hnone,hlined,dropWhile_of_takeWhile_nil hm,dropWhile_of_takeWhile_nil hl,
            List.append_nil]
  · rintro ⟨n,tp⟩ ⟨n',tp'⟩ h ih
    rcases bumpRound_cases env n tp with ⟨job,rest,hq,hw,hr⟩ | hm
    · rw [hr] at h
      cases h
      have hidle : bumps env tp = (idleJobs env tp).length+
          ((rest++idleJobs env tp).takeWhile (waited env tp.attr.starvationTime)).length+1 := by
        rw [bumps,starvedJobs,lined,hq,List.cons_append,List.takeWhile_cons_of_pos hw,
          List.length_cons]
        omega
      by_cases hn : env.allocates n = true
      · simp only [hn,if_true] at ih ⊢
        refine ih.moved hn ?_ hidle ?_
        · simp only [ThreadPool.queued,hq,List.length_append,List.length_cons,List.length_nil]
          omega
        · simp [bumpedPool,starvedJobs,lined,idleJobs,hq,List.takeWhile_cons_of_pos hw,
            List.dropWhile_cons_of_pos hw,List.append_assoc]
      · simp only [if_neg hn] at ih ⊢
        refine ih.lost hn ?_ (by omega)
        simp only [ThreadPool.queued,hq,List.length_append,List.length_cons]
        omega
    · rcases bumpRound_low hm with ⟨job,rest,hq,hw,hr⟩ | ⟨-,hr⟩
      · rw [hr] at h
        cases h
        have hlined : lined env tp = (tp.medJobQ++[job])++
            rest.takeWhile (waited env tp.attr.maxIdleTime) := by
          rw [lined,idleJobs,hq,List.takeWhile_cons_of_pos hw,List.append_assoc]
          rfl
        have hidle : (idleJobs env tp).length =
            (rest.takeWhile (waited env tp.attr.maxIdleTime)).length+1 := by
          rw [idleJobs,hq,List.takeWhile_cons_of_pos hw,List.length_cons]
        by_cases hn : env.allocates n = true
        · simp only [hn,if_true] at ih ⊢
          refine ih.moved hn ?_ ?_ ?_
          · simp only [ThreadPool.queued,hq,List.length_append,List.length_cons,List.length_nil]
            omega
          · rw [bumps,hidle,starvedJobs,hlined]
            show _ = (rest.takeWhile (waited env tp.attr.maxIdleTime)).length+_+1
            rw [starvedJobs,lined,idleJobs]
            exact Nat.add_right_comm _ _ _
          · rw [bumpedPool,bumpedPool,starvedJobs,starvedJobs,hlined,hq,
              List.dropWhile_cons_of_pos hw,lined,idleJobs]
        · simp only [if_neg hn] at ih ⊢
          refine ih.lost hn ?_ (by rw [bumps,hidle]; omega)
          simp only [ThreadPool.queued,hq,List.length_append,List.length_cons]
          omega
      · rw [hr] at h
        cases h

/-- The queues between which the jobs go when none is lost: of the med jobs and of the idle
ones behind them the first `k` go to the high queue. -/
def movedJobs (env : Env) (tp : ThreadPool) : ThreadPriority → ThreadPriority → List ThreadPoolJob
  | .high, .high => tp.highJobQ
  | .med, .high => tp.medJobQ.take (starvedJobs env tp).length
  | .med, .med => tp.medJobQ.drop (starvedJobs env tp).length
  | .low, .high => (idleJobs env tp).take ((starvedJobs env tp).length-tp.medJobQ.length)
  | .low, .med => (idleJobs env tp).drop ((starvedJobs env tp).length-tp.medJobQ.length)
  | .low, .low => tp.lowJobQ.dropWhile (waited env tp.attr.maxIdleTime)
  | _, _ => []

theorem starvedJobs_eq (env : Env) (tp : ThreadPool) :
    starvedJobs env tp = movedJobs env tp .med .high++movedJobs env tp .low .high := by
  rw [movedJobs,movedJobs,← List.take_append,← lined,starvedJobs]
  exact List.prefix_iff_eq_take.mp (List.takeWhile_prefix _)

theorem stays_eq (env : Env) (tp : ThreadPool) :
    (lined env tp).dropWhile (waited env tp.attr.starvationTime) =
      movedJobs env tp .med .med++movedJobs env tp .low .med := by
  rw [movedJobs,movedJobs,← List.drop_append,← lined,starvedJobs]
  exact dropWhile_eq_drop _ _

/-- Each queue is cut into parts, and the parts are put behind each other. -/
theorem Moves.of_eq {tp tp' : ThreadPool}
    {moved : ThreadPriority → ThreadPriority → List ThreadPoolJob}
    (hs : ∀ p, moved p .high++(moved p .med++moved p .low) = tp.jobQ p)
    (ht : ∀ q, moved .high q++(moved .med q++moved .low q) = tp'.jobQ q)
    (hup : ∀ p q, q.rank < p.rank → moved p q = []) : Moves tp tp' moved := by
  have hpart : ∀ {a b c : List ThreadPoolJob}, a.Sublist (a++(b++c)) ∧ b.Sublist (a++(b++c)) ∧
      c.Sublist (a++(b++c)) := fun {a b c} =>
    ⟨List.sublist_append_left _ _,
      (List.sublist_append_left _ _).trans (List.sublist_append_right _ _),
      (List.sublist_append_right _ _).trans (List.sublist_append_right _ _)⟩
  refine ⟨fun p => hs p ▸ List.Perm.refl _,fun q => ht q ▸ List.Perm.refl _,fun p q => ?_,hup⟩
  rw [← hs p,← ht q]
  constructor
  · cases q with
    | high => exact hpart.1
    | med => exact hpart.2.1
    | low => exact hpart.2.2
  · cases p with
    | high => exact hpart.1
    | med => exact hpart.2.1
    | low => exact hpart.2.2

theorem moves_bumpedPool (env : Env) (tp : ThreadPool) :
    Moves tp (bumpedPool env tp) (movedJobs env tp) := by
  refine Moves.of_eq ?_ ?_ ?_
  · intro p
    cases p with
    | high => exact List.append_nil _
    | med =>
      have hstay : movedJobs env tp .med .high++movedJobs env tp .med .med = tp.medJobQ :=
        List.take_append_drop _ _
      show _++(_++[]) = tp.medJobQ
      rw [List.append_nil,hstay]
    | low =>
      have hidle : movedJobs env tp .low .high++movedJobs env tp .low .med = idleJobs env tp :=
        List.take_append_drop _ _
      rw [← List.append_assoc,hidle]
      exact List.takeWhile_append_dropWhile
  · intro q
    cases q with
    | high =>
      show _ = tp.highJobQ++starvedJobs env tp
      rw [starvedJobs_eq]
      rfl
    | med => exact (stays_eq env tp).symm
    | low => rfl
  · intro p q hlt
    cases p with
    | high =>
      cases q with
      | high => exact absurd hlt (Nat.lt_irrefl _)
      | med => rfl
      | low => rfl
    | med =>
      cases q with
      | high => exact absurd hlt (by decide)
      | med => exact absurd hlt (Nat.lt_irrefl _)
      | low => rfl
    | low => exact absurd hlt (Nat.not_lt_zero _)

/-- Of jobs that are looked at from the front none is hidden by a fresh one. -/
theorem dropWhile_iff {α : Type} (p : α → Bool) (l : List α) :
    (∀ a ∈ l.dropWhile p, p a = false) ↔ l.Pairwise fun a b => p b = true → p a = true := by
  induction l with
  | nil => exact ⟨fun _ => List.Pairwise.nil,fun _ a ha => absurd ha List.not_mem_nil⟩
  | cons a l ih =>
    rw [List.pairwise_cons]
    by_cases ha : p a = true
    · rw [List.dropWhile_cons_of_pos ha,ih]
      exact ⟨fun h => ⟨fun _ _ _ => ha,h⟩,fun h => h.2⟩
    · rw [List.dropWhile_cons_of_neg ha]
      constructor
      · intro h
        have hl : ∀ b ∈ l, p b = false := fun b hb => h b (List.mem_cons_of_mem _ hb)
        refine ⟨fun b hb hpb => ?_,ih.mp fun b hb => ?_⟩
        · rw [hl b hb] at hpb
          cases hpb
        · exact hl b ((List.dropWhile_sublist p).subset hb)
      · rintro ⟨hfirst,-⟩ b hb
        rcases List.mem_cons.mp hb with rfl | hb
        · exact Bool.eq_false_iff.mpr ha
        · exact Bool.eq_false_iff.mpr fun hpb => ha (hfirst b hb hpb)

/-- Every node can be allocated; no starved job stands behind a fresh one among the med jobs and
the idle low ones behind them; and no other low job is starved. -/
def BumpsAll (env : Env) (tp : ThreadPool) : Prop :=
  (∀ i < bumps env tp, env.allocates i = true) ∧
    ((lined env tp).Pairwise fun a b =>
      waited env tp.attr.starvationTime b = true → waited env tp.attr.starvationTime a = true) ∧
    ∀ job ∈ tp.lowJobQ.dropWhile (waited env tp.attr.maxIdleTime),
      waited env tp.attr.starvationTime job = false

theorem Moves.perm {tp tp' : ThreadPool}
    {moved : ThreadPriority → ThreadPriority → List ThreadPoolJob} (h : Moves tp tp' moved) :
    tp'.queued.Perm tp.queued := by
  have hs := fun p => List.perm_iff_count.mp (h.source p)
  have ht := fun q => List.perm_iff_count.mp (h.target q)
  rw [List.perm_iff_count]
  intro job
  have hs₁ := hs .high job
  have hs₂ := hs .med job
  have hs₃ := hs .low job
  have ht₁ := ht .high job
  have ht₂ := ht .med job
  have ht₃ := ht .low job
  simp only [ThreadPool.queued,ThreadPool.jobQ,List.count_append] at *
  omega

theorem bumpPriority_eq {env : Env} {tp : ThreadPool}
    (h : ∀ i < bumps env tp, env.allocates i = true) : bumpPriority env tp = bumpedPool env tp := by
  refine (bumpPriority_bumpedTo env tp).pool fun i hi => ?_
  rw [Nat.zero_add]
  exact h i hi

theorem bumpedPool_fresh (env : Env) (tp : ThreadPool) :
    (∀ job ∈ (bumpedPool env tp).medJobQ++(bumpedPool env tp).lowJobQ,
        waited env tp.attr.starvationTime job = false) ↔
      ((lined env tp).Pairwise fun a b =>
        waited env tp.attr.starvationTime b = true → waited env tp.attr.starvationTime a = true) ∧
      ∀ job ∈ tp.lowJobQ.dropWhile (waited env tp.attr.maxIdleTime),
        waited env tp.attr.starvationTime job = false := by
  rw [← dropWhile_iff]
  constructor
  · exact fun h => ⟨fun job hj => h job (List.mem_append_left _ hj),
      fun job hj => h job (List.mem_append_right _ hj)⟩
  · rintro ⟨hmed,hlow⟩ job hj
    rcases List.mem_append.mp hj with hj | hj
    · exact hmed job hj
    · exact hlow job hj

theorem AntiStarvation.bumpsAll {env : Env} {tp : ThreadPool} (h : AntiStarvation env tp) :
    BumpsAll env tp := by
  have hall : ∀ i < bumps env tp, env.allocates i = true := by
    intro i hi
    have hi' := (bumpPriority_bumpedTo env tp).allocated h.keeps.length_eq i hi
    rwa [Nat.zero_add] at hi'
  have hfresh := h.fresh
  rw [bumpPriority_eq hall] at hfresh
  exact ⟨hall,(bumpedPool_fresh env tp).mp hfresh⟩

theorem antiStarvation_iff (env : Env) (tp : ThreadPool) :
    AntiStarvation env tp ↔ BumpsAll env tp := by
  refine ⟨AntiStarvation.bumpsAll,?_⟩
  rintro ⟨hall,hqueues⟩
  have hmoves := moves_bumpedPool env tp
  have hends := Loop.run_leaves (e := Prod.snd) (bumpRound_descends env) (0,tp)
  refine ⟨hends,?_,?_,?_⟩
  · rw [bumpPriority_eq hall]
    exact hmoves.perm
  · rw [bumpPriority_eq hall]
    exact ⟨_,hmoves⟩
  · rw [bumpPriority_eq hall]
    exact (bumpedPool_fresh env tp).mpr hqueues

def onePool : ThreadPoolAttr := ⟨0,1,10000,10,100,500⟩

/-- A low job that has waited one second, in the default pool. -/
theorem low_job_starves :
    ¬∀ s, Transition.Runs step Transition.free (Sys.init onePool) s →
      ∀ env, (∀ i, env.allocates i = true) → AntiStarvation env s.tp := by
  intro h
  have hrun : ∃ s, Transition.run step Transition.free (Sys.init onePool)
      [.resume 0 Env.calm,.add { ThreadPoolJob.ofFunc 1 with priority := .low } Env.calm] = some s ∧
        ¬BumpsAll { Env.calm with now := ⟨1,0⟩ } s.tp := by
    refine ⟨_,rfl,?_⟩
    rintro ⟨-,-,hlow⟩
    exact absurd (hlow _ List.mem_cons_self) (by decide)
  rcases hrun with ⟨s,hs,hno⟩
  exact hno (h s (Transition.Runs.of_run _ hs) _ fun _ => rfl).bumpsAll

end Thread
end CtrlPt
