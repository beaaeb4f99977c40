import Mathlib.Tactic

/-! Queues of events that are ordered by a time and known by an identifier. An event is put in
front of the first one that is not earlier. -/
namespace CtrlPt
namespace EventQueue

variable {α τ ι : Type} [LinearOrder τ] (time : α → τ) (id : α → ι)

def insert (a : α) (q : List α) : List α := q.orderedInsert (fun b c => time b ≤ time c) a

/-- The first event with the identifier `i` is taken out. -/
def take [DecidableEq ι] (i : ι) (q : List α) : Option (α × List α) :=
  (q.find? fun a => id a = i).map fun a => (a,q.eraseP fun a => id a = i)

def Sorted (q : List α) : Prop := q.Pairwise fun a b => time a ≤ time b

def Distinct (q : List α) : Prop := (q.map id).Nodup

instance time_total : Std.Total fun a b : α => time a ≤ time b := ⟨fun a b => le_total (time a) (time b)⟩

instance time_trans : IsTrans α fun a b => time a ≤ time b := ⟨fun _ _ _ h h' => le_trans h h'⟩

variable {time id}

theorem insert_perm (a : α) (q : List α) : (insert time a q).Perm (a::q) :=
  List.perm_orderedInsert _ a q

@[simp] theorem mem_insert {a b : α} {q : List α} : b ∈ insert time a q ↔ b = a ∨ b ∈ q :=
  List.mem_orderedInsert _

theorem Sorted.insert {q : List α} (h : Sorted time q) (a : α) : Sorted time (insert time a q) :=
  List.Pairwise.orderedInsert a q h

theorem Distinct.insert {q : List α} (h : Distinct id q) {a : α} (ha : ∀ b ∈ q, id b ≠ id a) :
    Distinct id (insert time a q) := by
  rw [Distinct,((insert_perm a q).map id).nodup_iff,List.map_cons,List.nodup_cons]
  refine ⟨fun hm => ?_,h⟩
  rcases List.mem_map.mp hm with ⟨b,hb,he⟩
  exact ha b hb he

theorem Sorted.sublist {q q' : List α} (h : Sorted time q) (hs : q'.Sublist q) : Sorted time q' :=
  List.Pairwise.sublist hs h

theorem Distinct.sublist {q q' : List α} (h : Distinct id q) (hs : q'.Sublist q) :
    Distinct id q' := List.Nodup.sublist (hs.map id) h

theorem Distinct.eq {q : List α} (h : Distinct id q) {a b : α} (ha : a ∈ q) (hb : b ∈ q)
    (he : id a = id b) : a = b := List.inj_on_of_nodup_map h ha hb he

/-- The head of a sorted queue has the least time. -/
theorem Sorted.head_le {a : α} {q : List α} (h : Sorted time (a::q)) :
    ∀ b ∈ q, time a ≤ time b := (List.pairwise_cons.mp h).1

variable [DecidableEq ι]

theorem take_some {i : ι} {q q' : List α} {a : α} (h : take id i q = some (a,q')) :
    id a = i ∧ q.Perm (a::q') ∧ q'.Sublist q := by
  rcases Option.map_eq_some_iff.mp h with ⟨b,hb,he⟩
  cases he
  have hi : id a = i := by simpa using List.find?_some hb
  refine ⟨hi,?_,List.eraseP_sublist⟩
  obtain ⟨-,pre,post,hq,hpre⟩ := List.find?_eq_some_iff_append.mp hb
  have hpre' : ∀ c ∈ pre, ¬(decide (id c = i)) = true := by
    intro c hc
    simpa using hpre c hc
  rw [hq,List.eraseP_append_right _ hpre',List.eraseP_cons_of_pos (by simpa using hi)]
  exact List.perm_middle

theorem take_none {i : ι} {q : List α} : take id i q = none ↔ ∀ a ∈ q, id a ≠ i := by
  rw [take,Option.map_eq_none_iff,List.find?_eq_none]
  simp only [decide_eq_true_eq,ne_eq]

theorem take_gone {i : ι} {q q' : List α} {a : α} (hd : Distinct id q)
    (h : take id i q = some (a,q')) : ∀ b ∈ q', id b ≠ i := by
  rcases take_some h with ⟨ha,hp,-⟩
  have hnd := (hp.map id).nodup_iff.mp hd
  rw [List.map_cons,List.nodup_cons] at hnd
  intro b hb hi
  refine hnd.1 ?_
  rw [ha,← hi]
  exact List.mem_map_of_mem hb

end EventQueue
end CtrlPt
