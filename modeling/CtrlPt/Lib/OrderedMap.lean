import Mathlib.Tactic

/-! Maps that remember the order in which their keys have come. A key that goes and comes again is
as new as any other. -/
namespace CtrlPt

/-- `clock` is the time of the next key. -/
structure OrderedMap (κ β : Type) where
  entries : κ → Option (ℕ × β)
  clock : ℕ
  since_lt : ∀ k r, entries k = some r → r.1 < clock

namespace OrderedMap

variable {κ β : Type}

def empty : OrderedMap κ β := ⟨fun _ => none,0,by rintro k r ⟨⟩⟩

/-- A key that is not there yet. -/
def insert [DecidableEq κ] (m : OrderedMap κ β) (k : κ) (v : β) : OrderedMap κ β where
  entries := fun j => if j = k then some (m.clock,v) else m.entries j
  clock := m.clock+1
  since_lt := by
    intro j r h
    split at h
    · cases h
      exact Nat.lt_succ_self _
    · exact (m.since_lt j r h).trans (Nat.lt_succ_self _)

/-- Values are changed and keys taken out; what stays is as old as it was. -/
def filterMap (m : OrderedMap κ β) (f : κ → β → Option β) : OrderedMap κ β where
  entries := fun k => (m.entries k).bind fun r => (f k r.2).map fun v => (r.1,v)
  clock := m.clock
  since_lt := by
    intro k r h
    rcases Option.bind_eq_some_iff.mp h with ⟨r',hr',h⟩
    rcases Option.map_eq_some_iff.mp h with ⟨v,-,rfl⟩
    exact m.since_lt k r' hr'

def alter [DecidableEq κ] (m : OrderedMap κ β) (k : κ) (g : β → β) : OrderedMap κ β :=
  m.filterMap fun j v => some (if j = k then g v else v)

def erase [DecidableEq κ] (m : OrderedMap κ β) (k : κ) : OrderedMap κ β :=
  m.filterMap fun j v => if j = k then none else some v

/-- `l` is the map in the order of its keys. -/
def Listed (m : OrderedMap κ β) (l : List (κ × β)) : Prop :=
  ∃ stamped : List (κ × ℕ × β), l = stamped.map (fun e => (e.1,e.2.2)) ∧
    stamped.Pairwise (fun e e' => e.2.1 < e'.2.1) ∧
    ∀ k r, m.entries k = some r ↔ (k,r) ∈ stamped

theorem listed_empty : (empty : OrderedMap κ β).Listed [] :=
  ⟨[],rfl,List.Pairwise.nil,fun _ _ => ⟨by rintro ⟨⟩,by rintro ⟨⟩⟩⟩

theorem Listed.entry {m : OrderedMap κ β} {l : List (κ × β)} (h : m.Listed l) {e : κ × β}
    (he : e ∈ l) : ∃ n, m.entries e.1 = some (n,e.2) := by
  rcases h with ⟨stamped,rfl,-,hmem⟩
  rcases List.mem_map.mp he with ⟨⟨j,r⟩,hr,rfl⟩
  exact ⟨r.1,(hmem j r).mpr hr⟩

theorem Listed.mem_iff {m : OrderedMap κ β} {l : List (κ × β)} (h : m.Listed l) (k : κ) :
    (m.entries k).isSome = true ↔ k ∈ l.map Prod.fst := by
  rcases h with ⟨stamped,rfl,-,hmem⟩
  rw [Option.isSome_iff_exists,List.map_map,List.mem_map]
  constructor
  · rintro ⟨r,hr⟩
    exact ⟨(k,r),(hmem k r).mp hr,rfl⟩
  · rintro ⟨⟨j,r⟩,hr,rfl⟩
    exact ⟨r,(hmem j r).mpr hr⟩

theorem Listed.nodup {m : OrderedMap κ β} {l : List (κ × β)} (h : m.Listed l) :
    (l.map Prod.fst).Nodup := by
  rcases h with ⟨stamped,rfl,hsorted,hmem⟩
  rw [List.map_map,List.Nodup,List.pairwise_map]
  refine hsorted.imp_of_mem fun {e e'} he he' hlt hkey => ?_
  have h₁ := (hmem e.1 e.2).mpr he
  have h₂ := (hmem e'.1 e'.2).mpr he'
  have hsame : e.1 = e'.1 := hkey
  rw [hsame,h₂] at h₁
  rw [Option.some.inj h₁] at hlt
  exact Nat.lt_irrefl _ hlt

theorem Listed.insert [DecidableEq κ] {m : OrderedMap κ β} {l : List (κ × β)} (h : m.Listed l)
    {k : κ} (hk : k ∉ l.map Prod.fst) (v : β) : (m.insert k v).Listed (l++[(k,v)]) := by
  have hnew : ¬(m.entries k).isSome = true := fun hs => hk ((h.mem_iff k).mp hs)
  rcases h with ⟨stamped,rfl,hsorted,hmem⟩
  refine ⟨stamped++[(k,m.clock,v)],by simp,?_,fun j r => ?_⟩
  · rw [List.pairwise_append]
    refine ⟨hsorted,List.pairwise_singleton _ _,fun e he e' he' => ?_⟩
    rw [List.mem_singleton.mp he']
    exact m.since_lt e.1 e.2 ((hmem e.1 e.2).mpr he)
  · simp only [OrderedMap.insert,List.mem_append,List.mem_singleton,← hmem j r,Prod.mk.injEq]
    by_cases hj : j = k
    · subst hj
      rw [if_pos rfl]
      constructor
      · rintro ⟨⟩
        exact .inr ⟨rfl,rfl⟩
      · rintro (hs | ⟨-,rfl⟩)
        · rw [hs] at hnew
          exact absurd rfl hnew
        · rfl
    · rw [if_neg hj]
      exact ⟨.inl,fun h => h.resolve_right fun h' => hj h'.1⟩

theorem Listed.filterMap {m : OrderedMap κ β} {l : List (κ × β)} (h : m.Listed l)
    (f : κ → β → Option β) :
    (m.filterMap f).Listed (l.filterMap fun e => (f e.1 e.2).map fun v => (e.1,v)) := by
  rcases h with ⟨stamped,rfl,hsorted,hmem⟩
  refine ⟨stamped.filterMap fun e => (f e.1 e.2.2).map fun v => (e.1,e.2.1,v),?_,?_,fun k r => ?_⟩
  · rw [List.filterMap_map,List.map_filterMap]
    congr 1
    funext e
    simp only [Function.comp_apply,Option.map_map]
    rfl
  · refine List.Pairwise.filterMap _ (fun e e' hlt b hb b' hb' => ?_) hsorted
    rcases Option.map_eq_some_iff.mp hb with ⟨v,-,rfl⟩
    rcases Option.map_eq_some_iff.mp hb' with ⟨v',-,rfl⟩
    exact hlt
  · rw [List.mem_filterMap]
    simp only [OrderedMap.filterMap,Option.bind_eq_some_iff,Option.map_eq_some_iff]
    constructor
    · rintro ⟨r',hr',v,hv,rfl⟩
      exact ⟨(k,r'),(hmem k r').mp hr',v,hv,rfl⟩
    · rintro ⟨⟨j,r'⟩,hmem',v,hv,he⟩
      simp only [Prod.mk.injEq] at he
      rcases he with ⟨rfl,rfl⟩
      exact ⟨r',(hmem j r').mpr hmem',v,hv,rfl⟩

theorem filterMap_keep {f : κ → β → Option β} {l : List (κ × β)}
    (h : ∀ e ∈ l, f e.1 e.2 = some e.2) :
    (l.filterMap fun e => (f e.1 e.2).map fun v => (e.1,v)) = l := by
  rw [List.filterMap_congr (g := some) fun e he => by rw [h e he]; rfl]
  exact List.filterMap_some

section Keys

variable {m : OrderedMap κ β} {k₁ k₂ : List (κ × β)} {x : κ × β}

/-- Only the one entry with the key is looked at. -/
theorem Listed.filterMap_at (h : m.Listed (k₁++x::k₂)) {f : κ → β → Option β}
    (hf : ∀ j v, j ≠ x.1 → f j v = some v) :
    (m.filterMap f).Listed (k₁++(((f x.1 x.2).map fun v => (x.1,v)).toList++k₂)) := by
  have hnodup := h.nodup
  rw [List.map_append,List.map_cons,List.nodup_append,List.nodup_cons] at hnodup
  rcases hnodup with ⟨-,⟨hx,-⟩,hdisj⟩
  have hx₁ : x.1 ∉ k₁.map Prod.fst := fun hmem => hdisj _ hmem _ List.mem_cons_self rfl
  have hkeep : ∀ k : List (κ × β), x.1 ∉ k.map Prod.fst → ∀ e ∈ k, f e.1 e.2 = some e.2 :=
    fun k hk e he => hf e.1 e.2 fun heq => hk (heq ▸ List.mem_map_of_mem he)
  have hlisted := h.filterMap f
  rw [List.filterMap_append,filterMap_keep (hkeep k₁ hx₁),List.filterMap_cons,
    filterMap_keep (hkeep k₂ hx)] at hlisted
  cases hfx : f x.1 x.2 with
  | none =>
    rw [hfx] at hlisted
    exact hlisted
  | some v =>
    rw [hfx] at hlisted
    exact hlisted

variable [DecidableEq κ]

theorem Listed.alter (h : m.Listed (k₁++x::k₂)) (g : β → β) :
    (m.alter x.1 g).Listed (k₁++(x.1,g x.2)::k₂) := by
  have hlisted := h.filterMap_at (f := fun j v => some (if j = x.1 then g v else v))
    fun j v hj => by rw [if_neg hj]
  rw [if_pos rfl] at hlisted
  exact hlisted

theorem Listed.erase (h : m.Listed (k₁++x::k₂)) : (m.erase x.1).Listed (k₁++k₂) := by
  have hlisted := h.filterMap_at (f := fun j v => if j = x.1 then none else some v)
    fun j v hj => if_neg hj
  rw [if_pos rfl] at hlisted
  exact hlisted

theorem Listed.erase_absent {l : List (κ × β)} (h : m.Listed l) {k : κ}
    (hk : k ∉ l.map Prod.fst) : (m.erase k).Listed l := by
  have hkeep : ∀ e ∈ l, (if e.1 = k then none else some e.2) = some e.2 := by
    rintro e he
    rw [if_neg]
    rintro rfl
    exact hk (List.mem_map_of_mem he)
  have hlisted := h.filterMap fun j v => if j = k then none else some v
  rwa [filterMap_keep (f := fun j v => if j = k then none else some v) hkeep] at hlisted

/-- Values that stand for entries, and the one that is taken out of them. -/
theorem Listed.eraseP {γ : Type} {l : List γ} {entry : γ → κ × β} (h : m.Listed (l.map entry))
    {k : κ} {p : γ → Bool} (hp : ∀ x ∈ l, p x = true ↔ (entry x).1 = k) :
    (m.erase k).Listed ((l.eraseP p).map entry) := by
  cases hfound : l.find? p with
  | some x =>
    rcases List.find?_eq_some_iff_append.mp hfound with ⟨hx,k₁,k₂,rfl,hk₁⟩
    have hkey := (hp x (by simp)).mp hx
    rw [List.map_append,List.map_cons] at h
    rw [List.eraseP_append_right _ (by simpa using hk₁),List.eraseP_cons_of_pos hx,List.map_append,
      ← hkey]
    exact h.erase
  | none =>
    have hno := List.find?_eq_none.mp hfound
    rw [List.eraseP_of_forall_not hno]
    apply h.erase_absent
    rw [List.map_map,List.mem_map]
    rintro ⟨x,hx,hxk⟩
    exact hno x hx ((hp x hx).mpr hxk)

end Keys

end OrderedMap
end CtrlPt
