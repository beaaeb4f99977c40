import Mathlib.Tactic

/-! Named values that are merged into a list: the first entry under a key keeps its name and its
place, and what is given later under that key is added to its value. -/
namespace CtrlPt
namespace Merge

theorem findIdx?_congr {α : Type} {p q : α → Bool} {l : List α} (h : ∀ x ∈ l, p x = q x) :
    l.findIdx? p = l.findIdx? q := by
  induction l with
  | nil => rfl
  | cons x l ih =>
    rw [List.findIdx?_cons,List.findIdx?_cons,h x (by simp),ih fun y hy => h y (by simp [hy])]

theorem map_modify {α β : Type} {f : α → β} {g : α → α} {g' : β → β} (h : ∀ x, f (g x) = g' (f x))
    (l : List α) (i : ℕ) : (l.modify i g).map f = (l.map f).modify i g' := by
  induction l generalizing i with
  | nil => simp
  | cons x l ih =>
    cases i with
    | zero => simp [h]
    | succ i => simp [ih]

theorem forall_modify {α : Type} {P : α → Prop} {g : α → α} {l : List α} (hl : ∀ x ∈ l, P x)
    (hg : ∀ x, P x → P (g x)) (i : ℕ) : ∀ x ∈ l.modify i g, P x := by
  induction l generalizing i with
  | nil => simp
  | cons x l ih =>
    have htail : ∀ y ∈ l, P y := fun y hy => hl y (by simp [hy])
    cases i with
    | zero =>
      rw [List.modify_zero_cons,List.forall_mem_cons]
      exact ⟨hg x (hl x (by simp)),htail⟩
    | succ i =>
      rw [List.modify_succ_cons,List.forall_mem_cons]
      exact ⟨hl x (by simp),ih htail i⟩

section
variable {α β γ κ : Type} [DecidableEq κ] (key : α → κ) (start : β → γ) (add : γ → β → γ)

/-- Merge one named value into the list. -/
def insert (l : List (α × γ)) (e : α × β) : List (α × γ) :=
  match l.findIdx? fun x => decide (key x.1 = key e.1) with
  | none => l++[(e.1,start e.2)]
  | some i => l.modify i fun x => (x.1,add x.2 e.2)

/-- The names with distinct keys, in order of first appearance. -/
def firsts : List α → List α
  | [] => []
  | a::as => a::(firsts as).filter fun b => decide (key b ≠ key a)

def given (k : κ) (es : List (α × β)) : List β :=
  (es.filter fun e => decide (key e.1 = k)).map Prod.snd

/-- The first value with the later ones added to it. -/
def merged : List β → Option γ
  | [] => none
  | b::bs => some (bs.foldl add (start b))

theorem merged_append_singleton (bs : List β) (b : β) :
    merged start add (bs++[b]) =
      some (((merged start add bs).map fun g => add g b).getD (start b)) := by
  cases bs with
  | nil => rfl
  | cons a bs => simp [merged]

@[simp] theorem given_append (k : κ) (es es' : List (α × β)) :
    given key k (es++es') = given key k es++given key k es' := by
  simp [given]

@[simp] theorem given_singleton (k : κ) (e : α × β) :
    given key k [e] = if key e.1 = k then [e.2] else [] := by
  by_cases h : key e.1 = k <;> simp [given,h]

theorem mem_firsts_key {as : List α} {a : α} (h : a ∈ as) : ∃ b ∈ firsts key as, key b = key a := by
  induction as with
  | nil => simp at h
  | cons c cs ih =>
    by_cases hc : key a = key c
    · exact ⟨c,by simp [firsts],hc.symm⟩
    · rcases List.mem_cons.mp h with rfl | h
      · exact absurd rfl hc
      · rcases ih h with ⟨b,hb,he⟩
        refine ⟨b,?_,he⟩
        rw [firsts,List.mem_cons,List.mem_filter]
        exact .inr ⟨hb,by simpa [he] using hc⟩

theorem firsts_subset {as : List α} {a : α} (h : a ∈ firsts key as) : a ∈ as := by
  induction as with
  | nil => simp [firsts] at h
  | cons c cs ih =>
    rw [firsts,List.mem_cons] at h
    rcases h with rfl | h
    · simp
    · exact List.mem_cons_of_mem _ (ih (List.mem_filter.mp h).1)

theorem firsts_distinct (as : List α) : ((firsts key as).map key).Nodup := by
  induction as with
  | nil => simp [firsts]
  | cons a as ih =>
    rw [firsts,List.map_cons,List.nodup_cons]
    refine ⟨?_,ih.sublist (List.Sublist.map key List.filter_sublist)⟩
    rw [List.mem_map]
    rintro ⟨b,hb,he⟩
    have hne := (List.mem_filter.mp hb).2
    simp [he] at hne

theorem firsts_append_singleton (as : List α) (a : α) :
    firsts key (as++[a]) = if key a ∈ as.map key then firsts key as else firsts key as++[a] := by
  induction as with
  | nil => simp [firsts]
  | cons c cs ih =>
    rw [List.cons_append,firsts,firsts,ih]
    by_cases hc : key a = key c
    · have hin : key a ∈ (c::cs).map key := by simp [hc]
      rw [if_pos hin]
      split
      · rfl
      · simp [List.filter_append,hc]
    · have hiff : key a ∈ (c::cs).map key ↔ key a ∈ cs.map key := by simp [hc]
      rw [if_congr hiff rfl rfl]
      split
      · rfl
      · simp [List.filter_append,hc]

/-- Where the keys are distinct, changing the entry found is changing every entry with its key. -/
theorem modify_findIdx {l : List (α × γ)} (hl : (l.map fun x => key x.1).Nodup) {k : κ} {i : ℕ}
    (hi : l.findIdx? (fun x => decide (key x.1 = k)) = some i) (f : α × γ → α × γ) :
    l.modify i f = l.map fun x => if key x.1 = k then f x else x := by
  induction l generalizing i with
  | nil => simp at hi
  | cons x l ih =>
    rw [List.map_cons,List.nodup_cons] at hl
    rw [List.findIdx?_cons] at hi
    by_cases hx : key x.1 = k
    · simp only [hx,decide_true,if_true,Option.some.injEq] at hi
      subst hi
      have hrest : ∀ y ∈ l, (if key y.1 = k then f y else y) = y := by
        intro y hy
        apply if_neg
        intro hy'
        exact hl.1 (List.mem_map.mpr ⟨y,hy,hy'.trans hx.symm⟩)
      rw [List.modify_zero_cons,List.map_cons,if_pos hx,List.map_congr_left hrest,List.map_id']
    · simp only [hx,decide_false,Bool.false_eq_true,if_false,Option.map_eq_some_iff] at hi
      rcases hi with ⟨j,hj,rfl⟩
      rw [List.modify_succ_cons,List.map_cons,if_neg hx,ih hl.2 hj]

/-- One entry for each key, under its first name, with the values given under that key merged in
order. -/
def Merges (l : List (α × γ)) (es : List (α × β)) : Prop :=
  l.map (fun x => (x.1,some x.2)) =
    (firsts key (es.map Prod.fst)).map fun a => (a,merged start add (given key (key a) es))

variable {key start add} {l : List (α × γ)} {es : List (α × β)}

theorem Merges.names (h : Merges key start add l es) :
    l.map Prod.fst = firsts key (es.map Prod.fst) := by
  have h := congrArg (List.map Prod.fst) h
  simpa [List.map_map,Function.comp_def] using h

theorem Merges.value (h : Merges key start add l es) {x : α × γ} (hx : x ∈ l) :
    some x.2 = merged start add (given key (key x.1) es) := by
  have hm : (x.1,some x.2) ∈ l.map fun x => (x.1,some x.2) := List.mem_map.mpr ⟨x,hx,rfl⟩
  rw [h] at hm
  rcases List.mem_map.mp hm with ⟨a,-,he⟩
  simp only [Prod.mk.injEq] at he
  rw [← he.2,he.1]

theorem given_other {k : κ} {e : α × β} (h : k ≠ key e.1) :
    given key k (es++[e]) = given key k es := by
  rw [given_append,given_singleton,if_neg h.symm,List.append_nil]

/-- A value under a new key is an entry of its own. -/
theorem Merges.insert_new (h : Merges key start add l es) {e : α × β}
    (hi : l.findIdx? (fun x => decide (key x.1 = key e.1)) = none) :
    Merges key start add (insert key start add l e) (es++[e]) := by
  have hno : key e.1 ∉ (es.map Prod.fst).map key := by
    intro hin
    rcases List.mem_map.mp hin with ⟨a,ha,hk⟩
    rcases mem_firsts_key key ha with ⟨b,hb,hbk⟩
    rw [← h.names] at hb
    rcases List.mem_map.mp hb with ⟨x,hx,rfl⟩
    have hx' := List.findIdx?_eq_none_iff.mp hi x hx
    simp [hbk,hk] at hx'
  have hnone : given key (key e.1) es = [] := by
    rw [given,List.map_eq_nil_iff,List.filter_eq_nil_iff]
    intro x hx
    simp only [decide_eq_true_eq]
    intro he
    exact hno (List.mem_map.mpr ⟨x.1,List.mem_map.mpr ⟨x,hx,rfl⟩,he⟩)
  have hold : ∀ a ∈ firsts key (es.map Prod.fst), key a ≠ key e.1 := fun a ha he =>
    hno (List.mem_map.mpr ⟨a,firsts_subset key ha,he⟩)
  rw [Merges] at h ⊢
  rw [insert,hi,List.map_append,List.map_append,List.map_cons,List.map_nil,List.map_cons,
    List.map_nil,firsts_append_singleton,if_neg hno,List.map_append,h]
  congr 1
  · apply List.map_congr_left
    intro a ha
    rw [given_other (hold a ha)]
  · rw [List.map_cons,List.map_nil,given_append,hnone,given_singleton,if_pos rfl]
    rfl

/-- A value under a key that was given before is added to its entry. -/
theorem Merges.insert_again (h : Merges key start add l es) {e : α × β} {i : ℕ}
    (hi : l.findIdx? (fun x => decide (key x.1 = key e.1)) = some i) :
    Merges key start add (insert key start add l e) (es++[e]) := by
  have hin : key e.1 ∈ (es.map Prod.fst).map key := by
    rcases List.findIdx?_eq_some_iff_getElem.mp hi with ⟨hlt,hk,-⟩
    have hx : l[i].1 ∈ firsts key (es.map Prod.fst) := by
      rw [← h.names]
      exact List.mem_map.mpr ⟨l[i],List.getElem_mem hlt,rfl⟩
    exact List.mem_map.mpr ⟨_,firsts_subset key hx,of_decide_eq_true hk⟩
  have hd : (l.map fun x => key x.1).Nodup := by
    have hd := firsts_distinct key (es.map Prod.fst)
    rw [← h.names,List.map_map] at hd
    exact hd
  rw [Merges,insert,hi]
  simp only
  rw [modify_findIdx key hd hi,List.map_map,List.map_append,List.map_cons,List.map_nil,
    firsts_append_singleton,if_pos hin,← h.names,List.map_map]
  apply List.map_congr_left
  intro x hx
  simp only [Function.comp_apply]
  by_cases hk : key x.1 = key e.1
  · rw [if_pos hk,given_append,given_singleton,if_pos hk.symm,merged_append_singleton,← h.value hx]
    rfl
  · rw [if_neg hk,given_other hk,h.value hx]

variable (key start add)

theorem foldl_insert (es : List (α × β)) :
    (es.foldl (insert key start add) []).map (fun x => (x.1,some x.2)) =
      (firsts key (es.map Prod.fst)).map fun a => (a,merged start add (given key (key a) es)) := by
  change Merges key start add _ es
  induction es using List.reverseRecOn with
  | nil => rfl
  | append_singleton es e ih =>
    rw [List.foldl_append,List.foldl_cons,List.foldl_nil]
    cases hi : (es.foldl (insert key start add) []).findIdx?
        fun x => decide (key x.1 = key e.1) with
    | none => exact ih.insert_new hi
    | some i => exact ih.insert_again hi

end

end Merge
end CtrlPt
