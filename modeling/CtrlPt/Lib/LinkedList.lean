import CtrlPt.Lib.Memory

/-! Singly linked lists in memory. A node is reached through its address; one that has been freed
can be neither read nor written. -/
namespace CtrlPt
namespace Linked

open Memory Rounds

structure Node (α : Type) where
  val : α
  /-- NULL is `none`. -/
  next : Option ℕ
  deriving DecidableEq, Repr

/-- The nodes that have been allocated, in the order of their addresses. -/
abbrev Nodes (α : Type) := List (Option (Node α))

/-- The nodes and the variable that points to the first one. -/
structure Chain (α : Type) where
  nodes : Nodes α
  head : Option ℕ
  deriving DecidableEq, Repr

variable {α : Type}

def empty : Chain α := ⟨[],none⟩

def read (nodes : Nodes α) (a : ℕ) : Except Fault (Node α) :=
  (nodes[a]?).join.elim (.error .load) .ok

/-- A node is overwritten, or freed with `none`. -/
def write (nodes : Nodes α) (a : ℕ) (n : Option (Node α)) : Except Fault (Nodes α) :=
  if (nodes[a]?).join.isSome then .ok (nodes.set a n) else .error .store

/-- `malloc` of a node that is filled in. -/
def malloc (nodes : Nodes α) (v : α) : ℕ × Nodes α := (nodes.length,nodes++[some ⟨v,none⟩])

def findRound (p : α → Except Fault Bool) (nodes : Nodes α) :
    Option ℕ → Except Fault (Option ℕ ⊕ Option ℕ)
  | none => .ok (.inr none)
  | some cur => do
    let n ← read nodes cur
    let found ← p n.val
    if found then .ok (.inr (some cur)) else .ok (.inl n.next)

def find (p : α → Except Fault Bool) (c : Chain α) : Except Fault (Option ℕ) :=
  rounds .running (findRound p c.nodes) (c.nodes.length+1) c.head

def lastRound (nodes : Nodes α) (cur : ℕ) : Except Fault (ℕ ⊕ ℕ) := do
  let n ← read nodes cur
  match n.next with
  | some next => .ok (.inl next)
  | none => .ok (.inr cur)

def append (c : Chain α) (v : α) : Except Fault (Chain α) :=
  let (a,nodes) := malloc c.nodes v
  match c.head with
  | none => .ok ⟨nodes,some a⟩
  | some first => do
    let last ← rounds .running (lastRound nodes) (nodes.length+1) first
    let n ← read nodes last
    let nodes ← write nodes last (some { n with next := some a })
    .ok ⟨nodes,c.head⟩

/-- The node `cur` is taken out from behind `prev` and freed. -/
def unlinkAfter (c : Chain α) (prev cur : ℕ) : Except Fault (Chain α) := do
  let n ← read c.nodes cur
  let m ← read c.nodes prev
  let nodes ← write c.nodes prev (some { m with next := n.next })
  let nodes ← write nodes cur none
  .ok ⟨nodes,c.head⟩

def unlinkHead (c : Chain α) (cur : ℕ) : Except Fault (Chain α) := do
  let n ← read c.nodes cur
  let nodes ← write c.nodes cur none
  .ok ⟨nodes,n.next⟩

/-- The state is the node before and the node itself. -/
def removeRound (p : α → Except Fault Bool) (nodes : Nodes α) (x : ℕ × Option ℕ) :
    Except Fault ((ℕ × Option ℕ) ⊕ Option (ℕ × ℕ)) :=
  match x.2 with
  | none => .ok (.inr none)
  | some cur => do
    let n ← read nodes cur
    let found ← p n.val
    if found then .ok (.inr (some (x.1,cur))) else .ok (.inl (cur,n.next))

/-- The first node `p` holds of is taken out; the head has a case of its own. -/
def remove (p : α → Except Fault Bool) (c : Chain α) : Except Fault (Bool × Chain α) :=
  match c.head with
  | none => .ok (false,c)
  | some first => do
    let n ← read c.nodes first
    let found ← p n.val
    if found then do
      let c ← unlinkHead c first
      .ok (true,c)
    else do
      let at? ← rounds .running (removeRound p c.nodes) (c.nodes.length+1) (first,n.next)
      match at? with
      | none => .ok (false,c)
      | some (prev,cur) => do
        let c ← unlinkAfter c prev cur
        .ok (true,c)

def alter (c : Chain α) (cur : ℕ) (g : α → α) : Except Fault (Chain α) := do
  let n ← read c.nodes cur
  let nodes ← write c.nodes cur (some { n with val := g n.val })
  .ok ⟨nodes,c.head⟩

/-- The node `cur` is taken out and freed; `prev`, which may be NULL, is looked at only if `cur` is
not the first one. -/
def unlink (c : Chain α) (prev : Option ℕ) (cur : ℕ) : Except Fault (Chain α) :=
  if c.head = some cur then unlinkHead c cur
  else prev.elim (.error .store) fun prev => unlinkAfter c prev cur

def freeRound (x : Nodes α × Option ℕ) :
    Except Fault ((Nodes α × Option ℕ) ⊕ Nodes α) :=
  match x.2 with
  | none => .ok (.inr x.1)
  | some cur => do
    let n ← read x.1 cur
    let nodes ← write x.1 cur none
    .ok (.inl (nodes,n.next))

def freeAll (c : Chain α) : Except Fault (Chain α) := do
  let nodes ← rounds .running freeRound (c.nodes.length+1) (c.nodes,c.head)
  .ok ⟨nodes,none⟩

/-- The pointer to the first of some nodes, which are followed by `q`. -/
def start (l : List (ℕ × α)) (q : Option ℕ) : Option ℕ := (l.head?.map Prod.fst).or q

@[simp] theorem start_nil (q : Option ℕ) : start ([] : List (ℕ × α)) q = q := rfl

@[simp] theorem start_cons (x : ℕ × α) (l : List (ℕ × α)) (q : Option ℕ) :
    start (x::l) q = some x.1 := rfl

@[simp] theorem start_append (l₁ l₂ : List (ℕ × α)) (q : Option ℕ) :
    start (l₁++l₂) q = start l₁ (start l₂ q) := by
  cases l₁ <;> rfl

/-- The nodes of `l` point to each other and the last one to `q`. -/
def Segment (nodes : Nodes α) : List (ℕ × α) → Option ℕ → Prop
  | [], _ => True
  | x::l, q => nodes[x.1]? = some (some ⟨x.2,start l q⟩) ∧ Segment nodes l q

theorem segment_append {nodes : Nodes α} {l₁ l₂ : List (ℕ × α)} {q : Option ℕ} :
    Segment nodes (l₁++l₂) q ↔ Segment nodes l₁ (start l₂ q) ∧ Segment nodes l₂ q := by
  induction l₁ with
  | nil => exact ⟨fun h => ⟨trivial,h⟩,And.right⟩
  | cons x l₁ ih =>
    rw [List.cons_append]
    simp only [Segment,ih,start_append,and_assoc]

/-- What is done to other nodes does not matter. -/
theorem Segment.set {nodes : Nodes α} {l : List (ℕ × α)} {q : Option ℕ} (h : Segment nodes l q)
    {a : ℕ} (ha : a ∉ l.map Prod.fst) (n : Option (Node α)) : Segment (nodes.set a n) l q := by
  induction l with
  | nil => trivial
  | cons x l ih =>
    rw [List.map_cons,List.mem_cons,not_or] at ha
    refine ⟨?_,ih h.2 ha.2⟩
    rw [List.getElem?_set_ne ha.1]
    exact h.1

theorem Segment.grow {nodes : Nodes α} {l : List (ℕ × α)} {q : Option ℕ} (h : Segment nodes l q)
    (more : Nodes α) : Segment (nodes++more) l q := by
  induction l with
  | nil => trivial
  | cons x l ih =>
    refine ⟨?_,ih h.2⟩
    have hlt := (List.getElem?_eq_some_iff.mp h.1).1
    rw [List.getElem?_append_left hlt]
    exact h.1

theorem Segment.lt {nodes : Nodes α} {l : List (ℕ × α)} {q : Option ℕ} (h : Segment nodes l q) :
    ∀ a ∈ l.map Prod.fst, a < nodes.length := by
  induction l with
  | nil => simp
  | cons x l ih =>
    intro a ha
    rcases List.mem_cons.mp ha with rfl | ha
    · exact (List.getElem?_eq_some_iff.mp h.1).1
    · exact ih h.2 a ha

/-- The last node of a segment can be led to somewhere else. -/
theorem Segment.redirect {nodes : Nodes α} {l : List (ℕ × α)} {x : ℕ × α} {q : Option ℕ}
    (h : Segment nodes (l++[x]) q) (hnew : x.1 ∉ l.map Prod.fst) (q' : Option ℕ) :
    Segment (nodes.set x.1 (some ⟨x.2,q'⟩)) (l++[x]) q' := by
  rcases segment_append.mp h with ⟨hl,hx⟩
  refine segment_append.mpr ⟨hl.set hnew _,?_,trivial⟩
  rw [List.getElem?_set_self (List.getElem?_eq_some_iff.mp hx.1).1]
  rfl

/-- The list in the memory is `l`, each value with the address of its node. -/
structure Chain.Holds (c : Chain α) (l : List (ℕ × α)) : Prop where
  head : c.head = start l none
  nodes : Segment c.nodes l none
  nodup : (l.map Prod.fst).Nodup

theorem empty_holds : (empty : Chain α).Holds [] := ⟨rfl,trivial,List.nodup_nil⟩

/-- There are as many rounds as nodes. -/
theorem Chain.Holds.length_le {c : Chain α} {l : List (ℕ × α)} (h : c.Holds l) :
    l.length ≤ c.nodes.length := by
  have hsub : l.map Prod.fst ⊆ List.range c.nodes.length :=
    fun a ha => List.mem_range.mpr (h.nodes.lt a ha)
  have hlen := (h.nodup.subperm hsub).length_le
  rwa [List.length_map,List.length_range] at hlen

theorem Chain.Holds.node {c : Chain α} {k l : List (ℕ × α)} {x : ℕ × α} (h : c.Holds (k++x::l)) :
    c.nodes[x.1]? = some (some ⟨x.2,start l none⟩) := (segment_append.mp h.nodes).2.1

theorem read_eq {nodes : Nodes α} {a : ℕ} {n : Node α} (h : nodes[a]? = some (some n)) :
    read nodes a = .ok n := by
  rw [read,h]
  rfl

theorem write_eq {nodes : Nodes α} {a : ℕ} {n : Node α} (h : nodes[a]? = some (some n))
    (m : Option (Node α)) : write nodes a m = .ok (nodes.set a m) := by
  rw [write,h]
  rfl

section Walks

variable {p : α → Except Fault Bool} {f : α → Bool} {nodes : Nodes α}

theorem findRound_rounds {l : List (ℕ × α)} (h : Segment nodes l none)
    (hp : ∀ x ∈ l, p x.2 = .ok (f x.2)) {n : ℕ} (hn : l.length < n) :
    rounds .running (findRound p nodes) n (start l none) =
      .ok ((l.find? fun x => f x.2).map Prod.fst) := by
  induction l generalizing n with
  | nil => exact rounds_leave (by omega) rfl
  | cons x l ih =>
    obtain ⟨n,rfl⟩ : ∃ m, n = m+1 := ⟨n-1,by omega⟩
    have hround : findRound p nodes (some x.1) =
        if f x.2 then .ok (.inr (some x.1)) else .ok (.inl (start l none)) := by
      simp only [findRound,read_eq h.1,ok_bind,hp x List.mem_cons_self]
    rw [start_cons,List.find?_cons]
    by_cases hx : f x.2 = true
    · rw [if_pos hx] at hround
      rw [hx]
      exact rounds_leave (Nat.succ_pos n) hround
    · rw [if_neg hx] at hround
      rw [rounds_next hround,ih h.2 (fun y hy => hp y (List.mem_cons_of_mem _ hy))
        (by simpa using hn)]
      rw [Bool.not_eq_true] at hx
      rw [hx]

theorem find_spec {c : Chain α} {l : List (ℕ × α)} (h : c.Holds l)
    (hp : ∀ x ∈ l, p x.2 = .ok (f x.2)) :
    find p c = .ok ((l.find? fun x => f x.2).map Prod.fst) := by
  rw [find,h.head]
  exact findRound_rounds h.nodes hp (Nat.lt_succ_of_le h.length_le)

theorem lastRound_rounds {l : List (ℕ × α)} {x : ℕ × α} (h : Segment nodes (l++[x]) none) {n : ℕ}
    (hn : l.length < n) {first : ℕ} (hfirst : start (l++[x]) none = some first) :
    rounds .running (lastRound nodes) n first = .ok x.1 := by
  induction l generalizing n first with
  | nil =>
    cases hfirst
    apply rounds_leave (by omega)
    simp only [lastRound,read_eq h.1,ok_bind,start_nil]
  | cons y l ih =>
    obtain ⟨n,rfl⟩ : ∃ m, n = m+1 := ⟨n-1,by omega⟩
    cases hfirst
    have hnext : ∃ b, start (l++[x]) none = some b := by
      cases l <;> exact ⟨_,rfl⟩
    rcases hnext with ⟨b,hb⟩
    have hround : lastRound nodes y.1 = .ok (.inl b) := by
      have hread : read nodes y.1 = .ok ⟨y.2,some b⟩ := hb ▸ read_eq h.1
      simp only [lastRound,hread,ok_bind]
    rw [rounds_next hround]
    exact ih h.2 (by simpa using hn) hb

theorem append_spec {c : Chain α} {l : List (ℕ × α)} (h : c.Holds l) (v : α) :
    ∃ c', append c v = .ok c' ∧ c'.Holds (l++[(c.nodes.length,v)]) := by
  have hfresh : c.nodes.length ∉ l.map Prod.fst :=
    fun hmem => absurd (h.nodes.lt _ hmem) (Nat.lt_irrefl _)
  have hnodup : ((l++[(c.nodes.length,v)]).map Prod.fst).Nodup := by
    rw [List.map_append,List.nodup_append]
    refine ⟨h.nodup,List.nodup_singleton _,?_⟩
    rintro a ha b hb rfl
    rw [List.map_singleton,List.mem_singleton] at hb
    rw [hb] at ha
    exact hfresh ha
  have hnew : (c.nodes++[some ⟨v,none⟩])[c.nodes.length]? = some (some ⟨v,none⟩) := by simp
  have hgrow := h.nodes.grow [some ⟨v,none⟩]
  have hlen := h.length_le
  have hsize : (c.nodes++[some (⟨v,none⟩ : Node α)]).length = c.nodes.length+1 := by simp
  unfold append malloc
  dsimp only
  generalize c.nodes++[some (⟨v,none⟩ : Node α)] = nodes at hnew hgrow hsize
  rcases List.eq_nil_or_concat' l with rfl | ⟨l,x,rfl⟩
  · have hhead := h.head
    rw [start_nil] at hhead
    rw [hhead]
    exact ⟨_,rfl,rfl,⟨hnew,trivial⟩,hnodup⟩
  · have hfirst : ∃ first, start (l++[x]) none = some first := by
      cases l <;> exact ⟨_,rfl⟩
    rcases hfirst with ⟨first,hfirst⟩
    have hhead := h.head.trans hfirst
    have hlast : rounds .running (lastRound nodes) (nodes.length+1) first = .ok x.1 :=
      lastRound_rounds hgrow (by
        rw [List.length_append] at hlen
        omega) hfirst
    have hx := (segment_append.mp hgrow).2.1
    have hxnew : x.1 ∉ l.map Prod.fst := by
      have hd := h.nodup
      rw [List.map_append,List.nodup_append] at hd
      exact fun hmem => hd.2.2 _ hmem _ (by simp) rfl
    have hne : x.1 ≠ c.nodes.length := fun he => hfresh (he ▸ by simp)
    rw [hhead]
    simp only [hlast,ok_bind,read_eq hx,write_eq hx]
    refine ⟨_,rfl,?_,?_,hnodup⟩
    · rw [List.append_assoc,start_append]
      rw [start_append] at hfirst
      exact hfirst.symm
    · refine segment_append.mpr ⟨hgrow.redirect hxnew _,?_,trivial⟩
      rw [List.getElem?_set_ne hne]
      exact hnew

theorem unlinkHead_spec {c : Chain α} {x : ℕ × α} {l : List (ℕ × α)} (h : c.Holds (x::l)) :
    ∃ c', unlinkHead c x.1 = .ok c' ∧ c'.Holds l := by
  have hnodup := h.nodup
  rw [List.map_cons,List.nodup_cons] at hnodup
  have hx := h.nodes.1
  refine ⟨⟨c.nodes.set x.1 none,start l none⟩,?_,rfl,h.nodes.2.set hnodup.1 none,hnodup.2⟩
  simp only [unlinkHead,read_eq hx,write_eq hx,ok_bind]

theorem unlinkAfter_spec {c : Chain α} {k l : List (ℕ × α)} {y x : ℕ × α}
    (h : c.Holds ((k++[y])++x::l)) :
    ∃ c', unlinkAfter c y.1 x.1 = .ok c' ∧ c'.Holds ((k++[y])++l) := by
  rcases segment_append.mp h.nodes with ⟨hk,hx,hl⟩
  have hy := (segment_append.mp hk).2.1
  have hnodup := h.nodup
  rw [List.map_append,List.map_cons,List.nodup_append,List.nodup_cons] at hnodup
  rcases hnodup with ⟨hky,⟨hxl,hln⟩,hdisj⟩
  have hxk : x.1 ∉ (k++[y]).map Prod.fst :=
    fun hmem => hdisj _ hmem _ List.mem_cons_self rfl
  have hyl : y.1 ∉ l.map Prod.fst :=
    fun hmem => hdisj y.1 (by simp) _ (List.mem_cons_of_mem _ hmem) rfl
  have hyx : y.1 ≠ x.1 := fun he => hdisj y.1 (by simp) _ List.mem_cons_self he
  have hyk : y.1 ∉ k.map Prod.fst := by
    rw [List.map_append,List.nodup_append] at hky
    exact fun hmem => hky.2.2 _ hmem _ (by simp) rfl
  have hx' : (c.nodes.set y.1 (some ⟨y.2,start l none⟩))[x.1]? = some (some ⟨x.2,start l none⟩) := by
    rw [List.getElem?_set_ne hyx]
    exact hx
  refine ⟨⟨(c.nodes.set y.1 (some ⟨y.2,start l none⟩)).set x.1 none,c.head⟩,?_,?_,?_,?_⟩
  · simp only [unlinkAfter,read_eq hx,read_eq hy,write_eq hy,ok_bind,write_eq hx']
  · have hhead := h.head
    rw [List.append_assoc,start_append] at hhead ⊢
    exact hhead
  · exact segment_append.mpr ⟨(hk.redirect hyk _).set hxk none,(hl.set hyl _).set hxl none⟩
  · rw [List.map_append,List.nodup_append]
    exact ⟨hky,hln,fun a ha b hb => hdisj a ha b (List.mem_cons_of_mem _ hb)⟩

/-- The loop goes to the first node `p` holds of and remembers the one before. -/
theorem removeRound_rounds {l : List (ℕ × α)} (h : Segment nodes l none)
    (hp : ∀ x ∈ l, p x.2 = .ok (f x.2)) {n : ℕ} (hn : l.length < n) (k : List (ℕ × α))
    (y : ℕ × α) :
    ((∀ x ∈ l, f x.2 = false) ∧
      rounds .running (removeRound p nodes) n (y.1,start l none) = .ok none) ∨
    ∃ k' y' x l', (k++[y])++l = (k'++[y'])++x::l' ∧ (l.any fun z => f z.2) = true ∧
      (k++[y])++l.eraseP (fun z => f z.2) = (k'++[y'])++l' ∧
      rounds .running (removeRound p nodes) n (y.1,start l none) = .ok (some (y'.1,x.1)) := by
  induction l generalizing n k y with
  | nil => exact .inl ⟨by simp,rounds_leave (by omega) rfl⟩
  | cons x l ih =>
    obtain ⟨n,rfl⟩ : ∃ m, n = m+1 := ⟨n-1,by omega⟩
    have hround : removeRound p nodes (y.1,some x.1) =
        if f x.2 then .ok (.inr (some (y.1,x.1))) else .ok (.inl (x.1,start l none)) := by
      simp only [removeRound,read_eq h.1,ok_bind,hp x List.mem_cons_self]
    rw [start_cons]
    by_cases hx : f x.2 = true
    · rw [if_pos hx] at hround
      refine .inr ⟨k,y,x,l,rfl,by simp [hx],?_,rounds_leave (Nat.succ_pos n) hround⟩
      rw [List.eraseP_cons_of_pos (p := fun z : ℕ × α => f z.2) hx]
    · rw [if_neg hx] at hround
      rw [rounds_next hround]
      rw [Bool.not_eq_true] at hx
      rcases ih h.2 (fun z hz => hp z (List.mem_cons_of_mem _ hz)) (by simpa using hn) (k++[y]) x with
        ⟨hnone,hr⟩ | ⟨k',y',x',l',hsplit,hany,herase,hr⟩
      · exact .inl ⟨List.forall_mem_cons.mpr ⟨hx,hnone⟩,hr⟩
      · refine .inr ⟨k',y',x',l',?_,?_,?_,hr⟩
        · rw [← hsplit]
          simp
        · rw [List.any_cons,hany,Bool.or_true]
        · rw [List.eraseP_cons_of_neg (by simp [hx]),← herase]
          simp

theorem remove_spec {c : Chain α} {l : List (ℕ × α)} (h : c.Holds l)
    (hp : ∀ x ∈ l, p x.2 = .ok (f x.2)) :
    ∃ c', remove p c = .ok (l.any fun x => f x.2,c') ∧
      c'.Holds (l.eraseP fun x => f x.2) := by
  cases l with
  | nil =>
    have hhead := h.head
    rw [start_nil] at hhead
    exact ⟨c,by simp only [remove,hhead,List.any_nil],h⟩
  | cons y l =>
    have hhead := h.head
    rw [start_cons] at hhead
    unfold remove
    rw [hhead]
    simp only [read_eq h.nodes.1,ok_bind,hp y List.mem_cons_self]
    by_cases hy : f y.2 = true
    · rcases unlinkHead_spec h with ⟨c',hc',hh⟩
      rw [if_pos hy,hc']
      refine ⟨c',by simp [hy],?_⟩
      rwa [List.eraseP_cons_of_pos (p := fun z : ℕ × α => f z.2) hy]
    · have hlen := h.length_le
      rw [List.length_cons] at hlen
      have hrest := fun z hz => hp z (List.mem_cons_of_mem _ hz)
      rw [if_neg hy]
      rw [Bool.not_eq_true] at hy
      rcases removeRound_rounds h.nodes.2 hrest (by omega : l.length < c.nodes.length+1) [] y with
        ⟨hnone,hr⟩ | ⟨k',y',x,l',hsplit,hany,herase,hr⟩
      · rw [hr]
        have hany : (l.any fun x => f x.2) = false := by
          rw [List.any_eq_false]
          intro x hx
          rw [hnone x hx]
          exact Bool.false_ne_true
        refine ⟨c,by simp [hy,hany],?_⟩
        rw [List.eraseP_of_forall_not]
        · exact h
        · intro x hx
          rcases List.mem_cons.mp hx with rfl | hx
          · simp [hy]
          · simp [hnone x hx]
      · rw [List.nil_append,List.singleton_append] at hsplit herase
        rw [hsplit] at h
        rcases unlinkAfter_spec h with ⟨c',hc',hh⟩
        rw [hr]
        simp only [ok_bind,hc']
        refine ⟨c',by simp [hany],?_⟩
        rw [List.eraseP_cons_of_neg (by simp [hy]),herase]
        exact hh

theorem alter_spec {c : Chain α} {k l : List (ℕ × α)} {x : ℕ × α} (h : c.Holds (k++x::l))
    (g : α → α) : ∃ c', alter c x.1 g = .ok c' ∧ c'.Holds (k++(x.1,g x.2)::l) := by
  rcases segment_append.mp h.nodes with ⟨hk,hx,hl⟩
  have hnodup := h.nodup
  rw [List.map_append,List.map_cons,List.nodup_append,List.nodup_cons] at hnodup
  rcases hnodup with ⟨hkn,⟨hxl,hln⟩,hdisj⟩
  have hxk : x.1 ∉ k.map Prod.fst := fun hmem => hdisj _ hmem _ List.mem_cons_self rfl
  refine ⟨⟨c.nodes.set x.1 (some ⟨g x.2,start l none⟩),c.head⟩,?_,?_,?_,?_⟩
  · simp only [alter,read_eq hx,write_eq hx,ok_bind]
  · rw [h.head,start_append,start_append]
    rfl
  · refine segment_append.mpr ⟨hk.set hxk _,?_,hl.set hxl _⟩
    exact List.getElem?_set_self (List.getElem?_eq_some_iff.mp hx).1
  · rw [List.map_append,List.map_cons,List.nodup_append,List.nodup_cons]
    exact ⟨hkn,⟨hxl,hln⟩,hdisj⟩

def last (k : List (ℕ × α)) : Option ℕ := k.getLast?.map Prod.fst

@[simp] theorem last_concat (k : List (ℕ × α)) (x : ℕ × α) : last (k++[x]) = some x.1 := by
  rw [last,List.getLast?_concat]
  rfl

theorem unlink_spec {c : Chain α} {k l : List (ℕ × α)} {x : ℕ × α} (h : c.Holds (k++x::l)) :
    ∃ c', unlink c (last k) x.1 = .ok c' ∧ c'.Holds (k++l) := by
  have hhead := h.head
  rcases List.eq_nil_or_concat' k with rfl | ⟨k,y,rfl⟩
  · have hfirst : c.head = some x.1 := hhead
    rw [unlink,if_pos hfirst]
    exact unlinkHead_spec h
  · have hne : c.head ≠ some x.1 := by
      rw [hhead]
      intro he
      have hnodup := h.nodup
      rw [List.map_append,List.map_cons,List.nodup_append] at hnodup
      refine hnodup.2.2 x.1 ?_ _ List.mem_cons_self rfl
      rw [List.append_assoc,start_append] at he
      cases k with
      | nil => exact List.mem_singleton.mpr (Option.some.inj he).symm
      | cons z k => exact List.mem_cons.mpr (.inl (Option.some.inj he).symm)
    rw [unlink,if_neg hne,last_concat]
    exact unlinkAfter_spec h

theorem freeRound_rounds {l : List (ℕ × α)} (h : Segment nodes l none)
    (hnodup : (l.map Prod.fst).Nodup) {n : ℕ} (hn : l.length < n) :
    ∃ nodes', rounds .running freeRound n (nodes,start l none) = .ok nodes' := by
  induction l generalizing n nodes with
  | nil => exact ⟨nodes,rounds_leave (by omega) rfl⟩
  | cons x l ih =>
    obtain ⟨n,rfl⟩ : ∃ m, n = m+1 := ⟨n-1,by omega⟩
    rw [List.map_cons,List.nodup_cons] at hnodup
    have hround : freeRound (nodes,start (x::l) none) =
        .ok (.inl (nodes.set x.1 none,start l none)) := by
      simp [freeRound,read_eq h.1,write_eq h.1]
    rcases ih (h.2.set hnodup.1 none) hnodup.2 (by simpa using hn) with ⟨nodes',hr⟩
    exact ⟨nodes',(rounds_next hround).trans hr⟩

theorem freeAll_spec {c : Chain α} {l : List (ℕ × α)} (h : c.Holds l) :
    ∃ c', freeAll c = .ok c' ∧ c'.Holds [] := by
  rcases freeRound_rounds h.nodes h.nodup (Nat.lt_succ_of_le h.length_le) with ⟨nodes,hr⟩
  rw [← h.head] at hr
  refine ⟨⟨nodes,none⟩,?_,rfl,trivial,List.nodup_nil⟩
  rw [freeAll,hr]
  rfl

end Walks

end Linked
end CtrlPt
