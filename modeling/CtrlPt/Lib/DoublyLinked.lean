import CtrlPt.Lib.Memory
import Mathlib.Data.List.Chain

/-! Doubly linked lists in memory. The nodes of a list are a ring of addresses, in which neighbours
point to each other, between two nodes that stay. A change is told by what it does to the
pointers. -/
namespace CtrlPt
namespace DoublyLinked

open Memory Rounds

structure Node (A V : Type) where
  prev : Option A
  next : Option A
  item : V
  deriving DecidableEq, Repr

abbrev Heap (A V : Type) := A → Option (Node A V)

variable {A V : Type}

def read (h : Heap A V) (a : A) : Except Fault (Node A V) := (h a).elim (.error .load) .ok

def modify [DecidableEq A] (h : Heap A V) (a : A) (f : Node A V → Node A V) :
    Except Fault (Heap A V) :=
  (h a).elim (.error .store) fun n => .ok (Function.update h a (some (f n)))

def free [DecidableEq A] (h : Heap A V) (a : A) : Except Fault (Heap A V) :=
  (h a).elim (.error .store) fun _ => .ok (Function.update h a none)

def nextOf (h : Heap A V) (a : A) : Option A := (h a).bind Node.next

def prevOf (h : Heap A V) (a : A) : Option A := (h a).bind Node.prev

def itemOf (h : Heap A V) (a : A) : Option V := (h a).map Node.item

theorem read_ok {h : Heap A V} {a : A} {n : Node A V} (ha : h a = some n) : read h a = .ok n := by
  rw [read,ha]
  rfl

theorem exists_node {h : Heap A V} {a : A} {v : V} (ha : itemOf h a = some v) :
    h a = some ⟨prevOf h a,nextOf h a,v⟩ := by
  rcases Option.map_eq_some_iff.mp ha with ⟨n,hn,rfl⟩
  rw [prevOf,nextOf,hn]
  rfl

section

variable [DecidableEq A] {h : Heap A V} {a : A} {n : Node A V}

theorem modify_ok (ha : h a = some n) (f : Node A V → Node A V) :
    modify h a f = .ok (Function.update h a (some (f n))) := by
  rw [modify,ha]
  rfl

theorem prevOf_update_ne {x : A} (hx : x ≠ a) (n : Option (Node A V)) :
    prevOf (Function.update h a n) x = prevOf h x := by
  rw [prevOf,prevOf,Function.update_of_ne hx]

theorem itemOf_update_ne {x : A} (hx : x ≠ a) (n : Option (Node A V)) :
    itemOf (Function.update h a n) x = itemOf h x := by
  rw [itemOf,itemOf,Function.update_of_ne hx]

theorem free_ok (ha : h a = some n) : free h a = .ok (Function.update h a none) := by
  rw [free,ha]
  rfl

end

/-- In `ring` every node points to the one behind it, and that one back. -/
def Links (next prev : A → Option A) (ring : List A) : Prop :=
  ring.IsChain fun x y => next x = some y ∧ prev y = some x

theorem links_split {next prev : A → Option A} {l r : List A} {b t : A} :
    Links next prev (l++b::t::r) ↔
      Links next prev (l++[b]) ∧ (next b = some t ∧ prev t = some b) ∧ Links next prev (t::r) :=
  List.isChain_append_cons_cons

section

variable {next prev next' prev' : A → Option A}

theorem Links.congr {ring : List A} (h : Links next prev ring)
    (hnext : ∀ x ∈ ring.dropLast, next' x = next x) (hprev : ∀ y ∈ ring.tail, prev' y = prev y) :
    Links next' prev' ring := by
  induction ring with
  | nil => exact .nil
  | cons x ring ih =>
    cases ring with
    | nil => exact .singleton x
    | cons y ring =>
      rcases List.isChain_cons_cons.mp h with ⟨⟨hx,hy⟩,h⟩
      refine List.isChain_cons_cons.mpr ⟨⟨?_,?_⟩,ih h ?_ ?_⟩
      · rw [hnext x (by simp),hx]
      · rw [hprev y (by simp),hy]
      · exact fun z hz => hnext z (by rw [List.dropLast_cons_cons]; exact .tail _ hz)
      · exact fun z hz => hprev z (.tail _ hz)

/-- The parts in front of a place and behind it stay as they are. -/
theorem Links.parts {l r : List A} {b t : A} (hl : Links next prev (l++[b]))
    (hr : Links next prev (t::r)) (hnext : ∀ x ∈ l++t::r, next' x = next x)
    (hprev : ∀ y ∈ l++b::r, prev' y = prev y) :
    Links next' prev' (l++[b]) ∧ Links next' prev' (t::r) := by
  constructor
  · refine hl.congr ?_ ?_
    · intro x hx
      rw [List.dropLast_concat] at hx
      exact hnext x (List.mem_append_left _ hx)
    · intro y hy
      have hmem := List.mem_of_mem_tail hy
      exact hprev y (by simp only [List.mem_append,List.mem_cons] at hmem ⊢; tauto)
  · refine hr.congr ?_ ?_
    · exact fun x hx => hnext x (List.mem_append_right _ ((List.dropLast_sublist _).subset hx))
    · exact fun y hy => hprev y (List.mem_append_right _ (.tail _ hy))

/-- A node `z` between `b` and `t`. -/
theorem Links.insert {l r : List A} {b t z : A} (h : Links next prev (l++b::t::r))
    (hb : next' b = some z) (hzp : prev' z = some b) (hzn : next' z = some t)
    (ht : prev' t = some z) (hnext : ∀ x ∈ l++t::r, next' x = next x)
    (hprev : ∀ y ∈ l++b::r, prev' y = prev y) : Links next' prev' (l++b::z::t::r) := by
  rcases links_split.mp h with ⟨hl,-,hr⟩
  rcases Links.parts hl hr hnext hprev with ⟨hl,hr⟩
  exact links_split.mpr ⟨hl,⟨hb,hzp⟩,List.isChain_cons_cons.mpr ⟨⟨hzn,ht⟩,hr⟩⟩

/-- The node `d` between `b` and `t` is passed by. -/
theorem Links.erase {l r : List A} {b d t : A} (h : Links next prev (l++b::d::t::r))
    (hb : next' b = some t) (ht : prev' t = some b) (hnext : ∀ x ∈ l++t::r, next' x = next x)
    (hprev : ∀ y ∈ l++b::r, prev' y = prev y) : Links next' prev' (l++b::t::r) := by
  rcases links_split.mp h with ⟨hl,-,hr⟩
  rcases Links.parts hl (List.isChain_cons_cons.mp hr).2 hnext hprev with ⟨hl,hr⟩
  exact links_split.mpr ⟨hl,⟨hb,ht⟩,hr⟩

end

/-- All nodes of a list, with those at its ends. -/
def ring (first last : A) (entries : List (A × V)) : List A :=
  first::(entries.map Prod.fst++[last])

/-- What the heap holds between `first` and `last`. -/
structure Represents (h : Heap A V) (first last : A) (entries : List (A × V)) : Prop where
  nodup : (ring first last entries).Nodup
  links : Links (nextOf h) (prevOf h) (ring first last entries)
  items : ∀ e ∈ entries, itemOf h e.1 = some e.2

theorem mem_ring {first last : A} {entries : List (A × V)} {e : A × V} (he : e ∈ entries) :
    e.1 ∈ ring first last entries :=
  .tail _ (List.mem_append_left _ (List.mem_map_of_mem he))

theorem Represents.congr {h h' : Heap A V} {first last : A} {entries : List (A × V)}
    (hs : Represents h first last entries)
    (hsame : ∀ x ∈ ring first last entries, h' x = h x) : Represents h' first last entries := by
  refine ⟨hs.nodup,hs.links.congr ?_ ?_,?_⟩
  · intro x hx
    rw [nextOf,nextOf,hsame x ((List.dropLast_sublist _).subset hx)]
  · intro x hx
    rw [prevOf,prevOf,hsame x (List.mem_of_mem_tail hx)]
  · intro e he
    rw [itemOf,hsame e.1 (mem_ring he)]
    exact hs.items e he

/-- The node `b` is the last one before a place in the list, and `t` the first one behind it. -/
structure Between (first last : A) (l r : List (A × V)) (b t : A) : Prop where
  before : (first::l.map Prod.fst).getLast? = some b
  behind : (r.map Prod.fst++[last]).head? = some t

theorem exists_between (first last : A) (l r : List (A × V)) : ∃ b t, Between first last l r b t := by
  have hne : r.map Prod.fst++[last] ≠ [] := by simp
  exact ⟨_,_,List.getLast?_eq_some_getLast (List.cons_ne_nil _ _),List.head?_eq_some_head hne⟩

/-- The ring at a place of the list. -/
theorem Between.ring_eq {first last b t : A} {l r : List (A × V)} (h : Between first last l r b t) :
    ∃ p q, ∀ m : List (A × V), ring first last (l++(m++r)) = p++b::(m.map Prod.fst++t::q) := by
  obtain ⟨p,hp⟩ := List.getLast?_eq_some_iff.mp h.before
  obtain ⟨q,hq⟩ := List.head?_eq_some_iff.mp h.behind
  refine ⟨p,q,fun m => ?_⟩
  rw [ring,List.map_append,List.map_append,List.append_assoc,List.append_assoc,hq,← List.cons_append,
    hp,List.append_assoc]
  rfl

theorem Between.mem_ring {first last b t : A} {l r : List (A × V)} (h : Between first last l r b t) :
    b ∈ ring first last (l++r) ∧ t ∈ ring first last (l++r) := by
  obtain ⟨p,q,heq⟩ := h.ring_eq
  rw [show l++r = l++([]++r) from rfl,heq]
  simp

theorem Represents.ne {h : Heap A V} {first last b t : A} {l r : List (A × V)}
    (hs : Represents h first last (l++r)) (hb : Between first last l r b t) : b ≠ t := by
  obtain ⟨p,q,heq⟩ := hb.ring_eq
  have hn := hs.nodup
  rw [show l++r = l++([]++r) from rfl,heq] at hn
  rintro rfl
  exact (List.nodup_cons.mp (List.nodup_middle.mp hn)).1 (by simp)

theorem Represents.between {h : Heap A V} {first last b t : A} {l r : List (A × V)}
    (hs : Represents h first last (l++r)) (hb : Between first last l r b t) :
    nextOf h b = some t ∧ prevOf h t = some b := by
  obtain ⟨p,q,heq⟩ := hb.ring_eq
  have hl := hs.links
  rw [show l++r = l++([]++r) from rfl,heq] at hl
  exact (links_split.mp hl).2.1

theorem ring_apart {p q : List A} {b t : A} (h : (p++b::t::q).Nodup) : b ∉ p++t::q ∧ t ∉ p++b::q := by
  refine ⟨(List.nodup_cons.mp (List.nodup_middle.mp h)).1,?_⟩
  rw [List.append_cons,List.nodup_middle,List.append_assoc] at h
  exact (List.nodup_cons.mp h).1

/-- The pointers around a node of the list. -/
structure Inside (h : Heap A V) (b d t : A) : Prop where
  nextBefore : nextOf h b = some d
  prev : prevOf h d = some b
  next : nextOf h d = some t
  prevBehind : prevOf h t = some d
  beforeNe : b ≠ d
  behindNe : t ≠ d
  ne : b ≠ t

theorem Represents.inside {h : Heap A V} {first last b d t : A} {l r : List (A × V)} {v : V}
    (hs : Represents h first last (l++(d,v)::r)) (hb : Between first last l r b t) :
    Inside h b d t := by
  have hleft : Between first last l ((d,v)::r) b d := ⟨hb.before,rfl⟩
  have hright : Between first last (l++[(d,v)]) r d t := by
    refine ⟨?_,hb.behind⟩
    rw [List.map_append,← List.cons_append]
    exact List.getLast?_concat
  have hs' := hs
  rw [List.append_cons] at hs'
  rcases hs.between hleft with ⟨hbn,hdp⟩
  rcases hs'.between hright with ⟨hdn,htp⟩
  refine ⟨hbn,hdp,hdn,htp,hs.ne hleft,(hs'.ne hright).symm,?_⟩
  obtain ⟨p,q,heq⟩ := hb.ring_eq
  have hnodup := hs.nodup
  rw [show l++(d,v)::r = l++([(d,v)]++r) from rfl,heq] at hnodup
  rintro rfl
  exact (List.nodup_cons.mp (List.nodup_middle.mp hnodup)).1 (by simp)

section

variable {h : Heap A V} {first last d : A} {l r : List (A × V)} {v : V}

theorem Represents.next_first (hs : Represents h first last r) :
    nextOf h first = (r.map Prod.fst++[last]).head? := by
  obtain ⟨b,t,hb⟩ := exists_between first last [] r
  obtain rfl : first = b := Option.some.inj hb.before
  rw [hb.behind]
  exact (hs.between (l := []) hb).1

theorem Represents.prev_last (hs : Represents h first last l) :
    prevOf h last = (first::l.map Prod.fst).getLast? := by
  obtain ⟨b,t,hb⟩ := exists_between first last l []
  obtain rfl : last = t := Option.some.inj hb.behind
  rw [hb.before]
  rw [← List.append_nil l] at hs
  exact (hs.between hb).2

theorem Represents.next_node (hs : Represents h first last (l++(d,v)::r)) :
    nextOf h d = (r.map Prod.fst++[last]).head? := by
  obtain ⟨b,t,hb⟩ := exists_between first last l r
  rw [hb.behind]
  exact (hs.inside hb).next

theorem Represents.prev_node (hs : Represents h first last (l++(d,v)::r)) :
    prevOf h d = (first::l.map Prod.fst).getLast? := by
  obtain ⟨b,t,hb⟩ := exists_between first last l r
  rw [hb.before]
  exact (hs.inside hb).prev

end

theorem Represents.entries_nodup {h : Heap A V} {first last : A} {entries : List (A × V)}
    (hs : Represents h first last entries) : (entries.map Prod.fst).Nodup :=
  ((List.nodup_cons.mp hs.nodup).2).sublist (List.sublist_append_left _ _)

theorem Represents.not_mem_rest {h : Heap A V} {first last d : A} {l r : List (A × V)} {v : V}
    (hs : Represents h first last (l++(d,v)::r)) : d ∉ (l++r).map Prod.fst := by
  have hn := hs.entries_nodup
  rw [List.map_append,List.map_cons] at hn
  rw [List.map_append]
  exact (List.nodup_cons.mp (List.nodup_middle.mp hn)).1

/-- What `z` with `v` between `b` and `t` changes. -/
structure Inserted (h h' : Heap A V) (b z t : A) (v : V) : Prop where
  node : h' z = some ⟨some b,some t,v⟩
  next : nextOf h' b = some z
  prev : prevOf h' t = some z
  nextElse : ∀ x, x ≠ b → x ≠ z → nextOf h' x = nextOf h x
  prevElse : ∀ x, x ≠ t → x ≠ z → prevOf h' x = prevOf h x
  itemElse : ∀ x, x ≠ z → itemOf h' x = itemOf h x

theorem Inserted.item {h h' : Heap A V} {b z t : A} {v : V} (hi : Inserted h h' b z t v) :
    itemOf h' z = some v := by
  rw [itemOf,hi.node]
  rfl

theorem exists_of_nextOf {h : Heap A V} {a b : A} (ha : nextOf h a = some b) :
    ∃ n, h a = some n ∧ n.next = some b := Option.bind_eq_some_iff.mp ha

theorem exists_of_prevOf {h : Heap A V} {a b : A} (ha : prevOf h a = some b) :
    ∃ n, h a = some n ∧ n.prev = some b := Option.bind_eq_some_iff.mp ha

/-- What taking out `d` from between `b` and `t` changes, whatever becomes of `d`. -/
structure Erased (h h' : Heap A V) (b d t : A) : Prop where
  next : nextOf h' b = some t
  prev : prevOf h' t = some b
  nextElse : ∀ x, x ≠ b → x ≠ d → nextOf h' x = nextOf h x
  prevElse : ∀ x, x ≠ t → x ≠ d → prevOf h' x = prevOf h x
  itemElse : ∀ x, x ≠ d → itemOf h' x = itemOf h x

section

variable {h h' : Heap A V} {first last b t z d : A} {l r : List (A × V)} {v : V}

/-- The two neighbours are written, and perhaps the node `m` between them. -/
theorem pointers_of_writes {m p q : A} {nb nt : Node A V} (hb : h b = some nb) (ht : h t = some nt)
    (hb' : h' b = some { nb with next := some p }) (ht' : h' t = some { nt with prev := some q })
    (helse : ∀ x, x ≠ b → x ≠ t → x ≠ m → h' x = h x) :
    nextOf h' b = some p ∧ prevOf h' t = some q ∧
      (∀ x, x ≠ b → x ≠ m → nextOf h' x = nextOf h x) ∧
      (∀ x, x ≠ t → x ≠ m → prevOf h' x = prevOf h x) ∧
      ∀ x, x ≠ m → itemOf h' x = itemOf h x := by
  refine ⟨by rw [nextOf,hb']; rfl,by rw [prevOf,ht']; rfl,?_,?_,?_⟩
  · intro x hxb hxm
    by_cases hxt : x = t
    · rw [hxt,nextOf,nextOf,ht',ht]
      rfl
    · rw [nextOf,nextOf,helse x hxb hxt hxm]
  · intro x hxt hxm
    by_cases hxb : x = b
    · rw [hxb,prevOf,prevOf,hb',hb]
      rfl
    · rw [prevOf,prevOf,helse x hxb hxt hxm]
  · intro x hxm
    by_cases hxt : x = t
    · rw [hxt,itemOf,itemOf,ht',ht]
      rfl
    by_cases hxb : x = b
    · rw [hxb,itemOf,itemOf,hb',hb]
      rfl
    · rw [itemOf,itemOf,helse x hxb hxt hxm]

theorem inserted_of_writes {nb nt : Node A V} (hb : h b = some nb) (ht : h t = some nt)
    (hz : h' z = some ⟨some b,some t,v⟩) (hb' : h' b = some { nb with next := some z })
    (ht' : h' t = some { nt with prev := some z })
    (helse : ∀ x, x ≠ b → x ≠ t → x ≠ z → h' x = h x) : Inserted h h' b z t v := by
  obtain ⟨hnext,hprev,hnextElse,hprevElse,hitem⟩ := pointers_of_writes hb ht hb' ht' helse
  exact ⟨hz,hnext,hprev,hnextElse,hprevElse,hitem⟩

theorem erased_of_writes {nb nt : Node A V} (hb : h b = some nb) (ht : h t = some nt)
    (hb' : h' b = some { nb with next := some t })
    (ht' : h' t = some { nt with prev := some b })
    (helse : ∀ x, x ≠ b → x ≠ t → x ≠ d → h' x = h x) : Erased h h' b d t := by
  obtain ⟨hnext,hprev,hnextElse,hprevElse,hitem⟩ := pointers_of_writes hb ht hb' ht' helse
  exact ⟨hnext,hprev,hnextElse,hprevElse,hitem⟩

theorem Represents.insert (hs : Represents h first last (l++r)) (hb : Between first last l r b t)
    (hz : z ∉ ring first last (l++r)) (hi : Inserted h h' b z t v) :
    Represents h' first last (l++(z,v)::r) := by
  obtain ⟨p,q,heq⟩ := hb.ring_eq
  have hold := heq []
  have hnew := heq [(z,v)]
  simp only [List.nil_append,List.map_nil,List.map_cons,List.cons_append] at hold hnew
  have hnodup := hs.nodup
  have hlinks := hs.links
  rw [hold] at hnodup hlinks hz
  refine ⟨?_,?_,?_⟩
  · rw [hnew,List.append_cons,List.nodup_middle,List.append_assoc]
    exact List.nodup_cons.mpr ⟨hz,hnodup⟩
  · rw [hnew]
    rcases ring_apart hnodup with ⟨hbout,htout⟩
    refine hlinks.insert hi.next (by rw [prevOf,hi.node]; rfl) (by rw [nextOf,hi.node]; rfl) hi.prev
      ?_ ?_
    · intro x hx
      refine hi.nextElse x (fun h => hbout (h ▸ hx)) ?_
      rintro rfl
      exact hz (by simp only [List.mem_append,List.mem_cons] at hx ⊢; tauto)
    · intro x hx
      refine hi.prevElse x (fun h => htout (h ▸ hx)) ?_
      rintro rfl
      exact hz (by simp only [List.mem_append,List.mem_cons] at hx ⊢; tauto)
  · intro e he
    have hcase : e = (z,v) ∨ e ∈ l++r := by
      simp only [List.mem_append,List.mem_cons] at he ⊢
      tauto
    rcases hcase with rfl | hin
    · exact hi.item
    · rw [hi.itemElse,hs.items e hin]
      rintro rfl
      exact hz (by rw [← hold]; exact mem_ring hin)

theorem Represents.erase (hs : Represents h first last (l++(d,v)::r))
    (hb : Between first last l r b t) (hi : Erased h h' b d t) :
    Represents h' first last (l++r) := by
  obtain ⟨p,q,heq⟩ := hb.ring_eq
  have hold := heq [(d,v)]
  have hnew := heq []
  simp only [List.nil_append,List.map_nil,List.map_cons,List.cons_append] at hold hnew
  have hnodup := hs.nodup
  have hlinks := hs.links
  rw [hold] at hnodup hlinks
  have hperm := hnodup
  rw [List.append_cons,List.nodup_middle,List.append_assoc,List.singleton_append] at hperm
  obtain ⟨hd,hperm⟩ := List.nodup_cons.mp hperm
  rcases ring_apart hperm with ⟨hbout,htout⟩
  refine ⟨?_,?_,?_⟩
  · rw [hnew]
    exact hperm
  · rw [hnew]
    refine hlinks.erase hi.next hi.prev ?_ ?_
    · intro x hx
      refine hi.nextElse x (fun h => hbout (h ▸ hx)) ?_
      rintro rfl
      exact hd (by simp only [List.mem_append,List.mem_cons] at hx ⊢; tauto)
    · intro x hx
      refine hi.prevElse x (fun h => htout (h ▸ hx)) ?_
      rintro rfl
      exact hd (by simp only [List.mem_append,List.mem_cons] at hx ⊢; tauto)
  · intro e he
    have hin : e ∈ l++(d,v)::r := by
      simp only [List.mem_append,List.mem_cons] at he ⊢
      tauto
    rw [hi.itemElse,hs.items e hin]
    rintro rfl
    exact hd (by rw [← hnew]; exact mem_ring he)

end

/-- The nodes that the first pointers chain up. -/
def Chained (h : Heap A V) : Option A → List A → Prop
  | p, [] => p = none
  | p, a::l => p = some a ∧ (itemOf h a).isSome = true ∧ Chained h (prevOf h a) l

theorem Chained.congr {h h' : Heap A V} {l : List A} {p : Option A} (hc : Chained h p l)
    (hprev : ∀ a ∈ l, prevOf h' a = prevOf h a) (hitem : ∀ a ∈ l, itemOf h' a = itemOf h a) :
    Chained h' p l := by
  induction l generalizing p with
  | nil => exact hc
  | cons a l ih =>
    rcases hc with ⟨hp,ha,hc⟩
    refine ⟨hp,by rw [hitem a (.head _)]; exact ha,?_⟩
    rw [hprev a (.head _)]
    exact ih hc (fun x hx => hprev x (.tail _ hx)) fun x hx => hitem x (.tail _ hx)

end DoublyLinked
end CtrlPt
