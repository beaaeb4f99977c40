import CtrlPt.Thread.LinkedList

/-! A `LinkedList` is a sequence: what each call does to it, and what holds after any calls. -/
namespace CtrlPt
namespace Thread

open Memory Rounds DoublyLinked

/-- The sequence that a list stands for, and the nodes that were handed out and not given back. -/
structure Contents (α : Type) where
  entries : List (NodePtr × Option α)
  handed : List NodePtr
  freeFunc : Bool
  cmpFunc : Option (Option α → Option α → Bool)

variable {α : Type}

/-- The free list and its nodes, none of which is in use. -/
structure Spare (heap : ListHeap α) (l : FreeList) (handed chain : List NodePtr) : Prop where
  chained : Chained heap l.head chain
  nodup : chain.Nodup
  length : l.freeListLength = chain.length
  bounded : l.freeListLength ≤ l.maxFreeListLength
  apart : ∀ x ∈ chain, x ∉ handed ∧ x ≠ .head ∧ x ≠ .tail

structure Holds (s : LinkedList α) (a : Contents α) : Prop where
  list : Represents s.heap .head .tail a.entries
  size : s.size = a.entries.length
  spare : ∃ chain, Spare s.heap s.freeNodeList a.handed chain
  handed : a.handed.Nodup
  handedIn : ∀ x ∈ a.handed, (itemOf s.heap x).isSome = true ∧ x ≠ .head ∧ x ≠ .tail
  held : ∀ e ∈ a.entries, e.1 ∈ a.handed
  freeFunc : s.freeFunc = a.freeFunc
  cmpFunc : s.cmpFunc = a.cmpFunc

/-- `malloc` finds a block that is not allocated. -/
def Fresh (s : LinkedList α) (malloc : Option ℕ) : Prop :=
  ∀ n, malloc = some n → s.heap (.block n) = none

/-! A new node. -/

/-- A node is taken from the free list or allocated. -/
structure Created (s : LinkedList α) (a : Contents α) (item : Option α) (z : NodePtr)
    (s' : LinkedList α) : Prop where
  state : ∃ l, s' = { s with
    heap := Function.update s.heap z (some ⟨none,none,item⟩), freeNodeList := l }
  outside : z ∉ a.handed ∧ z ≠ .head ∧ z ≠ .tail
  spare : ∃ chain, Spare s'.heap s'.freeNodeList (z::a.handed) chain

theorem createListNode_spec {s : LinkedList α} {a : Contents α} {malloc : Option ℕ}
    (h : Holds s a) (hm : Fresh s malloc) (item : Option α) :
    (malloc = none ∧ createListNode malloc s item = .ok (none,s)) ∨
      ∃ z s', createListNode malloc s item = .ok (some z,s') ∧ Created s a item z s' := by
  obtain ⟨chain,hs⟩ := h.spare
  cases chain with
  | nil =>
    have hhead : s.freeNodeList.head = none := hs.chained
    cases malloc with
    | none =>
      left
      rw [createListNode,freeListAlloc,hhead]
      exact ⟨rfl,rfl⟩
    | some n =>
      right
      have hnew := hm n rfl
      refine ⟨.block n,_,?_,⟨s.freeNodeList,rfl⟩,⟨?_,by simp,by simp⟩,[],?_⟩
      · rw [createListNode,freeListAlloc,hhead]
        simp only [ok_bind]
        rw [modify_ok (Function.update_self _ _ _)]
        simp
      · intro hin
        have hsome := (h.handedIn _ hin).1
        rw [itemOf,hnew] at hsome
        cases hsome
      · exact ⟨hhead,.nil,hs.length,hs.bounded,by simp⟩
  | cons z chain =>
    right
    rcases hs.chained with ⟨hhead,hz,hchain⟩
    obtain ⟨v,hv⟩ := Option.isSome_iff_exists.mp hz
    have hnode := exists_node hv
    have hzout := hs.apart z (.head _)
    obtain ⟨hzc,hnodup⟩ := List.nodup_cons.mp hs.nodup
    have hcreate : createListNode malloc s item = .ok (some z,{ s with
        heap := Function.update s.heap z (some ⟨none,none,item⟩)
        freeNodeList := { s.freeNodeList with
          head := prevOf s.heap z, freeListLength := s.freeNodeList.freeListLength-1 } }) := by
      simp only [createListNode,freeListAlloc,hhead,read_ok hnode,ok_bind]
      rw [modify_ok hnode]
      rfl
    refine ⟨z,_,hcreate,⟨⟨_,rfl⟩,hzout,chain,?_⟩⟩
    · have hne : ∀ x ∈ chain, x ≠ z := fun x hx he => hzc (he ▸ hx)
      have hlen := hs.length
      have hbound := hs.bounded
      rw [List.length_cons] at hlen
      refine ⟨hchain.congr (fun x hx => prevOf_update_ne (hne x hx) _)
        (fun x hx => itemOf_update_ne (hne x hx) _),hnodup,?_,?_,?_⟩
      · simp only
        omega
      · simp only
        omega
      · intro x hx
        have hout := hs.apart x (.tail _ hx)
        refine ⟨?_,hout.2⟩
        rw [List.mem_cons,not_or]
        exact ⟨hne x hx,hout.1⟩

theorem Spare.congr {heap heap' : ListHeap α} {l : FreeList} {handed chain : List NodePtr}
    (h : Spare heap l handed chain) (hsame : ∀ x ∈ chain, prevOf heap' x = prevOf heap x ∧
      itemOf heap' x = itemOf heap x) : Spare heap' l handed chain :=
  ⟨h.chained.congr (fun x hx => (hsame x hx).1) fun x hx => (hsame x hx).2,h.nodup,h.length,
    h.bounded,h.apart⟩

theorem Holds.of_mem_ring {s : LinkedList α} {a : Contents α} (h : Holds s a) {x : NodePtr}
    (hx : x ∈ ring .head .tail a.entries) : x = .head ∨ x = .tail ∨ x ∈ a.handed := by
  rcases List.mem_cons.mp hx with rfl | hx
  · exact .inl rfl
  rcases List.mem_append.mp hx with hx | hx
  · rcases List.mem_map.mp hx with ⟨e,he,rfl⟩
    exact .inr (.inr (h.held e he))
  · exact .inr (.inl (List.mem_singleton.mp hx))

theorem Spare.not_ring {heap : ListHeap α} {l : FreeList} {s : LinkedList α} {a : Contents α}
    {handed chain : List NodePtr} (h : Spare heap l handed chain) (hs : Holds s a)
    (hsub : ∀ x ∈ a.handed, x ∈ handed) {x y : NodePtr} (hx : x ∈ chain)
    (hy : y ∈ ring .head .tail a.entries) : x ≠ y := by
  rintro rfl
  rcases h.apart x hx with ⟨hout,hhead,htail⟩
  rcases hs.of_mem_ring hy with he | he | he
  · exact hhead he
  · exact htail he
  · exact hout (hsub x he)

theorem Created.insert {s s₁ : LinkedList α} {a : Contents α} {item : Option α} {z : NodePtr}
    (h : Holds s a) (hc : Created s a item z s₁) {l r : List (NodePtr × Option α)} {b t : NodePtr}
    (hentries : a.entries = l++r) (hb : Between .head .tail l r b t) {heap : ListHeap α}
    (hi : Inserted s.heap heap b z t item) :
    Holds { s₁ with heap := heap, size := s₁.size+1 }
      { a with entries := l++(z,item)::r, handed := z::a.handed } := by
  have hlist := h.list
  have hring := hb.mem_ring
  rw [← hentries] at hring
  obtain ⟨chain,hspare⟩ := hc.spare
  obtain ⟨free,hs₁⟩ := hc.state
  have hz : z ∉ ring .head .tail a.entries := by
    intro hz
    rcases h.of_mem_ring hz with he | he | he
    · exact hc.outside.2.1 he
    · exact hc.outside.2.2 he
    · exact hc.outside.1 he
  rw [hentries] at hlist hz
  have hsize := h.size
  rw [hentries,List.length_append] at hsize
  refine ⟨hlist.insert hb hz hi,?_,⟨chain,?_⟩,List.nodup_cons.mpr ⟨hc.outside.1,h.handed⟩,?_,?_,?_,?_⟩
  · simp only [hs₁,hsize,List.length_append,List.length_cons]
    omega
  · refine hspare.congr fun x hx => ?_
    have hxz : x ≠ z := fun he => (hspare.apart x hx).1 (he ▸ .head _)
    have hxt := hspare.not_ring h (fun y hy => .tail _ hy) hx hring.2
    rw [hi.prevElse x hxt hxz,hi.itemElse x hxz,hs₁]
    exact ⟨(prevOf_update_ne hxz _).symm,(itemOf_update_ne hxz _).symm⟩
  · intro x hx
    rcases List.mem_cons.mp hx with rfl | hx
    · exact ⟨Option.isSome_iff_exists.mpr ⟨_,hi.item⟩,hc.outside.2⟩
    · have hxz : x ≠ z := fun he => hc.outside.1 (he ▸ hx)
      have hin := h.handedIn x hx
      exact ⟨by rw [hi.itemElse x hxz]; exact hin.1,hin.2⟩
  · intro e he
    have hcase : e = (z,item) ∨ e ∈ a.entries := by
      rw [hentries]
      simp only [List.mem_append,List.mem_cons] at he ⊢
      tauto
    rcases hcase with rfl | hin
    · exact .head _
    · exact .tail _ (h.held e hin)
  · simp only [hs₁]
    exact h.freeFunc
  · simp only [hs₁]
    exact h.cmpFunc

/-- A call that adds a node fails, if there is no memory, and changes nothing, or puts a node that is
not in use at its place. -/
def Adds (s : LinkedList α) (a : Contents α) (malloc : Option ℕ) (item : Option α)
    (l r : List (NodePtr × Option α)) (out : Except Fault (Option NodePtr × LinkedList α)) : Prop :=
  (malloc = none ∧ out = .ok (none,s)) ∨
    ∃ z s', out = .ok (some z,s') ∧ z ∉ a.handed ∧ Holds s'
      { a with entries := l++(z,item)::r, handed := z::a.handed }

/-- The nodes around a place in the list. -/
structure Around (s : LinkedList α) (b t z : NodePtr) (nb nt : Node NodePtr (Option α)) : Prop where
  before : s.heap b = some nb
  next : nb.next = some t
  behind : s.heap t = some nt
  prev : nt.prev = some b
  ne : b ≠ t
  beforeNe : b ≠ z
  behindNe : t ≠ z

theorem Created.around {s s₁ : LinkedList α} {a : Contents α} {item : Option α} {z : NodePtr}
    (h : Holds s a) (hc : Created s a item z s₁) {l r : List (NodePtr × Option α)} {b t : NodePtr}
    (hentries : a.entries = l++r) (hb : Between .head .tail l r b t) :
    ∃ nb nt, Around s b t z nb nt := by
  have hlist := h.list
  rw [hentries] at hlist
  rcases hlist.between hb with ⟨hnext,hprev⟩
  obtain ⟨nb,hnb,hn⟩ := exists_of_nextOf hnext
  obtain ⟨nt,hnt,hp⟩ := exists_of_prevOf hprev
  have hring := hb.mem_ring
  rw [← hentries] at hring
  have hout : ∀ x ∈ ring .head .tail a.entries, x ≠ z := by
    rintro x hx rfl
    rcases h.of_mem_ring hx with he | he | he
    · exact hc.outside.2.1 he
    · exact hc.outside.2.2 he
    · exact hc.outside.1 he
  exact ⟨nb,nt,hnb,hn,hnt,hp,hlist.ne hb,hout b hring.1,hout t hring.2⟩

theorem listAddAfter_spec {s : LinkedList α} {a : Contents α} {malloc : Option ℕ} (h : Holds s a)
    (hm : Fresh s malloc) (item : Option α) {l r : List (NodePtr × Option α)} {b t : NodePtr}
    (hentries : a.entries = l++r) (hb : Between .head .tail l r b t) :
    Adds s a malloc item l r (listAddAfter malloc s item (some b)) := by
  rw [listAddAfter]
  rcases createListNode_spec h hm item with ⟨hnone,hr⟩ | ⟨z,s₁,hr,hc⟩
  · exact .inl ⟨hnone,by rw [hr]; rfl⟩
  right
  obtain ⟨nb,nt,hat⟩ := hc.around h hentries hb
  obtain ⟨free,rfl⟩ := hc.state
  rw [hr,ok_bind]
  have hbefore : Function.update s.heap z (some ⟨none,none,item⟩) b = some nb := by
    rw [Function.update_of_ne hat.beforeNe]
    exact hat.before
  simp only [read_ok hbefore,ok_bind]
  rw [modify_ok hbefore,ok_bind,modify_ok (n := ⟨none,none,item⟩) (by simp [hat.beforeNe.symm]),
    ok_bind,modify_ok (Function.update_self _ _ _),ok_bind,hat.next,modifyAt,Option.elim_some,
    modify_ok (n := nt) (by simp [hat.behindNe,hat.ne.symm,hat.behind]),ok_bind]
  refine ⟨z,_,rfl,hc.outside.1,hc.insert h hentries hb ?_⟩
  refine inserted_of_writes hat.before hat.behind ?_ ?_ ?_ ?_
  · simp [hat.behindNe.symm]
  · simp [hat.beforeNe,hat.ne]
  · simp
  · intro x hxb hxt hxz
    simp [hxb,hxt,hxz]

theorem listAddBefore_spec {s : LinkedList α} {a : Contents α} {malloc : Option ℕ} (h : Holds s a)
    (hm : Fresh s malloc) (item : Option α) {l r : List (NodePtr × Option α)} {b t : NodePtr}
    (hentries : a.entries = l++r) (hb : Between .head .tail l r b t) :
    Adds s a malloc item l r (listAddBefore malloc s item (some t)) := by
  rw [listAddBefore]
  rcases createListNode_spec h hm item with ⟨hnone,hr⟩ | ⟨z,s₁,hr,hc⟩
  · exact .inl ⟨hnone,by rw [hr]; rfl⟩
  right
  obtain ⟨nb,nt,hat⟩ := hc.around h hentries hb
  obtain ⟨free,rfl⟩ := hc.state
  rw [hr,ok_bind]
  have hbehind : Function.update s.heap z (some ⟨none,none,item⟩) t = some nt := by
    rw [Function.update_of_ne hat.behindNe]
    exact hat.behind
  simp only [read_ok hbehind,ok_bind]
  rw [modify_ok hbehind,ok_bind,modify_ok (n := ⟨none,none,item⟩) (by simp [hat.behindNe.symm]),
    ok_bind,modify_ok (Function.update_self _ _ _),ok_bind,hat.prev,modifyAt,Option.elim_some,
    modify_ok (n := nb) (by simp [hat.beforeNe,hat.ne,hat.before]),ok_bind]
  refine ⟨z,_,rfl,hc.outside.1,hc.insert h hentries hb ?_⟩
  refine inserted_of_writes hat.before hat.behind ?_ ?_ ?_ ?_
  · simp [hat.beforeNe.symm]
  · simp
  · simp [hat.behindNe,hat.ne.symm]
  · intro x hxb hxt hxz
    simp [hxb,hxt,hxz]

/-! A node is given back. -/

theorem freeListFree_spec {s : LinkedList α} {handed chain : List NodePtr} {d : NodePtr}
    {n : Node NodePtr (Option α)} (hs : Spare s.heap s.freeNodeList handed chain)
    (hd : s.heap d = some n) (hin : d ∈ handed) (hnodup : handed.Nodup) (hne : d ≠ .head ∧ d ≠ .tail) :
    ∃ m l, freeListFree s d = .ok { s with
        heap := Function.update s.heap d m, freeNodeList := l } ∧
      ∃ chain, Spare (Function.update s.heap d m) l (handed.erase d) chain := by
  have hnot : d ∉ chain := fun h => (hs.apart d h).1 hin
  have hsame : ∀ x ∈ chain, x ≠ d := fun x hx he => hnot (he ▸ hx)
  have herase : ∀ x, x ∉ handed → x ∉ handed.erase d := fun x hx h => hx (List.mem_of_mem_erase h)
  have hlen := hs.length
  rw [freeListFree]
  split
  · rename_i hroom
    rw [modify_ok hd,ok_bind]
    refine ⟨_,_,rfl,d::chain,?_⟩
    refine ⟨⟨rfl,?_,?_⟩,List.nodup_cons.mpr ⟨hnot,hs.nodup⟩,?_,?_,?_⟩
    · rw [itemOf,Function.update_self]
      rfl
    · rw [prevOf,Function.update_self]
      exact hs.chained.congr (fun x hx => prevOf_update_ne (hsame x hx) _)
        fun x hx => itemOf_update_ne (hsame x hx) _
    · simp only [hlen,List.length_cons]
      omega
    · simp only
      omega
    · intro x hx
      rcases List.mem_cons.mp hx with rfl | hx
      · exact ⟨hnodup.not_mem_erase,hne⟩
      · exact ⟨herase x (hs.apart x hx).1,(hs.apart x hx).2⟩
  · rw [free_ok hd,ok_bind]
    refine ⟨_,_,rfl,chain,?_⟩
    refine ⟨?_,hs.nodup,hlen,hs.bounded,fun x hx => ⟨herase x (hs.apart x hx).1,(hs.apart x hx).2⟩⟩
    exact hs.chained.congr (fun x hx => prevOf_update_ne (hsame x hx) _)
      fun x hx => itemOf_update_ne (hsame x hx) _

theorem Holds.erase {s : LinkedList α} {a : Contents α} (h : Holds s a)
    {l r : List (NodePtr × Option α)} {b d t : NodePtr} {item : Option α}
    (hentries : a.entries = l++(d,item)::r) (hb : Between .head .tail l r b t) {heap : ListHeap α}
    {free : FreeList} {chain : List NodePtr} (he : Erased s.heap heap b d t)
    (hspare : Spare heap free (a.handed.erase d) chain) :
    Holds { s with heap := heap, freeNodeList := free, size := s.size-1 }
      { a with entries := l++r, handed := a.handed.erase d } := by
  have hlist := h.list
  rw [hentries] at hlist
  have hsize := h.size
  rw [hentries,List.length_append,List.length_cons] at hsize
  refine ⟨hlist.erase hb he,?_,⟨chain,hspare⟩,h.handed.erase d,?_,?_,h.freeFunc,h.cmpFunc⟩
  · simp only [List.length_append]
    omega
  · intro x hx
    have hxd : x ≠ d := fun he => h.handed.not_mem_erase (he ▸ hx)
    have hin := h.handedIn x (List.mem_of_mem_erase hx)
    exact ⟨by rw [he.itemElse x hxd]; exact hin.1,hin.2⟩
  · intro e he
    have hed : e.1 ≠ d := fun hd => hlist.not_mem_rest (hd ▸ List.mem_map_of_mem he)
    refine (List.mem_erase_of_ne hed).mpr (h.held e ?_)
    rw [hentries]
    simp only [List.mem_append,List.mem_cons] at he ⊢
    tauto

theorem listDelNode_spec {s : LinkedList α} {a : Contents α} (h : Holds s a)
    {l r : List (NodePtr × Option α)} {d : NodePtr} {item : Option α}
    (hentries : a.entries = l++(d,item)::r) (freeItem : Bool) :
    ∃ s', listDelNode s (some d) freeItem =
        .ok (if freeItem && a.freeFunc then none else item,s') ∧
      Holds s' { a with entries := l++r, handed := a.handed.erase d } := by
  have hlist := h.list
  rw [hentries] at hlist
  have hmem : (d,item) ∈ a.entries := by
    rw [hentries]
    simp
  have hin := h.held _ hmem
  have hne := (h.handedIn d hin).2
  obtain ⟨b,t,hb⟩ := exists_between NodePtr.head NodePtr.tail l r
  have hat := hlist.inside hb
  obtain ⟨nb,hnb,-⟩ := exists_of_nextOf hat.nextBefore
  obtain ⟨nt,hnt,-⟩ := exists_of_prevOf hat.prevBehind
  have hnd := exists_node (h.list.items _ hmem)
  rw [hat.prev,hat.next] at hnd
  obtain ⟨chain,hspare⟩ := h.spare
  have hring := hb.mem_ring
  have hsub : ∀ x ∈ ring .head .tail (l++r), x ∈ ring .head .tail a.entries := by
    intro x hx
    rw [hentries]
    simp only [ring,List.map_append,List.map_cons,List.mem_cons,List.mem_append] at hx ⊢
    tauto
  -- the two writes, and what the free list finds behind them
  generalize hh : Function.update (Function.update s.heap b (some { nb with next := some t })) t
    (some { nt with prev := some b }) = heap
  have hother : ∀ x, x ≠ b → x ≠ t → heap x = s.heap x := by
    intro x hxb hxt
    rw [← hh,Function.update_of_ne hxt,Function.update_of_ne hxb]
  have hdheap : heap d = some ⟨some b,some t,item⟩ := by
    rw [hother d hat.beforeNe.symm hat.behindNe.symm]
    exact hnd
  have hspare' : Spare heap s.freeNodeList a.handed chain := by
    refine hspare.congr fun x hx => ?_
    have hxb := hspare.not_ring h (fun _ hy => hy) hx (hsub b hring.1)
    have hxt := hspare.not_ring h (fun _ hy => hy) hx (hsub t hring.2)
    rw [prevOf,prevOf,itemOf,itemOf,hother x hxb hxt]
    exact ⟨rfl,rfl⟩
  obtain ⟨m,free,hfree,chain',hspare₂⟩ :=
    freeListFree_spec (s := { s with heap := heap }) hspare' hdheap hin h.handed hne
  have hread₁ : Function.update s.heap b (some { nb with next := some t }) d =
      some ⟨some b,some t,item⟩ := by
    rw [Function.update_of_ne hat.beforeNe.symm]
    exact hnd
  have hread₂ : Function.update s.heap b (some { nb with next := some t }) t = some nt := by
    rw [Function.update_of_ne hat.ne.symm]
    exact hnt
  have herased : Erased s.heap (Function.update heap d m) b d t := by
    refine erased_of_writes hnb hnt ?_ ?_ ?_
    · rw [Function.update_of_ne hat.beforeNe,← hh,Function.update_of_ne hat.ne,Function.update_self]
    · rw [Function.update_of_ne hat.behindNe,← hh,Function.update_self]
    · intro x hxb hxt hxd
      rw [Function.update_of_ne hxd,hother x hxb hxt]
  refine ⟨_,?_,h.erase hentries hb herased hspare₂⟩
  rw [listDelNode,require_true (bne_iff_ne.mpr hne.1),ok_bind,
    require_true (bne_iff_ne.mpr hne.2),ok_bind,read_ok hnd,ok_bind]
  simp only [modifyAt,Option.elim_some]
  rw [modify_ok hnb,ok_bind,read_ok hread₁,ok_bind]
  simp only [Option.elim_some]
  rw [modify_ok hread₂,ok_bind,hh,hfree,ok_bind,h.freeFunc]

/-! The whole list is given back. -/

theorem freeListDestroy_rounds {chain : List NodePtr} {heap : ListHeap α} {p : Option NodePtr}
    {n : ℕ} (hc : Chained heap p chain) (hnodup : chain.Nodup) (hn : chain.length < n) :
    ∃ heap', rounds .running freeListDestroyRound n (heap,p) = .ok heap' ∧
      ∀ x, x ∉ chain → heap' x = heap x := by
  induction chain generalizing heap p n with
  | nil =>
    obtain rfl : p = none := hc
    exact ⟨heap,rounds_leave (by simpa using hn) rfl,fun _ _ => rfl⟩
  | cons a chain ih =>
    rcases hc with ⟨rfl,ha,hc⟩
    obtain ⟨v,hv⟩ := Option.isSome_iff_exists.mp ha
    have hnode := exists_node hv
    obtain ⟨hnot,hnodup⟩ := List.nodup_cons.mp hnodup
    rw [List.length_cons] at hn
    obtain ⟨k,rfl⟩ : ∃ k, n = k+1 := ⟨n-1,by omega⟩
    have hround : freeListDestroyRound (heap,some a) =
        .ok (.inl (Function.update heap a none,prevOf heap a)) := by
      simp only [freeListDestroyRound,read_ok hnode,ok_bind,free_ok hnode]
    have hne : ∀ x ∈ chain, x ≠ a := fun x hx he => hnot (he ▸ hx)
    have hrest : Chained (Function.update heap a none) (prevOf heap a) chain :=
      hc.congr (fun x hx => prevOf_update_ne (hne x hx) _) fun x hx => itemOf_update_ne (hne x hx) _
    rcases ih (n := k) hrest hnodup (by omega) with ⟨heap',hrun,hsame⟩
    refine ⟨heap',(rounds_next hround).trans hrun,fun x hx => ?_⟩
    rw [List.mem_cons,not_or] at hx
    rw [hsame x hx.2,Function.update_of_ne hx.1]

theorem freeListDestroy_spec {s : LinkedList α} {a : Contents α} (h : Holds s a) :
    ∃ s', freeListDestroy s = .ok s' ∧ Holds s' a := by
  obtain ⟨chain,hs⟩ := h.spare
  have hlen := hs.length
  obtain ⟨heap,hrun,hsame⟩ := freeListDestroy_rounds hs.chained hs.nodup
    (n := s.freeNodeList.freeListLength.toNat+1) (by omega)
  have hres : freeListDestroy s = .ok { s with
      heap := heap
      freeNodeList := { s.freeNodeList with head := none, freeListLength := 0 } } := by
    rw [freeListDestroy,hrun]
    rfl
  refine ⟨_,hres,?_,h.size,⟨[],?_⟩,h.handed,?_,h.held,h.freeFunc,h.cmpFunc⟩
  · refine h.list.congr fun x hx => hsame x fun hxc => ?_
    exact hs.not_ring h (fun _ hy => hy) hxc hx rfl
  · have hbound := hs.bounded
    refine ⟨rfl,.nil,rfl,?_,by simp⟩
    simp only
    omega
  · intro x hx
    have hin := h.handedIn x hx
    have hitem : itemOf heap x = itemOf s.heap x := by
      rw [itemOf,itemOf,hsame x fun hxc => (hs.apart x hxc).1 hx]
    exact ⟨hitem.symm ▸ hin.1,hin.2⟩

theorem listDestroy_rounds {entries : List (NodePtr × Option α)} {s : LinkedList α} {a : Contents α}
    {n : ℕ} (freeItem : Bool) (h : Holds s { a with entries := entries }) (hn : entries.length < n) :
    ∃ s', rounds .running (listDestroyRound freeItem) n
        (s,(entries.map Prod.fst++[NodePtr.tail]).head?) = .ok s' ∧
      Holds s' { a with entries := [], handed := a.handed.diff (entries.map Prod.fst) } := by
  induction entries generalizing s a n with
  | nil => exact ⟨s,rounds_leave (by simpa using hn) rfl,h⟩
  | cons e entries ih =>
    obtain ⟨d,item⟩ := e
    rw [List.length_cons] at hn
    obtain ⟨k,rfl⟩ : ∃ k, n = k+1 := ⟨n-1,by omega⟩
    have hmem : (d,item) ∈ (d,item)::entries := .head _
    have hnode := exists_node (h.list.items _ hmem)
    have hne := (h.handedIn d (h.held _ hmem)).2
    obtain ⟨t,ht⟩ : ∃ t, (entries.map Prod.fst++[NodePtr.tail]).head? = some t :=
      ⟨_,List.head?_eq_some_head (by simp)⟩
    have hat := h.list.inside (l := []) ⟨rfl,ht⟩
    rcases listDelNode_spec h (l := []) rfl freeItem with ⟨s₁,hdel,hs₁⟩
    have hround : listDestroyRound freeItem (s,some d) = .ok (.inl (s₁,some t)) := by
      rw [listDestroyRound,if_neg (by simpa using hne.2)]
      simp only [read_ok hnode,ok_bind,hdel,hat.next]
    rcases ih (a := { a with handed := a.handed.erase d }) (n := k) hs₁ (by omega) with
      ⟨s₂,hrun,hs₂⟩
    rw [ht] at hrun
    refine ⟨s₂,(rounds_next hround).trans hrun,?_⟩
    rw [List.map_cons,List.diff_cons]
    exact hs₂

theorem listDestroy_spec {s : LinkedList α} {a : Contents α} (h : Holds s a) (freeItem : Bool) :
    ∃ s', listDestroy s freeItem = .ok s' ∧
      Holds s' { a with entries := [], handed := a.handed.diff (a.entries.map Prod.fst) } := by
  obtain ⟨t,ht⟩ : ∃ t, (a.entries.map Prod.fst++[NodePtr.tail]).head? = some t :=
    ⟨_,List.head?_eq_some_head (by simp)⟩
  have hnext := h.list.next_first
  rw [ht] at hnext
  obtain ⟨n,hn,hnt⟩ := exists_of_nextOf hnext
  have hsize := h.size
  rcases listDestroy_rounds (n := s.size.toNat+1) freeItem h (by omega) with ⟨s₁,hrun,hs₁⟩
  rw [ht] at hrun
  have hzero : { s₁ with size := 0 } = s₁ := by
    have := hs₁.size
    simp only [List.length_nil,Nat.cast_zero] at this
    rw [← this]
  rcases freeListDestroy_spec hs₁ with ⟨s₂,hfree,hs₂⟩
  refine ⟨s₂,?_,hs₂⟩
  rw [listDestroy,read_ok hn,ok_bind,hnt,hrun,ok_bind,hzero,hfree]

/-! Looking at the list. -/

section

variable {s : LinkedList α} {a : Contents α} {l r : List (NodePtr × Option α)} {d : NodePtr}
  {item : Option α}

theorem Holds.ne_ends (h : Holds s a) {e : NodePtr × Option α} (he : e ∈ a.entries) :
    e.1 ≠ .head ∧ e.1 ≠ .tail := (h.handedIn _ (h.held e he)).2

theorem listNext_eq (h : Holds s a) (hentries : a.entries = l++(d,item)::r) :
    listNext s d = .ok (r.map Prod.fst).head? := by
  have hlist := h.list
  rw [hentries] at hlist
  have hnode := exists_node (hlist.items (d,item) (by simp))
  rw [listNext,read_ok hnode,ok_bind,hlist.next_node]
  cases r with
  | nil => rfl
  | cons e r =>
    have he := (h.ne_ends (e := e) (by rw [hentries]; simp)).2
    simp [he]

theorem listPrev_eq (h : Holds s a) (hentries : a.entries = l++(d,item)::r) :
    listPrev s d = .ok (l.map Prod.fst).getLast? := by
  have hlist := h.list
  rw [hentries] at hlist
  have hnode := exists_node (hlist.items (d,item) (by simp))
  rw [listPrev,read_ok hnode,ok_bind,hlist.prev_node]
  rcases List.eq_nil_or_concat l with rfl | ⟨l,e,rfl⟩
  · rfl
  · have he := (h.ne_ends (e := e) (by rw [hentries]; simp)).1
    rw [List.concat_eq_append,List.map_append,← List.cons_append,List.map_singleton,
      List.getLast?_concat,List.getLast?_concat,if_neg (by simpa using he)]

theorem traverse_eq {next : NodePtr → Except Fault (Option NodePtr)}
    {order done left : List (NodePtr × Option α)} {n : ℕ}
    (hitem : ∀ e ∈ order, itemOf s.heap e.1 = some e.2)
    (hnext : ∀ l d item r, order = l++(d,item)::r → next d = .ok (r.map Prod.fst).head?)
    (horder : order = done++left) (hn : left.length < n) :
    rounds .running (traverseRound next s) n ((left.map Prod.fst).head?,done) = .ok order := by
  induction left generalizing done n with
  | nil =>
    rw [List.append_nil] at horder
    rw [horder]
    exact rounds_leave (by simpa using hn) rfl
  | cons e left ih =>
    obtain ⟨d,item⟩ := e
    rw [List.length_cons] at hn
    obtain ⟨k,rfl⟩ : ∃ k, n = k+1 := ⟨n-1,by omega⟩
    have hnode := exists_node (hitem (d,item) (by rw [horder]; simp))
    have hround : traverseRound next s (some d,done) =
        .ok (.inl ((left.map Prod.fst).head?,done++[(d,item)])) := by
      simp only [traverseRound,read_ok hnode,ok_bind,hnext done d item left horder]
    exact (rounds_next hround).trans (ih (by rw [horder]; simp) (by omega))

theorem listHead_eq (h : Holds s a) : listHead s = .ok (a.entries.map Prod.fst).head? := by
  have hsize := h.size
  rw [listHead]
  cases he : a.entries with
  | nil =>
    rw [he] at hsize
    rw [if_pos (by simpa using hsize)]
    rfl
  | cons e r =>
    have hnext := h.list.next_first
    rw [he] at hsize hnext
    obtain ⟨n,hn,hp⟩ := exists_of_nextOf hnext
    rw [if_neg (by simp at hsize; omega),read_ok hn,ok_bind,hp]
    rfl

theorem listTail_eq (h : Holds s a) : listTail s = .ok (a.entries.map Prod.fst).getLast? := by
  have hsize := h.size
  rw [listTail]
  rcases List.eq_nil_or_concat a.entries with he | ⟨l,e,he⟩
  · rw [he] at hsize
    rw [if_pos (by simpa using hsize),he]
    rfl
  · rw [List.concat_eq_append] at he
    have hprev := h.list.prev_last
    rw [he] at hsize hprev
    rw [List.map_append,← List.cons_append,List.map_singleton,List.getLast?_concat] at hprev
    obtain ⟨n,hn,hp⟩ := exists_of_prevOf hprev
    rw [if_neg (by simp at hsize; omega),read_ok hn,ok_bind,hp,he,List.map_append,
      List.map_singleton,List.getLast?_concat]

theorem forward_eq (h : Holds s a) : forward s = .ok a.entries := by
  have hsize := h.size
  rw [forward,listHead_eq h,ok_bind]
  have hstart : a.entries = []++a.entries := rfl
  exact traverse_eq h.list.items (fun l d item r he => listNext_eq h he) hstart (by omega)

theorem backward_eq (h : Holds s a) : backward s = .ok a.entries.reverse := by
  have hsize := h.size
  rw [backward,listTail_eq h,ok_bind,← List.head?_reverse,← List.map_reverse]
  have hstart : a.entries.reverse = []++a.entries.reverse := rfl
  refine traverse_eq (fun e he => h.list.items e (List.mem_reverse.mp he)) ?_ hstart ?_
  · intro l d item r he
    have he' : a.entries = r.reverse++(d,item)::l.reverse := by
      rw [← List.reverse_reverse a.entries,he]
      simp
    rw [listPrev_eq h he',List.map_reverse,List.getLast?_reverse]
  · rw [List.length_reverse]
    omega

variable [DecidableEq α]

/-- The first node behind a place whose item matches. -/
def firstMatch (a : Contents α) (item : Option α) (entries : List (NodePtr × Option α)) :
    Option NodePtr :=
  (entries.find? fun e => itemMatches a.cmpFunc item e.2).map Prod.fst

theorem listFind_rounds (h : Holds s a) (item : Option α) {n : ℕ} (hentries : a.entries = l++r)
    (hn : r.length < n) :
    rounds .running (listFindRound s item) n (r.map Prod.fst++[NodePtr.tail]).head? =
      .ok (firstMatch a item r) := by
  induction r generalizing l n with
  | nil => exact rounds_leave (by simpa using hn) rfl
  | cons e r ih =>
    obtain ⟨d,x⟩ := e
    rw [List.length_cons] at hn
    obtain ⟨k,rfl⟩ : ∃ k, n = k+1 := ⟨n-1,by omega⟩
    have hlist := h.list
    rw [hentries] at hlist
    have hmem : (d,x) ∈ a.entries := by
      rw [hentries]
      simp
    have hnode := exists_node (h.list.items _ hmem)
    rw [hlist.next_node] at hnode
    have hround : listFindRound s item (some d) =
        if itemMatches a.cmpFunc item x then .ok (.inr (some d))
        else .ok (.inl (r.map Prod.fst++[NodePtr.tail]).head?) := by
      rw [listFindRound,if_neg (by simpa using (h.ne_ends hmem).2)]
      simp only [read_ok hnode,ok_bind,h.cmpFunc]
    rw [firstMatch,List.find?_cons]
    split at hround
    · rename_i hmatch
      rw [hmatch]
      exact rounds_leave (Nat.succ_pos k) hround
    · rename_i hmatch
      rw [Bool.not_eq_true] at hmatch
      rw [hmatch]
      exact (rounds_next hround).trans (ih (l := l++[(d,x)]) (by rw [hentries]; simp) (by omega))

theorem listFind_node (h : Holds s a) (item x : Option α) (hentries : a.entries = l++(d,x)::r) :
    listFind s (some d) item = .ok (firstMatch a item r) := by
  have hsize := h.size
  have hlist := h.list
  rw [hentries] at hlist
  have hnode := exists_node (hlist.items (d,x) (by simp))
  rw [hlist.next_node] at hnode
  rw [hentries,List.length_append,List.length_cons] at hsize
  rw [listFind,Option.getD_some,read_ok hnode,ok_bind,require_true (by simp),ok_bind]
  exact listFind_rounds h item (l := l++[(d,x)]) (by rw [hentries]; simp) (by omega)

theorem listFind_head (h : Holds s a) (item : Option α) {start : Option NodePtr}
    (hstart : start.getD .head = .head) : listFind s start item = .ok (firstMatch a item a.entries) := by
  have hsize := h.size
  obtain ⟨t,ht⟩ : ∃ t, (a.entries.map Prod.fst++[NodePtr.tail]).head? = some t :=
    ⟨_,List.head?_eq_some_head (by simp)⟩
  have hnext := h.list.next_first
  rw [ht] at hnext
  obtain ⟨n,hn,hp⟩ := exists_of_nextOf hnext
  rw [listFind,hstart,read_ok hn,ok_bind,hp,require_true (b := (some t).isSome) rfl,ok_bind,
    ← ht]
  exact listFind_rounds h item (l := []) rfl (by omega)

end

/-! Calls one after the other. -/

/-- The calls of one list, with what `malloc` finds. -/
inductive ListCall (α : Type)
  | init (freelistSize : ℕ) (cmpFunc : Option (Option α → Option α → Bool)) (freeFunc : Bool)
  | addHead (malloc : Option ℕ) (item : Option α)
  | addTail (malloc : Option ℕ) (item : Option α)
  | addAfter (malloc : Option ℕ) (item : Option α) (bnode : Option NodePtr)
  | addBefore (malloc : Option ℕ) (item : Option α) (anode : Option NodePtr)
  | delNode (dnode : Option NodePtr) (freeItem : Bool)
  | find (start : Option NodePtr) (item : Option α)
  | destroy (freeItem : Bool)

inductive ListResult (α : Type)
  | node (p : Option NodePtr)
  | item (i : Option α)
  | done
  deriving DecidableEq

def listExec [DecidableEq α] (s : LinkedList α) :
    ListCall α → Except Fault (ListResult α × LinkedList α)
  | .init size cmp free => .ok (.done,listInit s.heap size cmp free)
  | .addHead malloc item => do
    let (p,s) ← listAddHead malloc s item
    .ok (.node p,s)
  | .addTail malloc item => do
    let (p,s) ← listAddTail malloc s item
    .ok (.node p,s)
  | .addAfter malloc item bnode => do
    let (p,s) ← listAddAfter malloc s item bnode
    .ok (.node p,s)
  | .addBefore malloc item anode => do
    let (p,s) ← listAddBefore malloc s item anode
    .ok (.node p,s)
  | .delNode dnode freeItem => do
    let (i,s) ← listDelNode s dnode freeItem
    .ok (.item i,s)
  | .find start item => do
    let p ← listFind s start item
    .ok (.node p,s)
  | .destroy freeItem => do
    let s ← listDestroy s freeItem
    .ok (.done,s)

/-- A caller names nodes of the list, or the end that it may add at. -/
def Legal (a : Contents α) : ListCall α → Prop
  | .addAfter _ _ bnode => ∀ b, bnode = some b → b = .head ∨ b ∈ a.entries.map Prod.fst
  | .addBefore _ _ anode => ∀ b, anode = some b → b = .tail ∨ b ∈ a.entries.map Prod.fst
  | .delNode dnode _ => ∀ d, dnode = some d → d ∈ a.entries.map Prod.fst
  | .find start _ => ∀ b, start = some b → b = .head ∨ b ∈ a.entries.map Prod.fst
  | _ => True

def ListCall.malloc : ListCall α → Option ℕ
  | .addHead malloc _ => malloc
  | .addTail malloc _ => malloc
  | .addAfter malloc _ _ => malloc
  | .addBefore malloc _ _ => malloc
  | _ => none

/-! The sequence. -/

def insertBehind (b : NodePtr) (new : NodePtr × Option α) :
    List (NodePtr × Option α) → List (NodePtr × Option α)
  | [] => []
  | e::r => if e.1 = b then e::new::r else e::insertBehind b new r

def insertBefore (b : NodePtr) (new : NodePtr × Option α) :
    List (NodePtr × Option α) → List (NodePtr × Option α)
  | [] => []
  | e::r => if e.1 = b then new::e::r else e::insertBefore b new r

def Contents.add (a : Contents α) (z : NodePtr) (entries : List (NodePtr × Option α)) : Contents α :=
  { a with entries := entries, handed := z::a.handed }

/-- The sequence after a call that has given `r`. -/
def Contents.after (a : Contents α) (c : ListCall α) (r : ListResult α) : Contents α :=
  match c, r with
  | .init _ cmp free, _ => ⟨[],a.handed,free,cmp⟩
  | .addHead _ item, .node (some z) => a.add z ((z,item)::a.entries)
  | .addTail _ item, .node (some z) => a.add z (a.entries++[(z,item)])
  | .addAfter _ item (some b), .node (some z) =>
    a.add z (if b = .head then (z,item)::a.entries else insertBehind b (z,item) a.entries)
  | .addBefore _ item (some b), .node (some z) =>
    a.add z (if b = .tail then a.entries++[(z,item)] else insertBefore b (z,item) a.entries)
  | .delNode (some d) _, _ =>
    { a with entries := a.entries.filter (·.1 ≠ d), handed := a.handed.erase d }
  | .destroy _, _ => { a with entries := [], handed := a.handed.diff (a.entries.map Prod.fst) }
  | _, _ => a

/-- What is behind a node, or all. -/
def behindNode (start : Option NodePtr) (entries : List (NodePtr × Option α)) :
    List (NodePtr × Option α) :=
  if start.getD .head = .head then entries
  else (entries.dropWhile fun e => some e.1 ≠ start).tail

/-- What a call answers: a node that is not in use, or NULL if there is no memory or no place; the
item of a node; the first match. -/
def Answers [DecidableEq α] (a : Contents α) : ListCall α → ListResult α → Prop
  | .init _ _ _, r => r = .done
  | .addHead malloc _, r => (malloc = none ∧ r = .node none) ∨ ∃ z, r = .node (some z) ∧ z ∉ a.handed
  | .addTail malloc _, r => (malloc = none ∧ r = .node none) ∨ ∃ z, r = .node (some z) ∧ z ∉ a.handed
  | .addAfter malloc _ bnode, r =>
    ((malloc = none ∨ bnode = none) ∧ r = .node none) ∨ ∃ z, r = .node (some z) ∧ z ∉ a.handed
  | .addBefore malloc _ anode, r =>
    ((malloc = none ∨ anode = none) ∧ r = .node none) ∨ ∃ z, r = .node (some z) ∧ z ∉ a.handed
  | .delNode dnode freeItem, r => r = .item (dnode.bind fun d =>
      if freeItem && a.freeFunc then none else (a.entries.lookup d).join)
  | .find start item, r => r = .node (firstMatch a item (behindNode start a.entries))
  | .destroy _, r => r = .done

/-- A call that fails, or that only looks. -/
def Idle : ListCall α → ListResult α → Prop
  | .find _ _, _ => True
  | .delNode dnode _, _ => dnode = none
  | _, r => r = .node none

/-- The lists that calls lead to, with the sequences they stand for. -/
inductive ListRun [DecidableEq α] : LinkedList α → Contents α → Prop
  | init (freelistSize : ℕ) (cmpFunc : Option (Option α → Option α → Bool)) (freeFunc : Bool) :
      ListRun (listInit (fun _ => none) freelistSize cmpFunc freeFunc) ⟨[],[],freeFunc,cmpFunc⟩
  | call {s s' : LinkedList α} {a : Contents α} {c : ListCall α} {r : ListResult α}
      (h : ListRun s a) (legal : Legal a c) (fresh : Fresh s c.malloc)
      (exec : listExec s c = .ok (r,s')) : ListRun s' (a.after c r)

/-- The list is the sequence, and its free list holds nodes that are not in use. -/
structure Refines (s : LinkedList α) (a : Contents α) : Prop where
  forward : forward s = .ok a.entries
  backward : backward s = .ok a.entries.reverse
  size : s.size = a.entries.length
  handed : a.handed.Nodup
  held : ∀ e ∈ a.entries, e.1 ∈ a.handed
  spare : ∃ chain, Spare s.heap s.freeNodeList a.handed chain

section

variable {l r : List (NodePtr × Option α)} {d : NodePtr} {item : Option α}

theorem insertBehind_eq (new : NodePtr × Option α) (h : d ∉ (l++r).map Prod.fst) :
    insertBehind d new (l++(d,item)::r) = l++(d,item)::new::r := by
  induction l with
  | nil => exact if_pos rfl
  | cons e l ih =>
    rw [List.cons_append,List.map_cons,List.mem_cons,not_or] at h
    rw [List.cons_append,insertBehind,if_neg (Ne.symm h.1),ih h.2]
    rfl

theorem insertBefore_eq (new : NodePtr × Option α) (h : d ∉ (l++r).map Prod.fst) :
    insertBefore d new (l++(d,item)::r) = l++new::(d,item)::r := by
  induction l with
  | nil => exact if_pos rfl
  | cons e l ih =>
    rw [List.cons_append,List.map_cons,List.mem_cons,not_or] at h
    rw [List.cons_append,insertBefore,if_neg (Ne.symm h.1),ih h.2]
    rfl

theorem filter_ne_eq (h : d ∉ (l++r).map Prod.fst) :
    (l++(d,item)::r).filter (·.1 ≠ d) = l++r := by
  have hne : ∀ e ∈ l++r, decide (e.1 ≠ d) = true := by
    intro e he
    refine decide_eq_true fun hd => h ?_
    rw [← hd]
    exact List.mem_map_of_mem he
  rw [List.filter_append,List.filter_cons,if_neg (by simp),← List.filter_append,
    List.filter_eq_self.mpr hne]

theorem lookup_eq (h : d ∉ (l++r).map Prod.fst) : (l++(d,item)::r).lookup d = some item := by
  induction l with
  | nil => simp
  | cons e l ih =>
    rw [List.cons_append,List.map_cons,List.mem_cons,not_or] at h
    rw [List.cons_append,List.lookup_cons,beq_eq_false_iff_ne.mpr h.1]
    exact ih h.2

theorem behindNode_eq (h : d ∉ (l++r).map Prod.fst) (hd : d ≠ .head) :
    behindNode (some d) (l++(d,item)::r) = r := by
  rw [behindNode,if_neg (by simpa using hd)]
  induction l with
  | nil => simp
  | cons e l ih =>
    rw [List.cons_append,List.map_cons,List.mem_cons,not_or] at h
    rw [List.cons_append,List.dropWhile_cons,if_pos (by simpa using Ne.symm h.1)]
    exact ih h.2

end

section

variable {s : LinkedList α} {a : Contents α}

/-- A node that a caller names stands at one place of the list. -/
theorem Holds.split (h : Holds s a) {d : NodePtr} (hd : d ∈ a.entries.map Prod.fst) :
    ∃ l item r, a.entries = l++(d,item)::r ∧ d ∉ (l++r).map Prod.fst := by
  rcases List.mem_map.mp hd with ⟨⟨d,item⟩,he,rfl⟩
  obtain ⟨l,r,hsplit⟩ := List.append_of_mem he
  have hlist := h.list
  rw [hsplit] at hlist
  exact ⟨l,item,r,hsplit,hlist.not_mem_rest⟩

theorem listAddHead_spec (h : Holds s a) {malloc : Option ℕ} (hm : Fresh s malloc)
    (item : Option α) : Adds s a malloc item [] a.entries (listAddHead malloc s item) := by
  obtain ⟨b,t,hb⟩ := exists_between NodePtr.head NodePtr.tail [] a.entries
  obtain rfl : NodePtr.head = b := Option.some.inj hb.before
  exact listAddAfter_spec h hm item rfl hb

theorem listAddTail_spec (h : Holds s a) {malloc : Option ℕ} (hm : Fresh s malloc)
    (item : Option α) : Adds s a malloc item a.entries [] (listAddTail malloc s item) := by
  obtain ⟨b,t,hb⟩ := exists_between NodePtr.head NodePtr.tail a.entries []
  obtain rfl : NodePtr.tail = t := Option.some.inj hb.behind
  exact listAddBefore_spec h hm item (List.append_nil _).symm hb

theorem listAddAfter_node (h : Holds s a) {malloc : Option ℕ} (hm : Fresh s malloc)
    (item : Option α) {l r : List (NodePtr × Option α)} {d : NodePtr} {x : Option α}
    (hentries : a.entries = l++(d,x)::r) :
    Adds s a malloc item (l++[(d,x)]) r (listAddAfter malloc s item (some d)) := by
  obtain ⟨b,t,hb⟩ := exists_between NodePtr.head NodePtr.tail (l++[(d,x)]) r
  obtain rfl : d = b := by
    have hlast := hb.before
    rw [List.map_append,← List.cons_append,List.map_singleton,List.getLast?_concat] at hlast
    exact Option.some.inj hlast
  exact listAddAfter_spec h hm item (by rw [hentries]; simp) hb

theorem listAddBefore_node (h : Holds s a) {malloc : Option ℕ} (hm : Fresh s malloc)
    (item : Option α) {l r : List (NodePtr × Option α)} {d : NodePtr} {x : Option α}
    (hentries : a.entries = l++(d,x)::r) :
    Adds s a malloc item l ((d,x)::r) (listAddBefore malloc s item (some d)) := by
  obtain ⟨b,t,hb⟩ := exists_between NodePtr.head NodePtr.tail l ((d,x)::r)
  obtain rfl : d = t := Option.some.inj hb.behind
  exact listAddBefore_spec h hm item hentries hb

/-- Behind the head, or behind a node that the caller names. -/
theorem listAddAfter_place (h : Holds s a) {malloc : Option ℕ} (hm : Fresh s malloc)
    (item : Option α) {b : NodePtr} (hb : b = .head ∨ b ∈ a.entries.map Prod.fst) :
    ∃ l r, Adds s a malloc item l r (listAddAfter malloc s item (some b)) ∧
      ∀ z, (if b = .head then (z,item)::a.entries else insertBehind b (z,item) a.entries) =
        l++(z,item)::r := by
  by_cases hhead : b = .head
  · subst hhead
    exact ⟨[],_,listAddHead_spec h hm item,fun z => if_pos rfl⟩
  · rcases h.split (hb.resolve_left hhead) with ⟨l,x,r,hentries,hout⟩
    refine ⟨l++[(b,x)],r,listAddAfter_node h hm item hentries,fun z => ?_⟩
    rw [if_neg hhead,hentries,insertBehind_eq _ hout]
    simp

/-- In front of the tail, or of a node that the caller names. -/
theorem listAddBefore_place (h : Holds s a) {malloc : Option ℕ} (hm : Fresh s malloc)
    (item : Option α) {b : NodePtr} (hb : b = .tail ∨ b ∈ a.entries.map Prod.fst) :
    ∃ l r, Adds s a malloc item l r (listAddBefore malloc s item (some b)) ∧
      ∀ z, (if b = .tail then a.entries++[(z,item)] else insertBefore b (z,item) a.entries) =
        l++(z,item)::r := by
  by_cases htail : b = .tail
  · subst htail
    exact ⟨_,[],listAddTail_spec h hm item,fun z => if_pos rfl⟩
  · rcases h.split (hb.resolve_left htail) with ⟨l,x,r,hentries,hout⟩
    refine ⟨l,(b,x)::r,listAddBefore_node h hm item hentries,fun z => ?_⟩
    rw [if_neg htail,hentries,insertBefore_eq _ hout]

theorem listInit_holds {heap : ListHeap α} {handed : List NodePtr} (hnodup : handed.Nodup)
    (hin : ∀ x ∈ handed, (itemOf heap x).isSome = true ∧ x ≠ .head ∧ x ≠ .tail) (freelistSize : ℕ)
    (cmpFunc : Option (Option α → Option α → Bool)) (freeFunc : Bool) :
    Holds (listInit heap freelistSize cmpFunc freeFunc) ⟨[],handed,freeFunc,cmpFunc⟩ := by
  refine ⟨⟨by simp [ring],?_,by simp⟩,rfl,⟨[],rfl,.nil,rfl,?_,by simp⟩,hnodup,?_,by simp,rfl,rfl⟩
  · exact List.isChain_cons_cons.mpr ⟨⟨by simp [nextOf,listInit],by simp [prevOf,listInit]⟩,
      .singleton _⟩
  · exact Int.natCast_nonneg _
  · intro x hx
    have hout := hin x hx
    refine ⟨?_,hout.2⟩
    simp only [listInit]
    rw [itemOf_update_ne hout.2.2,itemOf_update_ne hout.2.1]
    exact hout.1

variable [DecidableEq α]

/-- What a call does that adds a node. -/
theorem Adds.exec {c : ListCall α} {malloc : Option ℕ} {item : Option α}
    {l r : List (NodePtr × Option α)} {out : Except Fault (Option NodePtr × LinkedList α)}
    (hadds : Adds s a malloc item l r out) (h : Holds s a)
    (hrun : listExec s c = do
      let (p,s) ← out
      .ok (.node p,s))
    (hfail : malloc = none → Answers a c (.node none))
    (hdone : ∀ z, z ∉ a.handed → Answers a c (.node (some z)))
    (hidle : ∀ z, ¬Idle c (.node (some z))) (hsame : a.after c (.node none) = a)
    (hplace : ∀ z, a.after c (.node (some z)) = a.add z (l++(z,item)::r)) :
    ∃ r s', listExec s c = .ok (r,s') ∧ Answers a c r ∧ (Idle c r → s' = s) ∧
      Holds s' (a.after c r) := by
  rcases hadds with ⟨hnone,rfl⟩ | ⟨z,s',rfl,hz,hs'⟩
  · refine ⟨.node none,s,hrun,hfail hnone,fun _ => rfl,?_⟩
    rw [hsame]
    exact h
  · refine ⟨.node (some z),s',hrun,hdone z hz,fun hi => absurd hi (hidle z),?_⟩
    rw [hplace z]
    exact hs'

theorem listExec_spec (h : Holds s a) {c : ListCall α} (hl : Legal a c) (hm : Fresh s c.malloc) :
    ∃ r s', listExec s c = .ok (r,s') ∧ Answers a c r ∧ (Idle c r → s' = s) ∧
      Holds s' (a.after c r) := by
  cases c with
  | init size cmp free =>
    refine ⟨_,_,rfl,rfl,?_,listInit_holds h.handed h.handedIn size cmp free⟩
    rintro ⟨⟩
  | addHead malloc item =>
    exact (listAddHead_spec h hm item).exec h rfl (fun hnone => .inl ⟨hnone,rfl⟩)
      (fun z hz => .inr ⟨z,rfl,hz⟩) (by rintro z ⟨⟩) rfl fun _ => rfl
  | addTail malloc item =>
    exact (listAddTail_spec h hm item).exec h rfl (fun hnone => .inl ⟨hnone,rfl⟩)
      (fun z hz => .inr ⟨z,rfl,hz⟩) (by rintro z ⟨⟩) rfl fun _ => rfl
  | addAfter malloc item bnode =>
    cases bnode with
    | none => exact ⟨_,_,rfl,.inl ⟨.inr rfl,rfl⟩,fun _ => rfl,h⟩
    | some b =>
      rcases listAddAfter_place h hm item (hl b rfl) with ⟨l,r,hadds,hplace⟩
      exact hadds.exec h rfl (fun hnone => .inl ⟨.inl hnone,rfl⟩) (fun z hz => .inr ⟨z,rfl,hz⟩)
        (by rintro z ⟨⟩) rfl fun z => congrArg (a.add z) (hplace z)
  | addBefore malloc item anode =>
    cases anode with
    | none => exact ⟨_,_,rfl,.inl ⟨.inr rfl,rfl⟩,fun _ => rfl,h⟩
    | some b =>
      rcases listAddBefore_place h hm item (hl b rfl) with ⟨l,r,hadds,hplace⟩
      exact hadds.exec h rfl (fun hnone => .inl ⟨.inl hnone,rfl⟩) (fun z hz => .inr ⟨z,rfl,hz⟩)
        (by rintro z ⟨⟩) rfl fun z => congrArg (a.add z) (hplace z)
  | delNode dnode freeItem =>
    cases dnode with
    | none => exact ⟨_,_,rfl,rfl,fun _ => rfl,h⟩
    | some d =>
      rcases h.split (hl d rfl) with ⟨l,x,r,hentries,hout⟩
      rcases listDelNode_spec h hentries freeItem with ⟨s',hrun,hs'⟩
      refine ⟨.item (if freeItem && a.freeFunc then none else x),s',?_,?_,(by rintro ⟨⟩),?_⟩
      · rw [listExec,hrun]
        rfl
      · rw [Answers,hentries,Option.bind_some,lookup_eq hout]
        rfl
      · rw [Contents.after,hentries,filter_ne_eq hout]
        exact hs'
  | find start item =>
    have hfind : listFind s start item = .ok (firstMatch a item (behindNode start a.entries)) := by
      by_cases hstart : start.getD .head = .head
      · rw [listFind_head h item hstart,behindNode,if_pos hstart]
      · obtain ⟨d,rfl⟩ : ∃ d, start = some d := by
          cases start with
          | none => exact absurd rfl hstart
          | some d => exact ⟨d,rfl⟩
        rcases h.split ((hl d rfl).resolve_left hstart) with ⟨l,x,r,hentries,hout⟩
        rw [listFind_node h item x hentries,hentries,behindNode_eq hout hstart]
    refine ⟨.node _,s,?_,rfl,fun _ => rfl,h⟩
    rw [listExec,hfind]
    rfl
  | destroy freeItem =>
    rcases listDestroy_spec h freeItem with ⟨s',hrun,hs'⟩
    refine ⟨.done,s',?_,rfl,(by rintro ⟨⟩),hs'⟩
    rw [listExec,hrun]
    rfl

theorem ListRun.holds {s : LinkedList α} {a : Contents α} (h : ListRun s a) : Holds s a := by
  induction h with
  | init size cmp free => exact listInit_holds .nil (by simp) size cmp free
  | call h legal fresh exec ih =>
    rcases listExec_spec ih legal fresh with ⟨r,s',hrun,-,-,hs'⟩
    rw [exec] at hrun
    cases hrun
    exact hs'

/-- After any calls the list is the sequence, and the next call goes through, gives the right answer
and changes nothing if it fails. -/
theorem listRun_refines {s : LinkedList α} {a : Contents α} (h : ListRun s a) :
    Refines s a ∧ ∀ c, Legal a c → Fresh s c.malloc →
      ∃ r s', listExec s c = .ok (r,s') ∧ Answers a c r ∧ (Idle c r → s' = s) := by
  have hs := h.holds
  refine ⟨⟨forward_eq hs,backward_eq hs,hs.size,hs.handed,hs.held,hs.spare⟩,fun c hl hm => ?_⟩
  rcases listExec_spec hs hl hm with ⟨r,s',hrun,hr,hidle,-⟩
  exact ⟨r,s',hrun,hr,hidle⟩

/-- Of three nodes the second one is deleted, and comes back for a new item. -/
theorem listRun_refines_reused : ∃ s₁ s₂ s₃ s₄ s₅,
    listExec (listInit (fun _ => none) 100 none false) (.addTail (some 7) (some 5)) =
        .ok (.node (some (.block 7)),s₁) ∧
      listExec s₁ (.addTail (some 8) (some 6)) = .ok (.node (some (.block 8)),s₂) ∧
      listExec s₂ (.addHead (some 9) (some 4)) = .ok (.node (some (.block 9)),s₃) ∧
      listExec s₃ (.delNode (some (.block 8)) false) = .ok (.item (some 6),s₄) ∧
      listExec s₄ (.addAfter (some 10) (some 8) (some (.block 7))) =
        .ok (.node (some (.block 8)),s₅) ∧
      Refines s₅ ⟨[(.block 9,some 4),(.block 7,some 5),(.block 8,some 8)],
        [.block 8,.block 9,.block 7],false,none⟩ := by
  refine ⟨_,_,_,_,_,rfl,rfl,rfl,rfl,rfl,?_⟩
  have h₁ := ListRun.call (c := .addTail (some 7) (some 5)) (.init 100 none false) trivial
    (by rintro n ⟨⟩; rfl) rfl
  have h₂ := h₁.call (c := .addTail (some 8) (some 6)) trivial (by rintro n ⟨⟩; rfl) rfl
  have h₃ := h₂.call (c := .addHead (some 9) (some 4)) trivial (by rintro n ⟨⟩; rfl) rfl
  have h₄ := h₃.call (c := .delNode (some (.block 8)) false) (by rintro d ⟨⟩; decide)
    (by rintro n ⟨⟩) rfl
  exact (listRun_refines (h₄.call (c := .addAfter (some 10) (some 8) (some (.block 7)))
    (by rintro b ⟨⟩; exact .inr (by decide)) (by rintro n ⟨⟩; rfl) rfl)).1

end

end Thread
end CtrlPt
