import CtrlPt.Lib.DoublyLinked

/-! `LinkedList.c` over `FreeList.c`: lists with a node of their own at each end, and nodes that
are kept when they are deleted. -/
namespace CtrlPt
namespace Thread

open Memory Rounds DoublyLinked

/-- A `ListNode *`. The two ends are part of the list; the other nodes are blocks of memory. -/
inductive NodePtr
  | head
  | tail
  | block (n : ℕ)
  deriving DecidableEq, Repr

/-- An item is a pointer, which may be NULL. A `FreeListNode` has its `next` where a `ListNode` has
its `prev`. -/
abbrev ListHeap (α : Type) := Heap NodePtr (Option α)

structure FreeList where
  head : Option NodePtr
  maxFreeListLength : ℤ
  freeListLength : ℤ
  deriving DecidableEq, Repr

structure LinkedList (α : Type) where
  heap : ListHeap α
  size : ℤ
  freeNodeList : FreeList
  /-- Whether there is a function that frees items. -/
  freeFunc : Bool
  cmpFunc : Option (Option α → Option α → Bool)

variable {α : Type}

def freeListInit (maxFreeListLength : ℤ) : FreeList := ⟨none,maxFreeListLength,0⟩

/-- `malloc` is the block it finds, if it finds one. -/
def freeListAlloc (malloc : Option ℕ) (s : LinkedList α) :
    Except Fault (Option NodePtr × LinkedList α) :=
  match s.freeNodeList.head with
  | some ret => do
    let n ← read s.heap ret
    .ok (some ret,{ s with freeNodeList := { s.freeNodeList with
      head := n.prev, freeListLength := s.freeNodeList.freeListLength-1 } })
  | none =>
    match malloc with
    | some n => .ok (some (.block n),
        { s with heap := Function.update s.heap (.block n) (some ⟨none,none,none⟩) })
    | none => .ok (none,s)

def freeListFree (s : LinkedList α) (element : NodePtr) : Except Fault (LinkedList α) :=
  let l := s.freeNodeList
  if l.freeListLength+1 < l.maxFreeListLength then do
    let heap ← modify s.heap element fun n => { n with prev := l.head }
    .ok { s with
      heap := heap
      freeNodeList := { l with head := some element, freeListLength := l.freeListLength+1 } }
  else do
    let heap ← free s.heap element
    .ok { s with heap := heap }

def freeListDestroyRound (x : ListHeap α × Option NodePtr) :
    Except Fault ((ListHeap α × Option NodePtr) ⊕ ListHeap α) :=
  match x.2 with
  | none => .ok (.inr x.1)
  | some a => do
    let n ← read x.1 a
    let heap ← free x.1 a
    .ok (.inl (heap,n.prev))

def freeListDestroy (s : LinkedList α) : Except Fault (LinkedList α) := do
  let l := s.freeNodeList
  let heap ← rounds .running freeListDestroyRound (l.freeListLength.toNat+1) (s.heap,l.head)
  .ok { s with heap := heap, freeNodeList := { l with head := none, freeListLength := 0 } }

/-- What is in the heap stays there. -/
def listInit (heap : ListHeap α) (freelistSize : ℕ)
    (cmpFunc : Option (Option α → Option α → Bool)) (freeFunc : Bool) : LinkedList α where
  heap := Function.update (Function.update heap .head (some ⟨none,some .tail,none⟩))
    .tail (some ⟨some .head,none,none⟩)
  size := 0
  freeNodeList := freeListInit freelistSize
  freeFunc := freeFunc
  cmpFunc := cmpFunc

def createListNode (malloc : Option ℕ) (s : LinkedList α) (item : Option α) :
    Except Fault (Option NodePtr × LinkedList α) := do
  let (temp,s) ← freeListAlloc malloc s
  match temp with
  | none => .ok (none,s)
  | some a => do
    let heap ← modify s.heap a fun _ => ⟨none,none,item⟩
    .ok (some a,{ s with heap := heap })

/-- `p->… = …` -/
def modifyAt (h : ListHeap α) (p : Option NodePtr) (f : Node NodePtr (Option α) → Node NodePtr (Option α)) :
    Except Fault (ListHeap α) :=
  p.elim (.error .store) fun a => modify h a f

def listAddAfter (malloc : Option ℕ) (s : LinkedList α) (item : Option α) (bnode : Option NodePtr) :
    Except Fault (Option NodePtr × LinkedList α) :=
  match bnode with
  | none => .ok (none,s)
  | some b => do
    let (newNode,s) ← createListNode malloc s item
    match newNode with
    | none => .ok (none,s)
    | some new => do
      let n ← read s.heap b
      let heap ← modify s.heap b fun n => { n with next := some new }
      let heap ← modify heap new fun n => { n with prev := some b }
      let heap ← modify heap new fun m => { m with next := n.next }
      let heap ← modifyAt heap n.next fun n => { n with prev := some new }
      .ok (some new,{ s with heap := heap, size := s.size+1 })

def listAddBefore (malloc : Option ℕ) (s : LinkedList α) (item : Option α) (anode : Option NodePtr) :
    Except Fault (Option NodePtr × LinkedList α) :=
  match anode with
  | none => .ok (none,s)
  | some a => do
    let (newNode,s) ← createListNode malloc s item
    match newNode with
    | none => .ok (none,s)
    | some new => do
      let n ← read s.heap a
      let heap ← modify s.heap a fun n => { n with prev := some new }
      let heap ← modify heap new fun n => { n with next := some a }
      let heap ← modify heap new fun m => { m with prev := n.prev }
      let heap ← modifyAt heap n.prev fun n => { n with next := some new }
      .ok (some new,{ s with heap := heap, size := s.size+1 })

def listAddHead (malloc : Option ℕ) (s : LinkedList α) (item : Option α) :
    Except Fault (Option NodePtr × LinkedList α) := listAddAfter malloc s item (some .head)

def listAddTail (malloc : Option ℕ) (s : LinkedList α) (item : Option α) :
    Except Fault (Option NodePtr × LinkedList α) := listAddBefore malloc s item (some .tail)

/-- The item, unless it is freed. -/
def listDelNode (s : LinkedList α) (dnode : Option NodePtr) (freeItem : Bool) :
    Except Fault (Option α × LinkedList α) :=
  match dnode with
  | none => .ok (none,s)
  | some d => do
    require (d != .head)
    require (d != .tail)
    let n ← read s.heap d
    let heap ← modifyAt s.heap n.prev fun m => { m with next := n.next }
    let m ← read heap d
    let heap ← modifyAt heap m.next fun k => { k with prev := m.prev }
    let s ← freeListFree { s with heap := heap } d
    .ok (if freeItem && s.freeFunc then none else n.item,{ s with size := s.size-1 })

def listDestroyRound (freeItem : Bool) (x : LinkedList α × Option NodePtr) :
    Except Fault ((LinkedList α × Option NodePtr) ⊕ LinkedList α) :=
  if x.2 = some .tail then .ok (.inr x.1)
  else
    match x.2 with
    | none => .error .load
    | some d => do
      let n ← read x.1.heap d
      let (_,s) ← listDelNode x.1 (some d) freeItem
      .ok (.inl (s,n.next))

def listDestroy (s : LinkedList α) (freeItem : Bool) : Except Fault (LinkedList α) := do
  let h ← read s.heap .head
  let s ← rounds .running (listDestroyRound freeItem) (s.size.toNat+1) (s,h.next)
  freeListDestroy { s with size := 0 }

def listHead (s : LinkedList α) : Except Fault (Option NodePtr) :=
  if s.size = 0 then .ok none
  else do
    let n ← read s.heap .head
    .ok n.next

def listTail (s : LinkedList α) : Except Fault (Option NodePtr) :=
  if s.size = 0 then .ok none
  else do
    let n ← read s.heap .tail
    .ok n.prev

def listNext (s : LinkedList α) (node : NodePtr) : Except Fault (Option NodePtr) := do
  let n ← read s.heap node
  .ok (if n.next = some .tail then none else n.next)

def listPrev (s : LinkedList α) (node : NodePtr) : Except Fault (Option NodePtr) := do
  let n ← read s.heap node
  .ok (if n.prev = some .head then none else n.prev)

/-- Pointers are compared if there is no function. -/
def itemMatches [DecidableEq α] (cmpFunc : Option (Option α → Option α → Bool)) (item x : Option α) :
    Bool :=
  match cmpFunc with
  | some cmp => cmp item x
  | none => item == x

def listFindRound [DecidableEq α] (s : LinkedList α) (item : Option α) (finger : Option NodePtr) :
    Except Fault (Option NodePtr ⊕ Option NodePtr) :=
  if finger = some .tail then .ok (.inr none)
  else
    match finger with
    | none => .error .load
    | some a => do
      let n ← read s.heap a
      if itemMatches s.cmpFunc item n.item then .ok (.inr (some a)) else .ok (.inl n.next)

def listFind [DecidableEq α] (s : LinkedList α) (start : Option NodePtr) (item : Option α) :
    Except Fault (Option NodePtr) := do
  let n ← read s.heap (start.getD .head)
  require n.next.isSome
  rounds .running (listFindRound s item) (s.size.toNat+1) n.next

/-- The nodes one after the other with their items, from `first` on until there is no further. -/
def traverseRound (next : NodePtr → Except Fault (Option NodePtr)) (s : LinkedList α)
    (x : Option NodePtr × List (NodePtr × Option α)) :
    Except Fault ((Option NodePtr × List (NodePtr × Option α)) ⊕ List (NodePtr × Option α)) :=
  match x.1 with
  | none => .ok (.inr x.2)
  | some a => do
    let n ← read s.heap a
    let p ← next a
    .ok (.inl (p,x.2++[(a,n.item)]))

def forward (s : LinkedList α) : Except Fault (List (NodePtr × Option α)) := do
  let first ← listHead s
  rounds .running (traverseRound (listNext s) s) (s.size.toNat+1) (first,[])

def backward (s : LinkedList α) : Except Fault (List (NodePtr × Option α)) := do
  let last ← listTail s
  rounds .running (traverseRound (listPrev s) s) (s.size.toNat+1) (last,[])

end Thread
end CtrlPt
