import CtrlPt.Lib.Rounds

/-! A memory of fixed length. Reading or writing outside of it is an error. -/
namespace CtrlPt
namespace Memory

/-- Where a program would leave its memory, abort or not come to an end. -/
inductive Fault
  | load | store | assertion
  /-- A string that has no end inside the memory. -/
  | unterminated
  | running
  deriving DecidableEq, Repr

def load {α : Type} (m : List α) (i : ℕ) : Except Fault α := (m[i]?).elim (.error .load) .ok

def store {α : Type} (m : List α) (i : ℕ) (a : α) : Except Fault (List α) :=
  if i < m.length then .ok (m.set i a) else .error .store

def require (b : Bool) : Except Fault Unit := if b then .ok () else .error .assertion

/-- All of `bytes` from `i` on. -/
def storeAll {α : Type} (m : List α) (i : ℕ) (bytes : List α) : Except Fault (List α) :=
  if i+bytes.length ≤ m.length then .ok (m.take i++(bytes++m.drop (i+bytes.length)))
  else .error .store

theorem toOption_some {α : Type} {x : Except Fault α} {a : α} (h : x.toOption = some a) :
    x = .ok a := by
  cases x with
  | error f => cases h
  | ok b => rw [Option.some.inj h]

theorem require_true {b : Bool} (h : b = true) : require b = .ok () := by
  rw [h]
  rfl

theorem load_eq {α : Type} {m : List α} {i : ℕ} {a : α} (h : m[i]? = some a) : load m i = .ok a := by
  rw [load,h]
  rfl

theorem of_load_ok {α : Type} {m : List α} {i : ℕ} {a : α} (h : load m i = .ok a) :
    m[i]? = some a := by
  rw [load] at h
  cases hm : m[i]? with
  | none =>
    rw [hm] at h
    cases h
  | some b =>
    rw [hm] at h
    cases h
    rfl

theorem of_store_ok {α : Type} {m m' : List α} {i : ℕ} {a : α} (h : store m i a = .ok m') :
    m' = m.set i a := by
  rw [store] at h
  split at h
  · exact (Except.ok.inj h).symm
  · cases h

@[simp] theorem load_mid {α : Type} (l : List α) (a : α) (r : List α) :
    load (l++a::r) l.length = .ok a :=
  load_eq (by simp)

theorem load_behind {α : Type} (l : List α) {r : List α} {k : ℕ} {a : α} (h : r[k]? = some a) :
    load (l++r) (l.length+k) = .ok a := by
  apply load_eq
  rw [List.getElem?_append_right (Nat.le_add_right _ _),Nat.add_sub_cancel_left,h]

@[simp] theorem store_mid {α : Type} (l : List α) (a b : α) (r : List α) :
    store (l++a::r) l.length b = .ok (l++b::r) := by
  rw [store,if_pos (by simp),List.set_append_right _ _ (Nat.le_refl _),Nat.sub_self,
    List.set_cons_zero]

theorem storeAll_behind {α : Type} (l r bytes : List α) (h : bytes.length ≤ r.length) :
    storeAll (l++r) l.length bytes = .ok (l++(bytes++r.drop bytes.length)) := by
  rw [storeAll,if_pos (by rw [List.length_append]; omega),List.take_left,← List.drop_drop,
    List.drop_left]

/-- A buffer of cells that hold `a` is filled from the left. -/
theorem storeAll_replicate {α : Type} (l bytes : List α) (a : α) {k : ℕ} (h : bytes.length ≤ k) :
    storeAll (l++List.replicate k a) l.length bytes =
      .ok ((l++bytes)++List.replicate (k-bytes.length) a) := by
  rw [storeAll_behind l _ bytes (by simpa using h),List.drop_replicate,List.append_assoc]

theorem store_replicate {α : Type} (l : List α) (a b : α) {k : ℕ} (h : 0 < k) :
    store (l++List.replicate k a) l.length b = .ok ((l++[b])++List.replicate (k-1) a) := by
  obtain ⟨k,rfl⟩ : ∃ m, k = m+1 := ⟨k-1,by omega⟩
  rw [List.replicate_succ,store_mid,List.append_assoc]
  rfl

end Memory
end CtrlPt
