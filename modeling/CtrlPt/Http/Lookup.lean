import CtrlPt.Http.HeaderList
import CtrlPt.Lib.Memory

/-! `map_str_to_int` on the two tables of the parser: the binary search stays inside the table,
ends, and finds what a linear search finds. -/
namespace CtrlPt
namespace Http

open CText Rounds Memory

variable {ι : Type}

/-- The names are compared as the search is asked to. -/
def sameName (caseSensitive : Bool) (a b : List UInt8) : Bool :=
  if caseSensitive then a == b else lowerName a == lowerName b

def findName (name : List UInt8) (table : List (List UInt8 × ι)) (caseSensitive : Bool) :
    Option ℕ := table.findIdx? fun e => sameName caseSensitive name e.1

def compareName (caseSensitive : Bool) (name entry : List UInt8) : ℤ :=
  if caseSensitive then memptrCmp name entry else memptrCmpNocase name entry

def entryAt (table : List (List UInt8 × ι)) (mid : ℤ) : Except Fault (List UInt8 × ι) :=
  if mid < 0 then .error .load else load table mid.toNat

/-- One round, with `top` and `bot`; it leaves with the index or with -1. -/
def lookupRound (name : List UInt8) (table : List (List UInt8 × ι)) (caseSensitive : Bool)
    (x : ℤ × ℤ) : Except Fault ((ℤ × ℤ) ⊕ ℤ) :=
  if x.1 ≤ x.2 then do
    let mid := Int.tdiv (x.1+x.2) 2
    let entry ← entryAt table mid
    let cmp := compareName caseSensitive name entry.1
    .ok (if 0 < cmp then .inl (mid+1,x.2) else if cmp < 0 then .inl (x.1,mid-1) else .inr mid)
  else .ok (.inr (-1))

/-- `map_str_to_int` with the accesses to the table and the end of the loop left open. -/
def checkedMapStrToInt (name : List UInt8) (table : List (List UInt8 × ι)) (numEntries : ℕ)
    (caseSensitive : Bool) : Except Fault ℤ :=
  rounds .running (lookupRound name table caseSensitive) (numEntries+1) (0,(numEntries : ℤ)-1)

/-- The index as C has it. -/
def indexOrNone (r : Option ℕ) : ℤ := r.elim (-1) fun i => i

theorem entryAt_of_mem {table : List (List UInt8 × ι)} {mid : ℤ} (h₀ : 0 ≤ mid)
    (hn : mid < table.length) : ∃ e, entryAt table mid = .ok e ∧ table[mid.toNat]? = some e ∧
      ((table.map Prod.fst)[mid.toNat]?).getD [] = e.1 := by
  have hlt : mid.toNat < table.length := by omega
  have he : table[mid.toNat]? = some table[mid.toNat] := List.getElem?_eq_getElem hlt
  refine ⟨_,?_,he,?_⟩
  · rw [entryAt,if_neg (by omega),load_eq he]
  · rw [List.getElem?_map,he]
    rfl

/-- No access is outside of the table and the loop ends, with what `map_str_to_int` returns. -/
theorem checkedMapStrToInt_eq (name : List UInt8) (table : List (List UInt8 × ι))
    (caseSensitive : Bool) : checkedMapStrToInt name table table.length caseSensitive =
      .ok (indexOrNone (mapStrToInt name table caseSensitive)) := by
  let cmp (i : ℕ) : ℤ := compareName caseSensitive name (((table.map Prod.fst)[i]?).getD [])
  refine rounds_eq (I := fun x : ℤ × ℤ => 0 ≤ x.1 ∧ x.2 < table.length)
    (μ := fun x : ℤ × ℤ => (x.2+1-x.1).toNat)
    (f := fun x => indexOrNone (Loop.run (fun x : ℤ × ℤ => (x.2+1-x.1).toNat) (searchRound cmp)
      (fun _ => none) x)) ?_ ⟨Int.le_refl 0,by simp only; omega⟩ (by simp only; omega)
  rintro ⟨top,bot⟩ ⟨h₀,hn⟩
  simp only at h₀ hn
  by_cases hle : top ≤ bot
  swap
  · left
    have hout : searchRound cmp (top,bot) = .inr none := if_neg hle
    rw [lookupRound,if_neg hle,Loop.run_inr hout]
    rfl
  have hmid : 0 ≤ (top+bot)/2 ∧ (top+bot)/2 < table.length := by omega
  rcases entryAt_of_mem hmid.1 hmid.2 with ⟨e,hentry,-,hname⟩
  have hcmp : cmp ((top+bot)/2).toNat = compareName caseSensitive name e.1 :=
    congrArg (compareName caseSensitive name) hname
  rw [lookupRound,if_pos hle]
  simp only [Int.tdiv_eq_ediv_of_nonneg (show 0 ≤ top+bot by omega),hentry,ok_bind,← hcmp]
  by_cases hpos : 0 < cmp ((top+bot)/2).toNat
  · have hround : searchRound cmp (top,bot) = .inl ((top+bot)/2+1,bot) := by
      simp only [searchRound,if_pos hle,if_pos hpos]
    refine .inr ⟨_,by rw [if_pos hpos],⟨by simp only; omega,hn⟩,by simp only; omega,?_⟩
    rw [Loop.run_inl (searchRound_descends cmp) hround]
  by_cases hneg : cmp ((top+bot)/2).toNat < 0
  · have hround : searchRound cmp (top,bot) = .inl (top,(top+bot)/2-1) := by
      simp only [searchRound,if_pos hle,if_neg hpos,if_pos hneg]
    refine .inr ⟨_,by rw [if_neg hpos,if_pos hneg],⟨h₀,by simp only; omega⟩,by simp only; omega,?_⟩
    rw [Loop.run_inl (searchRound_descends cmp) hround]
  · have hround : searchRound cmp (top,bot) = .inr (some ((top+bot)/2).toNat) := by
      simp only [searchRound,if_pos hle,if_neg hpos,if_neg hneg]
    left
    rw [if_neg hpos,if_neg hneg,Loop.run_inr hround]
    simp only [indexOrNone,Option.elim_some,Int.toNat_of_nonneg hmid.1]

theorem compareName_eq_zero {caseSensitive : Bool} {name entry : List UInt8} (hn : 0 ∉ name)
    (he : 0 ∉ entry) :
    compareName caseSensitive name entry = 0 ↔ sameName caseSensitive name entry = true := by
  cases caseSensitive with
  | true =>
    simp only [compareName,sameName,if_true,beq_iff_eq]
    rw [memptrCmp_eq_zero he,untilNul_of_no_nul hn]
  | false =>
    simp only [compareName,sameName,Bool.false_eq_true,if_false,beq_iff_eq]
    rw [memptrCmpNocase_eq_zero he,untilNul_of_no_nul hn]

theorem compareName_congr {caseSensitive : Bool} {name name' : List UInt8}
    (h : sameName caseSensitive name name' = true) (entry : List UInt8) :
    compareName caseSensitive name entry = compareName caseSensitive name' entry := by
  cases caseSensitive with
  | true =>
    simp only [sameName,if_true,beq_iff_eq] at h
    rw [h]
  | false =>
    simp only [sameName,Bool.false_eq_true,if_false,beq_iff_eq] at h
    simp only [compareName,Bool.false_eq_true,if_false]
    exact memptrCmpNocase_congr h entry

theorem mapStrToInt_congr {caseSensitive : Bool} {name name' : List UInt8}
    (h : sameName caseSensitive name name' = true) (table : List (List UInt8 × ι)) :
    mapStrToInt name table caseSensitive = mapStrToInt name' table caseSensitive := by
  have hcmp : (fun i : ℕ => compareName caseSensitive name (((table.map Prod.fst)[i]?).getD [])) =
      fun i => compareName caseSensitive name' (((table.map Prod.fst)[i]?).getD []) :=
    funext fun i => compareName_congr h _
  exact congrArg (fun cmp => Loop.run (fun x : ℤ × ℤ => (x.2+1-x.1).toNat) (searchRound cmp)
    (fun _ => none) ((0,(table.length : ℤ)-1) : ℤ × ℤ)) hcmp

/-- The search finds the names of the table in their own spelling. -/
def Searchable (table : List (List UInt8 × ι)) (caseSensitive : Bool) : Prop :=
  ∀ e ∈ table, 0 ∉ e.1 ∧ (mapStrToInt e.1 table caseSensitive).isSome = true

instance (table : List (List UInt8 × ι)) (caseSensitive : Bool) :
    Decidable (Searchable table caseSensitive) :=
  inferInstanceAs (Decidable (∀ e ∈ table,
    0 ∉ e.1 ∧ (mapStrToInt e.1 table caseSensitive).isSome = true))

theorem httpHeaderNames_searchable : Searchable httpHeaderNames false := by decide

/-- The second `POST` stands behind greater names, but no search is led past it. -/
theorem httpMethodTable_searchable : Searchable httpMethodTable true := by decide

/-- The search answers as the linear search does. -/
structure LooksUp (table : List (List UInt8 × ι)) (caseSensitive : Bool) (name : List UInt8) :
    Prop where
  answer : ∃ r, checkedMapStrToInt name table table.length caseSensitive = .ok r ∧
    (0 ≤ r ↔ (findName name table caseSensitive).isSome = true) ∧ (r < 0 → r = -1) ∧
    (0 ≤ r → ∃ e, table[r.toNat]? = some e ∧ sameName caseSensitive name e.1 = true)

theorem findName_isSome (name : List UInt8) (table : List (List UInt8 × ι)) (caseSensitive : Bool) :
    (findName name table caseSensitive).isSome = true ↔
      ∃ e ∈ table, sameName caseSensitive name e.1 = true := by
  simp only [findName,List.findIdx?_isSome,List.any_eq_true]

theorem looksUp_of_searchable {table : List (List UInt8 × ι)} {caseSensitive : Bool}
    (h : Searchable table caseSensitive) {name : List UInt8} (hn : 0 ∉ name) :
    LooksUp table caseSensitive name := by
  refine ⟨⟨_,checkedMapStrToInt_eq name table caseSensitive,?_⟩⟩
  rw [findName_isSome]
  cases hr : mapStrToInt name table caseSensitive with
  | none =>
    refine ⟨⟨fun hneg => absurd hneg (by decide),?_⟩,fun _ => rfl,fun hneg => absurd hneg (by decide)⟩
    rintro ⟨e,he,hsame⟩
    have hfound := (h e he).2
    rw [← mapStrToInt_congr hsame,hr] at hfound
    cases hfound
  | some i =>
    rcases search_equal _ _ hr with ⟨hi,hzero⟩
    have hfirst : (0 : ℤ) ≤ (i : ℤ) := Int.natCast_nonneg i
    have hlast : (i : ℤ) < table.length := by omega
    rcases entryAt_of_mem hfirst hlast with ⟨e,-,he,hname⟩
    rw [Int.toNat_natCast] at he hname
    have hmem : e ∈ table := List.mem_of_getElem? he
    have hsame : sameName caseSensitive name e.1 = true := by
      rw [← compareName_eq_zero hn (h e hmem).1,← hname]
      exact hzero
    refine ⟨⟨fun _ => ⟨e,hmem,hsame⟩,fun _ => Int.natCast_nonneg i⟩,?_,fun _ => ⟨e,he,hsame⟩⟩
    intro hneg
    exact absurd hneg (Int.not_lt.mpr (Int.natCast_nonneg i))

/-- Headers in any case and methods in theirs are found, and nothing else is. -/
theorem mapStrToInt_looksUp (name : CString) :
    LooksUp httpHeaderNames false name.1 ∧ LooksUp httpMethodTable true name.1 :=
  ⟨looksUp_of_searchable httpHeaderNames_searchable name.2,
    looksUp_of_searchable httpMethodTable_searchable name.2⟩

end Http
end CtrlPt
