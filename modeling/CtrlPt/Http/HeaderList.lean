import CtrlPt.Http.HeaderText
import CtrlPt.Lib.Merge

/-! The header list. Names are found by their number or by their spelling in any case; a name that
is given again has its values joined. -/
namespace CtrlPt
namespace Http

open CText

/-- What two spellings of a field name have in common. -/
def lowerName (name : List UInt8) : List UInt8 := name.map toLower

@[simp] theorem toLower_eq_zero (c : UInt8) : toLower c = 0 ↔ c = 0 :=
  byte_forall (P := fun c => toLower c = 0 ↔ c = 0) (by decide +kernel) c

theorem strncmpBy_map {f : UInt8 → UInt8} (hf : f 0 = 0) (n : ℕ) (a b : List UInt8) :
    strncmpBy f n a b = strncmpBy id n (a.map f) (b.map f) := by
  induction n generalizing a b with
  | zero => rfl
  | succ n ih =>
    have hhead : ∀ l : List UInt8, (l.map f).headD 0 = f (l.headD 0) := by
      intro l
      cases l with
      | nil => exact hf.symm
      | cons c l => rfl
    simp only [strncmpBy,hhead,id,ih,List.map_tail]

theorem memptrCmpNocase_eq_zero {m s : List UInt8} (hs : 0 ∉ s) :
    memptrCmpNocase m s = 0 ↔ lowerName (untilNul m) = lowerName s :=
  memptrCmpBy_eq_zero toLower_eq_zero m s hs

theorem memptrCmpNocase_congr {m m' : List UInt8} (h : lowerName m = lowerName m')
    (s : List UInt8) : memptrCmpNocase m s = memptrCmpNocase m' s := by
  have hlen : m.length = m'.length := by
    have hl := congrArg List.length h
    rwa [lowerName,lowerName,List.length_map,List.length_map] at hl
  have hcmp : ∀ n, strncasecmp m s n = strncasecmp m' s n := by
    intro n
    unfold strncasecmp
    rw [strncmpBy_map (by decide) n m s,strncmpBy_map (by decide) n m' s]
    exact congrArg (fun l => strncmpBy id n l (s.map toLower)) h
  simp only [memptrCmpNocase,memptrCmpBy,hcmp,hlen]

theorem searchRound_descends (cmp : ℕ → ℤ) :
    Loop.Descends (fun x : ℤ × ℤ => (x.2+1-x.1).toNat) (searchRound cmp) := by
  rintro ⟨top,bot⟩ y h
  simp only [searchRound] at h
  split at h
  · split at h
    · cases h
      simp only
      omega
    split at h
    · cases h
      simp only
      omega
    · cases h
  · cases h

theorem search_equal (cmp : ℕ → ℤ) (n : ℕ) {i : ℕ}
    (h : Loop.run (fun x : ℤ × ℤ => (x.2+1-x.1).toNat) (searchRound cmp) (fun _ => none)
      ((0,(n : ℤ)-1) : ℤ × ℤ) = some i) : i < n ∧ cmp i = 0 := by
  have hall : ∀ x : ℤ × ℤ, 0 ≤ x.1 → x.2 < n →
      Loop.run (fun x : ℤ × ℤ => (x.2+1-x.1).toNat) (searchRound cmp) (fun _ => none) x = some i →
      i < n ∧ cmp i = 0 := by
    refine Loop.run_induction (searchRound_descends cmp) (e := fun _ => none)
      (P := fun x r => 0 ≤ x.1 → x.2 < n → r = some i → i < n ∧ cmp i = 0) ?_ ?_
    · rintro ⟨top,bot⟩ r hr h₀ hn rfl
      simp only [searchRound] at hr h₀ hn
      split at hr
      · split at hr
        · cases hr
        split at hr
        · cases hr
        simp only [Sum.inr.injEq,Option.some.injEq] at hr
        subst hr
        omega
      · cases hr
    · rintro ⟨top,bot⟩ y hy ih h₀ hn
      simp only [searchRound] at hy h₀ hn
      split at hy
      · split at hy
        · cases hy
          exact ih (by simp only; omega) hn
        split at hy
        · cases hy
          exact ih h₀ (by simp only; omega)
        · cases hy
      · cases hy
  exact hall _ (Int.le_refl 0) (by simp only; omega) h

theorem mapStrToInt_some {ι : Type} {name : List UInt8} {table : List (List UInt8 × ι)} {i : ℕ}
    (h : mapStrToInt name table false = some i) :
    memptrCmpNocase name (((table.map Prod.fst)[i]?).getD []) = 0 := by
  unfold mapStrToInt at h
  simp only [Bool.false_eq_true,if_false] at h
  exact (search_equal _ _ h).2

theorem lookupName_congr {ι : Type} {name name' : List UInt8} (h : lowerName name = lowerName name')
    (table : List (List UInt8 × ι)) :
    lookupName name table false = lookupName name' table false := by
  simp [lookupName,mapStrToInt,memptrCmpNocase_congr h]

theorem lookupName_inj {name name' : List UInt8} {id : HdrId} (hn : 0 ∉ name) (hn' : 0 ∉ name')
    (h : lookupName name httpHeaderNames false = some id)
    (h' : lookupName name' httpHeaderNames false = some id) : lowerName name = lowerName name' := by
  have hnul : ∀ i : ℕ, (0 : UInt8) ∉ ((httpHeaderNames.map Prod.fst)[i]?).getD [] := by
    intro i
    cases he : (httpHeaderNames.map Prod.fst)[i]? with
    | none => simp
    | some e =>
      have hall : ∀ e ∈ httpHeaderNames.map Prod.fst, (0 : UInt8) ∉ e := by decide
      exact hall e (List.mem_of_getElem? he)
  simp only [lookupName,Option.bind_eq_some_iff] at h h'
  rcases h with ⟨i,hi,hid⟩
  rcases h' with ⟨j,hj,hjd⟩
  have hij : i = j := by
    have hnd : (httpHeaderNames.map Prod.snd).Nodup := by decide
    have hlt : i < (httpHeaderNames.map Prod.snd).length := by
      by_contra hge
      rw [List.getElem?_eq_none (by omega)] at hid
      cases hid
    exact (List.getElem?_inj hlt hnd).mp (hid.trans hjd.symm)
  subst hij
  have h1 := (memptrCmpNocase_eq_zero (hnul i)).mp (mapStrToInt_some hi)
  have h2 := (memptrCmpNocase_eq_zero (hnul i)).mp (mapStrToInt_some hj)
  rw [untilNul_of_no_nul hn] at h1
  rw [untilNul_of_no_nul hn'] at h2
  exact h1.trans h2.symm

def nameIdOf (name : List UInt8) : HdrId := (lookupName name httpHeaderNames false).getD .unknown

/-- A header of the list: its name is a string, and its number the one of the name. -/
structure Named (h : HttpHeader) : Prop where
  no_nul : 0 ∉ h.name
  nameId : h.nameId = nameIdOf h.name

/-- How a first value is stored; an empty one is a NUL. -/
def startValue (v : List UInt8) : List UInt8 := if v.isEmpty then [0] else v

def addValue (old v : List UInt8) : List UInt8 := if v.isEmpty then old else old++cstr ", "++v

/-- Both searches find the first header with the name, in any case. -/
theorem findHdr_lowerName {headers : List HttpHeader} (hh : ∀ h ∈ headers, Named h)
    {name : List UInt8} (hn : 0 ∉ name) :
    (∀ id, lookupName name httpHeaderNames false = some id →
      findHdrIdx headers id = headers.findIdx? fun h => decide (lowerName h.name = lowerName name)) ∧
    (lookupName name httpHeaderNames false = none →
      findHdrStrIdx headers name =
        headers.findIdx? fun h => decide (lowerName h.name = lowerName name)) := by
  constructor
  · intro id hid
    have hne : id ≠ .unknown := by
      have hall : ∀ e ∈ httpHeaderNames.map Prod.snd, e ≠ HdrId.unknown := by decide
      rw [lookupName,Option.bind_eq_some_iff] at hid
      rcases hid with ⟨i,-,hi⟩
      exact hall id (List.mem_of_getElem? hi)
    unfold findHdrIdx
    apply Merge.findIdx?_congr
    intro h hmem
    have hnamed := hh h hmem
    rw [hnamed.nameId,nameIdOf]
    by_cases hl : lowerName h.name = lowerName name
    · rw [lookupName_congr hl,hid]
      simp [hl]
    · cases hs : lookupName h.name httpHeaderNames false with
      | none => simp [hl,hne.symm]
      | some id' =>
        have hid' : id' ≠ id := by
          rintro rfl
          exact hl (lookupName_inj hnamed.no_nul hn hs hid)
        simp [hl,hid']
  · intro hid
    unfold findHdrStrIdx
    apply Merge.findIdx?_congr
    intro h hmem
    have hself := untilNul_of_no_nul (hh h hmem).no_nul
    have heq := memptrCmpNocase_eq_zero (m := h.name) hn
    rw [untilNul_of_no_nul hn]
    rw [hself] at heq
    by_cases hl : lowerName h.name = lowerName name
    · simp [hl,heq.mpr hl]
    · have hne : memptrCmpNocase h.name name ≠ 0 := fun h0 => hl (heq.mp h0)
      simp [hl,hne]

theorem addHeader_insert {headers : List HttpHeader} (hh : ∀ h ∈ headers, Named h)
    {name : List UInt8} (hn : 0 ∉ name) (value : List UInt8) :
    (addHeader headers name value).map (fun h => (h.name,h.value)) =
      Merge.insert lowerName startValue addValue (headers.map fun h => (h.name,h.value))
        (name,value) ∧
      ∀ h ∈ addHeader headers name value, Named h := by
  have hstore : addHeader headers name value = storeHeader headers
      (headers.findIdx? fun h => decide (lowerName h.name = lowerName name)) name (nameIdOf name)
      value := by
    unfold addHeader nameIdOf
    cases hid : lookupName name httpHeaderNames false with
    | some id => simp only [(findHdr_lowerName hh hn).1 id hid,Option.getD_some]
    | none => simp only [(findHdr_lowerName hh hn).2 hid,Option.getD_none]
  have hidx : (headers.map fun h => (h.name,h.value)).findIdx?
      (fun x => decide (lowerName x.1 = lowerName name)) =
      headers.findIdx? fun h => decide (lowerName h.name = lowerName name) := by
    rw [List.findIdx?_map]
    rfl
  rw [hstore]
  unfold storeHeader Merge.insert
  rw [hidx]
  cases hi : headers.findIdx? fun h => decide (lowerName h.name = lowerName name) with
  | none =>
    refine ⟨by simp [startValue],fun h hmem => ?_⟩
    rcases List.mem_append.mp hmem with hmem | hmem
    · exact hh h hmem
    · rw [List.mem_singleton.mp hmem]
      exact ⟨hn,rfl⟩
  | some i =>
    simp only
    split
    · rename_i hv
      refine ⟨?_,hh⟩
      have hid : (fun x : List UInt8 × List UInt8 => (x.1,addValue x.2 value)) = id := by
        funext x
        simp [addValue,hv]
      rw [hid,List.modify_id]
    · rename_i hv
      constructor
      · apply Merge.map_modify
        intro h
        simp [addValue,hv]
      · apply Merge.forall_modify hh
        intro h hnamed
        exact ⟨hnamed.no_nul,hnamed.nameId⟩

theorem foldl_addHeader {fields : List (List UInt8 × List UInt8)} (hf : ∀ f ∈ fields, 0 ∉ f.1)
    {headers : List HttpHeader} (hh : ∀ h ∈ headers, Named h) :
    (fields.foldl (fun l f => addHeader l f.1 f.2) headers).map (fun h => (h.name,h.value)) =
      fields.foldl (Merge.insert lowerName startValue addValue)
        (headers.map fun h => (h.name,h.value)) ∧
      ∀ h ∈ fields.foldl (fun l f => addHeader l f.1 f.2) headers, Named h := by
  induction fields generalizing headers with
  | nil => exact ⟨rfl,hh⟩
  | cons f fields ih =>
    have hadd := addHeader_insert hh (hf f (by simp)) f.2
    rw [List.foldl_cons,List.foldl_cons,← hadd.1]
    exact ih (fun g hg => hf g (by simp [hg])) hadd.2

/-- The values that are not empty, joined by a comma and a blank. -/
def joinedValue (vs : List (List UInt8)) : List UInt8 :=
  List.intercalate (cstr ", ") (vs.filter fun v => !v.isEmpty)

/-- One entry for each name, under its first spelling and in order of first appearance, with its
values joined; a NUL stands for the empty value. -/
def LawfulHeaders (headers : List HttpHeader) (fields : List (List UInt8 × List UInt8)) : Prop :=
  headers.map (fun h => (h.name,h.value)) =
    (Merge.firsts lowerName (fields.map Prod.fst)).map fun name =>
      (name,startValue (joinedValue (Merge.given lowerName (lowerName name) fields)))

/-- No name is given an empty value first and another one later. -/
def StartsFull (fields : List (List UInt8 × List UInt8)) : Prop :=
  ∀ name vs, Merge.given lowerName name fields = []::vs → ∀ v ∈ vs, v = []

theorem intercalate_cons (sep a : List UInt8) (l : List (List UInt8)) :
    List.intercalate sep (a::l) = a++l.flatMap fun b => sep++b := by
  induction l generalizing a with
  | nil => simp [List.intercalate]
  | cons b l ih =>
    have h : List.intercalate sep (a::b::l) = a++(sep++List.intercalate sep (b::l)) := by
      simp [List.intercalate,List.intersperse]
    rw [h,ih,List.flatMap_cons,List.append_assoc]

theorem foldl_addValue (g : List UInt8) (vs : List (List UInt8)) :
    vs.foldl addValue g = g++(vs.filter fun v => !v.isEmpty).flatMap fun v => cstr ", "++v := by
  induction vs generalizing g with
  | nil => simp
  | cons v vs ih =>
    rw [List.foldl_cons,ih]
    by_cases hv : v.isEmpty = true
    · simp [addValue,hv]
    · simp [addValue,hv,List.append_assoc]

/-- Only an empty first value spoils the join. -/
theorem merged_value_iff (v : List UInt8) (vs : List (List UInt8)) :
    vs.foldl addValue (startValue v) = startValue (joinedValue (v::vs)) ↔
      (v = [] → ∀ u ∈ vs, u = []) := by
  rw [foldl_addValue]
  cases v with
  | cons c cs =>
    have hj : joinedValue ((c::cs)::vs) = (c::cs)++(vs.filter fun v => !v.isEmpty).flatMap
        fun v => cstr ", "++v := by
      rw [joinedValue,List.filter_cons_of_pos (by simp),intercalate_cons]
    rw [hj]
    simp [startValue]
  | nil =>
    have hj : joinedValue ([]::vs) = joinedValue vs := by
      rw [joinedValue,List.filter_cons_of_neg (by simp),joinedValue]
    rw [hj]
    cases hvs : vs.filter fun v => !v.isEmpty with
    | nil =>
      have hall : ∀ u ∈ vs, u = [] := by
        intro u hu
        simpa using List.filter_eq_nil_iff.mp hvs u hu
      have hnil : joinedValue vs = [] := by
        rw [joinedValue,hvs]
        rfl
      rw [hnil]
      simp only [List.flatMap_nil,List.append_nil,true_iff]
      exact fun _ => hall
    | cons a l =>
      have ha := List.mem_filter.mp (show a ∈ vs.filter fun v => !v.isEmpty by rw [hvs]; simp)
      have hjoin : joinedValue vs = a++l.flatMap fun b => cstr ", "++b := by
        rw [joinedValue,hvs,intercalate_cons]
      have hne : a ≠ [] := by simpa using ha.2
      have hstart : startValue (joinedValue vs) = joinedValue vs := by
        apply if_neg
        rw [hjoin]
        simp [hne]
      rw [hstart,hjoin]
      constructor
      · intro h
        have hlen := congrArg List.length h
        have hsep : (cstr ", ").length = 2 := by decide
        simp only [startValue,List.isEmpty_nil,if_true,List.length_append,List.length_cons,
          List.flatMap_cons,hsep,List.length_nil] at hlen
        omega
      · intro h
        exact absurd (h rfl a ha.1) hne

/-- The list made of a header block is lawful if and only if no name starts empty and is then given
a value. -/
theorem lawfulHeaders_iff {fields : List (List UInt8 × List UInt8)} (hf : ∀ f ∈ fields, 0 ∉ f.1) :
    LawfulHeaders (fields.foldl (fun l f => addHeader l f.1 f.2) []) fields ↔ StartsFull fields := by
  have hnamed : ∀ h ∈ ([] : List HttpHeader), Named h := by simp
  have hlist := (foldl_addHeader hf hnamed).1
  have hmerge := Merge.foldl_insert lowerName startValue addValue fields
  have hinj : ∀ l l' : List (List UInt8 × List UInt8),
      l = l' ↔ l.map (fun x => (x.1,some x.2)) = l'.map fun x => (x.1,some x.2) := by
    intro l l'
    refine (List.map_inj_right fun x y h => ?_).symm
    simp only [Prod.mk.injEq,Option.some.injEq] at h
    exact Prod.ext h.1 h.2
  unfold LawfulHeaders
  rw [hlist,List.map_nil,hinj,hmerge,List.map_map,List.map_inj_left]
  simp only [Function.comp_apply,Prod.mk.injEq,true_and]
  constructor
  · intro h name vs hgiven
    have hmem : [] ∈ Merge.given lowerName name fields := by simp [hgiven]
    rcases List.mem_map.mp hmem with ⟨f,hfmem,-⟩
    rcases List.mem_filter.mp hfmem with ⟨hfin,hkey⟩
    rcases Merge.mem_firsts_key lowerName (List.mem_map.mpr ⟨f,hfin,rfl⟩) with ⟨n,hn,hnk⟩
    have hname : lowerName n = name := hnk.trans (of_decide_eq_true hkey)
    have heq := h n hn
    rw [hname,hgiven] at heq
    exact (merged_value_iff [] vs).mp (Option.some.inj heq) rfl
  · intro h n hn
    have hne : Merge.given lowerName (lowerName n) fields ≠ [] := by
      rcases List.mem_map.mp (Merge.firsts_subset lowerName hn) with ⟨f,hfin,rfl⟩
      apply List.ne_nil_of_mem (a := f.2)
      exact List.mem_map.mpr ⟨f,List.mem_filter.mpr ⟨hfin,by simp⟩,rfl⟩
    obtain ⟨v,vs,hgiven⟩ := List.exists_cons_of_ne_nil hne
    rw [hgiven]
    refine congrArg some ((merged_value_iff v vs).mpr ?_)
    rintro rfl
    exact h (lowerName n) vs hgiven

theorem HeaderBlock.no_nul {r rest : List UInt8} {fields : List (List UInt8 × List UInt8)}
    (h : HeaderBlock r fields rest) : ∀ f ∈ fields, 0 ∉ f.1 := by
  induction h with
  | done => simp
  | line line name value r rest fields hl _ ih =>
    rw [List.forall_mem_cons]
    refine ⟨fun hmem => ?_,ih⟩
    exact absurd (hl.name_chars 0 hmem) (by decide)

/-- For every header block that is accepted, the list is lawful if and only if no name starts with
an empty value and is then given another one. -/
theorem parserParseHeaders_lawful_iff {p : HttpParser}
    (h : (parserParseHeaders p).1 = .ok ∨ (parserParseHeaders p).1 = .success)
    (hp : p.msg.headers = []) :
    ∃ fields, HeaderBlock p.rest fields (parserParseHeaders p).2.rest ∧
      (LawfulHeaders (parserParseHeaders p).2.msg.headers fields ↔ StartsFull fields) := by
  rcases parserParseHeaders_block h with ⟨fields,hb,hf⟩
  rw [hp] at hf
  refine ⟨fields,hb,?_⟩
  rw [hf]
  exact lawfulHeaders_iff hb.no_nul

def atHeaders (text : List UInt8) : HttpParser :=
  { (parserResponseInit .get).append text with position := .headers }

theorem parserParseHeaders_lawful_twice :
    ∃ fields, HeaderBlock (atHeaders (cstr "A: x\r\nB: y\r\na:\t z \r\n\r\n")).rest fields
        (parserParseHeaders (atHeaders (cstr "A: x\r\nB: y\r\na:\t z \r\n\r\n"))).2.rest ∧
      (LawfulHeaders (parserParseHeaders
        (atHeaders (cstr "A: x\r\nB: y\r\na:\t z \r\n\r\n"))).2.msg.headers fields ↔
        StartsFull fields) :=
  parserParseHeaders_lawful_iff (.inl (by decide)) (by decide)

theorem headerLine_plain (name value rest : List UInt8) (hne : name ≠ [])
    (hname : ∀ c ∈ name, isIdentifierChar c = true) (hvalue : ∀ c ∈ value, isPlainChar c = true)
    (hhead : ∀ c v, value = c::v → isBlank c = false)
    (hrest : ∀ c v, rest = c::v → isBlank c = false) :
    HeaderLine (name++([]++58::([32]++(value++[cr,lf])))) rest name (trimRight value) where
  name_ne := hne
  name_chars := hname
  parts := by
    have hlws : Lws [32] := .blank 32 [] (by decide) .nil
    refine ⟨[],[32],value,[cr,lf],rfl,.nil,hlws,.inl rfl,?_,.of_plain hvalue,rfl⟩
    constructor
    · intro c v he
      cases value with
      | nil =>
        cases he
        decide
      | cons d value =>
        cases he
        exact hhead c value rfl
    · intro brk c v hb he
      cases value with
      | nil => exact hrest c v ((LineBreak.append_inj (.inl rfl) hb he).2)
      | cons d value =>
        exfalso
        rcases hb.head with ⟨b,u,rfl,hbc⟩
        simp only [List.cons_append,List.cons.injEq] at he
        have hd := hvalue d (by simp)
        rw [he.1] at hd
        rcases hbc with rfl | rfl <;> exact absurd hd (by decide)
  unfolded := hrest

/-- An empty value, and then another one: the list has a value that begins with a NUL. -/
theorem empty_then_value : ¬ ∀ (p : HttpParser) (fields : List (List UInt8 × List UInt8)),
    (parserParseHeaders p).1 = .ok → p.msg.headers = [] →
    HeaderBlock p.rest fields (parserParseHeaders p).2.rest →
    LawfulHeaders (parserParseHeaders p).2.msg.headers fields := by
  intro h
  have hl := h (atHeaders (cstr "X: \r\nX: a\r\n\r\n")) [(cstr "X",[]),(cstr "X",cstr "a")]
    (by decide) (by decide) ?_
  · revert hl
    unfold LawfulHeaders
    decide
  · have hrest : (parserParseHeaders (atHeaders (cstr "X: \r\nX: a\r\n\r\n"))).2.rest = [] := by
      decide
    have h2 := headerLine_plain (cstr "X") (cstr "a") ([cr,lf]++[])
      (by decide) (by decide) (by decide) (by rintro _ _ ⟨⟩; decide)
      (by rintro _ _ ⟨⟩; decide)
    have h1 := headerLine_plain (cstr "X") [] (cstr "X: a\r\n\r\n")
      (by decide) (by decide) (by decide) (by rintro _ _ ⟨⟩)
      (by rintro _ _ ⟨⟩; decide)
    have hblock := HeaderBlock.line _ _ _ _ _ _ h1
      (.line _ _ _ _ _ _ h2 (.done [cr,lf] [] (.inl rfl)))
    rw [hrest]
    exact hblock

end Http
end CtrlPt
