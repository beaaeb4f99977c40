import CtrlPt.Lib.Memory
import CtrlPt.Uri
import CtrlPt.Uri.Segments

/-! `remove_dots`: the dots of a path are removed where they stand, with a read and a write
cursor and a table of the places where the segments written so far begin. -/
namespace CtrlPt
namespace Uri

open CText Rounds Memory

/-- The variables of `remove_dots`. Pointers are offsets from `in`. -/
structure Dots where
  mem : List UInt8
  copyFrom : ℕ
  copyTo : ℕ
  segments : List ℕ
  lastSegment : ℤ
  deriving DecidableEq, Repr

def segmentBegins (mem : List UInt8) (i : ℕ) : Except Fault Bool :=
  if i = 0 then .ok true else do
    let c ← load mem (i-1)
    .ok (c == 47)

/-- The query and the fragment are not looked for here. -/
def segmentEnds (mem : List UInt8) (max i : ℕ) : Except Fault Bool :=
  if i = max then .ok true else do
    let c ← load mem i
    .ok (c == 47)

/-- How many dots make up the segment at `i`; 0 if it is another one. -/
def dotsAt (mem : List UInt8) (max i : ℕ) : Except Fault ℕ := do
  let c ← load mem i
  if c = 46 then do
    let begins ← segmentBegins mem i
    if begins then do
      let one ← segmentEnds mem max (i+1)
      if one then .ok 1
      else do
        let d ← load mem (i+1)
        if d = 46 then do
          let two ← segmentEnds mem max (i+2)
          .ok (if two then 2 else 0)
        else .ok 0
    else .ok 0
  else .ok 0

/-- A slash begins a segment. -/
def noteSegment (s : Dots) (c : UInt8) : Except Fault Dots :=
  if c = 47 then do
    let segments ← store s.segments (s.lastSegment+1).toNat (s.copyTo+1)
    .ok { s with segments := segments, lastSegment := s.lastSegment+1 }
  else .ok s

/-- `*copyTo = *copyFrom`, and both cursors one further. -/
def copyByte (s : Dots) : Except Fault Dots := do
  let c ← load s.mem s.copyFrom
  let mem ← store s.mem s.copyTo c
  .ok { s with mem := mem, copyTo := s.copyTo+1, copyFrom := s.copyFrom+1 }

/-- One round over the path; `false` is a `..` at the root. -/
def dotsRound (max : ℕ) (s : Dots) : Except Fault (Dots ⊕ (Bool × Dots)) :=
  if s.copyFrom < max then do
    let c ← load s.mem s.copyFrom
    if isPathEnd c then .ok (.inr (true,s))
    else do
      let dots ← dotsAt s.mem max s.copyFrom
      if dots = 1 then .ok (.inl { s with copyFrom := s.copyFrom+2 })
      else if dots = 2 then
        if 0 < s.lastSegment then do
          let start ← load s.segments (s.lastSegment-1).toNat
          .ok (.inl { s with
            copyFrom := s.copyFrom+3, copyTo := start, lastSegment := s.lastSegment-1 })
        else .ok (.inr (false,s))
      else do
        let s ← noteSegment s c
        let s ← copyByte s
        .ok (.inl s)
  else .ok (.inr (true,s))

def tailRound (max : ℕ) (s : Dots) : Except Fault (Dots ⊕ Dots) :=
  if s.copyFrom < max then do
    let s ← copyByte s
    .ok (.inl s)
  else .ok (.inr s)

/-- The return value and the memory as it is left. -/
def removeDots (mem : List UInt8) (size : ℕ) : Except Fault (ℤ × List UInt8) := do
  let segments ← store (List.replicate size 0) 0 0
  let r ← rounds .running (dotsRound size) (size+1) ⟨mem,0,0,segments,-1⟩
  if r.1 then do
    let s ← rounds .running (tailRound size) (size+1) r.2
    let mem ← store s.mem s.copyTo 0
    .ok (upnpESuccess,mem)
  else .ok (upnpEInvalidUrl,r.2.mem)

/-! What has been written. -/

/-- The segments on the stack as they are written, with the slash behind the last. -/
def outOf (acc : List (List UInt8)) : List UInt8 := joinPath acc.reverse++[47]

@[simp] theorem outOf_cons (seg : List UInt8) (acc : List (List UInt8)) :
    outOf (seg::acc) = outOf acc++(seg++[47]) := by
  simp [outOf,joinPath]

theorem outOf_append (acc : List (List UInt8)) (cur : List UInt8) :
    outOf acc++cur = joinPath (cur::acc).reverse := by
  simp [outOf,joinPath]

theorem outOf_length (acc : List (List UInt8)) : acc.length < (outOf acc).length := by
  induction acc with
  | nil => decide
  | cons seg acc ih =>
    rw [outOf_cons,List.length_append,List.length_append,List.length_cons,List.length_singleton]
    omega

/-- The table knows where each segment begins. -/
def Table (t : List ℕ) : List (List UInt8) → Prop
  | [] => t[0]? = some (outOf []).length
  | seg::acc => t[acc.length+1]? = some (outOf (seg::acc)).length ∧ Table t acc

theorem Table.top {t : List ℕ} {acc : List (List UInt8)} (h : Table t acc) :
    t[acc.length]? = some (outOf acc).length := by
  cases acc with
  | nil => exact h
  | cons seg acc => exact h.1

theorem Table.set {t : List ℕ} {acc : List (List UInt8)} (h : Table t acc) {k : ℕ}
    (hk : acc.length < k) (x : ℕ) : Table (t.set k x) acc := by
  induction acc with
  | nil =>
    rw [Table,List.getElem?_set_ne (by exact Nat.ne_of_gt hk)]
    exact h
  | cons seg acc ih =>
    rw [List.length_cons] at hk
    refine ⟨?_,ih h.2 (by omega)⟩
    rw [List.getElem?_set_ne (by omega)]
    exact h.1

theorem Table.push {t : List ℕ} {acc : List (List UInt8)} (h : Table t acc) (seg : List UInt8)
    (hlen : acc.length+1 < t.length) :
    Table (t.set (acc.length+1) (outOf (seg::acc)).length) (seg::acc) :=
  ⟨List.getElem?_set_self hlen,h.set (Nat.lt_succ_self _) _⟩

/-- A byte is moved up to what has been written. Either nothing was left out and it stays where
it is, or the gap moves over it. -/
theorem store_move (out gap rest : List UInt8) (c : UInt8) :
    ∃ gap' pre, store (out++(gap++c::rest)) out.length c = .ok ((out++[c])++(gap'++rest)) ∧
      gap'.length = gap.length ∧ (out++[c])++gap' = pre++[c] := by
  cases gap with
  | nil => exact ⟨[],out,by rw [List.nil_append,store_mid]; simp,rfl,by simp⟩
  | cons g gap =>
    refine ⟨gap++[c],out++[c]++gap,?_,by simp,by simp⟩
    rw [List.cons_append,store_mid]
    simp

/-! The test for dots. -/

theorem segmentEnds_eq (l x z : List UInt8) {i max : ℕ} (hi : i = l.length)
    (hmax : max = l.length+x.length) :
    segmentEnds (l++(x++0::z)) max i = .ok (x.headD 47 == 47) := by
  rw [segmentEnds,hi,hmax]
  cases x with
  | nil => rw [if_pos (by simp)]; rfl
  | cons c x =>
    rw [if_neg (by simp),List.cons_append,load_mid]
    rfl

/-- What `dotsAt` answers on a segment `w` behind the byte `p`. -/
def dotsOf (p : UInt8) (w : List UInt8) (closed : Bool) : ℕ :=
  if p = 47 ∧ closed = true then
    if w = [46] then 1 else if w = [46,46] then 2 else 0
  else 0

theorem dotsAt_eq {mem pre z : List UInt8} {p c : UInt8} {w follow : List UInt8} {i max : ℕ}
    (hmem : mem = pre++p::(c::w++(follow++0::z))) (hi : i = pre.length+1)
    (hmax : max = i+((c::w).length+follow.length)) (hw : ∀ d ∈ w, d ≠ 47)
    (hf : follow.head? ≠ some 46) :
    dotsAt mem max i = .ok (dotsOf p (c::w) (follow.headD 47 == 47)) := by
  have hload : ∀ k d, (p::(c::w++(follow++0::z)))[k]? = some d → load mem (pre.length+k) = .ok d := by
    intro k d h
    rw [hmem]
    exact load_behind pre h
  have hends : ∀ l x, mem = l++(x++0::z) → ∀ j, j = l.length →
      segmentEnds mem max j = .ok (x.headD 47 == 47) := by
    intro l x hm j hj
    have hlen := congrArg List.length (hmem.symm.trans hm)
    simp only [List.length_append,List.length_cons] at hlen hmax
    rw [hm]
    exact segmentEnds_eq l x z hj (by omega)
  have hbegins : segmentBegins mem i = .ok (p == 47) := by
    rw [segmentBegins,if_neg (by omega),hi,Nat.add_sub_cancel,hmem,load_mid]
    rfl
  rw [dotsAt,hi,hload 1 c rfl,ok_bind,← hi,hbegins]
  by_cases hc : c = 46
  swap
  · rw [if_neg hc]
    simp [dotsOf,hc]
  rw [if_pos hc,ok_bind]
  by_cases hp : p = 47
  swap
  · rw [if_neg (by simpa using hp),dotsOf,if_neg (fun h => hp h.1)]
  rw [if_pos (by simpa using hp),dotsOf]
  subst hc hp
  cases w with
  | nil =>
    -- one dot: the byte behind it decides
    rw [hends (pre++[47,46]) follow (by rw [hmem]; simp) _ (by simp [hi]),ok_bind]
    cases follow with
    | nil => rfl
    | cons f v =>
      by_cases hs : f = 47
      · simp [hs]
      · rw [if_neg (by simpa using hs),hi,Nat.add_assoc,hload 2 f rfl,ok_bind,
          if_neg (by simpa using hf),if_neg (by simp [hs])]
  | cons d w =>
    have hd := hw d (.head _)
    rw [hends (pre++[47,46]) (d::w++follow) (by rw [hmem]; simp) _ (by simp [hi]),ok_bind,
      if_neg (by simpa using hd),hi,Nat.add_assoc,hload 2 d rfl,ok_bind]
    by_cases hdd : d = 46
    swap
    · rw [if_neg hdd]
      simp [hdd]
    rw [if_pos hdd,← hi]
    subst hdd
    rw [hends (pre++[47,46,46]) (w++follow) (by rw [hmem]; simp) _ (by simp [hi]),ok_bind]
    cases w with
    | nil => simp
    | cons e w =>
      have he := hw e (.tail _ (.head _))
      simp [he]

/-! The loop over the path. -/

theorem load_copyFrom {d : Dots} {out gap rest : List UInt8} {c : UInt8}
    (hmem : d.mem = out++(gap++c::rest)) (hfrom : d.copyFrom = out.length+gap.length) :
    load d.mem d.copyFrom = .ok c := by
  rw [hmem,hfrom,← List.append_assoc,← List.length_append]
  exact load_mid _ _ _

theorem copyByte_move {d : Dots} {out gap rest : List UInt8} {c : UInt8}
    (hmem : d.mem = out++(gap++c::rest)) (hto : d.copyTo = out.length)
    (hfrom : d.copyFrom = out.length+gap.length) :
    ∃ gap' pre, copyByte d = .ok { d with
        mem := (out++[c])++(gap'++rest), copyTo := d.copyTo+1, copyFrom := d.copyFrom+1 } ∧
      gap'.length = gap.length ∧ (out++[c])++gap' = pre++[c] := by
  rcases store_move out gap rest c with ⟨gap',pre,hstore,hlen,hpre⟩
  refine ⟨gap',pre,?_,hlen,hpre⟩
  rw [copyByte,load_copyFrom hmem hfrom,ok_bind,hmem,hto,hstore]
  rfl

/-- The segments as the loop takes them: dots at the end of the path count only if the string
ends there (`closed`). -/
def walk (closed : Bool) :
    List (List UInt8) → List UInt8 → List (List UInt8) → Option (List (List UInt8))
  | acc, w, [] => if closed && isDots w then (dotStep acc w).map ([]::·) else some (w::acc)
  | acc, w, v::ws => (dotStep acc w).bind fun acc => walk closed acc v ws

/-- The same behind a segment that is kept. -/
def walkOn (closed : Bool) (acc : List (List UInt8)) (w : List UInt8) :
    List (List UInt8) → Option (List (List UInt8))
  | [] => some (w::acc)
  | v::ws => walk closed (w::acc) v ws

theorem walk_plain (closed : Bool) (acc : List (List UInt8)) {w : List UInt8}
    (ws : List (List UInt8)) (h : isDots w = false ∨ (ws = [] ∧ closed = false)) :
    walk closed acc w ws = walkOn closed acc w ws := by
  cases ws with
  | nil =>
    rcases h with h | ⟨-,h⟩
    · rw [walk,h,Bool.and_false]
      rfl
    · rw [walk,h,Bool.false_and]
      rfl
  | cons v ws =>
    rcases h with h | ⟨h,-⟩
    · rw [walk,dotStep_plain h]
      rfl
    · cases h

/-- The same behind a dot segment. -/
def walkDots (closed : Bool) (acc : List (List UInt8)) :
    List (List UInt8) → Option (List (List UInt8))
  | [] => some ([]::acc)
  | v::ws => walk closed acc v ws

theorem walk_dots {closed : Bool} (acc : List (List UInt8)) {w : List UInt8}
    (ws : List (List UInt8)) (hw : isDots w = true) (h : ws ≠ [] ∨ closed = true) :
    walk closed acc w ws = (dotStep acc w).bind fun acc => walkDots closed acc ws := by
  cases ws with
  | nil =>
    rw [walk,hw,h.resolve_left fun h => h rfl,Bool.true_and,if_pos rfl]
    cases dotStep acc w <;> rfl
  | cons v ws => rfl

/-- The state in the middle of a path: the segments on the stack and the part `cur` of the next
are written, a gap follows, and the segment's rest `w` and the segments `ws` are still to be
read. -/
structure Walking (n : ℕ) (q z : List UInt8) (result : Option (List (List UInt8)))
    (acc : List (List UInt8)) (cur gap w : List UInt8) (ws : List (List UInt8)) (d : Dots) :
    Prop where
  mem : d.mem = (outOf acc++cur)++(gap++(w++((joinPath ws++q)++0::z)))
  copyTo : d.copyTo = (outOf acc++cur).length
  copyFrom : d.copyFrom = (outOf acc++cur).length+gap.length
  size : n = d.copyFrom+(w.length+(joinPath ws++q).length)
  lastSegment : d.lastSegment = acc.length
  table : Table d.segments acc
  tableSize : d.segments.length = n
  before : ∃ pre p, (outOf acc++cur)++gap = pre++[p] ∧ (p = 47 ↔ cur = [])
  chars : SegmentChars (cur++w) ∧ ∀ v ∈ ws, SegmentChars v
  result : result = if cur = [] then walk q.isEmpty acc w ws else walkOn q.isEmpty acc (cur++w) ws

/-- The state behind dots that end the string. -/
structure Ended (n : ℕ) (q z : List UInt8) (result : Option (List (List UInt8))) (d : Dots) :
    Prop where
  parts : ∃ acc gap, d.mem = outOf acc++(gap++0::z) ∧ d.copyTo = (outOf acc).length ∧
    result = some ([]::acc)
  rest : q = []
  copyFrom : n ≤ d.copyFrom

/-- The state after a round that goes on. -/
def Progress (n : ℕ) (q z : List UInt8) (result : Option (List (List UInt8))) (d : Dots) : Prop :=
  (∃ acc cur gap w ws, Walking n q z result acc cur gap w ws d) ∨ Ended n q z result d

theorem joinPath_cons (v : List UInt8) (ws : List (List UInt8)) :
    joinPath (v::ws) = 47::(v++joinPath ws) := by
  simp [joinPath]

theorem follow_head (ws : List (List UInt8)) {q : List UInt8}
    (hq : ∀ c v, q = c::v → isPathEnd c = true) :
    ((joinPath ws++q).headD 47 == 47) = (!ws.isEmpty || q.isEmpty) ∧
      (joinPath ws++q).head? ≠ some 46 := by
  cases ws with
  | nil =>
    cases q with
    | nil => exact ⟨rfl,by rintro ⟨⟩⟩
    | cons c v =>
      have hc := hq c v rfl
      constructor
      · simp only [joinPath,List.flatMap_nil,List.nil_append,List.headD_cons,List.isEmpty_nil,
          List.isEmpty_cons,Bool.not_true,Bool.or_self,beq_eq_false_iff_ne]
        rintro rfl
        cases hc
      · rintro ⟨⟩
        cases hc
  | cons v ws => exact ⟨rfl,by rintro ⟨⟩⟩

section

variable {n : ℕ} {q z : List UInt8} {result : Option (List (List UInt8))}
  {acc : List (List UInt8)} {cur gap w : List UInt8} {ws : List (List UInt8)} {d : Dots}

theorem Walking.copy {c : UInt8} (h : Walking n q z result acc cur gap (c::w) ws d)
    (hdots : dotsAt d.mem n d.copyFrom = .ok 0)
    (hres : result = walkOn q.isEmpty acc (cur++c::w) ws) :
    ∃ gap' t, dotsRound n d = .ok (.inl t) ∧ t.copyFrom = d.copyFrom+1 ∧
      Walking n q z result acc (cur++[c]) gap' w ws t := by
  have hc := h.chars.1 c (by simp)
  rcases copyByte_move h.mem h.copyTo h.copyFrom with ⟨gap',pre,hcopy,hlen,hpre⟩
  have hn := h.size
  have hto := h.copyTo
  have hfrom := h.copyFrom
  rw [List.length_cons] at hn
  have hround : dotsRound n d = .ok (.inl { d with
      mem := (outOf acc++cur++[c])++(gap'++(w++((joinPath ws++q)++0::z)))
      copyTo := d.copyTo+1
      copyFrom := d.copyFrom+1 }) := by
    rw [dotsRound,if_pos (by omega),load_copyFrom h.mem h.copyFrom,ok_bind,if_neg (by simp [hc.2]),
      hdots,ok_bind,if_neg (by decide),if_neg (by decide),noteSegment,if_neg hc.1,ok_bind,hcopy]
    rfl
  refine ⟨gap',_,hround,rfl,⟨?_,?_,?_,?_,h.lastSegment,h.table,h.tableSize,⟨pre,c,?_,?_⟩,
    ⟨?_,h.chars.2⟩,?_⟩⟩
  · simp
  · simp only [hto,List.length_append,List.length_singleton,Nat.add_assoc]
  · simp only [hfrom,hlen,List.length_append,List.length_singleton]
    omega
  · simp only
    omega
  · rw [← List.append_assoc]
    exact hpre
  · simp [hc.1]
  · rw [List.append_assoc]
    exact h.chars.1
  · rw [hres,if_neg (by simp),List.append_assoc]
    rfl

theorem Walking.slash {v : List UInt8} (h : Walking n q z result acc cur gap [] (v::ws) d)
    (hres : result = walk q.isEmpty (cur::acc) v ws) :
    ∃ gap' t, dotsRound n d = .ok (.inl t) ∧ t.copyFrom = d.copyFrom+1 ∧
      Walking n q z result (cur::acc) [] gap' v ws t := by
  have hn := h.size
  have hto := h.copyTo
  have hfrom := h.copyFrom
  have hacc := outOf_length acc
  have hmem := h.mem
  rw [joinPath_cons] at hmem hn
  simp only [List.length_nil,List.cons_append,List.length_cons,List.length_append] at hn hto hfrom
  have hlast : (d.lastSegment+1).toNat = acc.length+1 := by
    have := h.lastSegment
    omega
  have hlt : acc.length+1 < d.segments.length := by
    rw [h.tableSize]
    omega
  have hnote : noteSegment d 47 = .ok { d with
      segments := d.segments.set (acc.length+1) (outOf (cur::acc)).length
      lastSegment := d.lastSegment+1 } := by
    have hpos : d.copyTo+1 = (outOf (cur::acc)).length := by
      rw [outOf_cons]
      simp [hto]
      omega
    rw [noteSegment,if_pos rfl,hlast,store,if_pos hlt,ok_bind,hpos]
  have hmem' : d.mem = (outOf acc++cur)++(gap++47::(v++(joinPath ws++q)++0::z)) := by
    rw [hmem]
    simp
  rcases copyByte_move (d := { d with
      segments := d.segments.set (acc.length+1) (outOf (cur::acc)).length
      lastSegment := d.lastSegment+1 }) hmem' h.copyTo h.copyFrom with ⟨gap',pre,hcopy,hlen,hpre⟩
  have hload := load_copyFrom hmem' h.copyFrom
  have hdots : dotsAt d.mem n d.copyFrom = .ok 0 := by
    rw [dotsAt,hload,ok_bind,if_neg (by decide)]
  have hout : outOf acc++cur++[47] = outOf (cur::acc)++[] := by
    rw [outOf_cons,List.append_nil,List.append_assoc]
  have hround : dotsRound n d = .ok (.inl { d with
      segments := d.segments.set (acc.length+1) (outOf (cur::acc)).length
      lastSegment := d.lastSegment+1
      mem := (outOf acc++cur++[47])++(gap'++(v++(joinPath ws++q)++0::z))
      copyTo := d.copyTo+1
      copyFrom := d.copyFrom+1 }) := by
    rw [dotsRound,if_pos (by omega),hload,ok_bind,if_neg (by decide),hdots,ok_bind,
      if_neg (by decide),if_neg (by decide),hnote,ok_bind,hcopy]
    rfl
  refine ⟨gap',_,hround,rfl,⟨?_,?_,?_,?_,?_,?_,?_,⟨pre,47,?_,by simp⟩,⟨?_,?_⟩,?_⟩⟩
  · simp only [hout,List.append_assoc]
  · rw [← hout]
    simp [hto]
    omega
  · rw [← hout]
    simp [hfrom,hlen]
    omega
  · simp only [List.length_append]
    omega
  · simp [h.lastSegment]
  · exact h.table.push cur hlt
  · simpa using h.tableSize
  · rw [← hout]
    exact hpre
  · exact h.chars.2 v (.head _)
  · exact fun s hs => h.chars.2 s (.tail _ hs)
  · rw [hres,if_pos rfl]

/-- The state behind a dot segment. -/
theorem behindDots {t : Dots} (gap : List UInt8) (hclosed : ws ≠ [] ∨ q.isEmpty = true)
    (hmem : t.mem = outOf acc++(gap++((joinPath ws++q)++0::z)))
    (hto : t.copyTo = (outOf acc).length) (hfrom : t.copyFrom = (outOf acc).length+gap.length+1)
    (hn : n = (outOf acc).length+gap.length+(joinPath ws++q).length)
    (hlast : t.lastSegment = acc.length) (htable : Table t.segments acc)
    (hsize : t.segments.length = n) (hchars : ∀ v ∈ ws, SegmentChars v)
    (hres : result = walkDots q.isEmpty acc ws) : Progress n q z result t := by
  cases ws with
  | nil =>
    obtain rfl := List.isEmpty_iff.mp (hclosed.resolve_left fun h => h rfl)
    refine .inr ⟨⟨acc,gap,hmem,hto,hres⟩,rfl,?_⟩
    rw [hn,hfrom]
    simp [joinPath]
  | cons v ws =>
    refine .inl ⟨acc,[],gap++[47],v,ws,⟨?_,?_,?_,?_,hlast,htable,hsize,?_,⟨?_,?_⟩,?_⟩⟩
    · rw [hmem,joinPath_cons]
      simp
    · rw [hto,List.append_nil]
    · rw [hfrom,List.append_nil,List.length_append]
      rfl
    · rw [hn,hfrom,joinPath_cons]
      simp only [List.cons_append,List.length_cons,List.length_append]
      omega
    · exact ⟨outOf acc++gap,47,by simp,by simp⟩
    · exact hchars v (.head _)
    · exact fun s hs => hchars s (.tail _ hs)
    · rw [hres,if_pos rfl]
      rfl

theorem Walking.oneDot (h : Walking n q z result acc [] gap [46] ws d)
    (hdots : dotsAt d.mem n d.copyFrom = .ok 1) (hclosed : ws ≠ [] ∨ q.isEmpty = true) :
    dotsRound n d = .ok (.inl { d with copyFrom := d.copyFrom+2 }) ∧
      Progress n q z result { d with copyFrom := d.copyFrom+2 } := by
  have hfrom := h.copyFrom
  have hn := h.size
  have hres := h.result
  rw [if_pos rfl,walk_dots _ _ rfl hclosed] at hres
  rw [List.append_nil] at hfrom
  rw [List.length_singleton] at hn
  constructor
  · rw [dotsRound,if_pos (by omega),load_copyFrom h.mem h.copyFrom,ok_bind,if_neg (by decide),
      hdots,ok_bind,if_pos rfl]
  · refine behindDots (gap++[46]) hclosed ?_ ?_ ?_ ?_ h.lastSegment h.table h.tableSize
      h.chars.2 hres
    · rw [h.mem]
      simp
    · rw [h.copyTo,List.append_nil]
    · simp only [hfrom,List.length_append,List.length_singleton]
      omega
    · simp only [List.length_append,List.length_singleton] at hn ⊢
      omega

/-- Two dots take a segment from the stack, and at the root they are an error. -/
theorem Walking.twoDots (h : Walking n q z result acc [] gap [46,46] ws d)
    (hdots : dotsAt d.mem n d.copyFrom = .ok 2) (hclosed : ws ≠ [] ∨ q.isEmpty = true) :
    (dotsRound n d = .ok (.inr (false,d)) ∧ result = none) ∨
      ∃ t, dotsRound n d = .ok (.inl t) ∧ t.copyFrom = d.copyFrom+3 ∧ Progress n q z result t := by
  have hfrom := h.copyFrom
  have hn := h.size
  have hres := h.result
  have hlast := h.lastSegment
  have hmem := h.mem
  rw [if_pos rfl,walk_dots _ _ rfl hclosed] at hres
  rw [List.append_nil] at hfrom hmem
  simp only [List.length_cons,List.length_nil] at hn
  rw [dotsRound,if_pos (by omega),load_copyFrom h.mem h.copyFrom,ok_bind,if_neg (by decide),
      hdots,ok_bind,if_neg (by decide),if_pos rfl]
  cases acc with
  | nil =>
    left
    rw [if_neg (by rw [hlast]; decide)]
    exact ⟨rfl,hres⟩
  | cons seg acc =>
    right
    have hidx : (d.lastSegment-1).toNat = acc.length := by
      rw [hlast,List.length_cons]
      omega
    have hload : load d.segments (d.lastSegment-1).toNat = .ok (outOf acc).length := by
      rw [hidx]
      exact load_eq h.table.2.top
    rw [if_pos (by rw [hlast,List.length_cons]; omega),hload]
    refine ⟨_,rfl,rfl,?_⟩
    rw [outOf_cons] at hfrom hmem
    refine behindDots (seg++[47]++gap++[46,46]) hclosed ?_ rfl ?_ ?_ ?_ h.table.2 h.tableSize
      h.chars.2 hres
    · simp only [hmem]
      simp
    · simp only [hfrom,List.length_append,List.length_cons,List.length_nil]
      omega
    · simp only [List.length_append,List.length_cons,List.length_nil] at hn hfrom ⊢
      omega
    · simp only [hlast,List.length_cons]
      omega

/-- How the loop over the path is left. -/
structure PathLeft (n : ℕ) (q z : List UInt8) (result : Option (List (List UInt8)))
    (r : Bool × Dots) : Prop where
  failed : r.1 = false → result = none
  done : r.1 = true → ∃ segs gap, result = some segs ∧
    r.2.mem = joinPath segs.reverse++(gap++(q++0::z)) ∧
    r.2.copyTo = (joinPath segs.reverse).length ∧
    (r.2.copyFrom = (joinPath segs.reverse).length+gap.length ∧ n = r.2.copyFrom+q.length ∨
      q = [] ∧ n ≤ r.2.copyFrom)

theorem Walking.leave (h : Walking n q z result acc cur gap [] [] d)
    (hq : ∀ c v, q = c::v → isPathEnd c = true) :
    dotsRound n d = .ok (.inr (true,d)) ∧ PathLeft n q z result (true,d) := by
  have hmem := h.mem
  have hn := h.size
  have hfrom := h.copyFrom
  have hto := h.copyTo
  simp only [joinPath,List.flatMap_nil,List.nil_append,List.length_nil,Nat.zero_add] at hmem hn
  have hres : result = some (cur::acc) := by
    rw [h.result]
    split
    · rename_i hc
      rw [walk_plain _ _ _ (.inl rfl),hc]
      rfl
    · rw [List.append_nil]
      rfl
  constructor
  · rw [dotsRound]
    cases q with
    | nil =>
      rw [if_neg]
      simp only [List.length_nil] at hn
      omega
    | cons c v =>
      simp only [List.length_cons] at hn
      rw [if_pos (by omega),load_copyFrom hmem hfrom,ok_bind,if_pos (hq c v rfl)]
  · refine ⟨(by rintro ⟨⟩),fun _ => ⟨cur::acc,gap,hres,?_,?_,.inl ⟨?_,?_⟩⟩⟩
    · rw [← outOf_append]
      exact hmem
    · rw [← outOf_append]
      exact hto
    · rw [← outOf_append]
      exact hfrom
    · omega

/-- One round in the middle of a path. -/
theorem Walking.round (h : Walking n q z result acc cur gap w ws d)
    (hq : ∀ c v, q = c::v → isPathEnd c = true) :
    (∃ r, dotsRound n d = .ok (.inr r) ∧ PathLeft n q z result r) ∨
      ∃ t, dotsRound n d = .ok (.inl t) ∧ Progress n q z result t ∧ d.copyFrom < t.copyFrom ∧
        d.copyFrom < n := by
  have hn := h.size
  have hres := h.result
  cases w with
  | nil =>
    cases ws with
    | nil =>
      left
      rcases h.leave hq with ⟨hr,hl⟩
      exact ⟨_,hr,hl⟩
    | cons v ws =>
      right
      have hres' : result = walk q.isEmpty (cur::acc) v ws := by
        rw [hres]
        split
        · rename_i hc
          rw [walk_plain _ _ _ (.inl rfl),hc]
          rfl
        · rw [List.append_nil]
          rfl
      rcases h.slash hres' with ⟨gap',t,hr,hfrom,ht⟩
      rw [joinPath_cons,List.cons_append,List.length_cons] at hn
      exact ⟨t,hr,.inl ⟨_,_,_,_,_,ht⟩,by omega,by omega⟩
  | cons c w =>
    have hlt : d.copyFrom < n := by
      rw [List.length_cons] at hn
      omega
    rcases h.before with ⟨pre,p,hpre,hp⟩
    rcases follow_head ws hq with ⟨hfollow,hf⟩
    have hat : dotsAt d.mem n d.copyFrom = .ok (dotsOf p (c::w) (!ws.isEmpty || q.isEmpty)) := by
      have hmem : d.mem = pre++p::(c::w++((joinPath ws++q)++0::z)) := by
        rw [h.mem,← List.append_assoc,hpre,List.append_assoc]
        rfl
      have hfrom : d.copyFrom = pre.length+1 := by
        rw [h.copyFrom,← List.length_append,hpre,List.length_append]
        rfl
      rw [← hfollow]
      exact dotsAt_eq hmem hfrom hn (fun x hx => (h.chars.1 x (by simp [hx])).1) hf
    have hcopy : dotsOf p (c::w) (!ws.isEmpty || q.isEmpty) = 0 →
        result = walkOn q.isEmpty acc (cur++c::w) ws →
        ∃ t, dotsRound n d = .ok (.inl t) ∧ Progress n q z result t ∧ d.copyFrom < t.copyFrom ∧
          d.copyFrom < n := by
      intro h0 hr
      rw [h0] at hat
      rcases h.copy hat hr with ⟨gap',t,hr,hfrom,ht⟩
      exact ⟨t,hr,.inl ⟨_,_,_,_,_,ht⟩,by omega,hlt⟩
    by_cases hcur : cur = []
    · subst hcur
      obtain rfl := hp.mpr rfl
      rw [if_pos rfl] at hres
      by_cases hclosed : (!ws.isEmpty || q.isEmpty) = true
      · have hclosed' : ws ≠ [] ∨ q.isEmpty = true := by simpa using hclosed
        rw [dotsOf,if_pos ⟨rfl,hclosed⟩] at hat hcopy
        by_cases h₁ : c::w = [46]
        · rw [if_pos h₁] at hat
          rw [h₁] at h
          rcases h.oneDot hat hclosed' with ⟨hr,ht⟩
          exact .inr ⟨_,hr,ht,by simp,hlt⟩
        · rw [if_neg h₁] at hat hcopy
          by_cases h₂ : c::w = [46,46]
          · rw [if_pos h₂] at hat
            rw [h₂] at h
            rcases h.twoDots hat hclosed' with ⟨hr,hnone⟩ | ⟨t,hr,hfrom,ht⟩
            · exact .inl ⟨_,hr,fun _ => hnone,(by rintro ⟨⟩)⟩
            · exact .inr ⟨t,hr,ht,by omega,hlt⟩
          · rw [if_neg h₂] at hcopy
            refine .inr (hcopy rfl ?_)
            rw [hres,walk_plain _ _ _ (.inl (isDots_false h₁ h₂))]
            rfl
      · refine .inr (hcopy (if_neg fun h => hclosed h.2) ?_)
        have hopen : ws = [] ∧ q.isEmpty = false := by simpa using hclosed
        rw [hres,walk_plain _ _ _ (.inr hopen)]
        rfl
    · rw [if_neg hcur] at hres
      exact .inr (hcopy (if_neg fun h => hcur (hp.mp h.1)) hres)

theorem Progress.round (h : Progress n q z result d) (hq : ∀ c v, q = c::v → isPathEnd c = true) :
    (∃ r, dotsRound n d = .ok (.inr r) ∧ PathLeft n q z result r) ∨
      ∃ t, dotsRound n d = .ok (.inl t) ∧ Progress n q z result t ∧
        n-t.copyFrom < n-d.copyFrom := by
  rcases h with ⟨acc,cur,gap,w,ws,h⟩ | h
  · rcases h.round hq with hr | ⟨t,hr,ht,hlt,hn⟩
    · exact .inl hr
    · exact .inr ⟨t,hr,ht,by omega⟩
  · left
    rcases h.parts with ⟨acc,gap,hmem,hto,hres⟩
    obtain rfl := h.rest
    refine ⟨(true,d),?_,(by rintro ⟨⟩),fun _ => ⟨[]::acc,gap,hres,?_,?_,.inr ⟨rfl,h.copyFrom⟩⟩⟩
    · rw [dotsRound,if_neg (Nat.not_lt.mpr h.copyFrom)]
    · rw [← outOf_append,List.append_nil]
      exact hmem
    · rw [← outOf_append,List.append_nil]
      exact hto

/-! The loop over the query and the fragment. -/

/-- What is written and what is still to be read make up `full`. -/
structure Trailing (n : ℕ) (z full : List UInt8) (d : Dots) : Prop where
  parts : ∃ out gap rest, d.mem = out++(gap++(rest++0::z)) ∧ d.copyTo = out.length ∧
    out++rest = full ∧ (d.copyFrom = out.length+gap.length ∧ n = d.copyFrom+rest.length ∨
      rest = [] ∧ n ≤ d.copyFrom)

theorem tailRound_step {full : List UInt8} (h : Trailing n z full d) :
    (∃ t, tailRound n d = .ok (.inr t) ∧ ∃ gap, t.mem = full++(gap++0::z) ∧
        t.copyTo = full.length) ∨
      ∃ t, tailRound n d = .ok (.inl t) ∧ Trailing n z full t ∧ n-t.copyFrom < n-d.copyFrom := by
  rcases h.parts with ⟨out,gap,rest,hmem,hto,hfull,hfrom⟩
  cases rest with
  | nil =>
    left
    rw [List.append_nil] at hfull
    subst hfull
    refine ⟨d,?_,gap,hmem,hto⟩
    rw [tailRound,if_neg]
    rcases hfrom with ⟨-,hn⟩ | ⟨-,hn⟩
    · rw [hn]
      exact Nat.lt_irrefl _
    · omega
  | cons c rest =>
    right
    rcases hfrom with ⟨hfrom,hn⟩ | ⟨h,-⟩
    swap
    · cases h
    rw [List.length_cons] at hn
    rcases copyByte_move hmem hto hfrom with ⟨gap',pre,hcopy,hlen,-⟩
    have hround : tailRound n d = .ok (.inl { d with
        mem := (out++[c])++(gap'++(rest++0::z))
        copyTo := d.copyTo+1
        copyFrom := d.copyFrom+1 }) := by
      rw [tailRound,if_pos (by omega),hcopy]
      rfl
    refine ⟨_,hround,⟨⟨out++[c],gap',rest,rfl,?_,?_,.inl ⟨?_,?_⟩⟩⟩,?_⟩
    · simp [hto]
    · rw [← hfull,List.append_assoc]
      rfl
    · simp only [hfrom,hlen,List.length_append,List.length_singleton]
      omega
    · simp only
      omega
    · simp only
      omega

end

/-! The whole function. -/

/-- What follows the dot segments that a string begins with, if no slash stands before them. -/
def dropDots : List UInt8 → List UInt8
  | [] => []
  | [c] => if c = 46 then [] else [c]
  | c::d::r => if c = 46 ∧ d = 47 then dropDots r else c::d::r

theorem dropDots_slash {s : List UInt8} (h : s.head? = some 47) : dropDots s = s := by
  cases s with
  | nil => rfl
  | cons c r =>
    obtain rfl := Option.some.inj h
    cases r <;> rfl

theorem dropDots_cases (x : List UInt8) :
    (∃ r, x = 46::47::r ∧ dropDots x = dropDots r) ∨ (x = [46] ∧ dropDots x = []) ∨
      dropDots x = x ∧ x ≠ [46] ∧ ∀ r, x ≠ 46::47::r := by
  cases x with
  | nil => exact .inr (.inr ⟨rfl,by simp,by simp⟩)
  | cons c x =>
    cases x with
    | nil =>
      by_cases hc : c = 46
      · exact .inr (.inl ⟨by rw [hc],by rw [dropDots,if_pos hc]⟩)
      · exact .inr (.inr ⟨by rw [dropDots,if_neg hc],by simpa using hc,by simp⟩)
    | cons d r =>
      by_cases hcd : c = 46 ∧ d = 47
      · exact .inl ⟨r,by rw [hcd.1,hcd.2],by rw [dropDots,if_pos hcd]⟩
      · refine .inr (.inr ⟨by rw [dropDots,if_neg hcd],by simp,fun r' h => hcd ?_⟩)
        injection h with hc h
        injection h with hd
        exact ⟨hc,hd⟩

/-- Nothing is written yet; the dots in front of `x` are passed over. -/
def Leading (p z x : List UInt8) (d : Dots) : Prop :=
  ∃ pre, p = pre++x ∧ (pre = [] ∨ ∃ l, pre = l++[47]) ∧
    d = ⟨p++0::z,pre.length,0,(List.replicate p.length 0).set 0 0,-1⟩

theorem Leading.begins {p z x pre : List UInt8} (h : pre = [] ∨ ∃ l, pre = l++[47]) (hp : p = pre++x) :
    segmentBegins (p++0::z) pre.length = .ok true := by
  rw [segmentBegins]
  rcases h with rfl | ⟨l,rfl⟩
  · rfl
  · rw [if_neg (by simp),hp,List.length_append,List.length_singleton,Nat.add_sub_cancel,
      List.append_assoc,List.append_assoc,List.singleton_append,load_mid]
    rfl

theorem Leading.dot {p z r : List UInt8} {d : Dots} (h : Leading p z (46::47::r) d) :
    ∃ t, dotsRound p.length d = .ok (.inl t) ∧ Leading p z r t ∧ t.copyFrom = d.copyFrom+2 ∧
      d.copyFrom < p.length := by
  rcases h with ⟨pre,hp,hpre,rfl⟩
  have hlen : p.length = pre.length+(r.length+2) := by
    rw [hp]
    simp
  have hmem : p++0::z = pre++46::47::(r++0::z) := by
    rw [hp]
    simp
  have hload : load (p++0::z) pre.length = .ok 46 := by
    rw [hmem]
    exact load_mid _ _ _
  have hnext : load (p++0::z) (pre.length+1) = .ok 47 := by
    rw [hmem]
    exact load_behind pre rfl
  have hdots : dotsAt (p++0::z) p.length pre.length = .ok 1 := by
    rw [dotsAt,hload,ok_bind,if_pos rfl,Leading.begins hpre hp,ok_bind,if_pos rfl,segmentEnds,
      if_neg (by omega),hnext,ok_bind]
    rfl
  refine ⟨_,?_,⟨pre++[46,47],?_,.inr ⟨pre++[46],?_⟩,rfl⟩,?_,?_⟩
  · rw [dotsRound,if_pos (by simp only; omega),hload,ok_bind,if_neg (by decide),hdots,ok_bind,
      if_pos rfl,List.length_append]
    rfl
  · rw [hp]
    simp
  · simp
  · simp
  · simp only
    omega

theorem Leading.slash {p z w : List UInt8} {ws : List (List UInt8)} {q : List UInt8} {d : Dots}
    (h : Leading p z (47::(w++joinPath ws++q)) d) (hw : SegmentChars w)
    (hws : ∀ v ∈ ws, SegmentChars v) :
    ∃ gap t, dotsRound p.length d = .ok (.inl t) ∧ t.copyFrom = d.copyFrom+1 ∧
      d.copyFrom < p.length ∧
      Walking p.length q z (walk q.isEmpty [] w ws) [] [] gap w ws t := by
  rcases h with ⟨pre,hp,-,rfl⟩
  have hlen : p.length = pre.length+(w.length+(joinPath ws++q).length+1) := by
    rw [hp]
    simp only [List.length_append,List.length_cons]
    omega
  generalize hn : p.length = n at hlen ⊢
  obtain ⟨m,rfl⟩ : ∃ m, n = m+1 := ⟨n-1,by omega⟩
  have hstore : store ((List.replicate (m+1) 0).set 0 0) 0 1 = .ok (1::List.replicate m 0) := by
    rw [List.replicate_succ]
    exact store_mid [] 0 1 _
  have hmem : p++0::z = []++(pre++47::(w++((joinPath ws++q)++0::z))) := by
    rw [hp]
    simp
  have hload : load (p++0::z) pre.length = .ok 47 := by
    rw [hmem]
    exact load_mid _ _ _
  have hdots : dotsAt (p++0::z) (m+1) pre.length = .ok 0 := by
    rw [dotsAt,hload,ok_bind,if_neg (by decide)]
  rcases copyByte_move (d := ⟨p++0::z,pre.length,0,1::List.replicate m 0,0⟩) hmem rfl
    (Nat.zero_add _).symm with ⟨gap,pre',hcopy,hgap,hpre'⟩
  have hround : dotsRound (m+1) ⟨p++0::z,pre.length,0,(List.replicate (m+1) 0).set 0 0,-1⟩ =
      .ok (.inl ⟨([]++[47])++(gap++(w++((joinPath ws++q)++0::z))),pre.length+1,1,
        1::List.replicate m 0,0⟩) := by
    rw [dotsRound,if_pos (by simp only; omega),hload,ok_bind,if_neg (by decide),hdots,ok_bind,
      if_neg (by decide),if_neg (by decide),noteSegment,if_pos rfl]
    simp only [Int.reduceNeg,Int.reduceAdd,Int.toNat_zero,Nat.zero_add,hstore,ok_bind,hcopy]
  refine ⟨gap,_,hround,rfl,by simp only; omega,⟨rfl,rfl,?_,?_,rfl,rfl,?_,⟨pre',47,hpre',by simp⟩,
    ⟨hw,hws⟩,(if_pos rfl).symm⟩⟩
  · rw [hgap]
    exact Nat.add_comm _ _
  · simp only
    omega
  · simp

/-- What `remove_dots` does: it walks over the segments and fails, or leaves the walk's segments
and the rest of the string. -/
theorem removeDots_walk {s w : List UInt8} {ws : List (List UInt8)} {q : List UInt8}
    (hs : dropDots s = 47::(w++joinPath ws++q)) (hw : SegmentChars w)
    (hws : ∀ v ∈ ws, SegmentChars v) (hq : ∀ c v, q = c::v → isPathEnd c = true) (z : List UInt8) :
    (walk q.isEmpty [] w ws = none ∧
        ∃ mem, removeDots (s++0::z) s.length = .ok (upnpEInvalidUrl,mem)) ∨
      ∃ segs rest, walk q.isEmpty [] w ws = some segs ∧ removeDots (s++0::z) s.length =
        .ok (upnpESuccess,(joinPath segs.reverse++q)++0::rest) := by
  have hpos : 0 < s.length := by
    refine List.length_pos_iff.mpr ?_
    rintro rfl
    cases hs
  have htable : store (List.replicate s.length 0) 0 0 =
      .ok ((List.replicate s.length 0).set 0 0) := if_pos (by simpa using hpos)
  obtain ⟨r,hrun,hleft⟩ : ∃ r, rounds .running (dotsRound s.length) (s.length+1)
      ⟨s++0::z,0,0,(List.replicate s.length 0).set 0 0,-1⟩ = .ok r ∧
      PathLeft s.length q z (walk q.isEmpty [] w ws) r := by
    refine rounds_post (I := fun d =>
      (∃ x, Leading s z x d ∧ dropDots x = 47::(w++joinPath ws++q)) ∨
        Progress s.length q z (walk q.isEmpty [] w ws) d)
      (μ := fun d => s.length-d.copyFrom) ?_ (.inl ⟨s,⟨[],rfl,.inl rfl,rfl⟩,hs⟩) (Nat.lt_succ_self _)
    rintro d (⟨x,hd,hx⟩ | hd)
    · right
      have hslash : x = 47::(w++joinPath ws++q) → ∃ t, dotsRound s.length d = .ok (.inl t) ∧
          Progress s.length q z (walk q.isEmpty [] w ws) t ∧
          s.length-t.copyFrom < s.length-d.copyFrom := by
        rintro rfl
        rcases hd.slash hw hws with ⟨gap,t,ht,hfrom,hlt,hwalk⟩
        exact ⟨t,ht,.inl ⟨_,_,_,_,_,hwalk⟩,by omega⟩
      rcases dropDots_cases x with ⟨r,rfl,hdrop⟩ | ⟨-,hdrop⟩ | ⟨hdrop,-⟩
      · rcases hd.dot with ⟨t,ht,hlead,hfrom,hlt⟩
        exact ⟨t,ht,.inl ⟨r,hlead,hdrop.symm.trans hx⟩,by omega⟩
      · rw [hdrop] at hx
        cases hx
      · rcases hslash (hdrop.symm.trans hx) with ⟨t,ht,hprog,hlt⟩
        exact ⟨t,ht,.inr hprog,hlt⟩
    · rcases hd.round hq with hr | ⟨t,ht,hprog,hlt⟩
      · exact .inl hr
      · exact .inr ⟨t,ht,.inr hprog,hlt⟩
  rw [removeDots,htable,ok_bind,hrun,ok_bind]
  rcases hb : r.1 with _ | _
  · exact .inl ⟨hleft.failed hb,_,rfl⟩
  · right
    rcases hleft.done hb with ⟨segs,gap,hsegs,hmem,hto,hcur⟩
    have htrail : Trailing s.length z (joinPath segs.reverse++q) r.2 :=
      ⟨⟨_,gap,q,hmem,hto,rfl,hcur⟩⟩
    obtain ⟨t,ht,gap,htmem,htto⟩ : ∃ t, rounds .running (tailRound s.length) (s.length+1) r.2 =
        .ok t ∧ ∃ gap, t.mem = (joinPath segs.reverse++q)++(gap++0::z) ∧
          t.copyTo = (joinPath segs.reverse++q).length :=
      rounds_post (I := Trailing s.length z (joinPath segs.reverse++q))
        (μ := fun d => s.length-d.copyFrom) (fun d hd => tailRound_step hd) htrail (by omega)
    obtain ⟨x,rest,hx⟩ : ∃ x rest, gap++0::z = x::rest := by
      cases gap with
      | nil => exact ⟨_,_,rfl⟩
      | cons x gap => exact ⟨_,_,rfl⟩
    refine ⟨segs,rest,hsegs,?_⟩
    rw [if_pos rfl,ht,ok_bind,htmem,htto,hx,store_mid]
    rfl

/-! The walk and the segments. -/

theorem walk_concat (closed : Bool) {acc init ws : List (List UInt8)} {w last : List UInt8}
    (h : w::ws = init++[last]) :
    walk closed acc w ws = (init.foldlM dotStep acc).bind fun acc =>
      if closed && isDots last then (dotStep acc last).map ([]::·) else some (last::acc) := by
  induction ws generalizing acc init w with
  | nil =>
    obtain ⟨rfl,rfl⟩ : init = [] ∧ w = last := by
      cases init with
      | nil => exact ⟨rfl,(List.cons.inj h).1⟩
      | cons v init =>
        have hl := congrArg List.length (List.cons.inj h).2
        simp at hl
    rfl
  | cons v ws ih =>
    obtain ⟨init,rfl,htail⟩ : ∃ init', init = w::init' ∧ v::ws = init'++[last] := by
      cases init with
      | nil => cases (List.cons.inj h).2
      | cons u init =>
        rcases List.cons.inj h with ⟨rfl,ht⟩
        exact ⟨init,rfl,ht⟩
    rw [walk,List.foldlM_cons]
    cases dotStep acc w with
    | none => rfl
    | some a => exact ih htail

/-- Where the dots count, the walk leaves what the segments say. -/
theorem walk_removeDotSegments {closed : Bool} {init ws : List (List UInt8)} {w last : List UInt8}
    (h : w::ws = init++[last]) (hc : closed = true ∨ isDots last = false) :
    (walk closed [] w ws).map List.reverse = removeDotSegments (w::ws) := by
  rw [walk_concat closed h,h,removeDotSegments_concat]
  cases init.foldlM dotStep [] with
  | none => rfl
  | some acc =>
    simp only [Option.bind_some]
    by_cases hd : isDots last = true
    · rw [hc.resolve_right (by simp [hd]),hd,Bool.and_self,if_pos rfl,Option.map_map]
      rfl
    · rw [Bool.not_eq_true] at hd
      rw [hd,Bool.and_false,if_neg (by decide),dotStep_plain hd]
      rfl

theorem walk_mem {closed : Bool} {ws segs : List (List UInt8)} {w : List UInt8}
    (h : walk closed [] w ws = some segs) : ∀ v ∈ segs, v ∈ w::ws ∨ v = [] := by
  obtain ⟨init,last,hl⟩ := exists_concat (List.cons_ne_nil w ws)
  rw [walk_concat closed hl] at h
  rcases Option.bind_eq_some_iff.mp h with ⟨acc,hacc,h⟩
  have hin : ∀ v ∈ acc, v ∈ w::ws := by
    intro v hv
    rcases foldlM_mem hacc v hv with hv | hv
    · cases hv
    · rw [hl]
      exact List.mem_append_left _ hv
  have hlast : last ∈ w::ws := by
    rw [hl]
    simp
  intro v hv
  split at h
  · rcases Option.map_eq_some_iff.mp h with ⟨a,ha,rfl⟩
    rcases List.mem_cons.mp hv with rfl | hv
    · exact .inr rfl
    · rcases dotStep_mem ha v hv with hv | rfl
      · exact .inl (hin v hv)
      · exact .inl hlast
  · rw [← Option.some.inj h] at hv
    rcases List.mem_cons.mp hv with rfl | hv
    · exact .inl hlast
    · exact .inl (hin v hv)

theorem walk_ne_nil {closed : Bool} {ws segs : List (List UInt8)} {w : List UInt8}
    (h : walk closed [] w ws = some segs) : segs ≠ [] := by
  obtain ⟨init,last,hl⟩ := exists_concat (List.cons_ne_nil w ws)
  rw [walk_concat closed hl] at h
  rcases Option.bind_eq_some_iff.mp h with ⟨acc,hacc,h⟩
  split at h
  · rcases Option.map_eq_some_iff.mp h with ⟨a,ha,rfl⟩
    exact List.cons_ne_nil _ _
  · rw [← Option.some.inj h]
    exact List.cons_ne_nil _ _

/-- The segments `remove_dots` leaves of a path. -/
def keptSegments (s : List UInt8) : Option (List (List UInt8)) :=
  (walk (pathRest s).isEmpty [] ((pathSegments s).headD []) (pathSegments s).tail).map List.reverse

theorem pathSegments_cons (s : List UInt8) :
    pathSegments s = (pathSegments s).headD []::(pathSegments s).tail := by
  obtain ⟨w,ws,h⟩ := List.exists_cons_of_ne_nil (pathSegments_ne_nil s)
  rw [h]
  rfl

theorem removeDots_led {p s : List UInt8} (hp : dropDots p = s) (hs : s.head? = some 47)
    (z : List UInt8) :
    (keptSegments s = none ∧ ∃ mem, removeDots (p++0::z) p.length = .ok (upnpEInvalidUrl,mem)) ∨
      ∃ segs rest, keptSegments s = some segs ∧ removeDots (p++0::z) p.length =
        .ok (upnpESuccess,(joinPath segs++pathRest s)++0::rest) := by
  have hsegs := pathSegments_cons s
  have hchars := pathSegments_chars s
  have hjoin := joinPath_pathSegments hs
  have happ := pathPart_append s
  unfold keptSegments
  generalize (pathSegments s).headD [] = w at hsegs
  generalize (pathSegments s).tail = ws at hsegs
  rw [hsegs] at hchars hjoin
  have hsplit : dropDots p = 47::(w++joinPath ws++pathRest s) := by
    rw [hp]
    nth_rewrite 1 [← happ]
    rw [← hjoin,joinPath_cons]
    rfl
  rcases removeDots_walk hsplit (hchars w (.head _)) (fun v hv => hchars v (.tail _ hv))
    (pathRest_head s) z with ⟨hw,hr⟩ | ⟨segs,rest,hw,hr⟩
  · exact .inl ⟨by rw [hw]; rfl,hr⟩
  · exact .inr ⟨segs.reverse,rest,by rw [hw]; rfl,hr⟩

theorem removeDots_kept {s : List UInt8} (hs : s.head? = some 47) (z : List UInt8) :
    (keptSegments s = none ∧ ∃ mem, removeDots (s++0::z) s.length = .ok (upnpEInvalidUrl,mem)) ∨
      ∃ segs rest, keptSegments s = some segs ∧ removeDots (s++0::z) s.length =
        .ok (upnpESuccess,(joinPath segs++pathRest s)++0::rest) :=
  removeDots_led (dropDots_slash hs) hs z

theorem keptSegments_mem {s : List UInt8} {segs : List (List UInt8)}
    (h : keptSegments s = some segs) :
    segs ≠ [] ∧ ∀ v ∈ segs, v ∈ pathSegments s ∨ v = [] := by
  rcases Option.map_eq_some_iff.mp h with ⟨acc,hacc,rfl⟩
  refine ⟨by simpa using walk_ne_nil hacc,fun v hv => ?_⟩
  rw [pathSegments_cons s]
  exact walk_mem hacc v (List.mem_reverse.mp hv)

theorem keptSegments_chars {s : List UInt8} {segs : List (List UInt8)}
    (h : keptSegments s = some segs) : ∀ v ∈ segs, SegmentChars v := by
  intro v hv
  rcases (keptSegments_mem h).2 v hv with hv | rfl
  · exact pathSegments_chars s v hv
  · intro c hc
    cases hc

theorem keptSegments_eq {s : List UInt8}
    (h : pathRest s = [] ∨ isDots ((pathSegments s).getLastD []) = false) :
    keptSegments s = removeDotSegments (pathSegments s) := by
  obtain ⟨init,last,hl⟩ := exists_concat (pathSegments_ne_nil s)
  have hcons := pathSegments_cons s
  rw [keptSegments,walk_removeDotSegments (hcons.symm.trans hl) ?_,← hcons]
  refine h.imp List.isEmpty_iff.mpr fun hd => ?_
  rw [hl] at hd
  simpa using hd

/-- Dots at the end of a path with something behind it are kept. -/
theorem keptSegments_open {s : List UInt8} {init : List (List UInt8)} {last : List UInt8}
    (hrest : pathRest s ≠ []) (hl : pathSegments s = init++[last]) :
    keptSegments s = (init.foldlM dotStep []).map fun acc => (last::acc).reverse := by
  have hopen : (pathRest s).isEmpty = false := by simpa using hrest
  rw [keptSegments,walk_concat _ ((pathSegments_cons s).symm.trans hl),hopen]
  cases init.foldlM dotStep [] <;> rfl

/-- The string that is left is put together from parts of the string. -/
theorem keptSegments_string {s : List UInt8} (hnul : 0 ∉ s) {segs : List (List UInt8)}
    (h : keptSegments s = some segs) :
    0 ∉ joinPath segs++pathRest s ∧ pathSegments (joinPath segs++pathRest s) = segs ∧
      pathRest (joinPath segs++pathRest s) = pathRest s := by
  rcases keptSegments_mem h with ⟨hne,hmem⟩
  rcases joinPath_read hne (keptSegments_chars h) (pathRest_head s) with ⟨-,hrest,hsegs⟩
  refine ⟨?_,hsegs,hrest⟩
  intro h0
  rcases List.mem_append.mp h0 with h0 | h0
  · rcases List.mem_flatMap.mp h0 with ⟨v,hv,h0⟩
    have h0 := (List.mem_cons.mp h0).resolve_left (by decide)
    rcases hmem v hv with hv | rfl
    · have hin := List.mem_of_mem_tail ((splitOn_mem v hv).2 0 h0)
      exact hnul ((List.takeWhile_sublist _).subset hin)
    · cases h0
  · exact hnul ((List.dropWhile_sublist _).subset h0)

/-- The dots of a path are resolved, and nothing else is changed. -/
structure DotsRemoved (s : List UInt8) : Prop where
  succeeds : (∃ mem, removeDots (s++[0]) s.length = .ok (upnpESuccess,mem)) ↔
    (removeDotSegments (pathSegments s)).isSome = true
  string : ∀ mem, removeDots (s++[0]) s.length = .ok (upnpESuccess,mem) →
    ∃ segs, removeDotSegments (pathSegments s) = some segs ∧
      (∀ seg ∈ segs, isDots seg = false) ∧
      untilNul mem = joinPath segs++pathRest s ∧ (untilNul mem).length ≤ s.length ∧
      ∃ mem', removeDots (untilNul mem++[0]) (untilNul mem).length =
        .ok (upnpESuccess,mem') ∧ untilNul mem' = untilNul mem

/-- No dots that count stand at the end of a path that something follows, unless the segments
before them fail already. -/
def DotsInside (s : List UInt8) : Prop :=
  pathRest s = [] ∨ isDots ((pathSegments s).getLastD []) = false ∨
    (pathSegments s).dropLast.foldlM dotStep [] = none

theorem joinPath_head {segs : List (List UInt8)} (hne : segs ≠ []) (q : List UInt8) :
    (joinPath segs++q).head? = some 47 := by
  obtain ⟨w,ws,rfl⟩ := List.exists_cons_of_ne_nil hne
  rw [joinPath_cons]
  rfl

theorem dotsRemoved_of_kept {s : List UInt8} (hs : s.head? = some 47) (hnul : 0 ∉ s)
    (hkept : keptSegments s = removeDotSegments (pathSegments s)) : DotsRemoved s := by
  rcases removeDots_kept hs [] with ⟨hnone,mem,hr⟩ | ⟨segs,rest,hsome,hr⟩
  · constructor
    · rw [← hkept,hnone,hr]
      simp [upnpESuccess,upnpEInvalidUrl]
    · intro mem h
      rw [hr] at h
      cases h
  · have hsegs := hkept.symm.trans hsome
    rcases keptSegments_string hnul hsome with ⟨h0,hread,hrest⟩
    rcases removeDotSegments_clean (pathSegments_ne_nil s) hsegs with ⟨hne,hplain,hlen⟩
    constructor
    · rw [hsegs,hr]
      simp
    · intro mem h
      rw [hr] at h
      cases h
      rw [untilNul_terminated h0]
      refine ⟨segs,hsegs,hplain,rfl,?_,?_⟩
      · have happ := congrArg List.length (pathPart_append s)
        rw [joinPath_pathSegments hs] at hlen
        rw [List.length_append] at happ ⊢
        omega
      · have hlast : isDots (segs.getLastD []) = false := by
          obtain ⟨init,last,rfl⟩ := exists_concat hne
          simpa using hplain last (by simp)
        have hagain : keptSegments (joinPath segs++pathRest s) = some segs := by
          rw [keptSegments_eq (.inr (by rw [hread]; exact hlast)),hread,
            removeDotSegments_plain hne hplain]
        rcases removeDots_kept (joinPath_head hne (pathRest s)) [] with ⟨hnone,-⟩ | ⟨segs',rest',hk,hr'⟩
        · rw [hagain] at hnone
          cases hnone
        · rw [hagain,Option.some.injEq] at hk
          subst hk
          rw [hrest] at hr'
          exact ⟨_,hr',untilNul_terminated h0 _⟩

theorem keptSegments_inside {s : List UInt8} (h : DotsInside s) :
    keptSegments s = removeDotSegments (pathSegments s) := by
  by_cases hplain : pathRest s = [] ∨ isDots ((pathSegments s).getLastD []) = false
  · exact keptSegments_eq hplain
  obtain ⟨hrest,hdots⟩ := not_or.mp hplain
  have hinit := (h.resolve_left hrest).resolve_left hdots
  obtain ⟨init,last,hl⟩ := exists_concat (pathSegments_ne_nil s)
  rw [hl,List.dropLast_concat] at hinit
  rw [keptSegments_open hrest hl,hl,removeDotSegments_concat,hinit]
  rfl

/-- Otherwise the dots are still there in what is left, and it is too long. -/
theorem keptSegments_outside {s : List UInt8} (h : ¬DotsInside s) :
    ∃ segs, keptSegments s = some segs ∧ (∃ seg ∈ segs, isDots seg = true) ∧
      ∀ out, removeDotSegments (pathSegments s) = some out →
        (joinPath out).length < (joinPath segs).length := by
  obtain ⟨init,last,hl⟩ := exists_concat (pathSegments_ne_nil s)
  obtain ⟨hrest,h⟩ := not_or.mp h
  obtain ⟨hdots,hinit⟩ := not_or.mp h
  rw [hl,List.getLastD_concat,Bool.not_eq_false] at hdots
  rw [hl,List.dropLast_concat] at hinit
  obtain ⟨acc,hacc⟩ := Option.ne_none_iff_exists'.mp hinit
  refine ⟨(last::acc).reverse,?_,⟨last,by simp,hdots⟩,?_⟩
  · rw [keptSegments_open hrest hl,hacc]
    rfl
  · intro out hout
    rw [hl,removeDotSegments_concat,hacc,Option.bind_some] at hout
    rcases Option.map_eq_some_iff.mp hout with ⟨a,ha,rfl⟩
    have hpos : 0 < last.length := by
      cases last with
      | nil => cases hdots
      | cons c v => simp
    have hle : (joinPath a).length ≤ (joinPath acc).length := dotStep_dots_length hdots ha
    rw [if_pos hdots,joinPath_reverse_length,joinPath_reverse_length,joinPath_cons,joinPath_cons]
    simp only [List.nil_append,List.length_cons,List.length_append]
    omega

/-- Dots are removed as the path says exactly if none that count stand before the query. -/
theorem removeDots_segments_iff {s : List UInt8} (hs : s.head? = some 47) (hnul : 0 ∉ s) :
    DotsRemoved s ↔ DotsInside s := by
  refine ⟨fun h => ?_,fun h => dotsRemoved_of_kept hs hnul (keptSegments_inside h)⟩
  by_contra hout
  rcases keptSegments_outside hout with ⟨segs,hsegs,⟨seg,hseg,hdots⟩,-⟩
  rcases removeDots_kept hs [] with ⟨hnone,-⟩ | ⟨segs₁,rest,hsome,hr⟩
  · rw [hsegs] at hnone
    cases hnone
  obtain rfl := Option.some.inj (hsegs.symm.trans hsome)
  rcases h.string _ hr with ⟨segs',hsegs',hclean,hstring,-⟩
  rcases keptSegments_string hnul hsome with ⟨h0,hread,-⟩
  rw [untilNul_terminated h0] at hstring
  have hne := (removeDotSegments_clean (pathSegments_ne_nil s) hsegs').1
  have hmem : ∀ v ∈ segs', SegmentChars v := by
    intro v hv
    rcases removeDotSegments_mem (pathSegments_ne_nil s) hsegs' v hv with hv | rfl
    · exact pathSegments_chars s v hv
    · intro c hc
      cases hc
  -- the string that is left is read as segments again
  have hread' := (joinPath_read hne hmem (pathRest_head s)).2.2
  rw [← hstring,hread] at hread'
  subst hread'
  rw [hclean seg hseg] at hdots
  cases hdots

theorem removeDots_segments_query : DotsRemoved (cstr "/a/./b/../c?d") :=
  (removeDots_segments_iff (by decide) (by decide)).mpr
    (.inr (.inl (by decide)))

/-- Dots that end at the query stay in the path. -/
theorem dotsAtQuery_kept :
    (∃ rest, removeDots (cstr "/a/..?q"++[0]) 7 = .ok (upnpESuccess,cstr "/a/..?q"++0::rest)) ∧
      ¬DotsRemoved (cstr "/a/..?q") := by
  have hr : removeDots (cstr "/a/..?q"++[0]) (cstr "/a/..?q").length =
      .ok (upnpESuccess,cstr "/a/..?q"++[0]) := by decide
  refine ⟨⟨[],hr⟩,fun h => ?_⟩
  rcases h.string _ hr with ⟨segs,hsegs,hclean,hstring,-⟩
  have hnil : removeDotSegments (pathSegments (cstr "/a/..?q")) = some [[]] := by decide
  rw [hnil] at hsegs
  cases hsegs
  revert hstring
  decide

end Uri
end CtrlPt
