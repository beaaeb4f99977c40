import CtrlPt.Http.Delivery
import CtrlPt.Http.Requests

/-! The lengths a peer announces: `Content-Length` and the sizes of chunks, from the text of
their numerals to the counters of the parser. -/
namespace CtrlPt
namespace Http

open CText Uri

/-- A length the parser goes on with: the text that announced it, and what was stored. -/
structure Length where
  base : ℕ
  text : List UInt8
  value : ℕ
  deriving DecidableEq, Repr

/-- The announced length was stored as it is. -/
def Length.Kept (l : Length) : Prop := Numeral l.base l.text l.value

/-- The text is an unsigned numeral of 32 bits. -/
def Length.Plain (l : Length) : Prop := ∃ n < 2^32, Numeral l.base l.text n

/-- The identifier at the head of a chunk-size line. -/
def chunkNumeral (r : List UInt8) : List UInt8 :=
  match scannerGetToken false r with
  | .ok t _ => t.text
  | .stop _ _ => []

/-- The length a round of `parser_parse_entity` takes up, if it does. -/
def lengthTaken (p : HttpParser) : List Length :=
  match p.entPosition with
  | .determineReadMethod =>
    match readMethod p.msg with
    | .clen _ => [⟨10,(findHdr p.msg.headers .contentLength).getD [],(entityStep p).2.contentLength⟩]
    | _ => []
  | .usingChunked =>
    if (entityStep p).1 = .continue1 then
      [⟨16,chunkNumeral p.rest,(entityStep p).2.chunkSize⟩]
    else []
  | _ => []

/-- The states a parser goes through, with the lengths it has taken up so far: more bytes
arrive, or one of the loops of `parser_parse` and `parser_parse_entity` makes a round that
goes on or waits. -/
inductive ParserRun (res : Resolver) : List Length → HttpParser → Prop
  | request : ParserRun res [] parserRequestInit
  | response (method : HttpMethod) : ParserRun res [] (parserResponseInit method)
  | append {ls : List Length} {p : HttpParser} (x : List UInt8) (h : ParserRun res ls p) :
      ParserRun res ls (p.append x)
  | line {ls : List Length} {p : HttpParser} (h : ParserRun res ls p) (hp : p.position ≠ .entity)
      (hw : (parserStep res p).1 = .ok ∨ waitsForMore (parserStep res p).1 = true) :
      ParserRun res ls (parserStep res p).2
  | entity {ls : List Length} {p : HttpParser} (h : ParserRun res ls p) (hp : p.position = .entity)
      (hw : (entityStep p).1 = .continue1 ∨ waitsForMore (entityStep p).1 = true) :
      ParserRun res (lengthTaken p++ls) (entityStep p).2

theorem rawToInt_value {v : List UInt8} {n : ℕ} (h : Numeral 10 v n) (hn : n < 2^63-1) :
    rawToInt 10 v = toInt n := by
  have hne : v.isEmpty = false := by
    cases v with
    | nil => exact absurd rfl h.ne_nil
    | cons a t => rfl
  simp only [rawToInt,hne,strtol_numeral (by decide) h (by omega),Bool.false_eq_true,if_false]
  rw [if_neg]
  simp

@[simp] theorem toUInt_toInt (n : ℤ) : toUInt (toInt n) = (n % 2^32).toNat := by
  simp only [toUInt,toInt]
  congr 1
  exact Int.bmod_emod

theorem toUInt_of_lt {n : ℕ} (h : n < 2^32) : toUInt (toInt n) = n := by
  rw [toUInt_toInt]
  omega

/-- The length a body is read by is kept if and only if it is a plain numeral. -/
theorem clen_kept_iff {v : List UInt8} :
    Numeral 10 v (toUInt (rawToInt 10 v)) ↔ ∃ n < 2^32, Numeral 10 v n := by
  constructor
  · intro h
    exact ⟨_,toUInt_lt _,h⟩
  · rintro ⟨n,hn,h⟩
    rw [rawToInt_value h (by omega),toUInt_of_lt hn]
    exact h

theorem chunkFmt_intAt {r : List UInt8} (h : (scannerMatch chunkFmt r).status = .ok) :
    (scannerMatch chunkFmt r).intAt 0 = some (toInt (strtol 16 (chunkNumeral r)).value) := by
  have hm : ∃ o k, matchInt false 16 r = (o,.ok () k) := by
    rcases hm : matchInt false 16 r with ⟨o,s⟩
    cases s with
    | ok u k => exact ⟨o,k,rfl⟩
    | stop st k =>
      simp only [scannerMatch,vfmatch,chunkFmt,vfmatchFrom,directive,hm] at h
      exact absurd h (status_ne_ok st)
  rcases hm with ⟨o,k,hm⟩
  have ho : o = some (toInt (strtol 16 (chunkNumeral r)).value) := by
    simp only [matchInt] at hm
    cases ht : scannerGetToken false r with
    | stop st n => simp [ht] at hm
    | ok t n =>
      simp only [ht] at hm
      split at hm
      · rename_i hty
        have hs := strtol_identifier (by decide : 16 ≤ 36) (x := []) ht hty
        rw [List.append_nil] at hs
        have hc : chunkNumeral r = t.text := by simp only [chunkNumeral,ht]
        split at hm
        · simp at hm
        · rw [hc,← hs]
          exact (congrArg Prod.fst hm).symm
      · simp at hm
  subst ho
  simp only [scannerMatch,vfmatch,chunkFmt,vfmatchFrom,directive,hm,Match.intAt]
  rfl

theorem storeChunkSize_stored {p : HttpParser} {m : Match} {z : ℤ} (hp : p.chunkSize < 2^32)
    (hm : m.intAt 0 = some z) : (storeChunkSize p m).chunkSize = toUInt z := by
  simp only [storeChunkSize,hm,storeInt]
  omega

/-- An accepted chunk-size line leaves the size it announced modulo 2^32. -/
theorem parserParseChunkyEntity_size {p : HttpParser} (hp : p.chunkSize < 2^32)
    (h : (parserParseChunkyEntity p).1 = .continue1) :
    (parserParseChunkyEntity p).2.chunkSize =
      toUInt (toInt (strtol 16 (chunkNumeral p.rest)).value) := by
  by_cases hm : (scannerMatch chunkFmt p.rest).status = .ok
  · have hb : ∀ q : HttpParser, (beginChunk q).chunkSize = q.chunkSize := by
      intro q
      unfold beginChunk
      split <;> rfl
    simp only [parserParseChunkyEntity,hm,ne_eq,not_true_eq_false,if_false,hb]
    exact storeChunkSize_stored hp (chunkFmt_intAt hm)
  · simp only [parserParseChunkyEntity,ne_eq,hm,not_false_eq_true,if_true] at h
    rcases scannerMatch_status chunkFmt p.rest with hs | ⟨st,hs⟩
    · exact absurd hs hm
    · rw [hs] at h
      exact absurd h (status_ne_continue st)

theorem chunk_kept_iff {text : List UInt8} :
    Numeral 16 text (toUInt (toInt (strtol 16 text).value)) ↔ ∃ n < 2^32, Numeral 16 text n := by
  constructor
  · intro h
    exact ⟨_,toUInt_lt _,h⟩
  · rintro ⟨n,hn,h⟩
    rw [strtol_numeral (by decide) h (by omega)]
    simp only
    rw [toUInt_of_lt hn]
    exact h

@[simp] theorem readMethod_setEntity (p : HttpParser) (e : Entity) :
    readMethod (p.setEntity e).msg = readMethod p.msg := rfl

theorem entityStep_chunkSize {p : HttpParser} (hc : p.cursor ≤ p.msg.msg.length)
    (hp : p.chunkSize < 2^32) : (entityStep p).2.chunkSize < 2^32 := by
  cases he : p.entPosition with
  | usingClen =>
    simp only [entityStep,he,parserParseEntityUsingClen]
    split <;> exact hp
  | usingChunked =>
    have hs := storeChunkSize_lt hp (scannerMatch chunkFmt p.rest)
    simp only [entityStep,he,parserParseChunkyEntity]
    split
    · exact hs
    · unfold beginChunk
      split <;> exact hs
  | chunkyBody =>
    simp only [entityStep,he,parserParseChunkyBody]
    split
    · split <;> exact hp
    · exact hp
  | chunkyHeaders =>
    have hf := (parserParseHeaders_frame hc).chunkSize
    simp only [entityStep,he,parserParseChunkyHeaders_eq]
    split
    · exact lt_of_eq_of_lt hf hp
    · exact lt_of_eq_of_lt hf hp
  | untilClose =>
    simp only [entityStep,he]
    exact hp
  | determineReadMethod =>
    simp only [entityStep,he,parserGetEntityReadMethod,readMethod_setEntity]
    cases readMethod p.msg <;> exact hp

theorem parserStep_chunkSize {res : Resolver} {p : HttpParser} (hc : p.cursor ≤ p.msg.msg.length)
    (hp : p.position ≠ .entity) : (parserStep res p).2.chunkSize = p.chunkSize := by
  cases hpos : p.position with
  | entity => exact absurd hpos hp
  | complete => simp only [parserStep,hpos]
  | headers =>
    simp only [parserStep,hpos]
    exact (parserParseHeaders_frame hc).chunkSize
  | requestLine =>
    simp only [parserStep,hpos]
    exact (parserParseRequestline_frame res hc).chunkSize
  | responseLine =>
    simp only [parserStep,hpos]
    exact (parserParseResponseline_frame hc).chunkSize

theorem ParserRun.parsing {res : Resolver} {ls : List Length} {p : HttpParser}
    (h : ParserRun res ls p) : Parsing p ∧ p.chunkSize < 2^32 := by
  induction h with
  | request => exact ⟨parserRequestInit_parsing,Nat.two_pow_pos 32⟩
  | response method =>
    exact ⟨(parserResponseInit_responding method).parsing,Nat.two_pow_pos 32⟩
  | append x _ ih => exact ⟨ih.1.append x,ih.2⟩
  | line _ hp hw ih =>
    refine ⟨(parserStep_parsing ih.1 hw).1,?_⟩
    rw [parserStep_chunkSize ih.1.framed.cursor_le hp]
    exact ih.2
  | entity _ hp hw ih =>
    have hf := entityStep_framed ih.1.framed hw
    refine ⟨⟨hf.1,fun hpos => ?_⟩,entityStep_chunkSize ih.1.framed.cursor_le ih.2⟩
    rw [hf.2,hp] at hpos
    rcases hpos with hpos | hpos | hpos <;> cases hpos

/-- A length that is taken up is kept if and only if it is a plain numeral. -/
theorem lengthTaken_kept {p : HttpParser} (hp : p.chunkSize < 2^32) {l : Length}
    (hl : l ∈ lengthTaken p) : l.Kept ↔ l.Plain := by
  cases he : p.entPosition with
  | determineReadMethod =>
    simp only [lengthTaken,he] at hl
    cases hm : readMethod p.msg with
    | clen n =>
      simp only [hm,List.mem_singleton] at hl
      have hn : (entityStep p).2.contentLength = n := by
        simp only [entityStep,he,parserGetEntityReadMethod,readMethod_setEntity,hm]
      have hv : n = toUInt (rawToInt 10 ((findHdr p.msg.headers .contentLength).getD [])) := by
        simp only [readMethod] at hm
        split at hm
        · cases hm
        split at hm
        · cases hm
        cases hf : findHdr p.msg.headers .contentLength with
        | none =>
          simp only [hf] at hm
          split at hm <;> cases hm
        | some v =>
          simp only [hf,ReadMethod.clen.injEq] at hm
          exact hm.symm
      rw [hl,hn,hv]
      exact clen_kept_iff
    | noBody | chunked | lengthRequired | untilClose => simp [hm] at hl
  | usingChunked =>
    simp only [lengthTaken,he] at hl
    split at hl
    · rename_i hc
      rw [List.mem_singleton] at hl
      simp only [entityStep,he] at hc hl
      rw [hl,parserParseChunkyEntity_size hp hc]
      exact chunk_kept_iff
    · simp at hl
  | usingClen | chunkyBody | chunkyHeaders | untilClose => simp [lengthTaken,he] at hl

/-- The rounds of `parser_parse_entity` up to a status that waits. -/
theorem ParserRun.parserParseEntity {res : Resolver} {ls : List Length} {p : HttpParser}
    (h : ParserRun res ls p) (hp : p.position = .entity)
    (hw : waitsForMore (Http.parserParseEntity p).1 = true) :
    ∃ new, ParserRun res (new++ls) (Http.parserParseEntity p).2 := by
  have hrun := Loop.run_induction entityStep_descends
    (e := fun q : HttpParser => (ParseStatus.failure,q))
    (P := fun p r => ∀ ls, ParserRun res ls p → p.position = .entity →
      waitsForMore r.1 = true → ∃ new, ParserRun res (new++ls) r.2) ?_ ?_ p
  · exact hrun ls h hp hw
  · intro p r hr ls h hp hw
    rcases Loop.doWhile_inr hr with ⟨-,rfl⟩
    exact ⟨lengthTaken p,h.entity hp (.inr hw)⟩
  · intro p q hq ih ls h hp hw
    rcases Loop.doWhile_inl hq with ⟨ha,rfl⟩
    have hgo : (entityStep p).1 = .continue1 := beq_iff_eq.mp ha
    have hpos := (entityStep_framed h.parsing.1.framed (.inl hgo)).2.trans hp
    rcases ih _ (h.entity hp (.inl hgo)) hpos hw with ⟨new,hn⟩
    exact ⟨new++lengthTaken p,by rwa [List.append_assoc]⟩

/-- What `parser_append` leaves behind when it waits is the state of such a run. -/
theorem ParserRun.parserAppend {res : Resolver} {ls : List Length} {p : HttpParser}
    (h : ParserRun res ls p) (x : List UInt8)
    (hw : waitsForMore (Http.parserAppend res p x).1 = true) :
    ∃ new, ParserRun res (new++ls) (Http.parserAppend res p x).2 := by
  have hrun := Loop.run_induction (parserStep_descends res)
    (e := fun q : HttpParser => (ParseStatus.failure,q))
    (P := fun p r => ∀ ls, ParserRun res ls p → waitsForMore r.1 = true →
      ∃ new, ParserRun res (new++ls) r.2) ?_ ?_ (p.append x)
  · exact hrun ls (h.append x) hw
  · intro p r hr ls h hw
    rcases Loop.doWhile_inr hr with ⟨-,rfl⟩
    by_cases hp : p.position = .entity
    · simp only [parserStep,hp] at hw ⊢
      exact h.parserParseEntity hp hw
    · exact ⟨[],h.line hp (.inr hw)⟩
  · intro p q hq ih ls h hw
    rcases Loop.doWhile_inl hq with ⟨ha,rfl⟩
    have hgo : (parserStep res p).1 = .ok := beq_iff_eq.mp ha
    have hp : p.position ≠ .entity := by
      intro hp
      simp only [parserStep,hp] at hgo
      exact parserParseEntity_status p hgo
    exact ih ls (h.line hp (.inl hgo)) hw

/-- In every run each length the parser goes on with is the one that was announced if and
only if the announcement is an unsigned numeral of at most 32 bits. -/
theorem parserRun_kept {res : Resolver} {ls : List Length} {p : HttpParser}
    (h : ParserRun res ls p) : ∀ l ∈ ls, (l.Kept ↔ l.Plain) := by
  induction h with
  | request | response => simp
  | append _ _ ih => exact ih
  | line _ _ _ ih => exact ih
  | entity h _ _ ih =>
    intro l hl
    rcases List.mem_append.mp hl with hl | hl
    · exact lengthTaken_kept h.parsing.2 hl
    · exact ih l hl

def headRead (head : List UInt8) : HttpParser :=
  (parserStep Resolver.empty
    (parserStep Resolver.empty ((parserResponseInit .get).append head)).2).2

theorem headRead_run (head : List UInt8)
    (hl : (parserStep Resolver.empty ((parserResponseInit .get).append head)).1 = .ok)
    (hh : (parserStep Resolver.empty (parserStep Resolver.empty
      ((parserResponseInit .get).append head)).2).1 = .ok)
    (hp : (parserStep Resolver.empty ((parserResponseInit .get).append head)).2.position =
      .headers)
    (he : (headRead head).position = .entity)
    (hg : (entityStep (headRead head)).1 = .continue1) :
    ParserRun Resolver.empty (lengthTaken (headRead head)++[]) (entityStep (headRead head)).2 := by
  refine (((ParserRun.response .get).append head).line ?_ (.inl hl)).line ?_ (.inl hh) |>.entity he
    (.inl hg)
  · rintro ⟨⟩
  · rw [hp]
    rintro ⟨⟩

theorem parserRun_kept_clen :
    ∃ ls p, ParserRun Resolver.empty ls p ∧ ls = [⟨10,cstr "5",5⟩] ∧
      ∀ l ∈ ls, (l.Kept ↔ l.Plain) := by
  have h := headRead_run (cstr "HTTP/1.1 200 OK\r\nContent-Length: 5\r\n\r\n")
    (by decide) (by decide) (by decide) (by decide)
    (by decide)
  exact ⟨_,_,h,by decide,parserRun_kept h⟩

/-- 2^32+5 is taken up as five. -/
theorem clen_wraps : ¬ ∀ (res : Resolver) (ls : List Length) (p : HttpParser),
    ParserRun res ls p → ∀ l ∈ ls, l.Kept := by
  intro hall
  have h := headRead_run (cstr "HTTP/1.1 200 OK\r\nContent-Length: 4294967301\r\n\r\n")
    (by decide) (by decide) (by decide) (by decide)
    (by decide)
  have hk := hall _ _ _ h ⟨10,cstr "4294967301",5⟩ (by decide)
  have hv : numeralValue 10 (cstr "4294967301") = 4294967301 := by decide
  exact absurd (hk.value.symm.trans hv) (by decide)

end Http
end CtrlPt
