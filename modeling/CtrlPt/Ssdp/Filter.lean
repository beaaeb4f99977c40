import CtrlPt.Http.Post
import CtrlPt.Ssdp.Discovery
import CtrlPt.Uri.Chars

/-! Which requests `valid_ssdp_msg` lets through. It looks at the path `parse_uri` has found and
not at the target itself, and at the HOST value up to its first NUL. -/
namespace CtrlPt
namespace Http

open CText Uri

/-- What is read off the request line and not touched again. -/
structure TargetFrame (p q : HttpParser) : Prop where
  uri : q.msg.uri = p.msg.uri
  urlbuf : q.msg.urlbuf = p.msg.urlbuf
  requestMethod : q.msg.requestMethod = p.msg.requestMethod

theorem TargetFrame.refl (p : HttpParser) : TargetFrame p p := ⟨rfl,rfl,rfl⟩

theorem TargetFrame.trans {p q r : HttpParser} (h : TargetFrame p q) (h' : TargetFrame q r) :
    TargetFrame p r :=
  ⟨h'.uri.trans h.uri,h'.urlbuf.trans h.urlbuf,h'.requestMethod.trans h.requestMethod⟩

theorem endHeaders_target (p : HttpParser) : TargetFrame p (endHeaders p).2 := by
  unfold endHeaders
  split <;> exact ⟨rfl,rfl,rfl⟩

theorem headerRound_target (p : HttpParser) :
    (∀ q, headerRound p = .inl q → TargetFrame p q ∧
      q.validSsdpNotifyHack = p.validSsdpNotifyHack) ∧
    ∀ r, headerRound p = .inr r → TargetFrame p r.2 ∧
      r.2.validSsdpNotifyHack = p.validSsdpNotifyHack := by
  rcases headerRound_cases p with ⟨st,n,-,he⟩ | ⟨t,n,-,⟨-,he⟩ | ⟨-,-,he⟩ | ⟨-,-,he⟩ | ⟨-,-,he⟩⟩ <;>
    rw [he]
  · exact ⟨by rintro _ ⟨⟩,by rintro _ ⟨⟩; exact ⟨TargetFrame.refl p,rfl⟩⟩
  · refine ⟨by rintro _ ⟨⟩,?_⟩
    rintro _ ⟨⟩
    have h := endHeaders_target (p.advance n)
    refine ⟨⟨h.uri,h.urlbuf,h.requestMethod⟩,?_⟩
    unfold endHeaders
    split <;> rfl
  · exact ⟨by rintro _ ⟨⟩,by rintro _ ⟨⟩; exact ⟨TargetFrame.refl p,rfl⟩⟩
  · exact ⟨by rintro _ ⟨⟩; exact ⟨⟨rfl,rfl,rfl⟩,rfl⟩,by rintro _ ⟨⟩⟩
  · exact ⟨by rintro _ ⟨⟩,by rintro _ ⟨⟩; exact ⟨⟨rfl,rfl,rfl⟩,rfl⟩⟩

theorem parserParseHeaders_target (p : HttpParser) :
    TargetFrame p (parserParseHeaders p).2 ∧
      (parserParseHeaders p).2.validSsdpNotifyHack = p.validSsdpNotifyHack := by
  refine Loop.run_induction headerRound_descends (e := fun q : HttpParser => (ParseStatus.failure,q))
    (P := fun p r => TargetFrame p r.2 ∧ r.2.validSsdpNotifyHack = p.validSsdpNotifyHack)
    (fun p r hr => (headerRound_target p).2 r hr) ?_ p
  rintro p q hq ⟨ih,hack⟩
  rcases (headerRound_target p).1 q hq with ⟨h,hack'⟩
  exact ⟨h.trans ih,hack.trans hack'⟩

theorem storeChunkSize_target (p : HttpParser) (m : Match) : TargetFrame p (storeChunkSize p m) := by
  constructor <;> rw [storeChunkSize_msg]

theorem beginChunk_target (p : HttpParser) : TargetFrame p (beginChunk p) := by
  unfold beginChunk
  split <;> exact ⟨rfl,rfl,rfl⟩

theorem parserGetEntityReadMethod_target (p : HttpParser) :
    TargetFrame p (parserGetEntityReadMethod p).2 := by
  unfold parserGetEntityReadMethod
  dsimp only
  split <;> exact ⟨rfl,rfl,rfl⟩

theorem entityStep_target (p : HttpParser) : TargetFrame p (entityStep p).2 := by
  unfold entityStep
  split
  · unfold parserParseEntityUsingClen
    dsimp only
    split <;> exact ⟨rfl,rfl,rfl⟩
  · have hs := storeChunkSize_target p (scannerMatch chunkFmt p.rest)
    unfold parserParseChunkyEntity
    dsimp only
    split
    · exact hs
    · refine TargetFrame.trans ?_ (beginChunk_target _)
      exact ⟨hs.uri,hs.urlbuf,hs.requestMethod⟩
  · unfold parserParseChunkyBody
    dsimp only
    split
    · split <;> exact ⟨rfl,rfl,rfl⟩
    · exact TargetFrame.refl p
  · have hh := (parserParseHeaders_target p).1
    rw [parserParseChunkyHeaders_eq]
    split
    · exact ⟨hh.uri,hh.urlbuf,hh.requestMethod⟩
    · exact hh
  · exact ⟨rfl,rfl,rfl⟩
  · exact parserGetEntityReadMethod_target p

theorem parserParseEntity_target (p : HttpParser) : TargetFrame p (parserParseEntity p).2 := by
  refine Loop.run_induction entityStep_descends (e := fun q : HttpParser => (ParseStatus.failure,q))
    (P := fun p r => TargetFrame p r.2) ?_ ?_ p
  · intro p r hr
    rcases Loop.doWhile_inr hr with ⟨-,rfl⟩
    exact entityStep_target p
  · intro p q hq ih
    rcases Loop.doWhile_inl hq with ⟨-,rfl⟩
    exact (entityStep_target p).trans ih

/-- A request line does not touch what the entity is read with. -/
theorem requestLine_sets (res : Resolver) (p : HttpParser) :
    (requestLine res p).2.msg.requestMethod = p.msg.requestMethod ∧
      (requestLine res p).2.validSsdpNotifyHack = p.validSsdpNotifyHack := by
  unfold requestLine
  dsimp only
  split
  · split
    · exact ⟨rfl,rfl⟩
    · split
      · exact ⟨rfl,rfl⟩
      · split <;> exact ⟨rfl,rfl⟩
  · split
    · exact ⟨rfl,rfl⟩
    · split
      · exact ⟨rfl,rfl⟩
      · split
        · exact ⟨rfl,rfl⟩
        · split <;> exact ⟨rfl,rfl⟩

theorem parserParseRequestline_sets (res : Resolver) (p : HttpParser) :
    (parserParseRequestline res p).2.msg.requestMethod = p.msg.requestMethod ∧
      (parserParseRequestline res p).2.validSsdpNotifyHack = p.validSsdpNotifyHack := by
  unfold parserParseRequestline afterBlankLines
  split
  · exact ⟨rfl,rfl⟩
  · exact requestLine_sets res _

/-- The URL of a message is the one that was parsed. -/
structure UrlRead (res : Resolver) (p : HttpParser) (requestMethod : HttpMethod) : Prop where
  uri : parseUri res p.msg.urlbuf p.msg.urlbuf.length = .ok p.msg.uri
  requestMethod : p.msg.requestMethod = requestMethod

theorem UrlRead.frame {res : Resolver} {p q : HttpParser} {m : HttpMethod} (h : UrlRead res p m)
    (hf : TargetFrame p q) : UrlRead res q m :=
  ⟨by rw [hf.urlbuf,hf.uri]; exact h.uri,hf.requestMethod.trans h.requestMethod⟩

/-- A request that is read to its end, or far enough to be found to have no length, has a URL. -/
theorem parserParse_urlRead (res : Resolver) {p : HttpParser} (hp : p.position = .requestLine)
    (hack : p.validSsdpNotifyHack = false)
    (h : (parserParse res p).1 = .success ∨ (parserParse res p).2.validSsdpNotifyHack = true) :
    UrlRead res (parserParse res p).2 p.msg.requestMethod := by
  have hsets := parserParseRequestline_sets res p
  have hstep : parserStep res p = parserParseRequestline res p := by simp only [parserStep,hp]
  have hurl : LineAccepted (parserParseRequestline res p).1 →
      UrlRead res (parserParseRequestline res p).2 p.msg.requestMethod :=
    fun ha => ⟨parserParseRequestline_uri ha,hsets.1⟩
  by_cases hline : (parserParseRequestline res p).1 = .ok
  · have hu := hurl (.inl hline)
    have hpos := (afterBlankLines_status (requestLine_status res) p).done hline
    rw [parserParse_again (by rw [hstep,hline]),hstep] at h ⊢
    change (parserParseRequestline res p).2.position = .headers at hpos
    generalize (parserParseRequestline res p).2 = q at h hpos hu ⊢
    have hstep' : parserStep res q = parserParseHeaders q := by simp only [parserStep,hpos]
    have hu' := hu.frame (parserParseHeaders_target q).1
    by_cases hhead : (parserParseHeaders q).1 = .ok
    · rw [parserParse_again (by rw [hstep',hhead]),hstep',
        parserParse_entity res ((parserParseHeaders_status q).done hhead)]
      exact hu'.frame (parserParseEntity_target _)
    · rw [parserParse_done (by rwa [hstep']),hstep']
      exact hu'
  · rw [parserParse_done (by rwa [hstep]),hstep] at h ⊢
    rcases h with h | h
    · exact hurl (.inr h)
    · rw [hsets.2,hack] at h
      cases h

end Http

namespace Ssdp

open CText Http Uri

/-- The parser has found a message: all of it, or a NOTIFY without a length. -/
def Parsed (r : ParseStatus × HttpParser) : Prop :=
  r.1 = .success ∨
    r.1 = .failure ∧ r.2.msg.method = .notify ∧ r.2.validSsdpNotifyHack = true

instance (r : ParseStatus × HttpParser) : Decidable (Parsed r) :=
  inferInstanceAs (Decidable (_ ∨ _))

/-- What a request over SSDP has to be. -/
structure Admissible (hmsg : HttpMessage) : Prop where
  method : hmsg.method = .notify ∨ hmsg.method = .msearch
  target : hmsg.urlbuf = cstr "*"
  host : ∃ v, findHdr hmsg.headers .host = some v ∧ v ∈ ssdpHosts

/-- A target without a scheme, in which nothing that a URL may hold stands behind the host, or
an asterisk alone. -/
def TakenForStar (target : List UInt8) : Prop :=
  parseScheme target = 0 ∧
    (parseUric (target.drop (pathOffset target)) = 0 ∨
      untilNul ((target.drop (pathOffset target)).take
        (parseUric (target.drop (pathOffset target)))) = cstr "*")

theorem star_takenForStar : TakenForStar (cstr "*") :=
  ⟨by decide,.inr (by decide)⟩

theorem strncmp_star (path : List UInt8) :
    strncmp (cstr "*") path path.length = 0 ↔ path = [] ∨ untilNul path = cstr "*" := by
  rcases path with _ | ⟨c,path⟩
  · exact ⟨fun _ => .inl rfl,fun _ => rfl⟩
  · have hstar : cstr "*" = [42] := by decide
    simp only [strncmp,hstar,List.length_cons,strncmpBy,List.headD_cons,id,List.tail_cons,
      reduceCtorEq,false_or,untilNul]
    by_cases hc : c = 42
    · subst hc
      have hne : (42 : UInt8) != 0 := by decide
      simp only [ne_eq,not_true_eq_false,if_false,(by decide : ¬(42 : UInt8) = 0),
        List.takeWhile_cons,hne,if_true,List.cons.injEq,true_and]
      rcases path with _ | ⟨d,path⟩
      · exact ⟨fun _ => rfl,fun _ => rfl⟩
      · simp only [List.length_cons,strncmpBy,List.headD_nil,List.headD_cons,id]
        by_cases hd : d = 0
        · subst hd
          simp
        · have hd' : ¬d.toNat = 0 := fun h => hd (UInt8.toNat_inj.mp h)
          simp [hd,Ne.symm hd,hd']
    · have hc' : ¬(42 : ℤ)-c.toNat = 0 := by
        intro h
        exact hc (UInt8.toNat_inj.mp (by simpa using (by omega : c.toNat = 42)))
      simp only [ne_eq,Ne.symm hc,not_false_eq_true,if_true]
      constructor
      · intro h
        exact absurd h hc'
      · intro h
        by_cases h0 : c = 0
        · simp [h0] at h
        · simp [h0,hc] at h

theorem ssdpHosts_no_nul : ∀ h ∈ ssdpHosts, 0 ∉ h := by decide

theorem anyHost_iff (v : List UInt8) :
    (ssdpHosts.any fun h => memptrCmp v h == 0) = true ↔ untilNul v ∈ ssdpHosts := by
  rw [List.any_eq_true]
  constructor
  · rintro ⟨h,hmem,hv⟩
    rw [beq_iff_eq,memptrCmp_eq_zero (ssdpHosts_no_nul h hmem)] at hv
    rwa [hv]
  · intro hmem
    exact ⟨untilNul v,hmem,by rw [beq_iff_eq,memptrCmp_eq_zero (ssdpHosts_no_nul _ hmem)]⟩

theorem pathTest_iff {res : Resolver} {target : List UInt8} {u : UriType}
    (h : parseUri res target target.length = .ok u) :
    ¬(u.type ≠ .relative ∨ strncmp (cstr "*") u.pathquery.text u.pathquery.text.length ≠ 0) ↔
      TakenForStar target := by
  have hstart := pathStart_eq h
  have hu := (parseUri_ok h).2
  rw [List.take_length] at hu
  have htype : u.type = .relative ↔ parseScheme target = 0 := by
    rw [hu]
    simp only [uriOf]
    split
    · rename_i hs
      exact ⟨fun _ => hs,fun _ => rfl⟩
    · rename_i hs
      exact ⟨(by rintro ⟨⟩),fun h' => absurd h' hs⟩
  have hquery : u.pathquery.text = (target.drop (pathOffset target)).take
      (parseUric (target.drop (pathOffset target))) := by
    rw [hu]
    simp only [uriOf,hstart]
  have hnil : u.pathquery.text = [] ↔ parseUric (target.drop (pathOffset target)) = 0 := by
    rw [hquery,List.take_eq_nil_iff]
    constructor
    · rintro (h0 | h0)
      · exact h0
      · rw [h0]
        rfl
    · exact .inl
  rw [not_or,not_not,not_not,htype,strncmp_star,hnil,hquery]
  rfl

/-- What a request is let through for. -/
theorem validSsdpMsg_request {res : Resolver} {hmsg : HttpMessage}
    (hu : parseUri res hmsg.urlbuf hmsg.urlbuf.length = .ok hmsg.uri)
    (hrm : hmsg.requestMethod ≠ .msearch) :
    validSsdpMsg hmsg = true ↔
      (hmsg.method = .notify ∨ hmsg.method = .msearch) ∧ TakenForStar hmsg.urlbuf ∧
        ∃ v, findHdr hmsg.headers .host = some v ∧ untilNul v ∈ ssdpHosts := by
  rw [← pathTest_iff hu]
  unfold validSsdpMsg
  by_cases hm : hmsg.method = .notify ∨ hmsg.method = .msearch
  · rw [if_neg (by tauto),if_pos hrm]
    dsimp only
    by_cases hpath : hmsg.uri.type ≠ .relative ∨ strncmp (cstr "*") hmsg.uri.pathquery.text
        hmsg.uri.pathquery.text.length ≠ 0
    · rw [if_pos hpath]
      exact ⟨(by rintro ⟨⟩),fun h => absurd hpath h.2.1⟩
    · rw [if_neg hpath]
      cases hv : findHdr hmsg.headers .host with
      | none => exact ⟨(by rintro ⟨⟩),by rintro ⟨-,-,_,⟨⟩,-⟩⟩
      | some v =>
        rw [Option.map_some,Option.getD_some,anyHost_iff]
        constructor
        · intro h
          exact ⟨hm,hpath,v,rfl,h⟩
        · rintro ⟨-,-,_,⟨⟩,h⟩
          exact h
  · rw [if_pos (by tauto)]
    exact ⟨(by rintro ⟨⟩),fun h => absurd h.1 hm⟩

/-- Of the requests that are not admissible, exactly those are let through whose target is taken
for an asterisk and whose HOST value is one of the five up to a NUL. -/
theorem validSsdpMsg_iff (res : Resolver) (datagram : List UInt8) (hmsg : HttpMessage)
    (hparsed : Parsed (parserParse res (ssdpParser false datagram)))
    (hmsg_eq : (parserParse res (ssdpParser false datagram)).2.msg = hmsg) :
    (validSsdpMsg hmsg = true ↔ Admissible hmsg) ↔
      ((hmsg.method = .notify ∨ hmsg.method = .msearch) → TakenForStar hmsg.urlbuf →
        ∀ v, findHdr hmsg.headers .host = some v → untilNul v ∈ ssdpHosts →
          hmsg.urlbuf = cstr "*" ∧ 0 ∉ v) := by
  have hread := parserParse_urlRead res (p := ssdpParser false datagram) rfl rfl
    (hparsed.imp id fun h => h.2.2)
  rcases hread with ⟨hu,hrm⟩
  rw [hmsg_eq] at hu hrm
  rw [validSsdpMsg_request hu (by rw [hrm]; rintro ⟨⟩)]
  constructor
  · intro h hm ht v hv hmem
    rcases h.mp ⟨hm,ht,v,hv,hmem⟩ with ⟨-,htarget,v',hv',hmem'⟩
    cases hv.symm.trans hv'
    exact ⟨htarget,ssdpHosts_no_nul v hmem'⟩
  · intro h
    constructor
    · rintro ⟨hm,ht,v,hv,hmem⟩
      rcases h hm ht v hv hmem with ⟨htarget,hnul⟩
      rw [untilNul_of_no_nul hnul] at hmem
      exact ⟨hm,htarget,v,hv,hmem⟩
    · rintro ⟨hm,htarget,v,hv,hmem⟩
      refine ⟨hm,by rw [htarget]; exact star_takenForStar,v,hv,?_⟩
      rwa [untilNul_of_no_nul (ssdpHosts_no_nul v hmem)]

def searchRequest (target : List UInt8) : List UInt8 :=
  cstr "M-SEARCH " ++ target ++ cstr " HTTP/1.1\r\nHOST: 239.255.255.250:1900\r\n\r\n"

/-- The fragment is all there is behind the path. -/
theorem validSsdpMsg_fragment : ¬∀ (res : Resolver) (datagram : List UInt8) (hmsg : HttpMessage),
    Parsed (parserParse res (ssdpParser false datagram)) →
      (parserParse res (ssdpParser false datagram)).2.msg = hmsg →
        (validSsdpMsg hmsg = true ↔ Admissible hmsg) := by
  intro h
  have hparsed : Parsed (parserParse Resolver.empty
      (ssdpParser false (searchRequest (cstr "#x")))) := by decide
  have hvalid : validSsdpMsg (parserParse Resolver.empty
      (ssdpParser false (searchRequest (cstr "#x")))).2.msg = true := by decide
  have htarget := ((h _ _ _ hparsed rfl).mp hvalid).target
  revert htarget
  decide

theorem validSsdpMsg_star :
    Parsed (parserParse Resolver.empty (ssdpParser false (searchRequest (cstr "*")))) ∧
      (validSsdpMsg (parserParse Resolver.empty
          (ssdpParser false (searchRequest (cstr "*")))).2.msg = true ↔
        Admissible (parserParse Resolver.empty
          (ssdpParser false (searchRequest (cstr "*")))).2.msg) := by
  have hparsed : Parsed (parserParse Resolver.empty
      (ssdpParser false (searchRequest (cstr "*")))) := by decide
  have htarget : (parserParse Resolver.empty
      (ssdpParser false (searchRequest (cstr "*")))).2.msg.urlbuf = cstr "*" := by decide
  have hhost : findHdr (parserParse Resolver.empty
      (ssdpParser false (searchRequest (cstr "*")))).2.msg.headers .host =
        some (cstr "239.255.255.250:1900") := by decide
  refine ⟨hparsed,(validSsdpMsg_iff Resolver.empty _ _ hparsed rfl).mpr ?_⟩
  rintro - - v hv -
  rw [hhost] at hv
  cases hv
  exact ⟨htarget,by decide⟩

end Ssdp
end CtrlPt
