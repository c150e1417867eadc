import Libble.Link.Bounds
import Libble.Link.Partial
import Libble.Link.Termination

/-!
# The end marker of a handle discovery

`desc_discovered_cb` takes a discovery for finished when the last handle of a response is not
before the end of the range. The handle is set to 0xffff before the entries are read, so that a
response without an entry looks like the end, and the entries are read in any format. This file
says when the end marker means what it says: when no Find Information Response is without a
complete entry, or is one of an unknown format that happens to be refused.

## Main definitions

* `Link.handlesIn`: the handles of the complete entries of a Find Information Response.
* `Link.NotFound`: the error that there is no attribute left.
* `Link.Wellformed`: the condition on the responses.
* `Link.HandPhase`: the invariant.

## Main results

* `Link.marker_deserved`: the end marker is never premature.
* `Link.not_deserved_emptyRsp`: it is after a response without an entry.
-/

namespace Libble

open Att Gatt

namespace Link

variable {s : Link} {o : Nat} {mtu : Mtu} {buflen : Nat} {labels : List Label} {req rsp : Pdu}
  {start : UInt16} {descriptors : List GattDesc}

/-! ### Responses -/

/-- The format of a Find Information Response is one of the two that there are. -/
def KnownFormat (rsp : Pdu) : Prop := byteAt rsp 1 = 0x01 ∨ byteAt rsp 1 = 0x02

instance (rsp : Pdu) : Decidable (KnownFormat rsp) := inferInstanceAs (Decidable (_ ∨ _))

/-- The handles of the complete attribute entries of a Find Information Response. -/
def handlesIn (rsp : Pdu) : List UInt16 :=
  if byteAt rsp 0 = opFindInfoRsp ∧ KnownFormat rsp then
    (entries rsp ((rsp.length - 2) / elenOf (byteAt rsp 1)) (elenOf (byteAt rsp 1))).data.map
      (getLe16 · 0)
  else []

/-- The error that there is no attribute in the range asked for. -/
def NotFound (rsp : Pdu) : Prop :=
  ∃ lo hi, rsp = [opErrorRsp, opFindInfoReq, lo, hi, ecodeAttrNotFound]

/-- The last handle in a Find Information Response, as `desc_discovered_cb` reads it. -/
def lastDesc (rsp : Pdu) : Option UInt16 :=
  (decFindInfoResp rsp rsp.length).bind fun (format, list) =>
    (list.data.map (GattDesc.ofEntry format)).getLast?.map GattDesc.handle

/-- A Find Information Response has a complete entry. One of an unknown format is harmless if it has
bytes for a handle and the last one lies before the range that was asked for. -/
def Wellformed (req rsp : Pdu) : Prop :=
  byteAt rsp 0 = opFindInfoRsp → handlesIn rsp ≠ [] ∨
    (¬ KnownFormat rsp ∧ 4 ≤ rsp.length ∧ ∃ last ∈ lastDesc rsp, last < startOf req)

/-! ### What a response does -/

/-- What is heard of the error that there is no attribute. -/
theorem notFound_of_heard (hreq : byteAt req 0 = opFindInfoReq)
    (h : (heard req rsp).1 = ecodeAttrNotFound) : NotFound rsp := by
  rcases responseOf_cases (byteAt req 0) (byteAt rsp 0) (rsp.drop 1) with ⟨hanswered, heq⟩ | heq
  · simp only [heard, heq] at h
    by_cases hop : byteAt rsp 0 = opErrorRsp
    · simp only [hreq, answeredOpcode, if_pos hop] at hanswered
      rw [statusOf, if_pos hop] at h
      split at hanswered
      · rename_i opcode lo hi code hdrop
        rw [hdrop] at h
        obtain rfl : opcode = opFindInfoReq := hanswered
        obtain rfl : code = ecodeAttrNotFound := h
        have hcons : rsp = byteAt rsp 0 :: rsp.drop 1 := by
          cases rsp with
          | nil => cases hop
          | cons first rest => rfl
        exact ⟨lo, hi, by rw [hcons, hop, hdrop]⟩
      · cases hanswered
    · rw [statusOf, if_neg hop] at h
      cases h
  · simp only [heard, heq, statusOf_failure] at h
    cases h

/-- The entries of a response with complete ones are read as they stand there. -/
theorem decFindInfoResp_of_handles (h : handlesIn rsp ≠ []) (hlt : rsp.length < 2 ^ 16) :
    ∃ list, decFindInfoResp rsp rsp.length = some (byteAt rsp 1, list) ∧
      (list.data.map (GattDesc.ofEntry (byteAt rsp 1))).map GattDesc.handle = handlesIn rsp := by
  unfold handlesIn at h ⊢
  split at h
  · rename_i hknown
    have hlen : 2 ≤ rsp.length := by
      by_contra hlen
      have hzero : rsp.length - 2 = 0 := by omega
      rw [hzero, Nat.zero_div] at h
      exact h rfl
    have hresult := result_findInfo hknown.1 hlen hlt
    rw [result_readFindInfoResp] at hresult
    refine ⟨_, hresult, ?_⟩
    rw [if_pos hknown, List.map_map]
    rfl
  · exact absurd rfl h

/-- What a response does: the discovery goes on behind complete entries, it ends with the marker
after the error that there are no more attributes or with the last handle, or it fails. -/
inductive HandTurn (rsp : Pdu) : Turn Pdu Proc Event → Prop
  | found (start : UInt16) (descriptors : List GattDesc) (handles : handlesIn rsp ≠ []) :
    HandTurn rsp (.next (encFindInfoReq start 0xffff) (.descDiscoveredCb start 0xffff descriptors))
  | marked (descriptors : List GattDesc) (last : NotFound rsp ∨ 0xffff ∈ handlesIn rsp) :
    HandTurn rsp (.done (charDescCb 0 descriptors))
  | failed (text : String) : HandTurn rsp (.done [.errorOccured text])

theorem handTurn_of_wellformed (hne : rsp ≠ []) (hlt : rsp.length < 2 ^ 16)
    (wellformed : Wellformed (encFindInfoReq start 0xffff) rsp) :
    HandTurn rsp (reactTo buflen (encFindInfoReq start 0xffff)
      (.descDiscoveredCb start 0xffff descriptors) rsp) := by
  rw [reactTo_eq, react, descDiscoveredCb]
  by_cases hfound : (heard (encFindInfoReq start 0xffff) rsp).1 = ecodeAttrNotFound
  · rw [if_pos hfound, turnOf]
    by_cases hnil : descriptors = []
    · rw [if_pos hnil, hfound]
      exact .failed _
    · rw [if_neg hnil]
      exact .marked descriptors (.inl (notFound_of_heard rfl hfound))
  by_cases hstatus : (heard (encFindInfoReq start 0xffff) rsp).1 = 0
  · rw [if_neg hfound, if_neg (not_not.mpr hstatus), heard_of_ok hne hstatus]
    dsimp only
    cases hdec : decFindInfoResp rsp rsp.length with
    | none => exact .failed _
    | some result =>
      obtain ⟨format, list⟩ := result
      have hop : byteAt rsp 0 = opFindInfoRsp := by
        by_contra hop
        rw [decFindInfoResp, if_pos hop] at hdec
        cases hdec
      dsimp only
      rcases wellformed hop with handles | ⟨-, -, last, hlast, hlow⟩
      · obtain ⟨list', hdec', hmap⟩ := decFindInfoResp_of_handles handles hlt
        obtain ⟨rfl, rfl⟩ := Prod.mk.inj (Option.some.inj (hdec.symm.trans hdec'))
        have hlast := congrArg List.getLast? hmap
        rw [List.getLast?_map] at hlast
        rw [hlast]
        obtain ⟨last, hgetLast⟩ := Option.ne_none_iff_exists'.mp
          (mt List.getLast?_eq_none_iff.mp handles)
        rw [hgetLast, Option.getD_some]
        split_ifs with hlow hend
        · exact .failed _
        · exact .found _ _ handles
        · have hmax : last = 0xffff := by
            refine UInt16.le_antisymm ?_ (UInt16.not_lt.mp hend)
            exact UInt16.le_iff_toNat_le.mpr (Nat.le_of_lt_succ last.toNat_lt)
          exact .marked _ (.inr (hmax ▸ List.mem_of_getLast? hgetLast))
      · simp only [lastDesc, hdec, Option.bind_some, Option.mem_def] at hlast
        have hlow : last < start := startOf_cons opFindInfoReq start _ ▸ hlow
        rw [hlast, Option.getD_some, if_pos hlow]
        exact .failed _
  · rw [if_neg hfound, if_pos hstatus, turnOf, charDescCb, if_pos hstatus]
    exact .failed _

/-! ### The course of a discovery -/

/-- No answer of a dialogue lacks a complete entry, except errors after which a request is sent
again. -/
def Fruitful (o : Nat) (dialogue : List (Exchange Pdu Pdu)) : Prop :=
  ∀ req rsp, .answered o req rsp ∈ dialogue → Securing rsp ∨ handlesIn rsp ≠ []

theorem Fruitful.concat {dialogue : List (Exchange Pdu Pdu)} (h : Fruitful o dialogue)
    (last : Securing rsp ∨ handlesIn rsp ≠ []) :
    Fruitful o (dialogue ++ [.answered o req rsp]) := by
  intro req' rsp' hmem
  rcases List.mem_append.mp hmem with hmem | hmem
  · exact h req' rsp' hmem
  · obtain ⟨-, -, rfl⟩ := Exchange.answered.inj (List.mem_singleton.mp hmem)
    exact last

theorem Fruitful.sent {dialogue : List (Exchange Pdu Pdu)} (h : Fruitful o dialogue) :
    Fruitful o (dialogue ++ [.sent o req]) :=
  fun req' rsp' hmem => h req' rsp' ((List.mem_append.mp hmem).resolve_right (by simp))

/-- Where a discovery is, and what the last answer was when it is over. -/
inductive HandPhase (o : Nat) : List (Exchange Pdu Pdu) → Pipeline.Phase Pdu Proc Event → Prop
  | queued {dialogue : List (Exchange Pdu Pdu)} (start : UInt16) (descriptors : List GattDesc)
      (fruitful : Fruitful o dialogue) :
    HandPhase o dialogue
      (.queued (encFindInfoReq start 0xffff) (.descDiscoveredCb start 0xffff descriptors))
  | pending {dialogue : List (Exchange Pdu Pdu)} (start : UInt16) (descriptors : List GattDesc)
      (fruitful : Fruitful o dialogue) :
    HandPhase o dialogue
      (.pending (encFindInfoReq start 0xffff) (.descDiscoveredCb start 0xffff descriptors))
  | marked {before : List (Exchange Pdu Pdu)} {req rsp : Pdu} (descriptors : List GattDesc)
      (fruitful : Fruitful o before) (last : NotFound rsp ∨ 0xffff ∈ handlesIn rsp) :
    HandPhase o (before ++ [.answered o req rsp]) (.ended (charDescCb 0 descriptors))
  | failed {before : List (Exchange Pdu Pdu)} {req rsp : Pdu} (text : String)
      (fruitful : Fruitful o before) :
    HandPhase o (before ++ [.answered o req rsp]) (.ended [.errorOccured text])

/-- Every discovery whose responses are well formed is in such a phase. -/
theorem handPhase_of_course {dialogue : List (Exchange Pdu Pdu)}
    {phase : Pipeline.Phase Pdu Proc Event}
    (course : Pipeline.Course (reactTo buflen) Securing o (Call.begin buflen .discoverHand) dialogue
      phase)
    (arrived : ∀ req rsp, .answered o req rsp ∈ dialogue → rsp ≠ [] ∧ rsp.length < 2 ^ 16)
    (wellformed : ∀ req rsp, .answered o req rsp ∈ dialogue → Wellformed req rsp) :
    HandPhase o dialogue phase := by
  induction course with
  | start => exact .queued 0x0001 [] nofun
  | send before ih =>
    have h := ih (fun req rsp h => arrived req rsp (List.mem_append_left _ h))
      fun req rsp h => wellformed req rsp (List.mem_append_left _ h)
    cases h with
    | queued start descriptors fruitful => exact .pending start descriptors fruitful.sent
  | answer before rsp ih =>
    have h := ih (fun req rsp h => arrived req rsp (List.mem_append_left _ h))
      fun req rsp h => wellformed req rsp (List.mem_append_left _ h)
    cases h with
    | pending start descriptors fruitful =>
      have hmem : ∀ {dialogue : List (Exchange Pdu Pdu)},
          .answered o (encFindInfoReq start 0xffff) rsp ∈
            dialogue ++ [.answered o (encFindInfoReq start 0xffff) rsp] :=
        List.mem_append_right _ List.mem_cons_self
      obtain ⟨hne, hlt⟩ := arrived _ _ hmem
      have turn : HandTurn rsp (reactTo buflen (encFindInfoReq start 0xffff)
          (.descDiscoveredCb start 0xffff descriptors) rsp) :=
        handTurn_of_wellformed hne hlt (wellformed _ _ hmem)
      generalize reactTo buflen (encFindInfoReq start 0xffff)
        (.descDiscoveredCb start 0xffff descriptors) rsp = outcome at turn
      cases turn with
      | found start' descriptors' handles =>
        exact .queued start' descriptors' (fruitful.concat (.inr handles))
      | marked descriptors' last => exact .marked descriptors' fruitful last
      | failed text => exact .failed text fruitful
  | retry before securing ih =>
    have h := ih (fun req rsp h => arrived req rsp (List.mem_append_left _ h))
      fun req rsp h => wellformed req rsp (List.mem_append_left _ h)
    cases h with
    | pending start descriptors fruitful =>
      exact .queued start descriptors (fruitful.concat (.inl securing))

/-! ### The end marker -/

/-- The end marker is delivered only after the error that there are no more attributes or after the
last handle, and after an answer without a complete entry nothing but an error is. -/
structure Deserved (s : Link) (o : Nat) : Prop where
  marked : ∀ handle, .uuid handle none ∈ s.events o →
    ∃ rsp, (s.answers o).getLast? = some rsp ∧ (NotFound rsp ∨ 0xffff ∈ handlesIn rsp)
  lacking : ∀ rsp ∈ s.answers o, ¬ Securing rsp → ¬ NotFound rsp → handlesIn rsp = [] →
    (s.answers o).getLast? = some rsp ∧ ∃ text, s.events o <+: [.errorOccured text] ∧
      (s.Finished o → s.events o = [.errorOccured text])

/-- The answers of a dialogue that ends with one. -/
theorem answers_concat {before : List (Exchange Pdu Pdu)}
    (h : s.dialogue o = before ++ [.answered o req rsp]) :
    (s.answers o).getLast? = some rsp ∧
      ∀ rsp' ∈ s.answers o, (∃ req', .answered o req' rsp' ∈ before) ∨ rsp' = rsp := by
  refine ⟨?_, fun rsp' hmem => ?_⟩
  · rw [answers, h, List.filterMap_append]
    exact List.getLast?_concat
  · obtain ⟨req', hdialogue⟩ := answered_of_mem hmem
    rw [h] at hdialogue
    rcases List.mem_append.mp hdialogue with hmem | hmem
    · exact .inl ⟨req', hmem⟩
    · exact .inr (Exchange.answered.inj (List.mem_singleton.mp hmem)).2.2

/-- **The end marker of a handle discovery is never premature**, if every Find Information Response
has a complete entry, or is one of an unknown format that is refused: it comes only after the error
that there are no more attributes or after the last handle, and an answer without a complete entry
is followed by an error and no entry. -/
theorem marker_deserved (run : machine.Run (fun _ l => Undisturbed l) (Link.new mtu) labels s)
    (ho : s.calls[o]? = some .discoverHand)
    (wellformed : ∀ req rsp, .answered (some o) req rsp ∈ s.log → Wellformed req rsp) :
    s.Deserved o ∧ (¬ s.Finished o → s.GoesOn) := by
  refine ⟨?_, goesOn_of_run run⟩
  obtain ⟨phase, course, hevents, hfinished⟩ := course_of_run run ho
  have inPhase := handPhase_of_course course
    (fun req rsp h => (length_answer run h).imp_right fun hle =>
      Nat.lt_of_le_of_lt hle mtu.val.toNat_lt)
    fun req rsp h => wellformed req rsp (mem_log_of_dialogue h)
  -- an answer without an entry can only be the last one
  have absurdly : ∀ {P : Prop} {dialogue : List (Exchange Pdu Pdu)} {req rsp : Pdu},
      Fruitful o dialogue → .answered o req rsp ∈ dialogue → ¬ Securing rsp → handlesIn rsp = [] →
      P := fun fruitful hmem hsecuring hnil =>
    absurd hnil ((fruitful _ _ hmem).resolve_left hsecuring)
  generalize hdialogue : s.dialogue o = dialogue at inPhase
  cases inPhase with
  | queued start descriptors fruitful | pending start descriptors fruitful =>
    have hnil : s.events o = [] := List.prefix_nil.mp hevents
    refine ⟨fun handle hmem => ?_, fun rsp hmem hsecuring _ hnone => ?_⟩
    · rw [hnil] at hmem
      cases hmem
    · obtain ⟨req, hmem⟩ := answered_of_mem hmem
      exact absurdly fruitful (hdialogue ▸ hmem) hsecuring hnone
  | marked descriptors fruitful last =>
    obtain ⟨hlast, hanswers⟩ := answers_concat hdialogue
    refine ⟨fun _ _ => ⟨_, hlast, last⟩, fun rsp hmem hsecuring hfound hnone => ?_⟩
    rcases hanswers rsp hmem with ⟨req, hmem⟩ | rfl
    · exact absurdly fruitful hmem hsecuring hnone
    · rcases last with last | last
      · exact absurd last hfound
      · rw [hnone] at last
        cases last
  | failed text fruitful =>
    obtain ⟨hlast, hanswers⟩ := answers_concat hdialogue
    have hevents : s.events o <+: [.errorOccured text] := hevents
    refine ⟨fun handle hmem => ?_, fun rsp hmem hsecuring _ hnone => ?_⟩
    · cases List.mem_singleton.mp (hevents.subset hmem)
    · rcases hanswers rsp hmem with ⟨req, hmem⟩ | rfl
      · exact absurdly fruitful hmem hsecuring hnone
      · exact ⟨hlast, text, hevents, fun finished =>
          (Pipeline.Phase.ended.inj (hfinished finished)).symm⟩

/-- An attribute is found, then there are no more. -/
def markedRun : Option Link :=
  machine.execGuarded (fun _ l => Undisturbed l) (Link.new attDefaultLeMtu)
    ([.call .discoverHand, .canWrite 5, .canRead [opFindInfoRsp, 0x01, 5, 0, 0, 0x2a] 1 true] ++
      .replicate 6 .resume ++
      [.canWrite 5, .canRead [opErrorRsp, opFindInfoReq, 6, 0, ecodeAttrNotFound] 1 true, .resume,
        .ret, .resume, .ret])

theorem marker_deserved_markedRun : ∃ s, markedRun = some s ∧
    s.events 0 = [.uuid 5 (some ⟨0x2a00, 0, 0, 5⟩), .uuid 0 none] ∧ s.Deserved 0 := by
  have hrun : markedRun.map (fun s => (s.calls, s.events 0, decide (∀ rsp ∈ s.answers 0,
      byteAt rsp 0 = opFindInfoRsp → handlesIn rsp ≠ []))) = some ([.discoverHand],
        [.uuid 5 (some ⟨0x2a00, 0, 0, 5⟩), .uuid 0 none], true) := by decide
  obtain ⟨s, hs, hdata⟩ := Option.map_eq_some_iff.mp hrun
  simp only [Prod.mk.injEq] at hdata
  obtain ⟨hcalls, hevents, handles⟩ := hdata
  have deserved := marker_deserved (machine.run_of_execGuarded hs)
    (show s.calls[0]? = some .discoverHand by rw [hcalls]; rfl) fun req rsp h hop =>
      .inl (of_decide_eq_true handles rsp (mem_answers (mem_dialogue_of_log h)) hop)
  exact ⟨s, hs, hevents, deserved.1⟩

/-- A response without an entry. -/
def emptyRspRun : Option Link :=
  machine.execGuarded (fun _ l => Undisturbed l) (Link.new attDefaultLeMtu)
    [.call .discoverHand, .canWrite 5, .canRead [opFindInfoRsp, 0x01] 1 true, .resume, .ret]

/-- **It is taken for the end.** -/
theorem not_deserved_emptyRspRun : ∃ s, emptyRspRun = some s ∧
    s.events 0 = [.uuid 0 none] ∧ s.answers 0 = [[opFindInfoRsp, 0x01]] ∧ ¬ s.Deserved 0 := by
  have hrun : emptyRspRun.map (fun s => (s.events 0, s.answers 0)) =
      some ([.uuid 0 none], [[opFindInfoRsp, 0x01]]) := by decide
  obtain ⟨s, hs, hdata⟩ := Option.map_eq_some_iff.mp hrun
  obtain ⟨hevents, hanswers⟩ := Prod.mk.inj hdata
  refine ⟨s, hs, hevents, hanswers, fun deserved => ?_⟩
  obtain ⟨rsp, hlast, hrsp⟩ := deserved.marked 0 (by rw [hevents]; exact List.mem_cons_self)
  rw [hanswers] at hlast
  obtain rfl : [opFindInfoRsp, 0x01] = rsp := Option.some.inj hlast
  rcases hrsp with ⟨lo, hi, h⟩ | h
  · cases h
  · exact absurd h (by decide)

end Link

end Libble
