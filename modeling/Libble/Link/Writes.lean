import Libble.Gatt.LongWrite
import Libble.Link.Course
import Libble.Link.Wire

/-!
# Writing a value

`lble_write` writes up to 255 bytes. With nothing else outstanding, and a peer that accepts what it
is sent, the requests on the connection are one Write Request, or Prepare Write Requests of
consecutive parts and one Execute Write Request.

## Main definitions

* `Link.Grants`: a response that accepts a request.
* `Link.LongPhase`, `Link.ShortPhase`: how far a write has come.
* `Link.requests`: the requests that have been sent.

## Main results

* `Link.reactTo_next`, `Link.reactTo_last`: what follows an accepted part.
* `Link.requests_of_write`: the requests of a write.
* `Link.write_exact`: `lble_write` transfers the bytes of the value and nothing else.
-/

namespace Libble

open Att Gatt

namespace Link

/-! ### Responses that accept -/

/-- The response accepts the request: it is no error but the response to such a request, and for a
Prepare Write Request it has the same length. -/
def Grants (req rsp : Pdu) : Prop :=
  byteAt rsp 0 ≠ opErrorRsp ∧ getReqOpcode (byteAt rsp 0) = byteAt req 0 ∧
    (byteAt req 0 = opPrepWriteReq → rsp.length = req.length)

instance (req rsp : Pdu) : Decidable (Grants req rsp) := inferInstanceAs (Decidable (_ ∧ _ ∧ _))

section Reactions

variable {buflen offset : Nat} {value : List UInt8} {handle : UInt16} {rsp : Pdu}

/-- An accepting response reaches the callback with the status 0. -/
theorem reactTo_of_grants {req : Pdu} {proc : Proc} (h : Grants req rsp) (hrsp : rsp ≠ []) :
    reactTo buflen req proc rsp = turnOf (react buflen proc 0 rsp) := by
  obtain ⟨hne, hreq, -⟩ := h
  have hcons : byteAt rsp 0 :: rsp.drop 1 = rsp := by
    cases rsp with
    | nil => exact absurd rfl hrsp
    | cons opcode pdu => rfl
  have hanswered : answeredOpcode (byteAt rsp 0) (rsp.drop 1) = byteAt req 0 := by
    simp only [answeredOpcode, if_neg hne, hreq]
  have hstatus : statusOf (byteAt rsp 0) (rsp.drop 1) = 0 := if_neg hne
  simp only [reactTo, responseOf, if_pos hanswered, hstatus, hcons]

theorem ne_nil_of_grants {req : Pdu} (h : Grants req rsp) (hreq : byteAt req 0 ≠ 0) : rsp ≠ [] := by
  rintro rfl
  exact hreq h.2.1.symm

/-- An accepted part is followed by the next part. -/
theorem reactTo_next (hvalue : value.length ≤ 255)
    (hgrants : Grants (prepWriteReq handle offset (part buflen value offset)) rsp)
    (h : offset + (part buflen value offset).length < value.length) :
    reactTo buflen (prepWriteReq handle offset (part buflen value offset))
      (.prepareWriteCb handle value (UInt16.ofNat offset)) rsp =
      .next (prepWriteReq handle (offset + (part buflen value offset).length)
          (part buflen value (offset + (part buflen value offset).length)))
        (.prepareWriteCb handle value
          (UInt16.ofNat (offset + (part buflen value offset).length))) := by
  have hlength := hgrants.2.2 rfl
  rw [length_prepWriteReq] at hlength
  rw [reactTo_of_grants hgrants (ne_nil_of_grants hgrants nofun), react,
    prepareWriteCb_next handle hvalue hlength h, turnOf]

/-- The last part is followed by the Execute Write Request. -/
theorem reactTo_last (hvalue : value.length ≤ 255)
    (hgrants : Grants (prepWriteReq handle offset (part buflen value offset)) rsp)
    (h : offset + (part buflen value offset).length = value.length) :
    reactTo buflen (prepWriteReq handle offset (part buflen value offset))
      (.prepareWriteCb handle value (UInt16.ofNat offset)) rsp =
      .next execWriteReq .charWriteCb := by
  have hlength := hgrants.2.2 rfl
  rw [length_prepWriteReq] at hlength
  rw [reactTo_of_grants hgrants (ne_nil_of_grants hgrants nofun), react,
    prepareWriteCb_last handle hvalue hlength h, turnOf]

/-- `char_write_cb` is always the end. -/
theorem reactTo_charWriteCb (buflen : Nat) (req rsp : Pdu) :
    ∃ events, reactTo buflen req .charWriteCb rsp = .done events := ⟨_, rfl⟩

end Reactions

/-! ### How far a write has come -/

/-- The requests that have been sent. -/
def requestsOf (history : List (Exchange Pdu Pdu)) : List Pdu :=
  history.filterMap fun
    | .sent _ req => some req
    | .answered .. => none

/-- The parts of a value up to an offset. -/
structure PartsUpTo (buflen : Nat) (value : List UInt8) (parts : List (List UInt8))
    (offset : Nat) : Prop where
  small : ∀ p ∈ parts, p ≠ [] ∧ p.length ≤ buflen - 5
  length_eq : parts.flatten.length = offset
  flatten_eq : parts.flatten = value.take offset

namespace PartsUpTo

variable {buflen offset : Nat} {value : List UInt8} {parts : List (List UInt8)}

theorem zero : PartsUpTo buflen value [] 0 := ⟨nofun, rfl, rfl⟩

/-- One part more. -/
theorem concat (h : PartsUpTo buflen value parts offset) (hbuf : 23 ≤ buflen)
    (hoffset : offset < value.length) :
    PartsUpTo buflen value (parts ++ [part buflen value offset])
      (offset + (part buflen value offset).length) := by
  refine ⟨fun p hp => ?_, ?_, ?_⟩
  · rcases List.mem_append.mp hp with hp | hp
    · exact h.small p hp
    · obtain rfl := List.mem_singleton.mp hp
      exact part_ne_nil hbuf hoffset
  · simp [h.length_eq]
  · rw [List.flatten_append, List.flatten_singleton, h.flatten_eq,
      take_append_part (Nat.le_of_lt hoffset)]

theorem flatten_eq_value (h : PartsUpTo buflen value parts offset)
    (hoffset : offset = value.length) :
    parts.flatten = value := by
  rw [h.flatten_eq, hoffset, List.take_length]

end PartsUpTo

/-- How far the long write of `value` by the procedure `o` has come, when nothing else goes on:
what waits for an answer, and what has been sent. -/
inductive LongPhase (buflen : Nat) (handle : UInt16) (value : List UInt8) (o : Nat) :
    Option (Task Pdu Proc) → List (Task Pdu Proc) → List Pdu → Prop
  | partQueued {parts : List (List UInt8)} {offset : Nat}
      (done : PartsUpTo buflen value parts offset) (lt : offset < value.length) :
    LongPhase buflen handle value o none
      [⟨o, prepWriteReq handle offset (part buflen value offset),
        .prepareWriteCb handle value (UInt16.ofNat offset)⟩]
      (prepares handle 0 parts)
  | partSent {parts : List (List UInt8)} {offset : Nat}
      (done : PartsUpTo buflen value parts offset) (lt : offset < value.length) :
    LongPhase buflen handle value o
      (some ⟨o, prepWriteReq handle offset (part buflen value offset),
        .prepareWriteCb handle value (UInt16.ofNat offset)⟩) []
      (prepares handle 0 (parts ++ [part buflen value offset]))
  | executeQueued {parts : List (List UInt8)} (done : PartsUpTo buflen value parts value.length) :
    LongPhase buflen handle value o none [⟨o, execWriteReq, .charWriteCb⟩]
      (prepares handle 0 parts)
  | executeSent {parts : List (List UInt8)} (done : PartsUpTo buflen value parts value.length) :
    LongPhase buflen handle value o (some ⟨o, execWriteReq, .charWriteCb⟩) []
      (prepares handle 0 parts ++ [execWriteReq])
  | ended {parts : List (List UInt8)} (done : PartsUpTo buflen value parts value.length) :
    LongPhase buflen handle value o none [] (prepares handle 0 parts ++ [execWriteReq])

/-- How far a write in one request has come. -/
inductive ShortPhase (handle : UInt16) (value : List UInt8) (o : Nat) :
    Option (Task Pdu Proc) → List (Task Pdu Proc) → List Pdu → Prop
  | queued : ShortPhase handle value o none [⟨o, writeReq handle value, .charWriteCb⟩] []
  | sent : ShortPhase handle value o (some ⟨o, writeReq handle value, .charWriteCb⟩) []
      [writeReq handle value]
  | ended : ShortPhase handle value o none [] [writeReq handle value]

/-- Nothing is called, and every request is accepted. -/
def GrantsAll (p : Pipeline Pdu Pdu Proc Event) : Pipeline.Label Pdu Pdu Proc → Prop
  | .submit .. => False
  | .send => True
  | .answer rsp => ∀ task, p.pending = some task → Grants task.req rsp
  | .retry _ => p.pending = none

/-- The phase of a pipeline in which one write goes on; `before` has been sent earlier. -/
def InPhase (phase : Option (Task Pdu Proc) → List (Task Pdu Proc) → List Pdu → Prop)
    (before : List Pdu) (p : Pipeline Pdu Pdu Proc Event) : Prop :=
  ∃ sent, requestsOf p.history = before ++ sent ∧ phase p.pending p.queue sent

section Phases

variable {buflen o : Nat} {handle : UInt16} {value : List UInt8} {before : List Pdu}
  {p q : Pipeline Pdu Pdu Proc Event} {label : Pipeline.Label Pdu Pdu Proc}

theorem requestsOf_sent {history : List (Exchange Pdu Pdu)} {sent : List Pdu}
    (h : requestsOf history = before ++ sent) (owner : Nat) (req : Pdu) :
    requestsOf (history ++ [.sent owner req]) = before ++ (sent ++ [req]) := by
  rw [← List.append_assoc, ← h]
  exact List.filterMap_append

theorem requestsOf_answered {history : List (Exchange Pdu Pdu)} {sent : List Pdu}
    (h : requestsOf history = before ++ sent) (owner : Nat) (req rsp : Pdu) :
    requestsOf (history ++ [.answered owner req rsp]) = before ++ sent := by
  rw [← h]
  exact List.filterMap_append.trans (List.append_nil _)

theorem InPhase.longStep (hbuf : 23 ≤ buflen) (hvalue : value.length ≤ 255)
    (h : InPhase (LongPhase buflen handle value o) before p) (grants : GrantsAll p label)
    (hstep : Pipeline.step (reactTo buflen) p label = some q) :
    InPhase (LongPhase buflen handle value o) before q := by
  obtain ⟨sent, hsent, hphase⟩ := h
  cases label with
  | submit req cont => cases grants
  | retry rsp =>
    obtain ⟨task, hpending, -⟩ := Pipeline.step_retry hstep
    cases hpending.symm.trans grants
  | send =>
    obtain ⟨task, queue, hpending, hqueue, rfl⟩ := Pipeline.step_send hstep
    rw [hpending, hqueue] at hphase
    refine ⟨sent ++ [task.req], requestsOf_sent hsent _ _, ?_⟩
    show LongPhase buflen handle value o (some task) queue (sent ++ [task.req])
    cases hphase with
    | @partQueued parts offset done lt =>
      have hparts := prepares_concat handle 0 parts (part buflen value offset)
      rw [Nat.zero_add, done.length_eq] at hparts
      exact hparts ▸ .partSent done lt
    | executeQueued done => exact .executeSent done
  | answer rsp =>
    obtain ⟨task, hpending, rfl⟩ := Pipeline.step_answer hstep
    have hgrants := grants task hpending
    rw [hpending] at hphase
    generalize hqueue : p.queue = queue at hphase
    cases hphase with
    | @partSent parts offset done lt =>
      have done' := done.concat hbuf lt
      by_cases hlt : offset + (part buflen value offset).length < value.length
      · rw [reactTo_next hvalue hgrants hlt]
        refine ⟨_, requestsOf_answered hsent _ _ _, ?_⟩
        show LongPhase buflen handle value o none (p.queue ++ [_]) _
        rw [hqueue]
        exact .partQueued done' hlt
      · have heq : offset + (part buflen value offset).length = value.length := by
          have hlength := length_part buflen value offset
          omega
        rw [reactTo_last hvalue hgrants heq]
        refine ⟨_, requestsOf_answered hsent _ _ _, ?_⟩
        show LongPhase buflen handle value o none (p.queue ++ [_]) _
        rw [hqueue]
        exact .executeQueued (heq ▸ done')
    | executeSent done =>
      obtain ⟨events, hreact⟩ := reactTo_charWriteCb buflen execWriteReq rsp
      rw [hreact]
      refine ⟨_, requestsOf_answered hsent _ _ _, ?_⟩
      show LongPhase buflen handle value o none p.queue _
      rw [hqueue]
      exact .ended done

theorem InPhase.shortStep (h : InPhase (ShortPhase handle value o) before p)
    (grants : GrantsAll p label) (hstep : Pipeline.step (reactTo buflen) p label = some q) :
    InPhase (ShortPhase handle value o) before q := by
  obtain ⟨sent, hsent, hphase⟩ := h
  cases label with
  | submit req cont => cases grants
  | retry rsp =>
    obtain ⟨task, hpending, -⟩ := Pipeline.step_retry hstep
    cases hpending.symm.trans grants
  | send =>
    obtain ⟨task, queue, hpending, hqueue, rfl⟩ := Pipeline.step_send hstep
    rw [hpending, hqueue] at hphase
    refine ⟨sent ++ [task.req], requestsOf_sent hsent _ _, ?_⟩
    show ShortPhase handle value o (some task) queue (sent ++ [task.req])
    cases hphase with
    | queued => exact .sent
  | answer rsp =>
    obtain ⟨task, hpending, rfl⟩ := Pipeline.step_answer hstep
    rw [hpending] at hphase
    generalize hqueue : p.queue = queue at hphase
    cases hphase with
    | sent =>
      obtain ⟨events, hreact⟩ := reactTo_charWriteCb buflen (writeReq handle value) rsp
      rw [hreact]
      refine ⟨_, requestsOf_answered hsent _ _ _, ?_⟩
      show ShortPhase handle value o none p.queue _
      rw [hqueue]
      exact .ended

end Phases

/-! ### Writes on a connection -/

/-- A request PDU that is written. -/
def Act.request : Act → Option Pdu
  | sent _ pdu => if getOpType (byteAt pdu 0) = .req then some pdu else none
  | _ => none

/-- The requests that have been sent. -/
def requests (s : Link) : List Pdu := s.log.filterMap Act.request

/-- No request waits to be sent or answered; the one that is just being answered stays pending
until the end of `handle_rsp`. -/
def Free (s : Link) : Prop := s.reqQueue = [] ∧ (s.pendingReq = none ∨ .rspDone ∈ s.todo)

instance (s : Link) : Decidable s.Free := inferInstanceAs (Decidable (_ ∧ _))

/-- No further call is made, and the peer accepts every request. -/
def Granted (s : Link) : Label → Prop
  | .call _ => False
  | .canRead bytes _ _ =>
    getOpType (byteAt bytes 0) = .rsp → ∀ op ∈ s.pendingReq, Grants op.pdu bytes
  | _ => True

instance (s : Link) (label : Label) : Decidable (Granted s label) :=
  match label with
  | .call _ => .isFalse id
  | .canRead .. => inferInstanceAs (Decidable (_ → ∀ op ∈ s.pendingReq, _))
  | .listen | .drop | .ret | .resume | .canWrite _ | .hup | .timeout => .isTrue trivial

section Connection

variable {mtu : Mtu} {labels labels' : List Label} {s t u : Link} {handle : UInt16}
  {data : List UInt8}

/-- The requests on the wire are those of the pipeline. -/
theorem Steady.requests_eq (h : s.Steady) : s.requests = requestsOf s.pipeline.history := by
  rw [Link.requests, requestsOf, pipeline, List.filterMap_filterMap]
  refine List.filterMap_congr fun act hact => ?_
  cases act with
  | sent owner pdu =>
    have hsent := h.sent owner pdu hact
    cases owner with
    | none =>
      have hother : getOpType (byteAt pdu 0) ≠ .req := fun hreq => by simpa using hsent.mpr hreq
      exact if_neg hother
    | some owner => exact if_pos (hsent.mp rfl)
  | answered owner req rsp => cases owner <;> rfl
  | _ => rfl

theorem Free.waiting (h : s.Free) : s.pipeline.pending = none ∧ s.pipeline.queue = [] := by
  refine ⟨?_, congrArg (List.filterMap Op.task) h.1⟩
  simp only [pipeline]
  rcases h.2 with hp | hdone
  · rw [hp, Option.bind_none, ite_self]
  · have hends := le_tally_of_mem (f := Code.ends) hdone
    rw [Code.ends] at hends
    exact if_neg (by omega)

/-- An undisturbed connection whose peer accepts everything is such a pipeline. -/
theorem grantsAll_of_granted {label : Label} {label' : Pipeline.Label Pdu Pdu Proc} {buflen : Nat}
    (granted : Granted s label) (mirrors : Mirrors buflen label label') :
    GrantsAll s.pipeline label' := by
  cases mirrors with
  | call call => cases granted
  | send ret => trivial
  | answer type accepted =>
    intro task hpending
    obtain ⟨op, hp, -, hpdu⟩ := pendingReq_of_pipeline hpending
    exact hpdu ▸ granted type op hp
  | retry type again =>
    cases hpending : s.pipeline.pending with
    | none => exact hpending
    | some task =>
      obtain ⟨op, hp, -⟩ := pendingReq_of_pipeline hpending
      have hne := (granted type op hp).1
      simp [retries, hne] at again

/-- The requests of consecutive parts fit the MTU. -/
theorem length_prepares_le (handle : UInt16) {buflen : Nat} (offset : Nat)
    (parts : List (List UInt8)) (hbuf : 5 ≤ buflen)
    (small : ∀ p ∈ parts, p ≠ [] ∧ p.length ≤ buflen - 5) :
    ∀ pdu ∈ prepares handle offset parts, pdu.length ≤ buflen := by
  induction parts generalizing offset with
  | nil => nofun
  | cons first parts ih =>
    rw [List.forall_mem_cons] at small
    intro pdu hpdu
    rcases List.mem_cons.mp hpdu with rfl | hpdu
    · rw [length_prepWriteReq]
      omega
    · exact ih _ small.2 pdu hpdu

section Sent

variable {buflen o : Nat} {value : List UInt8} {pending : Option (Task Pdu Proc)}
  {queue : List (Task Pdu Proc)} {sent : List Pdu}

/-- What a write in one request has sent. -/
theorem ShortPhase.sent_cases (phase : ShortPhase handle value o pending queue sent)
    (hshort : value.length + 3 ≤ buflen) : (∀ pdu ∈ sent, pdu.length ≤ buflen) ∧
      ((sent = [] ∧ queue ≠ []) ∨ sent = [writeReq handle value]) := by
  have hlength : (writeReq handle value).length ≤ buflen := by
    simp [writeReq]
    omega
  cases phase with
  | queued => exact ⟨List.forall_mem_nil _, .inl ⟨rfl, List.cons_ne_nil _ _⟩⟩
  | sent | ended => exact ⟨List.forall_mem_singleton.mpr hlength, .inr rfl⟩

/-- What a long write has sent. -/
theorem LongPhase.sent_cases (phase : LongPhase buflen handle value o pending queue sent)
    (hbuf : 23 ≤ buflen) : (∀ pdu ∈ sent, pdu.length ≤ buflen) ∧ ∃ parts : List (List UInt8),
      (∀ p ∈ parts, p ≠ [] ∧ p.length ≤ buflen - 5) ∧ parts.flatten <+: value ∧
      ((sent = prepares handle 0 parts ∧ (pending ≠ none ∨ queue ≠ [])) ∨
        (sent = prepares handle 0 parts ++ [execWriteReq] ∧ parts.flatten = value)) := by
  have hprepares := fun parts => length_prepares_le handle 0 parts (Nat.le_trans (by decide) hbuf)
  have hexec : execWriteReq.length ≤ buflen := Nat.le_trans (by decide) hbuf
  have hlength := fun parts small => List.forall_mem_append.mpr
    ⟨hprepares parts small, List.forall_mem_singleton.mpr hexec⟩
  have hprefix : ∀ {parts offset}, PartsUpTo buflen value parts offset →
      parts.flatten <+: value := fun done => done.flatten_eq ▸ List.take_prefix _ value
  cases phase with
  | partQueued done lt =>
    exact ⟨hprepares _ done.small, _, done.small, hprefix done,
      .inl ⟨rfl, .inr (List.cons_ne_nil _ _)⟩⟩
  | partSent done lt =>
    have done := done.concat hbuf lt
    exact ⟨hprepares _ done.small, _, done.small, hprefix done,
      .inl ⟨rfl, .inl (Option.some_ne_none _)⟩⟩
  | executeQueued done =>
    exact ⟨hprepares _ done.small, _, done.small, hprefix done,
      .inl ⟨rfl, .inr (List.cons_ne_nil _ _)⟩⟩
  | executeSent done | ended done =>
    exact ⟨hlength _ done.small, _, done.small, hprefix done,
      .inr ⟨rfl, done.flatten_eq_value rfl⟩⟩

end Sent

/-- The requests of a write are those of its value. -/
theorem requests_of_write (before : machine.Run (fun _ l => Stays l) (Link.new mtu) labels s)
    (free : s.Free) (called : s.step (.call (.write handle data)) = some t)
    (run : machine.Run (fun a l => Undisturbed l ∧ Granted a l) t labels' u) :
    ∃ sent, u.requests = s.requests ++ sent ∧ (∀ pdu ∈ sent, pdu.length ≤ mtu.buflen) ∧
      (data.length ≤ mtu.buflen - 3 →
        (sent = [] ∧ ¬ u.Free) ∨ sent = [writeReq handle data]) ∧
      (mtu.buflen - 3 < data.length → ∃ parts : List (List UInt8),
        (∀ p ∈ parts, p ≠ [] ∧ p.length ≤ mtu.buflen - 5) ∧ parts.flatten <+: data ∧
        ((sent = prepares handle 0 parts ∧ ¬ u.Free) ∨
          (sent = prepares handle 0 parts ++ [execWriteReq] ∧ parts.flatten = data))) := by
  obtain ⟨steady, alive, rfl⟩ := Steady.of_run before
  obtain ⟨-, -, ⟨-, hdata⟩, rfl⟩ := step_call called
  obtain ⟨steady', hmtu, hpipeline⟩ := steady.call (.write handle data)
  obtain ⟨-, alive', -⟩ := steady.stays alive
    (show Stays (.call (.write handle data)) from trivial) called
  obtain ⟨⟨labels'', run'⟩, steady'', -, -⟩ := pipeline_run GrantsAll run steady' alive'
    fun _ _ _ granted mirrors => grantsAll_of_granted granted mirrors
  rw [hmtu] at run'
  have hbuf := s.mtu.le_buflen
  obtain ⟨hpending, hqueue⟩ := free.waiting
  have hsent : requestsOf (s.call (.write handle data)).pipeline.history = s.requests ++ [] := by
    rw [hpipeline, steady.requests_eq, List.append_nil]
    rfl
  rw [steady''.requests_eq]
  have hbusy : u.pipeline.pending ≠ none ∨ u.pipeline.queue ≠ [] → ¬ u.Free := by
    rintro hne hfree
    obtain ⟨hpending', hqueue'⟩ := hfree.waiting
    exact hne.elim (· hpending') (· hqueue')
  by_cases hshort : data.length ≤ s.mtu.buflen - 3
  · have hbegin := gattWriteChar_short handle hshort
    have start : InPhase (ShortPhase handle data s.pipeline.started.length) s.requests
        (s.call (.write handle data)).pipeline := by
      refine ⟨[], hsent, ?_⟩
      rw [hpipeline, Call.begin, hbegin, Pipeline.submit, hpending, hqueue]
      exact .queued
    obtain ⟨sent, hsent', phase⟩ := run'.invariant start
      fun h granted hstep => h.shortStep granted hstep
    have hroom : data.length + 3 ≤ s.mtu.buflen := by omega
    obtain ⟨hlengths, hcases⟩ := phase.sent_cases hroom
    exact ⟨sent, hsent', hlengths, fun _ => hcases.imp_left fun h => ⟨h.1, hbusy (.inr h.2)⟩,
      fun hlong => absurd hshort (Nat.not_le.mpr hlong)⟩
  · have hlong := Nat.not_le.mp hshort
    have hbegin := gattWriteChar_long handle hdata hlong
    have start : InPhase (LongPhase s.mtu.buflen handle data s.pipeline.started.length) s.requests
        (s.call (.write handle data)).pipeline := by
      refine ⟨[], hsent, ?_⟩
      rw [hpipeline, Call.begin, hbegin, Pipeline.submit, hpending, hqueue]
      exact .partQueued .zero (by omega)
    obtain ⟨sent, hsent', phase⟩ := run'.invariant start
      fun h granted hstep => h.longStep hbuf hdata granted hstep
    obtain ⟨hlengths, parts, hsmall, hprefix, hcases⟩ := phase.sent_cases hbuf
    exact ⟨sent, hsent', hlengths, fun h => absurd h hshort, fun _ =>
      ⟨parts, hsmall, hprefix, hcases.imp_left fun h => ⟨h.1, hbusy h.2⟩⟩⟩

/-- **`lble_write` transfers the bytes of the value and nothing else**, and until no request waits
the connection goes on. -/
theorem write_exact (before : machine.Run (fun _ l => Stays l) (Link.new mtu) labels s)
    (free : s.Free) (called : s.step (.call (.write handle data)) = some t)
    (run : machine.Run (fun a l => Undisturbed l ∧ Granted a l) t labels' u) :
    (∃ sent, u.requests = s.requests ++ sent ∧ (∀ pdu ∈ sent, pdu.length ≤ mtu.buflen) ∧
      (data.length ≤ mtu.buflen - 3 →
        (sent = [] ∧ ¬ u.Free) ∨ sent = [writeReq handle data]) ∧
      (mtu.buflen - 3 < data.length → ∃ parts : List (List UInt8),
        (∀ p ∈ parts, p ≠ [] ∧ p.length ≤ mtu.buflen - 5) ∧ parts.flatten <+: data ∧
        ((sent = prepares handle 0 parts ∧ ¬ u.Free) ∨
          (sent = prepares handle 0 parts ++ [execWriteReq] ∧ parts.flatten = data)))) ∧
      (¬ u.Free → u.GoesOn) := by
  refine ⟨requests_of_write before free called run, fun busy => ?_⟩
  obtain ⟨steady, alive, hmtu⟩ := Steady.of_run before
  -- nothing is queued, and what is pending was written to the socket
  have awake : s.Awake := by
    refine ⟨fun op hop => ?_, fun op hp => ?_, fun _ hqueue => absurd free.1 hqueue⟩
    · rw [free.1] at hop
      cases hop
    · have encoded := (wellformed_of_run before).2 op.pdu
        (List.mem_append_left _ (List.mem_map_of_mem (by simp [hp])))
      exact hmtu ▸ encoded.length_le
  have undisturbed : Undisturbed (.call (.write handle data)) := trivial
  obtain ⟨steady', alive', -⟩ := steady.step alive undisturbed called
  have awake' : u.Awake := Awake.run (run.mono And.left) steady' alive'
    (awake.step steady alive undisturbed called)
  exact awake'.goesOn fun idle => busy ⟨idle.2, .inl idle.1⟩

end Connection

/-- A value that takes two parts at the smallest MTU. -/
def sampleValue : List UInt8 := .replicate 21 0x41

/-- `sampleValue` is written to the handle 5. -/
def longWriteRun : Option Link :=
  machine.execGuarded (fun a l => Undisturbed l ∧ Granted a l)
    ((Link.new attDefaultLeMtu).call (.write 5 sampleValue))
    (([.canWrite 23, .canRead (opPrepWriteRsp :: [5, 0, 0, 0] ++ .replicate 18 0x41) 1 true] :
        List Label) ++ .replicate 5 .resume ++
      ([.canWrite 8, .canRead (opPrepWriteRsp :: [5, 0, 18, 0] ++ .replicate 3 0x41) 1 true] :
        List Label) ++ .replicate 5 .resume ++
      ([.canWrite 2, .canRead [opExecWriteRsp] 1 true] : List Label) ++ .replicate 5 .resume)

theorem write_exact_longWriteRun : ∃ s parts, longWriteRun = some s ∧
    s.requests = prepares 5 0 parts ++ [execWriteReq] ∧ parts.flatten = sampleValue := by
  have hrun : longWriteRun.map (fun s => decide s.Free) = some true := by decide
  obtain ⟨s, hs, hfree⟩ := Option.map_eq_some_iff.mp hrun
  have called : (Link.new ⟨23, by decide⟩).step (.call (.write 5 sampleValue)) = some _ := rfl
  obtain ⟨⟨sent, hsent, -, -, hlong⟩, -⟩ :=
    write_exact .nil (by decide) called (machine.run_of_execGuarded hs)
  obtain ⟨parts, -, -, hbusy | ⟨hparts, hflatten⟩⟩ := hlong (by decide)
  · exact absurd (of_decide_eq_true hfree) hbusy.2
  · exact ⟨s, parts, hs, hsent.trans hparts, hflatten⟩

end Link

end Libble
