import Libble.Foundation.ProcedureCourse
import Libble.Link.Overlap

/-!
# The course of one operation

An operation of the application is a procedure of the pipeline of its connection, so on an
undisturbed connection its course is its own: its requests are sent and answered in turn, and only
an answer with a security error can have a request sent again. The results about single operations
are inductions on this course. That an operation comes to its end needs in addition that the
connection goes on as long as the operation is not finished.

## Main definitions

* `Link.dialogue`, `Link.answers`: the requests of an operation and their answers.
* `Link.Securing`: the responses that can have a request sent again.
* `Link.GoesOn`: something can happen at the connection.

## Main results

* `Link.course_of_run`: an operation is where its dialogue has led it.
* `Link.reactTo_of_error`: what an error has a procedure do.
* `Link.goesOn_of_run`: an undisturbed connection does not stop before its operations are finished.
-/

namespace Libble

open Att Gatt

namespace Link

variable {s t : Link} {o : Nat} {mtu : Mtu}

/-! ### Dialogues -/

/-- What has passed between an operation and the peer. -/
def dialogue (s : Link) (o : Nat) : List (Exchange Pdu Pdu) :=
  (s.log.filterMap Act.exchange).filter (·.owner = o)

/-- An Error Response about authentication or encryption, after which the security level of the
channel may be raised and the request sent again. -/
def Securing (rsp : Pdu) : Prop :=
  byteAt rsp 0 = opErrorRsp ∧ rsp.length = 5 ∧ (byteAt rsp 4 = 0x05 ∨ byteAt rsp 4 = 0x0f)

instance (rsp : Pdu) : Decidable (Securing rsp) := inferInstanceAs (Decidable (_ ∧ _ ∧ _))

theorem securing_of_retries {rsp : Pdu} {security : Int} {setOk : Bool}
    (h : retries (byteAt rsp 0) (rsp.drop 1) security setOk = true) : Securing rsp := by
  have hbyte : byteAt (rsp.drop 1) 3 = byteAt rsp 4 := by simp [byteAt]
  simp only [retries, hbyte, changeSecurity, Bool.and_eq_true, decide_eq_true_eq,
    List.length_drop] at h
  obtain ⟨hop, hlength, hcode, -⟩ := h
  refine ⟨hop, by omega, ?_⟩
  rcases hcode with ⟨hcode, -⟩ | ⟨hcode, -⟩
  · exact .inr hcode
  · exact .inl hcode

theorem exchange_eq_answered {act : Act} {req rsp : Pdu}
    (h : act.exchange = some (.answered o req rsp)) : act = .answered (some o) req rsp := by
  rcases act with _ | ⟨_ | _, _⟩ | _ | ⟨_ | _, _, _⟩ | _ | _ <;> simp_all [Act.exchange]

/-- The answers of a dialogue are those that the connection has received for the operation. -/
theorem mem_log_of_dialogue {req rsp : Pdu} (h : .answered o req rsp ∈ s.dialogue o) :
    .answered (some o) req rsp ∈ s.log := by
  obtain ⟨act, hact, hexchange⟩ := List.mem_filterMap.mp (List.mem_filter.mp h).1
  exact exchange_eq_answered hexchange ▸ hact

theorem mem_dialogue_of_log {req rsp : Pdu} (h : .answered (some o) req rsp ∈ s.log) :
    .answered o req rsp ∈ s.dialogue o :=
  List.mem_filter.mpr ⟨List.mem_filterMap.mpr ⟨_, h, rfl⟩, by simp [Exchange.owner]⟩

/-- The answers to the requests of an operation. -/
def answers (s : Link) (o : Nat) : List Pdu :=
  (s.dialogue o).filterMap fun
    | .answered _ _ rsp => some rsp
    | .sent .. => none

theorem mem_answers {req rsp : Pdu} (h : .answered o req rsp ∈ s.dialogue o) : rsp ∈ s.answers o :=
  List.mem_filterMap.mpr ⟨_, h, rfl⟩

theorem answered_of_mem {rsp : Pdu} (h : rsp ∈ s.answers o) :
    ∃ req, .answered o req rsp ∈ s.dialogue o := by
  obtain ⟨e, he, hrsp⟩ := List.mem_filterMap.mp h
  cases e with
  | sent => cases hrsp
  | answered owner req rsp' =>
    obtain rfl := Option.some.inj hrsp
    obtain rfl : owner = o := of_decide_eq_true (List.mem_filter.mp he).2
    exact ⟨req, he⟩

/-- A run of an undisturbed connection is a run of its pipeline. -/
theorem pipeline_of_undisturbed {labels : List Label}
    (run : machine.Run (fun _ l => Undisturbed l) (Link.new mtu) labels s) :
    s.mtu = mtu ∧ ∃ labels', (Pipeline.machine (reactTo mtu.buflen)).Run
      (Pipeline.RetriedBy Securing) Pipeline.init labels' s.pipeline := by
  have guarded : machine.Run (fun _ l => Undisturbed l ∧ True) (Link.new mtu) labels s :=
    run.mono fun h => ⟨h, trivial⟩
  obtain ⟨run', -, -, hmtu⟩ := pipeline_run (Pipeline.RetriedBy Securing) guarded
    (.new mtu) (.new mtu) (fun _ _ _ _ mirrors => by
      cases mirrors with
      | retry type again => exact securing_of_retries again
      | call | send | answer => trivial)
  exact ⟨hmtu, run'⟩

/-- A PDU that arrives fits the MTU. -/
theorem length_received {bytes : Pdu} {security : Int} {setOk : Bool}
    (h : s.step (.canRead bytes security setOk) = some t)
    (type : getOpType (byteAt bytes 0) = .rsp) :
    bytes ≠ [] ∧ bytes.length ≤ s.mtu.buflen := by
  refine ⟨?_, (step_canRead h).2.1⟩
  rintro rfl
  cases type

/-- The answers of a dialogue are PDUs that fit the MTU. -/
theorem length_answer {labels : List Label} {req rsp : Pdu}
    (run : machine.Run (fun _ l => Undisturbed l) (Link.new mtu) labels s)
    (h : .answered o req rsp ∈ s.dialogue o) : rsp ≠ [] ∧ rsp.length ≤ mtu.buflen := by
  have guarded : machine.Run (fun _ l => Undisturbed l ∧ True) (Link.new mtu) labels s :=
    run.mono fun h => ⟨h, trivial⟩
  obtain ⟨⟨labels', run'⟩, -⟩ := pipeline_run
    (Pipeline.AnsweredBy fun rsp => rsp ≠ [] ∧ rsp.length ≤ mtu.buflen) guarded (.new mtu)
    (.new mtu) (fun _ hmtu hstep _ mirrors => by
      cases mirrors with
      | call | send => trivial
      | answer type =>
        have received := length_received hstep type
        rwa [hmtu] at received
      | retry type =>
        have received := length_received hstep type
        rwa [hmtu] at received)
  exact Pipeline.answers_of_run run' (List.mem_filter.mp h).1

/-- **The course of an operation.** On an undisturbed connection an operation is in the phase that
its dialogue leads to; its events are the beginning of its outputs, and all of them when it is
finished. -/
theorem course_of_run {labels : List Label} {call : Call}
    (run : machine.Run (fun _ l => Undisturbed l) (Link.new mtu) labels s)
    (ho : s.calls[o]? = some call) :
    ∃ phase, Pipeline.Course (reactTo mtu.buflen) Securing o (call.begin mtu.buflen)
        (s.dialogue o) phase ∧
      s.events o <+: phase.outputs ∧ (s.Finished o → phase = .ended (s.events o)) := by
  obtain ⟨hmtu, labels', run'⟩ := pipeline_of_undisturbed run
  have hfirst : s.pipeline.started[o]? = some (call.begin mtu.buflen) := by
    rw [started_eq, List.getElem?_map, ho, hmtu]
    rfl
  obtain ⟨phase, course, inPhase⟩ := Pipeline.course_of_run run' hfirst
  refine ⟨phase, course, ?_, fun finished => ?_⟩
  · rw [← inPhase.outputs]
    exact events_prefix
  · obtain ⟨ended, houtputs⟩ := finished.ended
    rw [← houtputs]
    exact inPhase.of_over ended

/-- The dialogue of an operation leads to its request that is waiting. -/
theorem course_of_waiting {labels : List Label} {call : Call} {t : Task Pdu Proc}
    (run : machine.Run (fun _ l => Undisturbed l) (Link.new mtu) labels s)
    (ho : s.calls[t.owner]? = some call) (ht : t ∈ s.pipeline.waiting) :
    Pipeline.Course (reactTo mtu.buflen) Securing t.owner (call.begin mtu.buflen)
        (s.dialogue t.owner) (.queued t.req t.cont) ∨
      Pipeline.Course (reactTo mtu.buflen) Securing t.owner (call.begin mtu.buflen)
        (s.dialogue t.owner) (.pending t.req t.cont) := by
  obtain ⟨hmtu, labels', run'⟩ := pipeline_of_undisturbed run
  refine Pipeline.course_of_waiting run' ht ?_
  rw [started_eq, List.getElem?_map, ho, hmtu]
  rfl

/-! ### What reaches a procedure -/

section Reactions

variable {buflen : Nat} {req rsp : Pdu} {proc : Proc}

/-- An Error Response reaches the procedure of its request with its code. -/
theorem reactTo_of_error {opcode lo hi code : UInt8} (hreq : byteAt req 0 = opcode)
    (hrsp : rsp = [opErrorRsp, opcode, lo, hi, code]) :
    reactTo buflen req proc rsp = turnOf (react buflen proc code rsp) := by
  subst hrsp
  have hanswered : answeredOpcode opErrorRsp [opcode, lo, hi, code] = byteAt req 0 := hreq.symm
  have hopcode : byteAt [opErrorRsp, opcode, lo, hi, code] 0 = opErrorRsp := rfl
  have hrest : [opErrorRsp, opcode, lo, hi, code].drop 1 = [opcode, lo, hi, code] := rfl
  simp only [reactTo, hopcode, hrest, responseOf, if_pos hanswered]
  rfl

/-- Only two error codes can have a request sent again. -/
theorem not_securing (hauth : byteAt rsp 4 ≠ 0x05) (hencrypt : byteAt rsp 4 ≠ 0x0f) :
    ¬ Securing rsp := fun securing => securing.2.2.elim hauth hencrypt

end Reactions

/-! ### Going on -/

/-- Code is still to be run, there is something to write, or the peer has a request to answer. -/
def GoesOn (s : Link) : Prop := s.todo ≠ [] ∨ s.writerActive = true ∨ s.pendingReq.isSome = true

/-- The writer is active when a request can be sent. -/
structure Awake (s : Link) : Prop where
  queued_le : ∀ op ∈ s.reqQueue, op.pdu.length ≤ s.mtu.buflen
  pending_le : ∀ op, s.pendingReq = some op → op.pdu.length ≤ s.mtu.buflen
  writer : s.pendingReq = none → s.reqQueue ≠ [] → s.writerActive = true

/-- Suspended code that no procedure notices does not stop the writer. -/
theorem writerActive_run {code : Code} (minor : code.minor = true) (h : s.writerActive = true) :
    (s.run code).writerActive = true := by
  have woken : ∀ {u : Link}, u.writerActive = true → u.wakeupWriter.writerActive = true := by
    intro u hu
    rw [wakeupWriter]
    split
    · simp [wakeupChanWriter, hu]
    · exact hu
  have sent : ∀ (pdu : Pdu) (cb : Option Cb), (s.btAttSend pdu cb).writerActive = true := by
    intro pdu cb
    simp only [btAttSend]
    split_ifs
    · exact woken h
    · exact woken h
    · exact h
  have ended : ∀ (pdu : Pdu) (found : Bool), (s.notifyEnd pdu found).writerActive = true := by
    intro pdu found
    simp only [notifyEnd]
    split_ifs
    · exact sent _ _
    · exact h
  have next : ∀ (entry : Option Nat) (pdu : Pdu) (found : Bool),
      (s.notifyNext entry pdu found).writerActive = true := by
    intro entry pdu found
    simp only [notifyNext]
    split
    · exact ended pdu found
    · split
      · exact ended pdu found
      · split
        · exact h
        · exact h
  cases code with
  | notifyNext entry pdu found => exact next entry pdu found
  | notifyCheck entry pdu =>
    simp only [run]
    split_ifs
    · exact ended pdu true
    · exact next entry pdu true
  | callbacksRemove | recordUnref | attribUnref | attUnref =>
    simp only [run, callbacksRemove, recordUnref, attribUnref, attUnref]
    split_ifs
    · exact h
    · exact h
  | rspDone | discPending | discDone | chanFree | discOp op => cases minor
  | callbacksDestroy | attribFree | unregisterAll | cancelAll | cancelPending | attFree =>
    cases minor
  | emit | handler | freeRequest | destroyOp | timeoutDone | callbacksFree | recordFree => exact h

namespace Awake

theorem new (mtu : Mtu) : (Link.new mtu).Awake := ⟨nofun, nofun, fun _ h => absurd rfl h⟩

/-- The requests stay where they are. -/
theorem mono (h : s.Awake) (hmtu : t.mtu = s.mtu) (hreq : t.reqQueue = s.reqQueue)
    (hpending : t.pendingReq = s.pendingReq)
    (hwriter : s.writerActive = true → t.writerActive = true) : t.Awake :=
  ⟨by rw [hmtu, hreq]; exact h.queued_le, by rw [hmtu, hpending]; exact h.pending_le,
    fun hp hq => hwriter (h.writer (hpending ▸ hp) (hreq ▸ hq))⟩

/-- The writer is woken up after the requests have changed. -/
theorem wakeupChanWriter (queued : ∀ op ∈ s.reqQueue, op.pdu.length ≤ s.mtu.buflen)
    (pending : ∀ op, s.pendingReq = some op → op.pdu.length ≤ s.mtu.buflen) :
    s.wakeupChanWriter.Awake := by
  refine ⟨queued, pending, fun hp hq => ?_⟩
  have hp : s.pendingReq = none := hp
  have hq : s.reqQueue ≠ [] := hq
  simp [Link.wakeupChanWriter, hp, hq]

/-- A request is queued. -/
theorem gAttribSend (h : s.Awake) (attached : s.attached = true) {pdu : Pdu}
    (isRequest : IsRequest s.mtu.buflen pdu) (owner : Nat) (proc : Proc) :
    (s.gAttribSend owner proc pdu).Awake := by
  rw [gAttribSend_attached attached isRequest]
  refine ⟨fun op hop => ?_, h.pending_le, fun hp _ => ?_⟩
  · rcases List.mem_append.mp hop with hop | hop
    · exact h.queued_le op hop
    · obtain rfl := List.mem_singleton.mp hop
      exact isRequest.length_le
  · have hp : s.pendingReq = none := hp
    simp [hp]

theorem runCallback (h : s.Awake) (attached : s.attached = true) (op : Op) (opcode : UInt8)
    (pdu : Pdu) : (s.runCallback op opcode pdu).Awake := by
  generalize htarget : s.runCallback op opcode pdu = t
  have called := calledBack s op opcode pdu
  rw [htarget] at called
  clear htarget
  cases called with
  | nobody => exact h
  | @goesOn addr owner proc next req hcb hreact continues =>
    obtain ⟨faults, huse⟩ := useResult_eq (s := s) addr owner proc
    rw [huse]
    have used : { s with faults := faults }.Awake := ⟨h.queued_le, h.pending_le, h.writer⟩
    have sent := used.gAttribSend attached continues.isRequest owner next
    dsimp only
    split_ifs
    · exact ⟨sent.queued_le, sent.pending_le, sent.writer⟩
    · exact sent
  | @isOver addr owner proc events hcb hreact =>
    obtain ⟨faults, huse⟩ := useResult_eq (s := s) addr owner proc
    rw [huse]
    exact ⟨h.queued_le, h.pending_le, h.writer⟩

/-- `can_write_data` -/
theorem canWriteData (h : s.Awake) (steady : s.Steady) {ret : Int} (hret : 0 < ret) :
    (s.canWriteData ret).Awake := by
  simp only [Link.canWriteData]
  split
  · rename_i hpick
    refine ⟨h.queued_le, h.pending_le, fun hp hq => ?_⟩
    -- a request that fits would have been picked
    have hp : s.pendingReq = none := hp
    obtain ⟨op, ops, hops⟩ := List.exists_cons_of_ne_nil hq
    have hops : s.reqQueue = op :: ops := hops
    have hle := h.queued_le op (hops ▸ List.mem_cons_self)
    cases hw : s.writeQueue with
    | nil => simp [pickNextSendOp, hw, pickRequest, hp, hops, hle] at hpick
    | cons w ws =>
      simp only [pickNextSendOp, hw] at hpick
      split_ifs at hpick
      simp [pickRequest, hp, hops, hle] at hpick
  · rename_i op t hpick
    rw [if_neg (by omega), if_pos hret]
    rcases pickNextSendOp_cases hpick with ⟨ops, hops, rfl⟩ | ⟨hpending, hle, ops, hops, rfl⟩
    · obtain ⟨-, htype, -⟩ := steady.writes op (hops ▸ List.mem_cons_self)
      split
      · exact absurd ‹_› htype
      · exact ⟨h.queued_le, h.pending_le, h.writer⟩
      · exact ⟨h.queued_le, h.pending_le, h.writer⟩
    · simp only [(steady.requests op (hops ▸ List.mem_cons_self)).type_eq]
      refine ⟨fun u hu => h.queued_le u (hops ▸ List.mem_cons_of_mem _ hu), fun u hu => ?_, by simp⟩
      obtain rfl := Option.some.inj hu
      exact hle

/-- `handle_rsp` -/
theorem handleRsp (h : s.Awake) (attached : s.attached = true) (opcode : UInt8) (pdu : Pdu)
    (security : Int) (setOk : Bool) : (s.handleRsp opcode pdu security setOk).Awake := by
  simp only [Link.handleRsp]
  split
  · exact ⟨h.queued_le, h.pending_le, h.writer⟩
  · rename_i op hp
    split_ifs
    · refine wakeupChanWriter (fun u hu => ?_) (by simp)
      rcases List.mem_cons.mp hu with rfl | hu
      · exact h.pending_le u hp
      · exact h.queued_le u hu
    · refine runCallback ?_ ?_ op _ _
      · exact ⟨h.queued_le, h.pending_le, h.writer⟩
      · exact attached

/-- `can_read_data` -/
theorem canReadData (h : s.Awake) (attached : s.attached = true) (bytes : Pdu) (security : Int)
    (setOk : Bool) : (s.canReadData bytes security setOk).Awake := by
  cases bytes with
  | nil => exact h
  | cons opcode pdu =>
    simp only [Link.canReadData, Link.handlePdu]
    split
    · refine handleRsp ?_ ?_ opcode pdu security setOk
      · exact ⟨h.queued_le, h.pending_le, h.writer⟩
      · exact attached
    · exact ⟨h.queued_le, h.pending_le, h.writer⟩
    · split_ifs
      · exact ⟨h.queued_le, h.pending_le, h.writer⟩
      · exact ⟨h.queued_le, h.pending_le, h.writer⟩
    · exact ⟨h.queued_le, h.pending_le, h.writer⟩

theorem resume (h : s.Awake) (steady : s.Steady) (alive : s.Alive) {code : Code}
    {rest : List Code} (htodo : s.todo = code :: rest) :
    ({ s with todo := rest }.run code).Awake := by
  have awake : { s with todo := rest }.Awake := ⟨h.queued_le, h.pending_le, h.writer⟩
  by_cases hminor : code.minor = true
  · have hrun := Minor.run (alive.ledger htodo) hminor alive.pos
      (Steady.not_last (alive.ledger htodo) steady.app)
    exact awake.mono hrun.mtu_eq hrun.reqQueue_eq hrun.pendingReq_eq (writerActive_run hminor)
  · have hcode := steady.codes code (htodo ▸ List.mem_cons_self)
    cases code with
    | emit source event => exact ⟨h.queued_le, h.pending_le, h.writer⟩
    | rspDone => exact wakeupChanWriter h.queued_le nofun
    | _ => first | exact absurd rfl hminor | cases hcode

/-- The writer is active when a request can be sent, after every undisturbed step. -/
theorem step (h : s.Awake) (steady : s.Steady) (alive : s.Alive) {label : Label}
    (undisturbed : Undisturbed label) (hstep : s.step label = some t) : t.Awake := by
  cases label with
  | call call =>
    obtain ⟨-, -, -, rfl⟩ := step_call hstep
    rw [call_eq (.inl steady.attached)]
    obtain ⟨prepared, hmtu, -⟩ := steady.prepared call
    refine gAttribSend ?_ prepared.attached (hmtu ▸ isRequest_begin s.mtu.le_buflen call) _ _
    cases call with
    | _ => exact ⟨h.queued_le, h.pending_le, h.writer⟩
  | listen =>
    obtain ⟨-, -, rfl⟩ := step_listen hstep
    simp only [listen]
    split_ifs
    · exact ⟨h.queued_le, h.pending_le, h.writer⟩
    · exact ⟨h.queued_le, h.pending_le, h.writer⟩
  | ret =>
    obtain ⟨todo, -, rfl⟩ := step_ret hstep
    exact ⟨h.queued_le, h.pending_le, h.writer⟩
  | resume =>
    obtain ⟨code, todo, htodo, -, rfl⟩ := step_resume hstep
    exact h.resume steady alive htodo
  | canWrite ret =>
    obtain ⟨-, -, rfl⟩ := step_canWrite hstep
    exact h.canWriteData steady undisturbed
  | canRead bytes security setOk =>
    obtain ⟨-, -, rfl⟩ := step_canRead hstep
    exact h.canReadData steady.attached bytes security setOk
  | drop | hup | timeout => cases undisturbed

end Awake

/-- A connection goes on while a request waits to be sent or answered. -/
theorem Awake.goesOn (h : s.Awake) (waiting : ¬ (s.pendingReq = none ∧ s.reqQueue = [])) :
    s.GoesOn := by
  by_contra hstop
  obtain ⟨-, hwriter, hp⟩ : s.todo = [] ∧ s.writerActive = false ∧ s.pendingReq = none := by
    simpa [GoesOn] using hstop
  refine waiting ⟨hp, ?_⟩
  by_contra hqueue
  exact Bool.false_ne_true (hwriter.symm.trans (h.writer hp hqueue))

/-- Undisturbed runs keep the writer active when a request can be sent. -/
theorem Awake.run {labels : List Label}
    (run : machine.Run (fun _ l => Undisturbed l) s labels t) (steady : s.Steady) (alive : s.Alive)
    (awake : s.Awake) : t.Awake := by
  obtain ⟨-, -, awake'⟩ := run.invariant (P := fun u => u.Steady ∧ u.Alive ∧ u.Awake)
    ⟨steady, alive, awake⟩ fun ⟨steady, alive, awake⟩ undisturbed hstep => by
      obtain ⟨steady', alive', -⟩ := steady.step alive undisturbed hstep
      exact ⟨steady', alive', awake.step steady alive undisturbed hstep⟩
  exact awake'

/-- **An undisturbed connection goes on** until its operations are finished. -/
theorem goesOn_of_run {labels : List Label}
    (run : machine.Run (fun _ l => Undisturbed l) (Link.new mtu) labels s)
    (unfinished : ¬ s.Finished o) : s.GoesOn := by
  have awake : s.Awake := Awake.run run (.new mtu) (.new mtu) (.new mtu)
  by_cases idle : s.pendingReq = none ∧ s.reqQueue = []
  swap
  · exact awake.goesOn idle
  obtain ⟨hp, hqueue⟩ := idle
  refine .inl fun htodo => unfinished ⟨fun op hop => ?_, fun c hc => ?_⟩
  · simp [hp, hqueue] at hop
  · simp [htodo] at hc

end Link

end Libble
