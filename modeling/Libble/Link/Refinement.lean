import Libble.Foundation.RequestPipeline
import Libble.Link.Alive

/-!
# The requests of a connection as a pipeline

As long as a connection is not disturbed by a link loss, a timeout, a socket write error or
`lble_disconnect`, its requests go through it as through a `Pipeline`: the queue is `req_queue`,
the pending request is `pending_req` until `handle_rsp` begins to end it, and the outputs of a
procedure are the events that have been delivered for it and those that are about to be.
Everything else that goes on at the connection (notifications, the release of records, the nesting
of the event handler) is invisible in the pipeline.

## Main definitions

* `Link.reactTo`: what the procedures of `bluez/attrib/gatt.c` do with the bytes of an answer.
* `Link.pipeline`: the pipeline that a connection is seen as.
* `Link.Steady`: the invariant of undisturbed connections.
* `Link.Mirrors`: the step of the pipeline that a step of the connection is.

## Main results

* `Link.Steady.step`: an undisturbed step is a step of the pipeline, or invisible.
* `Link.pipeline_run`: undisturbed runs are runs of the pipeline.
-/

namespace Libble

open Att Gatt

namespace Link

variable {s t : Link} {rest : List Code} {mtu : Mtu}

/-! ### The pipeline of a connection -/

/-- The request that an operation carries for a procedure. -/
def Op.task (op : Op) : Option (Task Pdu Proc) :=
  match op.cb with
  | some ⟨_, .result owner proc⟩ => some ⟨owner, op.pdu, proc⟩
  | _ => none

namespace Act

/-- The first request of a call. -/
def start (buflen : Nat) : Act → Option (Pdu × Proc)
  | called _ call => some (call.begin buflen)
  | _ => none

/-- A request that is sent, or its answer. -/
def exchange : Act → Option (Exchange Pdu Pdu)
  | sent (some owner) pdu => some (.sent owner pdu)
  | answered (some owner) req rsp => some (.answered owner req rsp)
  | _ => none

/-- An event for the procedure `o`. -/
def eventOf (o : Nat) : Act → Option Event
  | event (.procedure owner) e => if owner = o then some e else none
  | _ => none

theorem start_of_minor {buflen : Nat} {act : Act} (h : act.minor = true) :
    act.start buflen = none := by
  cases act <;> first | rfl | cases h

theorem exchange_of_minor {act : Act} (h : act.minor = true) : act.exchange = none := by
  rcases act with _ | ⟨_ | _, _⟩ | _ | ⟨_ | _, _, _⟩ | ⟨_ | _, _⟩ | _ <;> first | rfl | cases h

theorem eventOf_of_minor {act : Act} (h : act.minor = true) (o : Nat) : act.eventOf o = none := by
  rcases act with _ | _ | _ | _ | ⟨_ | _, _⟩ | _ <;> first | rfl | cases h

end Act

namespace Code

/-- An event for the procedure `o` that is about to be delivered. -/
def eventOf (o : Nat) : Code → Option Event
  | emit (.procedure owner) e => if owner = o then some e else none
  | _ => none

theorem eventOf_of_minor {code : Code} (h : code.minor = true) (o : Nat) :
    code.eventOf o = none := by
  rcases code with ⟨_ | _, _⟩ | _ | _ | _ | _ | _ | _ | _ | _ | _ | _ | _ | _ | _ | _ | _ | _ | _ |
    _ | _ | _ | _ | _ | _ | _ <;> first | rfl | cases h

theorem ends_of_minor {code : Code} (h : code.minor = true) : code.ends = 0 := by
  cases code <;> first | rfl | cases h

end Code

/-- The pipeline that the connection is seen as. -/
def pipeline (s : Link) : Pipeline Pdu Pdu Proc Event where
  started := s.log.filterMap (Act.start s.mtu.buflen)
  queue := s.reqQueue.filterMap Op.task
  pending := if tally Code.ends s.todo = 0 then s.pendingReq.bind Op.task else none
  history := s.log.filterMap Act.exchange
  outputs o := s.log.filterMap (Act.eventOf o) ++ s.todo.filterMap (Code.eventOf o)

/-- What a procedure does, as a turn of the pipeline. -/
def turnOf : Reaction → Turn Pdu Proc Event
  | .send pdu next => .next pdu next
  | .finish events => .done events

/-- What a procedure does with the bytes of a response: `handle_rsp` compares it with the request,
and `attrib_callback_result` makes a status of it. -/
def reactTo (buflen : Nat) (req : Pdu) (proc : Proc) (rsp : Pdu) : Turn Pdu Proc Event :=
  let r := responseOf (byteAt req 0) (byteAt rsp 0) (rsp.drop 1)
  turnOf (react buflen proc (statusOf r.1 r.2) (r.1 :: r.2))

/-- Steps that no procedure notices are invisible in the pipeline. -/
theorem Minor.pipeline_eq (h : Minor s t) : t.pipeline = s.pipeline := by
  obtain ⟨acts, hlog, hacts⟩ := h.log
  obtain ⟨codes, htodo, hcodes⟩ := h.todo
  have hstart : acts.filterMap (Act.start s.mtu.buflen) = [] :=
    List.filterMap_eq_nil_iff.mpr fun a ha => Act.start_of_minor (hacts a ha)
  have hexchange : acts.filterMap Act.exchange = [] :=
    List.filterMap_eq_nil_iff.mpr fun a ha => Act.exchange_of_minor (hacts a ha)
  have hevents : ∀ o, acts.filterMap (Act.eventOf o) = [] :=
    fun o => List.filterMap_eq_nil_iff.mpr fun a ha => Act.eventOf_of_minor (hacts a ha) o
  have hends : tally Code.ends codes = 0 :=
    tally_eq_zero fun c hc => Code.ends_of_minor (hcodes c hc)
  have hemits : ∀ o, codes.filterMap (Code.eventOf o) = [] :=
    fun o => List.filterMap_eq_nil_iff.mpr fun c hc => Code.eventOf_of_minor (hcodes c hc) o
  simp only [pipeline, h.mtu_eq, h.reqQueue_eq, h.pendingReq_eq, hlog, htodo, List.filterMap_append,
    tally_append, hstart, hexchange, hevents, hends, hemits, List.append_nil, List.nil_append,
    Nat.zero_add]

/-- Code that no procedure notices is invisible in the pipeline. -/
theorem pipeline_pop {code : Code} (htodo : s.todo = code :: rest) (minor : code.minor = true) :
    { s with todo := rest }.pipeline = s.pipeline := by
  have hends : tally Code.ends s.todo = tally Code.ends rest := by
    rw [htodo, tally_cons, Code.ends_of_minor minor, Nat.zero_add]
  have hemits : ∀ o, s.todo.filterMap (Code.eventOf o) = rest.filterMap (Code.eventOf o) := by
    intro o
    rw [htodo, List.filterMap_cons_none (Code.eventOf_of_minor minor o)]
  simp only [pipeline, hends, hemits]

/-! ### Undisturbed connections -/

/-- The step is none of a link loss, a timeout, a socket write error and `lble_disconnect`. -/
def Undisturbed : Label → Prop
  | .drop | .hup | .timeout => False
  | .canWrite ret => 0 < ret
  | _ => True

instance (label : Label) : Decidable (Undisturbed label) := by
  cases label <;> unfold Undisturbed <;> infer_instance

/-- Code that runs on an undisturbed connection. -/
def Code.steady : Code → Bool
  | .emit .. | .rspDone => true
  | code => code.minor

theorem Code.steady_of_minor {code : Code} (h : code.minor = true) : code.steady = true := by
  cases code <;> first | rfl | exact h

/-- The operation is a request for a procedure. -/
structure Op.Requests (op : Op) : Prop where
  type_eq : op.type = .req
  opType : getOpType (byteAt op.pdu 0) = .req
  task : op.task.isSome = true

theorem Op.Requests.exists_cb {op : Op} (h : op.Requests) :
    ∃ addr owner proc, op.cb = some ⟨addr, .result owner proc⟩ := by
  have htask := h.task
  rcases hcb : op.cb with - | ⟨addr, ⟨owner, proc⟩ | -⟩
  · simp [Op.task, hcb] at htask
  · exact ⟨addr, owner, proc, rfl⟩
  · simp [Op.task, hcb] at htask

/-- What is written is a request if and only if it is written for a procedure. -/
def Regular (log : List Act) : Prop :=
  ∀ owner pdu, .sent owner pdu ∈ log → (owner.isSome = true ↔ getOpType (byteAt pdu 0) = .req)

theorem Regular.append {log acts : List Act} (h : Regular log) (h' : Regular acts) :
    Regular (log ++ acts) := by
  intro owner pdu hmem
  rcases List.mem_append.mp hmem with hmem | hmem
  · exact h owner pdu hmem
  · exact h' owner pdu hmem

theorem regular_of_minor {acts : List Act} (h : ∀ a ∈ acts, a.minor = true) : Regular acts := by
  intro owner pdu hmem
  have hminor := h _ hmem
  cases owner with
  | none => simpa [Act.minor] using hminor
  | some owner => cases hminor

/-- The invariant of undisturbed connections. -/
structure Steady (s : Link) : Prop where
  app : s.app = true
  attached : s.attached = true
  /-- The calls have the names of their places in the log. -/
  named : (s.log.filterMap (Act.start s.mtu.buflen)).length = s.nextOwner
  /-- The queued requests and the pending one belong to procedures. -/
  requests : ∀ op ∈ s.reqQueue, op.Requests
  pending : ∀ op, s.pendingReq = some op → op.Requests
  /-- Nothing else that is written does. -/
  writes : ∀ op ∈ s.writeQueue, op.cb = none ∧ op.type ≠ .req ∧ getOpType (byteAt op.pdu 0) ≠ .req
  sent : Regular s.log
  codes : ∀ c ∈ s.todo, c.steady = true

namespace Steady

/-- A new connection is undisturbed. -/
theorem new (mtu : Mtu) : (Link.new mtu).Steady :=
  ⟨rfl, rfl, rfl, nofun, nofun, nofun, nofun, nofun⟩

/-- Steps that no procedure notices keep a connection undisturbed. -/
theorem minor (h : s.Steady) (step : Minor s t) : t.Steady := by
  obtain ⟨acts, hlog, hacts⟩ := step.log
  obtain ⟨codes, htodo, hcodes⟩ := step.todo
  refine ⟨step.app_eq.trans h.app, step.attached_eq.trans h.attached, ?_, ?_, ?_,
    fun op hop => ?_, ?_, fun c hc => ?_⟩
  · have hstart : acts.filterMap (Act.start s.mtu.buflen) = [] :=
      List.filterMap_eq_nil_iff.mpr fun a ha => Act.start_of_minor (hacts a ha)
    rw [hlog, step.mtu_eq, List.filterMap_append, hstart, List.append_nil, step.nextOwner_eq]
    exact h.named
  · rw [step.reqQueue_eq]
    exact h.requests
  · rw [step.pendingReq_eq]
    exact h.pending
  · rcases step.writeQueue op hop with hop | hop
    · exact h.writes op hop
    · exact hop
  · rw [hlog]
    exact h.sent.append (regular_of_minor hacts)
  · rw [htodo] at hc
    rcases List.mem_append.mp hc with hc | hc
    · exact Code.steady_of_minor (hcodes c hc)
    · exact h.codes c hc

end Steady

/-! ### The steps of the pipeline -/

/-- The step of the pipeline that a step of the connection is. -/
inductive Mirrors (buflen : Nat) : Label → Pipeline.Label Pdu Pdu Proc → Prop
  | call (call : Call) :
    Mirrors buflen (.call call) (.submit (call.begin buflen).1 (call.begin buflen).2)
  | send (ret : Int) : Mirrors buflen (.canWrite ret) .send
  | answer {bytes : Pdu} {security : Int} {setOk : Bool}
      (type : getOpType (byteAt bytes 0) = .rsp)
      (accepted : retries (byteAt bytes 0) (bytes.drop 1) security setOk = false) :
    Mirrors buflen (.canRead bytes security setOk) (.answer bytes)
  | retry {bytes : Pdu} {security : Int} {setOk : Bool}
      (type : getOpType (byteAt bytes 0) = .rsp)
      (again : retries (byteAt bytes 0) (bytes.drop 1) security setOk = true) :
    Mirrors buflen (.canRead bytes security setOk) (.retry bytes)

/-- What an undisturbed step is in the pipeline. -/
def Mirrored (s t : Link) (label : Label) : Prop :=
  t.pipeline = s.pipeline ∨ ∃ l, Mirrors s.mtu.buflen label l ∧
    Pipeline.step (reactTo s.mtu.buflen) s.pipeline l = some t.pipeline

namespace Steady

/-- A request for a procedure is sent. -/
theorem gAttribSend (h : s.Steady) (owner : Nat) (proc : Proc) {pdu : Pdu}
    (isRequest : IsRequest s.mtu.buflen pdu) :
    (s.gAttribSend owner proc pdu).Steady ∧ (s.gAttribSend owner proc pdu).mtu = s.mtu ∧
      (s.gAttribSend owner proc pdu).pipeline =
        { s.pipeline with queue := s.pipeline.queue ++ [⟨owner, pdu, proc⟩] } := by
  rw [gAttribSend_attached h.attached isRequest]
  refine ⟨⟨h.app, h.attached, h.named, fun op hop => ?_, h.pending, h.writes, h.sent,
    h.codes⟩, rfl, ?_⟩
  · rcases List.mem_append.mp hop with hop | hop
    · exact h.requests op hop
    · obtain rfl := List.mem_singleton.mp hop
      exact ⟨rfl, isRequest.type, rfl⟩
  · simp only [pipeline, List.filterMap_append]
    rfl

/-- A call takes the next name. -/
theorem prepared (h : s.Steady) (call : Call) :
    (s.prepared call).Steady ∧ (s.prepared call).mtu = s.mtu ∧
      (s.prepared call).pipeline =
        { s.pipeline with
          started := s.pipeline.started ++ [call.begin s.mtu.buflen] } := by
  have hlog : (s.prepared call).log = s.log ++ [.called s.nextOwner call] := by
    cases call <;> rfl
  have hmtu : (s.prepared call).mtu = s.mtu := by cases call <;> rfl
  have hreq : (s.prepared call).reqQueue = s.reqQueue := by cases call <;> rfl
  have hpending : (s.prepared call).pendingReq = s.pendingReq := by cases call <;> rfl
  have htodo : (s.prepared call).todo = s.todo := by cases call <;> rfl
  have hwrite : (s.prepared call).writeQueue = s.writeQueue := by cases call <;> rfl
  have hnext : (s.prepared call).nextOwner = s.nextOwner + 1 := by cases call <;> rfl
  have happ : (s.prepared call).app = s.app := by cases call <;> rfl
  have hattached : (s.prepared call).attached = s.attached := by cases call <;> rfl
  have hstart : [Act.called s.nextOwner call].filterMap (Act.start s.mtu.buflen) =
    [call.begin s.mtu.buflen] := rfl
  have hexchange : [Act.called s.nextOwner call].filterMap Act.exchange = [] := rfl
  have hevents : ∀ o, [Act.called s.nextOwner call].filterMap (Act.eventOf o) = [] := fun _ => rfl
  refine ⟨⟨happ.trans h.app, hattached.trans h.attached, ?_, hreq ▸ h.requests,
    hpending ▸ h.pending, hwrite ▸ h.writes, ?_, htodo ▸ h.codes⟩, hmtu, ?_⟩
  · rw [hlog, hmtu, List.filterMap_append, hstart, List.length_append, h.named, hnext]
    rfl
  · rw [hlog]
    exact h.sent.append (by simp [Regular])
  · simp only [pipeline, hmtu, hreq, hpending, htodo, hlog, List.filterMap_append, hstart,
      hexchange, hevents, List.append_nil]

/-- A call submits its first request. -/
theorem call (h : s.Steady) (call : Call) :
    (s.call call).Steady ∧ (s.call call).mtu = s.mtu ∧ (s.call call).pipeline =
      s.pipeline.submit (call.begin s.mtu.buflen).1 (call.begin s.mtu.buflen).2 := by
  obtain ⟨steady, hmtu, hpipeline⟩ := h.prepared call
  have isRequest : IsRequest (s.prepared call).mtu.buflen (call.begin s.mtu.buflen).1 :=
    hmtu ▸ isRequest_begin s.mtu.le_buflen call
  rw [call_eq (.inl h.attached)]
  obtain ⟨steady', hmtu', hpipeline'⟩ := steady.gAttribSend s.nextOwner
    (call.begin s.mtu.buflen).2 isRequest
  refine ⟨steady', hmtu'.trans hmtu, ?_⟩
  rw [hpipeline', hpipeline]
  have hlength : s.pipeline.started.length = s.nextOwner := h.named
  simp only [Pipeline.submit, hlength]

/-- The reference of the handle is not the last one that is given back. -/
theorem not_last {code : Code} (h : s.Ledger (code :: rest)) (app : s.app = true)
    (hcode : code = .attribUnref) : s.attribRef ≠ 1 := by
  obtain ⟨live, -, -, hlive⟩ := h.attribRef_eq
  rw [app, Bool.toNat_true, hcode, tally_cons, isOne_self] at hlive
  omega

/-- The library runs on. -/
theorem resume (h : s.Steady) (alive : s.Alive) {code : Code} (htodo : s.todo = code :: rest) :
    ({ s with todo := rest }.run code).Steady ∧ ({ s with todo := rest }.run code).mtu = s.mtu ∧
      ({ s with todo := rest }.run code).pipeline = s.pipeline := by
  have ledger := alive.ledger htodo
  have codes : ∀ c ∈ rest, c.steady = true :=
    fun c hc => h.codes c (htodo ▸ List.mem_cons_of_mem _ hc)
  have steady : { s with todo := rest }.Steady :=
    ⟨h.app, h.attached, h.named, h.requests, h.pending, h.writes, h.sent, codes⟩
  by_cases hminor : code.minor = true
  · have hrun := Minor.run ledger hminor alive.pos (not_last ledger h.app)
    exact ⟨steady.minor hrun, hrun.mtu_eq, hrun.pipeline_eq.trans (pipeline_pop htodo hminor)⟩
  · have hcode := h.codes code (htodo ▸ List.mem_cons_self)
    cases code with
    | emit source event =>
      cases source with
      | notification => exact absurd rfl hminor
      | procedure owner =>
        refine ⟨⟨h.app, h.attached, ?_, h.requests, h.pending, h.writes,
          h.sent.append (by simp [Regular]), fun c hc => ?_⟩, rfl, ?_⟩
        · rw [← h.named]
          exact congrArg List.length (List.filterMap_append.trans (List.append_nil _))
        · rcases List.mem_cons.mp hc with rfl | hc
          · rfl
          · exact codes c hc
        · -- the event moves from the suspended code to the log
          have hemit : ∀ o, [Act.event (.procedure owner) event].filterMap (Act.eventOf o) ++
              (Code.handler :: rest).filterMap (Code.eventOf o) =
                s.todo.filterMap (Code.eventOf o) := by
            intro o
            rw [htodo, List.filterMap_cons_none (a := Code.handler) rfl]
            by_cases ho : owner = o
            · simp [Act.eventOf, Code.eventOf, ho]
            · simp [Act.eventOf, Code.eventOf, ho]
          have hstart : [Act.event (.procedure owner) event].filterMap
            (Act.start s.mtu.buflen) = [] := rfl
          have hexchange : [Act.event (.procedure owner) event].filterMap Act.exchange = [] := rfl
          have hends : tally Code.ends (Code.handler :: rest) = tally Code.ends s.todo := by
            rw [htodo]
            rfl
          simp only [pipeline, Link.run, Link.record, Link.push, List.filterMap_append,
            List.append_assoc, List.cons_append, List.nil_append, hemit, hstart, hexchange, hends,
            List.append_nil]
    | rspDone =>
      refine ⟨⟨h.app, h.attached, h.named, h.requests, ?_, h.writes, h.sent, codes⟩, rfl, ?_⟩
      · rintro op ⟨⟩
      have hends : tally Code.ends s.todo ≠ 0 := by
        rw [htodo, tally_cons, Code.ends]
        omega
      have hemits : ∀ o, s.todo.filterMap (Code.eventOf o) = rest.filterMap (Code.eventOf o) := by
        intro o
        rw [htodo, List.filterMap_cons_none (a := Code.rspDone) rfl]
      refine Pipeline.ext rfl rfl ?_ rfl (funext fun o => congrArg _ (hemits o).symm)
      exact (ite_self _).trans (if_neg hends).symm
    | _ => first | exact absurd rfl hminor | cases hcode

/-- `can_write_data` -/
theorem canWriteData (h : s.Steady) (hidle : s.todo = []) {ret : Int} (hret : 0 < ret) :
    (s.canWriteData ret).Steady ∧ (s.canWriteData ret).mtu = s.mtu ∧
      Mirrored s (s.canWriteData ret) (.canWrite ret) := by
  simp only [Link.canWriteData]
  split
  · exact ⟨h.minor (.counters ..), rfl, .inl (Minor.counters ..).pipeline_eq⟩
  · rename_i op t hpick
    rw [if_neg (by omega), if_pos hret]
    rcases pickNextSendOp_cases hpick with ⟨ops, hops, rfl⟩ | ⟨hpending, -, ops, hops, rfl⟩
    · -- what is written has no owner
      obtain ⟨hcb, htype, hopType⟩ := h.writes op (hops ▸ List.mem_cons_self)
      have howner : op.owner = none := by rw [Op.owner, hcb]
      have hminor : Minor s { s with writeQueue := ops } :=
        { Minor.refl s with
          writeQueue := fun o ho => .inl (hops ▸ List.mem_cons_of_mem _ ho) }
      have hwritten := (hminor.trans (.record _ [.sent op.owner op.pdu] (by
        simp [howner, Act.minor, hopType]))).trans (.push _ [.destroyOp op] (by
        simp [Code.minor]))
      have hdone : ∀ u, Minor s u → u.Steady ∧ u.mtu = s.mtu ∧ Mirrored s u (.canWrite ret) :=
        fun u hu => ⟨h.minor hu, hu.mtu_eq, .inl hu.pipeline_eq⟩
      split
      · exact absurd ‹_› htype
      · exact hdone _ (hwritten.trans (.counters ..))
      · exact hdone _ hwritten
    · obtain ⟨htype, hopType, htask⟩ := h.requests op (hops ▸ List.mem_cons_self)
      obtain ⟨task, htask⟩ := Option.isSome_iff_exists.mp htask
      have howner : op.owner = some task.owner ∧ task.req = op.pdu := by
        rcases hcb : op.cb with - | ⟨addr, ⟨owner, proc⟩ | -⟩
        · simp [Op.task, hcb] at htask
        · simp only [Op.task, hcb, Option.some.injEq] at htask
          subst htask
          exact ⟨by rw [Op.owner, hcb], rfl⟩
        · simp [Op.task, hcb] at htask
      simp only [htype]
      refine ⟨⟨h.app, h.attached, ?_, fun o ho => h.requests o (hops ▸ List.mem_cons_of_mem _ ho),
        fun o ho => ?_, h.writes, h.sent.append ?_, h.codes⟩, rfl, .inr ⟨_, .send ret, ?_⟩⟩
      · rw [← h.named]
        exact congrArg List.length (List.filterMap_append.trans (List.append_nil _))
      · obtain rfl := Option.some.inj ho
        exact ⟨htype, hopType, htask ▸ rfl⟩
      · simp [Regular, howner.1, hopType]
      · have hstart : [Act.sent op.owner op.pdu].filterMap (Act.start s.mtu.buflen) = [] := rfl
        have hexchange : [Act.sent op.owner op.pdu].filterMap Act.exchange =
            [.sent task.owner task.req] := by
          rw [howner.1, howner.2]
          rfl
        have hevents : ∀ o, [Act.sent op.owner op.pdu].filterMap (Act.eventOf o) = [] :=
          fun _ => rfl
        simp only [Pipeline.step, pipeline, Pipeline.send, Link.record, hidle, hpending, hops,
          List.filterMap_append, hstart, hexchange, hevents, List.append_nil,
          List.filterMap_cons_some htask, Option.bind_none, Option.bind_some, htask, ite_self,
          tally_nil, if_true]

/-- The callback of a request is called while no event is about to be delivered. -/
theorem runCallback (h : s.Steady) (hemits : ∀ o, s.todo.filterMap (Code.eventOf o) = [])
    {op : Op} {addr owner : Nat} {proc : Proc} (hcb : op.cb = some ⟨addr, .result owner proc⟩)
    (opcode : UInt8) (pdu : Pdu) :
    (s.runCallback op opcode pdu).Steady ∧ (s.runCallback op opcode pdu).mtu = s.mtu ∧
      (s.runCallback op opcode pdu).pipeline =
        match react s.mtu.buflen proc (statusOf opcode pdu) (opcode :: pdu) with
        | .send req next =>
          { s.pipeline with queue := s.pipeline.queue ++ [⟨owner, req, next⟩] }
        | .finish events =>
          { s.pipeline with
            outputs := Function.update s.pipeline.outputs owner
              (s.pipeline.outputs owner ++ events) } := by
  obtain ⟨faults, huse⟩ := useResult_eq (s := s) addr owner proc
  have used : Minor s (s.useResult addr owner proc) := by
    rw [huse]
    exact { Minor.refl s with }
  have steady := h.minor used
  have hmtu := used.mtu_eq
  generalize htarget : s.runCallback op opcode pdu = t
  have called := calledBack s op opcode pdu
  rw [htarget] at called
  clear htarget
  cases called with
  | nobody hnobody => exact absurd hcb (hnobody addr owner proc)
  | goesOn hcb' hreact continues =>
    obtain ⟨rfl, hclient⟩ := Cb.mk.inj (Option.some.inj (hcb.symm.trans hcb'))
    obtain ⟨rfl, rfl⟩ := Client.result.inj hclient
    rename_i next req
    obtain ⟨steady', hmtu', hpipeline'⟩ := steady.gAttribSend owner next
      (hmtu ▸ continues.isRequest)
    have result : ∀ v, Minor ((s.useResult addr owner proc).gAttribSend owner next req) v →
        v.Steady ∧ v.mtu = s.mtu ∧ v.pipeline =
          { s.pipeline with queue := s.pipeline.queue ++ [⟨owner, req, next⟩] } := by
      intro v hv
      refine ⟨steady'.minor hv, hv.mtu_eq.trans (hmtu'.trans hmtu), ?_⟩
      rw [hv.pipeline_eq, hpipeline', used.pipeline_eq]
    rw [hreact]
    dsimp only
    split
    · exact result _ { Minor.refl _ with }
    · exact result _ (.refl _)
  | isOver hcb' hreact =>
    obtain ⟨rfl, hclient⟩ := Cb.mk.inj (Option.some.inj (hcb.symm.trans hcb'))
    obtain ⟨rfl, rfl⟩ := Client.result.inj hclient
    rename_i events
    rw [hreact, huse]
    set codes : List Code := events.map (.emit (.procedure owner)) ++
      if proc.isRead then [.freeRequest owner] else [] with hcodes
    have hfree : ∀ o, (if proc.isRead then [Code.freeRequest owner] else []).filterMap
        (Code.eventOf o) = [] := by
      intro o
      split <;> rfl
    have houts : ∀ o, codes.filterMap (Code.eventOf o) = if owner = o then events else [] := by
      intro o
      rw [hcodes, List.filterMap_append, hfree, List.append_nil, List.filterMap_map]
      by_cases ho : owner = o
      · rw [if_pos ho]
        exact (List.filterMap_congr fun e _ => if_pos ho).trans List.filterMap_some
      · rw [if_neg ho]
        exact List.filterMap_eq_nil_iff.mpr fun e _ => if_neg ho
    have hsteady : ∀ c ∈ codes, c.steady = true ∧ c.ends = 0 := by
      intro c hc
      rcases List.mem_append.mp hc with hc | hc
      · obtain ⟨e, -, rfl⟩ := List.mem_map.mp hc
        exact ⟨rfl, rfl⟩
      · split at hc
        · obtain rfl := List.mem_singleton.mp hc
          exact ⟨rfl, rfl⟩
        · cases hc
    have hends : tally Code.ends (codes ++ s.todo) = tally Code.ends s.todo := by
      rw [tally_append, tally_eq_zero fun c hc => (hsteady c hc).2, Nat.zero_add]
    refine ⟨⟨h.app, h.attached, h.named, h.requests, h.pending, h.writes, h.sent, fun c hc => ?_⟩,
      rfl, Pipeline.ext rfl rfl ?_ rfl (funext fun o => ?_)⟩
    · rcases List.mem_append.mp hc with hc | hc
      · exact (hsteady c hc).1
      · exact h.codes c hc
    · simp only [pipeline, push, hends]
    · simp only [pipeline, push, List.filterMap_append, houts, hemits, List.append_nil]
      by_cases ho : owner = o
      · subst ho
        rw [if_pos rfl, Function.update_self]
      · rw [if_neg ho, List.append_nil, Function.update_of_ne (Ne.symm ho)]

/-- The pending request is answered. -/
theorem handleRsp (h : s.Steady) (minor : ∀ c ∈ s.todo, c.minor = true) (opcode : UInt8)
    (pdu : Pdu) (security : Int) (setOk : Bool) (type : getOpType opcode = .rsp) :
    (s.handleRsp opcode pdu security setOk).Steady ∧
      (s.handleRsp opcode pdu security setOk).mtu = s.mtu ∧
      Mirrored s (s.handleRsp opcode pdu security setOk)
        (.canRead (opcode :: pdu) security setOk) := by
  have hends : tally Code.ends s.todo = 0 :=
    tally_eq_zero fun c hc => Code.ends_of_minor (minor c hc)
  have hemits : ∀ o, s.todo.filterMap (Code.eventOf o) = [] :=
    fun o => List.filterMap_eq_nil_iff.mpr fun c hc => Code.eventOf_of_minor (minor c hc) o
  simp only [Link.handleRsp]
  split
  · have shut : Minor s (s.record [.ioShutdown]) := .record s _ (by simp [Act.minor])
    exact ⟨h.minor shut, rfl, .inl shut.pipeline_eq⟩
  · rename_i op hp
    obtain ⟨addr, owner, proc, hcb⟩ := (h.pending op hp).exists_cb
    have hpending : s.pipeline.pending = some ⟨owner, op.pdu, proc⟩ := by
      simp [pipeline, hends, hp, Op.task, hcb]
    have howner : op.owner = some owner := by rw [Op.owner, hcb]
    have hstarted : (s.log ++ [Act.answered op.owner op.pdu (opcode :: pdu)]).filterMap
        (Act.start s.mtu.buflen) = s.log.filterMap (Act.start s.mtu.buflen) :=
      List.filterMap_append.trans (List.append_nil _)
    have hhistory : (s.log ++ [Act.answered op.owner op.pdu (opcode :: pdu)]).filterMap
        Act.exchange = s.log.filterMap Act.exchange ++
          [.answered owner op.pdu (opcode :: pdu)] := by
      rw [List.filterMap_append, howner]
      rfl
    have hevents : ∀ o, (s.log ++ [Act.answered op.owner op.pdu (opcode :: pdu)]).filterMap
        (Act.eventOf o) = s.log.filterMap (Act.eventOf o) :=
      fun _ => List.filterMap_append.trans (List.append_nil _)
    have hnamed := (congrArg List.length hstarted).trans h.named
    have hsent : Regular (s.log ++ [.answered op.owner op.pdu (opcode :: pdu)]) :=
      h.sent.append (by simp [Regular])
    split
    · rename_i again
      refine ⟨⟨h.app, h.attached, hnamed, fun o ho => ?_, ?_, h.writes, hsent, h.codes⟩, rfl,
        .inr ⟨_, .retry type again, ?_⟩⟩
      · rcases List.mem_cons.mp ho with rfl | ho
        · exact h.pending o hp
        · exact h.requests o ho
      · rintro op ⟨⟩
      · refine (congrArg (Option.map _) hpending).trans (congrArg some ?_)
        refine Pipeline.ext ?_ ?_ (ite_self _).symm ?_ (funext fun o => ?_)
        · exact hstarted.symm
        · exact (List.filterMap_cons_some (by rw [Op.task, hcb])).symm
        · exact hhistory.symm
        · exact congrArg (· ++ s.todo.filterMap (Code.eventOf o)) (hevents o).symm
    · rename_i accepted
      generalize hv : (s.record [.answered op.owner op.pdu (opcode :: pdu)]).push
        [.destroyOp op, .rspDone] = v
      have hvtodo : v.todo = .destroyOp op :: .rspDone :: s.todo := by
        rw [← hv]
        rfl
      have hvsteady : v.Steady := by
        rw [← hv]
        refine ⟨h.app, h.attached, hnamed, h.requests, h.pending, h.writes, hsent, fun c hc => ?_⟩
        simp only [push, record, List.cons_append, List.nil_append, List.mem_cons] at hc
        rcases hc with rfl | rfl | hc
        · rfl
        · rfl
        · exact h.codes c hc
      have hvmtu : v.mtu = s.mtu := by
        rw [← hv]
        rfl
      have hvemits : ∀ o, v.todo.filterMap (Code.eventOf o) = [] := by
        intro o
        rw [hvtodo]
        exact hemits o
      have hvpipeline : v.pipeline = { s.pipeline with
          pending := none
          history := s.pipeline.history ++ [.answered owner op.pdu (opcode :: pdu)] } := by
        have hvends : tally Code.ends v.todo ≠ 0 := by
          rw [hvtodo]
          simp [Code.ends]
        refine Pipeline.ext ?_ ?_ (if_neg hvends) ?_ (funext fun o => ?_)
        · rw [← hv]
          exact hstarted
        · rw [← hv]
          rfl
        · rw [← hv]
          exact hhistory
        · show v.log.filterMap _ ++ v.todo.filterMap _ = s.log.filterMap _ ++ s.todo.filterMap _
          rw [hvemits, hemits, ← hv]
          exact congrArg (· ++ []) (hevents o)
      obtain ⟨steady', hmtu', hpipeline'⟩ := hvsteady.runCallback hvemits hcb
        (responseOf (byteAt op.pdu 0) opcode pdu).1 (responseOf (byteAt op.pdu 0) opcode pdu).2
      refine ⟨steady', hmtu'.trans hvmtu, .inr ⟨_, .answer type (eq_false_of_ne_true accepted), ?_⟩⟩
      refine (congrArg (Option.map _) hpending).trans (congrArg some ?_)
      rw [hpipeline', hvpipeline, hvmtu]
      have hreact : reactTo s.mtu.buflen op.pdu proc (opcode :: pdu) =
          turnOf (react s.mtu.buflen proc
            (statusOf (responseOf (byteAt op.pdu 0) opcode pdu).1
              (responseOf (byteAt op.pdu 0) opcode pdu).2)
            ((responseOf (byteAt op.pdu 0) opcode pdu).1 ::
              (responseOf (byteAt op.pdu 0) opcode pdu).2)) := rfl
      dsimp only
      rw [hreact]
      cases react s.mtu.buflen proc _ _ <;> rfl

/-- `can_read_data` -/
theorem canReadData (h : s.Steady) (hidle : s.todo = []) (bytes : Pdu) (security : Int)
    (setOk : Bool) :
    (s.canReadData bytes security setOk).Steady ∧
      (s.canReadData bytes security setOk).mtu = s.mtu ∧
      Mirrored s (s.canReadData bytes security setOk) (.canRead bytes security setOk) := by
  cases bytes with
  | nil => exact ⟨h, rfl, .inl rfl⟩
  | cons opcode pdu =>
    rw [Link.canReadData]
    generalize hu : { (s.record [.received (opcode :: pdu)]).push [.attUnref] with
      attRef := s.attRef + 1 } = u
    have received : Minor s u := by
      rw [← hu]
      exact { Minor.refl s with
        log := ⟨[.received (opcode :: pdu)], rfl, by simp [Act.minor]⟩
        todo := ⟨[.attUnref], rfl, by simp [Code.minor]⟩ }
    have hminor : ∀ c ∈ u.todo, c.minor = true := by
      intro c hc
      rw [← hu] at hc
      simp only [Link.push, Link.record, hidle, List.append_nil, List.mem_singleton] at hc
      exact hc ▸ rfl
    have steady : u.Steady := h.minor received
    have invisible : ∀ v, Minor u v → v.Steady ∧ v.mtu = s.mtu ∧
        Mirrored s v (.canRead (opcode :: pdu) security setOk) :=
      fun v hv => ⟨steady.minor hv, hv.mtu_eq.trans received.mtu_eq,
        .inl (hv.pipeline_eq.trans received.pipeline_eq)⟩
    have shut : ∀ v : Link, Minor v (v.record [.ioShutdown]) :=
      fun v => .record v _ (by simp [Act.minor])
    have notified : ∀ (v : Link) (bytes : Pdu), Minor v (v.handleNotify bytes) :=
      fun v bytes => { Minor.refl v with todo := ⟨[_], rfl, by simp [Code.minor]⟩ }
    simp only [Link.handlePdu]
    split
    · rename_i type
      obtain ⟨steady', hmtu', hmirrored⟩ := steady.handleRsp hminor opcode pdu security setOk type
      refine ⟨steady', hmtu'.trans received.mtu_eq, ?_⟩
      rwa [Mirrored, received.pipeline_eq, received.mtu_eq] at hmirrored
    · exact invisible _ (shut u)
    · split
      · exact invisible _ (shut u)
      · exact invisible _ ((Minor.counters ..).trans (notified { u with inReq := true } _))
    · exact invisible _ (notified u _)

/-- **An undisturbed step is a step of the pipeline, or invisible.** -/
theorem step {label : Label} (h : s.Steady) (alive : s.Alive) (undisturbed : Undisturbed label)
    (hstep : s.step label = some t) :
    t.Steady ∧ t.Alive ∧ t.mtu = s.mtu ∧ Mirrored s t label := by
  have balanced := alive.balanced_step hstep fun _ _ => h.attached
  have main : t.Steady ∧ t.mtu = s.mtu ∧ Mirrored s t label := by
    cases label with
    | call call =>
      obtain ⟨-, -, -, rfl⟩ := step_call hstep
      obtain ⟨steady, hmtu, hpipeline⟩ := h.call call
      exact ⟨steady, hmtu, .inr ⟨_, .call call, congrArg some hpipeline.symm⟩⟩
    | listen =>
      obtain ⟨-, -, rfl⟩ := step_listen hstep
      have hminor : Minor s s.listen := by
        rw [Link.listen]
        split
        · exact { Minor.refl s with }
        · exact { Minor.refl s with }
      exact ⟨h.minor hminor, hminor.mtu_eq, .inl hminor.pipeline_eq⟩
    | ret =>
      obtain ⟨todo, htodo, rfl⟩ := step_ret hstep
      refine ⟨⟨h.app, h.attached, h.named, h.requests, h.pending, h.writes, h.sent,
        fun c hc => ?_⟩, rfl, .inl (pipeline_pop htodo rfl)⟩
      exact h.codes c (htodo ▸ List.mem_cons_of_mem _ hc)
    | resume =>
      obtain ⟨code, todo, htodo, -, rfl⟩ := step_resume hstep
      obtain ⟨steady, hmtu, hpipeline⟩ := h.resume alive htodo
      exact ⟨steady, hmtu, .inl hpipeline⟩
    | canWrite ret =>
      obtain ⟨⟨hidle, -⟩, -, rfl⟩ := step_canWrite hstep
      exact h.canWriteData hidle undisturbed
    | canRead bytes security setOk =>
      obtain ⟨⟨hidle, -⟩, -, rfl⟩ := step_canRead hstep
      exact h.canReadData hidle bytes security setOk
    | drop | hup | timeout => cases undisturbed
  obtain ⟨steady, hmtu, mirrored⟩ := main
  exact ⟨steady, alive.step hstep (Alive.pos_of_app balanced steady.app) fun _ _ => h.attached,
    hmtu, mirrored⟩

end Steady

/-! ### Connections that stay -/

/-- The step neither loses the link nor gives the `GAttrib` up. -/
def Stays : Label → Prop
  | .drop | .hup => False
  | _ => True

instance (label : Label) : Decidable (Stays label) := by
  cases label <;> unfold Stays <;> infer_instance

namespace Steady

/-- `timeout_cb` -/
theorem timeoutCb (h : s.Steady) (hidle : s.todo = []) {op : Op} (hp : s.pendingReq = some op) :
    (s.timeoutCb op).Steady ∧ (s.timeoutCb op).mtu = s.mtu := by
  obtain ⟨addr, owner, proc, hcb⟩ := (h.pending op hp).exists_cb
  have cleared : { s with pendingReq := none }.Steady :=
    ⟨h.app, h.attached, h.named, h.requests, nofun, h.writes, h.sent, h.codes⟩
  have steady := cleared.minor
    (.push _ [.destroyOp op, .timeoutDone] (by simp [Code.minor]))
  obtain ⟨steady', hmtu, -⟩ := steady.runCallback
    (fun o => by simp [Link.push, hidle, Code.eventOf]) hcb opErrorRsp []
  exact ⟨steady', hmtu⟩

/-- `can_write_data` when the socket does not take the PDU. -/
theorem canWriteData_refused (h : s.Steady) (hidle : s.todo = []) {ret : Int} (hret : ¬ 0 < ret) :
    (s.canWriteData ret).Steady ∧ (s.canWriteData ret).mtu = s.mtu := by
  have done : ∀ u, Minor s u → u.Steady ∧ u.mtu = s.mtu := fun u hu => ⟨h.minor hu, hu.mtu_eq⟩
  simp only [Link.canWriteData]
  split
  · exact done _ (.counters ..)
  · rename_i op t hpick
    rw [if_neg hret]
    rcases pickNextSendOp_cases hpick with ⟨ops, hops, rfl⟩ | ⟨hpending, -, ops, hops, rfl⟩
    · obtain ⟨hcb, htype, -⟩ := h.writes op (hops ▸ List.mem_cons_self)
      have hminor : Minor s { s with writeQueue := ops } :=
        { Minor.refl s with
          writeQueue := fun o ho => .inl (hops ▸ List.mem_cons_of_mem _ ho) }
      have destroyed := hminor.trans (.push _ [.destroyOp op] (by simp [Code.minor]))
      split
      · simp only [Link.runCallback, hcb]
        exact done _ destroyed
      · split
        · exact absurd ‹_› htype
        · exact done _ (destroyed.trans (.counters ..))
        · exact done _ destroyed
    · have requests := h.requests op (hops ▸ List.mem_cons_self)
      have picked : { s with reqQueue := ops }.Steady :=
        ⟨h.app, h.attached, h.named, fun o ho => h.requests o (hops ▸ List.mem_cons_of_mem _ ho),
          h.pending, h.writes, h.sent, h.codes⟩
      split
      · obtain ⟨addr, owner, proc, hcb⟩ := requests.exists_cb
        have steady := picked.minor (.push _ [.destroyOp op] (by simp [Code.minor]))
        obtain ⟨steady', hmtu, -⟩ := steady.runCallback
          (fun o => by simp [Link.push, hidle, Code.eventOf]) hcb opErrorRsp []
        exact ⟨steady', hmtu⟩
      · simp only [requests.type_eq]
        refine ⟨⟨h.app, h.attached, h.named, picked.requests, fun o ho => ?_, h.writes, h.sent,
          h.codes⟩, trivial⟩
        obtain rfl := Option.some.inj ho
        exact requests

/-- Whatever else happens at a connection, it stays as undisturbed connections are. -/
theorem stays {label : Label} (h : s.Steady) (alive : s.Alive) (stays : Stays label)
    (hstep : s.step label = some t) : t.Steady ∧ t.Alive ∧ t.mtu = s.mtu := by
  by_cases undisturbed : Undisturbed label
  · obtain ⟨steady, alive', hmtu, -⟩ := h.step alive undisturbed hstep
    exact ⟨steady, alive', hmtu⟩
  · have balanced := alive.balanced_step hstep fun _ _ => h.attached
    have main : t.Steady ∧ t.mtu = s.mtu := by
      cases label with
      | canWrite ret =>
        obtain ⟨⟨hidle, -⟩, -, rfl⟩ := step_canWrite hstep
        exact h.canWriteData_refused hidle undisturbed
      | timeout =>
        obtain ⟨op, hp, ⟨hidle, -⟩, rfl⟩ := step_timeout hstep
        exact h.timeoutCb hidle hp
      | drop | hup => cases stays
      | _ => exact absurd trivial undisturbed
    exact ⟨main.1, alive.step hstep (Alive.pos_of_app balanced main.1.app) fun _ _ => h.attached,
      main.2⟩

/-- A connection whose link has not been lost and that the handle has not given up. -/
theorem of_run {labels : List Label}
    (run : machine.Run (fun _ label => Stays label) (Link.new mtu) labels s) :
    s.Steady ∧ s.Alive ∧ s.mtu = mtu :=
  run.invariant (P := fun a => a.Steady ∧ a.Alive ∧ a.mtu = mtu) ⟨.new mtu, .new mtu, rfl⟩
    fun ⟨steady, alive, hmtu⟩ hstays hstep => by
      obtain ⟨steady', alive', hmtu'⟩ := steady.stays alive hstays hstep
      exact ⟨steady', alive', hmtu'.trans hmtu⟩

end Steady

/-! ### Undisturbed runs -/

theorem pdu_of_task {op : Op} {task : Task Pdu Proc} (h : op.task = some task) :
    op.pdu = task.req := by
  rw [Op.task] at h
  split at h
  · obtain rfl := Option.some.inj h
    rfl
  · cases h

theorem owner_of_task {op : Op} {task : Task Pdu Proc} (h : op.task = some task) :
    op.owner = some task.owner := by
  rcases hcb : op.cb with - | ⟨addr, ⟨owner, proc⟩ | -⟩
  · simp [Op.task, hcb] at h
  · simp only [Op.task, hcb, Option.some.injEq] at h
    rw [Op.owner, hcb, ← h]
  · simp [Op.task, hcb] at h

/-- The pending request of the pipeline is the pending request of the channel. -/
theorem pendingReq_of_pipeline {task : Task Pdu Proc} (h : s.pipeline.pending = some task) :
    ∃ op, s.pendingReq = some op ∧ op.task = some task ∧ op.pdu = task.req := by
  simp only [pipeline] at h
  split at h
  · obtain ⟨op, hp, htask⟩ := Option.bind_eq_some_iff.mp h
    exact ⟨op, hp, htask, pdu_of_task htask⟩
  · cases h

section Runs

variable (ok : Link → Label → Prop)
  (ok' : Pipeline Pdu Pdu Proc Event → Pipeline.Label Pdu Pdu Proc → Prop)

/-- The connection is simulated by its pipeline. -/
def refinement (mtu : Mtu)
    (translate : ∀ {a b label label'}, a.Steady → a.mtu = mtu → a.step label = some b →
      ok a label → Mirrors mtu.buflen label label' → ok' a.pipeline label') :
    LabelledMachine.Simulation machine (Pipeline.machine (reactTo mtu.buflen))
      (fun a label => Undisturbed label ∧ ok a label) ok' where
  rel a p := a.Steady ∧ a.Alive ∧ a.mtu = mtu ∧ a.pipeline = p
  matched := by
    rintro a label b p ⟨steady, alive, rfl, rfl⟩ ⟨undisturbed, hok⟩ hstep
    obtain ⟨steady', alive', hmtu, hsame | ⟨label', mirrors, hstep'⟩⟩ :=
      steady.step alive undisturbed hstep
    · exact ⟨[], _, .nil, steady', alive', hmtu, hsame⟩
    · exact ⟨[label'], _, .single (translate steady rfl hstep hok mirrors) hstep', steady', alive',
        hmtu,
        rfl⟩

variable {ok}

/-- **Undisturbed runs are runs of the pipeline.** -/
theorem pipeline_run {labels : List Label}
    (run : machine.Run (fun a label => Undisturbed label ∧ ok a label) s labels t)
    (steady : s.Steady) (alive : s.Alive)
    (translate : ∀ {a b label label'}, a.Steady → a.mtu = s.mtu → a.step label = some b →
      ok a label → Mirrors s.mtu.buflen label label' → ok' a.pipeline label') :
    (∃ labels', (Pipeline.machine (reactTo s.mtu.buflen)).Run ok' s.pipeline labels' t.pipeline) ∧
      t.Steady ∧ t.Alive ∧ t.mtu = s.mtu := by
  obtain ⟨labels', p, run', steady', alive', hmtu, rfl⟩ :=
    (refinement ok ok' s.mtu translate).run run ⟨steady, alive, rfl, rfl⟩
  exact ⟨⟨labels', run'⟩, steady', alive', hmtu⟩

end Runs

end Link

end Libble
