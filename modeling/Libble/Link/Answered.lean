import Libble.Link.Partial
import Libble.Link.Teardown

/-!
# Every read is answered

`lble_request` promises one event for every read: the value, or an error. Four things break the
promise: a request that is refused because the link is already lost, an empty value, an Error
Response with the error code 0, and a long value whose size overflows. On a connection on which
none of them happens every read is answered exactly once, however it ends.

## Main definitions

* `Link.Answerable`: none of the four things happens.
* `Link.Settled`: nothing of an operation is queued or pending, or about to be done.
* `Link.Outcome`: one event for a handle, with a value or with an error.

## Main results

* `Link.request_answered_once`: every read is answered exactly once.
-/

namespace Libble

open Att Gatt

namespace Link

variable {s t : Link} {o : Nat} {mtu : Mtu} {labels : List Label} {handle : UInt16}

/-! ### The condition -/

/-- The answer to a read without an error has something to deliver: the first one is a Read
Response with a value, and the size of a long value does not overflow to nothing. -/
def Deliverable (bytes : Pdu) : Proc → Prop
  | .readCharHelper _ => byteAt bytes 0 = opReadRsp ∧ 2 ≤ bytes.length
  | .readBlobHelper _ _ size => 2 ≤ (size + (UInt16.ofNat bytes.length - 1)).toNat
  | _ => True

instance (bytes : Pdu) (proc : Proc) : Decidable (Deliverable bytes proc) := by
  cases proc <;> unfold Deliverable <;> infer_instance

/-- Reads are requested while the link is not lost, and their answers have something to
deliver. -/
def Answerable (s : Link) : Label → Prop
  | .call (.request _) => s.attached = true
  | .canRead bytes _ _ => ∀ task ∈ (s.pendingReq.bind Op.task).toList,
    (heard task.req bytes).1 = 0 → Deliverable bytes task.cont
  | _ => True

instance (s : Link) (label : Label) : Decidable (s.Answerable label) :=
  match label with
  | .call (.request _) => inferInstanceAs (Decidable (s.attached = true))
  | .call (.write ..) | .call .discoverHand | .call .discoverChar => .isTrue trivial
  | .canRead .. => inferInstanceAs (Decidable (∀ task ∈ Option.toList _, _))
  | .listen | .drop | .ret | .resume | .canWrite _ | .hup | .timeout => .isTrue trivial

/-- The code has to do with an operation. -/
def Code.concerns (o : Nat) : Code → Bool
  | emit (.procedure owner) _ | freeRequest owner => owner = o
  | discOp op => op.owner = some o
  | _ => false

/-- Nothing of an operation is queued or pending, or about to be done. -/
def Settled (s : Link) (o : Nat) : Prop :=
  (∀ op ∈ s.pendingReq.toList ++ (s.reqQueue ++ s.writeQueue), op.owner ≠ some o) ∧
    ∀ c ∈ s.todo, c.concerns o = false

instance (s : Link) (o : Nat) : Decidable (s.Settled o) := inferInstanceAs (Decidable (_ ∧ _))

/-- The events are one event, with a value for the handle or with an error. -/
def Outcome (handle : UInt16) (events : List Event) : Prop :=
  ∃ event, events = [event] ∧
    ((∃ len data, event = .device handle len data) ∨ ∃ text, event = .errorOccured text)

/-! ### What the answers lead to -/

/-- A read that can still be answered: it waits for its first response, or it has something to
deliver. -/
def Promising (handle : UInt16) (task : Task Pdu Proc) : Prop :=
  task.cont = .readCharHelper handle ∨
    ∃ buffer size, task.cont = .readBlobHelper handle buffer size ∧
      byteAt buffer 0 = opReadRsp ∧ 2 ≤ size.toNat

theorem Promising.isRead {task : Task Pdu Proc} (h : Promising handle task) :
    task.cont.isRead = true := by
  rcases h with h | ⟨buffer, size, h, -⟩
  · rw [h]
    rfl
  · rw [h]
    rfl

theorem outcome_delivered {buffer : Pdu} {size : UInt16} (hop : byteAt buffer 0 = opReadRsp)
    (hsize : 2 ≤ size.toNat) : Outcome handle (charReadCb handle 0 buffer size) :=
  ⟨_, charReadCb_eq hop hsize, .inl ⟨_, _, rfl⟩⟩

/-- An error ends a read with an outcome. -/
theorem leads_of_error {buflen : Nat} {task : Task Pdu Proc} (h : Promising handle task)
    {status : UInt8} (hstatus : status ≠ 0) (rpdu : Pdu) :
    Leads (Promising handle) (Outcome handle) o (turnOf (react buflen task.cont status rpdu)) := by
  rcases h with h | ⟨buffer, size, h, hop, hsize⟩
  · have hreact : react buflen task.cont status rpdu = .finish [errorEvent status] := by
      rw [h, react, readCharHelper, if_pos (.inl hstatus), charReadCb, if_pos hstatus]
    rw [hreact]
    exact ⟨_, rfl, .inr ⟨_, rfl⟩⟩
  · have hreact :
        react buflen task.cont status rpdu = .finish (charReadCb handle 0 buffer size) := by
      rw [h]
      exact if_pos (.inl hstatus)
    rw [hreact]
    exact outcome_delivered hop hsize

/-- The first byte stays in front when another part is appended. -/
theorem byteAt_take_append {buffer part : List UInt8} {size : Nat}
    (hop : byteAt buffer 0 = opReadRsp) (hsize : 2 ≤ size) :
    byteAt (buffer.take size ++ part) 0 = opReadRsp := by
  cases buffer with
  | nil => cases hop
  | cons byte buffer =>
    obtain ⟨n, rfl⟩ : ∃ n, size = n + 1 := ⟨size - 1, by omega⟩
    exact hop

/-- An answer without an error has a read go on, or ends it with an outcome. -/
theorem leads_of_answer {task : Task Pdu Proc} (h : Promising handle task) {bytes : Pdu}
    (hlength : bytes.length ≤ mtu.buflen) (deliverable : Deliverable bytes task.cont) :
    Leads (Promising handle) (Outcome handle) o
      (turnOf (react mtu.buflen task.cont 0 bytes)) := by
  have hbuf := mtu.le_buflen
  have hlt : bytes.length < 2 ^ 16 := Nat.lt_of_le_of_lt hlength mtu.val.toNat_lt
  have hrlen : (UInt16.ofNat bytes.length).toNat = bytes.length := UInt16.toNat_ofNat_of_lt' hlt
  rcases h with h | ⟨buffer, size, h, hop, hsize⟩
  · rw [h] at deliverable ⊢
    obtain ⟨hop, htwo⟩ := deliverable
    have htwo' : 2 ≤ (UInt16.ofNat bytes.length).toNat := hrlen.symm ▸ htwo
    simp only [react, readCharHelper]
    split
    · exact outcome_delivered hop htwo'
    · exact .inr ⟨_, _, rfl, hop, htwo'⟩
  · rw [h] at deliverable ⊢
    simp only [react, readBlobHelper]
    split
    · exact outcome_delivered hop hsize
    · have hop' : byteAt (buffer.take size.toNat ++ bytes.drop 1) 0 = opReadRsp :=
        byteAt_take_append hop hsize
      split
      · exact outcome_delivered hop' deliverable
      · exact .inr ⟨_, _, rfl, hop', deliverable⟩

/-- The turns of a read on a connection on which reads are answerable. -/
theorem keeps_promising {label : Label} (guard : s.Answerable label) {task : Task Pdu Proc}
    {turn : Turn Pdu Proc Event} (h : Promising handle task)
    (source : TurnSource s label task turn) : Leads (Promising handle) (Outcome handle) o turn := by
  cases source with
  | failed => exact leads_of_error h (by decide) _
  | @answered bytes security setOk op hlabel hne hpending htask attached hlength =>
    subst hlabel
    by_cases hok : (heard task.req bytes).1 = 0
    · have deliverable := guard task (by simp [hpending, htask]) hok
      rw [reactTo_eq, heard_of_ok hne hok]
      exact leads_of_answer h hlength deliverable
    · rw [reactTo_eq]
      exact leads_of_error h hok _

/-- A read that is settled does not wait, and what it has told has been delivered. -/
theorem Settled.told_eq (h : s.Settled o) : s.told o = s.events o := by
  have hnil : s.todo.filterMap (Code.eventOf o) = [] := by
    refine List.filterMap_eq_nil_iff.mpr fun c hc => ?_
    have hconcerns := h.2 c hc
    cases c with
    | emit source event =>
      cases source with
      | procedure owner => exact if_neg (of_decide_eq_false hconcerns)
      | notification => rfl
    | _ => rfl
  rw [told, hnil, List.append_nil, events]

theorem Settled.releases_eq (h : s.Settled o) : s.releases o = s.freed.count (.request o) := by
  have hzero : tally (isOne (.freeRequest o)) s.todo = 0 := by
    refine tally_eq_zero fun c hc => if_neg ?_
    rintro rfl
    exact absurd (h.2 _ hc) (by simp [Code.concerns])
  rw [releases, hzero, Nat.zero_add]

theorem Settled.not_waiting (h : s.Settled o) {task : Task Pdu Proc} (howner : task.owner = o) :
    ¬ s.Waiting task := by
  rintro ⟨op, htask, hop⟩
  have hop_owner : op.owner = some o := by rw [owner_of_task htask, howner]
  rcases hop with hop | ⟨hp, -⟩ | hop
  · exact h.1 op (List.mem_append_right _ hop) hop_owner
  · exact h.1 op (List.mem_append_left _ (by simp [hp])) hop_owner
  · have hconcerns := h.2 _ hop
    simp [Code.concerns, hop_owner] at hconcerns

/-- **Every read is answered exactly once.** On a connection on which reads are answerable a read
never tells more than one event, and as soon as nothing of it is queued or pending any more one
event has been delivered, with a value for its handle or with an error, and its `request_t` has
been released once. -/
theorem request_answered_once (run : machine.Run Answerable (Link.new mtu) labels s)
    (ho : s.calls[o]? = some (.request handle)) :
    (s.told o).length ≤ 1 ∧ s.releases o ≤ 1 ∧
      (s.Settled o → Outcome handle (s.events o) ∧ s.freed.count (.request o) = 1) := by
  have invariant : s.Tidy ∧ (s.Alive ∨ s.Abandoned) ∧ (s.calls[o]? = some (.request handle) →
      s.Thread (Promising handle) (Outcome handle) True o) := by
    refine run.invariant (P := fun a => a.Tidy ∧ (a.Alive ∨ a.Abandoned) ∧
      (a.calls[o]? = some (.request handle) →
        a.Thread (Promising handle) (Outcome handle) True o)) ⟨.new mtu, .inl (.new mtu), nofun⟩ ?_
    rintro a label b ⟨tidy, upkept, thread⟩ guard hstep
    refine ⟨tidy.step hstep, alive_or_abandoned upkept tidy hstep ?_, ?_⟩
    · rintro handle rfl
      exact guard
    · refine tidy.thread hstep thread (.inl rfl) ?_ (fun _ h => h.isRead)
        (fun _ _ _ h source => keeps_promising guard h source)
        fun _ code mem loses task good => spared upkept mem loses task good.isRead
      rintro - rfl
      exact guard
  obtain ⟨-, -, thread⟩ := invariant
  cases thread ho with
  | @waiting task owner_eq _ _ kept told_eq releases_eq =>
    refine ⟨by simp [told_eq], by omega, fun settled => ?_⟩
    have hone := kept trivial
    exact absurd ((waiting_iff s task).mpr (by omega)) (settled.not_waiting owner_eq)
  | ended _ done releases_eq =>
    have hlength : (s.told o).length = 1 := by
      obtain ⟨event, hevent, -⟩ := done
      rw [hevent]
      rfl
    refine ⟨Nat.le_of_eq hlength, Nat.le_of_eq releases_eq, fun settled => ?_⟩
    rw [← settled.told_eq, ← settled.releases_eq]
    exact ⟨done, releases_eq⟩

/-- A value that fills a Read Response is read on an answerable connection. -/
def answeredRun : Option Link :=
  machine.execGuarded Answerable (Link.new attDefaultLeMtu)
    (([.call (.request 9), .canWrite 3, .canRead (opReadRsp :: fullValue) 1 true] : List Label) ++
      .replicate 6 .resume ++
      ([.canWrite 5, .canRead [opReadBlobRsp] 1 true, .resume, .ret] : List Label) ++
      .replicate 9 .resume)

theorem request_answered_once_answeredRun :
    ∃ s, answeredRun = some s ∧ Outcome 9 (s.events 0) ∧ s.freed.count (.request 0) = 1 := by
  have hrun : answeredRun.map (fun s => (s.calls, decide (s.Settled 0))) =
      some ([.request 9], true) := by decide +kernel
  obtain ⟨s, hs, hdata⟩ := Option.map_eq_some_iff.mp hrun
  obtain ⟨hcalls, hsettled⟩ := Prod.mk.inj hdata
  have answered := request_answered_once (machine.run_of_execGuarded hs)
    (show s.calls[0]? = some (.request 9) by rw [hcalls]; rfl)
  exact ⟨s, hs, answered.2.2 (of_decide_eq_true hsettled)⟩

/-- An empty value is read. -/
def emptyRun : Option Link :=
  machine.execGuarded (fun _ _ => True) (Link.new attDefaultLeMtu)
    ([.call (.request 9), .canWrite 3, .canRead [opReadRsp] 1 true] ++ .replicate 9 .resume)

/-- A value is requested after the link has been lost. -/
def detachedRun : Option Link :=
  machine.execGuarded (fun _ _ => True) (Link.new attDefaultLeMtu)
    ([.hup] ++ .replicate 4 .resume ++ [.call (.request 9)] ++ .replicate 2 .resume)

/-- Neither read is answered, and the `request_t` of the second one is never released. -/
theorem not_answered_emptyRun :
    emptyRun.map (fun s => (s.todo, decide (s.Settled 0), s.events 0)) = some ([], true, []) ∧
      detachedRun.map (fun s => (decide (s.Settled 0), s.events 0, s.freed.count (.request 0))) =
        some (true, [], 0) := by
  refine ⟨by decide +kernel, by decide +kernel⟩

end Link

end Libble
