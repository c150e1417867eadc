import Libble.Link.Overlap
import Libble.Link.PrepareQueue

/-!
# What an Execute Write Request commits

The long writes of `lble_write` share the prepare queue of the peer. The requests of two long
writes that overlap mix in `req_queue`, so an Execute Write Request can find parts of the other
one, and `prepare_write_cb` does not have the queue emptied when a part is refused, so the parts
before it are committed by the next long write. Both go well when long writes are spaced, and when
nothing but a first part is refused.

## Main definitions

* `Link.CommitsWhole`: every Execute Write Request finds the parts of its own write, and no others.
* `Link.LeavesNothing`: nothing of a write that is over is left in the queue of the peer, and an
  Execute Write Request finds nothing but parts of its own write.

## Main results

* `Link.commitsWhole`: long writes that are spaced are committed whole.
* `Link.leavesNothing`: writes of which only the first part is ever refused leave nothing behind.
-/

namespace Libble

open Att Gatt

namespace Link

/-- The requests that were sent, and their answers. -/
def exchanges (s : Link) : List (Exchange Pdu Pdu) := s.log.filterMap Act.exchange

/-- The requests that are queued or pending; the one whose answer is being handled is still
pending. -/
def unanswered (s : Link) : List Op := s.pendingReq.toList ++ s.reqQueue

/-- The queue has the parts of the write `o`, all of them and no others. -/
def HasWhole (s : Link) (o : Nat) (queue : List (Nat × Pdu)) : Prop :=
  ∃ handle data parts, s.calls[o]? = some (.write handle data) ∧ parts.flatten = data ∧
    queue = chunks o handle parts

/-- Every Execute Write Request was sent while the queue of the peer had the parts of its own
write, all of them and no others. -/
def CommitsWhole (s : Link) : Prop :=
  Pipeline.AtEvery (fun before e => ∀ o req, e = .sent o req → byteAt req 0 = opExecWriteReq →
    s.HasWhole o (peerQueue before)) s.exchanges

/-- Nothing of a write that is over is in the queue of the peer, and every Execute Write Request
was sent while the queue had nothing but parts of its own write. -/
def LeavesNothing (s : Link) : Prop :=
  (∀ o, (∀ op ∈ s.unanswered, op.owner ≠ some o) → ∀ e ∈ peerQueue s.exchanges, e.1 ≠ o) ∧
    Pipeline.AtEvery (fun before e => ∀ o req, e = .sent o req → byteAt req 0 = opExecWriteReq →
      ∀ e ∈ peerQueue before, e.1 = o) s.exchanges

/-! ### What callers and peers do -/

/-- The peer accepts the requests of long writes. -/
def AcceptsLong (s : Link) : Label → Prop
  | .canRead bytes _ _ => getOpType (byteAt bytes 0) = .rsp →
    ∀ op ∈ s.pendingReq, isLong op.pdu = true → Grants op.pdu bytes
  | _ => True

/-- The peer accepts Execute Write Requests, and accepts or refuses Prepare Write Requests. -/
def AnswersLong (s : Link) : Label → Prop
  | .canRead bytes _ _ => getOpType (byteAt bytes 0) = .rsp →
    ∀ op ∈ s.pendingReq, isLong op.pdu = true →
      Grants op.pdu bytes ∨ (byteAt op.pdu 0 = opPrepWriteReq ∧ byteAt bytes 0 = opErrorRsp)
  | _ => True

/-- A long write is started only when no Prepare Write Request is queued or pending, and none is
being answered. -/
def Spaced (s : Link) : Label → Prop
  | .call call => byteAt (call.begin s.mtu.buflen).1 0 = opPrepWriteReq →
    ∀ op ∈ s.unanswered, byteAt op.pdu 0 ≠ opPrepWriteReq
  | _ => True

/-- The request belongs to a write. -/
def isWrite (req : Pdu) : Bool := byteAt req 0 = opWriteReq ∨ isLong req

/-- A write is started only when the one before it is over. It is not over yet while the event
handler is told about its end. -/
def Sequential (s : Link) : Label → Prop
  | .call (.write ..) => ∀ op ∈ s.unanswered, isWrite op.pdu = false
  | _ => True

/-- A Prepare Write Request that is refused for good has the offset 0: it is the first of its
write. -/
def RefusesFirst (s : Link) : Label → Prop
  | .canRead bytes security setOk => ∀ op ∈ s.pendingReq, byteAt op.pdu 0 = opPrepWriteReq →
    byteAt bytes 0 = opErrorRsp →
      retries (byteAt bytes 0) (bytes.drop 1) security setOk = true ∨ getLe16 op.pdu 3 = 0
  | _ => True

section Decidable

variable (s : Link) (label : Label)

instance : Decidable (AcceptsLong s label) :=
  match label with
  | .canRead .. => inferInstanceAs (Decidable (_ → ∀ op ∈ s.pendingReq, _))
  | .call _ | .listen | .drop | .ret | .resume | .canWrite _ | .hup | .timeout => .isTrue trivial

instance : Decidable (AnswersLong s label) :=
  match label with
  | .canRead .. => inferInstanceAs (Decidable (_ → ∀ op ∈ s.pendingReq, _))
  | .call _ | .listen | .drop | .ret | .resume | .canWrite _ | .hup | .timeout => .isTrue trivial

instance : Decidable (Spaced s label) :=
  match label with
  | .call _ => inferInstanceAs (Decidable (_ → _))
  | .listen | .drop | .ret | .resume | .canWrite _ | .canRead .. | .hup | .timeout =>
    .isTrue trivial

instance : Decidable (Sequential s label) := by
  rcases label with ⟨_ | _ | _ | _⟩ | _ | _ | _ | _ | _ | _ | _ | _ <;> unfold Sequential <;>
    infer_instance

instance : Decidable (RefusesFirst s label) :=
  match label with
  | .canRead .. => inferInstanceAs (Decidable (∀ op ∈ s.pendingReq, _))
  | .call _ | .listen | .drop | .ret | .resume | .canWrite _ | .hup | .timeout => .isTrue trivial

end Decidable

variable {s t : Link} {label : Label} {labels : List Label} {mtu : Mtu}

/-- Writes that are made one after another are spaced. -/
theorem spaced_of_sequential (h : Sequential s label) : Spaced s label := by
  rcases label with call | _ | _ | _ | _ | _ | _ | _ | _
  · cases call with
    | write handle data =>
      rintro - op hop hreq
      have hwrite := h op hop
      simp [isWrite, isLong, hreq] at hwrite
    | _ => rintro ⟨⟩
  all_goals trivial

/-- The steps of such a connection keep the long writes of its pipeline apart. -/
theorem oneByOne {label' : Pipeline.Label Pdu Pdu Proc} (hstep : s.step label = some t)
    (answers : AnswersLong s label) (spaced : Spaced s label) (refuses : RefusesFirst s label)
    (mirrors : Mirrors s.mtu.buflen label label') : OneByOne s.mtu.buflen s.pipeline label' := by
  cases mirrors with
  | call call =>
    obtain ⟨-, -, admissible, -⟩ := step_call hstep
    refine ⟨call, admissible, rfl, fun hreq task htask hprep => ?_⟩
    obtain ⟨op, hop, -, hpdu⟩ := exists_op_of_waiting htask
    exact spaced hreq op hop (hpdu ▸ hprep)
  | send ret => trivial
  | answer type accepted =>
    intro task hpending hlong
    obtain ⟨op, hp, -, hpdu⟩ := pendingReq_of_pipeline hpending
    rw [← hpdu] at hlong ⊢
    rcases answers type op hp hlong with hgrants | ⟨hprep, herror⟩
    · exact .inl hgrants
    · rcases refuses op hp hprep herror with hretries | hfirst
      · cases accepted.symm.trans hretries
      · exact .inr ⟨hprep, hfirst, herror⟩
  | retry type again =>
    simp only [retries, decide_eq_true_eq] at again
    exact again.1

/-- In a run of such a connection the long writes do not mix. -/
theorem unmixed_of_run {ok : Link → Label → Prop}
    (run : machine.Run (fun a l => Undisturbed l ∧ ok a l) (Link.new mtu) labels s)
    (careful : ∀ {a l}, ok a l → AnswersLong a l ∧ Spaced a l ∧ RefusesFirst a l) :
    s.mtu = mtu ∧ Unmixed mtu.buflen s.pipeline := by
  obtain ⟨⟨labels', run'⟩, -, -, hmtu⟩ := pipeline_run (OneByOne mtu.buflen) run
    (.new mtu) (.new mtu) fun {a _ _ _} _ hmtu hstep hok mirrors => by
      obtain ⟨answers, spaced, refuses⟩ := careful hok
      obtain rfl : a.mtu = mtu := hmtu
      exact oneByOne hstep answers spaced refuses mirrors
  exact ⟨hmtu, run'.invariant Unmixed.init fun h one hstep => h.step mtu.le_buflen one hstep⟩

/-- A procedure that is started like a long write is this write. -/
theorem eq_write_of_begin {buflen : Nat} {call : Call} {handle : UInt16} {value : List UInt8}
    (hlong : buflen - 3 < value.length)
    (h : call.begin buflen = Call.begin buflen (.write handle value)) :
    call = .write handle value := by
  have hproc : (call.begin buflen).2 = .prepareWriteCb handle value 0 := by
    rw [h, Call.begin, gattWriteChar, if_neg (Nat.not_le.mpr hlong)]
    rfl
  cases call with
  | write handle' value' =>
    rw [Call.begin, gattWriteChar] at hproc
    split at hproc
    · cases hproc
    · obtain ⟨rfl, rfl, -⟩ := Proc.prepareWriteCb.inj hproc
      rfl
  | request handle' => cases hproc
  | discoverHand | discoverChar => cases hproc

theorem hasWhole_of_whole {o : Nat} {queue : List (Nat × Pdu)}
    (h : Whole s.mtu.buflen s.pipeline.started o queue) : s.HasWhole o queue := by
  obtain ⟨handle, value, parts, ⟨hstarted, -, hlong⟩, hparts, hqueue⟩ := h
  rw [started_eq, List.getElem?_map] at hstarted
  obtain ⟨call, hcall, hbegin⟩ := Option.map_eq_some_iff.mp hstarted
  obtain rfl := eq_write_of_begin hlong hbegin
  exact ⟨handle, value, parts, hcall, hparts, hqueue⟩

theorem owner_of_mem_chunks {o : Nat} {handle : UInt16} {parts : List (List UInt8)}
    {e : Nat × Pdu} (h : e ∈ chunks o handle parts) : e.1 = o := by
  obtain ⟨pdu, -, rfl⟩ := List.mem_map.mp h
  rfl

/-- What is queued belongs to a write that is waiting. -/
theorem Progress.exists_task {buflen : Nat} {started : List (Pdu × Proc)}
    {tasks : List (Task Pdu Proc)} {queue : List (Nat × Pdu)} {e : Nat × Pdu}
    (h : Progress buflen started tasks queue) (he : e ∈ queue) :
    ∃ task ∈ tasks, task.owner = e.1 := by
  cases h with
  | idle => cases he
  | sending write done lt => exact ⟨_, List.mem_cons_self, (owner_of_mem_chunks he).symm⟩
  | executing write done => exact ⟨_, List.mem_cons_self, (owner_of_mem_chunks he).symm⟩
  | executingNext write done write' =>
    exact ⟨_, List.mem_cons_self, (owner_of_mem_chunks he).symm⟩

/-! ### Long writes one after another -/

/-- **Long writes that are spaced are committed whole.** -/
theorem commitsWhole
    (run : machine.Run (fun a l => Undisturbed l ∧ AcceptsLong a l ∧ Spaced a l) (Link.new mtu)
      labels s) : s.CommitsWhole := by
  obtain ⟨rfl, unmixed⟩ := unmixed_of_run run fun {a l} ⟨accepts, spaced⟩ => by
    refine ⟨?_, spaced, ?_⟩
    · cases l with
      | canRead bytes security setOk =>
        exact fun type op hop hlong => .inl (accepts type op hop hlong)
      | _ => trivial
    · cases l with
      | canRead bytes security setOk =>
        intro op hop hprep herror
        have type : getOpType (byteAt bytes 0) = .rsp := herror ▸ rfl
        exact absurd herror (accepts type op hop (by simp [isLong, hprep])).1
      | _ => trivial
  exact fun before e after heq o req he hreq =>
    hasWhole_of_whole (unmixed.commits before e after heq o req he hreq)

/-- A request is sent and answered. -/
def exchanged (rsp : Pdu) : List Label :=
  [.canWrite 1, .canRead rsp 1 true] ++ .replicate 5 .resume

/-- The peer accepts a part of a value of equal bytes at the handle 5. -/
def accepted (offset : UInt8) (part : List UInt8) : List Label :=
  exchanged ([opPrepWriteRsp, 5, 0, offset, 0] ++ part)

/-- A value of 21 bytes is written to the handle 5. -/
def written (byte : UInt8) : Label := .call (.write 5 (.replicate 21 byte))

/-- The second write is called when the parts of the first one have been accepted. -/
def spacedRun : Option Link :=
  machine.execGuarded (fun a l => Undisturbed l ∧ AcceptsLong a l ∧ Spaced a l)
    (Link.new attDefaultLeMtu)
    ([written 0x41] ++ accepted 0 (.replicate 18 0x41) ++ accepted 18 (.replicate 3 0x41) ++
      [written 0x42] ++ exchanged [opExecWriteRsp] ++ accepted 0 (.replicate 18 0x42) ++
      accepted 18 (.replicate 3 0x42) ++ [.canWrite 2])

theorem commitsWhole_spacedRun : ∃ s, spacedRun = some s ∧
    s.exchanges.length = 11 ∧ s.CommitsWhole := by
  have hrun : spacedRun.map (fun s => s.exchanges.length) = some 11 := by decide
  obtain ⟨s, hs, hlength⟩ := Option.map_eq_some_iff.mp hrun
  exact ⟨s, hs, hlength, commitsWhole (machine.run_of_execGuarded hs)⟩

/-- The second write is called while the first part of the first one waits. -/
def mixedRun : Option Link :=
  machine.execGuarded (fun a l => Undisturbed l ∧ AcceptsLong a l) (Link.new attDefaultLeMtu)
    ([written 0x41, written 0x42] ++ accepted 0 (.replicate 18 0x41) ++
      accepted 0 (.replicate 18 0x42) ++ accepted 18 (.replicate 3 0x41) ++
      accepted 18 (.replicate 3 0x42) ++ [.canWrite 2])

/-- An entry of a list with what is before it. -/
theorem eq_take_append {α : Type} {l : List α} {n : Nat} {a : α} (h : l[n]? = some a) :
    l = l.take n ++ a :: l.drop (n + 1) := by
  obtain ⟨hn, rfl⟩ := List.getElem?_eq_some_iff.mp h
  exact (List.take_append_drop n l).symm.trans (by rw [List.drop_eq_getElem_cons hn])

theorem not_commitsWhole_mixedRun : ∃ s, mixedRun = some s ∧ ¬ s.CommitsWhole := by
  have hrun : mixedRun.map
      (fun s => (s.exchanges[8]?, (peerQueue (s.exchanges.take 8)).map (·.1))) =
        some (some (.sent 0 execWriteReq), [0, 1, 0, 1]) := by decide
  obtain ⟨s, hs, hdata⟩ := Option.map_eq_some_iff.mp hrun
  obtain ⟨hexec, howners⟩ := Prod.mk.inj hdata
  refine ⟨s, hs, fun h => ?_⟩
  obtain ⟨handle, data, parts, -, -, hqueue⟩ := h _ _ _ (eq_take_append hexec) 0 _ rfl rfl
  have hone : 1 ∈ (peerQueue (s.exchanges.take 8)).map (·.1) := by rw [howners]; decide
  obtain ⟨e, he, hne⟩ := List.mem_map.mp hone
  rw [hqueue] at he
  cases (owner_of_mem_chunks he).symm.trans hne

/-! ### Writes that fail -/

/-- **Writes of which only the first part is ever refused leave nothing behind.** -/
theorem leavesNothing
    (run : machine.Run (fun a l => Undisturbed l ∧ AnswersLong a l ∧ Sequential a l ∧
      RefusesFirst a l) (Link.new mtu) labels s) : s.LeavesNothing := by
  obtain ⟨rfl, unmixed⟩ := unmixed_of_run run fun ⟨answers, sequential, refuses⟩ =>
    ⟨answers, spaced_of_sequential sequential, refuses⟩
  refine ⟨fun o ended e he howner => ?_, fun before e after heq o req hsent hreq e' he' => ?_⟩
  · obtain ⟨task, htask, htask'⟩ := unmixed.progress.exists_task he
    obtain ⟨op, hop, hop', -⟩ := exists_op_of_waiting (List.mem_of_mem_filter htask)
    exact ended op hop (hop'.trans (congrArg some (htask'.trans howner)))
  · obtain ⟨handle, value, parts, -, -, hqueue⟩ :=
      unmixed.commits before e after heq o req hsent hreq
    rw [hqueue] at he'
    exact owner_of_mem_chunks he'

/-- The first part of the first write is refused. -/
def refusedFirstRun : Option Link :=
  machine.execGuarded (fun a l => Undisturbed l ∧ AnswersLong a l ∧ Sequential a l ∧
      RefusesFirst a l) (Link.new attDefaultLeMtu)
    ([written 0x41, .canWrite 23,
        .canRead [opErrorRsp, opPrepWriteReq, 5, 0, 0x0d] 1 true, .resume, .ret] ++
      .replicate 5 .resume ++ [written 0x42] ++ accepted 0 (.replicate 18 0x42) ++
      accepted 18 (.replicate 3 0x42) ++ [.canWrite 2])

theorem leavesNothing_refusedFirstRun : ∃ s, refusedFirstRun = some s ∧
    (peerQueue s.exchanges).map (·.1) = [1, 1] ∧ s.LeavesNothing := by
  have hrun : refusedFirstRun.map (fun s => (peerQueue s.exchanges).map (·.1)) = some [1, 1] := by
    decide
  obtain ⟨s, hs, hqueue⟩ := Option.map_eq_some_iff.mp hrun
  exact ⟨s, hs, hqueue, leavesNothing (machine.run_of_execGuarded hs)⟩

/-- The second part of the first write is refused. -/
def refusedRun : Option Link :=
  machine.execGuarded (fun a l => Undisturbed l ∧ AnswersLong a l ∧ Sequential a l)
    (Link.new attDefaultLeMtu)
    ([written 0x41] ++ accepted 0 (.replicate 18 0x41) ++
      [.canWrite 8, .canRead [opErrorRsp, opPrepWriteReq, 5, 0, 0x0d] 1 true, .resume, .ret] ++
      .replicate 5 .resume ++ [written 0x42] ++ accepted 0 (.replicate 18 0x42) ++
      accepted 18 (.replicate 3 0x42) ++ [.canWrite 2])

theorem not_leavesNothing_refusedRun : ∃ s, refusedRun = some s ∧ ¬ s.LeavesNothing := by
  have hrun : refusedRun.map
      (fun s => (s.exchanges[8]?, (peerQueue (s.exchanges.take 8)).map (·.1))) =
    some (some (.sent 1 execWriteReq), [0, 1, 1]) := by decide
  obtain ⟨s, hs, hdata⟩ := Option.map_eq_some_iff.mp hrun
  obtain ⟨hexec, howners⟩ := Prod.mk.inj hdata
  refine ⟨s, hs, fun h => ?_⟩
  have hzero : 0 ∈ (peerQueue (s.exchanges.take 8)).map (·.1) := by rw [howners]; decide
  obtain ⟨e, he, hne⟩ := List.mem_map.mp hzero
  cases hne.symm.trans (h.2 _ _ _ (eq_take_append hexec) 1 _ rfl rfl e he)

end Link

end Libble
