import Libble.Link.Writes

/-!
# The prepare queue of the peer

A peer keeps one prepare queue for a client: a Prepare Write Request that it accepts is appended,
and an Execute Write Request applies what is queued and empties the queue. The client never
empties it otherwise, so two long writes that overlap, or a long write that fails after its first
part, commit parts that do not belong together. This file proves when neither can happen.

## Main definitions

* `Link.peerQueue`: the queue of the peer, with the calls that the requests belong to.
* `Link.Whole`: the queue has the parts of one write, all of them and no others.
* `Link.Progress`: how far the long writes of a pipeline have come.
* `Link.Unmixed`: the invariant of pipelines whose long writes do not mix.

## Main results

* `Link.Unmixed.step`: the invariant is kept when no long write is started while parts of another
  one are sent, and only first parts are refused.
-/

namespace Libble

open Att Gatt

namespace Link

/-! ### The queue -/

/-- What the peer does with its queue when it answers. -/
def peerStep (queue : List (Nat × Pdu)) : Exchange Pdu Pdu → List (Nat × Pdu)
  | .sent .. => queue
  | .answered owner req rsp =>
    if byteAt req 0 = opPrepWriteReq ∧ byteAt rsp 0 = opPrepWriteRsp then queue ++ [(owner, req)]
    else if byteAt req 0 = opExecWriteReq ∧ byteAt rsp 0 = opExecWriteRsp then []
    else queue

/-- The queue of the peer after a history. -/
def peerQueue (history : List (Exchange Pdu Pdu)) : List (Nat × Pdu) := history.foldl peerStep []

theorem peerQueue_concat (history : List (Exchange Pdu Pdu)) (e : Exchange Pdu Pdu) :
    peerQueue (history ++ [e]) = peerStep (peerQueue history) e := by
  simp [peerQueue]

/-- The requests of consecutive parts, with the call that they belong to. -/
def chunks (o : Nat) (handle : UInt16) (parts : List (List UInt8)) : List (Nat × Pdu) :=
  (prepares handle 0 parts).map (o, ·)

theorem chunks_concat (o : Nat) (handle : UInt16) (parts : List (List UInt8))
    (part : List UInt8) :
    chunks o handle (parts ++ [part]) =
      chunks o handle parts ++ [(o, prepWriteReq handle parts.flatten.length part)] := by
  rw [chunks, prepares_concat, List.map_append, Nat.zero_add]
  rfl

/-! ### Requests of long writes -/

/-- The request belongs to a long write. -/
def isLong (req : Pdu) : Bool := byteAt req 0 = opPrepWriteReq ∨ byteAt req 0 = opExecWriteReq

/-- The request of a procedure belongs to a long write. -/
abbrev longTask (task : Task Pdu Proc) : Bool := isLong task.req

/-- The callback is not the one that sends the requests of a long write. -/
def plain : Proc → Bool
  | .prepareWriteCb .. => false
  | _ => true

section Procedures

variable {buflen : Nat} {proc next : Proc} {status : UInt8} {req pdu rsp : Pdu}

/-- Procedures that are no long writes do not become any. -/
theorem plain_of_react (hproc : plain proc = true)
    (hreact : react buflen proc status rsp = .send pdu next) :
    isLong pdu = false ∧ plain next = true := by
  cases proc with
  | charWriteCb => cases hreact
  | prepareWriteCb handle value offset => cases hproc
  | readCharHelper handle =>
    simp only [react, readCharHelper] at hreact
    split_ifs at hreact
    obtain ⟨rfl, rfl⟩ := Reaction.send.inj hreact
    exact ⟨rfl, rfl⟩
  | readBlobHelper handle buffer size =>
    simp only [react, readBlobHelper] at hreact
    split_ifs at hreact
    obtain ⟨rfl, rfl⟩ := Reaction.send.inj hreact
    exact ⟨rfl, rfl⟩
  | descDiscoveredCb start «end» descriptors =>
    simp only [react, descDiscoveredCb] at hreact
    split_ifs at hreact
    split at hreact
    · cases hreact
    · split_ifs at hreact
      obtain ⟨rfl, rfl⟩ := Reaction.send.inj hreact
      exact ⟨rfl, rfl⟩
  | charDiscoveredCb start «end» characteristics =>
    simp only [react, gattCharDiscoveredCb] at hreact
    split_ifs at hreact
    split at hreact
    · cases hreact
    · split_ifs at hreact
      obtain ⟨rfl, rfl⟩ := Reaction.send.inj hreact
      exact ⟨rfl, rfl⟩

/-- The procedure goes on by sending. -/
theorem send_of_reactTo (hreact : reactTo buflen req proc rsp = .next pdu next) :
    react buflen proc
      (statusOf (responseOf (byteAt req 0) (byteAt rsp 0) (rsp.drop 1)).1
        (responseOf (byteAt req 0) (byteAt rsp 0) (rsp.drop 1)).2)
      ((responseOf (byteAt req 0) (byteAt rsp 0) (rsp.drop 1)).1 ::
        (responseOf (byteAt req 0) (byteAt rsp 0) (rsp.drop 1)).2) = .send pdu next := by
  rw [reactTo] at hreact
  generalize react _ _ _ _ = reaction at hreact
  cases reaction with
  | send req' next' =>
    obtain ⟨rfl, rfl⟩ := Turn.next.inj hreact
    rfl
  | finish events => cases hreact

theorem plain_of_reactTo (hproc : plain proc = true)
    (hreact : reactTo buflen req proc rsp = .next pdu next) :
    isLong pdu = false ∧ plain next = true := by
  exact plain_of_react hproc (send_of_reactTo hreact)

/-- A long write stays one. -/
theorem isLong_of_reactTo {handle : UInt16} {value : List UInt8} {offset : UInt16}
    (hreact : reactTo buflen req (.prepareWriteCb handle value offset) rsp = .next pdu next) :
    isLong pdu = true := by
  have hsend := send_of_reactTo hreact
  simp only [react, prepareWriteCb] at hsend
  split_ifs at hsend
  · obtain ⟨rfl, rfl⟩ := Reaction.send.inj hsend
    rfl
  · obtain ⟨rfl, rfl⟩ := Reaction.send.inj hsend
    rfl

/-- A call is a long write, or no long write at all. -/
theorem begin_cases (buflen : Nat) (call : Call) (admissible : Admissible call) :
    (∃ handle value, call = .write handle value ∧ value.length ≤ 255 ∧
      buflen - 3 < value.length ∧ call.begin buflen =
        (prepWriteReq handle 0 (part buflen value 0), .prepareWriteCb handle value 0)) ∨
      (isLong (call.begin buflen).1 = false ∧ plain (call.begin buflen).2 = true) := by
  cases call with
  | write handle value =>
    by_cases hshort : value.length ≤ buflen - 3
    · have hbegin := gattWriteChar_short handle hshort
      refine .inr ?_
      rw [Call.begin, hbegin]
      exact ⟨rfl, rfl⟩
    · have hlong := Nat.not_le.mp hshort
      exact .inl ⟨handle, value, rfl, admissible.2, hlong,
        gattWriteChar_long handle admissible.2 hlong⟩
  | request handle => exact .inr ⟨rfl, rfl⟩
  | discoverHand | discoverChar => exact .inr ⟨rfl, rfl⟩

/-- An error ends a long write, or has the same part sent again if it has no code. -/
theorem reactTo_error (buflen : Nat) (handle : UInt16) {value : List UInt8} {offset : Nat}
    (hvalue : value.length ≤ 255) (h : offset < value.length)
    (hrsp : byteAt rsp 0 = opErrorRsp) :
    (∃ events, reactTo buflen (prepWriteReq handle offset (part buflen value offset))
      (.prepareWriteCb handle value (UInt16.ofNat offset)) rsp = .done events) ∨
    reactTo buflen (prepWriteReq handle offset (part buflen value offset))
      (.prepareWriteCb handle value (UInt16.ofNat offset)) rsp =
      .next (prepWriteReq handle offset (part buflen value offset))
        (.prepareWriteCb handle value (UInt16.ofNat offset)) := by
  simp only [reactTo, hrsp]
  generalize hresponse : responseOf _ _ _ = r
  by_cases hstatus : statusOf r.1 r.2 = 0
  · refine .inr ?_
    have hlength : (r.1 :: r.2).length = 5 + 0 := by
      rcases responseOf_cases (byteAt (prepWriteReq handle offset (part buflen value offset)) 0)
        opErrorRsp (rsp.drop 1) with ⟨hanswered, heq⟩ | heq
      · obtain rfl := heq.symm.trans hresponse
        simp only [answeredOpcode, if_pos] at hanswered
        split at hanswered
        · rename_i hdata
          rw [hdata]
          rfl
        · cases hanswered
      · obtain rfl := heq.symm.trans hresponse
        cases hstatus
    have hnext : prepareWriteCb buflen handle value (UInt16.ofNat offset) 0 (r.1 :: r.2) = _ :=
      prepareWriteCb_next handle hvalue hlength h
    simp only [hstatus, react, hnext, Nat.add_zero, turnOf]
  · obtain ⟨events, hreact⟩ : ∃ events, react buflen
        (.prepareWriteCb handle value (UInt16.ofNat offset)) (statusOf r.1 r.2) (r.1 :: r.2) =
          .finish events := react_of_error hstatus
    refine .inl ⟨events, ?_⟩
    rw [hreact, turnOf]

end Procedures

section Peer

variable {owner : Nat} {req rsp : Pdu} (queue : List (Nat × Pdu))

/-- Only the requests of long writes concern the queue. -/
theorem peerStep_of_short (h : isLong req = false) :
    peerStep queue (.answered owner req rsp) = queue := by
  simp only [isLong, decide_eq_false_iff_not, not_or] at h
  simp [peerStep, h.1, h.2]

/-- An error leaves the queue as it is. -/
theorem peerStep_of_error (h : byteAt rsp 0 = opErrorRsp) :
    peerStep queue (.answered owner req rsp) = queue := by
  have hpart : opErrorRsp ≠ opPrepWriteRsp := by decide
  have hexec : opErrorRsp ≠ opExecWriteRsp := by decide
  simp only [peerStep, h, hpart, hexec, and_false, if_false]

/-- A part that is accepted is queued. -/
theorem peerStep_of_part {handle : UInt16} {offset : Nat} {p : List UInt8}
    (h : Grants (prepWriteReq handle offset p) rsp) :
    peerStep queue (.answered owner (prepWriteReq handle offset p) rsp) =
      queue ++ [(owner, prepWriteReq handle offset p)] := by
  have hrsp : byteAt rsp 0 = opPrepWriteRsp := by
    simpa [attReqRspMappingTable, prepWriteReq, byteAt, opPrepWriteReq] using
      mem_of_getReqOpcode h.2.1 (by simp [byteAt, prepWriteReq, opPrepWriteReq])
  exact if_pos ⟨rfl, hrsp⟩

/-- An Execute Write Request that is accepted empties the queue. -/
theorem peerStep_of_execute (h : Grants execWriteReq rsp) :
    peerStep queue (.answered owner execWriteReq rsp) = [] := by
  have hrsp : byteAt rsp 0 = opExecWriteRsp := by
    simpa [attReqRspMappingTable, execWriteReq, byteAt, opExecWriteReq] using
      mem_of_getReqOpcode h.2.1 nofun
  exact if_pos ⟨rfl, hrsp⟩

end Peer

/-! ### Long writes that do not mix -/

/-- The procedure `o` is the long write of `value`. -/
structure LongWrite (buflen : Nat) (started : List (Pdu × Proc)) (o : Nat) (handle : UInt16)
    (value : List UInt8) : Prop where
  started_eq : started[o]? = some (Call.begin buflen (.write handle value))
  length_le : value.length ≤ 255
  lt_length : buflen - 3 < value.length

/-- The queue has the parts of the long write `o`, all of them and no others. -/
def Whole (buflen : Nat) (started : List (Pdu × Proc)) (o : Nat) (queue : List (Nat × Pdu)) :
    Prop :=
  ∃ handle value parts, LongWrite buflen started o handle value ∧ parts.flatten = value ∧
    queue = chunks o handle parts

/-- How far the long writes of a pipeline have come: which of their requests wait for an answer,
and what the queue of the peer holds. -/
inductive Progress (buflen : Nat) (started : List (Pdu × Proc)) :
    List (Task Pdu Proc) → List (Nat × Pdu) → Prop
  | idle : Progress buflen started [] []
  | sending {o : Nat} {handle : UInt16} {value : List UInt8} {parts : List (List UInt8)}
      {offset : Nat} (write : LongWrite buflen started o handle value)
      (done : PartsUpTo buflen value parts offset) (lt : offset < value.length) :
    Progress buflen started
      [⟨o, prepWriteReq handle offset (part buflen value offset),
        .prepareWriteCb handle value (UInt16.ofNat offset)⟩]
      (chunks o handle parts)
  | executing {o : Nat} {handle : UInt16} {value : List UInt8} {parts : List (List UInt8)}
      (write : LongWrite buflen started o handle value)
      (done : PartsUpTo buflen value parts value.length) :
    Progress buflen started [⟨o, execWriteReq, .charWriteCb⟩] (chunks o handle parts)
  /-- The next long write waits behind the Execute Write Request. -/
  | executingNext {o o' : Nat} {handle handle' : UInt16} {value value' : List UInt8}
      {parts : List (List UInt8)} (write : LongWrite buflen started o handle value)
      (done : PartsUpTo buflen value parts value.length)
      (write' : LongWrite buflen started o' handle' value') :
    Progress buflen started
      [⟨o, execWriteReq, .charWriteCb⟩,
        ⟨o', prepWriteReq handle' 0 (part buflen value' 0), .prepareWriteCb handle' value' 0⟩]
      (chunks o handle parts)

/-- The requests of long writes that wait for an answer. -/
def longTasks (p : Pipeline Pdu Pdu Proc Event) : List (Task Pdu Proc) :=
  p.waiting.filter longTask

/-- The long writes of a pipeline do not mix. -/
structure Unmixed (buflen : Nat) (p : Pipeline Pdu Pdu Proc Event) : Prop where
  progress : Progress buflen p.started (longTasks p) (peerQueue p.history)
  others : ∀ task ∈ p.waiting, isLong task.req = false → plain task.cont = true
  commits : Pipeline.AtEvery (fun before e => ∀ o req, e = .sent o req →
    byteAt req 0 = opExecWriteReq → Whole buflen p.started o (peerQueue before)) p.history

/-- No long write is started while parts of another one are sent, and the peer refuses nothing of a
long write but its first part. -/
def OneByOne (buflen : Nat) (p : Pipeline Pdu Pdu Proc Event) :
    Pipeline.Label Pdu Pdu Proc → Prop
  | .submit req cont => ∃ call, Admissible call ∧ call.begin buflen = (req, cont) ∧
    (byteAt req 0 = opPrepWriteReq → ∀ task ∈ p.waiting, byteAt task.req 0 ≠ opPrepWriteReq)
  | .send => True
  | .answer rsp => ∀ task, p.pending = some task → isLong task.req = true →
    Grants task.req rsp ∨
      (byteAt task.req 0 = opPrepWriteReq ∧ getLe16 task.req 3 = 0 ∧ byteAt rsp 0 = opErrorRsp)
  | .retry rsp => byteAt rsp 0 = opErrorRsp

section Unmixed

variable {buflen : Nat} {started : List (Pdu × Proc)} {p q : Pipeline Pdu Pdu Proc Event}
  {label : Pipeline.Label Pdu Pdu Proc}

theorem LongWrite.mono {o : Nat} {handle : UInt16} {value : List UInt8}
    (h : LongWrite buflen started o handle value) (more : List (Pdu × Proc)) :
    LongWrite buflen (started ++ more) o handle value := by
  obtain ⟨hstarted, hle, hlt⟩ := h
  have ho := (List.getElem?_eq_some_iff.mp hstarted).1
  exact ⟨(List.getElem?_append_left ho).trans hstarted, hle, hlt⟩

theorem Whole.mono {o : Nat} {queue : List (Nat × Pdu)} (h : Whole buflen started o queue)
    (more : List (Pdu × Proc)) : Whole buflen (started ++ more) o queue := by
  obtain ⟨handle, value, parts, write, hparts, hqueue⟩ := h
  exact ⟨handle, value, parts, write.mono more, hparts, hqueue⟩

theorem Progress.mono {tasks : List (Task Pdu Proc)} {queue : List (Nat × Pdu)}
    (h : Progress buflen started tasks queue) (more : List (Pdu × Proc)) :
    Progress buflen (started ++ more) tasks queue := by
  cases h with
  | idle => exact .idle
  | sending write done lt => exact .sending (write.mono more) done lt
  | executing write done => exact .executing (write.mono more) done
  | executingNext write done write' =>
    exact .executingNext (write.mono more) done (write'.mono more)

theorem PartsUpTo.eq_nil {value : List UInt8} {parts : List (List UInt8)}
    (h : PartsUpTo buflen value parts 0) : parts = [] := by
  cases parts with
  | nil => rfl
  | cons first parts =>
    have hlength := h.length_eq
    rw [List.flatten_cons, List.length_append] at hlength
    exact absurd (List.length_eq_zero_iff.mp (by omega)) (h.small first List.mem_cons_self).1

/-- An Execute Write Request waits only for the parts that are queued. -/
theorem Progress.whole {task : Task Pdu Proc} {tasks : List (Task Pdu Proc)}
    {queue : List (Nat × Pdu)} (h : Progress buflen started (task :: tasks) queue)
    (hreq : byteAt task.req 0 = opExecWriteReq) : Whole buflen started task.owner queue := by
  cases h with
  | sending write done lt => cases hreq
  | executing write done => exact ⟨_, _, _, write, done.flatten_eq_value rfl, rfl⟩
  | executingNext write done write' => exact ⟨_, _, _, write, done.flatten_eq_value rfl, rfl⟩

/-- What the answer to the first long request leads to. -/
theorem Progress.answered {task : Task Pdu Proc} {tasks : List (Task Pdu Proc)}
    {queue : List (Nat × Pdu)} {rsp : Pdu} (hbuf : 23 ≤ buflen)
    (h : Progress buflen started (task :: tasks) queue)
    (hrsp : Grants task.req rsp ∨ (byteAt task.req 0 = opPrepWriteReq ∧
      getLe16 task.req 3 = 0 ∧ byteAt rsp 0 = opErrorRsp)) :
    Progress buflen started
      (tasks ++ ((reactTo buflen task.req task.cont rsp).tasks task.owner).filter longTask)
      (peerStep queue (.answered task.owner task.req rsp)) := by
  have executed : Grants execWriteReq rsp ∨ (byteAt execWriteReq 0 = opPrepWriteReq ∧
      getLe16 execWriteReq 3 = 0 ∧ byteAt rsp 0 = opErrorRsp) → Grants execWriteReq rsp := by
    rintro (hgrants | ⟨hprep, -⟩)
    · exact hgrants
    · cases hprep
  cases h with
  | @sending o handle value parts offset write done lt =>
    rcases hrsp with hgrants | ⟨-, hoffset, herror⟩
    · have done' := done.concat hbuf lt
      have hqueue : peerStep (chunks o handle parts)
          (.answered o (prepWriteReq handle offset (part buflen value offset)) rsp) =
            chunks o handle (parts ++ [part buflen value offset]) := by
        rw [peerStep_of_part _ hgrants, chunks_concat, done.length_eq]
      rw [hqueue]
      by_cases hlt : offset + (part buflen value offset).length < value.length
      · rw [reactTo_next write.length_le hgrants hlt]
        exact .sending write done' hlt
      · have heq : offset + (part buflen value offset).length = value.length := by
          have hlength := length_part buflen value offset
          omega
        rw [reactTo_last write.length_le hgrants heq]
        exact .executing write (heq ▸ done')
    · -- the first part is refused
      have hzero : UInt16.ofNat offset = 0 :=
        (getLe16_putLe16 (UInt16.ofNat offset) (part buflen value offset)).symm.trans hoffset
      have hle := write.length_le
      obtain rfl : offset = 0 := by
        have hoffset := toNat_ofNat_offset (Nat.le_trans (Nat.le_of_lt lt) hle)
        rw [← hoffset, hzero]
        rfl
      obtain rfl := done.eq_nil
      rw [peerStep_of_error _ herror]
      rcases reactTo_error buflen handle write.length_le lt herror with
        ⟨events, hreact⟩ | hreact
      · rw [hreact]
        exact .idle
      · rw [hreact]
        exact .sending write done lt
  | executing write done =>
    obtain ⟨events, hreact⟩ := reactTo_charWriteCb buflen execWriteReq rsp
    rw [hreact, peerStep_of_execute _ (executed hrsp)]
    exact .idle
  | executingNext write done write' =>
    obtain ⟨events, hreact⟩ := reactTo_charWriteCb buflen execWriteReq rsp
    rw [hreact, peerStep_of_execute _ (executed hrsp)]
    exact .sending write' .zero (Nat.lt_of_le_of_lt (Nat.zero_le _) write'.lt_length)

/-- A long write goes on with requests of long writes. -/
theorem Progress.tasks_long {task : Task Pdu Proc} {tasks : List (Task Pdu Proc)}
    {queue : List (Nat × Pdu)} {rsp : Pdu} (h : Progress buflen started (task :: tasks) queue) :
    ∀ t ∈ (reactTo buflen task.req task.cont rsp).tasks task.owner, isLong t.req = true := by
  intro t ht
  cases hreact : reactTo buflen task.req task.cont rsp with
  | done events =>
    rw [hreact] at ht
    cases ht
  | next req cont =>
    rw [hreact] at ht
    obtain rfl := List.mem_singleton.mp ht
    cases h with
    | sending write done lt => exact isLong_of_reactTo hreact
    | executing write done => cases hreact
    | executingNext write done write' => cases hreact

/-- Another long write is started. -/
theorem Progress.submitted {tasks : List (Task Pdu Proc)} {queue : List (Nat × Pdu)} {o : Nat}
    {handle : UInt16} {value : List UInt8} (h : Progress buflen started tasks queue)
    (write : LongWrite buflen started o handle value)
    (alone : ∀ task ∈ tasks, byteAt task.req 0 ≠ opPrepWriteReq) :
    Progress buflen started
      (tasks ++ [⟨o, prepWriteReq handle 0 (part buflen value 0), .prepareWriteCb handle value 0⟩])
      queue := by
  cases h with
  | idle => exact .sending write .zero (Nat.lt_of_le_of_lt (Nat.zero_le _) write.lt_length)
  | sending write' done lt => exact absurd rfl (alone _ List.mem_cons_self)
  | executing write' done => exact .executingNext write' done write
  | executingNext write' done write'' =>
    exact absurd rfl (alone _ (List.mem_cons_of_mem _ List.mem_cons_self))

namespace Unmixed

theorem init : Unmixed buflen Pipeline.init := by
  refine ⟨.idle, nofun, fun before e after h => ?_⟩
  cases before <;> cases h

/-- A call is made. -/
theorem submit {req : Pdu} {cont : Proc} (h : Unmixed buflen p)
    (one : OneByOne buflen p (.submit req cont)) : Unmixed buflen (p.submit req cont) := by
  obtain ⟨call, admissible, hbegin, alone⟩ := one
  have hwaiting := Pipeline.waiting_submit (p := p) req cont
  have hlong : longTasks (p.submit req cont) = longTasks p ++
      [⟨p.started.length, req, cont⟩].filter longTask := by
    rw [longTasks, hwaiting, List.filter_append]
    rfl
  refine ⟨?_, fun task htask hshort => ?_, fun before e after heq o r he hr =>
    (h.commits before e after heq o r he hr).mono _⟩
  · rw [hlong]
    show Progress buflen (p.started ++ [(req, cont)]) _ (peerQueue p.history)
    rcases begin_cases buflen call admissible with
      ⟨handle, value, rfl, hle, hlt, hcall⟩ | ⟨hshort, -⟩
    · obtain ⟨rfl, rfl⟩ := Prod.mk.inj (hcall.symm.trans hbegin)
      refine (h.progress.mono _).submitted ⟨?_, hle, hlt⟩ fun task htask =>
        alone rfl task (List.mem_of_mem_filter htask)
      rw [List.getElem?_concat_length, hcall]
    · rw [hbegin] at hshort
      rw [List.filter_cons_of_neg (by simp [hshort]), List.filter_nil, List.append_nil]
      exact h.progress.mono _
  · rw [hwaiting] at htask
    rcases List.mem_append.mp htask with htask | htask
    · exact h.others task htask hshort
    · obtain rfl := List.mem_singleton.mp htask
      rcases begin_cases buflen call admissible with
        ⟨handle, value, rfl, hle, hlt, hcall⟩ | ⟨-, hplain⟩
      · obtain ⟨rfl, rfl⟩ := Prod.mk.inj (hcall.symm.trans hbegin)
        cases hshort
      · rw [hbegin] at hplain
        exact hplain

/-- A request is sent. -/
theorem send {task : Task Pdu Proc} {queue : List (Task Pdu Proc)} (h : Unmixed buflen p)
    (hpending : p.pending = none) (hqueue : p.queue = task :: queue) :
    Unmixed buflen (p.send task queue) := by
  have hwaiting := Pipeline.waiting_send hpending hqueue
  have hlong : longTasks (p.send task queue) = longTasks p := by
    rw [longTasks, hwaiting, longTasks]
  have hpeer : peerQueue (p.send task queue).history = peerQueue p.history := peerQueue_concat _ _
  refine ⟨?_, hwaiting ▸ h.others, h.commits.concat ?_⟩
  · rw [hlong, hpeer]
    exact h.progress
  · rintro o req hsent hreq
    obtain ⟨rfl, rfl⟩ := Exchange.sent.inj hsent
    have hmine : isLong task.req = true := by simp [isLong, hreq]
    have hfirst : longTasks p = task :: queue.filter longTask := by
      rw [longTasks, Pipeline.waiting, hpending, hqueue]
      exact List.filter_cons_of_pos hmine
    have hprogress := h.progress
    rw [hfirst] at hprogress
    exact hprogress.whole hreq

/-- The pending request is answered. -/
theorem answer {task : Task Pdu Proc} {rsp : Pdu} (hbuf : 23 ≤ buflen) (h : Unmixed buflen p)
    (hpending : p.pending = some task) (one : OneByOne buflen p (.answer rsp)) :
    Unmixed buflen (p.settle task rsp (reactTo buflen task.req task.cont rsp)) := by
  have hwaiting := Pipeline.waiting_of_pending hpending
  have hlong : longTasks (p.settle task rsp (reactTo buflen task.req task.cont rsp)) =
      (p.queue.filter longTask) ++
        ((reactTo buflen task.req task.cont rsp).tasks task.owner).filter longTask := by
    rw [longTasks, Pipeline.waiting_settle, List.filter_append]
  have hprogress := h.progress
  rw [longTasks, hwaiting] at hprogress
  have hrest : ∀ t ∈ p.queue, isLong t.req = false → plain t.cont = true :=
    fun t ht => h.others t (hwaiting ▸ List.mem_cons_of_mem _ ht)
  by_cases hmine : isLong task.req = true
  · rw [List.filter_cons_of_pos (p := longTask) hmine] at hprogress
    have hnext := hprogress.answered hbuf (one task hpending hmine)
    refine ⟨?_, fun t ht hshort => ?_, ?_⟩
    · rw [hlong, Pipeline.history_settle, peerQueue_concat, Pipeline.started_settle]
      exact hnext
    · rw [Pipeline.waiting_settle] at ht
      rcases List.mem_append.mp ht with ht | ht
      · exact hrest t ht hshort
      · -- what a long write goes on with is long
        have hrefused : ∀ t ∈ (reactTo buflen task.req task.cont rsp).tasks task.owner,
            isLong t.req = true := hprogress.tasks_long
        rw [hrefused t ht] at hshort
        cases hshort
    · rw [Pipeline.history_settle, Pipeline.started_settle]
      exact h.commits.concat nofun
  · have hshort := eq_false_of_ne_true hmine
    rw [List.filter_cons_of_neg (p := longTask) hmine] at hprogress
    have hplain := h.others task (hwaiting ▸ List.mem_cons_self) hshort
    have htasks : ∀ t ∈ (reactTo buflen task.req task.cont rsp).tasks task.owner,
        isLong t.req = false ∧ plain t.cont = true := by
      intro t ht
      cases hreact : reactTo buflen task.req task.cont rsp with
      | next req cont =>
        rw [hreact] at ht
        obtain rfl := List.mem_singleton.mp ht
        exact plain_of_reactTo hplain hreact
      | done events =>
        rw [hreact] at ht
        cases ht
    have hnone : ((reactTo buflen task.req task.cont rsp).tasks task.owner).filter longTask = [] :=
      List.filter_eq_nil_iff.mpr fun t ht => by simp [(htasks t ht).1]
    refine ⟨?_, fun t ht hshort' => ?_, ?_⟩
    · rw [hlong, Pipeline.history_settle, peerQueue_concat, Pipeline.started_settle,
        peerStep_of_short _ hshort, hnone, List.append_nil]
      exact hprogress
    · rw [Pipeline.waiting_settle] at ht
      rcases List.mem_append.mp ht with ht | ht
      · exact hrest t ht hshort'
      · exact (htasks t ht).2
    · rw [Pipeline.history_settle, Pipeline.started_settle]
      exact h.commits.concat nofun

/-- **Long writes that do not mix stay so.** -/
theorem step (hbuf : 23 ≤ buflen) (h : Unmixed buflen p) (one : OneByOne buflen p label)
    (hstep : Pipeline.step (reactTo buflen) p label = some q) : Unmixed buflen q := by
  cases label with
  | submit req cont =>
    obtain rfl := Option.some.inj hstep
    exact h.submit one
  | send =>
    obtain ⟨task, queue, hpending, hqueue, rfl⟩ := Pipeline.step_send hstep
    exact h.send hpending hqueue
  | answer rsp =>
    obtain ⟨task, hpending, rfl⟩ := Pipeline.step_answer hstep
    exact h.answer hbuf hpending one
  | retry rsp =>
    obtain ⟨task, hpending, rfl⟩ := Pipeline.step_retry hstep
    have hwaiting := Pipeline.waiting_requeue rsp hpending
    have hpeer : peerQueue (p.requeue task rsp).history = peerQueue p.history := by
      rw [Pipeline.requeue, peerQueue_concat, peerStep_of_error _ one]
    refine ⟨?_, hwaiting ▸ h.others, h.commits.concat (by simp)⟩
    rw [longTasks, hwaiting, hpeer]
    exact h.progress

end Unmixed

end Unmixed

end Link

end Libble
