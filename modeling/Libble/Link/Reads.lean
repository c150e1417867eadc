import Libble.Gatt.LongRead
import Libble.Link.Writes

/-!
# Reading a value

`lble_request` reads a value part by part and calls `char_read_cb` with what it has put together.
The calls of `char_read_cb` are found by replaying the dialogue of the operation through the
callbacks of `bluez/attrib/gatt.c`, which is a course of the operation whose outputs are calls
instead of events.

## Main definitions

* `Link.heard`: the status and the PDU that a callback is called with.
* `Link.callTo`: what a read does with a response, with its call of `char_read_cb` as output.
* `Link.ServesRead`: the peer has a value.
* `Link.readRequests`: the requests that read a value.

## Main results

* `Link.read_of_course`: how far a read has come.
* `Link.request_exact`: `lble_request` reads the value of the peer.
-/

namespace Libble

open Att Gatt

namespace Link

/-! ### What a read does -/

/-- The status and the PDU that the callback of a request is called with. -/
def heard (req rsp : Pdu) : UInt8 × Pdu :=
  let r := responseOf (byteAt req 0) (byteAt rsp 0) (rsp.drop 1)
  (statusOf r.1 r.2, r.1 :: r.2)

/-- What a read does with a response; its output is its call of `char_read_cb`. -/
def callTo (buflen : Nat) (req : Pdu) (proc : Proc) (rsp : Pdu) : Turn Pdu Proc ReadCall :=
  let (status, rpdu) := heard req rsp
  match readCall buflen proc status rpdu, react buflen proc status rpdu with
  | some call, _ => .done [call]
  | none, .send pdu next => .next pdu next
  | none, .finish _ => .done []

section Reactions

variable {buflen : Nat} {req rsp : Pdu} {proc : Proc}

theorem reactTo_eq : reactTo buflen req proc rsp =
    turnOf (react buflen proc (heard req rsp).1 (heard req rsp).2) := rfl

theorem heard_of_grants (h : Grants req rsp) (hrsp : rsp ≠ []) : heard req rsp = (0, rsp) := by
  obtain ⟨hne, hreq, -⟩ := h
  have hcons : byteAt rsp 0 :: rsp.drop 1 = rsp := by
    cases rsp with
    | nil => exact absurd rfl hrsp
    | cons opcode pdu => rfl
  have hanswered : answeredOpcode (byteAt rsp 0) (rsp.drop 1) = byteAt req 0 := by
    simp only [answeredOpcode, if_neg hne, hreq]
  have hstatus : statusOf (byteAt rsp 0) (rsp.drop 1) = 0 := if_neg hne
  simp only [heard, responseOf, if_pos hanswered, hstatus, hcons]

theorem heard_of_error {opcode lo hi code : UInt8} (hreq : byteAt req 0 = opcode) :
    heard req [opErrorRsp, opcode, lo, hi, code] =
      (code, [opErrorRsp, opcode, lo, hi, code]) := by
  have hanswered : answeredOpcode opErrorRsp [opcode, lo, hi, code] = byteAt req 0 := hreq.symm
  have hopcode : byteAt [opErrorRsp, opcode, lo, hi, code] 0 = opErrorRsp := rfl
  have hrest : [opErrorRsp, opcode, lo, hi, code].drop 1 = [opcode, lo, hi, code] := rfl
  simp only [heard, hopcode, hrest, responseOf, if_pos hanswered]
  rfl

/-- A read that calls `char_read_cb` is over. -/
theorem turns_of_readCall {call : ReadCall}
    (h : readCall buflen proc (heard req rsp).1 (heard req rsp).2 = some call) :
    reactTo buflen req proc rsp = .done (call.events proc.readHandle) ∧
      callTo buflen req proc rsp = .done [call] := by
  refine ⟨?_, ?_⟩
  · exact congrArg turnOf (react_of_readCall h)
  · simp only [callTo, h]

/-- A read that sends another request is not. -/
theorem turns_of_send {pdu : Pdu} {next : Proc}
    (h : react buflen proc (heard req rsp).1 (heard req rsp).2 = .send pdu next) :
    reactTo buflen req proc rsp = .next pdu next ∧ callTo buflen req proc rsp = .next pdu next := by
  refine ⟨congrArg turnOf h, ?_⟩
  cases hcall : readCall buflen proc (heard req rsp).1 (heard req rsp).2 with
  | some call => cases h.symm.trans (react_of_readCall hcall)
  | none => simp only [callTo, hcall, h]

end Reactions

/-! ### The course of a read -/

/-- The peer has a value: a Read Request and the Read Blob Requests before its end are answered
with its parts, and behind its end comes nothing. -/
structure ServesRead (buflen : Nat) (handle : UInt16) (value : List UInt8)
    (Answered : Pdu → Pdu → Prop) : Prop where
  read : ∀ rsp, Answered (encReadReq handle) rsp → rsp = opReadRsp :: value.take (buflen - 1)
  blob : ∀ offset rsp, offset < value.length →
    Answered (encReadBlobReq handle (UInt16.ofNat offset)) rsp →
      rsp = opReadBlobRsp :: blob buflen value offset
  last : ∀ rsp, Answered (encReadBlobReq handle (UInt16.ofNat value.length)) rsp → EndsValue rsp

theorem ServesRead.mono {buflen : Nat} {handle : UInt16} {value : List UInt8}
    {Answered Answered' : Pdu → Pdu → Prop} (h : ServesRead buflen handle value Answered)
    (weaker : ∀ {req rsp}, Answered' req rsp → Answered req rsp) :
    ServesRead buflen handle value Answered' :=
  ⟨fun rsp answered => h.read rsp (weaker answered),
    fun offset rsp lt answered => h.blob offset rsp lt (weaker answered),
    fun rsp answered => h.last rsp (weaker answered)⟩

/-- The requests that read a value: a Read Request, and a Read Blob Request for each multiple of
the length of a part up to the length of the value. -/
def readRequests (buflen : Nat) (handle : UInt16) (value : List UInt8) : List Pdu :=
  encReadReq handle :: (List.range (value.length / (buflen - 1))).map fun n =>
    encReadBlobReq handle (UInt16.ofNat ((n + 1) * (buflen - 1)))

section Course

variable {buflen : Nat} {handle : UInt16} {value : List UInt8} {o : Nat}

/-- How far a read has come after a number of requests. -/
inductive ReadProgress (buflen : Nat) (handle : UInt16) (value : List UInt8) :
    Nat → Pipeline.Phase Pdu Proc Event → Pipeline.Phase Pdu Proc ReadCall → Prop
  | queued {n : Nat} (le : blobOffset buflen n ≤ value.length) :
    ReadProgress buflen handle value n
      (.queued (readStage buflen handle value n).1 (readStage buflen handle value n).2)
      (.queued (readStage buflen handle value n).1 (readStage buflen handle value n).2)
  | pending {n : Nat} (le : blobOffset buflen n ≤ value.length) :
    ReadProgress buflen handle value (n + 1)
      (.pending (readStage buflen handle value n).1 (readStage buflen handle value n).2)
      (.pending (readStage buflen handle value n).1 (readStage buflen handle value n).2)
  | ended {n : Nat} (le : blobOffset buflen n ≤ value.length)
      (lt : value.length < blobOffset buflen (n + 1)) :
    ReadProgress buflen handle value (n + 1) (.ended ((valueCall value).events handle))
      (.ended [valueCall value])

theorem readHandle_readStage (n : Nat) :
    (readStage buflen handle value n).2.readHandle = handle := by
  cases n with
  | zero => rfl
  | succ n => rfl

/-- The answer to the request `n` is the part that was asked for, or the value has ended. -/
theorem answer_cases {Answered : Pdu → Pdu → Prop}
    (serves : ServesRead buflen handle value Answered)
    {n : Nat} (le : blobOffset buflen n ≤ value.length) {rsp : Pdu}
    (h : Answered (readStage buflen handle value n).1 rsp) :
    (rsp = partRsp buflen value n ∧ (n = 0 ∨ blobOffset buflen n < value.length)) ∨
      ((∃ k, n = k + 1) ∧ blobOffset buflen n = value.length ∧ EndsValue rsp) := by
  cases n with
  | zero =>
    refine .inl ⟨?_, .inl rfl⟩
    rw [serves.read rsp h, partRsp, blobOffset_zero]
    rfl
  | succ n =>
    rcases Nat.lt_or_eq_of_le le with hlt | heq
    · exact .inl ⟨serves.blob _ rsp hlt h, .inr hlt⟩
    · exact .inr ⟨⟨n, rfl⟩, heq, serves.last rsp (heq ▸ h)⟩

theorem heard_partRsp (n : Nat) :
    heard (readStage buflen handle value n).1 (partRsp buflen value n) =
      (0, partRsp buflen value n) := by
  cases n with
  | zero =>
    have hne : opReadRsp ≠ opErrorRsp := by decide
    exact heard_of_grants ⟨hne, rfl, nofun⟩ (List.cons_ne_nil _ _)
  | succ n =>
    have hne : opReadBlobRsp ≠ opErrorRsp := by decide
    exact heard_of_grants ⟨hne, rfl, nofun⟩ (List.cons_ne_nil _ _)

/-- An answer behind the end of the value is empty or an error. -/
theorem heard_end {n : Nat} {rsp : Pdu} (h : EndsValue rsp) :
    (heard (readStage buflen handle value (n + 1)).1 rsp).1 ≠ 0 ∨
      (heard (readStage buflen handle value (n + 1)).1 rsp).2.length = 1 := by
  rcases h with rfl | ⟨lo, hi, code, hcode, rfl⟩
  · have hne : opReadBlobRsp ≠ opErrorRsp := by decide
    have hgrants : Grants (readStage buflen handle value (n + 1)).1 [opReadBlobRsp] :=
      ⟨hne, rfl, nofun⟩
    refine .inr ?_
    rw [heard_of_grants hgrants (List.cons_ne_nil _ _)]
    rfl
  · have hne : code ≠ 0 := by
      rcases hcode with rfl | rfl
      · decide
      · decide
    refine .inl ?_
    rw [heard_of_error (by rfl)]
    exact hne

/-- What the peer answers does not have a request sent again. -/
theorem not_securing_partRsp (n : Nat) : ¬ Securing (partRsp buflen value n) := by
  rintro ⟨hop, -⟩
  cases n with
  | zero => cases hop
  | succ n => cases hop

theorem not_securing_end {rsp : Pdu} (h : EndsValue rsp) : ¬ Securing rsp := by
  rcases h with rfl | ⟨lo, hi, code, hcode, rfl⟩
  · exact fun securing => nomatch securing.1
  · have hne : code ≠ 0x05 ∧ code ≠ 0x0f := by
      rcases hcode with rfl | rfl
      · decide
      · decide
    exact not_securing hne.1 hne.2

/-- What a read does with an answer of the peer: it asks for the next part, or it calls
`char_read_cb` with the value. -/
theorem turns_of_answer (hbuf : 23 ≤ buflen) (hvalue : value.length ≤ 512)
    {Answered : Pdu → Pdu → Prop} (serves : ServesRead buflen handle value Answered) {n : Nat}
    (le : blobOffset buflen n ≤ value.length) {rsp : Pdu}
    (h : Answered (readStage buflen handle value n).1 rsp) :
    ¬ Securing rsp ∧
      ((blobOffset buflen (n + 1) ≤ value.length ∧
        reactTo buflen (readStage buflen handle value n).1 (readStage buflen handle value n).2 rsp =
          .next (readStage buflen handle value (n + 1)).1
            (readStage buflen handle value (n + 1)).2 ∧
        callTo buflen (readStage buflen handle value n).1 (readStage buflen handle value n).2 rsp =
          .next (readStage buflen handle value (n + 1)).1
            (readStage buflen handle value (n + 1)).2) ∨
      (value.length < blobOffset buflen (n + 1) ∧
        reactTo buflen (readStage buflen handle value n).1 (readStage buflen handle value n).2 rsp =
          .done ((valueCall value).events handle) ∧
        callTo buflen (readStage buflen handle value n).1 (readStage buflen handle value n).2 rsp =
          .done [valueCall value])) := by
  have ends : readCall buflen (readStage buflen handle value n).2
        (heard (readStage buflen handle value n).1 rsp).1
        (heard (readStage buflen handle value n).1 rsp).2 = some (valueCall value) →
      reactTo buflen (readStage buflen handle value n).1 (readStage buflen handle value n).2 rsp =
          .done ((valueCall value).events handle) ∧
        callTo buflen (readStage buflen handle value n).1 (readStage buflen handle value n).2 rsp =
          .done [valueCall value] := by
    intro hcall
    have turns := turns_of_readCall hcall
    rw [readHandle_readStage] at turns
    exact turns
  rcases answer_cases serves le h with ⟨rfl, hlt⟩ | ⟨⟨k, rfl⟩, heq, hend⟩
  · refine ⟨not_securing_partRsp n, ?_⟩
    rcases Nat.lt_or_ge value.length (blobOffset buflen (n + 1)) with hlast | hnext
    · refine .inr ⟨hlast, ends ?_⟩
      rw [heard_partRsp]
      exact readCall_readStage hbuf hvalue hlt hlast
    · refine .inl ⟨hnext, turns_of_send ?_⟩
      rw [heard_partRsp]
      exact react_readStage hbuf hvalue hnext
  · have hsucc : blobOffset buflen (k + 1 + 1) = blobOffset buflen (k + 1) + (buflen - 1) :=
      blobOffset_succ (k + 1)
    exact ⟨not_securing_end hend,
      .inr ⟨by omega, ends (readCall_end heq (heard_end hend))⟩⟩

/-- **How far a read has come.** Against a peer that has the value the requests are those for its
parts, and the read ends with one call of `char_read_cb` with the whole value. -/
theorem read_of_course (hbuf : 23 ≤ buflen) (hvalue : value.length ≤ 512)
    {dialogue : List (Exchange Pdu Pdu)} {phase : Pipeline.Phase Pdu Proc Event}
    (course : Pipeline.Course (reactTo buflen) Securing o (readStage buflen handle value 0) dialogue
      phase)
    (serves : ServesRead buflen handle value fun req rsp => .answered o req rsp ∈ dialogue) :
    ∃ n calls, ReadProgress buflen handle value n phase calls ∧
      Pipeline.asked dialogue = (List.range n).map (fun n => (readStage buflen handle value n).1) ∧
      Pipeline.Course (callTo buflen) (fun _ => False) o (readStage buflen handle value 0) dialogue
        calls := by
  induction course with
  | start =>
    refine ⟨0, _, .queued ?_, rfl, .start⟩
    rw [blobOffset_zero]
    exact Nat.zero_le _
  | @send dialogue req cont before ih =>
    obtain ⟨n, calls, progress, hasked, course⟩ :=
      ih (serves.mono fun h => List.mem_append_left _ h)
    cases progress with
    | queued le =>
      refine ⟨n + 1, _, .pending le, ?_, course.send⟩
      rw [Pipeline.asked_sent, hasked, List.range_succ, List.map_append]
      rfl
  | @answer dialogue req cont before rsp ih =>
    obtain ⟨n, calls, progress, hasked, course⟩ :=
      ih (serves.mono fun h => List.mem_append_left _ h)
    cases progress with
    | @pending n le =>
      have answered := course.answer rsp
      have turns := turns_of_answer hbuf hvalue serves le
        (List.mem_append_right _ List.mem_cons_self)
      rw [Pipeline.asked_answered]
      rcases turns.2 with ⟨hnext, hreact, hcall⟩ | ⟨hlast, hreact, hcall⟩
      · rw [hreact]
        rw [hcall] at answered
        exact ⟨n + 1, _, .queued hnext, hasked, answered⟩
      · rw [hreact]
        rw [hcall] at answered
        exact ⟨n + 1, _, .ended le hlast, hasked, answered⟩
  | @retry dialogue req cont before rsp h ih =>
    obtain ⟨n, calls, progress, hasked, course⟩ :=
      ih (serves.mono fun h => List.mem_append_left _ h)
    cases progress with
    | @pending n le =>
      have turns := turns_of_answer hbuf hvalue serves le
        (List.mem_append_right _ List.mem_cons_self)
      exact absurd h turns.1

/-- The requests of the stages. -/
theorem readRequests_eq : readRequests buflen handle value =
    (List.range (value.length / (buflen - 1) + 1)).map
      fun n => (readStage buflen handle value n).1 := by
  rw [List.range_succ_eq_map, List.map_cons, List.map_map]
  rfl

theorem range_map_isPrefix {n : Nat}
    (le : n ≤ value.length / (buflen - 1) + 1) :
    (List.range n).map (fun n => (readStage buflen handle value n).1) <+:
      readRequests buflen handle value := by
  obtain ⟨k, hk⟩ := Nat.exists_eq_add_of_le le
  rw [readRequests_eq, hk, List.range_add, List.map_append]
  exact List.prefix_append _ _

theorem offset_encReadBlobReq (handle offset : UInt16) :
    getLe16 (encReadBlobReq handle offset) 3 = offset := by
  have hright := getLe16_append_right (opReadBlobReq :: putLe16 handle) (putLe16 offset) 0
  have hput := getLe16_putLe16 offset []
  rw [List.append_nil] at hput
  exact hright.trans hput

/-- Nothing behind the end of the value is asked for. -/
theorem offset_le (hbuf : 23 ≤ buflen) (hvalue : value.length ≤ 512) {offset : UInt16}
    (h : encReadBlobReq handle offset ∈ readRequests buflen handle value) :
    offset.toNat ≤ value.length := by
  rcases List.mem_cons.mp h with h | h
  · cases h
  · obtain ⟨n, hn, heq⟩ := List.mem_map.mp h
    have hle : blobOffset buflen (n + 1) ≤ value.length :=
      (blobOffset_le_iff (by omega)).mpr (List.mem_range.mp hn)
    have hoffset : offset = UInt16.ofNat (blobOffset buflen (n + 1)) := by
      rw [← offset_encReadBlobReq handle offset, ← heq, offset_encReadBlobReq]
      rfl
    rw [hoffset, UInt16.toNat_ofNat_of_lt' (show _ < 2 ^ 16 by omega)]
    exact hle

end Course

/-! ### Runs -/

section Runs

variable {s : Link} {mtu : Mtu} {labels : List Label} {o : Nat}

/-- The calls of `char_read_cb` that a read has made: its dialogue is replayed through its
callbacks, and nothing is sent again. -/
def CharReadCalls (s : Link) (o : Nat) (handle : UInt16) (calls : List ReadCall) : Prop :=
  ∃ phase, Pipeline.Course (callTo s.mtu.buflen) (fun _ => False) o
    ((Call.request handle).begin s.mtu.buflen) (s.dialogue o) phase ∧ phase.outputs = calls

/-- **Reading a value.** Against a peer that has a value of at most 512 bytes `lble_request` asks
for its parts in order, never behind its end, and makes one call of `char_read_cb`, with the
status 0 and a Read Response with the whole value. -/
theorem request_exact {handle : UInt16} {value : List UInt8} (hvalue : value.length ≤ 512)
    (run : machine.Run (fun _ l => Undisturbed l) (Link.new mtu) labels s)
    (ho : s.calls[o]? = some (.request handle))
    (serves : ServesRead mtu.buflen handle value
      fun req rsp => .answered (some o) req rsp ∈ s.log) :
    Pipeline.asked (s.dialogue o) <+: readRequests mtu.buflen handle value ∧
      (∀ offset, encReadBlobReq handle offset ∈ Pipeline.asked (s.dialogue o) →
        offset.toNat ≤ value.length) ∧
      (∃ calls, s.CharReadCalls o handle calls ∧ calls <+: [valueCall value]) ∧
      (s.Finished o → Pipeline.asked (s.dialogue o) = readRequests mtu.buflen handle value ∧
        s.CharReadCalls o handle [valueCall value] ∧
        s.events o = (valueCall value).events handle) ∧
      (¬ s.Finished o → s.GoesOn) := by
  have hmtu : s.mtu = mtu := (pipeline_of_undisturbed run).1
  obtain ⟨phase, course, -, hfinished⟩ := course_of_run run ho
  obtain ⟨n, calls, progress, hasked, replay⟩ := read_of_course mtu.le_buflen hvalue course
    (serves.mono mem_log_of_dialogue)
  have made : s.CharReadCalls o handle calls.outputs := ⟨calls, hmtu.symm ▸ replay, rfl⟩
  have le_iff : ∀ k, blobOffset mtu.buflen k ≤ value.length ↔
      k ≤ value.length / (mtu.buflen - 1) :=
    fun k => blobOffset_le_iff (Nat.lt_of_lt_of_le (by decide) mtu.le_buflen)
  have hbegins : Pipeline.asked (s.dialogue o) <+: readRequests mtu.buflen handle value := by
    rw [hasked]
    refine range_map_isPrefix ?_
    cases progress with
    | queued le => exact Nat.le_succ_of_le ((le_iff _).mp le)
    | pending le => exact Nat.succ_le_succ ((le_iff _).mp le)
    | ended le => exact Nat.succ_le_succ ((le_iff _).mp le)
  refine ⟨hbegins, fun offset h => offset_le mtu.le_buflen hvalue (hbegins.subset h),
    ⟨_, made, ?_⟩, fun finished => ?_, goesOn_of_run run⟩
  · cases progress with
    | queued | pending => exact List.nil_prefix
    | ended => exact List.prefix_refl _
  · have hended := hfinished finished
    cases progress with
    | queued | pending => cases hended
    | @ended k le lt =>
      have hk : k = value.length / (mtu.buflen - 1) := by
        have hle := (le_iff k).mp le
        have hlt := mt (le_iff (k + 1)).mpr (Nat.not_le.mpr lt)
        omega
      refine ⟨?_, made, (Pipeline.Phase.ended.inj hended).symm⟩
      rw [hasked, readRequests_eq, hk]

/-- A value that fills a Read Response. -/
def fullValue : List UInt8 := List.replicate 22 7

/-- The value is read with two requests; the second answer is empty. -/
def readRun : Option Link :=
  machine.execGuarded (fun _ l => Undisturbed l) (Link.new attDefaultLeMtu)
    (([.call (.request 9), .canWrite 3, .canRead (opReadRsp :: fullValue) 1 true] : List Label) ++
      .replicate 6 .resume ++
      ([.canWrite 5, .canRead [opReadBlobRsp] 1 true, .resume, .ret] : List Label) ++
      .replicate 9 .resume)

theorem request_exact_readRun :
    ∃ s, readRun = some s ∧ s.CharReadCalls 0 9 [valueCall fullValue] := by
  have hrun : readRun.map (fun s => (s.calls, decide (s.Finished 0), s.dialogue 0)) =
      some ([.request 9], true, [.sent 0 (encReadReq 9),
        .answered 0 (encReadReq 9) (opReadRsp :: fullValue), .sent 0 (encReadBlobReq 9 22),
        .answered 0 (encReadBlobReq 9 22) [opReadBlobRsp]]) := by decide
  obtain ⟨s, hs, hdata⟩ := Option.map_eq_some_iff.mp hrun
  obtain ⟨hcalls, hfinished, hdialogue⟩ : s.calls = [.request 9] ∧
      decide (s.Finished 0) = true ∧ s.dialogue 0 = _ := by simpa only [Prod.mk.injEq] using hdata
  have answered : ∀ {req rsp}, .answered (some 0) req rsp ∈ s.log →
      (req = encReadReq 9 ∧ rsp = opReadRsp :: fullValue) ∨
        (req = encReadBlobReq 9 22 ∧ rsp = [opReadBlobRsp]) := by
    intro req rsp h
    have hmem := mem_dialogue_of_log h
    rw [hdialogue] at hmem
    simpa only [List.mem_cons, reduceCtorEq, Exchange.answered.injEq, true_and, List.not_mem_nil,
      or_false, false_or] using hmem
  have exact := request_exact (show fullValue.length ≤ 512 by decide)
    (machine.run_of_execGuarded hs) (show s.calls[0]? = some (.request 9) by rw [hcalls]; rfl)
    { read := fun rsp h => by
        rcases answered h with ⟨-, rfl⟩ | ⟨hreq, -⟩
        · rfl
        · cases hreq
      blob := fun offset rsp hlt h => by
        rcases answered h with ⟨hreq, -⟩ | ⟨hreq, -⟩
        · cases hreq
        · have hoffset := congrArg (fun req => (getLe16 req 3).toNat) hreq
          simp only [offset_encReadBlobReq] at hoffset
          rw [UInt16.toNat_ofNat_of_lt' (Nat.lt_trans hlt (by decide))] at hoffset
          exact absurd hoffset (Nat.ne_of_lt hlt)
      last := fun rsp h => by
        rcases answered h with ⟨hreq, -⟩ | ⟨-, rfl⟩
        · cases hreq
        · exact .inl rfl }
  exact ⟨s, hs, (exact.2.2.2.1 (of_decide_eq_true hfinished)).2.1⟩

end Runs

end Link

end Libble
