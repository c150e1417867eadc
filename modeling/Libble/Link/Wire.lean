import Libble.Att.Requests
import Libble.Link.Machine

/-!
# What is on the wire

Whatever a server sends and whatever the application does, also inside the event handler, a client
writes only PDUs that can be read: each of them fits the MTU, and it is either what an encoder of
`bluez/attrib/att.c` makes of a request that the decoders read from it again, or the answer of
`respond_not_supported`.

## Main definitions

* `Gatt.Readable`: a PDU that the decoders read.
* `Link.outgoing`: the PDUs that wait to be sent or were sent.
* `Link.Outputs`: what a step adds to them.

## Main results

* `Gatt.readable_begin`, `Gatt.readable_of_react`: the requests of the procedures.
* `Link.Outputs.of_step`: every step adds only PDUs that can be read.
* `Link.wellformed_of_run`: so do all runs.
-/

namespace Libble

open Att

namespace Gatt

variable {buflen : Nat} {proc next : Proc} {status : UInt8} {pdu rpdu : Pdu}

/-- The PDU is what an encoder makes of a request in a buffer of `buflen` bytes, and the decoders
read this request from it. -/
def Readable (buflen : Nat) (pdu : Pdu) : Prop :=
  ∃ r, decodeRequest pdu = some r ∧ r.encode buflen = pdu

/-- A request that is not cut off can be read. -/
theorem readable_encode (h : 23 ≤ buflen) (short : buflen < 2 ^ 16) {r : Request}
    (encodable : r.Encodable) (whole : r.cut buflen = r) : Readable buflen (r.encode buflen) := by
  refine ⟨r, ?_, rfl⟩
  rw [decode_encode_request r (by omega) short encodable, whole]

/-- A part of a value that fits the buffer. -/
theorem readable_prepareWrite (h : 23 ≤ buflen) (short : buflen < 2 ^ 16) (handle : UInt16)
    (value : List UInt8) (offset : UInt16) :
    Readable buflen (prepareWrite buflen handle value offset).1 := by
  generalize hrest : (2 ^ 64 + value.length - offset.toNat) % 2 ^ 64 = rest
  generalize hpart :
    slice value offset.toNat (if rest > buflen - 5 then buflen - 5 else rest) = part
  have room : part.length ≤ buflen - 5 := by
    rw [← hpart, length_slice]
    split <;> omega
  have same : (prepareWrite buflen handle value offset).1 =
      (Request.prepWrite handle offset part).encode buflen := by
    rw [prepareWrite, encPrepWriteReq, hrest, hpart, Request.encode, encPrepWriteReqAt,
      slice_whole room]
  rw [same]
  refine readable_encode h short trivial ?_
  rw [Request.cut, List.take_of_length_le room]

/-- The first request of a call can be read. -/
theorem readable_begin (h : 23 ≤ buflen) (short : buflen < 2 ^ 16) (call : Call) :
    Readable buflen (call.begin buflen).1 := by
  cases call with
  | request handle => exact readable_encode (r := .read handle) h short trivial rfl
  | write handle data =>
    simp only [Call.begin, gattWriteChar]
    split
    · rename_i room
      refine readable_encode (r := .write handle data) h short trivial ?_
      rw [Request.cut, List.take_of_length_le room]
    · exact readable_prepareWrite h short handle data 0
  | discoverHand => exact readable_encode (r := .findInfo 0x0001 0xffff) h short trivial rfl
  | discoverChar =>
    exact readable_encode (r := .readByType 0x0001 0xffff (.uuid16 gattCharacUuid)) h short
      (by simp [Request.Encodable, BtUuid.len]) rfl

/-- The request with which a procedure goes on can be read. -/
theorem readable_of_react (h : 23 ≤ buflen) (short : buflen < 2 ^ 16)
    (hreact : react buflen proc status rpdu = .send pdu next) : Readable buflen pdu := by
  cases proc with
  | charWriteCb => cases hreact
  | readCharHelper handle =>
    simp only [react, readCharHelper] at hreact
    split_ifs at hreact
    obtain ⟨rfl, rfl⟩ := Reaction.send.inj hreact
    exact readable_encode (r := .readBlob handle _) h short trivial rfl
  | readBlobHelper handle buffer size =>
    simp only [react, readBlobHelper] at hreact
    split_ifs at hreact
    obtain ⟨rfl, rfl⟩ := Reaction.send.inj hreact
    exact readable_encode (r := .readBlob handle _) h short trivial rfl
  | prepareWriteCb handle value offset =>
    simp only [react, prepareWriteCb] at hreact
    split_ifs at hreact
    · obtain ⟨rfl, rfl⟩ := Reaction.send.inj hreact
      exact readable_encode (r := .execWrite 1) h short (by simp [Request.Encodable]) rfl
    · obtain ⟨rfl, rfl⟩ := Reaction.send.inj hreact
      exact readable_prepareWrite h short _ _ _
  | descDiscoveredCb start «end» descriptors =>
    simp only [react, descDiscoveredCb] at hreact
    split at hreact
    · cases hreact
    · split at hreact
      · cases hreact
      · cases hdec : decFindInfoResp rpdu rpdu.length with
        | none => simp only [hdec, reduceCtorEq] at hreact
        | some result =>
          simp only [hdec] at hreact
          split_ifs at hreact
          obtain ⟨rfl, rfl⟩ := Reaction.send.inj hreact
          exact readable_encode (r := .findInfo _ «end») h short trivial rfl
  | charDiscoveredCb start «end» characteristics =>
    simp only [react, gattCharDiscoveredCb] at hreact
    split at hreact
    · cases hreact
    · split at hreact
      · cases hreact
      · cases hdec : decReadByTypeResp rpdu rpdu.length with
        | none => simp only [hdec, reduceCtorEq] at hreact
        | some result =>
          simp only [hdec] at hreact
          split_ifs at hreact
          obtain ⟨rfl, rfl⟩ := Reaction.send.inj hreact
          exact readable_encode (r := .readByType _ «end» (.uuid16 gattCharacUuid)) h short
            (by simp [Request.Encodable, BtUuid.len]) rfl

end Gatt

namespace Link

open Gatt

variable {s t u : Link} {pdu : Pdu}

/-- A PDU that fits the MTU and can be read, or the answer of `respond_not_supported`. -/
structure WellEncoded (buflen : Nat) (pdu : Pdu) : Prop where
  length_le : pdu.length ≤ buflen
  readable : Readable buflen pdu ∨ ∃ opcode, pdu = [opErrorRsp, opcode, 0, 0, 0x06]

/-- The PDU that is written to the socket. -/
def Act.sentPdu : Act → Option Pdu
  | .sent _ pdu => some pdu
  | _ => none

/-- The PDUs that wait to be sent or for an answer, and those that were sent. -/
def outgoing (s : Link) : List Pdu :=
  (s.pendingReq.toList ++ s.reqQueue ++ s.writeQueue).map Op.pdu ++ s.log.filterMap Act.sentPdu

/-- What is added to the PDUs that wait or were sent can be read. -/
structure Outputs (s t : Link) : Prop where
  mtu_eq : t.mtu = s.mtu
  outgoing : ∀ q ∈ t.outgoing, q ∈ s.outgoing ∨ WellEncoded s.mtu.buflen q

theorem buflen_lt_two_pow (s : Link) : s.mtu.buflen < 2 ^ 16 := s.mtu.val.toNat_lt

namespace Outputs

theorem refl (s : Link) : Outputs s s := ⟨rfl, fun _ => .inl⟩

theorem trans (h : Outputs s t) (h' : Outputs t u) : Outputs s u := by
  refine ⟨h'.mtu_eq.trans h.mtu_eq, fun q hq => ?_⟩
  rcases h'.outgoing q hq with old | new
  · exact h.outgoing q old
  · rw [h.mtu_eq] at new
    exact .inr new

/-- Nothing is added. -/
theorem of_subset (mtu : t.mtu = s.mtu) (subset : ∀ q ∈ t.outgoing, q ∈ s.outgoing) :
    Outputs s t := ⟨mtu, fun q hq => .inl (subset q hq)⟩

theorem of_eq (mtu : t.mtu = s.mtu) (same : t.outgoing = s.outgoing) : Outputs s t :=
  of_subset mtu fun _ hq => same ▸ hq

/-- The state before is one with the same PDUs. -/
theorem after (h : Outputs t u) (mtu : t.mtu = s.mtu) (same : t.outgoing = s.outgoing) :
    Outputs s u := (of_eq mtu same).trans h

/-- Operations are forgotten, or lose their callback. -/
theorem of_queues (mtu : t.mtu = s.mtu) (log : t.log = s.log)
    (ops : ∀ op ∈ t.pendingReq.toList ++ t.reqQueue ++ t.writeQueue, ∃ old ∈
      s.pendingReq.toList ++ s.reqQueue ++ s.writeQueue, old.pdu = op.pdu) : Outputs s t := by
  refine of_subset mtu fun q hq => ?_
  rcases List.mem_append.mp hq with waiting | sent
  · obtain ⟨op, hop, rfl⟩ := List.mem_map.mp waiting
    obtain ⟨old, hold, same⟩ := ops op hop
    exact List.mem_append_left _ (List.mem_map.mpr ⟨old, hold, same⟩)
  · exact List.mem_append_right _ (log ▸ sent)

/-- What happens is not that a PDU is sent. -/
theorem record (s : Link) (acts : List Act) (h : ∀ a ∈ acts, a.sentPdu = none) :
    Outputs s (s.record acts) := by
  refine of_eq rfl ?_
  have none : acts.filterMap Act.sentPdu = [] := List.filterMap_eq_nil_iff.mpr h
  simp only [Link.outgoing, Link.record, List.filterMap_append, none, List.append_nil]

theorem push (s : Link) (codes : List Code) : Outputs s (s.push codes) := of_eq rfl rfl

theorem use (s : Link) (o : Obj) : Outputs s (s.use o) := of_eq rfl rfl

theorem alloc (s : Link) (o : Obj) : Outputs s (s.alloc o) := of_eq rfl rfl

theorem free (s : Link) (o : Obj) : Outputs s (s.free o) := of_eq rfl rfl

theorem wakeupWriter (s : Link) : Outputs s s.wakeupWriter := by
  rw [Link.wakeupWriter]
  split
  · exact of_eq rfl rfl
  · exact refl s

/-- A PDU is queued if it fits the MTU. -/
theorem btAttSend (s : Link) (cb : Option Cb)
    (h : Readable s.mtu.buflen pdu ∨ ∃ opcode, pdu = [opErrorRsp, opcode, 0, 0, 0x06]) :
    Outputs s (s.btAttSend pdu cb) := by
  rw [Link.btAttSend]
  split
  · rename_i accepted
    have new : ∀ {q : Pdu}, q = pdu → WellEncoded s.mtu.buflen q := by
      rintro q rfl
      exact ⟨accepted.2, h⟩
    dsimp only
    split
    · have queued : Outputs s { s with
          reqQueue := s.reqQueue ++ [⟨pdu, getOpType (byteAt pdu 0), cb⟩] } := by
        refine ⟨rfl, fun q hq => ?_⟩
        simp only [Link.outgoing, List.map_append, List.mem_append, List.map_cons, List.map_nil,
          List.mem_singleton] at hq ⊢
        rcases hq with ((hp | hr | hq) | hw) | hl
        · exact .inl (.inl (.inl (.inl hp)))
        · exact .inl (.inl (.inl (.inr hr)))
        · exact .inr (new hq)
        · exact .inl (.inl (.inr hw))
        · exact .inl (.inr hl)
      exact queued.trans (wakeupWriter _)
    · have queued : Outputs s { s with
          writeQueue := s.writeQueue ++ [⟨pdu, getOpType (byteAt pdu 0), cb⟩] } := by
        refine ⟨rfl, fun q hq => ?_⟩
        simp only [Link.outgoing, List.map_append, List.mem_append, List.map_cons, List.map_nil,
          List.mem_singleton] at hq ⊢
        rcases hq with ((hp | hr) | hw | hq) | hl
        · exact .inl (.inl (.inl (.inl hp)))
        · exact .inl (.inl (.inl (.inr hr)))
        · exact .inl (.inl (.inr hw))
        · exact .inr (new hq)
        · exact .inl (.inr hl)
      exact queued.trans (wakeupWriter _)
  · exact refl s

theorem gAttribSend (s : Link) (owner : Nat) (proc : Proc) (h : Readable s.mtu.buflen pdu) :
    Outputs s (s.gAttribSend owner proc pdu) := by
  rw [Link.gAttribSend]
  refine after (btAttSend _ _ ?_) rfl rfl
  exact .inl h

theorem respondNotSupported (s : Link) (opcode : UInt8) :
    Outputs s (s.respondNotSupported opcode) := btAttSend s none (.inr ⟨opcode, rfl⟩)

/-! ### Callbacks -/

theorem runCallback (s : Link) (op : Op) (opcode : UInt8) (pdu : Pdu) :
    Outputs s (s.runCallback op opcode pdu) := by
  rw [Link.runCallback]
  split
  · rename_i addr owner proc _
    obtain ⟨faults, hfaults⟩ : ∃ faults, s.useResult addr owner proc =
        { s with faults := faults } := by
      rw [useResult]
      split
      · exact ⟨_, rfl⟩
      · exact ⟨_, rfl⟩
    rw [hfaults]
    refine Outputs.trans (t := { s with faults := faults }) (of_eq rfl rfl) ?_
    dsimp only
    split
    · rename_i next continued hreact
      have sent := gAttribSend { s with faults := faults } owner continued
        (readable_of_react s.mtu.le_buflen s.buflen_lt_two_pow hreact)
      split
      · exact sent.trans (of_eq rfl rfl)
      · exact sent
    · exact push _ _
  · exact refl s

theorem notifyEnd (s : Link) (pdu : Pdu) (found : Bool) : Outputs s (s.notifyEnd pdu found) := by
  simp only [Link.notifyEnd]
  split
  · exact (respondNotSupported s _).trans (push _ _)
  · exact push _ _

theorem notifyNext (s : Link) (entry : Option Nat) (pdu : Pdu) (found : Bool) :
    Outputs s (s.notifyNext entry pdu found) := by
  simp only [Link.notifyNext]
  split
  · exact notifyEnd s pdu found
  · split
    · exact notifyEnd s pdu found
    · split
      · exact of_eq rfl rfl
      · exact push _ _

theorem callbacksRemove (s : Link) (cb : Cb) : Outputs s (s.callbacksRemove cb) := by
  simp only [Link.callbacksRemove]
  split
  · exact of_eq rfl rfl
  · exact of_eq rfl rfl

theorem recordUnref (s : Link) (owner : Nat) : Outputs s (s.recordUnref owner) := by
  simp only [Link.recordUnref]
  split
  · exact of_eq rfl rfl
  · exact of_eq rfl rfl

theorem attribUnref (s : Link) : Outputs s s.attribUnref := by
  simp only [Link.attribUnref]
  split
  · exact of_eq rfl rfl
  · exact of_eq rfl rfl

theorem attUnref (s : Link) : Outputs s s.attUnref := by
  simp only [Link.attUnref]
  split
  · exact of_eq rfl rfl
  · exact of_eq rfl rfl

theorem cancelPending (s : Link) : Outputs s s.cancelPending := by
  rw [Link.cancelPending]
  split
  · rename_i op _ hp
    refine of_queues rfl rfl fun old hold => ?_
    simp only [hp, Link.push, Option.toList_some, List.mem_append, List.mem_singleton] at hold ⊢
    rcases hold with (rfl | hr) | hw
    · exact ⟨op, .inl (.inl rfl), rfl⟩
    · exact ⟨old, .inl (.inr hr), rfl⟩
    · exact ⟨old, .inr hw, rfl⟩
  · exact refl s

theorem attFree (s : Link) : Outputs s s.attFree := by
  rw [Link.attFree]
  refine Outputs.trans ?_ (free _ _)
  split
  · refine of_queues rfl rfl fun op hop => ⟨op, ?_, rfl⟩
    simp only [Option.toList_none, List.nil_append] at hop
    rw [List.append_assoc]
    exact List.mem_append_right _ hop
  · exact refl s

/-! ### The code still to be run -/

theorem run (s : Link) (code : Code) : Outputs s (s.run code) := by
  cases code with
  | emit source event => exact (record s _ (by simp [Act.sentPdu])).trans (push _ _)
  | handler => exact refl s
  | freeRequest owner | attribFree => exact free s _
  | destroyOp op => exact push s _
  | discOp op => exact (push s _).trans (runCallback _ op opErrorRsp [])
  | rspDone =>
    refine of_queues rfl rfl fun op hop => ⟨op, ?_, rfl⟩
    rw [List.append_assoc]
    exact List.mem_append_right _ hop
  | discPending => exact push s _
  | discDone =>
    refine of_queues rfl rfl fun op hop => ⟨op, ?_, rfl⟩
    rw [List.append_assoc]
    exact List.mem_append_right _ hop
  | chanFree => exact of_eq rfl rfl
  | timeoutDone => exact (use s .chan).trans (record _ _ (by simp [Act.sentPdu]))
  | notifyNext entry pdu found => exact notifyNext s entry pdu found
  | notifyCheck entry pdu =>
    simp only [Link.run]
    split
    · exact notifyEnd s pdu true
    · exact notifyNext s entry pdu true
  | callbacksRemove cb => exact callbacksRemove s cb
  | callbacksFree cb => exact of_eq rfl rfl
  | recordUnref owner => exact recordUnref s owner
  | recordFree owner => exact free s _
  | attribUnref => exact attribUnref s
  | callbacksDestroy => exact of_eq rfl rfl
  | attUnref => exact attUnref s
  | unregisterAll => exact of_eq rfl rfl
  | cancelAll =>
    refine of_queues rfl rfl fun op hop => ⟨op, ?_, rfl⟩
    simp only [Link.run, List.append_nil] at hop
    rw [List.append_assoc]
    exact List.mem_append_left _ hop
  | cancelPending => exact cancelPending s
  | attFree => exact attFree s

/-! ### Steps -/

theorem gattReadChar (s : Link) (owner : Nat) (proc : Proc) (h : Readable s.mtu.buflen pdu) :
    Outputs s (s.gattReadChar owner proc pdu) := by
  have sent : Outputs s ((s.makeRecord owner).gAttribSend owner proc pdu) :=
    (gAttribSend (s.makeRecord owner) owner proc h).after rfl rfl
  simp only [Link.gattReadChar]
  split
  · exact sent.trans (of_eq rfl rfl)
  · exact sent.trans (push _ _)

theorem gattDiscover (s : Link) (owner : Nat) (proc : Proc) (h : Readable s.mtu.buflen pdu) :
    Outputs s (s.gattDiscover owner proc pdu) :=
  (gAttribSend ((s.makeRecord owner).recordInc owner) owner proc h).after rfl rfl

theorem call (s : Link) (call : Call) : Outputs s (s.call call) := by
  have readable := readable_begin s.mtu.le_buflen s.buflen_lt_two_pow call
  have called : Outputs s { s.record [.called s.nextOwner call] with
      nextOwner := s.nextOwner + 1 } :=
    (record s [.called s.nextOwner call] (by simp [Act.sentPdu])).trans (of_eq rfl rfl)
  cases call with
  | write handle data => exact called.trans (gAttribSend _ _ _ readable)
  | request handle =>
    exact (called.trans (alloc _ _)).trans (gattReadChar _ _ _ readable)
  | discoverHand | discoverChar =>
    exact called.trans (gattDiscover _ _ _ readable)

theorem listen (s : Link) : Outputs s s.listen := by
  simp only [Link.listen]
  split
  · exact of_eq rfl rfl
  · exact of_eq rfl rfl

/-- The operation that is picked was waiting. -/
theorem picked {op : Op} (h : s.pickNextSendOp = some (op, t)) : t.mtu = s.mtu ∧ t.log = s.log ∧
    ∀ old ∈ op :: (t.pendingReq.toList ++ t.reqQueue ++ t.writeQueue),
      old ∈ s.pendingReq.toList ++ s.reqQueue ++ s.writeQueue := by
  have request : ∀ {v : Link}, s.pickRequest = some (op, v) → v.mtu = s.mtu ∧ v.log = s.log ∧
      ∀ old ∈ op :: (v.pendingReq.toList ++ v.reqQueue ++ v.writeQueue),
        old ∈ s.pendingReq.toList ++ s.reqQueue ++ s.writeQueue := by
    intro v hv
    simp only [pickRequest] at hv
    split at hv
    · rename_i hpending hqueue
      obtain ⟨-, hv⟩ := Option.ite_none_right_eq_some.mp hv
      obtain ⟨rfl, rfl⟩ := Prod.mk.inj (Option.some.inj hv)
      refine ⟨rfl, rfl, fun old hold => ?_⟩
      rw [hpending] at hold ⊢
      rw [hqueue]
      exact hold
    · cases hv
  rw [pickNextSendOp] at h
  split at h
  · rename_i first rest hqueue
    split_ifs at h
    · obtain ⟨rfl, rfl⟩ := Prod.mk.inj (Option.some.inj h)
      refine ⟨rfl, rfl, fun old hold => ?_⟩
      rw [hqueue, List.mem_append, List.mem_cons]
      rcases List.mem_cons.mp hold with rfl | hold
      · exact .inr (.inl rfl)
      · exact (List.mem_append.mp hold).imp_right .inr
    · exact request h
  · exact request h

theorem canWriteData (s : Link) (ret : Int) : Outputs s (s.canWriteData ret) := by
  rw [Link.canWriteData]
  split
  · exact of_eq rfl rfl
  · rename_i op t hpick
    obtain ⟨mtu, log, waited⟩ := picked hpick
    have taken : Outputs s t := of_queues mtu log fun old hold =>
      ⟨old, waited old (List.mem_cons_of_mem _ hold), rfl⟩
    have here : op.pdu ∈ s.outgoing :=
      List.mem_append_left _ (List.mem_map_of_mem (waited op List.mem_cons_self))
    dsimp only
    split
    · exact taken.trans ((push t _).trans (runCallback _ op opErrorRsp []))
    · -- the PDU may be recorded as sent
      have sent : Outputs s (if 0 < ret then t.record [.sent op.owner op.pdu] else t) := by
        split
        · refine ⟨taken.mtu_eq, fun q hq => ?_⟩
          simp only [Link.outgoing, Link.record, List.filterMap_append, List.mem_append] at hq
          rcases hq with waiting | old | new
          · exact taken.outgoing q (List.mem_append_left _ waiting)
          · exact taken.outgoing q (List.mem_append_right _ old)
          · obtain rfl := List.mem_singleton.mp new
            exact .inl here
        · exact taken
      generalize (if 0 < ret then t.record [.sent op.owner op.pdu] else t) = v at sent
      cases op.type with
      | req =>
        refine ⟨sent.mtu_eq, fun q hq => ?_⟩
        simp only [Link.outgoing, Option.toList_some, List.map_append, List.map_cons,
          List.map_nil, List.mem_append, List.mem_singleton] at hq
        rcases hq with ((rfl | hr) | hw) | hl
        · exact .inl here
        · exact sent.outgoing q (by simp [Link.outgoing, hr])
        · exact sent.outgoing q (by simp [Link.outgoing, hw])
        · exact sent.outgoing q (List.mem_append_right _ hl)
      | rsp => exact sent.trans (of_eq rfl rfl)
      | cmd | ind | nfy | conf | unknown => exact sent.trans (push _ _)

theorem handleRsp (s : Link) (opcode : UInt8) (pdu : Pdu) (security : Int) (setOk : Bool) :
    Outputs s (s.handleRsp opcode pdu security setOk) := by
  rw [Link.handleRsp]
  split
  · exact record s _ (by simp [Act.sentPdu])
  · rename_i op hp
    have recorded := record s [.answered op.owner op.pdu (opcode :: pdu)] (by simp [Act.sentPdu])
    dsimp only
    split
    · refine recorded.trans (of_queues rfl rfl fun old hold => ⟨old, ?_, rfl⟩)
      have hp : (s.record [.answered op.owner op.pdu (opcode :: pdu)]).pendingReq = some op := hp
      rw [hp]
      exact hold
    · exact recorded.trans ((push _ _).trans (runCallback _ op _ _))

theorem handleNotify (s : Link) (pdu : Pdu) : Outputs s (s.handleNotify pdu) := of_eq rfl rfl

theorem handlePdu (s : Link) (opcode : UInt8) (pdu : Pdu) (security : Int) (setOk : Bool) :
    Outputs s (s.handlePdu opcode pdu security setOk) := by
  rw [Link.handlePdu]
  split
  · exact handleRsp s opcode pdu security setOk
  · exact record s _ (by simp [Act.sentPdu])
  · split
    · exact record s _ (by simp [Act.sentPdu])
    · exact of_eq rfl rfl
  · exact handleNotify s _

theorem canReadData (s : Link) (bytes : Pdu) (security : Int) (setOk : Bool) :
    Outputs s (s.canReadData bytes security setOk) := by
  cases bytes with
  | nil => exact refl s
  | cons opcode pdu =>
    have received : Outputs s { (s.record [.received (opcode :: pdu)]).push [.attUnref] with
        attRef := s.attRef + 1 } :=
      (record s [.received (opcode :: pdu)] (by simp [Act.sentPdu])).trans (of_eq rfl rfl)
    exact received.trans (handlePdu _ opcode pdu security setOk)

theorem disconnectCb (s : Link) : Outputs s s.disconnectCb := by
  refine of_queues rfl rfl fun op hop => ⟨op, ?_, rfl⟩
  simp only [Link.disconnectCb, Link.push, List.append_nil] at hop
  rw [List.append_assoc]
  exact List.mem_append_left _ hop

theorem timeoutCb (s : Link) (op : Op) : Outputs s (s.timeoutCb op) := by
  have cleared : Outputs s { s with pendingReq := none } := by
    refine of_queues rfl rfl fun old hold => ⟨old, ?_, rfl⟩
    rw [List.append_assoc]
    exact List.mem_append_right _ hold
  exact (cleared.trans (push _ _)).trans (runCallback _ op opErrorRsp [])

/-- **Every step adds only PDUs that can be read.** -/
theorem of_step {label : Label} (h : s.step label = some t) : Outputs s t := by
  cases label with
  | call c =>
    obtain ⟨-, -, -, rfl⟩ := step_call h
    exact call s c
  | listen =>
    obtain ⟨-, -, rfl⟩ := step_listen h
    exact listen s
  | drop =>
    obtain ⟨-, -, rfl⟩ := step_drop h
    exact of_eq rfl rfl
  | ret =>
    obtain ⟨todo, -, rfl⟩ := step_ret h
    exact of_eq rfl rfl
  | resume =>
    obtain ⟨code, todo, -, -, rfl⟩ := step_resume h
    exact (run { s with todo := todo } code).after rfl rfl
  | canWrite ret =>
    obtain ⟨-, -, rfl⟩ := step_canWrite h
    exact canWriteData s ret
  | canRead bytes security setOk =>
    obtain ⟨-, -, rfl⟩ := step_canRead h
    exact canReadData s bytes security setOk
  | hup =>
    obtain ⟨-, rfl⟩ := step_hup h
    exact disconnectCb s
  | timeout =>
    obtain ⟨op, -, -, rfl⟩ := step_timeout h
    exact timeoutCb s op

end Outputs

/-! ### Runs -/

/-- In every run of a client only PDUs that can be read wait or are sent. -/
theorem wellformed_of_run {mtu : Mtu} {labels : List Label} {ok : Link → Label → Prop}
    (run : machine.Run ok (Link.new mtu) labels s) :
    s.mtu = mtu ∧ ∀ pdu ∈ s.outgoing, WellEncoded mtu.buflen pdu := by
  refine run.invariant (P := fun s => s.mtu = mtu ∧ ∀ pdu ∈ s.outgoing, WellEncoded mtu.buflen pdu)
    ⟨rfl, ?_⟩ fun {a l b} h _ hstep => ?_
  · rintro pdu ⟨⟩
  · have outputs := Outputs.of_step hstep
    refine ⟨outputs.mtu_eq.trans h.1, fun pdu hpdu => ?_⟩
    rcases outputs.outgoing pdu hpdu with old | new
    · exact h.2 pdu old
    · exact h.1 ▸ new

end Link

end Libble
