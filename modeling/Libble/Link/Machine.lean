import Libble.Foundation.LabelledMachine
import Libble.Gatt.Procedure

/-!
# The attribute client of one connection

This file models what `g_attrib_new` makes for a connection and what is done to it: the `GAttrib`
of `bluez/attrib/gattrib.c`, the `bt_att` with its channel of `bluez/src/shared/att.c`, and the
records of the procedures of `bluez/attrib/gatt.c` with their counters.

As for the device handle, the code that is still to be run is a stack `todo`; the event handler
may call the library while its top is `handler`. What the code allocates and releases is recorded
object by object, and a use of an object that has been released is recorded as a fault.

The application registers for notifications and sends requests, so the queues of indications and
of the channel itself, the pending indication and the signing of PDUs do not occur. The ids that
`bt_att_send` returns are left out: they are never 0 for a request that was accepted, and nothing
else about them matters here. The event handler is set.

## Main definitions

* `Link`: the state; `Link.new`: the state that `g_attrib_new` leaves.
* `Link.Code`, `Link.run`: the code still to be run, and what it does.
* `Link.call`, `Link.listen`, `Link.drop`: the calls of the application.
* `Link.canWriteData`, `Link.canReadData`, `Link.disconnectCb`, `Link.timeoutCb`: the dispatches.
* `Link.step`, `Link.machine`.
-/

namespace Libble

open Att Gatt

/-- An MTU that `bt_att_set_mtu` accepts. -/
structure Mtu where
  val : UInt16
  le_val : 23 ≤ val.toNat

namespace Mtu

/-- The length of the buffer that `g_attrib_get_buffer` returns. -/
def buflen (mtu : Mtu) : Nat := mtu.val.toNat

theorem le_buflen (mtu : Mtu) : 23 ≤ mtu.buflen := mtu.le_val

end Mtu

/-- `ATT_DEFAULT_LE_MTU` -/
def attDefaultLeMtu : Mtu := ⟨23, by decide⟩

namespace Link

/-- What an `attrib_callbacks` was made for: the `result_func` and `user_data` of a request that
belongs to a call of the application, or `events_handler`. -/
inductive Client
  | result (owner : Nat) (proc : Proc)
  | notify
  deriving DecidableEq, Repr

/-- A `struct attrib_callbacks`; none of its fields that matter ever changes. -/
structure Cb where
  addr : Nat
  client : Client
  deriving DecidableEq, Repr

/-- The record that the destroy function of an `attrib_callbacks` releases a reference of. -/
def Cb.record (cb : Cb) : Option Nat :=
  match cb.client with
  | .result owner proc => if proc.hasRecord then some owner else none
  | .notify => none

/-- A `struct att_send_op`; its callback, destroy function and user data are all given by `cb`. -/
structure Op where
  pdu : Pdu
  type : OpType
  cb : Option Cb
  deriving DecidableEq, Repr

/-- The objects whose release is recorded. -/
inductive Obj
  /-- A `struct attrib_callbacks`. -/
  | callbacks (addr : Nat)
  /-- The `read_long_data`, `discover_desc` or `discover_char` of a call. -/
  | record (owner : Nat)
  /-- The `request_t` of a call of `lble_request`. -/
  | request (owner : Nat)
  /-- The `GAttrib`. -/
  | attrib
  /-- The `struct bt_att`. -/
  | att
  /-- The `struct bt_att_chan`. -/
  | chan
  deriving DecidableEq, Repr

/-- What an event is about: a call of the application or a notification of the peer. -/
inductive Source
  | procedure (owner : Nat)
  | notification
  deriving DecidableEq, Repr

/-- What happens on the connection. -/
inductive Act
  /-- The application makes a call. -/
  | called (owner : Nat) (call : Call)
  /-- A PDU is written to the socket; requests have an owner. -/
  | sent (owner : Option Nat) (pdu : Pdu)
  /-- A PDU is read from the socket. -/
  | received (pdu : Pdu)
  /-- The received PDU `rsp` is a response while `req` is the pending request. -/
  | answered (owner : Option Nat) (req rsp : Pdu)
  /-- The event handler is called. -/
  | event (source : Source) (event : Event)
  /-- `io_shutdown` -/
  | ioShutdown
  deriving DecidableEq, Repr

/-- Code that is still to be run. -/
inductive Code
  /-- The event handler is called. -/
  | emit (source : Source) (event : Event)
  /-- The event handler is running. -/
  | handler
  /-- `char_read_cb` frees its `request_t`. -/
  | freeRequest (owner : Nat)
  /-- `destroy_att_send_op` -/
  | destroyOp (op : Op)
  /-- `disc_att_send_op` -/
  | discOp (op : Op)
  /-- The end of `handle_rsp`: the pending request is cleared and the writer woken up. -/
  | rspDone
  /-- `disconnect_cb` about the pending request. -/
  | discPending
  /-- `disconnect_cb` clears the pending request. -/
  | discDone
  /-- The rest of `disconnect_cb`. -/
  | chanFree
  /-- The end of `timeout_cb`. -/
  | timeoutDone
  /-- The loop of `handle_notify` at an entry of `notify_list`. -/
  | notifyNext (entry : Option Nat) (pdu : Pdu) (found : Bool)
  /-- The loop of `handle_notify` after a callback; `entry` is the next entry as it was before. -/
  | notifyCheck (entry : Option Nat) (pdu : Pdu)
  /-- `attrib_callbacks_remove` -/
  | callbacksRemove (cb : Cb)
  /-- The end of `attrib_callbacks_destroy`. -/
  | callbacksFree (cb : Cb)
  /-- The destroy function of a record: `read_long_destroy`, `discover_desc_unref` or
  `discover_char_unref`. -/
  | recordUnref (owner : Nat)
  /-- The end of the destroy function of a record without references. -/
  | recordFree (owner : Nat)
  /-- `g_attrib_unref` -/
  | attribUnref
  /-- `g_attrib_unref` destroys the callbacks. -/
  | callbacksDestroy
  /-- The end of `g_attrib_unref`. -/
  | attribFree
  /-- `bt_att_unref` -/
  | attUnref
  /-- `bt_att_unregister_all` -/
  | unregisterAll
  /-- `bt_att_cancel_all` -/
  | cancelAll
  /-- `bt_att_cancel_all` about the pending request. -/
  | cancelPending
  /-- `bt_att_free` -/
  | attFree
  deriving DecidableEq, Repr

end Link

open Link in
/-- The attribute client of a connection. -/
structure Link where
  /-- The MTU of the channel. -/
  mtu : Mtu
  /-- The handle `devh_t` holds its reference to the `GAttrib`. -/
  app : Bool
  /-- `attrib->ref_count` -/
  attribRef : Int
  /-- `attrib->callbacks` -/
  callbacks : List Cb
  /-- The `ref` of the record of a call. -/
  recordRef : Nat → Int
  /-- `att->ref_count` -/
  attRef : Int
  /-- The channel is in `att->chans`. -/
  attached : Bool
  /-- `att->req_queue` -/
  reqQueue : List Op
  /-- `att->write_queue` -/
  writeQueue : List Op
  /-- `att->notify_list`, all for `ATT_OP_HANDLE_NOTIFY`. -/
  notifyList : List Cb
  /-- `chan->pending_req` -/
  pendingReq : Option Op
  /-- `chan->in_req` -/
  inReq : Bool
  /-- `chan->writer_active` -/
  writerActive : Bool
  /-- The address of the next `attrib_callbacks`. -/
  nextAddr : Nat
  /-- The name of the next call. -/
  nextOwner : Nat
  /-- The objects that were allocated. -/
  allocated : List Obj
  /-- The objects that were released. -/
  freed : List Obj
  /-- The objects that were used after their release. -/
  faults : List Obj
  /-- The code still to be run, innermost first. -/
  todo : List Code
  /-- What happened. -/
  log : List Link.Act

namespace Link

/-- The state that `g_attrib_new` leaves. -/
def new (mtu : Mtu) : Link where
  mtu := mtu
  app := true
  attribRef := 1
  callbacks := []
  recordRef := fun _ => 0
  attRef := 1
  attached := true
  reqQueue := []
  writeQueue := []
  notifyList := []
  pendingReq := none
  inReq := false
  writerActive := false
  nextAddr := 0
  nextOwner := 0
  allocated := [.attrib, .att, .chan]
  freed := []
  faults := []
  todo := []
  log := []

/-! ### Basic updates -/

/-- Record what happens. -/
def record (s : Link) (acts : List Act) : Link := { s with log := s.log ++ acts }

/-- Put code in front of the code still to be run. -/
def push (s : Link) (codes : List Code) : Link := { s with todo := codes ++ s.todo }

/-- An object is used. -/
def use (s : Link) (o : Obj) : Link :=
  { s with faults := s.faults ++ if o ∈ s.freed then [o] else [] }

/-- An object is allocated. -/
def alloc (s : Link) (o : Obj) : Link := { s with allocated := s.allocated ++ [o] }

/-- An object is released. -/
def free (s : Link) (o : Obj) : Link := { s.use o with freed := s.freed ++ [o] }

/-- The reference count of a record goes up. -/
def recordInc (s : Link) (owner : Nat) : Link :=
  { s with recordRef := Function.update s.recordRef owner (s.recordRef owner + 1) }

/-! ### Sending -/

/-- `wakeup_chan_writer`: the write handler is set if there is anything to send. -/
def wakeupChanWriter (s : Link) : Link :=
  { s with
    writerActive := s.writerActive || !s.writeQueue.isEmpty ||
      (s.pendingReq.isNone && !s.reqQueue.isEmpty) }

/-- `wakeup_writer`: the channel, if it is attached, is woken up. -/
def wakeupWriter (s : Link) : Link := if s.attached then s.wakeupChanWriter else s

/-- `bt_att_send` accepts the operation: there is a channel, and `encode_pdu` finds that the PDU
fits. -/
def Accepts (s : Link) (pdu : Pdu) : Prop := s.attached ∧ pdu.length ≤ s.mtu.buflen

instance (s : Link) (pdu : Pdu) : Decidable (s.Accepts pdu) := inferInstanceAs (Decidable (_ ∧ _))

/-- `bt_att_send`: an operation that is accepted is queued by its type. -/
def btAttSend (s : Link) (pdu : Pdu) (cb : Option Cb) : Link :=
  if s.Accepts pdu then
    let op : Op := ⟨pdu, getOpType (byteAt pdu 0), cb⟩
    if op.type = .req then { s with reqQueue := s.reqQueue ++ [op] }.wakeupWriter
    else { s with writeQueue := s.writeQueue ++ [op] }.wakeupWriter
  else s

/-- `g_attrib_send` of a request for a procedure. -/
def gAttribSend (s : Link) (owner : Nat) (proc : Proc) (pdu : Pdu) : Link :=
  let cb : Cb := ⟨s.nextAddr, .result owner proc⟩
  ({ (s.use .attrib).alloc (.callbacks cb.addr) with
    callbacks := cb :: s.callbacks
    nextAddr := s.nextAddr + 1 }.use .att).btAttSend pdu (some cb)

/-- `respond_not_supported` -/
def respondNotSupported (s : Link) (opcode : UInt8) : Link :=
  s.btAttSend [opErrorRsp, opcode, 0, 0, 0x06] none

/-! ### Callbacks -/

/-- The `attrib_callbacks` of a request is read, and the record that its procedure is called
with. -/
def useResult (s : Link) (addr owner : Nat) (proc : Proc) : Link :=
  if proc.hasRecord then (s.use (.callbacks addr)).use (.record owner) else s.use (.callbacks addr)

/-- The callback of an operation is called with a response: `attrib_callback_result` calls the
callback of the procedure. A procedure that goes on takes another reference to its record; that
it was accepted is not looked at, since the id that it was given is returned in any case. -/
def runCallback (s : Link) (op : Op) (opcode : UInt8) (pdu : Pdu) : Link :=
  match op.cb with
  | some ⟨addr, .result owner proc⟩ =>
    let s := s.useResult addr owner proc
    match react s.mtu.buflen proc (statusOf opcode pdu) (opcode :: pdu) with
    | .send next proc =>
      let s := s.gAttribSend owner proc next
      if proc.hasRecord then s.recordInc owner else s
    | .finish events =>
      s.push (events.map (.emit (.procedure owner)) ++
        if proc.isRead then [.freeRequest owner] else [])
  | _ => s

/-- `attrib_callback_notify` with `events_handler`. -/
def attribCallbackNotify (s : Link) (cb : Cb) (pdu : Pdu) : Link :=
  (s.use (.callbacks cb.addr)).push
    ((eventsHandler pdu (UInt16.ofNat pdu.length)).map (.emit .notification))

/-! ### Releasing -/

/-- `attrib_callbacks_destroy`: the destroy function of the record, if it has one, and the rest. -/
def callbacksDestroy (cb : Cb) : List Code :=
  cb.record.toList.map .recordUnref ++ [.callbacksFree cb]

/-- `attrib_callbacks_remove` -/
def callbacksRemove (s : Link) (cb : Cb) : Link :=
  let s := (s.use (.callbacks cb.addr)).use .attrib
  if cb ∈ s.callbacks then
    { s.push (Link.callbacksDestroy cb) with callbacks := s.callbacks.erase cb }
  else s

/-- The destroy function of a record: without references it is released with the reference that
it holds to the `GAttrib`. -/
def recordUnref (s : Link) (owner : Nat) : Link :=
  let s := s.use (.record owner)
  let s := { s with recordRef := Function.update s.recordRef owner (s.recordRef owner - 1) }
  if s.recordRef owner > 0 then s else s.push [.attribUnref, .recordFree owner]

/-- `g_attrib_unref` -/
def attribUnref (s : Link) : Link :=
  let s := s.use .attrib
  let s := { s with attribRef := s.attribRef - 1 }
  if s.attribRef = 0 then s.push [.attUnref, .callbacksDestroy, .attribFree] else s

/-- `bt_att_unref` -/
def attUnref (s : Link) : Link :=
  let s := s.use .att
  let s := { s with attRef := s.attRef - 1 }
  if s.attRef = 0 then s.push [.unregisterAll, .cancelAll, .attFree] else s

/-- `bt_att_cancel_all` about the pending request of a channel that is attached: its callbacks are
destroyed and forgotten. -/
def cancelPending (s : Link) : Link :=
  match s.attached, s.pendingReq with
  | true, some op =>
    { s.push (op.cb.toList.map .callbacksRemove) with pendingReq := some { op with cb := none } }
  | _, _ => s

/-- `bt_att_free`, which frees the channel if there is one. -/
def attFree (s : Link) : Link :=
  let s := if s.attached then
      { (s.push (s.pendingReq.toList.map .destroyOp)).free .chan with
        attached := false
        pendingReq := none }
    else s
  s.free .att

/-! ### Notifications -/

/-- `handle_notify` after its loop: a PDU other than a command that nobody was interested in is
answered, and the reference to the `bt_att` is given back. -/
def notifyEnd (s : Link) (pdu : Pdu) (found : Bool) : Link :=
  let s := if !found && getOpType (byteAt pdu 0) ≠ .cmd then
      s.respondNotSupported (byteAt pdu 0)
    else s
  s.push [.attUnref]

/-- The loop of `handle_notify` at an entry of `notify_list`. The next entry is read before the
callback is called. -/
def notifyNext (s : Link) (entry : Option Nat) (pdu : Pdu) (found : Bool) : Link :=
  match entry with
  | none => s.notifyEnd pdu found
  | some i =>
    match s.notifyList[i]? with
    | none => s.notifyEnd pdu found
    | some cb =>
      let next := if i + 1 < s.notifyList.length then some (i + 1) else none
      if byteAt pdu 0 = opHandleNfy then
        (s.push [.notifyCheck next pdu]).attribCallbackNotify cb pdu
      else s.push [.notifyNext next pdu found]

/-! ### The code still to be run -/

/-- Run a piece of code. -/
def run (s : Link) : Code → Link
  | .emit source event => (s.record [.event source event]).push [.handler]
  | .handler => s
  | .freeRequest owner => s.free (.request owner)
  | .destroyOp op => s.push (op.cb.toList.map .callbacksRemove)
  | .discOp op => (s.push [.destroyOp op]).runCallback op opErrorRsp []
  | .rspDone => { s.use .chan with pendingReq := none }.wakeupChanWriter
  | .discPending => s.push (s.pendingReq.toList.flatMap fun op => [.discOp op, .discDone])
  | .discDone => { s with pendingReq := none }
  | .chanFree =>
    { (s.use .att).free .chan with attRef := s.attRef + 1 }.push [.unregisterAll, .attUnref]
  | .timeoutDone => (s.use .chan).record [.ioShutdown]
  | .notifyNext entry pdu found => s.notifyNext entry pdu found
  | .notifyCheck entry pdu =>
    if s.notifyList = [] then s.notifyEnd pdu true else s.notifyNext entry pdu true
  | .callbacksRemove cb => s.callbacksRemove cb
  | .callbacksFree cb => (s.use .attrib).free (.callbacks cb.addr)
  | .recordUnref owner => s.recordUnref owner
  | .recordFree owner => s.free (.record owner)
  | .attribUnref => s.attribUnref
  | .callbacksDestroy =>
    { s.push (s.callbacks.flatMap Link.callbacksDestroy) with callbacks := [] }
  | .attribFree => s.free .attrib
  | .attUnref => s.attUnref
  | .unregisterAll => { s.push (s.notifyList.map .callbacksRemove) with notifyList := [] }
  | .cancelAll =>
    { s.push ((s.reqQueue ++ s.writeQueue).map .destroyOp ++ [.cancelPending]) with
      reqQueue := []
      writeQueue := [] }
  | .cancelPending => s.cancelPending
  | .attFree => s.attFree

/-! ### The calls of the application -/

/-- The record of a procedure is made; it holds a reference to the `GAttrib`. -/
def makeRecord (s : Link) (owner : Nat) : Link :=
  { s.alloc (.record owner) with attribRef := s.attribRef + 1 }

/-- `gatt_read_char`: the record is released again if the request was refused. -/
def gattReadChar (s : Link) (owner : Nat) (proc : Proc) (pdu : Pdu) : Link :=
  let s := s.makeRecord owner
  if s.Accepts pdu then (s.gAttribSend owner proc pdu).recordInc owner
  else (s.gAttribSend owner proc pdu).push [.attribUnref, .recordFree owner]

/-- `gatt_discover_desc` and `gatt_discover_char`, which do not look at whether the request was
refused. -/
def gattDiscover (s : Link) (owner : Nat) (proc : Proc) (pdu : Pdu) : Link :=
  ((s.makeRecord owner).recordInc owner).gAttribSend owner proc pdu

/-- `lble_request`, `lble_write`, `lble_discover_hand` and `lble_discover_char`. -/
def call (s : Link) (call : Call) : Link :=
  let owner := s.nextOwner
  let (pdu, proc) := call.begin s.mtu.buflen
  let s := { s.record [.called owner call] with nextOwner := owner + 1 }
  match call with
  | .write .. => s.gAttribSend owner proc pdu
  | .request _ => (s.alloc (.request owner)).gattReadChar owner proc pdu
  | .discoverHand | .discoverChar => s.gattDiscover owner proc pdu

/-- `lble_listen`: `g_attrib_register` makes a callback record, and `bt_att_register` an entry of
`notify_list` if there is a channel. -/
def listen (s : Link) : Link :=
  let cb : Cb := ⟨s.nextAddr, .notify⟩
  let s := { s.alloc (.callbacks cb.addr) with
    callbacks := cb :: s.callbacks
    nextAddr := s.nextAddr + 1 }
  if s.attached then { s with notifyList := s.notifyList ++ [cb] } else s

/-- `lble_disconnect` gives the reference of the handle back. -/
def drop (s : Link) : Link := { s.push [.attribUnref] with app := false }

/-! ### The dispatches -/

/-- The part of `pick_next_send_op` about requests: they wait for the pending one. -/
def pickRequest (s : Link) : Option (Op × Link) :=
  match s.pendingReq, s.reqQueue with
  | none, op :: rest =>
    if op.pdu.length ≤ s.mtu.buflen then some (op, { s with reqQueue := rest }) else none
  | _, _ => none

/-- `pick_next_send_op`: the write queue comes first. -/
def pickNextSendOp (s : Link) : Option (Op × Link) :=
  match s.writeQueue with
  | op :: rest =>
    if op.pdu.length ≤ s.mtu.buflen then some (op, { s with writeQueue := rest })
    else s.pickRequest
  | [] => s.pickRequest

/-- The owner of an operation. -/
def Op.owner (op : Op) : Option Nat :=
  match op.cb with
  | some ⟨_, .result owner _⟩ => some owner
  | _ => none

/-- `can_write_data`; `ret` is what `io_send` returns. -/
def canWriteData (s : Link) (ret : Int) : Link :=
  match s.pickNextSendOp with
  | none => { s with writerActive := false }
  | some (op, s) =>
    if ret = 0 then (s.push [.destroyOp op]).runCallback op opErrorRsp []
    else
      let s := if 0 < ret then s.record [.sent op.owner op.pdu] else s
      match op.type with
      | .req => { s with pendingReq := some op }
      | .rsp => { s.push [.destroyOp op] with inReq := false }
      | _ => s.push [.destroyOp op]

/-- `change_security` of a channel at `BT_ATT_SECURITY_AUTO`: `security` is the level of the
socket, and `setOk` tells whether it can be set. -/
def changeSecurity (ecode : UInt8) (security : Int) (setOk : Bool) : Bool :=
  ((ecode = 0x0f ∧ security < 2) ∨ (ecode = 0x05 ∧ security < 4)) && setOk

/-- `handle_error_rsp` has the pending request sent again. -/
def retries (opcode : UInt8) (pdu : Pdu) (security : Int) (setOk : Bool) : Bool :=
  opcode = opErrorRsp ∧ pdu.length = 4 ∧ changeSecurity (byteAt pdu 3) security setOk

/-- `handle_rsp` -/
def handleRsp (s : Link) (opcode : UInt8) (pdu : Pdu) (security : Int) (setOk : Bool) : Link :=
  match s.pendingReq with
  | none => s.record [.ioShutdown]
  | some op =>
    let s := s.record [.answered op.owner op.pdu (opcode :: pdu)]
    if retries opcode pdu security setOk then
      { s with pendingReq := none, reqQueue := op :: s.reqQueue }.wakeupChanWriter
    else
      let rsp := responseOf (byteAt op.pdu 0) opcode pdu
      (s.push [.destroyOp op, .rspDone]).runCallback op rsp.1 rsp.2

/-- `handle_notify` takes a reference to the `bt_att` and goes through `notify_list`. -/
def handleNotify (s : Link) (pdu : Pdu) : Link :=
  let entry := if s.notifyList = [] then none else some 0
  { s.push [.notifyNext entry pdu false] with attRef := s.attRef + 1 }

/-- The part of `can_read_data` that depends on the type of the PDU. -/
def handlePdu (s : Link) (opcode : UInt8) (pdu : Pdu) (security : Int) (setOk : Bool) : Link :=
  match getOpType opcode with
  | .rsp => s.handleRsp opcode pdu security setOk
  | .conf => s.record [.ioShutdown]
  | .req =>
    if s.inReq then s.record [.ioShutdown]
    else { s with inReq := true }.handleNotify (opcode :: pdu)
  | _ => s.handleNotify (opcode :: pdu)

/-- `can_read_data` of a PDU; it holds a reference to the `bt_att` while it runs. -/
def canReadData (s : Link) (bytes : Pdu) (security : Int) (setOk : Bool) : Link :=
  match bytes with
  | [] => s
  | opcode :: pdu =>
    { (s.record [.received bytes]).push [.attUnref] with
      attRef := s.attRef + 1 }.handlePdu opcode pdu security setOk

/-- `disconnect_cb`: the channel is detached, and the queued and the pending requests are ended
with an error. -/
def disconnectCb (s : Link) : Link :=
  { s.push ((s.reqQueue ++ s.writeQueue).map .discOp ++ [.discPending, .chanFree]) with
    attached := false
    reqQueue := []
    writeQueue := [] }

/-- `timeout_cb` of the pending request. -/
def timeoutCb (s : Link) (op : Op) : Link :=
  ({ s with pendingReq := none }.push [.destroyOp op, .timeoutDone]).runCallback op opErrorRsp []

/-! ### Steps -/

/-- The steps of a connection. -/
inductive Label
  /-- The application calls `lble_request`, `lble_write`, `lble_discover_hand` or
  `lble_discover_char`. -/
  | call (call : Call)
  /-- The application calls `lble_listen`. -/
  | listen
  /-- `lble_disconnect` gives up the `GAttrib`. -/
  | drop
  /-- The event handler returns. -/
  | ret
  /-- The library runs on. -/
  | resume
  /-- The socket is writable; `io_send` returns `ret`. -/
  | canWrite (ret : Int)
  /-- A PDU arrives. -/
  | canRead (bytes : Pdu) (security : Int) (setOk : Bool)
  /-- The link is lost. -/
  | hup
  /-- The timer of the pending request expires. -/
  | timeout
  deriving DecidableEq, Repr

/-- The application is in control: no library code is running, or the event handler is. -/
def AppInControl (s : Link) : Prop := s.todo = [] ∨ s.todo.head? = some .handler

instance (s : Link) : Decidable s.AppInControl := inferInstanceAs (Decidable (_ ∨ _))

/-- The main loop dispatches to the channel when no library code is running. -/
def Dispatches (s : Link) : Prop := s.todo = [] ∧ s.attached

instance (s : Link) : Decidable s.Dispatches := inferInstanceAs (Decidable (_ ∧ _))

/-- `lble_write` does something only for 1 to 255 bytes, the range of its length parameter. -/
def Admissible : Call → Prop
  | .write _ data => 0 < data.length ∧ data.length ≤ 255
  | _ => True

instance (call : Call) : Decidable (Admissible call) := by
  cases call <;> unfold Admissible <;> infer_instance

/-- One step of the connection. -/
def step (s : Link) : Label → Option Link
  | .call call => if s.AppInControl ∧ s.app ∧ Admissible call then some (s.call call) else none
  | .listen => if s.AppInControl ∧ s.app then some s.listen else none
  | .drop => if s.AppInControl ∧ s.app then some s.drop else none
  | .ret => match s.todo with
    | .handler :: todo => some { s with todo := todo }
    | _ => none
  | .resume => match s.todo with
    | .handler :: _ => none
    | code :: todo => some ({ s with todo := todo }.run code)
    | [] => none
  | .canWrite ret => if s.Dispatches ∧ s.writerActive then some (s.canWriteData ret) else none
  | .canRead bytes security setOk =>
    if s.Dispatches ∧ bytes.length ≤ s.mtu.buflen then some (s.canReadData bytes security setOk)
    else none
  | .hup => if s.Dispatches then some s.disconnectCb else none
  | .timeout => match s.pendingReq with
    | some op => if s.Dispatches then some (s.timeoutCb op) else none
    | none => none

/-- The connection as a labelled machine. -/
def machine : LabelledMachine Link Label := ⟨step⟩

/-! ### What the steps do -/

section Steps

variable {s t : Link}

/-- The step in which the application makes a call. -/
theorem step_call {call : Call} (h : s.step (.call call) = some t) :
    s.AppInControl ∧ s.app = true ∧ Admissible call ∧ t = s.call call := by
  obtain ⟨⟨hcontrol, happ, hadm⟩, ht⟩ := Option.ite_none_right_eq_some.mp h
  exact ⟨hcontrol, happ, hadm, (Option.some.inj ht).symm⟩

theorem step_listen (h : s.step .listen = some t) :
    s.AppInControl ∧ s.app = true ∧ t = s.listen := by
  obtain ⟨⟨hcontrol, happ⟩, ht⟩ := Option.ite_none_right_eq_some.mp h
  exact ⟨hcontrol, happ, (Option.some.inj ht).symm⟩

theorem step_drop (h : s.step .drop = some t) :
    s.AppInControl ∧ s.app = true ∧ t = s.drop := by
  obtain ⟨⟨hcontrol, happ⟩, ht⟩ := Option.ite_none_right_eq_some.mp h
  exact ⟨hcontrol, happ, (Option.some.inj ht).symm⟩

/-- The step in which the event handler returns. -/
theorem step_ret (h : s.step .ret = some t) :
    ∃ todo, s.todo = .handler :: todo ∧ t = { s with todo := todo } := by
  simp only [step] at h
  split at h
  · rename_i todo htodo
    exact ⟨todo, htodo, (Option.some.inj h).symm⟩
  · cases h

/-- The step in which the library runs on. -/
theorem step_resume (h : s.step .resume = some t) :
    ∃ code todo, s.todo = code :: todo ∧ code ≠ .handler ∧
      t = { s with todo := todo }.run code := by
  simp only [step] at h
  split at h
  · cases h
  · rename_i code todo hne htodo
    exact ⟨code, todo, htodo, hne, (Option.some.inj h).symm⟩
  · cases h

theorem step_canWrite {ret : Int} (h : s.step (.canWrite ret) = some t) :
    s.Dispatches ∧ s.writerActive = true ∧ t = s.canWriteData ret := by
  obtain ⟨⟨hdispatches, hactive⟩, ht⟩ := Option.ite_none_right_eq_some.mp h
  exact ⟨hdispatches, hactive, (Option.some.inj ht).symm⟩

theorem step_canRead {bytes : Pdu} {security : Int} {setOk : Bool}
    (h : s.step (.canRead bytes security setOk) = some t) :
    s.Dispatches ∧ bytes.length ≤ s.mtu.buflen ∧ t = s.canReadData bytes security setOk := by
  obtain ⟨⟨hdispatches, hlength⟩, ht⟩ := Option.ite_none_right_eq_some.mp h
  exact ⟨hdispatches, hlength, (Option.some.inj ht).symm⟩

theorem step_hup (h : s.step .hup = some t) : s.Dispatches ∧ t = s.disconnectCb := by
  obtain ⟨hdispatches, ht⟩ := Option.ite_none_right_eq_some.mp h
  exact ⟨hdispatches, (Option.some.inj ht).symm⟩

theorem step_timeout (h : s.step .timeout = some t) :
    ∃ op, s.pendingReq = some op ∧ s.Dispatches ∧ t = s.timeoutCb op := by
  simp only [step] at h
  split at h
  · rename_i op hp
    obtain ⟨hdispatches, ht⟩ := Option.ite_none_right_eq_some.mp h
    exact ⟨op, hp, hdispatches, (Option.some.inj ht).symm⟩
  · cases h

end Steps

end Link

end Libble
