import Libble.Att.Codec
import Libble.Device.Events

/-!
# The procedures of the client

The calls `lble_request`, `lble_write`, `lble_discover_hand` and `lble_discover_char` start
procedures of `bluez/attrib/gatt.c`: a request is sent with a callback, and the callback of each
response sends the next request or delivers the result to the callbacks of `lib/libble.c`, which
make the events. A `Proc` is the callback that waits for a response together with the record that
it is called with, and `react` is what it does. The counters and the release of the records are
not part of this file.

## Main definitions

* `Gatt.Proc`, `Gatt.Reaction`, `Gatt.react`.
* `Gatt.Call`, `Gatt.Call.begin`: the first request of a call and its callback.

## Main results

* `Gatt.react_of_error`: an error ends every procedure.
* `Gatt.isRequest_begin`, `Gatt.continues_of_react`: what is sent is a request that fits the MTU,
  and a procedure that goes on keeps its record.
-/

namespace Libble.Gatt

open Att

/-- `struct gatt_desc` -/
structure GattDesc where
  handle : UInt16
  uuid16 : UInt16
  deriving DecidableEq, Repr

/-- The descriptor in an entry of a Find Information Response; only the format 1 has 16-bit
types. -/
def GattDesc.ofEntry (format : UInt8) (value : List UInt8) : GattDesc where
  handle := getLe16 value 0
  uuid16 := if format = 0x01 then getLe16 value 2 else 0

/-- `struct gatt_char` -/
structure GattChar where
  handle : UInt16
  properties : UInt8
  valueHandle : UInt16
  deriving DecidableEq, Repr

/-- The characteristic in an entry of a Read By Type Response. -/
def GattChar.ofEntry (value : List UInt8) : GattChar where
  handle := getLe16 value 0
  properties := byteAt value 2
  valueHandle := getLe16 value 3

/-- A callback that waits for a response, with the fields of its record. -/
inductive Proc
  /-- `char_write_cb`, which has no record. -/
  | charWriteCb
  /-- `read_char_helper` with a `read_long_data` whose buffer is still `NULL`. -/
  | readCharHelper (handle : UInt16)
  /-- `read_blob_helper` with its `read_long_data`. -/
  | readBlobHelper (handle : UInt16) (buffer : List UInt8) (size : UInt16)
  /-- `prepare_write_cb` with its `write_long_data`. -/
  | prepareWriteCb (handle : UInt16) (value : List UInt8) (offset : UInt16)
  /-- `desc_discovered_cb` with its `discover_desc`. -/
  | descDiscoveredCb (start «end» : UInt16) (descriptors : List GattDesc)
  /-- `char_discovered_cb` with its `discover_char`. -/
  | charDiscoveredCb (start «end» : UInt16) (characteristics : List GattChar)
  deriving DecidableEq, Repr

namespace Proc

/-- The record is counted, and released by a destroy function. -/
def hasRecord : Proc → Bool
  | charWriteCb | prepareWriteCb .. => false
  | readCharHelper .. | readBlobHelper .. | descDiscoveredCb .. | charDiscoveredCb .. => true

/-- The procedure was started by `lble_request` and ends in `char_read_cb`. -/
def isRead : Proc → Bool
  | readCharHelper .. | readBlobHelper .. => true
  | charWriteCb | prepareWriteCb .. | descDiscoveredCb .. | charDiscoveredCb .. => false

end Proc

/-- What a callback does with a response: it sends the next request or makes events. -/
inductive Reaction
  | send (pdu : Pdu) (next : Proc)
  | finish (events : List Event)
  deriving DecidableEq, Repr

/-! ### The callbacks of `libble.c` -/

/-- `events_handler` -/
def eventsHandler (pdu : Pdu) (len : UInt16) : List Event :=
  if byteAt pdu 0 = opHandleNfy then
    [.device (getLe16 pdu 1) (len - 3).toUInt8 (pdu.drop 3)]
  else []

/-- The event of a callback that is told an error. -/
def errorEvent (status : UInt8) : Event := .errorOccured (attEcode2str status)

/-- `char_read_cb` for the request with this handle; it frees the `request_t` afterwards. -/
def charReadCb (handle : UInt16) (status : UInt8) (pdu : Pdu) (plen : UInt16) : List Event :=
  if status ≠ 0 then [errorEvent status]
  else
    let len := plen.toNat + 2
    match decReadResp pdu plen.toNat (len - 3) with
    | some value => eventsHandler (opHandleNfy :: (putLe16 handle ++ value)) (UInt16.ofNat len)
    | none => []

/-- `char_write_cb` -/
def charWriteCb (status : UInt8) : List Event :=
  if status ≠ 0 then [errorEvent status] else []

/-- `char_desc_cb` -/
def charDescCb (status : UInt8) (descriptors : List GattDesc) : List Event :=
  if status ≠ 0 then [errorEvent status]
  else descriptors.map (fun desc => .uuid desc.handle (some ⟨desc.uuid16, 0, 0, desc.handle⟩)) ++
    [.uuid 0 none]

/-- `char_discovered_cb` of `libble.c` -/
def charDiscoveredCb (status : UInt8) (characteristics : List GattChar) : List Event :=
  if status ≠ 0 then [errorEvent status]
  else characteristics.map (fun chars =>
      .uuid chars.handle (some ⟨0, chars.properties, chars.handle, chars.valueHandle⟩)) ++
    [.uuid 0 none]

/-! ### The callbacks of `gatt.c` -/

/-- `read_char_helper` -/
def readCharHelper (buflen : Nat) (handle : UInt16) (status : UInt8) (rpdu : Pdu) : Reaction :=
  let rlen := UInt16.ofNat rpdu.length
  if status ≠ 0 ∨ rlen.toNat < buflen then .finish (charReadCb handle status rpdu rlen)
  else .send (encReadBlobReq handle (rlen - 1)) (.readBlobHelper handle rpdu rlen)

/-- `read_blob_helper` -/
def readBlobHelper (buflen : Nat) (handle : UInt16) (buffer : List UInt8) (size : UInt16)
    (status : UInt8) (rpdu : Pdu) : Reaction :=
  let rlen := UInt16.ofNat rpdu.length
  if status ≠ 0 ∨ rlen = 1 then .finish (charReadCb handle 0 buffer size)
  else
    let buffer := buffer.take size.toNat ++ rpdu.drop 1
    let size := size + (rlen - 1)
    if rlen.toNat < buflen then .finish (charReadCb handle 0 buffer size)
    else .send (encReadBlobReq handle (size - 1)) (.readBlobHelper handle buffer size)

/-- `prepare_write`: the rest of the value, whose length is a `size_t`, is cut off to the buffer. -/
def prepareWrite (buflen : Nat) (handle : UInt16) (value : List UInt8) (offset : UInt16) :
    Pdu × Proc :=
  (encPrepWriteReq handle offset value ((2 ^ 64 + value.length - offset.toNat) % 2 ^ 64) buflen,
    .prepareWriteCb handle value offset)

/-- `prepare_write_cb`, with `execute_write` for `ATT_WRITE_ALL_PREP_WRITES`. -/
def prepareWriteCb (buflen : Nat) (handle : UInt16) (value : List UInt8) (offset : UInt16)
    (status : UInt8) (rpdu : Pdu) : Reaction :=
  if status ≠ 0 then .finish (charWriteCb status)
  else
    let offset := offset + (UInt16.ofNat rpdu.length - 5)
    if offset.toNat = value.length then .send (encExecWriteReq 1) .charWriteCb
    else
      let next := prepareWrite buflen handle value offset
      .send next.1 next.2

/-- `desc_discovered_cb` -/
def descDiscoveredCb (start «end» : UInt16) (descriptors : List GattDesc) (status : UInt8)
    (ipdu : Pdu) : Reaction :=
  if status = ecodeAttrNotFound then
    .finish (charDescCb (if descriptors = [] then status else 0) descriptors)
  else if status ≠ 0 then .finish (charDescCb status descriptors)
  else match decFindInfoResp ipdu ipdu.length with
    | none => .finish (charDescCb ecodeIo descriptors)
    | some (format, list) =>
      let found := list.data.map (GattDesc.ofEntry format)
      let descriptors := descriptors ++ found
      let last := (found.getLast?.map GattDesc.handle).getD 0xffff
      if last < start then .finish (charDescCb ecodeUnlikely descriptors)
      else if last < «end» then
        .send (encFindInfoReq (last + 1) «end») (.descDiscoveredCb (last + 1) «end» descriptors)
      else .finish (charDescCb 0 descriptors)

/-- `GATT_CHARAC_UUID` -/
abbrev gattCharacUuid : UInt16 := 0x2803

/-- `char_discovered_cb` of `gatt.c` -/
def gattCharDiscoveredCb (start «end» : UInt16) (characteristics : List GattChar) (status : UInt8)
    (ipdu : Pdu) : Reaction :=
  if status = ecodeAttrNotFound then
    .finish (charDiscoveredCb (if characteristics = [] then status else 0) characteristics)
  else if status ≠ 0 then .finish (charDiscoveredCb status characteristics)
  else match decReadByTypeResp ipdu ipdu.length with
    | none => .finish (charDiscoveredCb ecodeIo characteristics)
    | some list =>
      let found := list.data.map GattChar.ofEntry
      let characteristics := characteristics ++ found
      let last := (found.getLast?.map GattChar.handle).getD 0
      if last < start then .finish (charDiscoveredCb ecodeUnlikely characteristics)
      else if last ≠ 0 ∧ last + 1 < «end» then
        .send (encReadByTypeReq (last + 1) «end» gattCharacUuid)
          (.charDiscoveredCb (last + 1) «end» characteristics)
      else .finish (charDiscoveredCb 0 characteristics)

/-- What the waiting callback does when it is called with a status and the PDU of the response. -/
def react (buflen : Nat) (proc : Proc) (status : UInt8) (rpdu : Pdu) : Reaction :=
  match proc with
  | .charWriteCb => .finish (charWriteCb status)
  | .readCharHelper handle => readCharHelper buflen handle status rpdu
  | .readBlobHelper handle buffer size => readBlobHelper buflen handle buffer size status rpdu
  | .prepareWriteCb handle value offset => prepareWriteCb buflen handle value offset status rpdu
  | .descDiscoveredCb start «end» descriptors =>
    descDiscoveredCb start «end» descriptors status rpdu
  | .charDiscoveredCb start «end» characteristics =>
    gattCharDiscoveredCb start «end» characteristics status rpdu

/-! ### The calls -/

/-- A call of the application that starts a procedure. -/
inductive Call
  /-- `lble_request` -/
  | request (handle : UInt16)
  /-- `lble_write` -/
  | write (handle : UInt16) (data : List UInt8)
  /-- `lble_discover_hand` -/
  | discoverHand
  /-- `lble_discover_char` -/
  | discoverChar
  deriving DecidableEq, Repr

/-- `gatt_write_char` -/
def gattWriteChar (buflen : Nat) (handle : UInt16) (value : List UInt8) : Pdu × Proc :=
  if value.length ≤ buflen - 3 then
    (encWriteReq handle value value.length buflen, .charWriteCb)
  else prepareWrite buflen handle value 0

/-- The first request of a call, with its callback: `gatt_read_char`, `gatt_write_char`,
`gatt_discover_desc` and `gatt_discover_char`. -/
def Call.begin (buflen : Nat) : Call → Pdu × Proc
  | request handle => (encReadReq handle, .readCharHelper handle)
  | write handle data => gattWriteChar buflen handle data
  | discoverHand => (encFindInfoReq 0x0001 0xffff, .descDiscoveredCb 0x0001 0xffff [])
  | discoverChar =>
    (encReadByTypeReq 0x0001 0xffff gattCharacUuid, .charDiscoveredCb 0x0001 0xffff [])

/-! ### Properties of the callbacks -/

variable {buflen : Nat} {proc next : Proc} {status : UInt8} {rpdu pdu : Pdu}

/-- An error ends every procedure. -/
theorem react_of_error (h : status ≠ 0) :
    ∃ events, react buflen proc status rpdu = .finish events := by
  cases proc with
  | charWriteCb => exact ⟨_, rfl⟩
  | readCharHelper handle => exact ⟨_, if_pos (.inl h)⟩
  | readBlobHelper handle buffer size => exact ⟨_, if_pos (.inl h)⟩
  | prepareWriteCb handle value offset => exact ⟨_, if_pos h⟩
  | descDiscoveredCb start «end» descriptors =>
    by_cases hfound : status = ecodeAttrNotFound
    · exact ⟨_, if_pos hfound⟩
    · exact ⟨_, (if_neg hfound).trans (if_pos h)⟩
  | charDiscoveredCb start «end» characteristics =>
    by_cases hfound : status = ecodeAttrNotFound
    · exact ⟨_, if_pos hfound⟩
    · exact ⟨_, (if_neg hfound).trans (if_pos h)⟩

/-- A PDU that `bt_att_send` takes for a request: it has a request opcode and fits the MTU. -/
structure IsRequest (buflen : Nat) (pdu : Pdu) : Prop where
  type : getOpType (byteAt pdu 0) = .req
  length_pos : 0 < pdu.length
  length_le : pdu.length ≤ buflen

/-- How a procedure goes on: the request of `next` is `pdu`, and the record stays the same one. -/
structure Continues (buflen : Nat) (proc : Proc) (pdu : Pdu) (next : Proc) : Prop where
  isRequest : IsRequest buflen pdu
  hasRecord : next.hasRecord = proc.hasRecord
  isRead : next.isRead = proc.isRead

/-- A request of fixed size. -/
theorem isRequest_of_fixed (h : 23 ≤ buflen) {opcode : UInt8} {rest : List UInt8}
    (type : getOpType opcode = .req) (length : rest.length < 23) :
    IsRequest buflen (opcode :: rest) :=
  ⟨type, Nat.succ_pos _, Nat.le_trans length h⟩

theorem isRequest_prepareWrite (h : 23 ≤ buflen) (handle : UInt16) (value : List UInt8)
    (offset : UInt16) : IsRequest buflen (prepareWrite buflen handle value offset).1 :=
  ⟨rfl, Nat.succ_pos _, length_encPrepWriteReq_le _ _ _ _ (by omega)⟩

/-- The first request of a call is one. -/
theorem isRequest_begin (h : 23 ≤ buflen) (call : Call) :
    IsRequest buflen (call.begin buflen).1 := by
  cases call with
  | request handle => exact isRequest_of_fixed h rfl (by simp)
  | write handle data =>
    simp only [Call.begin, gattWriteChar]
    split
    · exact ⟨rfl, Nat.succ_pos _, length_encWriteReq_le _ _ _ (by omega)⟩
    · exact isRequest_prepareWrite h _ _ _
  | discoverHand | discoverChar => exact isRequest_of_fixed h rfl (by simp)

/-- A procedure that goes on sends a request and keeps its record. -/
theorem continues_of_react (h : 23 ≤ buflen)
    (hreact : react buflen proc status rpdu = .send pdu next) :
    Continues buflen proc pdu next := by
  cases proc with
  | charWriteCb => cases hreact
  | readCharHelper handle =>
    simp only [react, readCharHelper] at hreact
    split_ifs at hreact
    obtain ⟨rfl, rfl⟩ := Reaction.send.inj hreact
    exact ⟨isRequest_of_fixed h rfl (by simp), rfl, rfl⟩
  | readBlobHelper handle buffer size =>
    simp only [react, readBlobHelper] at hreact
    split_ifs at hreact
    obtain ⟨rfl, rfl⟩ := Reaction.send.inj hreact
    exact ⟨isRequest_of_fixed h rfl (by simp), rfl, rfl⟩
  | prepareWriteCb handle value offset =>
    simp only [react, prepareWriteCb] at hreact
    split_ifs at hreact
    · obtain ⟨rfl, rfl⟩ := Reaction.send.inj hreact
      exact ⟨isRequest_of_fixed h rfl (by decide), rfl, rfl⟩
    · obtain ⟨rfl, rfl⟩ := Reaction.send.inj hreact
      exact ⟨isRequest_prepareWrite h _ _ _, rfl, rfl⟩
  | descDiscoveredCb start «end» descriptors =>
    simp only [react, descDiscoveredCb] at hreact
    split at hreact
    · cases hreact
    · split at hreact
      · cases hreact
      · cases hdec : decFindInfoResp rpdu rpdu.length with
        | none => simp only [hdec, reduceCtorEq] at hreact
        | some result =>
          simp only [hdec] at hreact
          split_ifs at hreact
          obtain ⟨rfl, rfl⟩ := Reaction.send.inj hreact
          exact ⟨isRequest_of_fixed h rfl (by simp), rfl, rfl⟩
  | charDiscoveredCb start «end» characteristics =>
    simp only [react, gattCharDiscoveredCb] at hreact
    split at hreact
    · cases hreact
    · split at hreact
      · cases hreact
      · cases hdec : decReadByTypeResp rpdu rpdu.length with
        | none => simp only [hdec, reduceCtorEq] at hreact
        | some result =>
          simp only [hdec] at hreact
          split_ifs at hreact
          obtain ⟨rfl, rfl⟩ := Reaction.send.inj hreact
          exact ⟨isRequest_of_fixed h rfl (by simp), rfl, rfl⟩

end Libble.Gatt
