import Libble.Gatt.Procedure

/-!
# Reads of long values

A value that does not fit a Read Response is read on with Read Blob Requests. The end of the value
is recognised by a response that is not full, by an empty one, or by an error; then `char_read_cb`
is called with the PDU that has been put together.

## Main definitions

* `Gatt.ReadCall`, `Gatt.readCall`: the call of `char_read_cb` that ends a read.
* `Gatt.readStage`: the requests of a read, with the callbacks that wait for the answers.
* `Gatt.EndsValue`: the answers behind the end of a value.

## Main results

* `Gatt.react_of_readCall`, `Gatt.send_of_readCall`: a read sends the next request or calls
  `char_read_cb`.
* `Gatt.react_readStage`, `Gatt.readCall_readStage`: what follows a part of a value.
-/

namespace Libble.Gatt

open Att

/-- A call of `char_read_cb`: its status and its PDU with the length. -/
structure ReadCall where
  status : UInt8
  pdu : Pdu
  plen : UInt16
  deriving DecidableEq, Repr

/-- The events of a call for a handle. -/
def ReadCall.events (handle : UInt16) (call : ReadCall) : List Event :=
  charReadCb handle call.status call.pdu call.plen

/-- The call of `char_read_cb` with which `read_char_helper` or `read_blob_helper` answers a
response. -/
def readCall (buflen : Nat) (proc : Proc) (status : UInt8) (rpdu : Pdu) : Option ReadCall :=
  let rlen := UInt16.ofNat rpdu.length
  match proc with
  | .readCharHelper _ =>
    if status ≠ 0 ∨ rlen.toNat < buflen then some ⟨status, rpdu, rlen⟩ else none
  | .readBlobHelper _ buffer size =>
    if status ≠ 0 ∨ rlen = 1 then some ⟨0, buffer, size⟩
    else if rlen.toNat < buflen then
      some ⟨0, buffer.take size.toNat ++ rpdu.drop 1, size + (rlen - 1)⟩
    else none
  | .charWriteCb | .prepareWriteCb .. | .descDiscoveredCb .. | .charDiscoveredCb .. => none

/-- The handle of a read. -/
def Proc.readHandle : Proc → UInt16
  | readCharHelper handle | readBlobHelper handle .. => handle
  | charWriteCb | prepareWriteCb .. | descDiscoveredCb .. | charDiscoveredCb .. => 0

section ReadCall

variable {buflen : Nat} {proc : Proc} {status : UInt8} {rpdu : Pdu}

/-- A read ends with the events of its call. -/
theorem react_of_readCall {call : ReadCall} (h : readCall buflen proc status rpdu = some call) :
    react buflen proc status rpdu = .finish (call.events proc.readHandle) := by
  cases proc with
  | readCharHelper handle =>
    obtain ⟨hdone, hcall⟩ := Option.ite_none_right_eq_some.mp h
    obtain rfl := Option.some.inj hcall
    exact if_pos hdone
  | readBlobHelper handle buffer size =>
    simp only [readCall] at h
    simp only [react, readBlobHelper]
    split_ifs at h ⊢ with hdone hshort
    · obtain rfl := Option.some.inj h
      rfl
    · obtain rfl := Option.some.inj h
      rfl
  | charWriteCb | prepareWriteCb | descDiscoveredCb | charDiscoveredCb => cases h

/-- A read without a call sends the next request, for the same handle. -/
theorem send_of_readCall (isRead : proc.isRead = true)
    (h : readCall buflen proc status rpdu = none) :
    ∃ pdu next, react buflen proc status rpdu = .send pdu next ∧ next.isRead = true ∧
      next.readHandle = proc.readHandle := by
  cases proc with
  | readCharHelper handle =>
    simp only [readCall] at h
    simp only [react, readCharHelper]
    split_ifs at h ⊢ with hdone
    exact ⟨_, _, rfl, rfl, rfl⟩
  | readBlobHelper handle buffer size =>
    simp only [readCall] at h
    simp only [react, readBlobHelper]
    split_ifs at h ⊢ with hdone hshort
    exact ⟨_, _, rfl, rfl, rfl⟩
  | charWriteCb | prepareWriteCb | descDiscoveredCb | charDiscoveredCb => cases isRead

end ReadCall

/-! ### The events of a read -/

section Events

variable {handle size : UInt16} {pdu : Pdu}

/-- A read that has not been told an error delivers what has been put together. -/
theorem charReadCb_eq (hop : byteAt pdu 0 = opReadRsp) (hsize : 2 ≤ size.toNat) :
    charReadCb handle 0 pdu size =
      [.device handle (UInt16.ofNat (size.toNat + 2) - 3).toUInt8
        (slice pdu 1 (size.toNat - 1))] := by
  have hdec : decReadResp pdu size.toNat (size.toNat + 2 - 3) =
      some (slice pdu 1 (size.toNat - 1)) := by
    rw [decReadResp, if_neg (not_not.mpr hop), if_neg (by omega), if_neg (by omega)]
  have hhandle : ∀ value, getLe16 (opHandleNfy :: (putLe16 handle ++ value)) 1 = handle :=
    fun value => (getLe16_append_right [opHandleNfy] _ 0).trans (getLe16_putLe16 handle value)
  rw [charReadCb, if_neg (not_not.mpr rfl)]
  simp only [hdec]
  have hopcode : ∀ value, byteAt (opHandleNfy :: (putLe16 handle ++ value)) 0 = opHandleNfy :=
    fun _ => rfl
  rw [eventsHandler, if_pos (hopcode _), hhandle]
  rfl

/-- It tells no error. -/
theorem errorOccured_notMem_charReadCb (text : String) :
    .errorOccured text ∉ charReadCb handle 0 pdu size := by
  rw [charReadCb, if_neg (not_not.mpr rfl)]
  dsimp only
  split
  · rw [eventsHandler]
    split
    · simp
    · simp
  · simp

end Events

/-! ### The stages of a read -/

section Stages

variable (buflen : Nat) (handle : UInt16) (value : List UInt8)

/-- The offset of the part of a value that the request `n` asks for. -/
def blobOffset (n : Nat) : Nat := n * (buflen - 1)

/-- The request `n` of a read and the callback that waits for its answer: after the Read Request
come Read Blob Requests. -/
def readStage : Nat → Pdu × Proc
  | 0 => (encReadReq handle, .readCharHelper handle)
  | n + 1 =>
    (encReadBlobReq handle (UInt16.ofNat (blobOffset buflen (n + 1))),
      .readBlobHelper handle (opReadRsp :: value.take (blobOffset buflen (n + 1)))
        (UInt16.ofNat (blobOffset buflen (n + 1) + 1)))

/-- The part of a value at an offset. -/
def blob (offset : Nat) : List UInt8 := (value.drop offset).take (buflen - 1)

/-- The response with the part that the request `n` asks for. -/
def partRsp : Nat → Pdu
  | 0 => opReadRsp :: blob buflen value (blobOffset buflen 0)
  | n + 1 => opReadBlobRsp :: blob buflen value (blobOffset buflen (n + 1))

/-- An answer behind the end of a value: an empty blob, Attribute Not Long or Invalid Offset. -/
def EndsValue (rsp : Pdu) : Prop :=
  rsp = [opReadBlobRsp] ∨ ∃ lo hi code, (code = 0x0b ∨ code = 0x07) ∧
    rsp = [opErrorRsp, opReadBlobReq, lo, hi, code]

/-- The call with which a value is delivered. -/
def valueCall : ReadCall := ⟨0, opReadRsp :: value, UInt16.ofNat (value.length + 1)⟩

variable {buflen handle value}

theorem blobOffset_zero : blobOffset buflen 0 = 0 := Nat.zero_mul _

theorem blobOffset_succ (n : Nat) :
    blobOffset buflen (n + 1) = blobOffset buflen n + (buflen - 1) := Nat.succ_mul n _

/-- The requests of a value are those whose offsets do not lie behind its end. -/
theorem blobOffset_le_iff (h : 1 < buflen) {n : Nat} :
    blobOffset buflen n ≤ value.length ↔ n ≤ value.length / (buflen - 1) :=
  (Nat.le_div_iff_mul_le (by omega)).symm

theorem length_blob {offset : Nat} :
    (blob buflen value offset).length = min (buflen - 1) (value.length - offset) := by
  simp [blob]

/-- The parts before an offset and the part at the offset. -/
theorem take_append_blob (offset : Nat) :
    value.take offset ++ blob buflen value offset = value.take (offset + (buflen - 1)) :=
  List.take_add.symm

/-- The length of a response with a part, as a 16-bit number. -/
theorem toNat_length_blob (opcode : UInt8) (offset : Nat) (hle : value.length ≤ 512) :
    (UInt16.ofNat (opcode :: blob buflen value offset).length).toNat =
      min (buflen - 1) (value.length - offset) + 1 := by
  rw [List.length_cons, length_blob]
  exact UInt16.toNat_ofNat_of_lt' (show _ < 2 ^ 16 by omega)

/-- What is in the buffer after another part. -/
theorem buffer_append_blob {offset : Nat} (hoffset : offset ≤ value.length)
    (hle : value.length ≤ 512) :
    (opReadRsp :: value.take offset).take (UInt16.ofNat (offset + 1)).toNat ++
        (opReadBlobRsp :: blob buflen value offset).drop 1 =
      opReadRsp :: value.take (offset + (buflen - 1)) := by
  have hsize : (UInt16.ofNat (offset + 1)).toNat = offset + 1 :=
    UInt16.toNat_ofNat_of_lt' (show _ < 2 ^ 16 by omega)
  rw [hsize, List.take_succ_cons, List.take_take, Nat.min_self, List.drop_one, List.tail_cons,
    List.cons_append, take_append_blob]

theorem ofNat_length_sub_one (opcode : UInt8) (part : List UInt8) :
    UInt16.ofNat (opcode :: part).length - 1 = UInt16.ofNat part.length := by
  rw [List.length_cons, UInt16.ofNat_add]
  exact UInt16.add_sub_cancel ..

/-- The size after another part. -/
theorem size_add_blob (opcode : UInt8) (offset : Nat) :
    UInt16.ofNat (offset + 1) +
        (UInt16.ofNat (opcode :: blob buflen value offset).length - 1) =
      UInt16.ofNat (offset + (blob buflen value offset).length + 1) := by
  rw [ofNat_length_sub_one, ← UInt16.ofNat_add, Nat.add_right_comm]

/-- A response with a full part has the next part asked for. -/
theorem react_readStage (hbuf : 23 ≤ buflen) (hle : value.length ≤ 512) {n : Nat}
    (hn : blobOffset buflen (n + 1) ≤ value.length) :
    react buflen (readStage buflen handle value n).2 0 (partRsp buflen value n) =
      .send (readStage buflen handle value (n + 1)).1
        (readStage buflen handle value (n + 1)).2 := by
  have hsucc : blobOffset buflen (n + 1) = blobOffset buflen n + (buflen - 1) := blobOffset_succ n
  have hlength : (blob buflen value (blobOffset buflen n)).length = buflen - 1 := by
    rw [length_blob]
    omega
  have hrlen : ∀ opcode : UInt8,
      (UInt16.ofNat (opcode :: blob buflen value (blobOffset buflen n)).length).toNat = buflen := by
    intro opcode
    rw [toNat_length_blob opcode _ hle]
    omega
  cases n with
  | zero =>
    have hfull : ¬ ((0 : UInt8) ≠ 0 ∨ (UInt16.ofNat (partRsp buflen value 0).length).toNat <
        buflen) := by
      rw [partRsp, hrlen]
      simp
    simp only [readStage, react, readCharHelper, if_neg hfull]
    rw [partRsp, ofNat_length_sub_one, hlength, List.length_cons, hlength, hsucc,
      blobOffset_zero, Nat.zero_add]
    rfl
  | succ n =>
    have hmore : ¬ ((0 : UInt8) ≠ 0 ∨ UInt16.ofNat (partRsp buflen value (n + 1)).length = 1) := by
      rintro (h | h)
      · exact h rfl
      · have := congrArg UInt16.toNat h
        rw [partRsp, hrlen] at this
        have : buflen = 1 := this
        omega
    have hfull : ¬ (UInt16.ofNat (partRsp buflen value (n + 1)).length).toNat < buflen := by
      rw [partRsp, hrlen]
      simp
    simp only [readStage, react, readBlobHelper, if_neg hmore, if_neg hfull]
    rw [partRsp, size_add_blob, buffer_append_blob (by omega) hle, hlength, ← hsucc]
    simp only [Reaction.send.injEq, UInt16.ofNat_add, and_true]
    exact congrArg _ (UInt16.add_sub_cancel ..)

/-- A response with a part that is not full ends the read. -/
theorem readCall_readStage (hbuf : 23 ≤ buflen) (hle : value.length ≤ 512) {n : Nat}
    (hn : n = 0 ∨ blobOffset buflen n < value.length)
    (hlast : value.length < blobOffset buflen (n + 1)) :
    readCall buflen (readStage buflen handle value n).2 0 (partRsp buflen value n) =
      some (valueCall value) := by
  have hsucc : blobOffset buflen (n + 1) = blobOffset buflen n + (buflen - 1) := blobOffset_succ n
  have hle' : blobOffset buflen n ≤ value.length := by
    rcases hn with rfl | hn
    · rw [blobOffset_zero]
      exact Nat.zero_le _
    · exact Nat.le_of_lt hn
  have hlength : (blob buflen value (blobOffset buflen n)).length =
      value.length - blobOffset buflen n := by
    rw [length_blob]
    omega
  have hrlen : ∀ opcode : UInt8,
      (UInt16.ofNat (opcode :: blob buflen value (blobOffset buflen n)).length).toNat =
        value.length - blobOffset buflen n + 1 := by
    intro opcode
    rw [toNat_length_blob opcode _ hle]
    omega
  have hall : value.take (blobOffset buflen n + (buflen - 1)) = value :=
    List.take_of_length_le (by omega)
  cases n with
  | zero =>
    have hshort : (0 : UInt8) ≠ 0 ∨ (UInt16.ofNat (partRsp buflen value 0).length).toNat <
        buflen := by
      rw [partRsp, hrlen]
      omega
    have hblob : blob buflen value (blobOffset buflen 0) = value := by
      rw [blobOffset_zero, Nat.zero_add] at hall
      rw [blobOffset_zero]
      exact hall
    simp only [readStage, readCall, if_pos hshort]
    rw [partRsp, hblob, valueCall, List.length_cons]
  | succ n =>
    have hlt : blobOffset buflen (n + 1) < value.length := hn.resolve_left (Nat.succ_ne_zero n)
    have hmore : ¬ ((0 : UInt8) ≠ 0 ∨ UInt16.ofNat (partRsp buflen value (n + 1)).length = 1) := by
      rintro (h | h)
      · exact h rfl
      · have := congrArg UInt16.toNat h
        rw [partRsp, hrlen] at this
        have : value.length - blobOffset buflen (n + 1) + 1 = 1 := this
        omega
    have hshort : (UInt16.ofNat (partRsp buflen value (n + 1)).length).toNat < buflen := by
      rw [partRsp, hrlen]
      omega
    simp only [readStage, readCall, if_neg hmore, if_pos hshort]
    rw [partRsp, size_add_blob, buffer_append_blob hle' hle, hall, hlength,
      Nat.add_sub_cancel' hle', valueCall]

/-- An answer behind the end of the value ends the read. -/
theorem readCall_end {n : Nat}
    (hn : blobOffset buflen (n + 1) = value.length) {status : UInt8} {rpdu : Pdu}
    (hend : status ≠ 0 ∨ rpdu.length = 1) :
    readCall buflen (readStage buflen handle value (n + 1)).2 status rpdu =
      some (valueCall value) := by
  have hdone : status ≠ 0 ∨ UInt16.ofNat rpdu.length = 1 := hend.imp_right fun h => by rw [h]; rfl
  simp only [readStage, readCall, if_pos hdone]
  rw [hn, List.take_length, valueCall]

end Stages

end Libble.Gatt
