import Libble.Gatt.Procedure

/-!
# Writes

`gatt_write_char` writes a value that fits in one Write Request, and cuts a longer one into the
parts of Prepare Write Requests; the encoder cuts the parts off, and the length of the response
moves the offset on. This file says which requests these are in terms of the value and its parts.

## Main definitions

* `Gatt.writeReq`, `Gatt.prepWriteReq`, `Gatt.execWriteReq`: the requests of a write.
* `Gatt.prepares`: the Prepare Write Requests of consecutive parts.
* `Gatt.part`: the part of a value that is prepared at an offset.

## Main results

* `Gatt.gattWriteChar_short`, `Gatt.gattWriteChar_long`: the first request of a write.
* `Gatt.prepareWriteCb_next`, `Gatt.prepareWriteCb_last`: what follows an accepted part.
-/

namespace Libble.Gatt

open Att

/-! ### The requests -/

/-- Write Request -/
def writeReq (handle : UInt16) (value : List UInt8) : Pdu := opWriteReq :: (putLe16 handle ++ value)

/-- Prepare Write Request of a part at an offset. -/
def prepWriteReq (handle : UInt16) (offset : Nat) (part : List UInt8) : Pdu :=
  opPrepWriteReq :: (putLe16 handle ++ putLe16 (UInt16.ofNat offset) ++ part)

/-- Execute Write Request with the flag 1. -/
def execWriteReq : Pdu := [opExecWriteReq, 0x01]

/-- The Prepare Write Requests of consecutive parts, the first one at an offset. -/
def prepares (handle : UInt16) (offset : Nat) : List (List UInt8) → List Pdu
  | [] => []
  | part :: parts =>
    prepWriteReq handle offset part :: prepares handle (offset + part.length) parts

theorem prepares_concat (handle : UInt16) (offset : Nat) (parts : List (List UInt8))
    (part : List UInt8) :
    prepares handle offset (parts ++ [part]) =
      prepares handle offset parts ++
        [prepWriteReq handle (offset + parts.flatten.length) part] := by
  induction parts generalizing offset with
  | nil => rfl
  | cons first parts ih =>
    simp only [List.cons_append, prepares, ih, List.flatten_cons, List.length_append,
      Nat.add_assoc]

@[simp] theorem length_prepWriteReq (handle : UInt16) (offset : Nat) (part : List UInt8) :
    (prepWriteReq handle offset part).length = 5 + part.length := by
  simp [prepWriteReq]
  omega

/-- The part of a value that is prepared at an offset. -/
def part (buflen : Nat) (value : List UInt8) (offset : Nat) : List UInt8 :=
  (value.drop offset).take (buflen - 5)

section Parts

variable {buflen offset : Nat} {value : List UInt8}

theorem length_part (buflen : Nat) (value : List UInt8) (offset : Nat) :
    (part buflen value offset).length = min (buflen - 5) (value.length - offset) := by
  simp [part]

/-- A part is not empty, and it fits. -/
theorem part_ne_nil (hbuf : 23 ≤ buflen) (h : offset < value.length) :
    part buflen value offset ≠ [] ∧ (part buflen value offset).length ≤ buflen - 5 := by
  have hlength := length_part buflen value offset
  refine ⟨fun hnil => ?_, by omega⟩
  rw [hnil, List.length_nil] at hlength
  omega

/-- The parts up to an offset and the part at the offset. -/
theorem take_append_part (h : offset ≤ value.length) :
    value.take offset ++ part buflen value offset =
      value.take (offset + (part buflen value offset).length) := by
  rw [length_part, part, List.take_add, List.append_cancel_left_eq]
  rw [List.take_eq_take_iff, List.length_drop]
  omega

end Parts

/-! ### The encoders -/

section Encoders

variable {buflen offset : Nat} {value : List UInt8} (handle : UInt16)

theorem toNat_ofNat_offset (h : offset ≤ 255) : (UInt16.ofNat offset).toNat = offset := by
  rw [UInt16.toNat_ofNat']
  omega

/-- A value that fits is written by one Write Request. -/
theorem gattWriteChar_short (h : value.length ≤ buflen - 3) :
    gattWriteChar buflen handle value = (writeReq handle value, .charWriteCb) := by
  have hslice : slice value 0 value.length = value := by
    rw [slice_eq value (by omega)]
    simp
  simp only [gattWriteChar, if_pos h, encWriteReq, if_neg (Nat.not_lt.mpr h), hslice, writeReq]

/-- The part at an offset is prepared. -/
theorem prepareWrite_eq (hvalue : value.length ≤ 255) (h : offset ≤ value.length) :
    prepareWrite buflen handle value (UInt16.ofNat offset) =
      (prepWriteReq handle offset (part buflen value offset),
        .prepareWriteCb handle value (UInt16.ofNat offset)) := by
  have hoffset := toNat_ofNat_offset (Nat.le_trans h hvalue)
  have hrest : (2 ^ 64 + value.length - offset) % 2 ^ 64 = value.length - offset := by omega
  have hslice : ∀ n, n = min (value.length - offset) (buflen - 5) →
      slice value offset n = part buflen value offset := by
    rintro n rfl
    rw [slice_eq value (by omega), part, List.take_eq_take_iff, List.length_drop]
    omega
  simp only [prepareWrite, encPrepWriteReq, hoffset, hrest, prepWriteReq]
  rw [hslice]
  split <;> omega

/-- A value that does not fit is prepared from its beginning on. -/
theorem gattWriteChar_long (hvalue : value.length ≤ 255) (h : buflen - 3 < value.length) :
    gattWriteChar buflen handle value =
      (prepWriteReq handle 0 (part buflen value 0), .prepareWriteCb handle value 0) := by
  rw [gattWriteChar, if_neg (Nat.not_le.mpr h)]
  exact prepareWrite_eq handle hvalue (Nat.zero_le _)

/-- The offset after a part that was echoed. -/
theorem offset_next {rsp : Pdu} {n : Nat} (hrsp : rsp.length = 5 + n) :
    UInt16.ofNat offset + (UInt16.ofNat rsp.length - 5) = UInt16.ofNat (offset + n) := by
  apply UInt16.toNat_inj.mp
  simp only [hrsp, UInt16.toNat_add, UInt16.toNat_sub, UInt16.toNat_ofNat']
  have : (5 : UInt16).toNat = 5 := rfl
  omega

/-- An accepted part that is not the last one is followed by the next part. -/
theorem prepareWriteCb_next {rsp : Pdu} {n : Nat} (hvalue : value.length ≤ 255)
    (hrsp : rsp.length = 5 + n) (h : offset + n < value.length) :
    prepareWriteCb buflen handle value (UInt16.ofNat offset) 0 rsp =
      .send (prepWriteReq handle (offset + n) (part buflen value (offset + n)))
        (.prepareWriteCb handle value (UInt16.ofNat (offset + n))) := by
  have hoffset : (UInt16.ofNat (offset + n)).toNat = offset + n := toNat_ofNat_offset (by omega)
  simp only [prepareWriteCb, offset_next hrsp, hoffset]
  rw [if_neg (by decide), if_neg (by omega), prepareWrite_eq handle hvalue (by omega)]

/-- The last part is followed by the Execute Write Request. -/
theorem prepareWriteCb_last {rsp : Pdu} {n : Nat} (hvalue : value.length ≤ 255)
    (hrsp : rsp.length = 5 + n) (h : offset + n = value.length) :
    prepareWriteCb buflen handle value (UInt16.ofNat offset) 0 rsp =
      .send execWriteReq .charWriteCb := by
  have hoffset : (UInt16.ofNat (offset + n)).toNat = offset + n := toNat_ofNat_offset (by omega)
  simp only [prepareWriteCb, offset_next hrsp, hoffset]
  rw [if_neg (by decide), if_pos h]
  rfl

end Encoders

end Libble.Gatt
