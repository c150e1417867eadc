import Libble.Att.Opcode

/-!
# Encoders and decoders of the client

The functions of `bluez/attrib/att.c` that the client calls. The C encoders write into a buffer
of `len` bytes and return the length of the PDU, 0 for failure; here they return the bytes, `[]`
for failure. The `size_t` and `uint16_t` arithmetic of the decoders is kept. A C decoder may read
behind the end of a response that is too short; such bytes have no defined value in C, and are 0
here (`byteAt`).

## Main definitions

* `Att.getLe16`, `Att.putLe16`, `Att.slice`: bytes in buffers.
* `Att.encReadReq`, `Att.encReadBlobReq`, `Att.encWriteReq`, `Att.encPrepWriteReq`,
  `Att.encExecWriteReq`, `Att.encFindInfoReq`, `Att.encReadByTypeReq`: the requests.
* `Att.decReadResp`, `Att.decFindInfoResp`, `Att.decReadByTypeResp`: the responses.
* `Att.attEcode2str`: the texts of the error events.

## Main results

* `Att.getLe16_putLe16`: the two byte orders agree.
* `Att.slice_eq`: inside its buffer a slice is what the buffer has there.
* `Att.length_encPrepWriteReq_le`, `Att.length_encWriteReq_le`: these requests fit their buffer.
-/

namespace Libble.Att

/-! ### Bytes -/

/-- The byte at an index of a buffer. -/
def byteAt (buf : List UInt8) (i : Nat) : UInt8 := buf.getD i 0

/-- `get_le16` -/
def getLe16 (buf : List UInt8) (i : Nat) : UInt16 :=
  (byteAt buf i).toUInt16 ||| ((byteAt buf (i + 1)).toUInt16 <<< 8)

/-- `put_le16` -/
def putLe16 (v : UInt16) : List UInt8 := [v.toUInt8, (v >>> 8).toUInt8]

/-- The `n` bytes of a buffer from an offset on. -/
def slice (buf : List UInt8) (offset n : Nat) : List UInt8 :=
  (List.range n).map fun i => byteAt buf (offset + i)

@[simp] theorem length_putLe16 (v : UInt16) : (putLe16 v).length = 2 := rfl

@[simp] theorem length_slice (buf : List UInt8) (offset n : Nat) :
    (slice buf offset n).length = n := by
  simp [slice]

/-- `get_le16` reads back what `put_le16` has written. -/
theorem getLe16_putLe16 (v : UInt16) (rest : List UInt8) : getLe16 (putLe16 v ++ rest) 0 = v := by
  have hlt : v.toNat < 65536 := v.toNat_lt
  have hlow : v.toUInt8.toUInt16.toNat = v.toNat % 2 ^ 8 := by simp
  have hhigh : ((v >>> 8).toUInt8.toUInt16 <<< 8).toNat = 2 ^ 8 * (v.toNat / 2 ^ 8) := by
    simp [Nat.shiftRight_eq_div_pow, Nat.shiftLeft_eq]
    omega
  have hor := Nat.two_pow_add_eq_or_of_lt (Nat.mod_lt v.toNat (Nat.two_pow_pos 8)) (v.toNat / 2 ^ 8)
  apply UInt16.toNat_inj.mp
  calc (getLe16 (putLe16 v ++ rest) 0).toNat
      = v.toNat % 2 ^ 8 ||| 2 ^ 8 * (v.toNat / 2 ^ 8) := by
        rw [← hlow, ← hhigh, ← UInt16.toNat_or]
        rfl
    _ = 2 ^ 8 * (v.toNat / 2 ^ 8) + v.toNat % 2 ^ 8 := by rw [Nat.or_comm, hor]
    _ = v.toNat := Nat.div_add_mod v.toNat (2 ^ 8)

theorem byteAt_append_right (xs ys : List UInt8) (i : Nat) :
    byteAt (xs ++ ys) (xs.length + i) = byteAt ys i := by
  simp [byteAt, List.getElem?_append_right]

theorem getLe16_append_right (xs ys : List UInt8) (i : Nat) :
    getLe16 (xs ++ ys) (xs.length + i) = getLe16 ys i := by
  rw [getLe16, getLe16, Nat.add_assoc, byteAt_append_right, byteAt_append_right]

/-- Inside its buffer a slice is what the buffer has there. -/
theorem slice_eq (buf : List UInt8) {offset n : Nat} (h : offset + n ≤ buf.length) :
    slice buf offset n = (buf.drop offset).take n := by
  apply List.ext_getElem
  · simp only [length_slice, List.length_take, List.length_drop]
    omega
  · intro i h₁ h₂
    simp only [length_slice] at h₁
    have hi : offset + i < buf.length := by omega
    simp [slice, byteAt, List.getElem?_eq_getElem hi]

/-! ### Requests -/

/-- `enc_read_req` -/
def encReadReq (handle : UInt16) : Pdu := opReadReq :: putLe16 handle

/-- `enc_read_blob_req` -/
def encReadBlobReq (handle offset : UInt16) : Pdu :=
  opReadBlobReq :: (putLe16 handle ++ putLe16 offset)

/-- `enc_write_req` of the first `vlen` bytes at `value`, cut off to a buffer of `len` bytes. -/
def encWriteReq (handle : UInt16) (value : List UInt8) (vlen len : Nat) : Pdu :=
  opWriteReq :: (putLe16 handle ++ slice value 0 (if vlen > len - 3 then len - 3 else vlen))

/-- `enc_prep_write_req` of the `vlen` bytes at `value` plus `offset`, cut off to a buffer of `len`
bytes. -/
def encPrepWriteReq (handle offset : UInt16) (value : List UInt8) (vlen len : Nat) : Pdu :=
  opPrepWriteReq :: (putLe16 handle ++ putLe16 offset ++
    slice value offset.toNat (if vlen > len - 5 then len - 5 else vlen))

/-- `enc_exec_write_req` -/
def encExecWriteReq (flags : UInt8) : Pdu := if flags > 1 then [] else [opExecWriteReq, flags]

/-- `enc_find_info_req` -/
def encFindInfoReq (start «end» : UInt16) : Pdu :=
  opFindInfoReq :: (putLe16 start ++ putLe16 «end»)

/-- `enc_read_by_type_req` of a 16-bit UUID. -/
def encReadByTypeReq (start «end» uuid : UInt16) : Pdu :=
  opReadByTypeReq :: (putLe16 start ++ putLe16 «end» ++ putLe16 uuid)

theorem length_encWriteReq_le (handle : UInt16) (value : List UInt8) (vlen : Nat) {len : Nat}
    (h : 3 ≤ len) : (encWriteReq handle value vlen len).length ≤ len := by
  simp only [encWriteReq, List.length_cons, List.length_append, length_putLe16, length_slice]
  split <;> omega

theorem length_encPrepWriteReq_le (handle offset : UInt16) (value : List UInt8) (vlen : Nat)
    {len : Nat} (h : 5 ≤ len) : (encPrepWriteReq handle offset value vlen len).length ≤ len := by
  simp only [encPrepWriteReq, List.length_cons, List.length_append, length_putLe16, length_slice]
  split <;> omega

/-! ### Responses -/

/-- `struct att_data_list`: the entries of a response, all of the length `len`. -/
structure AttDataList where
  len : Nat
  data : List (List UInt8)
  deriving DecidableEq, Repr

/-- The entries that lie in a PDU from the third byte on. -/
def entries (pdu : Pdu) (num elen : Nat) : AttDataList where
  len := elen
  data := (List.range num).map fun i => slice pdu (2 + i * elen) elen

/-- The parts of equal length that a list is put together from. -/
theorem take_drop_flatten {n : Nat} {chunks : List (List UInt8)} (h : ∀ c ∈ chunks, c.length = n)
    {i : Nat} (hi : i < chunks.length) : (chunks.flatten.drop (i * n)).take n = chunks[i] := by
  induction chunks generalizing i with
  | nil => exact absurd hi (Nat.not_lt_zero i)
  | cons c chunks ih =>
    have hc : c.length = n := h c List.mem_cons_self
    cases i with
    | zero => simp [← hc]
    | succ i =>
      have hdrop : (i + 1) * n = c.length + i * n := by
        rw [hc, Nat.succ_mul, Nat.add_comm]
      rw [List.flatten_cons, hdrop, ← List.drop_drop, List.drop_left, List.getElem_cons_succ]
      exact ih (fun c hc => h c (List.mem_cons_of_mem _ hc)) (Nat.lt_of_succ_lt_succ hi)

theorem length_flatten_of_length {n : Nat} {chunks : List (List UInt8)}
    (h : ∀ c ∈ chunks, c.length = n) : chunks.flatten.length = chunks.length * n := by
  rw [List.length_flatten, List.map_congr_left h, List.map_const', List.sum_replicate_nat]

/-- The entries that a response is put together from. -/
theorem data_entries (opcode second : UInt8) {elen : Nat} {chunks : List (List UInt8)}
    (h : ∀ c ∈ chunks, c.length = elen) :
    (entries (opcode :: second :: chunks.flatten) chunks.length elen).data = chunks := by
  refine List.ext_getElem (by simp [entries]) fun i hi hi' => ?_
  have hdata : (entries (opcode :: second :: chunks.flatten) chunks.length elen).data[i] =
      slice (opcode :: second :: chunks.flatten) (2 + i * elen) elen := by
    simp [entries]
  have hbound : 2 + i * elen + elen ≤ (opcode :: second :: chunks.flatten).length := by
    have := Nat.mul_le_mul_right elen (Nat.succ_le_of_lt hi')
    rw [Nat.succ_mul] at this
    rw [List.length_cons, List.length_cons, length_flatten_of_length h]
    omega
  rw [hdata, slice_eq _ hbound, Nat.add_comm 2, List.drop_succ_cons, List.drop_succ_cons]
  exact take_drop_flatten h hi'

/-- `dec_read_resp` into a buffer of `vlen` bytes: the value, if the function returns a positive
number. A result of 0 and the errors `-EINVAL` and `-ENOBUFS` have no value; neither has a length of
0, for which the copy runs off in C. -/
def decReadResp (pdu : Pdu) (len vlen : Nat) : Option (List UInt8) :=
  if byteAt pdu 0 ≠ opReadRsp then none
  else if vlen < len - 1 then none
  else if len ≤ 1 then none
  else some (slice pdu 1 (len - 1))

/-- `dec_find_info_resp` of a PDU of length `len`, with the format byte. -/
def decFindInfoResp (pdu : Pdu) (len : Nat) : Option (UInt8 × AttDataList) :=
  if byteAt pdu 0 ≠ opFindInfoRsp then none
  else
    let format := byteAt pdu 1
    let elen := 2 + if format = 0x01 then 2 else if format = 0x02 then 16 else 0
    -- `len - 2` is a `size_t`, and `num` is a `uint16_t`
    let num := (2 ^ 64 + len - 2) % 2 ^ 64 / elen % 2 ^ 16
    some (format, entries pdu num elen)

/-- `dec_read_by_type_resp` of a PDU of length `len`. -/
def decReadByTypeResp (pdu : Pdu) (len : Nat) : Option AttDataList :=
  let elen := (byteAt pdu 1).toNat
  if byteAt pdu 0 ≠ opReadByTypeRsp then none
  else if len < 5 then none
  else if elen < 3 then none
  else if (len - 2) % elen ≠ 0 then none
  else some (entries pdu ((len - 2) / elen) elen)

/-! ### Errors -/

/-- `ATT_ECODE_INVALID_HANDLE` -/
abbrev ecodeInvalidHandle : UInt8 := 0x01
/-- `ATT_ECODE_ATTR_NOT_FOUND` -/
abbrev ecodeAttrNotFound : UInt8 := 0x0a
/-- `ATT_ECODE_UNLIKELY` -/
abbrev ecodeUnlikely : UInt8 := 0x0e
/-- `ATT_ECODE_IO` -/
abbrev ecodeIo : UInt8 := 0x80

/-- `att_ecode2str` -/
def attEcode2str (status : UInt8) : String :=
  match status.toNat with
  | 0x01 => "Invalid handle"
  | 0x02 => "Attribute can't be read"
  | 0x03 => "Attribute can't be written"
  | 0x04 => "Attribute PDU was invalid"
  | 0x05 => "Attribute requires authentication before read/write"
  | 0x06 => "Server doesn't support the request received"
  | 0x07 => "Offset past the end of the attribute"
  | 0x08 => "Attribute requires authorization before read/write"
  | 0x09 => "Too many prepare writes have been queued"
  | 0x0a => "No attribute found within the given range"
  | 0x0b => "Attribute can't be read/written using Read Blob Req"
  | 0x0c => "Encryption Key Size is insufficient"
  | 0x0d => "Attribute value length is invalid"
  | 0x0e => "Request attribute has encountered an unlikely error"
  | 0x0f => "Encryption required before read/write"
  | 0x10 => "Attribute type is not a supported grouping attribute"
  | 0x11 => "Insufficient Resources to complete the request"
  | 0x80 => "Internal application error: I/O"
  | 0x81 => "A timeout occured"
  | 0x82 => "The operation was aborted"
  | _ => "Unexpected error code"

end Libble.Att
