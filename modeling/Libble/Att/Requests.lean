import Libble.Att.Codec

/-!
# Requests on the wire

`bluez/attrib/att.c` has an encoder and a decoder for every request of the Attribute Protocol. The
client calls the encoders, a server the decoders. This file has them all, and shows that a server
reads what a client has written: a request that is encoded is decoded by exactly one of the
decoders, and what is decoded is the request, with its value cut off to the buffer.

A decoder gets the bytes of a PDU; some return the length of the PDU as a `uint16_t`, in which 0
stands for failure. The type of an attribute is a UUID of 16 or of 128 bits.

## Main definitions

* `Att.BtUuid`: `bt_uuid_t`.
* `Att.decMtuReq`, `Att.decFindInfoReq`, `Att.decFindByTypeReq`, `Att.decReadByTypeReq`,
  `Att.decReadByGrpReq`, `Att.decReadReq`, `Att.decReadBlobReq`, `Att.decWriteReq`,
  `Att.decWriteCmd`, `Att.decPrepWriteReq`, `Att.decExecWriteReq`: the decoders.
* `Att.Request`, `Att.Request.encode`, `Att.decodeRequest`: all requests.

## Main results

* `Att.decoders_encode_request`: what is encoded is decoded.
* `Att.encode_of_decoder`: what is decoded was encoded.
* `Att.request_codec`: both, for every buffer.
-/

namespace Libble.Att

/-- `ATT_OP_MTU_REQ` -/
abbrev opMtuReq : UInt8 := 0x02
/-- `ATT_OP_FIND_BY_TYPE_REQ` -/
abbrev opFindByTypeReq : UInt8 := 0x06
/-- `ATT_OP_READ_BY_GROUP_REQ` -/
abbrev opReadByGroupReq : UInt8 := 0x10
/-- `ATT_OP_WRITE_CMD` -/
abbrev opWriteCmd : UInt8 := 0x52

/-- `uint128_t`, in network order. -/
abbrev BtUInt128 := { v : List UInt8 // v.length = 16 }

/-- `bt_uuid_t` -/
inductive BtUuid
  | uuid16 (value : UInt16)
  | uuid32 (value : UInt32)
  | uuid128 (value : BtUInt128)
  deriving DecidableEq

/-- `bt_uuid_len` -/
def BtUuid.len : BtUuid → Nat
  | uuid16 _ => 2
  | uuid32 _ => 4
  | uuid128 _ => 16

/-! ### Encoders -/

/-- `enc_mtu_req` -/
def encMtuReq (mtu : UInt16) : Pdu := opMtuReq :: putLe16 mtu

/-- The encoders of requests for a range of handles and a UUID, which must not have 32 bits. They do
not look at the length of the buffer. -/
def encRange (opcode : UInt8) (start «end» : UInt16) : BtUuid → Pdu
  | .uuid16 value => opcode :: (putLe16 start ++ putLe16 «end» ++ putLe16 value)
  | .uuid32 _ => []
  | .uuid128 value => opcode :: (putLe16 start ++ putLe16 «end» ++ value.val.reverse)

/-- `enc_read_by_type_req` -/
def encReadByTypeReqUuid (start «end» : UInt16) (uuid : BtUuid) : Pdu :=
  encRange opReadByTypeReq start «end» uuid

/-- `enc_read_by_grp_req` -/
def encReadByGrpReq (start «end» : UInt16) (uuid : BtUuid) : Pdu :=
  encRange opReadByGroupReq start «end» uuid

/-- `enc_find_by_type_req` of the first `vlen` bytes at `value`, cut off to a buffer of `len`
bytes. -/
def encFindByTypeReq (start «end» : UInt16) (uuid : BtUuid) (value : List UInt8) (vlen len : Nat) :
    Pdu :=
  match uuid with
  | .uuid16 type => opFindByTypeReq :: (putLe16 start ++ putLe16 «end» ++ putLe16 type ++
      slice value 0 (if vlen > len - 7 then len - 7 else vlen))
  | _ => []

/-- `enc_write_cmd` of the first `vlen` bytes at `value`, cut off to a buffer of `len` bytes. -/
def encWriteCmd (handle : UInt16) (value : List UInt8) (vlen len : Nat) : Pdu :=
  opWriteCmd :: (putLe16 handle ++ slice value 0 (if vlen > len - 3 then len - 3 else vlen))

/-- `enc_prep_write_req` of the first `vlen` bytes at `value`, cut off to a buffer of `len`
bytes. -/
def encPrepWriteReqAt (handle offset : UInt16) (value : List UInt8) (vlen len : Nat) : Pdu :=
  opPrepWriteReq :: (putLe16 handle ++ putLe16 offset ++
    slice value 0 (if vlen > len - 5 then len - 5 else vlen))

/-! ### Decoders -/

/-- The decoders of requests with one number of 16 bits. -/
def decWord (opcode : UInt8) (pdu : Pdu) : Option UInt16 :=
  if pdu.length < 3 then none
  else if byteAt pdu 0 ≠ opcode then none
  else some (getLe16 pdu 1)

/-- The decoders of requests with two numbers of 16 bits. -/
def decWords (opcode : UInt8) (pdu : Pdu) : Option (UInt16 × UInt16) :=
  if pdu.length < 5 then none
  else if byteAt pdu 0 ≠ opcode then none
  else some (getLe16 pdu 1, getLe16 pdu 3)

/-- A decoder returns the length of the PDU as a `uint16_t`. -/
def returned {α : Type} (len : Nat) (result : α) : Option α :=
  if len % 2 ^ 16 = 0 then none else some result

/-- The decoders of requests with a handle and a value. -/
def decValue (opcode : UInt8) (pdu : Pdu) : Option (UInt16 × List UInt8) :=
  if pdu.length < 3 then none
  else if byteAt pdu 0 ≠ opcode then none
  else returned pdu.length (getLe16 pdu 1, slice pdu 3 (pdu.length - 3))

theorem length_reverse_slice (buf : List UInt8) (offset n : Nat) :
    (slice buf offset n).reverse.length = n := by
  rw [List.length_reverse, length_slice]

/-- The decoders of requests for a range of handles and a UUID; the length of the PDU tells which
kind of UUID it is. -/
def decRange (opcode : UInt8) (pdu : Pdu) : Option (UInt16 × UInt16 × BtUuid) :=
  if byteAt pdu 0 ≠ opcode then none
  else if pdu.length = 5 + 2 then some (getLe16 pdu 1, getLe16 pdu 3, .uuid16 (getLe16 pdu 5))
  else if pdu.length = 5 + 16 then
    some (getLe16 pdu 1, getLe16 pdu 3,
      .uuid128 ⟨(slice pdu 5 16).reverse, length_reverse_slice pdu 5 16⟩)
  else none

/-- `dec_mtu_req` -/
def decMtuReq (pdu : Pdu) : Option UInt16 := decWord opMtuReq pdu

/-- `dec_find_info_req` -/
def decFindInfoReq (pdu : Pdu) : Option (UInt16 × UInt16) := decWords opFindInfoReq pdu

/-- `dec_find_by_type_req` -/
def decFindByTypeReq (pdu : Pdu) : Option (UInt16 × UInt16 × BtUuid × List UInt8) :=
  if pdu.length < 7 then none
  else if byteAt pdu 0 ≠ opFindByTypeReq then none
  else returned pdu.length (getLe16 pdu 1, getLe16 pdu 3, .uuid16 (getLe16 pdu 5),
    slice pdu 7 (pdu.length - 7))

/-- `dec_read_by_type_req` -/
def decReadByTypeReq (pdu : Pdu) : Option (UInt16 × UInt16 × BtUuid) := decRange opReadByTypeReq pdu

/-- `dec_read_by_grp_req` -/
def decReadByGrpReq (pdu : Pdu) : Option (UInt16 × UInt16 × BtUuid) := decRange opReadByGroupReq pdu

/-- `dec_read_req` -/
def decReadReq (pdu : Pdu) : Option UInt16 := decWord opReadReq pdu

/-- `dec_read_blob_req` -/
def decReadBlobReq (pdu : Pdu) : Option (UInt16 × UInt16) := decWords opReadBlobReq pdu

/-- `dec_write_req` -/
def decWriteReq (pdu : Pdu) : Option (UInt16 × List UInt8) := decValue opWriteReq pdu

/-- `dec_write_cmd` -/
def decWriteCmd (pdu : Pdu) : Option (UInt16 × List UInt8) := decValue opWriteCmd pdu

/-- `dec_prep_write_req` -/
def decPrepWriteReq (pdu : Pdu) : Option (UInt16 × UInt16 × List UInt8) :=
  if pdu.length < 5 then none
  else if byteAt pdu 0 ≠ opPrepWriteReq then none
  else returned pdu.length (getLe16 pdu 1, getLe16 pdu 3, slice pdu 5 (pdu.length - 5))

/-- `dec_exec_write_req`, which does not look at the flags. -/
def decExecWriteReq (pdu : Pdu) : Option UInt8 :=
  if pdu.length < 2 then none
  else if byteAt pdu 0 ≠ opExecWriteReq then none
  else some (byteAt pdu 1)

/-! ### All requests -/

/-- The requests that can be encoded and decoded. -/
inductive Request
  | mtu (value : UInt16)
  | findInfo (start «end» : UInt16)
  | findByType (start «end» : UInt16) (uuid : BtUuid) (value : List UInt8)
  | readByType (start «end» : UInt16) (uuid : BtUuid)
  | readByGrp (start «end» : UInt16) (uuid : BtUuid)
  | read (handle : UInt16)
  | readBlob (handle offset : UInt16)
  | write (handle : UInt16) (value : List UInt8)
  | writeCmd (handle : UInt16) (value : List UInt8)
  | prepWrite (handle offset : UInt16) (value : List UInt8)
  | execWrite (flags : UInt8)
  deriving DecidableEq

namespace Request

/-- A request is encoded into a buffer of `len` bytes. -/
def encode (len : Nat) : Request → Pdu
  | mtu value => encMtuReq value
  | findInfo start «end» => encFindInfoReq start «end»
  | findByType start «end» uuid value =>
    encFindByTypeReq start «end» uuid value value.length len
  | readByType start «end» uuid => encReadByTypeReqUuid start «end» uuid
  | readByGrp start «end» uuid => encReadByGrpReq start «end» uuid
  | read handle => encReadReq handle
  | readBlob handle offset => encReadBlobReq handle offset
  | write handle value => encWriteReq handle value value.length len
  | writeCmd handle value => encWriteCmd handle value value.length len
  | prepWrite handle offset value => encPrepWriteReqAt handle offset value value.length len
  | execWrite flags => encExecWriteReq flags

/-- The request that fits a buffer of `len` bytes: its value is cut off. -/
def cut (len : Nat) : Request → Request
  | findByType start «end» uuid value => findByType start «end» uuid (value.take (len - 7))
  | write handle value => write handle (value.take (len - 3))
  | writeCmd handle value => writeCmd handle (value.take (len - 3))
  | prepWrite handle offset value => prepWrite handle offset (value.take (len - 5))
  | r => r

/-- The encoders take the request: a UUID has a length that they know, and the flags are 0 or 1. -/
def Encodable : Request → Prop
  | findByType _ _ uuid _ => uuid.len = 2
  | readByType _ _ uuid | readByGrp _ _ uuid => uuid.len ≠ 4
  | execWrite flags => flags ≤ 1
  | _ => True

/-- The UUID of a request for a range fits a buffer of `len` bytes. -/
def Fits (len : Nat) : Request → Prop
  | readByType _ _ uuid | readByGrp _ _ uuid => 5 + uuid.len ≤ len
  | _ => True

/-- The place of the decoder among the decoders. -/
def index : Request → Nat
  | mtu .. => 0
  | findInfo .. => 1
  | findByType .. => 2
  | readByType .. => 3
  | readByGrp .. => 4
  | read .. => 5
  | readBlob .. => 6
  | write .. => 7
  | writeCmd .. => 8
  | prepWrite .. => 9
  | execWrite .. => 10

end Request

/-- The decoders of the requests. -/
def requestDecoders : List (Pdu → Option Request) :=
  [fun pdu => (decMtuReq pdu).map .mtu,
    fun pdu => (decFindInfoReq pdu).map fun (start, «end») => .findInfo start «end»,
    fun pdu => (decFindByTypeReq pdu).map fun (start, «end», uuid, value) =>
      .findByType start «end» uuid value,
    fun pdu => (decReadByTypeReq pdu).map fun (start, «end», uuid) => .readByType start «end» uuid,
    fun pdu => (decReadByGrpReq pdu).map fun (start, «end», uuid) => .readByGrp start «end» uuid,
    fun pdu => (decReadReq pdu).map .read,
    fun pdu => (decReadBlobReq pdu).map fun (handle, offset) => .readBlob handle offset,
    fun pdu => (decWriteReq pdu).map fun (handle, value) => .write handle value,
    fun pdu => (decWriteCmd pdu).map fun (handle, value) => .writeCmd handle value,
    fun pdu => (decPrepWriteReq pdu).map fun (handle, offset, value) =>
      .prepWrite handle offset value,
    fun pdu => (decExecWriteReq pdu).map .execWrite]

/-- The decoders are tried in turn. -/
def decodeRequest (pdu : Pdu) : Option Request := requestDecoders.findSome? (· pdu)

/-! ### Bytes -/

section Bytes

variable {buf : List UInt8} {i : Nat}

/-- Two bytes are what `put_le16` writes of the number that they are. -/
theorem putLe16_ofBytes (low high : UInt8) :
    putLe16 (low.toUInt16 ||| (high.toUInt16 <<< 8)) = [low, high] := by
  have hlow : low.toNat < 2 ^ 8 := low.toNat_lt
  have hhigh : high.toNat < 2 ^ 8 := high.toNat_lt
  have hor := Nat.two_pow_add_eq_or_of_lt hlow high.toNat
  have shifted : (high.toUInt16 <<< 8).toNat = 2 ^ 8 * high.toNat := by
    simp [Nat.shiftLeft_eq]
    omega
  have number : (low.toUInt16 ||| (high.toUInt16 <<< 8)).toNat =
      2 ^ 8 * high.toNat + low.toNat := by
    rw [UInt16.toNat_or, shifted, Nat.or_comm, hor]
    simp
  have first : (low.toUInt16 ||| (high.toUInt16 <<< 8)).toUInt8 = low := by
    apply UInt8.toNat_inj.mp
    rw [UInt16.toNat_toUInt8, number]
    omega
  have second : ((low.toUInt16 ||| (high.toUInt16 <<< 8)) >>> 8).toUInt8 = high := by
    apply UInt8.toNat_inj.mp
    rw [UInt16.toNat_toUInt8, UInt16.toNat_shiftRight, number]
    simp [Nat.shiftRight_eq_div_pow]
    omega
  rw [putLe16, first, second]

/-- `put_le16` writes back what `get_le16` has read. -/
theorem putLe16_getLe16 (h : i + 2 ≤ buf.length) :
    putLe16 (getLe16 buf i) = (buf.drop i).take 2 := by
  have hlt : i < buf.length := by omega
  have hlt' : i + 1 < buf.length := by omega
  have hi : byteAt buf i = buf[i] := by simp [byteAt, List.getElem?_eq_getElem hlt]
  have hi' : byteAt buf (i + 1) = buf[i + 1] := by simp [byteAt, List.getElem?_eq_getElem hlt']
  rw [getLe16, putLe16_ofBytes, hi, hi', List.drop_eq_getElem_cons (by omega),
    List.drop_eq_getElem_cons (by omega)]
  rfl

/-- A buffer from a number on. -/
theorem drop_eq_word (h : i + 2 ≤ buf.length) :
    buf.drop i = putLe16 (getLe16 buf i) ++ buf.drop (i + 2) := by
  rw [putLe16_getLe16 h, ← List.drop_drop, List.take_append_drop]

theorem eq_cons (h : 0 < buf.length) : buf = byteAt buf 0 :: buf.drop 1 := by
  cases buf with
  | nil => exact absurd h (Nat.lt_irrefl 0)
  | cons b buf => rfl

/-- The bytes of a buffer up to its end. -/
theorem slice_to_end (h : i ≤ buf.length) : slice buf i (buf.length - i) = buf.drop i := by
  rw [slice_eq buf (by omega), ← List.length_drop, List.take_length]

/-- A number is read back from where it was written. -/
theorem getLe16_of_eq {v : UInt16} (front back : List UInt8)
    (h : buf = front ++ (putLe16 v ++ back)) (hi : front.length = i) : getLe16 buf i = v := by
  rw [h, ← hi]
  exact (getLe16_append_right front (putLe16 v ++ back) 0).trans (getLe16_putLe16 v back)

theorem slice_append (front back : List UInt8) :
    slice (front ++ back) front.length back.length = back := by
  rw [slice_eq _ (by rw [List.length_append]), List.drop_left, List.take_length]

/-- A value is cut off to a buffer. -/
theorem slice_cut (value : List UInt8) (room : Nat) :
    slice value 0 (if value.length > room then room else value.length) = value.take room := by
  split
  · rw [slice_eq _ (by omega), List.drop_zero]
  · rw [slice_eq _ (by omega), List.drop_zero, List.take_length, List.take_of_length_le (by omega)]

end Bytes

/-! ### A decoder and its encoder -/

section Decoders

variable {opcode other : UInt8} {pdu rest value : List UInt8} {a b c handle offset : UInt16}

theorem decWord_of_ne (h : other ≠ opcode) : decWord opcode (other :: rest) = none := by
  rw [decWord]
  split
  · rfl
  · exact if_pos h

theorem decWord_self : decWord opcode (opcode :: putLe16 a) = some a := by
  have number : getLe16 (opcode :: putLe16 a) 1 = a := getLe16_of_eq [opcode] [] rfl rfl
  have same : byteAt (opcode :: putLe16 a) 0 = opcode := rfl
  rw [decWord, number, same]
  simp

theorem decWords_of_ne (h : other ≠ opcode) : decWords opcode (other :: rest) = none := by
  rw [decWords]
  split
  · rfl
  · exact if_pos h

theorem decWords_self : decWords opcode (opcode :: (putLe16 a ++ putLe16 b)) = some (a, b) := by
  have first : getLe16 (opcode :: (putLe16 a ++ putLe16 b)) 1 = a :=
    getLe16_of_eq [opcode] (putLe16 b) rfl rfl
  have second : getLe16 (opcode :: (putLe16 a ++ putLe16 b)) 3 = b :=
    getLe16_of_eq (opcode :: putLe16 a) [] rfl rfl
  have same : byteAt (opcode :: (putLe16 a ++ putLe16 b)) 0 = opcode := rfl
  rw [decWords, first, second, same]
  simp

theorem decValue_of_ne (h : other ≠ opcode) : decValue opcode (other :: rest) = none := by
  rw [decValue]
  split
  · rfl
  · exact if_pos h

theorem decValue_self (h : value.length + 3 < 2 ^ 16) :
    decValue opcode (opcode :: (putLe16 handle ++ value)) = some (handle, value) := by
  have first : getLe16 (opcode :: (putLe16 handle ++ value)) 1 = handle :=
    getLe16_of_eq [opcode] value rfl rfl
  have same : byteAt (opcode :: (putLe16 handle ++ value)) 0 = opcode := rfl
  have length : (opcode :: (putLe16 handle ++ value)).length = value.length + 3 := by simp; omega
  have second : slice (opcode :: (putLe16 handle ++ value)) 3 value.length = value :=
    slice_append (opcode :: putLe16 handle) value
  rw [decValue, length, first, same, Nat.add_sub_cancel, second, returned, if_neg (by omega),
    if_neg (by simp), if_neg (by omega)]

theorem decRange_of_ne (h : other ≠ opcode) : decRange opcode (other :: rest) = none := if_pos h

theorem decRange_self (opcode : UInt8) (a b : UInt16) {uuid : BtUuid} (h : uuid.len ≠ 4) :
    decRange opcode (encRange opcode a b uuid) = some (a, b, uuid) := by
  cases uuid with
  | uuid16 c =>
    have first : getLe16 (encRange opcode a b (.uuid16 c)) 1 = a :=
      getLe16_of_eq [opcode] (putLe16 b ++ putLe16 c) rfl rfl
    have second : getLe16 (encRange opcode a b (.uuid16 c)) 3 = b :=
      getLe16_of_eq (opcode :: putLe16 a) (putLe16 c) rfl rfl
    have third : getLe16 (encRange opcode a b (.uuid16 c)) 5 = c :=
      getLe16_of_eq (opcode :: (putLe16 a ++ putLe16 b)) [] rfl rfl
    have same : byteAt (encRange opcode a b (.uuid16 c)) 0 = opcode := rfl
    have length : (encRange opcode a b (.uuid16 c)).length = 5 + 2 := rfl
    rw [decRange, first, second, third, length, if_neg (by simp [same]), if_pos rfl]
  | uuid32 => exact absurd rfl h
  | uuid128 v =>
    have first : getLe16 (encRange opcode a b (.uuid128 v)) 1 = a :=
      getLe16_of_eq [opcode] (putLe16 b ++ v.val.reverse) rfl rfl
    have second : getLe16 (encRange opcode a b (.uuid128 v)) 3 = b :=
      getLe16_of_eq (opcode :: putLe16 a) v.val.reverse rfl rfl
    have same : byteAt (encRange opcode a b (.uuid128 v)) 0 = opcode := rfl
    have length : (encRange opcode a b (.uuid128 v)).length = 5 + 16 := by
      simp [encRange, v.property]
    have third : slice (encRange opcode a b (.uuid128 v)) 5 16 = v.val.reverse := by
      have here := slice_append (opcode :: (putLe16 a ++ putLe16 b)) v.val.reverse
      rwa [List.length_reverse, v.property] at here
    rw [decRange, first, second, length, if_neg (by simp [same]), if_neg (by omega), if_pos rfl]
    simp [third]

/-- A request for a range begins with its opcode. -/
theorem exists_encRange (opcode : UInt8) (a b : UInt16) {uuid : BtUuid} (h : uuid.len ≠ 4) :
    ∃ rest, encRange opcode a b uuid = opcode :: rest := by
  cases uuid with
  | uuid16 => exact ⟨_, rfl⟩
  | uuid32 => exact absurd rfl h
  | uuid128 => exact ⟨_, rfl⟩

theorem decFindByTypeReq_of_ne (h : other ≠ opFindByTypeReq) :
    decFindByTypeReq (other :: rest) = none := by
  rw [decFindByTypeReq]
  split
  · rfl
  · exact if_pos h

theorem decFindByTypeReq_self (h : value.length + 7 < 2 ^ 16) :
    decFindByTypeReq (opFindByTypeReq :: (putLe16 a ++ putLe16 b ++ putLe16 c ++ value)) =
      some (a, b, .uuid16 c, value) := by
  generalize hpdu : opFindByTypeReq :: (putLe16 a ++ putLe16 b ++ putLe16 c ++ value) = pdu
  have same : byteAt pdu 0 = opFindByTypeReq := hpdu ▸ rfl
  have first : getLe16 pdu 1 = a :=
    getLe16_of_eq [opFindByTypeReq] (putLe16 b ++ putLe16 c ++ value) hpdu.symm rfl
  have second : getLe16 pdu 3 = b :=
    getLe16_of_eq (opFindByTypeReq :: putLe16 a) (putLe16 c ++ value) hpdu.symm rfl
  have third : getLe16 pdu 5 = c :=
    getLe16_of_eq (opFindByTypeReq :: (putLe16 a ++ putLe16 b)) value hpdu.symm rfl
  have length : pdu.length = value.length + 7 := by
    rw [← hpdu]
    simp
    omega
  have last : slice pdu 7 value.length = value := by
    have here := slice_append (opFindByTypeReq :: (putLe16 a ++ putLe16 b ++ putLe16 c)) value
    rwa [List.cons_append, hpdu] at here
  rw [decFindByTypeReq, length, same, first, second, third, Nat.add_sub_cancel, last, returned,
    if_neg (by omega), if_neg (by simp), if_neg (by omega)]

theorem decPrepWriteReq_of_ne (h : other ≠ opPrepWriteReq) :
    decPrepWriteReq (other :: rest) = none := by
  rw [decPrepWriteReq]
  split
  · rfl
  · exact if_pos h

theorem decPrepWriteReq_self (h : value.length + 5 < 2 ^ 16) :
    decPrepWriteReq (opPrepWriteReq :: (putLe16 handle ++ putLe16 offset ++ value)) =
      some (handle, offset, value) := by
  generalize hpdu : opPrepWriteReq :: (putLe16 handle ++ putLe16 offset ++ value) = pdu
  have same : byteAt pdu 0 = opPrepWriteReq := hpdu ▸ rfl
  have first : getLe16 pdu 1 = handle :=
    getLe16_of_eq [opPrepWriteReq] (putLe16 offset ++ value) hpdu.symm rfl
  have second : getLe16 pdu 3 = offset :=
    getLe16_of_eq (opPrepWriteReq :: putLe16 handle) value hpdu.symm rfl
  have length : pdu.length = value.length + 5 := by
    rw [← hpdu]
    simp
    omega
  have last : slice pdu 5 value.length = value := by
    have here := slice_append (opPrepWriteReq :: (putLe16 handle ++ putLe16 offset)) value
    rwa [List.cons_append, hpdu] at here
  rw [decPrepWriteReq, length, same, first, second, Nat.add_sub_cancel, last, returned,
    if_neg (by omega), if_neg (by simp), if_neg (by omega)]

theorem decExecWriteReq_of_ne (h : other ≠ opExecWriteReq) :
    decExecWriteReq (other :: rest) = none := by
  rw [decExecWriteReq]
  split
  · rfl
  · exact if_pos h

theorem decExecWriteReq_self (flags : UInt8) :
    decExecWriteReq [opExecWriteReq, flags] = some flags := by
  simp [decExecWriteReq, byteAt]

end Decoders

/-! ### What is encoded is decoded -/

/-- The opcodes of the requests, in the order of their decoders. -/
def requestOpcodes : List UInt8 :=
  [opMtuReq, opFindInfoReq, opFindByTypeReq, opReadByTypeReq, opReadByGroupReq, opReadReq,
    opReadBlobReq, opWriteReq, opWriteCmd, opPrepWriteReq, opExecWriteReq]

/-- A decoder takes only PDUs that begin with the opcode. -/
def Ignores {α : Type} (opcode : UInt8) (decoder : Pdu → Option α) : Prop :=
  ∀ other rest, other ≠ opcode → decoder (other :: rest) = none

/-- Of decoders that take different opcodes only one can take a PDU. -/
theorem bind_of_opcode {α : Type} {opcodes : List UInt8} {decoders : List (Pdu → Option α)}
    (apart : List.Forall₂ Ignores opcodes decoders) (nodup : opcodes.Nodup) {i : Nat}
    {opcode : UInt8} {decoder : Pdu → Option α} {rest : List UInt8} {result : α}
    (hopcode : opcodes[i]? = some opcode) (hdecoder : decoders[i]? = some decoder)
    (taken : decoder (opcode :: rest) = some result) (k : Nat) :
    (decoders[k]?.bind fun decoder => decoder (opcode :: rest)) =
      if k = i then some result else none := by
  split
  · rename_i hk
    rw [hk, hdecoder, Option.bind_some, taken]
  · rename_i hk
    refine Option.bind_eq_none_iff.mpr fun other hother => ?_
    obtain ⟨hlt, rfl⟩ := List.getElem?_eq_some_iff.mp hother
    have hlt' : k < opcodes.length := apart.length_eq ▸ hlt
    refine apart.get hlt' hlt opcode rest fun heq => hk ?_
    obtain ⟨hi, hopcode⟩ := List.getElem?_eq_some_iff.mp hopcode
    exact (nodup.getElem_inj_iff).mp (heq.symm.trans hopcode.symm)

/-- The result of the only decoder that takes a PDU. -/
theorem findSome?_of_bind {α : Type} {decoders : List (Pdu → Option α)} {pdu : Pdu} {i : Nat}
    {result : α} (only : ∀ k, (decoders[k]?.bind fun decoder => decoder pdu) =
      if k = i then some result else none) :
    decoders.findSome? (· pdu) = some result := by
  induction decoders generalizing i with
  | nil => exact absurd (only i) (by simp)
  | cons decoder decoders ih =>
    have first := only 0
    rw [List.getElem?_cons_zero, Option.bind_some] at first
    cases i with
    | zero => rw [List.findSome?_cons, first, if_pos rfl]
    | succ i =>
      rw [List.findSome?_cons, first, if_neg (Nat.succ_ne_zero i).symm]
      refine ih (i := i) fun k => ?_
      have next := only (k + 1)
      rw [List.getElem?_cons_succ] at next
      rw [next]
      simp only [Nat.add_right_cancel_iff]

/-- The decoders of requests take different opcodes. -/
theorem ignores_requestDecoders : List.Forall₂ Ignores requestOpcodes requestDecoders := by
  have mapped : ∀ {α : Type} {opcode : UInt8} {decoder : Pdu → Option α} {f : α → Request},
      Ignores opcode decoder → Ignores opcode fun pdu => (decoder pdu).map f :=
    fun ignores other rest h => Option.map_eq_none_iff.mpr (ignores other rest h)
  refine .cons (mapped ?_) (.cons (mapped ?_) (.cons (mapped ?_) (.cons (mapped ?_)
    (.cons (mapped ?_) (.cons (mapped ?_) (.cons (mapped ?_) (.cons (mapped ?_)
    (.cons (mapped ?_) (.cons (mapped ?_) (.cons (mapped ?_) .nil))))))))))
  · exact fun _ _ => decWord_of_ne
  · exact fun _ _ => decWords_of_ne
  · exact fun _ _ => decFindByTypeReq_of_ne
  · exact fun _ _ => decRange_of_ne
  · exact fun _ _ => decRange_of_ne
  · exact fun _ _ => decWord_of_ne
  · exact fun _ _ => decWords_of_ne
  · exact fun _ _ => decValue_of_ne
  · exact fun _ _ => decValue_of_ne
  · exact fun _ _ => decPrepWriteReq_of_ne
  · exact fun _ _ => decExecWriteReq_of_ne

/-- A PDU that the decoder of its opcode takes is taken by no other. -/
theorem decoders_of_opcode (i : Nat) {opcode : UInt8} {decoder : Pdu → Option Request}
    {rest : List UInt8} {r : Request} (hopcode : requestOpcodes[i]? = some opcode)
    (hdecoder : requestDecoders[i]? = some decoder) (taken : decoder (opcode :: rest) = some r)
    (k : Nat) : (requestDecoders[k]?.bind fun decoder => decoder (opcode :: rest)) =
      if k = i then some r else none :=
  bind_of_opcode ignores_requestDecoders (by decide) hopcode hdecoder taken k

/-- **What is encoded is decoded**, by one of the decoders: a server reads the request that the
client has written, with its value cut off to the buffer. -/
theorem decoders_encode_request (r : Request) {len : Nat} (room : 7 ≤ len) (short : len < 2 ^ 16)
    (encodable : r.Encodable) :
    ∀ k, (requestDecoders[k]?.bind fun decoder => decoder (r.encode len)) =
      if k = r.index then some (r.cut len) else none := by
  have cut : ∀ (value : List UInt8) (k : Nat), (value.take k).length ≤ k :=
    fun value k => List.length_take_le k value
  cases r with
  | mtu value =>
    exact decoders_of_opcode 0 rfl rfl (Option.map_eq_some_iff.mpr ⟨_, decWord_self, rfl⟩)
  | findInfo start «end» =>
    exact decoders_of_opcode 1 rfl rfl (Option.map_eq_some_iff.mpr ⟨_, decWords_self, rfl⟩)
  | findByType start «end» uuid value =>
    cases uuid with
    | uuid16 type =>
      have fits := cut value (len - 7)
      rw [Request.encode, encFindByTypeReq, slice_cut]
      exact decoders_of_opcode 2 rfl rfl
        (Option.map_eq_some_iff.mpr ⟨_, decFindByTypeReq_self (by omega), rfl⟩)
    | uuid32 | uuid128 => cases encodable
  | readByType start «end» uuid =>
    have self := decRange_self opReadByTypeReq start «end» encodable
    obtain ⟨rest, hrest⟩ := exists_encRange opReadByTypeReq start «end» encodable
    rw [hrest] at self
    rw [Request.encode, encReadByTypeReqUuid, hrest]
    exact decoders_of_opcode 3 rfl rfl (Option.map_eq_some_iff.mpr ⟨_, self, rfl⟩)
  | readByGrp start «end» uuid =>
    have self := decRange_self opReadByGroupReq start «end» encodable
    obtain ⟨rest, hrest⟩ := exists_encRange opReadByGroupReq start «end» encodable
    rw [hrest] at self
    rw [Request.encode, encReadByGrpReq, hrest]
    exact decoders_of_opcode 4 rfl rfl (Option.map_eq_some_iff.mpr ⟨_, self, rfl⟩)
  | read handle =>
    exact decoders_of_opcode 5 rfl rfl (Option.map_eq_some_iff.mpr ⟨_, decWord_self, rfl⟩)
  | readBlob handle offset =>
    exact decoders_of_opcode 6 rfl rfl (Option.map_eq_some_iff.mpr ⟨_, decWords_self, rfl⟩)
  | write handle value =>
    have fits := cut value (len - 3)
    rw [Request.encode, encWriteReq, slice_cut]
    exact decoders_of_opcode 7 rfl rfl
      (Option.map_eq_some_iff.mpr ⟨_, decValue_self (by omega), rfl⟩)
  | writeCmd handle value =>
    have fits := cut value (len - 3)
    rw [Request.encode, encWriteCmd, slice_cut]
    exact decoders_of_opcode 8 rfl rfl
      (Option.map_eq_some_iff.mpr ⟨_, decValue_self (by omega), rfl⟩)
  | prepWrite handle offset value =>
    have fits := cut value (len - 5)
    rw [Request.encode, encPrepWriteReqAt, slice_cut]
    exact decoders_of_opcode 9 rfl rfl
      (Option.map_eq_some_iff.mpr ⟨_, decPrepWriteReq_self (by omega), rfl⟩)
  | execWrite flags =>
    have allowed : ¬ flags > 1 := UInt8.not_lt.mpr encodable
    rw [Request.encode, encExecWriteReq, if_neg allowed]
    exact decoders_of_opcode 10 rfl rfl
      (Option.map_eq_some_iff.mpr ⟨_, decExecWriteReq_self flags, rfl⟩)

theorem decode_encode_request (r : Request) {len : Nat} (room : 7 ≤ len) (short : len < 2 ^ 16)
    (encodable : r.Encodable) : decodeRequest (r.encode len) = some (r.cut len) :=
  findSome?_of_bind (decoders_encode_request r room short encodable)

/-- What is encoded stays in the buffer. -/
theorem length_encode (r : Request) {len : Nat} (room : 7 ≤ len) (fits : r.Fits len) :
    (r.encode len).length ≤ len := by
  have cut : ∀ (value : List UInt8) (k : Nat), (value.take k).length ≤ k :=
    fun value k => List.length_take_le k value
  have range : ∀ opcode start «end» (uuid : BtUuid), 5 + uuid.len ≤ len →
      (encRange opcode start «end» uuid).length ≤ len := by
    intro opcode start «end» uuid fits
    cases uuid with
    | uuid16 => exact fits
    | uuid32 => exact Nat.zero_le _
    | uuid128 v => simpa [encRange, BtUuid.len, v.property] using fits
  cases r with
  | mtu | read => exact Nat.le_trans (show 3 ≤ 7 by decide) room
  | findInfo | readBlob => exact Nat.le_trans (show 5 ≤ 7 by decide) room
  | findByType start «end» uuid value =>
    have := cut value (len - 7)
    cases uuid with
    | uuid16 type =>
      rw [Request.encode, encFindByTypeReq, slice_cut]
      simp only [List.length_cons, List.length_append, length_putLe16]
      omega
    | uuid32 | uuid128 => exact Nat.zero_le _
  | readByType start «end» uuid => exact range _ _ _ uuid fits
  | readByGrp start «end» uuid => exact range _ _ _ uuid fits
  | write handle value | writeCmd handle value =>
    have := cut value (len - 3)
    simp only [Request.encode, encWriteReq, encWriteCmd, slice_cut, List.length_cons,
      List.length_append, length_putLe16]
    omega
  | prepWrite handle offset value =>
    have := cut value (len - 5)
    simp only [Request.encode, encPrepWriteReqAt, slice_cut, List.length_cons,
      List.length_append, length_putLe16]
    omega
  | execWrite flags =>
    rw [Request.encode, encExecWriteReq]
    split
    · exact Nat.zero_le _
    · exact Nat.le_trans (show 2 ≤ 7 by decide) room

/-! ### What is decoded was encoded -/

section Encoded

variable {opcode : UInt8} {pdu value : List UInt8} {a b handle offset : UInt16} {uuid : BtUuid}

/-- A PDU with one number. -/
theorem eq_of_word (length : 3 ≤ pdu.length) (same : byteAt pdu 0 = opcode) :
    pdu = opcode :: (putLe16 (getLe16 pdu 1) ++ pdu.drop 3) := by
  rw [← drop_eq_word (i := 1) (by omega), ← same]
  exact eq_cons (by omega)

/-- A PDU with two numbers. -/
theorem eq_of_words (length : 5 ≤ pdu.length) (same : byteAt pdu 0 = opcode) :
    pdu = opcode :: (putLe16 (getLe16 pdu 1) ++ putLe16 (getLe16 pdu 3) ++ pdu.drop 5) := by
  rw [List.append_assoc, ← drop_eq_word (i := 3) (by omega)]
  exact eq_of_word (by omega) same

/-- A PDU with three numbers. -/
theorem eq_of_three (length : 7 ≤ pdu.length) (same : byteAt pdu 0 = opcode) :
    pdu = opcode :: (putLe16 (getLe16 pdu 1) ++ putLe16 (getLe16 pdu 3) ++
      putLe16 (getLe16 pdu 5) ++ pdu.drop 7) := by
  rw [List.append_assoc, ← drop_eq_word (i := 5) (by omega)]
  exact eq_of_words (by omega) same

theorem eq_of_returned {α : Type} {len : Nat} {x y : α} (h : returned len x = some y) : x = y := by
  rw [returned] at h
  split_ifs at h
  exact Option.some.inj h

theorem eq_of_decWord (h : decWord opcode pdu = some a) :
    ∃ rest, pdu = opcode :: (putLe16 a ++ rest) := by
  rw [decWord] at h
  split_ifs at h with length same
  obtain rfl := Option.some.inj h
  exact ⟨_, eq_of_word (Nat.not_lt.mp length) (not_not.mp same)⟩

theorem eq_of_decWords (h : decWords opcode pdu = some (a, b)) :
    ∃ rest, pdu = opcode :: (putLe16 a ++ putLe16 b ++ rest) := by
  rw [decWords] at h
  split_ifs at h with length same
  obtain ⟨rfl, rfl⟩ := Prod.mk.inj (Option.some.inj h)
  exact ⟨_, eq_of_words (Nat.not_lt.mp length) (not_not.mp same)⟩

theorem eq_of_decValue (h : decValue opcode pdu = some (handle, value)) :
    pdu = opcode :: (putLe16 handle ++ value) := by
  rw [decValue] at h
  split_ifs at h with length same
  obtain ⟨rfl, rfl⟩ := Prod.mk.inj (eq_of_returned h)
  rw [slice_to_end (Nat.not_lt.mp length)]
  exact eq_of_word (Nat.not_lt.mp length) (not_not.mp same)

theorem eq_of_decRange (h : decRange opcode pdu = some (a, b, uuid)) :
    uuid.len ≠ 4 ∧ pdu = encRange opcode a b uuid := by
  rw [decRange] at h
  split_ifs at h with same short long
  · simp only [Option.some.injEq, Prod.mk.injEq] at h
    obtain ⟨rfl, rfl, rfl⟩ := h
    have whole := eq_of_three (by omega) (not_not.mp same)
    rw [List.drop_eq_nil_of_le (by omega), List.append_nil] at whole
    exact ⟨by simp [BtUuid.len], whole⟩
  · simp only [Option.some.injEq, Prod.mk.injEq] at h
    obtain ⟨rfl, rfl, rfl⟩ := h
    have rest : slice pdu 5 (pdu.length - 5) = pdu.drop 5 := slice_to_end (by omega)
    rw [long] at rest
    refine ⟨by simp [BtUuid.len], ?_⟩
    rw [encRange, List.reverse_reverse, rest]
    exact eq_of_words (by omega) (not_not.mp same)

theorem eq_of_decFindByTypeReq (h : decFindByTypeReq pdu = some (a, b, uuid, value)) :
    ∃ c, uuid = .uuid16 c ∧
      pdu = opFindByTypeReq :: (putLe16 a ++ putLe16 b ++ putLe16 c ++ value) := by
  rw [decFindByTypeReq] at h
  split_ifs at h with length same
  have fields := eq_of_returned h
  simp only [Prod.mk.injEq] at fields
  obtain ⟨rfl, rfl, rfl, rfl⟩ := fields
  refine ⟨_, rfl, ?_⟩
  rw [slice_to_end (Nat.not_lt.mp length)]
  exact eq_of_three (Nat.not_lt.mp length) (not_not.mp same)

theorem eq_of_decPrepWriteReq (h : decPrepWriteReq pdu = some (handle, offset, value)) :
    pdu = opPrepWriteReq :: (putLe16 handle ++ putLe16 offset ++ value) := by
  rw [decPrepWriteReq] at h
  split_ifs at h with length same
  have fields := eq_of_returned h
  simp only [Prod.mk.injEq] at fields
  obtain ⟨rfl, rfl, rfl⟩ := fields
  rw [slice_to_end (Nat.not_lt.mp length)]
  exact eq_of_words (Nat.not_lt.mp length) (not_not.mp same)

theorem eq_of_decExecWriteReq {flags : UInt8} (h : decExecWriteReq pdu = some flags) :
    ∃ rest, pdu = opExecWriteReq :: flags :: rest := by
  rw [decExecWriteReq] at h
  split_ifs at h with length same
  obtain rfl := Option.some.inj h
  rcases pdu with - | ⟨first, - | ⟨second, rest⟩⟩
  · exact absurd (Nat.zero_lt_two) length
  · exact absurd Nat.one_lt_two length
  · have same : first = opExecWriteReq := not_not.mp same
    exact ⟨rest, by rw [same]; rfl⟩

end Encoded

/-- A value that fills a buffer is not cut off. -/
theorem slice_whole {value : List UInt8} {room : Nat} (h : value.length ≤ room) :
    slice value 0 (if value.length > room then room else value.length) = value := by
  rw [slice_cut, List.take_of_length_le h]

/-- **What is decoded was encoded**: a PDU that a decoder takes begins with what the encoder makes
of the result. Only for the flags of an Execute Write Request, which the decoder does not look at,
the encoder may refuse. -/
theorem encode_of_decoder {decoder : Pdu → Option Request} (hmem : decoder ∈ requestDecoders)
    {pdu : Pdu} {r : Request} (hdec : decoder pdu = some r) :
    r.encode pdu.length <+: pdu ∧
      (r.encode pdu.length = [] ↔ ∃ flags, 1 < flags ∧ r = .execWrite flags) := by
  simp only [requestDecoders, List.mem_cons, List.not_mem_nil, or_false] at hmem
  -- what is encoded begins the PDU and is not empty
  have begins : ∀ {first : UInt8} {rest all : List UInt8}, r.encode pdu.length = first :: rest →
      pdu = first :: all → rest <+: all → (∀ flags, r ≠ .execWrite flags) →
      r.encode pdu.length <+: pdu ∧
        (r.encode pdu.length = [] ↔ ∃ flags, 1 < flags ∧ r = .execWrite flags) := by
    intro first rest all hencode hpdu prefixed other
    rw [hencode]
    refine ⟨?_, ?_⟩
    · rw [hpdu]
      exact (List.cons_prefix_cons).mpr ⟨rfl, prefixed⟩
    · refine iff_of_false (by simp) ?_
      rintro ⟨flags, -, hr⟩
      exact other flags hr
  rcases hmem with rfl | rfl | rfl | rfl | rfl | rfl | rfl | rfl | rfl | rfl | rfl
  · obtain ⟨value, hvalue, rfl⟩ := Option.map_eq_some_iff.mp hdec
    obtain ⟨rest, hpdu⟩ := eq_of_decWord hvalue
    exact begins rfl hpdu (List.prefix_append _ _) (by simp)
  · obtain ⟨⟨start, «end»⟩, hfields, rfl⟩ := Option.map_eq_some_iff.mp hdec
    obtain ⟨rest, hpdu⟩ := eq_of_decWords hfields
    exact begins rfl hpdu (List.prefix_append _ _) (by simp)
  · obtain ⟨⟨start, «end», uuid, value⟩, hfields, rfl⟩ := Option.map_eq_some_iff.mp hdec
    obtain ⟨type, rfl, hpdu⟩ := eq_of_decFindByTypeReq hfields
    have room : value.length ≤ pdu.length - 7 := by
      rw [hpdu]
      simp
      omega
    refine begins ?_ hpdu (List.prefix_rfl) (by simp)
    simp only [Request.encode, encFindByTypeReq, slice_whole room]
  · obtain ⟨⟨start, «end», uuid⟩, hfields, rfl⟩ := Option.map_eq_some_iff.mp hdec
    obtain ⟨known, hpdu⟩ := eq_of_decRange hfields
    obtain ⟨rest, hrest⟩ := exists_encRange opReadByTypeReq start «end» known
    exact begins hrest (hpdu.trans hrest) List.prefix_rfl (by simp)
  · obtain ⟨⟨start, «end», uuid⟩, hfields, rfl⟩ := Option.map_eq_some_iff.mp hdec
    obtain ⟨known, hpdu⟩ := eq_of_decRange hfields
    obtain ⟨rest, hrest⟩ := exists_encRange opReadByGroupReq start «end» known
    exact begins hrest (hpdu.trans hrest) List.prefix_rfl (by simp)
  · obtain ⟨handle, hvalue, rfl⟩ := Option.map_eq_some_iff.mp hdec
    obtain ⟨rest, hpdu⟩ := eq_of_decWord hvalue
    exact begins rfl hpdu (List.prefix_append _ _) (by simp)
  · obtain ⟨⟨handle, offset⟩, hfields, rfl⟩ := Option.map_eq_some_iff.mp hdec
    obtain ⟨rest, hpdu⟩ := eq_of_decWords hfields
    exact begins rfl hpdu (List.prefix_append _ _) (by simp)
  · obtain ⟨⟨handle, value⟩, hfields, rfl⟩ := Option.map_eq_some_iff.mp hdec
    have hpdu := eq_of_decValue hfields
    have room : value.length ≤ pdu.length - 3 := by
      rw [hpdu]
      simp
    refine begins ?_ hpdu (List.prefix_rfl) (by simp)
    simp only [Request.encode, encWriteReq, slice_whole room]
  · obtain ⟨⟨handle, value⟩, hfields, rfl⟩ := Option.map_eq_some_iff.mp hdec
    have hpdu := eq_of_decValue hfields
    have room : value.length ≤ pdu.length - 3 := by
      rw [hpdu]
      simp
    refine begins ?_ hpdu (List.prefix_rfl) (by simp)
    simp only [Request.encode, encWriteCmd, slice_whole room]
  · obtain ⟨⟨handle, offset, value⟩, hfields, rfl⟩ := Option.map_eq_some_iff.mp hdec
    have hpdu := eq_of_decPrepWriteReq hfields
    have room : value.length ≤ pdu.length - 5 := by
      rw [hpdu]
      simp
      omega
    refine begins ?_ hpdu (List.prefix_rfl) (by simp)
    simp only [Request.encode, encPrepWriteReqAt, slice_whole room]
  · obtain ⟨flags, hvalue, rfl⟩ := Option.map_eq_some_iff.mp hdec
    obtain ⟨rest, hpdu⟩ := eq_of_decExecWriteReq hvalue
    rw [Request.encode, encExecWriteReq]
    by_cases large : flags > 1
    · rw [if_pos large]
      exact ⟨List.nil_prefix, iff_of_true rfl ⟨flags, large, rfl⟩⟩
    · rw [if_neg large]
      refine ⟨hpdu ▸ List.prefix_append [opExecWriteReq, flags] rest, iff_of_false (by simp) ?_⟩
      rintro ⟨other, hother, heq⟩
      obtain rfl := Request.execWrite.inj heq
      exact large hother

/-- **The requests can be read.** In every buffer that has room for the UUID, what is encoded stays
in the buffer and is decoded, up to its end, by the decoder of the request and by no other; so no
two requests look the same, and a PDU that any of the decoders takes begins with what the encoder
makes of the result, except for the flags that an encoder refuses. -/
theorem request_codec {len : Nat} (room : 7 ≤ len) (short : len < 2 ^ 16) :
    (∀ r : Request, r.Encodable → r.Fits len → (r.encode len).length ≤ len ∧
      ∀ k, (requestDecoders[k]?.bind fun decoder => decoder (r.encode len)) =
        if k = r.index then some (r.cut len) else none) ∧
    (∀ r r' : Request, r.Encodable → r.Fits len → r'.Encodable → r'.Fits len →
      r.encode len = r'.encode len → r.cut len = r'.cut len) ∧
    ∀ decoder ∈ requestDecoders, ∀ pdu r, decoder pdu = some r → r.encode pdu.length <+: pdu ∧
      (r.encode pdu.length = [] ↔ ∃ flags, 1 < flags ∧ r = .execWrite flags) := by
  refine ⟨fun r encodable fits => ⟨length_encode r room fits,
    decoders_encode_request r room short encodable⟩,
    fun r r' encodable _ encodable' _ same => ?_, fun _ hmem _ _ h => encode_of_decoder hmem h⟩
  have decoded := decode_encode_request r room short encodable
  rw [same, decode_encode_request r' room short encodable'] at decoded
  exact (Option.some.inj decoded).symm

theorem request_codec_default :
    (requestDecoders[7]?.bind fun decoder => decoder ((Request.write 3 [1, 2]).encode 23)) =
        some (.write 3 [1, 2]) ∧
      (Request.write 3 [1, 2]).encode 23 = [0x12, 3, 0, 1, 2] :=
  ⟨((request_codec (by decide) (by decide)).1 (.write 3 [1, 2]) trivial trivial).2 7, by decide⟩

end Libble.Att
