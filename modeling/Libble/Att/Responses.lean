import Libble.Att.Requests

/-!
# Responses on the wire

The other half of `bluez/attrib/att.c`: what a server writes and a client reads. A response with a
list has as many of its entries as fit the buffer; what a client reads are these entries, if there
are any and if they are not too short. Where not even one fits, the encoder of Read By Type
Responses cuts it off, and the other ones return 0. The exception is the Prepare Write Response: its
decoder asks for the opcode of the request.

## Main definitions

* `Att.copyEntries`: the loop of the encoders of lists.
* `Att.encReadByTypeResp`, `Att.encReadByGrpResp`, `Att.encFindInfoResp`, `Att.encFindByTypeResp`,
  `Att.encReadResp`, `Att.encMtuResp`, `Att.encPrepWriteResp`: the encoders.
* `Att.decReadByGrpResp`, `Att.decFindByTypeResp`, `Att.decMtuResp`, `Att.decPrepWriteResp`: the
  decoders that the client of this library does not call.

## Main results

* `Att.copyEntries_eq`: what the loop copies.
* `Att.response_codec`: what is encoded is decoded.
* `Att.decPrepWriteResp_eq`: a Prepare Write Response is never decoded, but requests are.
-/

namespace Libble.Att

/-- `ATT_OP_MTU_RESP` -/
abbrev opMtuRsp : UInt8 := 0x03
/-- `ATT_OP_FIND_BY_TYPE_RESP` -/
abbrev opFindByTypeRsp : UInt8 := 0x07
/-- `ATT_OP_READ_BY_GROUP_RESP` -/
abbrev opReadByGroupRsp : UInt8 := 0x11

/-! ### Encoders -/

/-- The loop of the encoders of lists: entries of `elen` bytes are copied to the offset `w` of a
buffer of `len` bytes, as long as they fit. -/
def copyEntries (elen len : Nat) : Nat → List (List UInt8) → List UInt8
  | _, [] => []
  | w, entry :: rest =>
    if w + elen ≤ len then slice entry 0 elen ++ copyEntries elen len (w + elen) rest else []

/-- `enc_mtu_resp` -/
def encMtuResp (mtu : UInt16) : Pdu := opMtuRsp :: putLe16 mtu

/-- `enc_find_info_resp` -/
def encFindInfoResp (format : UInt8) (list : AttDataList) (len : Nat) : Pdu :=
  if len < list.len + 2 then [] else opFindInfoRsp :: format :: copyEntries list.len len 2 list.data

/-- A `struct att_range` with its `start` and `end` in a response. -/
def putRange (range : UInt16 × UInt16) : List UInt8 := putLe16 range.1 ++ putLe16 range.2

/-- `enc_find_by_type_resp` of ranges of handles. -/
def encFindByTypeResp (ranges : List (UInt16 × UInt16)) (len : Nat) : Pdu :=
  opFindByTypeRsp :: copyEntries 4 len 1 (ranges.map putRange)

/-- `enc_read_by_type_resp`, which cuts the entries off to the buffer. -/
def encReadByTypeResp (list : AttDataList) (len : Nat) : Pdu :=
  let l := min (len - 2) list.len
  opReadByTypeRsp :: UInt8.ofNat l :: copyEntries l len 2 list.data

/-- `enc_read_by_grp_resp` -/
def encReadByGrpResp (list : AttDataList) (len : Nat) : Pdu :=
  if len < list.len + 2 then []
  else opReadByGroupRsp :: UInt8.ofNat list.len :: copyEntries list.len len 2 list.data

/-- `enc_read_resp` of the first `vlen` bytes at `value`, cut off to a buffer of `len` bytes. -/
def encReadResp (value : List UInt8) (vlen len : Nat) : Pdu :=
  opReadRsp :: slice value 0 (if vlen > len - 1 then len - 1 else vlen)

/-- `enc_prep_write_resp` of the first `vlen` bytes at `value`, cut off to a buffer of `len`
bytes. -/
def encPrepWriteResp (handle offset : UInt16) (value : List UInt8) (vlen len : Nat) : Pdu :=
  opPrepWriteRsp :: (putLe16 handle ++ putLe16 offset ++
    slice value 0 (if vlen > len - 5 then len - 5 else vlen))

/-! ### Decoders -/

/-- `dec_mtu_resp` -/
def decMtuResp (pdu : Pdu) : Option UInt16 := decWord opMtuRsp pdu

/-- `dec_find_by_type_resp`: the ranges, if there is a list. -/
def decFindByTypeResp (pdu : Pdu) : Option (List (UInt16 × UInt16)) :=
  if pdu.length < 5 then none
  else if byteAt pdu 0 ≠ opFindByTypeRsp then none
  else if (pdu.length - 1) % 4 ≠ 0 then none
  else some ((List.range ((pdu.length - 1) / 4)).map fun i =>
    (getLe16 pdu (1 + i * 4), getLe16 pdu (1 + i * 4 + 2)))

/-- `dec_read_by_grp_resp` -/
def decReadByGrpResp (pdu : Pdu) (len : Nat) : Option AttDataList :=
  let elen := (byteAt pdu 1).toNat
  if byteAt pdu 0 ≠ opReadByGroupRsp then none
  else if len < 7 then none
  else if elen < 5 then none
  else if (len - 2) % elen ≠ 0 then none
  else some (entries pdu ((len - 2) / elen) elen)

/-- `dec_prep_write_resp`, which asks for `ATT_OP_PREP_WRITE_REQ`. -/
def decPrepWriteResp (pdu : Pdu) : Option (UInt16 × UInt16 × List UInt8) :=
  if pdu.length < 5 then none
  else if byteAt pdu 0 ≠ opPrepWriteReq then none
  else returned pdu.length (getLe16 pdu 1, getLe16 pdu 3, slice pdu 5 (pdu.length - 5))

/-! ### Lists -/

section Lists

variable {elen len w : Nat} {chunks : List (List UInt8)}

/-- **What the loop copies**: as many entries as fit. -/
theorem copyEntries_eq (pos : 0 < elen) (h : ∀ c ∈ chunks, c.length = elen) (hw : w ≤ len) :
    copyEntries elen len w chunks = (chunks.take ((len - w) / elen)).flatten := by
  induction chunks generalizing w with
  | nil => rw [copyEntries, List.take_nil, List.flatten_nil]
  | cons c chunks ih =>
    obtain ⟨hc, hchunks⟩ := List.forall_mem_cons.mp h
    rw [copyEntries]
    split
    · rename_i fits
      have more : (len - w) / elen = (len - (w + elen)) / elen + 1 := by
        rw [Nat.div_eq_sub_div pos (by omega), Nat.sub_sub]
      have whole : slice c 0 elen = c := by
        rw [slice_eq c (by omega), List.drop_zero, List.take_of_length_le (Nat.le_of_eq hc)]
      rw [ih hchunks fits, more, whole, List.take_succ_cons, List.flatten_cons]
    · rename_i full
      have none : (len - w) / elen = 0 := Nat.div_eq_of_lt (by omega)
      rw [none, List.take_zero, List.flatten_nil]

/-- The number of entries that fit. -/
theorem length_take_pos {α : Type} {l : List α} (room : w + elen ≤ len) (pos : 0 < elen)
    (some : l ≠ []) : 0 < (l.take ((len - w) / elen)).length := by
  have fits : 0 < (len - w) / elen := Nat.div_pos (by omega) pos
  rw [List.length_take]
  exact Nat.lt_min.mpr ⟨fits, List.length_pos_iff.mpr some⟩

end Lists

namespace AttDataList

/-- A list as `att_data_list_alloc` makes it. -/
structure Allocated (list : AttDataList) : Prop where
  len_le : list.len ≤ 255
  length_eq : ∀ entry ∈ list.data, entry.length = list.len

/-- The entries that fit a buffer of `len` bytes. -/
def fitting (list : AttDataList) (len : Nat) : AttDataList :=
  ⟨list.len, list.data.take ((len - 2) / list.len)⟩

/-- The entries are cut off to `room` bytes. -/
def clip (list : AttDataList) (room : Nat) : AttDataList :=
  ⟨min room list.len, list.data.map (·.take (min room list.len))⟩

theorem Allocated.clip {list : AttDataList} (h : list.Allocated) (room : Nat) :
    (list.clip room).Allocated where
  len_le := Nat.le_trans (Nat.min_le_right ..) h.len_le
  length_eq := List.forall_mem_map.mpr fun entry hentry => by
    rw [List.length_take, h.length_eq entry hentry, Nat.min_assoc, Nat.min_self]
    rfl

end AttDataList

/-! ### What is encoded is decoded -/

section Decoded

variable {list : AttDataList} {len elen : Nat} {chunks : List (List UInt8)}

/-- A response with entries, as its decoder finds it. -/
theorem entries_flatten (opcode second : UInt8) (h : ∀ c ∈ chunks, c.length = elen) :
    entries (opcode :: second :: chunks.flatten) chunks.length elen = ⟨elen, chunks⟩ :=
  congrArg (AttDataList.mk elen) (data_entries opcode second h)

theorem length_response (opcode second : UInt8) (h : ∀ c ∈ chunks, c.length = elen) :
    (opcode :: second :: chunks.flatten).length = chunks.length * elen + 2 := by
  rw [List.length_cons, List.length_cons, length_flatten_of_length h]

theorem toNat_ofNat_of_le {n : Nat} (h : n ≤ 255) : (UInt8.ofNat n).toNat = n :=
  UInt8.toNat_ofNat_of_lt' (Nat.lt_succ_of_le h)

/-- The encoders of lists write the entries that fit. -/
theorem copyEntries_fitting (allocated : list.Allocated) (pos : 0 < list.len)
    (room : list.len + 2 ≤ len) :
    copyEntries list.len len 2 list.data = (list.fitting len).data.flatten :=
  copyEntries_eq pos allocated.length_eq (by omega)

/-- The loop copies only the first bytes of an entry. -/
theorem copyEntries_clip (room w : Nat) :
    copyEntries (list.clip room).len len w (list.clip room).data =
      copyEntries (min room list.len) len w list.data := by
  rw [AttDataList.clip]
  generalize min room list.len = elen
  induction list.data generalizing w with
  | nil => rfl
  | cons entry chunks ih =>
    have first : slice (entry.take elen) 0 elen = slice entry 0 elen := by
      refine List.map_congr_left fun i hi => ?_
      rw [byteAt, byteAt, Nat.zero_add, List.getD_eq_getElem?_getD, List.getD_eq_getElem?_getD,
        List.getElem?_take_of_lt (List.mem_range.mp hi)]
    rw [List.map_cons, copyEntries, copyEntries, first, ih]

/-- **A response with a list**, as its decoder finds it. -/
theorem list_response {opcode second : UInt8} {pdu : Pdu} (allocated : list.Allocated)
    (pos : 0 < list.len) (room : list.len + 2 ≤ len)
    (hpdu : pdu = opcode :: second :: copyEntries list.len len 2 list.data) :
    byteAt pdu 0 = opcode ∧ byteAt pdu 1 = second ∧ ∃ k, (list.data ≠ [] → 0 < k) ∧
      k * list.len + 2 ≤ len ∧ pdu.length = k * list.len + 2 ∧
      entries pdu k list.len = list.fitting len := by
  have lengths : ∀ entry ∈ (list.fitting len).data, entry.length = list.len := fun entry hentry =>
    allocated.length_eq entry (List.mem_of_mem_take hentry)
  have fits : (list.fitting len).data.length ≤ (len - 2) / list.len := List.length_take_le ..
  have le := Nat.le_trans (Nat.mul_le_mul_right list.len fits) (Nat.div_mul_le_self ..)
  rw [copyEntries_fitting allocated pos room] at hpdu
  subst hpdu
  exact ⟨rfl, rfl, (list.fitting len).data.length,
    length_take_pos (by omega) pos, Nat.add_le_of_le_sub (by omega) le,
    length_response opcode second lengths, entries_flatten opcode second lengths⟩

/-- Read By Type Responses. -/
theorem decReadByTypeResp_encode (allocated : list.Allocated) (room : 5 ≤ len) :
    decReadByTypeResp (encReadByTypeResp list len) (encReadByTypeResp list len).length =
      if list.data = [] ∨ list.len < 3 then none
      else some ((list.clip (len - 2)).fitting len) := by
  have clipped := allocated.clip (len - 2)
  have helen : (list.clip (len - 2)).len = min (len - 2) list.len := rfl
  have hdata : (list.clip (len - 2)).data = [] ↔ list.data = [] := List.map_eq_nil_iff
  have hencode : encReadByTypeResp list len = opReadByTypeRsp ::
      UInt8.ofNat (list.clip (len - 2)).len ::
        copyEntries (list.clip (len - 2)).len len 2 (list.clip (len - 2)).data := by
    rw [copyEntries_clip]
    rfl
  have hsecond := toNat_ofNat_of_le clipped.len_le
  generalize list.clip (len - 2) = whole at *
  split
  · rename_i short
    rw [hencode, decReadByTypeResp, if_neg (by simp [byteAt])]
    rcases short with none | least
    · rw [hdata.mpr none]
      exact if_pos (by simp [copyEntries])
    · have little : (byteAt (opReadByTypeRsp :: UInt8.ofNat whole.len ::
          copyEntries whole.len len 2 whole.data) 1).toNat < 3 := by
        show (UInt8.ofNat whole.len).toNat < 3
        omega
      rw [if_pos little, ite_self]
  · rename_i long
    obtain ⟨some, least⟩ := not_or.mp long
    obtain ⟨first, second, k, pos, -, length, same⟩ :=
      list_response clipped (by omega) (by omega) hencode
    have hmul := Nat.mul_le_mul (pos (mt hdata.mp some)) (show 3 ≤ whole.len by omega)
    simp only [decReadByTypeResp, first, second, hsecond, length, Nat.add_sub_cancel,
      Nat.mul_mod_left, Nat.mul_div_cancel _ (show 0 < whole.len by omega)]
    rw [if_neg (by simp), if_neg (by omega), if_neg (by omega), if_neg (by simp), same]

/-- Read By Group Type Responses. -/
theorem decReadByGrpResp_encode (allocated : list.Allocated) (room : list.len + 2 ≤ len) :
    decReadByGrpResp (encReadByGrpResp list len) (encReadByGrpResp list len).length =
      if list.data = [] ∨ list.len < 5 then none else some (list.fitting len) := by
  have hencode : encReadByGrpResp list len =
      opReadByGroupRsp :: UInt8.ofNat list.len :: copyEntries list.len len 2 list.data :=
    if_neg (by omega)
  have hsecond := toNat_ofNat_of_le allocated.len_le
  split
  · rename_i short
    rw [hencode, decReadByGrpResp, if_neg (by simp [byteAt])]
    rcases short with none | least
    · rw [none]
      exact if_pos (by simp [copyEntries])
    · have little : (byteAt (opReadByGroupRsp :: UInt8.ofNat list.len ::
          copyEntries list.len len 2 list.data) 1).toNat < 5 := by
        show (UInt8.ofNat list.len).toNat < 5
        omega
      rw [if_pos little, ite_self]
  · rename_i long
    obtain ⟨some, least⟩ := not_or.mp long
    obtain ⟨first, second, k, pos, -, length, same⟩ :=
      list_response allocated (by omega) room hencode
    have hmul := Nat.mul_le_mul (pos some) (show 5 ≤ list.len by omega)
    simp only [decReadByGrpResp, first, second, hsecond, length, Nat.add_sub_cancel,
      Nat.mul_mod_left, Nat.mul_div_cancel _ (show 0 < list.len by omega)]
    rw [if_neg (by simp), if_neg (by omega), if_neg (by omega), if_neg (by simp), same]

/-- Find Information Responses: the format tells the length of the entries. -/
theorem decFindInfoResp_encode {format : UInt8} (allocated : list.Allocated)
    (known : format = 1 ∧ list.len = 4 ∨ format = 2 ∧ list.len = 18)
    (room : list.len + 2 ≤ len) (short : len < 2 ^ 16) :
    decFindInfoResp (encFindInfoResp format list len) (encFindInfoResp format list len).length =
      some (format, list.fitting len) := by
  have hpos : 0 < list.len := by omega
  have hencode : encFindInfoResp format list len =
      opFindInfoRsp :: format :: copyEntries list.len len 2 list.data := if_neg (by omega)
  obtain ⟨first, second, k, pos, fits, length, same⟩ :=
    list_response allocated hpos room hencode
  have helen : (2 + if format = 0x01 then 2 else if format = 0x02 then 16 else 0) = list.len := by
    rcases known with ⟨rfl, h⟩ | ⟨rfl, h⟩
    · rw [h]
      rfl
    · rw [h]
      rfl
  have hk : k ≤ k * list.len := Nat.le_mul_of_pos_right k hpos
  have hbytes : (2 ^ 64 + (k * list.len + 2) - 2) % 2 ^ 64 = k * list.len := by omega
  have hnum : k * list.len / list.len % 2 ^ 16 = k := by
    rw [Nat.mul_div_cancel _ hpos, Nat.mod_eq_of_lt (by omega)]
  simp only [decFindInfoResp, first, second, helen, length, hbytes, hnum, same]
  exact if_neg (by simp)

/-- Find By Type Value Responses. -/
theorem decFindByTypeResp_encode (ranges : List (UInt16 × UInt16)) (room : 5 ≤ len) :
    decFindByTypeResp (encFindByTypeResp ranges len) =
      if ranges = [] then none else some (ranges.take ((len - 1) / 4)) := by
  split
  · rename_i none
    rw [none]
    rfl
  rename_i some
  generalize hfit : ranges.take ((len - 1) / 4) = fit
  have hchunks : ∀ l : List (UInt16 × UInt16), ∀ c ∈ l.map putRange, c.length = 4 :=
    fun l => List.forall_mem_map.mpr fun _ _ => rfl
  have hencode : encFindByTypeResp ranges len =
      opFindByTypeRsp :: (fit.map putRange).flatten := by
    rw [encFindByTypeResp, copyEntries_eq (by omega) (hchunks ranges) (by omega),
      ← List.map_take, hfit]
  have hpos : 0 < fit.length := by
    have := length_take_pos (w := 1) (by omega : 1 + 4 ≤ len) (by omega) some
    rwa [hfit] at this
  have hlength : (encFindByTypeResp ranges len).length = fit.length * 4 + 1 := by
    rw [hencode, List.length_cons, length_flatten_of_length (hchunks fit), List.length_map]
  have hfirst : byteAt (encFindByTypeResp ranges len) 0 = opFindByTypeRsp := hencode ▸ rfl
  rw [decFindByTypeResp, hlength, if_neg (by omega), if_neg (by simp [hfirst]),
    if_neg (by omega), Nat.add_sub_cancel, Nat.mul_div_cancel _ (by omega)]
  refine congrArg Option.some (List.ext_getElem (by simp) fun i hi hi' => ?_)
  -- the bytes before the range, and those after it
  obtain ⟨before, range, after, hparts, hbefore, hrange⟩ : ∃ before range after,
      fit = before ++ range :: after ∧ before.length = i ∧ fit[i] = range :=
    ⟨fit.take i, fit[i], fit.drop (i + 1),
      by rw [List.getElem_cons_drop, List.take_append_drop],
      List.length_take_of_le (Nat.le_of_lt hi'), rfl⟩
  have hsplit : encFindByTypeResp ranges len = opFindByTypeRsp :: (before.map putRange).flatten ++
      (putLe16 range.1 ++ (putLe16 range.2 ++ (after.map putRange).flatten)) := by
    rw [hencode, hparts]
    simp [putRange]
  have hfront : (opFindByTypeRsp :: (before.map putRange).flatten).length = 1 + i * 4 := by
    rw [List.length_cons, length_flatten_of_length (hchunks _), List.length_map, hbefore,
      Nat.add_comm]
  have hstart := getLe16_of_eq _ _ hsplit hfront
  have hend : getLe16 (encFindByTypeResp ranges len) (1 + i * 4 + 2) = range.2 := by
    refine getLe16_of_eq (opFindByTypeRsp :: (before.map putRange).flatten ++ putLe16 range.1) _
      (hsplit.trans (List.append_assoc ..).symm) ?_
    rw [List.length_append, hfront]
    rfl
  rw [List.getElem_map, List.getElem_range, hstart, hend, hrange]

/-- Read Responses: the value, unless it is empty. -/
theorem decReadResp_encode (value : List UInt8) (room : 2 ≤ len) :
    decReadResp (encReadResp value value.length len) (encReadResp value value.length len).length
      len = if value = [] then none else some (value.take (len - 1)) := by
  have hencode : encReadResp value value.length len = opReadRsp :: value.take (len - 1) := by
    rw [encReadResp, slice_cut]
  split
  · rename_i none
    rw [hencode, none, List.take_nil]
    exact (if_neg (by simp [byteAt])).trans ((if_neg (by simp)).trans (if_pos (by simp)))
  rename_i some
  have hpos : 0 < (value.take (len - 1)).length := by
    rw [List.length_take]
    exact Nat.lt_min.mpr ⟨by omega, List.length_pos_iff.mpr some⟩
  have hle : (value.take (len - 1)).length ≤ len - 1 := List.length_take_le ..
  have hslice : slice (opReadRsp :: value.take (len - 1)) 1 (value.take (len - 1)).length =
      value.take (len - 1) := slice_append [opReadRsp] _
  rw [hencode, decReadResp, List.length_cons, Nat.add_sub_cancel, if_neg (by simp [byteAt]),
    if_neg (by omega), if_neg (by omega), hslice]

end Decoded

/-- The decoder of Prepare Write Responses is the one of the requests. -/
theorem decPrepWriteResp_eq (pdu : Pdu) : decPrepWriteResp pdu = decPrepWriteReq pdu := rfl

theorem decPrepWriteResp_encode (handle offset : UInt16) (value : List UInt8) (vlen len : Nat) :
    decPrepWriteResp (encPrepWriteResp handle offset value vlen len) = none := by
  rw [decPrepWriteResp_eq]
  exact decPrepWriteReq_of_ne (by decide)

/-- **The responses can be read**, except for one. In every buffer a client decodes of a list the
entries that fit, and of a value the bytes that fit; it decodes nothing if there are none, or if the
entries are shorter than a handle and a value. An entry that is longer than the buffer is cut off by
the encoder of Read By Type Responses, while the other encoders refuse it. No Prepare Write Response
is decoded; what its decoder takes are the requests. -/
theorem response_codec {len : Nat} (room : 5 ≤ len) (short : len < 2 ^ 16) :
    (∀ list : AttDataList, list.Allocated →
      decReadByTypeResp (encReadByTypeResp list len) (encReadByTypeResp list len).length =
        (if list.data = [] ∨ list.len < 3 then none
          else some ((list.clip (len - 2)).fitting len)) ∧
      (len < list.len + 2 →
        encReadByGrpResp list len = [] ∧ ∀ format, encFindInfoResp format list len = []) ∧
      (list.len + 2 ≤ len →
        decReadByGrpResp (encReadByGrpResp list len) (encReadByGrpResp list len).length =
          (if list.data = [] ∨ list.len < 5 then none else some (list.fitting len)) ∧
        ∀ format, (format = 1 ∧ list.len = 4 ∨ format = 2 ∧ list.len = 18) →
          decFindInfoResp (encFindInfoResp format list len)
            (encFindInfoResp format list len).length = some (format, list.fitting len))) ∧
    (∀ ranges, decFindByTypeResp (encFindByTypeResp ranges len) =
      if ranges = [] then none else some (ranges.take ((len - 1) / 4))) ∧
    (∀ value, decReadResp (encReadResp value value.length len)
      (encReadResp value value.length len).length len =
        if value = [] then none else some (value.take (len - 1))) ∧
    (∀ mtu, decMtuResp (encMtuResp mtu) = some mtu) ∧
    ∀ handle offset value, decPrepWriteResp (encPrepWriteResp handle offset value value.length len)
        = none ∧
      decPrepWriteResp (encPrepWriteReqAt handle offset value value.length len) =
        some (handle, offset, value.take (len - 5)) := by
  refine ⟨fun list allocated => ⟨decReadByTypeResp_encode allocated room,
    fun full => ⟨if_pos full, fun _ => if_pos full⟩,
    fun fits => ⟨decReadByGrpResp_encode allocated fits, fun format known => ?_⟩⟩,
    fun ranges => decFindByTypeResp_encode ranges room,
    fun value => decReadResp_encode value (by omega), fun mtu => decWord_self,
    fun handle offset value => ⟨decPrepWriteResp_encode .., ?_⟩⟩
  · exact decFindInfoResp_encode allocated known fits short
  · have hle : (value.take (len - 5)).length ≤ len - 5 := List.length_take_le ..
    rw [decPrepWriteResp_eq, encPrepWriteReqAt, slice_cut]
    exact decPrepWriteReq_self (by omega)

theorem response_codec_default :
    decReadByTypeResp (encReadByTypeResp ⟨7, [[1, 0, 2, 3, 0, 4, 5], [6, 0, 2, 7, 0, 8, 9]]⟩ 23)
      16 = some ⟨7, [[1, 0, 2, 3, 0, 4, 5], [6, 0, 2, 7, 0, 8, 9]]⟩ :=
  ((response_codec (by decide) (by decide)).1
    ⟨7, [[1, 0, 2, 3, 0, 4, 5], [6, 0, 2, 7, 0, 8, 9]]⟩ ⟨by decide, by decide⟩).1

end Libble.Att
