import Libble.Foundation.Footprint
import Libble.Link.Writes

/-!
# What is read of a response

The decoders of the discovery responses and the callbacks that take the entries apart, with the
indices that they read. The decoders accept many lengths of entries, and one accepts a response
without entries; the callbacks read the fields of an entry where the entries of two formats have
them. So a response is parsed within its bounds only if it has one of these formats, or if its
entries happen to be long enough.

## Main definitions

* `Att.readFindInfoResp`, `Att.readByTypeResp`: the decoders, with what they read.
* `Gatt.readDesc`, `Gatt.readChar`: the fields of an entry, with where they are read.
* `Link.FindInfoInBounds`, `Link.ReadByTypeInBounds`: parsing stays within bounds.

## Main results

* `Att.result_readFindInfoResp` and the like: with their footprints the decoders return the same.
* `Link.findInfoInBounds_iff`, `Link.readByTypeInBounds_iff`: which responses are parsed within
  bounds.
-/

namespace Libble

open Att Gatt

namespace Att

/-- `get_le16` -/
def readLe16 (i : Nat) : Reading UInt8 UInt16 := do
  let low ← .at 0 i
  let high ← .at 0 (i + 1)
  return low.toUInt16 ||| (high.toUInt16 <<< 8)

@[simp] theorem result_readLe16 (buf : List UInt8) (i : Nat) :
    (readLe16 i).result buf = getLe16 buf i := rfl

@[simp] theorem within_readLe16 {buf : List UInt8} {i n : Nat} :
    (readLe16 i).Within buf n ↔ i + 1 < n := by
  simp only [readLe16, Reading.within_bind, Reading.within_at, Reading.within_pure, and_true]
  omega

/-- The entries of a response, copied one after the other. -/
def readEntries (num elen : Nat) : Reading UInt8 AttDataList := do
  let data ← .forEach (List.range num) fun i => .slice 0 (2 + i * elen) elen
  return ⟨elen, data⟩

@[simp] theorem result_readEntries (pdu : Pdu) (num elen : Nat) :
    (readEntries num elen).result pdu = entries pdu num elen := rfl

/-- Entries that fit behind the first two bytes are copied from the PDU. -/
theorem within_readEntries {pdu : Pdu} {num elen : Nat} (h : 2 + num * elen ≤ pdu.length) :
    (readEntries num elen).Within pdu pdu.length := by
  simp only [readEntries, Reading.within_bind, Reading.within_forEach, List.mem_range,
    Reading.within_pure, and_true]
  intro i hi
  rcases Nat.eq_zero_or_pos elen with rfl | helen
  · simp [Reading.slice]
  · rw [Reading.within_slice 0 helen]
    have := Nat.mul_le_mul_right elen (Nat.succ_le_of_lt hi)
    rw [Nat.succ_mul] at this
    omega

/-- `dec_find_info_resp` of a PDU of length `len`. -/
def readFindInfoResp (len : Nat) : Reading UInt8 (Option (UInt8 × AttDataList)) := do
  let opcode ← .at 0 0
  if opcode ≠ opFindInfoRsp then return none
  else
    let format ← .at 0 1
    let elen := 2 + if format = 0x01 then 2 else if format = 0x02 then 16 else 0
    let num := (2 ^ 64 + len - 2) % 2 ^ 64 / elen % 2 ^ 16
    let list ← readEntries num elen
    return some (format, list)

theorem result_readFindInfoResp (pdu : Pdu) (len : Nat) :
    (readFindInfoResp len).result pdu = decFindInfoResp pdu len := by
  simp only [readFindInfoResp, Reading.result_bind, Reading.result_ite]
  rfl

/-- `dec_read_by_type_resp` of a PDU of length `len`; the entry length is read when it is needed. -/
def readByTypeResp (len : Nat) : Reading UInt8 (Option AttDataList) := do
  let opcode ← .at 0 0
  if opcode ≠ opReadByTypeRsp then return none
  else if len < 5 then return none
  else
    let elen := (← .at 0 1).toNat
    if elen < 3 then return none
    else if (len - 2) % elen ≠ 0 then return none
    else
      let list ← readEntries ((len - 2) / elen) elen
      return some list

theorem result_readByTypeResp (pdu : Pdu) (len : Nat) :
    (readByTypeResp len).result pdu = decReadByTypeResp pdu len := by
  simp only [readByTypeResp, Reading.result_bind, Reading.result_ite]
  rfl

end Att

namespace Gatt

/-- `get_uuid128` reads the 2 bytes of a 16-bit UUID or the 16 bytes of a 128-bit one. -/
def readUuid128 (short : Prop) [Decidable short] (i : Nat) : Reading UInt8 (List UInt8) :=
  .slice 0 i (if short then 2 else 16)

theorem within_readUuid128 {short : Prop} [Decidable short] {value : List UInt8} {i n : Nat} :
    (readUuid128 short i).Within value n ↔ i + (if short then 2 else 16) ≤ n :=
  Reading.within_slice 0 (by split <;> decide)

/-- The fields of an entry that `desc_discovered_cb` reads; a 16-bit type is read twice. -/
def readDesc (format : UInt8) : Reading UInt8 GattDesc := do
  let handle ← readLe16 0
  let _ ← readUuid128 (format = 0x01) 2
  if format = 0x01 then
    let uuid16 ← readLe16 2
    return ⟨handle, uuid16⟩
  else return ⟨handle, 0⟩

theorem result_readDesc (format : UInt8) (value : List UInt8) :
    (readDesc format).result value = GattDesc.ofEntry format value := by
  simp only [readDesc, GattDesc.ofEntry, Reading.result_bind, result_readLe16, Reading.result_ite,
    Reading.result_pure]
  split <;> rfl

/-- The fields of an entry that `char_discovered_cb` reads. -/
def readChar (elen : Nat) : Reading UInt8 GattChar := do
  let handle ← readLe16 0
  let _ ← readUuid128 (elen = 7) 5
  let properties ← .at 0 2
  let valueHandle ← readLe16 3
  return ⟨handle, properties, valueHandle⟩

theorem result_readChar (elen : Nat) (value : List UInt8) :
    (readChar elen).result value = GattChar.ofEntry value := by
  simp only [readChar, GattChar.ofEntry, Reading.result_bind, result_readLe16, Reading.result_at,
    Reading.result_pure, byteAt]

/-- The fields of a descriptor lie in entries of the two formats only. -/
theorem within_readDesc {format : UInt8} {value : List UInt8} :
    (readDesc format).Within value
        (2 + if format = 0x01 then 2 else if format = 0x02 then 16 else 0) ↔
      format = 0x01 ∨ format = 0x02 := by
  simp only [readDesc, Reading.within_bind, within_readLe16, within_readUuid128,
    Reading.within_ite, Reading.within_pure]
  by_cases hone : format = 0x01
  · simp [hone]
  · by_cases htwo : format = 0x02
    · simp [htwo]
    · simp [hone, htwo]

/-- The fields of a characteristic lie in entries of 7 bytes and in those of at least 21. -/
theorem within_readChar {elen : Nat} {value : List UInt8} :
    (readChar elen).Within value elen ↔ elen = 7 ∨ 21 ≤ elen := by
  simp only [readChar, Reading.within_bind, within_readLe16, within_readUuid128,
    Reading.within_at, Reading.within_pure, and_true]
  split <;> omega

end Gatt

namespace Link

/-- A Find Information Response is parsed within its bounds: the decoder reads nothing behind its
end, the fields of every entry lie in the entry, and without entries it is rejected. -/
structure FindInfoInBounds (pdu : Pdu) : Prop where
  within : (readFindInfoResp pdu.length).Within pdu pdu.length
  fields : ∀ format list, (readFindInfoResp pdu.length).result pdu = some (format, list) →
    ∀ value ∈ list.data, (readDesc format).Within value list.len
  rejected : (∀ format list, (readFindInfoResp pdu.length).result pdu = some (format, list) →
      list.data = []) →
    ∀ buflen start descriptors, ∃ status, status ≠ 0 ∧
      reactTo buflen (encFindInfoReq start 0xffff) (.descDiscoveredCb start 0xffff descriptors)
        pdu = .done [errorEvent status]

/-- A Read By Type Response is parsed within its bounds. -/
structure ReadByTypeInBounds (pdu : Pdu) : Prop where
  within : (readByTypeResp pdu.length).Within pdu pdu.length
  fields : ∀ list, (readByTypeResp pdu.length).result pdu = some list →
    ∀ value ∈ list.data, (readChar list.len).Within value list.len
  rejected : (∀ list, (readByTypeResp pdu.length).result pdu = some list → list.data = []) →
    ∀ buflen start characteristics, ∃ status, status ≠ 0 ∧
      reactTo buflen (encReadByTypeReq start 0xffff gattCharacUuid)
        (.charDiscoveredCb start 0xffff characteristics) pdu = .done [errorEvent status]

variable {pdu : Pdu}

/-- A Find Information Response reaches the discovery that asked for it. -/
theorem reactTo_findInfoRsp (buflen : Nat) (start : UInt16) (descriptors : List GattDesc)
    (hop : byteAt pdu 0 = opFindInfoRsp) (hpos : 0 < pdu.length) :
    reactTo buflen (encFindInfoReq start 0xffff) (.descDiscoveredCb start 0xffff descriptors) pdu =
      turnOf (descDiscoveredCb start 0xffff descriptors 0 pdu) := by
  have hgrants : Grants (encFindInfoReq start 0xffff) pdu := by
    refine ⟨?_, ?_, nofun⟩
    · rw [hop]
      decide
    · rw [hop]
      rfl
  exact reactTo_of_grants hgrants (List.ne_nil_of_length_pos hpos)

/-- The length of the entries of a format. -/
def elenOf (format : UInt8) : Nat :=
  2 + if format = 0x01 then 2 else if format = 0x02 then 16 else 0

theorem elenOf_pos (format : UInt8) : 2 ≤ elenOf format := Nat.le_add_right ..

/-- The entries that fit are found. -/
theorem result_findInfo (hop : byteAt pdu 0 = opFindInfoRsp) (hlen : 2 ≤ pdu.length)
    (hlt : pdu.length < 2 ^ 16) :
    (readFindInfoResp pdu.length).result pdu = some (byteAt pdu 1,
      entries pdu ((pdu.length - 2) / elenOf (byteAt pdu 1)) (elenOf (byteAt pdu 1))) := by
  have hsub : (2 ^ 64 + pdu.length - 2) % 2 ^ 64 = pdu.length - 2 := by omega
  have hnum : (pdu.length - 2) / elenOf (byteAt pdu 1) % 2 ^ 16 =
      (pdu.length - 2) / elenOf (byteAt pdu 1) :=
    Nat.mod_eq_of_lt (Nat.lt_of_le_of_lt (Nat.div_le_self ..) (by omega))
  rw [result_readFindInfoResp, decFindInfoResp, if_neg (not_not.mpr hop)]
  simp only [hsub]
  show some (_, entries pdu (_ / elenOf (byteAt pdu 1) % 2 ^ 16) (elenOf (byteAt pdu 1))) = _
  rw [hnum]

/-- Without entries nothing is found. -/
theorem data_entries_eq_nil {num elen : Nat} : (entries pdu num elen).data = [] ↔ num = 0 := by
  simp [entries]

theorem within_findInfo (hop : byteAt pdu 0 = opFindInfoRsp) :
    (readFindInfoResp pdu.length).Within pdu pdu.length ↔ 0 < pdu.length ∧ 1 < pdu.length ∧
      (readEntries ((2 ^ 64 + pdu.length - 2) % 2 ^ 64 / elenOf (byteAt pdu 1) % 2 ^ 16)
        (elenOf (byteAt pdu 1))).Within pdu pdu.length := by
  have hop : ¬ (Reading.at 0 0).result pdu ≠ opFindInfoRsp := not_not.mpr hop
  rw [readFindInfoResp, Reading.within_bind, Reading.within_at, Reading.within_ite,
    if_neg hop, Reading.within_bind, Reading.within_at, Reading.within_bind]
  simp only [Reading.within_pure, and_true]
  rfl

/-- **Which Find Information Responses are parsed within their bounds**: those with one of the two
formats and at least one entry. -/
theorem findInfoInBounds_iff (hop : byteAt pdu 0 = opFindInfoRsp) (hpos : 1 ≤ pdu.length)
    (hlt : pdu.length < 2 ^ 16) :
    FindInfoInBounds pdu ↔
      (byteAt pdu 1 = 0x01 ∧ 6 ≤ pdu.length) ∨ (byteAt pdu 1 = 0x02 ∧ 20 ≤ pdu.length) := by
  have hpositive := elenOf_pos (byteAt pdu 1)
  constructor
  · intro h
    obtain ⟨-, hlen, -⟩ := (within_findInfo hop).mp h.within
    have hresult := result_findInfo hop hlen hlt
    by_cases hnum : (pdu.length - 2) / elenOf (byteAt pdu 1) = 0
    · -- without entries the response is taken for the end
      obtain ⟨status, -, hreact⟩ := h.rejected (fun format list hlist => by
        obtain ⟨-, rfl⟩ := Prod.mk.inj (Option.some.inj (hresult.symm.trans hlist))
        exact data_entries_eq_nil.mpr hnum) 23 0x0001 []
      rw [result_readFindInfoResp] at hresult
      rw [reactTo_findInfoRsp _ _ _ hop hpos, descDiscoveredCb, if_neg (by decide),
        if_neg (by decide)] at hreact
      simp only [hresult, data_entries_eq_nil.mpr hnum] at hreact
      cases hreact
    · obtain ⟨value, hvalue⟩ := List.exists_mem_of_ne_nil _ (mt data_entries_eq_nil.mp hnum)
      have hle : elenOf (byteAt pdu 1) ≤ pdu.length - 2 := by
        by_contra hle
        exact hnum (Nat.div_eq_of_lt (Nat.not_le.mp hle))
      rcases within_readDesc.mp (h.fields _ _ hresult value hvalue) with hformat | hformat
      · rw [hformat] at hle
        have : elenOf 0x01 = 4 := rfl
        exact .inl ⟨hformat, by omega⟩
      · rw [hformat] at hle
        have : elenOf 0x02 = 18 := rfl
        exact .inr ⟨hformat, by omega⟩
  · intro h
    have hformat : byteAt pdu 1 = 0x01 ∨ byteAt pdu 1 = 0x02 := h.imp And.left And.left
    have hlen : 2 + elenOf (byteAt pdu 1) ≤ pdu.length := by
      rcases h with ⟨hformat, hlen⟩ | ⟨hformat, hlen⟩
      · rw [hformat]
        exact hlen
      · rw [hformat]
        exact hlen
    have hresult := result_findInfo hop (by omega) hlt
    have hnum : (pdu.length - 2) / elenOf (byteAt pdu 1) ≠ 0 :=
      Nat.ne_of_gt (Nat.div_pos (by omega) (by omega))
    refine ⟨(within_findInfo hop).mpr ⟨hpos, by omega, within_readEntries ?_⟩,
      fun format list hlist value hvalue => ?_, fun hnil => ?_⟩
    · have hsub : (2 ^ 64 + pdu.length - 2) % 2 ^ 64 = pdu.length - 2 := by omega
      have hmod := Nat.mod_le ((pdu.length - 2) / elenOf (byteAt pdu 1)) (2 ^ 16)
      have hmul := Nat.mul_le_mul_right (elenOf (byteAt pdu 1)) hmod
      have := Nat.div_mul_le_self (pdu.length - 2) (elenOf (byteAt pdu 1))
      rw [hsub]
      omega
    · obtain ⟨rfl, rfl⟩ := Prod.mk.inj (Option.some.inj (hresult.symm.trans hlist))
      exact within_readDesc.mpr hformat
    · exact absurd (data_entries_eq_nil.mp (hnil _ _ hresult)) hnum

/-- A Read By Type Response reaches the discovery that asked for it. -/
theorem reactTo_readByTypeRsp (buflen : Nat) (start : UInt16) (characteristics : List GattChar)
    (hop : byteAt pdu 0 = opReadByTypeRsp) (hpos : 0 < pdu.length) :
    reactTo buflen (encReadByTypeReq start 0xffff gattCharacUuid)
        (.charDiscoveredCb start 0xffff characteristics) pdu =
      turnOf (gattCharDiscoveredCb start 0xffff characteristics 0 pdu) := by
  have hgrants : Grants (encReadByTypeReq start 0xffff gattCharacUuid) pdu := by
    refine ⟨?_, ?_, nofun⟩
    · rw [hop]
      decide
    · rw [hop]
      rfl
  exact reactTo_of_grants hgrants (List.ne_nil_of_length_pos hpos)

/-- The length of the entries that a Read By Type Response announces. -/
def announced (pdu : Pdu) : Nat := (byteAt pdu 1).toNat

/-- The decoder finds no entries in the Read By Type Response. -/
def Refused (pdu : Pdu) : Prop :=
  pdu.length < 5 ∨ announced pdu < 3 ∨ (pdu.length - 2) % announced pdu ≠ 0

instance (pdu : Pdu) : Decidable (Refused pdu) := inferInstanceAs (Decidable (_ ∨ _ ∨ _))

theorem result_readByType (hop : byteAt pdu 0 = opReadByTypeRsp) :
    (readByTypeResp pdu.length).result pdu = if Refused pdu then none
      else some (entries pdu ((pdu.length - 2) / announced pdu) (announced pdu)) := by
  rw [result_readByTypeResp, decReadByTypeResp]
  simp only [hop, ne_eq, not_true_eq_false, if_false, Refused, announced]
  by_cases hlen : pdu.length < 5
  · simp [hlen]
  · by_cases helen : (byteAt pdu 1).toNat < 3
    · simp [hlen, helen]
    · simp [hlen, helen]

theorem within_readByType (hop : byteAt pdu 0 = opReadByTypeRsp) (hpos : 1 ≤ pdu.length) :
    (readByTypeResp pdu.length).Within pdu pdu.length := by
  have hop : ¬ (Reading.at 0 0).result pdu ≠ opReadByTypeRsp := not_not.mpr hop
  rw [readByTypeResp, Reading.within_bind, Reading.within_at, Reading.within_ite,
    if_neg hop, Reading.within_ite]
  refine ⟨hpos, ?_⟩
  split
  · exact Reading.within_pure none
  · rename_i hlen
    rw [Reading.within_bind, Reading.within_at, Reading.within_ite, Reading.within_ite,
      Reading.within_bind]
    refine ⟨by omega, ?_⟩
    split
    · exact Reading.within_pure none
    · split
      · exact Reading.within_pure none
      · refine ⟨within_readEntries ?_, Reading.within_pure _⟩
        have := Nat.div_mul_le_self (pdu.length - 2) (announced pdu)
        show 2 + (pdu.length - 2) / announced pdu * announced pdu ≤ pdu.length
        omega

/-- **Which Read By Type Responses are parsed within their bounds**: those that are refused, and
those with entries of 7 bytes or of at least 21. -/
theorem readByTypeInBounds_iff (hop : byteAt pdu 0 = opReadByTypeRsp) (hpos : 1 ≤ pdu.length) :
    ReadByTypeInBounds pdu ↔ Refused pdu ∨ announced pdu = 7 ∨ 21 ≤ announced pdu := by
  have hresult := result_readByType hop
  by_cases refused : Refused pdu
  · rw [if_pos refused] at hresult
    refine ⟨fun _ => .inl refused, fun _ => ⟨within_readByType hop hpos, ?_, ?_⟩⟩
    · intro list hlist
      cases hresult.symm.trans hlist
    · intro _ buflen start characteristics
      rw [result_readByTypeResp] at hresult
      refine ⟨ecodeIo, by decide, ?_⟩
      rw [reactTo_readByTypeRsp _ _ _ hop hpos, gattCharDiscoveredCb, if_neg (by decide),
        if_neg (by decide)]
      simp only [hresult]
      rfl
  · rw [if_neg refused] at hresult
    have hnum : (pdu.length - 2) / announced pdu ≠ 0 := by
      obtain ⟨hlen, helen, hmod⟩ := not_or.mp refused |>.imp_right not_or.mp
      rw [not_not] at hmod
      intro hzero
      have := Nat.div_add_mod (pdu.length - 2) (announced pdu)
      rw [hzero, hmod] at this
      omega
    constructor
    · intro h
      obtain ⟨value, hvalue⟩ := List.exists_mem_of_ne_nil _ (mt data_entries_eq_nil.mp hnum)
      exact .inr (within_readChar.mp (h.fields _ hresult value hvalue))
    · intro h
      have hfields := h.resolve_left refused
      refine ⟨within_readByType hop hpos, fun list hlist value hvalue => ?_, fun hnil => ?_⟩
      · obtain rfl := Option.some.inj (hresult.symm.trans hlist)
        exact within_readChar.mpr hfields
      · exact absurd (data_entries_eq_nil.mp (hnil _ hresult)) hnum

/-- **Which discovery responses are parsed within their bounds.** -/
theorem discoveryResponse_inBounds_iff (mtu : Mtu) (pdu : Pdu) (hpos : 1 ≤ pdu.length)
    (hle : pdu.length ≤ mtu.buflen) :
    (byteAt pdu 0 = opFindInfoRsp → (FindInfoInBounds pdu ↔
      (byteAt pdu 1 = 0x01 ∧ 6 ≤ pdu.length) ∨ (byteAt pdu 1 = 0x02 ∧ 20 ≤ pdu.length))) ∧
    (byteAt pdu 0 = opReadByTypeRsp →
      (ReadByTypeInBounds pdu ↔ Refused pdu ∨ announced pdu = 7 ∨ 21 ≤ announced pdu)) :=
  ⟨fun hop => findInfoInBounds_iff hop hpos (Nat.lt_of_le_of_lt hle mtu.val.toNat_lt),
    fun hop => readByTypeInBounds_iff hop hpos⟩

/-- A Find Information Response with one entry is parsed within its bounds. -/
theorem discoveryResponse_inBounds_iff_entry : FindInfoInBounds [0x05, 0x01, 5, 0, 0x00, 0x2a] :=
  ((discoveryResponse_inBounds_iff ⟨23, by decide⟩ [0x05, 0x01, 5, 0, 0x00, 0x2a] (by decide)
    (by decide)).1 rfl).mpr (.inl ⟨rfl, by decide⟩)

/-- An unknown format and entries that are too short are not noticed. -/
theorem not_inBounds_shortEntries :
    ¬ FindInfoInBounds [0x05, 0x03, 5, 0] ∧ ¬ ReadByTypeInBounds [0x09, 3, 5, 0, 2] :=
  ⟨fun h => absurd ((findInfoInBounds_iff rfl (by decide) (by decide)).mp h) (by decide),
    fun h => absurd ((readByTypeInBounds_iff rfl (by decide)).mp h) (by decide)⟩

end Link

end Libble
