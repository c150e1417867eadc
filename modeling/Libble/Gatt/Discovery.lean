import Libble.Foundation.TableScan
import Libble.Gatt.Procedure

/-!
# Discovering a table

`lble_discover_hand` and `lble_discover_char` read a table of the peer: the types of its
attributes, or its characteristic declarations. This file says what such tables are, how a
conforming peer answers the requests about them, and what the callbacks make of the answers. The
peer decides how many entries an answer has; they all have the same length.

## Main definitions

* `Gatt.Uuid`, `Gatt.Attribute`, `Gatt.Declaration`: what the tables consist of.
* `Gatt.AnswersFindInfo`, `Gatt.AnswersReadByType`: the answers of a conforming peer.
* `Gatt.handEvents`, `Gatt.charEvents`: what a discovery tells the application of some rows.
* `Gatt.Attributes`, `Gatt.Declarations`: tables that are not empty.
* `Gatt.Attributes.events`, `Gatt.Declarations.events`: what the application is to be told.

## Main results

* `Gatt.decFindInfoResp_findInfoRsp`, `Gatt.decReadByTypeResp_readByTypeRsp`: the decoders read
  back what conforming peers send.
* `Gatt.descDiscoveredCb_found`, `Gatt.charDiscoveredCb_found`: what an answer with entries does.
-/

namespace Libble.Gatt

open Att

/-! ### Types of attributes -/

/-- An attribute type of 16 or 128 bits. -/
inductive Uuid
  | short (value : UInt16)
  | long (bytes : Vector UInt8 16)
  deriving DecidableEq, Repr

namespace Uuid

/-- The type as it stands in a PDU. -/
def bytes : Uuid → List UInt8
  | short value => putLe16 value
  | long bytes => bytes.toList

/-- The 16-bit type, 0 for a 128-bit one. -/
def value16 : Uuid → UInt16
  | short value => value
  | long _ => 0

/-- The number of bytes of the type. -/
def size : Uuid → Nat
  | short _ => 2
  | long _ => 16

@[simp] theorem length_bytes (uuid : Uuid) : uuid.bytes.length = uuid.size := by
  cases uuid with
  | short value => rfl
  | long bytes => exact bytes.length_toList

end Uuid

/-! ### Attributes -/

/-- An attribute of the peer, with what Find Information tells about it. -/
structure Attribute where
  handle : UInt16
  type : Uuid
  deriving DecidableEq, Repr

namespace Attribute

/-- The entry of the attribute in a Find Information Response. -/
def entry (a : Attribute) : List UInt8 := putLe16 a.handle ++ a.type.bytes

/-- The descriptor that is made of the entry. -/
def desc (a : Attribute) : GattDesc := ⟨a.handle, a.type.value16⟩

/-- The event about the attribute. -/
def event (a : Attribute) : Event := .uuid a.handle (some ⟨a.type.value16, 0, 0, a.handle⟩)

/-- `char_desc_cb` makes an event of every descriptor, and the end marker. -/
theorem charDescCb_map (l : List Attribute) :
    charDescCb 0 (l.map desc) = l.map event ++ [.uuid 0 none] := by
  rw [charDescCb, if_neg (by decide), List.map_map]
  rfl

theorem ofEntry_entry (a : Attribute) {format : UInt8}
    (hformat : format = 0x01 ↔ a.type.size = 2) : GattDesc.ofEntry format a.entry = a.desc := by
  have hhandle : getLe16 a.entry 0 = a.handle := getLe16_putLe16 ..
  rcases a with ⟨handle, value | bytes⟩
  · have htype : getLe16 (Attribute.entry ⟨handle, .short value⟩) 2 = value := by
      have := getLe16_append_right (putLe16 handle) (putLe16 value) 0
      rw [← List.append_nil (putLe16 value), getLe16_putLe16] at this
      simpa [entry, Uuid.bytes] using this
    simp only [GattDesc.ofEntry, hhandle, htype, if_pos (hformat.mpr rfl), desc, Uuid.value16]
  · have hne : format ≠ 0x01 := fun h => absurd (hformat.mp h) (by simp [Uuid.size])
    simp only [GattDesc.ofEntry, hhandle, if_neg hne, desc, Uuid.value16]

end Attribute

/-- The Find Information Response with a format and the entries of some attributes. -/
def findInfoRsp (format : UInt8) (run : List Attribute) : Pdu :=
  opFindInfoRsp :: format :: (run.map Attribute.entry).flatten

/-- The format of a Find Information Response for types of a size. -/
def formatOf (size : Nat) : UInt8 := if size = 2 then 0x01 else 0x02

/-- How a conforming peer answers the Find Information Request from a handle on: with some of the
first attributes, all with types of the same size, that fit in the MTU, or with the error that
there are none. -/
inductive AnswersFindInfo (table : SortedTable Attribute fun a => a.handle.toNat) (buflen : Nat)
    (start : UInt16) : Pdu → Prop
  | found {size : Nat} {run rest : List Attribute}
      (above : table.above start.toNat = run ++ rest) (ne : run ≠ [])
      (width : ∀ a ∈ run, a.type.size = size)
      (fits : (findInfoRsp (formatOf size) run).length ≤ buflen) :
    AnswersFindInfo table buflen start (findInfoRsp (formatOf size) run)
  | notFound (none : table.above start.toNat = []) (lo hi : UInt8) :
    AnswersFindInfo table buflen start [opErrorRsp, opFindInfoReq, lo, hi, ecodeAttrNotFound]

/-- What `lble_discover_hand` tells of the attributes that it has found: one event for each of
them and the end marker, or the error that there are none. -/
def handEvents (rows : List Attribute) : List Event :=
  charDescCb (if rows = [] then ecodeAttrNotFound else 0) (rows.map Attribute.desc)

/-- The attributes of a peer, which has some; no handle is 0. -/
structure Attributes extends SortedTable Attribute fun a => a.handle.toNat where
  ne_nil : rows ≠ []
  pos : ∀ a ∈ rows, 0 < a.handle

namespace Attributes

variable (attributes : Attributes)

/-- The answers of a conforming peer. -/
abbrev Answers (buflen : Nat) (start : UInt16) : Pdu → Prop :=
  AnswersFindInfo attributes.toSortedTable buflen start

/-- One event for every attribute, and the end marker. -/
def events : List Event := attributes.rows.map Attribute.event ++ [.uuid 0 none]

theorem handEvents_rows : handEvents attributes.rows = attributes.events := by
  rw [handEvents, if_neg attributes.ne_nil]
  exact Attribute.charDescCb_map attributes.rows

end Attributes

section FindInfo

variable {buflen size : Nat} {run seen : List Attribute} {start : UInt16}

theorem length_entry (width : ∀ a ∈ run, a.type.size = size) :
    ∀ c ∈ run.map Attribute.entry, c.length = 2 + size := by
  intro c hc
  obtain ⟨a, ha, rfl⟩ := List.mem_map.mp hc
  simp [Attribute.entry, width a ha]

theorem length_findInfoRsp (width : ∀ a ∈ run, a.type.size = size) (format : UInt8) :
    (findInfoRsp format run).length = 2 + run.length * (2 + size) := by
  rw [findInfoRsp, List.length_cons, List.length_cons,
    length_flatten_of_length (length_entry width), List.length_map]
  omega

/-- The entries of a Find Information Response are read back. -/
theorem decFindInfoResp_findInfoRsp (hbuf : buflen < 2 ^ 16) (ne : run ≠ [])
    (width : ∀ a ∈ run, a.type.size = size)
    (fits : (findInfoRsp (formatOf size) run).length ≤ buflen) :
    ∃ list, decFindInfoResp (findInfoRsp (formatOf size) run)
        (findInfoRsp (formatOf size) run).length = some (formatOf size, list) ∧
      list.data.map (GattDesc.ofEntry (formatOf size)) = run.map Attribute.desc := by
  have hsize : size = 2 ∨ size = 16 := by
    obtain ⟨a, ha⟩ := List.exists_mem_of_ne_nil run ne
    rw [← width a ha]
    cases a.type <;> simp [Uuid.size]
  have hlength := length_findInfoRsp width (formatOf size)
  have helen : 2 + (if formatOf size = 0x01 then 2 else if formatOf size = 0x02 then 16 else 0) =
      2 + size := by
    rcases hsize with rfl | rfl <;> rfl
  have hnum : (2 ^ 64 + (findInfoRsp (formatOf size) run).length - 2) % 2 ^ 64 / (2 + size) %
      2 ^ 16 = run.length := by
    have hmul : (2 ^ 64 + (findInfoRsp (formatOf size) run).length - 2) % 2 ^ 64 =
        run.length * (2 + size) := by omega
    have hle : run.length ≤ run.length * (2 + size) := Nat.le_mul_of_pos_right _ (by omega)
    rw [hmul, Nat.mul_div_cancel _ (by omega)]
    exact Nat.mod_eq_of_lt (by omega)
  refine ⟨entries (findInfoRsp (formatOf size) run) run.length (2 + size), ?_, ?_⟩
  · have hop : byteAt (findInfoRsp (formatOf size) run) 0 = opFindInfoRsp := rfl
    have hformat : byteAt (findInfoRsp (formatOf size) run) 1 = formatOf size := rfl
    simp only [decFindInfoResp, hop, ne_eq, not_true_eq_false, if_false, hformat, helen, hnum]
  · have hdata := data_entries opFindInfoRsp (formatOf size) (length_entry width)
    rw [List.length_map] at hdata
    rw [findInfoRsp, hdata, List.map_map]
    refine List.map_congr_left fun a ha => a.ofEntry_entry ?_
    rw [width a ha]
    rcases hsize with rfl | rfl <;> decide

/-- An answer with entries has the discovery go on behind the last one, or end with the last
handle. -/
theorem descDiscoveredCb_found (hbuf : buflen < 2 ^ 16) {last : Attribute}
    (width : ∀ a ∈ run ++ [last], a.type.size = size)
    (fits : (findInfoRsp (formatOf size) (run ++ [last])).length ≤ buflen)
    (hlast : start ≤ last.handle) :
    descDiscoveredCb start 0xffff (seen.map Attribute.desc) 0
        (findInfoRsp (formatOf size) (run ++ [last])) =
      if last.handle < 0xffff then
        .send (encFindInfoReq (last.handle + 1) 0xffff) (.descDiscoveredCb (last.handle + 1) 0xffff
          ((seen ++ (run ++ [last])).map Attribute.desc))
      else .finish (charDescCb 0 ((seen ++ (run ++ [last])).map Attribute.desc)) := by
  obtain ⟨list, hdec, hfound⟩ := decFindInfoResp_findInfoRsp hbuf (by simp) width fits
  have hgetLast : (((run ++ [last]).map Attribute.desc).getLast?.map GattDesc.handle).getD 0xffff =
      last.handle := by
    simp [Attribute.desc]
  have hnot : ¬ last.handle < start := UInt16.not_lt.mpr hlast
  rw [descDiscoveredCb, if_neg (by decide), if_neg (by decide)]
  simp only [hdec, hfound, hgetLast, if_neg hnot]
  rw [← List.map_append]

end FindInfo

/-! ### Characteristic declarations -/

/-- A characteristic declaration of the peer. -/
structure Declaration where
  handle : UInt16
  properties : UInt8
  valueHandle : UInt16
  uuid : Uuid
  deriving DecidableEq, Repr

namespace Declaration

/-- The entry of the declaration in a Read By Type Response. -/
def entry (d : Declaration) : List UInt8 :=
  putLe16 d.handle ++ (d.properties :: (putLe16 d.valueHandle ++ d.uuid.bytes))

/-- The characteristic that is made of the entry. -/
def char (d : Declaration) : GattChar := ⟨d.handle, d.properties, d.valueHandle⟩

/-- The event about the characteristic. -/
def event (d : Declaration) : Event :=
  .uuid d.handle (some ⟨0, d.properties, d.handle, d.valueHandle⟩)

/-- `char_discovered_cb` makes an event of every characteristic, and the end marker. -/
theorem charDiscoveredCb_map (l : List Declaration) :
    charDiscoveredCb 0 (l.map char) = l.map event ++ [.uuid 0 none] := by
  rw [charDiscoveredCb, if_neg (by decide), List.map_map]
  rfl

theorem ofEntry_entry (d : Declaration) : GattChar.ofEntry d.entry = d.char := by
  have hhandle : getLe16 d.entry 0 = d.handle := getLe16_putLe16 ..
  have hproperties : byteAt d.entry 2 = d.properties :=
    byteAt_append_right (putLe16 d.handle)
      (d.properties :: (putLe16 d.valueHandle ++ d.uuid.bytes)) 0
  have hvalue : getLe16 d.entry 3 = d.valueHandle := by
    have := getLe16_append_right (putLe16 d.handle ++ [d.properties])
      (putLe16 d.valueHandle ++ d.uuid.bytes) 0
    rw [getLe16_putLe16, List.append_assoc, List.singleton_append] at this
    exact this
  simp only [GattChar.ofEntry, hhandle, hproperties, hvalue, char]

end Declaration

/-- The Read By Type Response with entries of a length. -/
def readByTypeRsp (elen : UInt8) (run : List Declaration) : Pdu :=
  opReadByTypeRsp :: elen :: (run.map Declaration.entry).flatten

/-- How a conforming peer answers the Read By Type Request for characteristic declarations from a
handle on: with some of the first ones, all with types of the same size, that fit in the MTU, or
with the error that there are none. -/
inductive AnswersReadByType (table : SortedTable Declaration fun d => d.handle.toNat)
    (buflen : Nat) (start : UInt16) : Pdu → Prop
  | found {size : Nat} {run rest : List Declaration}
      (above : table.above start.toNat = run ++ rest) (ne : run ≠ [])
      (width : ∀ d ∈ run, d.uuid.size = size)
      (fits : (readByTypeRsp (UInt8.ofNat (5 + size)) run).length ≤ buflen) :
    AnswersReadByType table buflen start (readByTypeRsp (UInt8.ofNat (5 + size)) run)
  | notFound (none : table.above start.toNat = []) (lo hi : UInt8) :
    AnswersReadByType table buflen start [opErrorRsp, opReadByTypeReq, lo, hi, ecodeAttrNotFound]

/-- What `lble_discover_char` tells of the declarations that it has found: one event for each of
them and the end marker, or the error that there are none. -/
def charEvents (rows : List Declaration) : List Event :=
  charDiscoveredCb (if rows = [] then ecodeAttrNotFound else 0) (rows.map Declaration.char)

/-- The characteristic declarations of a peer, which has some; no handle is 0 or 0xffff. -/
structure Declarations extends SortedTable Declaration fun d => d.handle.toNat where
  ne_nil : rows ≠ []
  pos : ∀ d ∈ rows, 0 < d.handle
  lt_end : ∀ d ∈ rows, d.handle < 0xffff

namespace Declarations

variable (declarations : Declarations)

/-- The answers of a conforming peer. -/
abbrev Answers (buflen : Nat) (start : UInt16) : Pdu → Prop :=
  AnswersReadByType declarations.toSortedTable buflen start

/-- One event for every declaration, and the end marker. -/
def events : List Event := declarations.rows.map Declaration.event ++ [.uuid 0 none]

theorem charEvents_rows : charEvents declarations.rows = declarations.events := by
  rw [charEvents, if_neg declarations.ne_nil]
  exact Declaration.charDiscoveredCb_map declarations.rows

end Declarations

section ReadByType

variable {buflen size : Nat} {run seen : List Declaration} {start : UInt16}

theorem length_declaration (width : ∀ d ∈ run, d.uuid.size = size) :
    ∀ c ∈ run.map Declaration.entry, c.length = 5 + size := by
  intro c hc
  obtain ⟨d, hd, rfl⟩ := List.mem_map.mp hc
  simp [Declaration.entry, width d hd]
  omega

theorem length_readByTypeRsp (width : ∀ d ∈ run, d.uuid.size = size) (elen : UInt8) :
    (readByTypeRsp elen run).length = 2 + run.length * (5 + size) := by
  rw [readByTypeRsp, List.length_cons, List.length_cons,
    length_flatten_of_length (length_declaration width), List.length_map]
  omega

/-- The entries of a Read By Type Response are read back. -/
theorem decReadByTypeResp_readByTypeRsp (ne : run ≠ []) (width : ∀ d ∈ run, d.uuid.size = size) :
    ∃ list, decReadByTypeResp (readByTypeRsp (UInt8.ofNat (5 + size)) run)
        (readByTypeRsp (UInt8.ofNat (5 + size)) run).length = some list ∧
      list.data.map GattChar.ofEntry = run.map Declaration.char := by
  have hsize : size = 2 ∨ size = 16 := by
    obtain ⟨d, hd⟩ := List.exists_mem_of_ne_nil run ne
    rw [← width d hd]
    cases d.uuid <;> simp [Uuid.size]
  have hlength := length_readByTypeRsp width (UInt8.ofNat (5 + size))
  have hmul : 5 + size ≤ run.length * (5 + size) :=
    Nat.le_mul_of_pos_left _ (List.length_pos_iff.mpr ne)
  have helen : (UInt8.ofNat (5 + size)).toNat = 5 + size := by
    rcases hsize with rfl | rfl <;> rfl
  have hrest : (readByTypeRsp (UInt8.ofNat (5 + size)) run).length - 2 =
      run.length * (5 + size) := by omega
  refine ⟨entries (readByTypeRsp (UInt8.ofNat (5 + size)) run) run.length (5 + size), ?_, ?_⟩
  · have hop : byteAt (readByTypeRsp (UInt8.ofNat (5 + size)) run) 0 = opReadByTypeRsp := rfl
    have hbyte : byteAt (readByTypeRsp (UInt8.ofNat (5 + size)) run) 1 =
        UInt8.ofNat (5 + size) := rfl
    have hfive : ¬ (readByTypeRsp (UInt8.ofNat (5 + size)) run).length < 5 := by omega
    have hthree : ¬ 5 + size < 3 := by omega
    simp only [decReadByTypeResp, hop, ne_eq, not_true_eq_false, if_false, hbyte, helen, hrest,
      if_neg hfive, if_neg hthree, Nat.mul_mod_left,
      Nat.mul_div_cancel _ (show 0 < 5 + size by omega)]
  · have hdata := data_entries opReadByTypeRsp (UInt8.ofNat (5 + size)) (length_declaration width)
    rw [List.length_map] at hdata
    rw [readByTypeRsp, hdata, List.map_map]
    exact List.map_congr_left fun d _ => d.ofEntry_entry

/-- An answer with entries has the discovery go on behind the last one, or end if that is behind
the last handle but one. -/
theorem charDiscoveredCb_found {last : Declaration}
    (width : ∀ d ∈ run ++ [last], d.uuid.size = size) (hlast : start ≤ last.handle)
    (hpos : 0 < last.handle) :
    gattCharDiscoveredCb start 0xffff (seen.map Declaration.char) 0
        (readByTypeRsp (UInt8.ofNat (5 + size)) (run ++ [last])) =
      if last.handle + 1 < 0xffff then
        .send (encReadByTypeReq (last.handle + 1) 0xffff gattCharacUuid)
          (.charDiscoveredCb (last.handle + 1) 0xffff
            ((seen ++ (run ++ [last])).map Declaration.char))
      else .finish (charDiscoveredCb 0 ((seen ++ (run ++ [last])).map Declaration.char)) := by
  obtain ⟨list, hdec, hfound⟩ := decReadByTypeResp_readByTypeRsp (by simp) width
  have hgetLast : (((run ++ [last]).map Declaration.char).getLast?.map GattChar.handle).getD 0 =
      last.handle := by
    simp [Declaration.char]
  have hnot : ¬ last.handle < start := UInt16.not_lt.mpr hlast
  have hne : last.handle ≠ 0 := fun h => absurd (h ▸ hpos) (by decide)
  rw [gattCharDiscoveredCb, if_neg (by decide), if_neg (by decide)]
  simp only [hdec, hfound, hgetLast, if_neg hnot, hne, ne_eq, not_false_eq_true, true_and]
  rw [← List.map_append]

end ReadByType

end Libble.Gatt
