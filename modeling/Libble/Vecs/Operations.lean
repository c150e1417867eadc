import Libble.Vecs.Profiles

/-!
# The operations of vecs

`vecs_request` and `vecs_write` use the value handle that the table has for a type, and
`vecs_notify` the handle behind it, where it expects the Client Characteristic Configuration. None
of them looks whether anything was found: the handle 0 is used like any other. This file says for
which tables of a peer the requests go to the right attribute nevertheless.

## Main definitions

* `Vecs.Peer.Belongs`: an attribute belongs to a characteristic.
* `Vecs.Peer.IsValue`, `Vecs.Peer.IsConfiguration`: the right attributes for a type.
* `Vecs.Peer.ValueInPlace`, `Vecs.Peer.ConfigurationInPlace`: when the operations find them.

## Main results

* `Vecs.operations_addressed_iff`: where the requests of the operations go.
* `Vecs.not_addressed_samplePeer`: a characteristic that was not found is asked for at handle 0.
-/

namespace Libble.Vecs

open Att Gatt

namespace Peer

variable (peer : Peer)

/-- The types of attributes that end the characteristic before them: service and characteristic
declarations. -/
def OpensGroup (type : Uuid) : Prop :=
  type = .short 0x2800 ∨ type = .short 0x2801 ∨ type = .short gattCharacUuid

instance (type : Uuid) : Decidable (OpensGroup type) := inferInstanceAs (Decidable (_ ∨ _ ∨ _))

/-- The handle lies behind the declaration, with no declaration between them. -/
def Within (d : Declaration) (handle : UInt16) : Prop :=
  d.handle < handle ∧ ∀ a ∈ peer.attributes, d.handle < a.handle → a.handle ≤ handle →
    ¬ OpensGroup a.type

instance (d : Declaration) (handle : UInt16) : Decidable (peer.Within d handle) :=
  inferInstanceAs (Decidable (_ ∧ _))

/-- The attribute with the handle belongs to a characteristic: it is its declaration, its value or
one of its descriptors. -/
def Belongs (d : Declaration) (handle : UInt16) : Prop :=
  handle = d.handle ∨ handle = d.valueHandle ∨ peer.Within d handle

instance (d : Declaration) (handle : UInt16) : Decidable (peer.Belongs d handle) :=
  inferInstanceAs (Decidable (_ ∨ _ ∨ _))

/-- The handle is that of the value of a characteristic of a type, and of nothing that belongs to
another characteristic. -/
def IsValue (uuid handle : UInt16) : Prop :=
  ⟨handle, .short uuid⟩ ∈ peer.attributes ∧
    ∃ d ∈ peer.declarations, d.uuid = .short uuid ∧ d.valueHandle = handle ∧
      ∀ e ∈ peer.declarations, peer.Belongs e handle → e = d

/-- The handle is that of the Client Characteristic Configuration among the descriptors of a
characteristic of a type, and of nothing that belongs to another characteristic. -/
def IsConfiguration (uuid handle : UInt16) : Prop :=
  ⟨handle, .short 0x2902⟩ ∈ peer.attributes ∧
    ∃ d ∈ peer.declarations, d.uuid = .short uuid ∧
      ⟨d.valueHandle, .short uuid⟩ ∈ peer.attributes ∧ handle ≠ d.valueHandle ∧
      peer.Within d handle ∧ ∀ e ∈ peer.declarations, peer.Belongs e handle → e = d

/-- There are attributes of the type, and the last one is the value of a characteristic of the
type, and of no other one. -/
def ValueInPlace (uuid : UInt16) : Prop :=
  ∃ a ∈ peer.attributeOf uuid, peer.IsValue uuid a.handle

/-- There are attributes of the type, and right behind the last one, if it does not have the last
handle, is the Client Characteristic Configuration of a characteristic of the type, and of no other
one. -/
def ConfigurationInPlace (uuid : UInt16) : Prop :=
  ∃ a ∈ peer.attributeOf uuid, a.handle ≠ 0xffff ∧ peer.IsConfiguration uuid (a.handle + 1)

variable {peer}

theorem IsValue.ne_zero {uuid handle : UInt16} (h : peer.IsValue uuid handle) : handle ≠ 0 :=
  (UInt16.ne_of_lt (peer.pos _ h.1)).symm

theorem IsConfiguration.ne_zero {uuid handle : UInt16} (h : peer.IsConfiguration uuid handle) :
    handle ≠ 0 :=
  (UInt16.ne_of_lt (peer.pos _ h.1)).symm

end Peer

/-- The handle that a request is about. -/
def addressOf (pdu : Pdu) : UInt16 := getLe16 pdu 1

section Addresses

variable (buflen : Nat) (target : UInt16) (data : List UInt8)

theorem addressOf_cons (opcode : UInt8) (rest : List UInt8) :
    addressOf (opcode :: (putLe16 target ++ rest)) = target :=
  (getLe16_append_right [opcode] (putLe16 target ++ rest) 0).trans (getLe16_putLe16 target rest)

/-- A Read Request is about the handle that is read. -/
theorem addressOf_request : addressOf ((Call.request target).begin buflen).1 = target := by
  have := addressOf_cons target opReadReq []
  rwa [List.append_nil] at this

/-- A Write Request or Prepare Write Request is about the handle that is written. -/
theorem addressOf_write : addressOf ((Call.write target data).begin buflen).1 = target := by
  simp only [Call.begin, gattWriteChar]
  split
  · exact addressOf_cons target opWriteReq _
  · have := addressOf_cons target opPrepWriteReq (putLe16 0 ++ slice data 0
      (if (2 ^ 64 + data.length - 0) % 2 ^ 64 > buflen - 5 then buflen - 5
        else (2 ^ 64 + data.length - 0) % 2 ^ 64))
    rw [← List.append_assoc] at this
    exact this

end Addresses

/-- What a type is looked up in. -/
theorem handle_eq (profiles : List CharInfo) (uuid : UInt16) :
    handle profiles uuid =
      (((profiles.map fun e => (e.uuid, e.valueHandle)).find?
        (·.1 = uuid)).map Prod.snd).getD 0 := by
  rw [handle, List.find?_map, Option.map_map]
  rfl

/-- The table after both phases has the handle of the last attribute of each type, whatever the
table of the peer and whatever the second phase tells. -/
theorem handle_afterDiscoveries (peer : Peer) {v : Statics} (hv : v.profiles = initialProfiles)
    {told : List Event} (htold : peer.ToldByChar told) {uuid : UInt16} (huuid : uuid ∈ vecsUuids) :
    handle (afterEvents v (peer.handEvents ++ told)).profiles uuid = peer.valueHandle uuid := by
  obtain ⟨profiles, discover⟩ := v
  obtain rfl : profiles = initialProfiles := hv
  rw [afterEvents_append, handle_eq, values_afterChar htold, ← handle_eq, profiles_afterHand]
  exact handle_tableOf (fun _ => rfl) huuid

/-- The handle that is found is that of the last attribute of the type, if there is one. -/
theorem isValue_valueHandle_iff {peer : Peer} {uuid : UInt16} :
    peer.IsValue uuid (peer.valueHandle uuid) ↔ peer.ValueInPlace uuid := by
  rw [Peer.ValueInPlace, Peer.valueHandle]
  cases peer.attributeOf uuid with
  | none =>
    refine iff_of_false (fun h => h.ne_zero rfl) ?_
    rintro ⟨a, ha, -⟩
    cases ha
  | some a => simp

/-- The handle that notifications are switched on at is the one behind it. -/
theorem isConfiguration_iff {peer : Peer} {uuid : UInt16} :
    peer.IsConfiguration uuid
        (if peer.valueHandle uuid ≠ 0 then peer.valueHandle uuid + 1 else peer.valueHandle uuid) ↔
      peer.ConfigurationInPlace uuid := by
  rw [Peer.ConfigurationInPlace]
  cases hfound : peer.attributeOf uuid with
  | none =>
    have hvalue : peer.valueHandle uuid = 0 := by rw [Peer.valueHandle, hfound]; rfl
    rw [hvalue]
    refine iff_of_false (fun h => h.ne_zero rfl) ?_
    rintro ⟨a, ha, -⟩
    cases ha
  | some a =>
    have hvalue : peer.valueHandle uuid = a.handle := by rw [Peer.valueHandle, hfound]; rfl
    have hpos : a.handle ≠ 0 :=
      (UInt16.ne_of_lt (peer.pos a (Peer.mem_of_attributeOf hfound).1)).symm
    rw [hvalue, if_pos hpos]
    constructor
    · intro h
      refine ⟨a, rfl, fun hlast => ?_, h⟩
      -- behind the last handle comes 0
      rw [hlast] at h
      exact h.ne_zero rfl
    · rintro ⟨b, hb, -, h⟩
      obtain rfl := Option.some.inj hb
      exact h

/-- **Where the operations of vecs go.** After both discovery phases, for every table of the peer,
every outcome of the second phase and every type of vecs: the request of `vecs_request`, and that of
`vecs_write` if it has data, go to the value of the characteristic and to nothing that belongs to
another one exactly when the last attribute of the type is in its place; the write of `vecs_notify`
goes to the Client Characteristic Configuration of the characteristic exactly when this is right
behind that attribute. -/
theorem operations_addressed_iff (peer : Peer) {v : Statics} (hv : v.profiles = initialProfiles)
    {told : List Event} (htold : peer.ToldByChar told) {uuid : UInt16} (huuid : uuid ∈ vecsUuids)
    (data : List UInt8) (enable : Bool) (buflen : Nat) :
    let table := (afterEvents v (peer.handEvents ++ told)).profiles
    ((∀ call ∈ vecsRequest table uuid, peer.IsValue uuid (addressOf (call.begin buflen).1)) ↔
        peer.ValueInPlace uuid) ∧
      ((∀ call ∈ vecsWrite table uuid data, peer.IsValue uuid (addressOf (call.begin buflen).1)) ↔
        data = [] ∨ peer.ValueInPlace uuid) ∧
      ((∀ call ∈ vecsNotify table uuid enable,
          peer.IsConfiguration uuid (addressOf (call.begin buflen).1)) ↔
        peer.ConfigurationInPlace uuid) := by
  dsimp only
  have hhandle := handle_afterDiscoveries peer hv htold huuid
  generalize (afterEvents v (peer.handEvents ++ told)).profiles = table at hhandle
  refine ⟨?_, ?_, ?_⟩
  · rw [vecsRequest, List.forall_mem_singleton, addressOf_request, hhandle,
      isValue_valueHandle_iff]
  · rw [vecsWrite]
    split
    · rename_i hdata
      exact iff_of_true nofun (.inl hdata)
    · rename_i hdata
      rw [List.forall_mem_singleton, addressOf_write, hhandle, isValue_valueHandle_iff,
        or_iff_right hdata]
  · rw [vecsNotify, List.forall_mem_singleton, addressOf_write, handleNotify, hhandle]
    exact isConfiguration_iff

theorem operations_addressed_iff_samplePeer :
    let table := (afterEvents Statics.init
      (samplePeer.handEvents ++ charEvents samplePeer.declarations)).profiles
    (∀ call ∈ vecsRequest table 0xffe1,
        samplePeer.IsValue 0xffe1 (addressOf (call.begin 23).1)) ∧
      ∀ call ∈ vecsNotify table 0xffe1 true,
        samplePeer.IsConfiguration 0xffe1 (addressOf (call.begin 23).1) := by
  have addressed := operations_addressed_iff samplePeer (v := Statics.init) rfl
    (.reported (List.Sublist.refl _)) (show 0xffe1 ∈ vecsUuids by decide) [] true 23
  refine ⟨addressed.1.mpr ?_, addressed.2.2.mpr ?_⟩
  · exact ⟨⟨5, .short 0xffe1⟩, by decide, by decide, ⟨4, 0x12, 5, .short 0xffe1⟩, by decide, rfl,
      rfl, by decide⟩
  · exact ⟨⟨5, .short 0xffe1⟩, by decide, by decide, by decide, ⟨4, 0x12, 5, .short 0xffe1⟩,
      by decide, rfl, by decide, by decide, by decide, by decide⟩

/-- A characteristic that the peer does not have is asked for, and told to notify, at handle 0. -/
theorem not_addressed_samplePeer :
    let table := (afterEvents Statics.init
      (samplePeer.handEvents ++ charEvents samplePeer.declarations)).profiles
    vecsRequest table 0xffd1 = [.request 0] ∧ vecsNotify table 0xffd1 true = [.write 0 [1, 0]] ∧
      ¬ (∀ call ∈ vecsRequest table 0xffd1,
        samplePeer.IsValue 0xffd1 (addressOf (call.begin 23).1)) ∧
      ¬ ∀ call ∈ vecsNotify table 0xffd1 true,
        samplePeer.IsConfiguration 0xffd1 (addressOf (call.begin 23).1) := by
  refine ⟨by decide, by decide, fun h => ?_, fun h => ?_⟩
  · exact (h (.request 0) (by decide)).ne_zero (by decide)
  · exact (h (.write 0 [1, 0]) (by decide)).ne_zero (by decide)

end Libble.Vecs
