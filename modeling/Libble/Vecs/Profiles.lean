import Libble.Gatt.Discovery
import Libble.Vecs.Handler

/-!
# The table that vecs builds

The two discoveries tell the event handler of vecs the attributes of the peer and then its
characteristic declarations. This file says which table the handler makes of them. The first phase
leaves the handle of the last attribute of each type, whatever else there is; the second phase adds
what the declarations say that it tells of, if no two of them share their value.

## Main definitions

* `Vecs.Peer`: an attribute table with its characteristic declarations.
* `Vecs.Peer.Regular`: the tables whose declarations belong to the attributes.
* `Vecs.Peer.handEvents`, `Vecs.Peer.ToldByChar`: what the discoveries report.
* `Vecs.Peer.row`: what the handler makes of a type.
* `Vecs.Peer.Exact`: a table is the peer's.

## Main results

* `Vecs.profiles_afterHand`: the table after the first phase.
* `Vecs.profiles_afterChar`: the table after both phases.
* `Vecs.exact_iff`: when it is the peer's.
-/

namespace Libble.Vecs

open Att Gatt

/-- The attributes of a peer, and the values of those that are characteristic declarations. -/
structure Peer where
  attributes : List Attribute
  declarations : List Declaration
  ascending : attributes.Pairwise (·.handle < ·.handle)
  pos : ∀ a ∈ attributes, 0 < a.handle
  declared : attributes.filter (·.type = .short gattCharacUuid) =
    declarations.map fun d => ⟨d.handle, .short gattCharacUuid⟩

namespace Peer

variable (peer : Peer)

/-- Every type of vecs occurs at most once, and every declaration has an attribute of its type for
its value, which it shares with no other declaration. -/
structure Regular : Prop where
  once : ∀ a ∈ peer.attributes, ∀ b ∈ peer.attributes, ∀ uuid ∈ vecsUuids,
    a.type = .short uuid → b.type = .short uuid → a = b
  valued : ∀ d ∈ peer.declarations, ⟨d.valueHandle, d.uuid⟩ ∈ peer.attributes
  unshared : peer.declarations.Pairwise fun d e => d.valueHandle ≠ e.valueHandle

/-- The events of `lble_discover_hand`: those about the attributes, or the error that there are
none. -/
def handEvents : List Event := Gatt.handEvents peer.attributes

/-- What may be the events of `lble_discover_char`: those about some of the declarations, or an
error. Which ones it depends on where the answers end. -/
inductive ToldByChar : List Event → Prop
  | reported {ds : List Declaration} (sublist : ds.Sublist peer.declarations) :
    ToldByChar (Gatt.charEvents ds)
  | failed (ecode : UInt8) : ToldByChar [errorEvent ecode]

/-- The last attribute of a 16-bit type. -/
def attributeOf (uuid : UInt16) : Option Attribute :=
  (peer.attributes.filter (·.type = .short uuid)).getLast?

/-- The handle of the last attribute of a 16-bit type, 0 if there is none. -/
def valueHandle (uuid : UInt16) : UInt16 := ((peer.attributeOf uuid).map Attribute.handle).getD 0

/-- What an entry of the table is to say. -/
structure Describes (e : CharInfo) : Prop where
  found : ∀ a ∈ peer.attributes, a.type = .short e.uuid → e.valueHandle = a.handle
  missing : (∀ a ∈ peer.attributes, a.type ≠ .short e.uuid) → e.valueHandle = 0
  declared : ∀ d ∈ peer.declarations, d.valueHandle = e.valueHandle →
    e.properties = d.properties ∧ e.handle = d.handle
  undeclared : (∀ d ∈ peer.declarations, d.valueHandle ≠ e.valueHandle) →
    e.properties = 0 ∧ e.handle = 0

/-- The table is the peer's: every entry describes it, and on the part that was found `handle` and
`profile` are inverse to each other. -/
structure Exact (table : List CharInfo) : Prop where
  uuids : table.map CharInfo.uuid = vecsUuids
  describes : ∀ e ∈ table, peer.Describes e
  profile_handle : ∀ u, handle table u ≠ 0 → profile table (handle table u) = u
  handle_profile : ∀ h, h ≠ 0 → profile table h ≠ 0 → handle table (profile table h) = h

variable {peer}

/-- An attribute is known by its handle. -/
theorem eq_of_handle_eq {a b : Attribute} (ha : a ∈ peer.attributes) (hb : b ∈ peer.attributes)
    (h : a.handle = b.handle) : a = b := by
  have hnodup : (peer.attributes.map Attribute.handle).Nodup :=
    List.pairwise_map.mpr (peer.ascending.imp fun hlt => UInt16.ne_of_lt hlt)
  exact List.inj_on_of_nodup_map hnodup ha hb h

theorem mem_of_attributeOf {uuid : UInt16} {a : Attribute} (h : peer.attributeOf uuid = some a) :
    a ∈ peer.attributes ∧ a.type = .short uuid := by
  have hmem := List.mem_of_getLast? h
  rw [List.mem_filter, decide_eq_true_eq] at hmem
  exact hmem

theorem attributeOf_eq_none {uuid : UInt16} (h : peer.attributeOf uuid = none) :
    ∀ a ∈ peer.attributes, a.type ≠ .short uuid := by
  intro a ha htype
  have hnil := List.getLast?_eq_none_iff.mp h
  exact List.not_mem_nil (hnil ▸ List.mem_filter.mpr ⟨ha, decide_eq_true htype⟩)

/-- A value handle that was found is the handle of an attribute. -/
theorem attribute_of_valueHandle {uuid : UInt16} (h : peer.valueHandle uuid ≠ 0) :
    ⟨peer.valueHandle uuid, .short uuid⟩ ∈ peer.attributes := by
  cases hfound : peer.attributeOf uuid with
  | none => exact absurd (by rw [valueHandle, hfound]; rfl) h
  | some a =>
    obtain ⟨hmem, htype⟩ := mem_of_attributeOf hfound
    have hvalue : peer.valueHandle uuid = a.handle := by rw [valueHandle, hfound]; rfl
    rw [hvalue, ← htype]
    exact hmem

/-- Two types do not have the same value handle. -/
theorem valueHandle_inj {u v : UInt16} (hu : peer.valueHandle u ≠ 0)
    (h : peer.valueHandle u = peer.valueHandle v) : u = v := by
  have hv : peer.valueHandle v ≠ 0 := h ▸ hu
  have := eq_of_handle_eq (attribute_of_valueHandle hu) (attribute_of_valueHandle hv) h
  exact Uuid.short.inj (Attribute.mk.inj this).2

end Peer

/-! ### The first phase -/

theorem tableOf_congr {row row' : UInt16 → CharInfo} (h : ∀ u ∈ vecsUuids, row u = row' u) :
    tableOf row = tableOf row' := List.map_congr_left h

/-- The end marker changes the progress counter only. -/
theorem profiles_marker (v : Statics) (valueHandle : UInt16) :
    (afterEvents v [.uuid valueHandle none]).profiles = v.profiles := by
  simp only [afterEvents, List.foldl_cons, List.foldl_nil, notifyHandler]
  split
  · rfl
  · rfl

/-- The handle of the last attribute of a type. -/
def lastHandle (l : List Attribute) (uuid : UInt16) : UInt16 :=
  (((l.filter (·.type = .short uuid)).getLast?).map Attribute.handle).getD 0

theorem lastHandle_concat (l : List Attribute) (a : Attribute) (uuid : UInt16) :
    lastHandle (l ++ [a]) uuid = if a.type = .short uuid then a.handle else lastHandle l uuid := by
  rw [lastHandle, List.filter_append, List.getLast?_append]
  by_cases htype : a.type = .short uuid
  · have hfilter : [a].filter (·.type = .short uuid) = [a] := by simp [htype]
    rw [hfilter, if_pos htype]
    rfl
  · have hfilter : [a].filter (·.type = .short uuid) = [] := by simp [htype]
    rw [hfilter, if_neg htype]
    rfl

/-- The events about attributes leave the handle of the last attribute of each type. -/
theorem afterEvents_attributes (discover : UInt8) (l : List Attribute) :
    afterEvents ⟨initialProfiles, discover⟩ (l.map Attribute.event) =
      ⟨tableOf fun u => ⟨u, 0, 0, lastHandle l u⟩, discover⟩ := by
  induction l using List.reverseRecOn with
  | nil => rfl
  | append_singleton l a ih =>
    rw [List.map_append, afterEvents_append, ih]
    refine congrArg (Statics.mk · discover) ?_
    show learn (tableOf fun u => ⟨u, 0, 0, lastHandle l u⟩) a.handle
      ⟨a.type.value16, 0, 0, a.handle⟩ = tableOf fun u => ⟨u, 0, 0, lastHandle (l ++ [a]) u⟩
    by_cases hzero : a.type.value16 = 0
    · rw [hzero, learn_other fun _ => ⟨rfl, rfl⟩]
      refine tableOf_congr fun u hu => ?_
      have htype : a.type ≠ .short u := by
        intro htype
        rw [htype] at hzero
        exact ne_zero_of_mem hu hzero
      rw [lastHandle_concat, if_neg htype]
    · obtain ⟨v, hv⟩ : ∃ v, a.type = .short v := by
        cases htype : a.type with
        | short v => exact ⟨v, rfl⟩
        | long bytes => exact absurd (by rw [htype]; rfl) hzero
      rw [learn_type (fun _ => rfl) hzero]
      refine tableOf_congr fun u _ => ?_
      have hvalue : a.type.value16 = v := by rw [hv]; rfl
      rw [lastHandle_concat, hv]
      simp only [Uuid.value16, Uuid.short.injEq, eq_comm (a := u)]
      split
      · rfl
      · rfl

/-- **The first phase.** After the events of `lble_discover_hand` the table has the handle of the
last attribute of each type, whatever the table of the peer. -/
theorem profiles_afterHand (peer : Peer) (discover : UInt8) :
    (afterEvents ⟨initialProfiles, discover⟩ peer.handEvents).profiles =
      tableOf fun u => ⟨u, 0, 0, peer.valueHandle u⟩ := by
  rw [Peer.handEvents, Gatt.handEvents]
  split
  · rename_i hnil
    have hevents : (afterEvents ⟨initialProfiles, discover⟩
        (charDescCb ecodeAttrNotFound (peer.attributes.map Attribute.desc))).profiles =
        initialProfiles := rfl
    rw [hevents]
    refine tableOf_congr fun u _ => ?_
    rw [Peer.valueHandle, Peer.attributeOf, hnil]
    rfl
  · rw [Attribute.charDescCb_map, afterEvents_append, profiles_marker, afterEvents_attributes]
    rfl

/-! ### The second phase -/

/-- The row of a type with a value handle, after some declarations. -/
def rowAfter (ds : List Declaration) (uuid valueHandle : UInt16) : CharInfo where
  uuid := uuid
  properties := ((ds.find? (·.valueHandle = valueHandle)).map Declaration.properties).getD 0
  handle := ((ds.find? (·.valueHandle = valueHandle)).map Declaration.handle).getD 0
  valueHandle := valueHandle

theorem rowAfter_concat_of_ne {ds : List Declaration} {d : Declaration} {uuid h : UInt16}
    (hne : d.valueHandle ≠ h) : rowAfter (ds ++ [d]) uuid h = rowAfter ds uuid h := by
  have hfind : [d].find? (·.valueHandle = h) = none := by simp [hne]
  simp only [rowAfter, List.find?_append, hfind, Option.or_none]

theorem rowAfter_concat_of_eq {ds : List Declaration} {d : Declaration} {uuid : UInt16}
    (fresh : ∀ e ∈ ds, e.valueHandle ≠ d.valueHandle) :
    rowAfter (ds ++ [d]) uuid d.valueHandle =
      { rowAfter ds uuid d.valueHandle with properties := d.properties, handle := d.handle } := by
  have hnone : ds.find? (·.valueHandle = d.valueHandle) = none :=
    List.find?_eq_none.mpr fun e he => by simpa using fresh e he
  have hfind : [d].find? (·.valueHandle = d.valueHandle) = some d := by simp
  simp only [rowAfter, List.find?_append, hnone, hfind, Option.none_or, Option.map_some,
    Option.getD_some]

/-- The events about declarations that share no values, when the value handles of the types are
different. -/
theorem afterEvents_declarations {f : UInt16 → UInt16}
    (inj : ∀ u v, f u ≠ 0 → f u = f v → u = v) (discover : UInt8) (ds : List Declaration)
    (pos : ∀ d ∈ ds, d.valueHandle ≠ 0)
    (unshared : ds.Pairwise fun d e => d.valueHandle ≠ e.valueHandle) :
    afterEvents ⟨tableOf fun u => ⟨u, 0, 0, f u⟩, discover⟩ (ds.map Declaration.event) =
      ⟨tableOf fun u => rowAfter ds u (f u), discover⟩ := by
  induction ds using List.reverseRecOn with
  | nil => rfl
  | append_singleton ds d ih =>
    obtain ⟨hds, -, hd⟩ := List.pairwise_append.mp unshared
    have hne : d.valueHandle ≠ 0 := pos d (List.mem_append_right _ List.mem_cons_self)
    have fresh : ∀ e ∈ ds, e.valueHandle ≠ d.valueHandle := fun e he =>
      hd e he d List.mem_cons_self
    rw [List.map_append, afterEvents_append, ih (fun e he => pos e (List.mem_append_left _ he)) hds]
    refine congrArg (Statics.mk · discover) ?_
    show learn (tableOf fun u => rowAfter ds u (f u)) d.handle
      ⟨0, d.properties, d.handle, d.valueHandle⟩ = tableOf fun u => rowAfter (ds ++ [d]) u (f u)
    rw [learn_declaration rfl fun u v hu hv => ?_]
    · refine tableOf_congr fun u _ => ?_
      by_cases hu : f u = d.valueHandle
      · rw [if_pos (show (rowAfter ds u (f u)).valueHandle = d.valueHandle from hu), hu,
          rowAfter_concat_of_eq fresh]
      · rw [if_neg (show ¬ (rowAfter ds u (f u)).valueHandle = d.valueHandle from hu),
          rowAfter_concat_of_ne (Ne.symm hu)]
    · have hu : f u = d.valueHandle := hu
      have hv : f v = d.valueHandle := hv
      exact inj u v (hu ▸ hne) (hu.trans hv.symm)

/-- The second phase does not move the value handles, whatever it tells. -/
theorem values_afterChar {peer : Peer} {events : List Event} (told : peer.ToldByChar events)
    (v : Statics) :
    (afterEvents v events).profiles.map (fun e => (e.uuid, e.valueHandle)) =
      v.profiles.map fun e => (e.uuid, e.valueHandle) := by
  have kept : ∀ (ds : List Declaration) (v : Statics),
      (afterEvents v (ds.map Declaration.event)).profiles.map (fun e => (e.uuid, e.valueHandle)) =
        v.profiles.map fun e => (e.uuid, e.valueHandle) := by
    intro ds
    induction ds with
    | nil => exact fun _ => rfl
    | cons d ds ih =>
      intro v
      have hlearn : (learn v.profiles d.handle ⟨0, d.properties, d.handle, d.valueHandle⟩).map
          (fun e => (e.uuid, e.valueHandle)) = v.profiles.map fun e => (e.uuid, e.valueHandle) :=
        values_learn rfl
      exact (ih _).trans hlearn
  cases told with
  | failed ecode => rfl
  | @reported ds _ =>
    rw [Gatt.charEvents]
    split
    · rfl
    · rw [Declaration.charDiscoveredCb_map, afterEvents_append, profiles_marker, kept]

/-- The row of a type after both phases, when the second one has told of some declarations. -/
def Peer.row (peer : Peer) (ds : List Declaration) (uuid : UInt16) : CharInfo :=
  rowAfter ds uuid (peer.valueHandle uuid)

section Regular

variable {peer : Peer} {ds : List Declaration}

/-- After both phases the table says what the declarations say that were told of. -/
theorem profiles_afterChar (regular : peer.Regular) (sublist : ds.Sublist peer.declarations)
    (discover : UInt8) :
    (afterEvents ⟨initialProfiles, discover⟩ (peer.handEvents ++ Gatt.charEvents ds)).profiles =
      tableOf (peer.row ds) := by
  rw [afterEvents_append]
  have hhand := profiles_afterHand peer discover
  generalize afterEvents ⟨initialProfiles, discover⟩ peer.handEvents = v at hhand ⊢
  obtain ⟨profiles, discover⟩ := v
  obtain rfl : profiles = _ := hhand
  have pos : ∀ d ∈ ds, d.valueHandle ≠ 0 := fun d hd =>
    (UInt16.ne_of_lt (peer.pos _ (regular.valued d (sublist.subset hd)))).symm
  rw [Gatt.charEvents]
  split
  · rename_i hnil
    subst hnil
    rfl
  · rw [Declaration.charDiscoveredCb_map, afterEvents_append, profiles_marker,
      afterEvents_declarations (fun _ _ hu h => Peer.valueHandle_inj hu h) _ _ pos
        (regular.unshared.sublist sublist)]
    rfl

/-- An error of the second phase leaves the table as it was after the first one. -/
theorem profiles_afterError (peer : Peer) (discover ecode : UInt8) :
    (afterEvents ⟨initialProfiles, discover⟩ (peer.handEvents ++ [errorEvent ecode])).profiles =
      tableOf (peer.row []) := by
  rw [afterEvents_append]
  exact profiles_afterHand peer discover

/-! ### When the table is the peer's -/

namespace Peer

theorem declaration_pos {d : Declaration} (h : d ∈ peer.declarations) : 0 < d.handle := by
  have hmem : ⟨d.handle, .short gattCharacUuid⟩ ∈
      peer.attributes.filter (·.type = .short gattCharacUuid) :=
    peer.declared ▸ List.mem_map_of_mem (f := fun d : Declaration => _) h
  exact peer.pos _ (List.mem_of_mem_filter hmem)

/-- A type that was found has the value handle of its attribute. -/
theorem Regular.valueHandle_eq (regular : peer.Regular) {uuid : UInt16} (h : uuid ∈ vecsUuids)
    {a : Attribute} (ha : a ∈ peer.attributes) (htype : a.type = .short uuid) :
    peer.valueHandle uuid = a.handle := by
  cases hfound : peer.attributeOf uuid with
  | none => exact absurd htype (attributeOf_eq_none hfound a ha)
  | some b =>
    obtain ⟨hb, hbtype⟩ := mem_of_attributeOf hfound
    rw [valueHandle, hfound, regular.once a ha b hb uuid h htype hbtype]
    rfl

/-- The declarations with the value handle of a type are of this type. -/
theorem Regular.uuid_eq (regular : peer.Regular) {uuid : UInt16} {d : Declaration}
    (hd : d ∈ peer.declarations) (hvalue : d.valueHandle = peer.valueHandle uuid) :
    d.uuid = .short uuid := by
  have hmem := regular.valued d hd
  have hne : peer.valueHandle uuid ≠ 0 := hvalue ▸ (UInt16.ne_of_lt (peer.pos _ hmem)).symm
  have := eq_of_handle_eq hmem (attribute_of_valueHandle hne) hvalue
  exact (Attribute.mk.inj this).2

/-- The row of a type says what the declaration with its value handle says, if this was told of. -/
theorem Regular.row_eq (regular : peer.Regular) (sublist : ds.Sublist peer.declarations)
    {uuid : UInt16} {d : Declaration} (hd : d ∈ ds)
    (hvalue : d.valueHandle = peer.valueHandle uuid) :
    (peer.row ds uuid).properties = d.properties ∧ (peer.row ds uuid).handle = d.handle := by
  have hnodup : (peer.declarations.map Declaration.valueHandle).Nodup :=
    List.pairwise_map.mpr regular.unshared
  have hfound : ds.find? (·.valueHandle = peer.valueHandle uuid) = some d := by
    refine find?_eq_some_of_unique hd (decide_eq_true hvalue) fun e he hp => ?_
    exact List.inj_on_of_nodup_map hnodup (sublist.subset he) (sublist.subset hd)
      ((of_decide_eq_true hp).trans hvalue.symm)
  simp only [row, rowAfter, hfound, Option.map_some, Option.getD_some, and_self]

/-- It says nothing if none with its value handle was told of. -/
theorem row_eq_zero {uuid : UInt16} (hnone : ∀ d ∈ ds, d.valueHandle ≠ peer.valueHandle uuid) :
    (peer.row ds uuid).properties = 0 ∧ (peer.row ds uuid).handle = 0 := by
  have hfound : ds.find? (·.valueHandle = peer.valueHandle uuid) = none :=
    List.find?_eq_none.mpr fun d hd hp => hnone d hd (of_decide_eq_true hp)
  simp only [row, rowAfter, hfound, Option.map_none, Option.getD_none, and_self]

/-- The row of a type describes it, if the declarations of this type were told of. -/
theorem Regular.describes (regular : peer.Regular) (sublist : ds.Sublist peer.declarations)
    {uuid : UInt16} (h : uuid ∈ vecsUuids)
    (told : ∀ d ∈ peer.declarations, d.uuid = .short uuid → d ∈ ds) :
    peer.Describes (peer.row ds uuid) where
  found _ ha htype := regular.valueHandle_eq h ha htype
  missing hnone := by
    by_contra hne
    exact hnone _ (attribute_of_valueHandle hne) rfl
  declared _ hd hvalue := regular.row_eq sublist (told _ hd (regular.uuid_eq hd hvalue)) hvalue
  undeclared hnone := row_eq_zero fun d hd => hnone d (sublist.subset hd)

end Peer

/-- The types that are found are found by their value handles. -/
theorem profile_tableOf {uuid : UInt16} (huuid : uuid ∈ vecsUuids)
    (h : peer.valueHandle uuid ≠ 0) :
    profile (tableOf (peer.row ds)) (peer.valueHandle uuid) = uuid := by
  have hfind : (tableOf (peer.row ds)).find? (fun e => e.valueHandle = peer.valueHandle uuid) =
      some (peer.row ds uuid) := by
    refine find?_eq_some_of_unique (List.mem_map_of_mem huuid) (decide_eq_true rfl)
      fun e he hp => ?_
    obtain ⟨v, -, rfl⟩ := List.mem_map.mp he
    have hvalue : peer.valueHandle v = peer.valueHandle uuid := of_decide_eq_true hp
    rw [Peer.valueHandle_inj h hvalue.symm]
  rw [profile, hfind]
  rfl

theorem profile_handle_tableOf {u : UInt16} (hu : handle (tableOf (peer.row ds)) u ≠ 0) :
    profile (tableOf (peer.row ds)) (handle (tableOf (peer.row ds)) u) = u := by
  have huuid : ∀ u, (peer.row ds u).uuid = u := fun _ => rfl
  by_cases hmem : u ∈ vecsUuids
  · rw [handle_tableOf huuid hmem] at hu ⊢
    exact profile_tableOf hmem hu
  · exact absurd (handle_tableOf_of_notMem huuid hmem) hu

theorem handle_profile_tableOf {h : UInt16} (hp : profile (tableOf (peer.row ds)) h ≠ 0) :
    handle (tableOf (peer.row ds)) (profile (tableOf (peer.row ds)) h) = h := by
  cases hfind : (tableOf (peer.row ds)).find? fun e => e.valueHandle = h with
  | none => exact absurd (by rw [profile, hfind]; rfl) hp
  | some e =>
    have hvalue := List.find?_some hfind
    obtain ⟨u, hu, rfl⟩ := List.mem_map.mp (List.mem_of_find?_eq_some hfind)
    have hprofile : profile (tableOf (peer.row ds)) h = u := by rw [profile, hfind]; rfl
    rw [hprofile, handle_tableOf (fun _ => rfl) hu]
    exact of_decide_eq_true hvalue

/-- **When the table is the peer's.** After the events of both discoveries of a regular peer, the
table is the peer's exactly when the declarations that were not told of are none of a type of
vecs. -/
theorem exact_iff (regular : peer.Regular) (sublist : ds.Sublist peer.declarations) :
    peer.Exact (tableOf (peer.row ds)) ↔
      ∀ d ∈ peer.declarations, d ∉ ds → ∀ uuid ∈ vecsUuids, d.uuid ≠ .short uuid := by
  constructor
  · intro exact d hd hnot uuid huuid htype
    have hvalue : peer.valueHandle uuid = d.valueHandle :=
      regular.valueHandle_eq huuid (regular.valued d hd) htype
    have hnodup : (peer.declarations.map Declaration.valueHandle).Nodup :=
      List.pairwise_map.mpr regular.unshared
    -- its row has the handle 0, which is not that of a declaration
    have hzero : (peer.row ds uuid).properties = 0 ∧ (peer.row ds uuid).handle = 0 :=
      Peer.row_eq_zero fun e he h => hnot (by
        rw [← List.inj_on_of_nodup_map hnodup (sublist.subset he) hd (h.trans hvalue)]
        exact he)
    have hdeclared := (exact.describes _ (List.mem_map_of_mem huuid)).declared d hd hvalue.symm
    exact UInt16.ne_of_lt (Peer.declaration_pos hd) (hzero.2.symm.trans hdeclared.2)
  · intro told
    refine ⟨rfl, fun e he => ?_, fun u hu => profile_handle_tableOf hu,
      fun h _ hp => handle_profile_tableOf hp⟩
    obtain ⟨uuid, huuid, rfl⟩ := List.mem_map.mp he
    exact regular.describes sublist huuid fun d hd htype =>
      not_not.mp fun hnot => told d hd hnot uuid huuid htype

end Regular

/-- A peer with one characteristic of vecs, a descriptor of it and an attribute of another type. -/
def samplePeer : Peer where
  attributes := [⟨1, .long (Vector.replicate 16 7)⟩, ⟨4, .short 0x2803⟩, ⟨5, .short 0xffe1⟩,
    ⟨6, .short 0x2902⟩]
  declarations := [⟨4, 0x12, 5, .short 0xffe1⟩]
  ascending := by decide
  pos := by decide
  declared := by decide

end Libble.Vecs
