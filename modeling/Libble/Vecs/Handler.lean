import Libble.Foundation.FirstMatch
import Libble.Gatt.Procedure

/-!
# The event handler of vecs

`src/vecs.c` is the library's own user: it knows ten characteristics of one kind of device by
their 16-bit types, and keeps a table of where the connected device has them. The table is filled
by `notify_handler` from the `EVENT_UUID` events of two discoveries, which it tells apart by a type
of 0. Both the table and the progress counter are static variables.

The texts that are printed are left out.

## Main definitions

* `Vecs.Statics`: the static variables.
* `Vecs.profile`, `Vecs.handle`: the two directions of the table.
* `Vecs.notifyHandler`: what the event handler does with an event.
* `Vecs.vecsRequest`, `Vecs.vecsWrite`, `Vecs.vecsNotify`: the operations of a user of vecs.

## Main results

* `Vecs.values_learn`: what an event leaves in the table as it is.
* `Vecs.learn_type`, `Vecs.learn_other`, `Vecs.learn_declaration`: what it changes.
-/

namespace Libble.Vecs

open Gatt

/-- The types of the ten characteristics, from `VECS_UUID_CHARGER_ADC` to
`VECS_UUID_MOTION_TEMP`. -/
def vecsUuids : List UInt16 :=
  [0xffd1, 0xffd2, 0xffd3, 0xffe1, 0xffe2, 0xfff1, 0xfff2, 0xfff3, 0xfff4, 0xfff5]

theorem nodup_vecsUuids : vecsUuids.Nodup := by decide

theorem ne_zero_of_mem {uuid : UInt16} (h : uuid ∈ vecsUuids) : uuid ≠ 0 := by
  rintro rfl
  exact absurd h (by decide)

/-- The static variables of `src/vecs.c` that outlive a session. -/
structure Statics where
  /-- `profiles` -/
  profiles : List CharInfo
  /-- `discover` in `notify_handler` -/
  discover : UInt8
  deriving DecidableEq, Repr

/-- `profiles` as it is initialised. -/
def initialProfiles : List CharInfo := vecsUuids.map fun uuid => ⟨uuid, 0, 0, 0⟩

/-- The static variables as they are initialised. -/
def Statics.init : Statics := ⟨initialProfiles, 2⟩

/-- `profile` -/
def profile (profiles : List CharInfo) (handle : UInt16) : UInt16 :=
  ((profiles.find? fun e => e.valueHandle = handle).map CharInfo.uuid).getD 0

/-- `handle` -/
def handle (profiles : List CharInfo) (profile : UInt16) : UInt16 :=
  ((profiles.find? fun e => e.uuid = profile).map CharInfo.valueHandle).getD 0

/-- `handle_notify` -/
def handleNotify (profiles : List CharInfo) (profile : UInt16) : UInt16 :=
  let h := handle profiles profile
  if h ≠ 0 then h + 1 else h

/-- What `notify_handler` calls. -/
inductive HandlerCall
  /-- `lble_listen` -/
  | listen
  /-- `lble_discover_hand` -/
  | discoverHand
  /-- `lble_discover_char` -/
  | discoverChar
  /-- `m_connected` -/
  | connected
  /-- `m_notify` -/
  | notify (uuid : UInt16) (len : UInt8) (data : List UInt8)
  /-- `quit` -/
  | quit
  deriving DecidableEq, Repr

/-- `EVENT_UUID` with data: the first entry of the type, or with the value handle, is changed. -/
def learn (profiles : List CharInfo) (valueHandle : UInt16) (info : CharInfo) : List CharInfo :=
  if info.uuid ≠ 0 then
    updateFirst (fun e => e.uuid = info.uuid) (fun e => { e with valueHandle := valueHandle })
      profiles
  else
    updateFirst (fun e => e.valueHandle = info.valueHandle)
      (fun e => { e with properties := info.properties, handle := info.handle }) profiles

/-- `notify_handler` -/
def notifyHandler (v : Statics) : Event → Statics × List HandlerCall
  | .stateChanged .connected => (v, [.listen, .discoverHand])
  | .stateChanged .disconnected => (v, [.quit])
  | .stateChanged .connecting => (v, [])
  | .dataToRead => (v, [])
  | .dataToWrite => (v, [])
  | .errorOccured _ => (v, [.quit])
  | .device valueHandle len data => (v, [.notify (profile v.profiles valueHandle) len data])
  | .uuid valueHandle (some info) =>
    ({ v with profiles := learn v.profiles valueHandle info }, [])
  | .uuid _ none =>
    if v.discover = 0 then (v, [])
    else
      let discover := v.discover - 1
      ({ v with discover := discover }, if discover ≠ 0 then [.discoverChar] else [.connected])

/-- The static variables after some events. -/
def afterEvents (v : Statics) (events : List Event) : Statics :=
  events.foldl (fun v event => (notifyHandler v event).1) v

theorem afterEvents_append (v : Statics) (es es' : List Event) :
    afterEvents v (es ++ es') = afterEvents (afterEvents v es) es' := List.foldl_append

/-- `vecs_request` -/
def vecsRequest (profiles : List CharInfo) (uuid : UInt16) : List Call :=
  [.request (handle profiles uuid)]

/-- `vecs_write`; `lble_write` does nothing without data. -/
def vecsWrite (profiles : List CharInfo) (uuid : UInt16) (data : List UInt8) : List Call :=
  if data = [] then [] else [.write (handle profiles uuid) data]

/-- `vecs_notify` -/
def vecsNotify (profiles : List CharInfo) (uuid : UInt16) (enable : Bool) : List Call :=
  [.write (handleNotify profiles uuid) (if enable then [1, 0] else [0, 0])]

/-! ### What an event does to the table -/

section Learn

variable {profiles : List CharInfo} {valueHandle : UInt16} {info : CharInfo}

/-- An event without a type does not move a value handle. -/
theorem values_learn (h : info.uuid = 0) :
    (learn profiles valueHandle info).map (fun e => (e.uuid, e.valueHandle)) =
      profiles.map fun e => (e.uuid, e.valueHandle) := by
  rw [learn, if_neg (not_not.mpr h)]
  exact map_updateFirst fun _ _ => rfl

end Learn

/-- The table has a row for each of the types, in their order, as `row` says. -/
def tableOf (row : UInt16 → CharInfo) : List CharInfo := vecsUuids.map row

section Rows

variable {row : UInt16 → CharInfo}

/-- An event with a type sets the value handle of its row. -/
theorem learn_type (huuid : ∀ u, (row u).uuid = u) {valueHandle : UInt16} {info : CharInfo}
    (h : info.uuid ≠ 0) :
    learn (tableOf row) valueHandle info =
      tableOf fun u =>
        if u = info.uuid then { row u with valueHandle := valueHandle } else row u := by
  rw [learn, if_pos h, updateFirst_eq_map, tableOf, List.map_map]
  · refine List.map_congr_left fun u _ => ?_
    simp [huuid]
  · refine List.pairwise_map.mpr (nodup_vecsUuids.imp fun hne => ?_)
    simp only [huuid, decide_eq_true_eq]
    exact fun ⟨hu, hv⟩ => hne (hu.trans hv.symm)

/-- An event about another attribute, before anything is known about declarations. -/
theorem learn_other (hempty : ∀ u, (row u).properties = 0 ∧ (row u).handle = 0)
    {valueHandle h : UInt16} : learn (tableOf row) valueHandle ⟨0, 0, 0, h⟩ = tableOf row := by
  rw [learn, if_neg (not_not.mpr rfl)]
  refine updateFirst_eq_self fun e he _ => ?_
  obtain ⟨u, -, rfl⟩ := List.mem_map.mp he
  obtain ⟨hproperties, hhandle⟩ := hempty u
  rw [← hproperties, ← hhandle]

/-- An event about a declaration sets the properties and the handle of the row with its value
handle. -/
theorem learn_declaration {info : CharInfo} (h : info.uuid = 0)
    (unique : ∀ u v, (row u).valueHandle = info.valueHandle →
      (row v).valueHandle = info.valueHandle → u = v) {valueHandle : UInt16} :
    learn (tableOf row) valueHandle info =
      tableOf fun u => if (row u).valueHandle = info.valueHandle then
        { row u with properties := info.properties, handle := info.handle } else row u := by
  rw [learn, if_neg (not_not.mpr h), updateFirst_eq_map, tableOf, List.map_map]
  · refine List.map_congr_left fun u _ => ?_
    simp
  · refine List.pairwise_map.mpr (nodup_vecsUuids.imp fun hne => ?_)
    simp only [decide_eq_true_eq]
    exact fun ⟨hu, hv⟩ => hne (unique _ _ hu hv)

/-- A type is looked up in its row. -/
theorem handle_tableOf (huuid : ∀ u, (row u).uuid = u) {uuid : UInt16} (h : uuid ∈ vecsUuids) :
    handle (tableOf row) uuid = (row uuid).valueHandle := by
  have hfind : (tableOf row).find? (fun e => e.uuid = uuid) = some (row uuid) := by
    refine find?_eq_some_of_unique (List.mem_map_of_mem h) (by simp [huuid]) fun e he hp => ?_
    obtain ⟨u, -, rfl⟩ := List.mem_map.mp he
    obtain rfl : u = uuid := (huuid u).symm.trans (of_decide_eq_true hp)
    rfl
  rw [handle, hfind]
  rfl

/-- Other types are not known. -/
theorem handle_tableOf_of_notMem (huuid : ∀ u, (row u).uuid = u) {uuid : UInt16}
    (h : uuid ∉ vecsUuids) : handle (tableOf row) uuid = 0 := by
  have hfind : (tableOf row).find? (fun e => e.uuid = uuid) = none := by
    refine List.find?_eq_none.mpr fun e he hp => h ?_
    obtain ⟨u, hu, rfl⟩ := List.mem_map.mp he
    exact (of_decide_eq_true hp : (row u).uuid = uuid) ▸ (huuid u).symm ▸ hu
  rw [handle, hfind]
  rfl

end Rows

end Libble.Vecs
