import Libble.Foundation.LabelledMachine
import Libble.Vecs.Handler

/-!
# Sessions of vecs in one process

A program may call `vecs_connect` several times, one call after another. Every call makes a handle
of its own and ends at any point, by an error, by the loss of the connection or by a signal. The
table `profiles` and the counter `discover` of `notify_handler` are static, and nothing sets them
back. So a session that begins where an earlier one stopped between its two discoveries takes the
end of its first discovery for the end of both.

When a session ends its handle is freed, but neither the attempt to connect nor a discovery that is
still going on is cancelled. Their callbacks may run while a later session waits for its own: they
call the same `notify_handler`, with the handle of the session that has ended. The handler changes
the static variables whatever the handle is, and what it calls with it may have a result later on.

A session is followed from report to report: the result of a discovery is one error, or one block
of events that ends with the end marker.

## Main definitions

* `Vecs.Session`: a session, with what it waits for and what happened while it went on.
* `Vecs.Process`, `Vecs.Process.machine`: the sessions of a process.
* `Vecs.SetUp`: what a session has to do.
* `Vecs.Process.Afresh`: the guard.
* `Vecs.Phase`: how far a session is.

## Main results

* `Vecs.setUp_iff`: when all sessions are set up afresh.
* `Vecs.not_setUp_abandonedRun`: a session after one that was stopped between its discoveries.
-/

namespace Libble.Vecs

open Att Gatt

/-! ### Reports -/

/-- Where an event comes from: one of the two discoveries of the session, something else in it, or
an earlier session. -/
inductive Origin
  | hand
  | char
  | other
  | late
  deriving DecidableEq, Repr

/-- What happens in a session: an event is delivered, or the event handler calls a function when
`profiles` is this table. -/
inductive Act
  | event (origin : Origin) (event : Event)
  | called (call : HandlerCall) (profiles : List CharInfo)
  deriving DecidableEq, Repr

/-- The call of a function. -/
def Act.isCall (call : HandlerCall) : Act → Bool
  | called call' _ => call' = call
  | _ => false

/-- The event is delivered neither by a discovery nor when the connection is established. -/
def IsOther : Event → Prop
  | .uuid .. | .stateChanged .connected => False
  | _ => True

instance (event : Event) : Decidable (IsOther event) := by
  unfold IsOther
  split <;> infer_instance

/-- What is reported to the application with the handle of a session. -/
inductive Report
  /-- The state `STATE_CONNECTED` is delivered. -/
  | established
  /-- The handle discovery calls `char_desc_cb`. -/
  | hand (status : UInt8) (descriptors : List GattDesc)
  /-- The characteristic discovery calls `char_discovered_cb`. -/
  | char (status : UInt8) (characteristics : List GattChar)
  /-- Another event is delivered. -/
  | other (event : Event)
  deriving DecidableEq, Repr

namespace Report

/-- The events that are delivered. -/
def events : Report → List Event
  | established => [.stateChanged .connected]
  | hand status descriptors => charDescCb status descriptors
  | char status characteristics => charDiscoveredCb status characteristics
  | other event => [event]

/-- Where they come from, in their own session. -/
def origin : Report → Origin
  | hand .. => .hand
  | char .. => .char
  | _ => .other

/-- They end with the end marker. -/
def ends : Report → Bool
  | hand status _ | char status _ => status = 0
  | _ => false

end Report

/-- What happens when events are delivered: `notify_handler` handles one after another. -/
def heard (origin : Origin) : Statics → List Event → List Act
  | _, [] => []
  | v, event :: events =>
    .event origin event ::
      (notifyHandler v event).2.map (.called · (notifyHandler v event).1.profiles) ++
        heard origin (notifyHandler v event).1 events

/-! ### Sessions -/

/-- A call of `vecs_connect` from `lble_connect` on. -/
structure Session where
  /-- `STATE_CONNECTED` has been delivered. -/
  established : Bool
  /-- The handle discovery has been started and has not had its result delivered. -/
  hand : Bool
  /-- The characteristic discovery has been started and has not had its result delivered. -/
  char : Bool
  /-- What happened while the session went on. -/
  log : List Act
  deriving DecidableEq, Repr

namespace Session

/-- A session begins. -/
def start : Session where
  established := false
  hand := false
  char := false
  log := []

/-- What may be reported next. -/
def pending (e : Session) : Report → Bool
  | .established => !e.established
  | .hand .. => e.hand
  | .char .. => e.char
  | .other event => IsOther event

/-- It is reported, and waited for no longer. -/
def take (e : Session) : Report → Session
  | .established => { e with established := true }
  | .hand .. => { e with hand := false }
  | .char .. => { e with char := false }
  | .other _ => e

/-- The event handler starts discoveries with the handle of the session. -/
def launch (e : Session) (acts : List Act) : Session :=
  { e with
    hand := e.hand || acts.any (Act.isCall .discoverHand)
    char := e.char || acts.any (Act.isCall .discoverChar) }

/-- Something happens while the session goes on. -/
def hear (e : Session) (acts : List Act) : Session := { e with log := e.log ++ acts }

end Session

/-- The static variables, the session that goes on, and the earlier ones. -/
structure Process where
  statics : Statics
  session : Option Session
  past : List Session
  deriving DecidableEq, Repr

namespace Process

/-- The process starts. -/
def start : Process := ⟨.init, none, []⟩

/-- What happened in the sessions so far. -/
def logs (s : Process) : List (List Act) := (s.past ++ s.session.toList).map Session.log

/-- The steps. -/
inductive Label
  /-- `vecs_connect` is called. -/
  | begin
  /-- Something is reported with the handle of the session. -/
  | deliver (report : Report)
  /-- Something is reported with the handle of an earlier session. -/
  | late (i : Nat) (report : Report)
  /-- `vecs_connect` returns. -/
  | finish
  deriving DecidableEq, Repr

/-- One step. -/
def step (s : Process) : Label → Option Process
  | .begin => match s.session with
    | none => some { s with session := some .start }
    | some _ => none
  | .deliver report => match s.session with
    | some e => if e.pending report then
        let acts := heard report.origin s.statics report.events
        some { s with
          statics := afterEvents s.statics report.events
          session := some (((e.take report).launch acts).hear acts) }
      else none
    | none => none
  | .late i report => match s.session, s.past[i]? with
    | some e, some p => if p.pending report then
        let acts := heard .late s.statics report.events
        some { s with
          statics := afterEvents s.statics report.events
          session := some (e.hear acts)
          past := s.past.set i ((p.take report).launch acts) }
      else none
    | _, _ => none
  | .finish => match s.session with
    | some e => some { s with session := none, past := s.past ++ [e] }
    | none => none

/-- A process as a labelled machine. -/
def machine : LabelledMachine Process Label := ⟨step⟩

/-- While `discover` is 1 no end marker is delivered but that of the characteristic discovery of the
session. -/
def Afresh (s : Process) : Label → Prop
  | .deliver (.char ..) => True
  | .deliver report | .late _ report => report.ends = true → s.statics.discover ≠ 1
  | _ => True

instance (s : Process) (l : Label) : Decidable (s.Afresh l) := by
  unfold Afresh
  split <;> infer_instance

end Process

/-! ### What a session has to do -/

/-- The discovery whose end marker is delivered. -/
def Act.marker : Act → Option Origin
  | event origin (.uuid _ none) => some origin
  | _ => none

/-- The discovery has delivered its end marker. -/
def Marked (origin : Origin) (log : List Act) : Prop := ∃ a ∈ log, a.marker = some origin

/-- The value handle of an entry was reported for its type. -/
def Reported (log : List Act) (e : CharInfo) : Prop :=
  ∃ info, .event .hand (.uuid e.valueHandle (some info)) ∈ log ∧ info.uuid = e.uuid

/-- A session is set up afresh: `connected` is called at most once, after both end markers of the
session and with value handles that were reported in it, and it is called when both markers have
come. -/
structure SetUp (log : List Act) : Prop where
  once : log.countP (Act.isCall .connected) ≤ 1
  after : ∀ before profiles rest, log = before ++ .called .connected profiles :: rest →
    Marked .hand before ∧ Marked .char before ∧
      ∀ e ∈ profiles, e.valueHandle ≠ 0 → Reported before e
  whenever : Marked .hand log → Marked .char log → ∃ profiles, .called .connected profiles ∈ log

variable {log acts : List Act} {origin : Origin} {v v' : Statics} {e e' : Session} {event : Event}
  {events : List Event} {report : Report}

theorem Marked.mono (h : Marked origin log) : Marked origin (log ++ acts) := by
  obtain ⟨a, ha, hmarker⟩ := h
  exact ⟨a, List.mem_append_left _ ha, hmarker⟩

theorem Reported.mono {x : CharInfo} (h : Reported log x) : Reported (log ++ acts) x := by
  obtain ⟨info, hmem, huuid⟩ := h
  exact ⟨info, List.mem_append_left _ hmem, huuid⟩

theorem marked_append : Marked origin (log ++ acts) ↔ Marked origin log ∨ Marked origin acts := by
  simp only [Marked, List.mem_append, or_and_right, exists_or]

/-- `connected` is not called. -/
def Unconnected (log : List Act) : Prop := ∀ a ∈ log, a.isCall .connected = false

theorem Unconnected.append (h : Unconnected log) (h' : Unconnected acts) :
    Unconnected (log ++ acts) := List.forall_mem_append.mpr ⟨h, h'⟩

theorem Unconnected.not_mem (h : Unconnected log) (profiles : List CharInfo) :
    .called .connected profiles ∉ log := fun hmem => by cases h _ hmem

/-- A session without `connected` is set up if the characteristic discovery has not come to its
end. -/
theorem setUp_of_unconnected (h : Unconnected log) (hchar : ¬ Marked .char log) : SetUp log where
  once := by
    rw [List.countP_eq_zero.mpr fun a ha => Bool.eq_false_iff.mp (h a ha)]
    exact Nat.zero_le _
  after before profiles rest hlog :=
    absurd (hlog ▸ List.mem_append_right _ List.mem_cons_self) (h.not_mem profiles)
  whenever _ hmarked := absurd hmarked hchar

/-- What comes after `connected` keeps a session set up if it is not called again. -/
theorem SetUp.append (h : SetUp log) (hcalled : ∃ profiles, .called .connected profiles ∈ log)
    (unconnected : Unconnected acts) : SetUp (log ++ acts) where
  once := by
    rw [List.countP_append, List.countP_eq_zero.mpr fun a ha =>
      Bool.eq_false_iff.mp (unconnected a ha)]
    exact h.once
  after before profiles rest hlog := by
    rcases List.append_eq_append_iff.mp hlog with ⟨mid, rfl, hmid⟩ | ⟨mid, rfl, hmid⟩
    · exact absurd (hmid ▸ List.mem_append_right _ List.mem_cons_self)
        (unconnected.not_mem profiles)
    · cases mid with
      | nil =>
        have hmem : .called .connected profiles ∈ acts :=
          (List.nil_append acts).symm.trans hmid.symm ▸ List.mem_cons_self
        exact absurd hmem (unconnected.not_mem profiles)
      | cons a mid =>
        obtain ⟨rfl, -⟩ := List.cons.inj hmid
        exact h.after before profiles mid rfl
  whenever _ _ := by
    obtain ⟨profiles, hmem⟩ := hcalled
    exact ⟨profiles, List.mem_append_left _ hmem⟩

theorem eq_of_connected {before rest : List Act} {profiles profiles' : List CharInfo}
    (h : Unconnected log)
    (heq : log ++ [.called .connected profiles] = before ++ .called .connected profiles' :: rest) :
    before = log ∧ profiles' = profiles := by
  rcases List.eq_nil_or_concat rest with rfl | ⟨rest, a, rfl⟩
  · obtain ⟨hbefore, hlast⟩ := List.append_inj' heq rfl
    exact ⟨hbefore.symm, (Act.called.inj (List.singleton_inj.mp hlast)).2.symm⟩
  · have heq : log ++ [.called .connected profiles] =
        (before ++ .called .connected profiles' :: rest) ++ [a] := by simpa using heq
    obtain ⟨rfl, -⟩ := List.append_inj' heq rfl
    exact absurd (List.mem_append_right _ List.mem_cons_self) (h.not_mem profiles')

/-- The call of `connected` after both end markers. -/
theorem setUp_of_connected {profiles : List CharInfo} (h : Unconnected log)
    (hhand : Marked .hand log) (hchar : Marked .char log)
    (known : ∀ x ∈ profiles, x.valueHandle ≠ 0 → Reported log x) :
    SetUp (log ++ [.called .connected profiles]) where
  once := by
    rw [List.countP_append, List.countP_eq_zero.mpr fun a ha => Bool.eq_false_iff.mp (h a ha)]
    exact Nat.le_refl 1
  after before profiles' rest hlog := by
    obtain ⟨rfl, rfl⟩ := eq_of_connected h hlog
    exact ⟨hhand, hchar, known⟩
  whenever _ _ := ⟨profiles, List.mem_append_right _ List.mem_cons_self⟩

/-! ### What is delivered -/

theorem heard_append (origin : Origin) (v : Statics) (events events' : List Event) :
    heard origin v (events ++ events') =
      heard origin v events ++ heard origin (afterEvents v events) events' := by
  induction events generalizing v with
  | nil => rfl
  | cons event events ih =>
    rw [List.cons_append, heard, ih, heard, List.append_assoc]
    rfl

/-- The event is about an entry. -/
def IsEntry (event : Event) : Prop := ∃ valueHandle info, event = .uuid valueHandle (some info)

/-- The events about entries go to the log and to the table. -/
theorem heard_entries (origin : Origin) (entries : ∀ event ∈ events, IsEntry event) (v : Statics) :
    heard origin v events = events.map (.event origin) ∧
      (afterEvents v events).discover = v.discover := by
  induction events generalizing v with
  | nil => exact ⟨rfl, rfl⟩
  | cons event events ih =>
    rw [List.forall_mem_cons] at entries
    obtain ⟨⟨valueHandle, info, rfl⟩, entries⟩ := entries
    obtain ⟨hheard, hdiscover⟩ :=
      ih entries (notifyHandler v (.uuid valueHandle (some info))).1
    rw [heard, hheard]
    exact ⟨rfl, hdiscover⟩

/-- What the table says about value handles was there before, or was reported. -/
theorem mem_learn {profiles : List CharInfo} {valueHandle : UInt16} {info x : CharInfo}
    (h : x ∈ learn profiles valueHandle info) :
    (∃ y ∈ profiles, y.uuid = x.uuid ∧ y.valueHandle = x.valueHandle) ∨
      (info.uuid ≠ 0 ∧ info.uuid = x.uuid ∧ valueHandle = x.valueHandle) := by
  rw [learn] at h
  split at h
  · rename_i huuid
    rcases mem_updateFirst h with h | ⟨y, -, hp, rfl⟩
    · exact .inl ⟨x, h, rfl, rfl⟩
    · exact .inr ⟨huuid, (of_decide_eq_true hp).symm, rfl⟩
  · rcases mem_updateFirst h with h | ⟨y, hy, -, rfl⟩
    · exact .inl ⟨x, h, rfl, rfl⟩
    · exact .inl ⟨y, hy, rfl, rfl⟩

theorem mem_afterEvents {events : List Event} (entries : ∀ event ∈ events, IsEntry event)
    {x : CharInfo} (h : x ∈ (afterEvents v events).profiles) :
    (∃ y ∈ v.profiles, y.uuid = x.uuid ∧ y.valueHandle = x.valueHandle) ∨
      ∃ info, .uuid x.valueHandle (some info) ∈ events ∧ info.uuid ≠ 0 ∧ info.uuid = x.uuid := by
  induction events generalizing v with
  | nil => exact .inl ⟨x, h, rfl, rfl⟩
  | cons event events ih =>
    rw [List.forall_mem_cons] at entries
    obtain ⟨⟨valueHandle, info, rfl⟩, entries⟩ := entries
    rcases ih entries h with ⟨y, hy, huuid, hvalue⟩ | ⟨info', hmem, hinfo⟩
    · rcases mem_learn hy with ⟨z, hz, huuid', hvalue'⟩ | ⟨hne, hinfo, hvalue'⟩
      · exact .inl ⟨z, hz, huuid'.trans huuid, hvalue'.trans hvalue⟩
      · refine .inr ⟨info, ?_, hne, hinfo.trans huuid⟩
        rw [← hvalue, ← hvalue']
        exact List.mem_cons_self
    · exact .inr ⟨info', List.mem_cons_of_mem _ hmem, hinfo⟩

/-- The events about the entries of a report. -/
def Report.entries : Report → List Event
  | hand _ descriptors => descriptors.map fun desc =>
    .uuid desc.handle (some ⟨desc.uuid16, 0, 0, desc.handle⟩)
  | char _ characteristics => characteristics.map fun chars =>
    .uuid chars.handle (some ⟨0, chars.properties, chars.handle, chars.valueHandle⟩)
  | _ => []

namespace Report

theorem isEntry (report : Report) : ∀ event ∈ report.entries, IsEntry event := by
  cases report with
  | hand => exact List.forall_mem_map.mpr fun _ _ => ⟨_, _, rfl⟩
  | char => exact List.forall_mem_map.mpr fun _ _ => ⟨_, _, rfl⟩
  | established | other => exact nofun

/-- A report that comes to its end is a block of entries with the end marker. -/
theorem events_of_ends (h : report.ends = true) :
    report.events = report.entries ++ [.uuid 0 none] := by
  cases report with
  | hand status | char status =>
    obtain rfl : status = 0 := of_decide_eq_true h
    rfl
  | established | other => cases h

/-- Another report is no result of a discovery. -/
theorem not_uuid (hends : report.ends = false) (hpending : e.pending report = true) :
    ∀ event ∈ report.events, ∀ valueHandle info, event ≠ .uuid valueHandle info := by
  cases report with
  | established => exact List.forall_mem_singleton.mpr nofun
  | hand status descriptors =>
    rw [events, charDescCb, if_pos (of_decide_eq_false hends)]
    exact List.forall_mem_singleton.mpr nofun
  | char status characteristics =>
    rw [events, charDiscoveredCb, if_pos (of_decide_eq_false hends)]
    exact List.forall_mem_singleton.mpr nofun
  | other event =>
    refine List.forall_mem_singleton.mpr fun valueHandle info heq => ?_
    rw [heq] at hpending
    exact of_decide_eq_true hpending

end Report

/-- Neither the end marker of the characteristic discovery nor a call of `connected`. -/
structure Plain (acts : List Act) : Prop where
  unmarked : ¬ Marked .char acts
  unconnected : Unconnected acts

/-- What `notify_handler` does with something that is no result of a discovery. -/
theorem notifyHandler_other (v : Statics) (h : ∀ valueHandle info, event ≠ .uuid valueHandle info) :
    (notifyHandler v event).1 = v ∧ .connected ∉ (notifyHandler v event).2 ∧
      .discoverChar ∉ (notifyHandler v event).2 := by
  cases event with
  | uuid valueHandle info => exact absurd rfl (h valueHandle info)
  | stateChanged state => cases state <;> simp [notifyHandler]
  | _ => simp [notifyHandler]

theorem plain_calls {calls : List HandlerCall} {profiles : List CharInfo}
    (h : .connected ∉ calls) : Plain (calls.map (Act.called · profiles)) where
  unmarked := by
    rintro ⟨a, ha, hmarker⟩
    obtain ⟨call, -, rfl⟩ := List.mem_map.mp ha
    cases hmarker
  unconnected := by
    refine List.forall_mem_map.mpr fun call hcall => decide_eq_false fun heq => ?_
    exact h (heq ▸ hcall)

theorem Plain.append (h : Plain log) (h' : Plain acts) : Plain (log ++ acts) :=
  ⟨fun marked => (marked_append.mp marked).elim h.unmarked h'.unmarked,
    h.unconnected.append h'.unconnected⟩

theorem plain_singleton (h : (Act.event origin event).marker ≠ some .char) :
    Plain [.event origin event] where
  unmarked := by
    rintro ⟨a, ha, hmarker⟩
    obtain rfl := List.mem_singleton.mp ha
    exact h hmarker
  unconnected := List.forall_mem_singleton.mpr rfl

/-- Events that are no result of a discovery change nothing, and no discovery of characteristics is
started. -/
theorem heard_other (origin : Origin)
    (h : ∀ event ∈ events, ∀ valueHandle info, event ≠ .uuid valueHandle info) (v : Statics) :
    afterEvents v events = v ∧ Plain (heard origin v events) ∧
      (heard origin v events).any (Act.isCall .discoverChar) = false := by
  induction events generalizing v with
  | nil => exact ⟨rfl, ⟨fun ⟨_, ha, _⟩ => List.not_mem_nil ha, nofun⟩, rfl⟩
  | cons event events ih =>
    rw [List.forall_mem_cons] at h
    obtain ⟨hv, hconnected, hchar⟩ := notifyHandler_other v h.1
    obtain ⟨hafter, plain, hany⟩ := ih h.2 v
    have hmarker : (Act.event origin event).marker ≠ some .char := by
      cases event with
      | uuid valueHandle info => exact absurd rfl (h.1 valueHandle info)
      | _ => exact nofun
    refine ⟨?_, ?_, ?_⟩
    · rw [afterEvents, List.foldl_cons, hv]
      exact hafter
    · rw [heard, hv, ← List.singleton_append, List.append_assoc]
      exact (plain_singleton hmarker).append ((plain_calls hconnected).append plain)
    · rw [heard, hv, List.any_append, hany, Bool.or_false, List.any_cons, List.any_map]
      refine List.any_eq_false.mpr fun call hcall => ?_
      exact fun heq => hchar (of_decide_eq_true heq ▸ hcall)

/-- What the end marker has the handler call. -/
def markerCalls (discover : UInt8) : List HandlerCall :=
  if discover = 0 then [] else if discover = 1 then [.connected] else [.discoverChar]

/-- The end marker, by the progress counter. -/
theorem notifyHandler_marker (v : Statics) :
    notifyHandler v (.uuid 0 none) =
      ({ v with discover := if v.discover = 0 then 0 else v.discover - 1 },
        markerCalls v.discover) := by
  rw [markerCalls]
  by_cases hzero : v.discover = 0
  · simp only [notifyHandler, if_pos hzero]
    rw [← hzero]
  · by_cases hone : v.discover = 1
    · simp [notifyHandler, hone]
    · have hne : v.discover - 1 ≠ 0 := fun h => hone (by
        rw [← UInt8.sub_add_cancel v.discover 1, h]
        rfl)
      simp [notifyHandler, hzero, hone, hne]

/-- A report that comes to its end. -/
theorem heard_ends (h : report.ends = true) (origin : Origin) (v : Statics) :
    heard origin v report.events = report.entries.map (.event origin) ++
        ([.event origin (.uuid 0 none)] ++
          (markerCalls v.discover).map (.called · (afterEvents v report.entries).profiles)) ∧
      afterEvents v report.events = ⟨(afterEvents v report.entries).profiles,
        if v.discover = 0 then 0 else v.discover - 1⟩ := by
  obtain ⟨hentries, hdiscover⟩ := heard_entries origin report.isEntry v
  rw [Report.events_of_ends h]
  constructor
  · rw [heard_append, hentries, heard, heard, notifyHandler_marker, hdiscover, List.append_nil]
    rfl
  · have hmarker := congrArg Prod.fst (notifyHandler_marker (afterEvents v report.entries))
    rw [hdiscover] at hmarker
    rw [afterEvents_append]
    exact hmarker

/-! ### How far a session is -/

/-- The static variables under the guard. -/
def Settled (v : Statics) : Prop :=
  (v.discover = 2 ∧ ∀ x ∈ v.profiles, x.valueHandle = 0) ∨ v.discover = 1 ∨ v.discover = 0

/-- How far a session is. It has not started its characteristic discovery, is between its two end
markers, or has called `connected`. -/
inductive Phase (e : Session) (v : Statics) : Prop
  | waiting (settled : Settled v) (char : e.char = false) (plain : Plain e.log)
  | between (discover : v.discover = 1)
      (known : ∀ x ∈ v.profiles, x.valueHandle ≠ 0 → Reported e.log x)
      (marked : Marked .hand e.log) (plain : Plain e.log)
  | connected (discover : v.discover = 0)
      (hcalled : ∃ profiles, .called .connected profiles ∈ e.log) (setUp : SetUp e.log)

namespace Phase

theorem settled (h : Phase e v) : Settled v := by
  cases h with
  | waiting settled => exact settled
  | between discover => exact .inr (.inl discover)
  | connected discover => exact .inr (.inr discover)

theorem setUp (h : Phase e v) : SetUp e.log := by
  cases h with
  | waiting _ _ plain | between _ _ _ plain =>
    exact setUp_of_unconnected plain.unconnected plain.unmarked
  | connected _ _ setUp => exact setUp

/-- The static variables stay as they are, or an end marker comes while `discover` is not 1. -/
def Kept (v v' : Statics) : Prop :=
  v' = v ∨ v.discover ≠ 1 ∧ Settled v' ∧ (v.discover = 0 → v'.discover = 0)

/-- Plain acts leave a session where it is. -/
theorem append (h : Phase e v) (log : e'.log = e.log ++ acts)
    (char : e.char = false → e'.char = false) (plain : Plain acts) (kept : Kept v v') :
    Phase e' v' := by
  cases h with
  | waiting settled hchar hplain =>
    refine .waiting ?_ (char hchar) (log ▸ hplain.append plain)
    rcases kept with rfl | ⟨-, settled', -⟩
    · exact settled
    · exact settled'
  | between discover known marked hplain =>
    obtain rfl : v' = v := kept.resolve_right fun kept => kept.1 discover
    exact .between discover (fun x hx hne => log ▸ (known x hx hne).mono) (log ▸ marked.mono)
      (log ▸ hplain.append plain)
  | connected discover hcalled setUp =>
    refine .connected ?_ ?_ (log ▸ setUp.append hcalled plain.unconnected)
    · rcases kept with rfl | ⟨-, -, kept⟩
      · exact discover
      · exact kept discover
    · obtain ⟨profiles, hmem⟩ := hcalled
      exact ⟨profiles, log ▸ List.mem_append_left _ hmem⟩

end Phase

/-! ### Reports -/

/-- Events about entries are plain. -/
theorem plain_entries (origin : Origin) (report : Report) :
    Plain (report.entries.map (Act.event origin)) where
  unmarked := by
    rintro ⟨a, ha, hmarker⟩
    obtain ⟨event, hevent, rfl⟩ := List.mem_map.mp ha
    obtain ⟨valueHandle, info, rfl⟩ := report.isEntry event hevent
    cases hmarker
  unconnected := List.forall_mem_map.mpr fun _ _ => rfl

/-- The end marker of a report that is not the characteristic discovery of the session, while
`discover` is not 1. -/
theorem heard_ends_plain (h : report.ends = true) (horigin : origin ≠ .char) (settled : Settled v)
    (afresh : v.discover ≠ 1) :
    Plain (heard origin v report.events) ∧ Phase.Kept v (afterEvents v report.events) := by
  obtain ⟨hheard, hafter⟩ := heard_ends h origin v
  have unconnected : .connected ∉ markerCalls v.discover := by
    rcases settled with ⟨discover, -⟩ | discover | discover
    · rw [discover]
      decide
    · exact absurd discover afresh
    · rw [discover]
      decide
  have hmarker : (Act.event origin (.uuid 0 none)).marker ≠ some .char :=
    fun heq => horigin (Option.some.inj heq)
  rw [hheard, hafter]
  refine ⟨(plain_entries origin report).append ((plain_singleton hmarker).append
    (plain_calls unconnected)), .inr ⟨afresh, ?_, fun hzero => if_pos hzero⟩⟩
  rcases settled with ⟨discover, -⟩ | discover | discover
  · refine .inr (.inl ?_)
    show (if v.discover = 0 then 0 else v.discover - 1) = 1
    rw [discover]
    decide
  · exact absurd discover afresh
  · exact .inr (.inr (if_pos discover))

namespace Phase

/-- A report with the handle of an earlier session. -/
theorem late {p : Session} (h : Phase e v) (hpending : p.pending report = true)
    (afresh : report.ends = true → v.discover ≠ 1) :
    Phase (e.hear (heard .late v report.events)) (afterEvents v report.events) := by
  cases hends : report.ends with
  | false =>
    obtain ⟨hafter, plain, -⟩ := heard_other .late (Report.not_uuid hends hpending) v
    exact h.append rfl id plain (.inl hafter)
  | true =>
    have horigin : Origin.late ≠ .char := nofun
    obtain ⟨plain, kept⟩ := heard_ends_plain hends horigin h.settled (afresh hends)
    exact h.append rfl id plain kept

theorem char_take (report : Report) (h : e.char = false) : (e.take report).char = false := by
  cases report with
  | char => rfl
  | established | hand | other => exact h

theorem log_take (e : Session) (report : Report) : (e.take report).log = e.log := by
  cases report <;> rfl

/-- The end of the handle discovery of the session. -/
theorem handEnds {descriptors : List GattDesc} (h : Phase e v) (afresh : v.discover ≠ 1) :
    let report := Report.hand 0 descriptors
    let acts := heard .hand v report.events
    Phase (((e.take report).launch acts).hear acts) (afterEvents v report.events) := by
  intro report acts
  have hends : report.ends = true := rfl
  have horigin : Origin.hand ≠ .char := nofun
  obtain ⟨plain, kept⟩ := heard_ends_plain hends horigin h.settled afresh
  obtain ⟨hheard, hafter⟩ := heard_ends hends .hand v
  rcases h.settled with ⟨discover, zero⟩ | discover | discover
  · cases h with
    | between discover' | connected discover' =>
      rw [discover'] at discover
      cases discover
    | waiting _ _ hplain =>
      have hmarker : (Act.event .hand (.uuid 0 none)) ∈ acts := by
        rw [show acts = _ from hheard]
        simp
      rw [hafter]
      refine .between ?_ (fun x hx hne => ?_)
        ⟨_, List.mem_append_right _ hmarker, rfl⟩ (hplain.append plain)
      · show (if v.discover = 0 then 0 else v.discover - 1) = 1
        rw [discover]
        decide
      · rcases mem_afterEvents report.isEntry hx with ⟨y, hy, -, hvalue⟩ | ⟨info, hmem, -, huuid⟩
        · exact absurd (hvalue.symm.trans (zero y hy)) hne
        · have hacts : .event .hand (.uuid x.valueHandle (some info)) ∈ acts := by
            rw [show acts = _ from hheard]
            exact List.mem_append_left _ (List.mem_map_of_mem hmem)
          exact ⟨info, List.mem_append_right _ hacts, huuid⟩
  · exact absurd discover afresh
  · refine h.append rfl (fun hchar => Bool.or_eq_false_iff.mpr ⟨hchar, ?_⟩) plain kept
    rw [show acts = _ from hheard, discover]
    simp [markerCalls, Act.isCall]

/-- The end of the characteristic discovery of the session. -/
theorem charEnds {characteristics : List GattChar} (h : Phase e v) (hchar : e.char = true) :
    let report := Report.char 0 characteristics
    let acts := heard .char v report.events
    Phase (((e.take report).launch acts).hear acts) (afterEvents v report.events) := by
  intro report acts
  have hends : report.ends = true := rfl
  obtain ⟨hheard, hafter⟩ := heard_ends hends .char v
  have entries := plain_entries .char report
  rw [hafter]
  cases h with
  | waiting _ hchar' =>
    rw [hchar'] at hchar
    cases hchar
  | between discover known marked plain =>
    rw [discover] at hheard
    -- the log with the end marker, before the call
    let before := e.log ++ (report.entries.map (.event .char) ++ [.event .char (.uuid 0 none)])
    have hlog : e.log ++ acts =
        before ++ [.called .connected (afterEvents v report.entries).profiles] := by
      rw [show acts = _ from hheard]
      simp [before, markerCalls]
    have unconnected : Unconnected before :=
      plain.unconnected.append (entries.unconnected.append (List.forall_mem_singleton.mpr rfl))
    have reported : ∀ x ∈ (afterEvents v report.entries).profiles, x.valueHandle ≠ 0 →
        Reported before x := by
      intro x hx hne
      rcases mem_afterEvents report.isEntry hx with ⟨y, hy, huuid, hvalue⟩ | ⟨info, hmem, htype, -⟩
      · obtain ⟨info, hmem, hinfo⟩ := known y hy (hvalue ▸ hne)
        exact ⟨info, List.mem_append_left _ (hvalue ▸ hmem), hinfo.trans huuid⟩
      · obtain ⟨chars, -, heq⟩ := List.mem_map.mp hmem
        exact absurd (congrArg CharInfo.uuid (Option.some.inj (Event.uuid.inj heq).2)).symm htype
    refine .connected (by rw [discover]; rfl) ⟨(afterEvents v report.entries).profiles, ?_⟩ ?_
    · show _ ∈ e.log ++ acts
      rw [hlog]
      exact List.mem_append_right _ List.mem_cons_self
    · show SetUp (e.log ++ acts)
      rw [hlog]
      exact setUp_of_connected unconnected marked.mono
        ⟨_, List.mem_append_right _ (List.mem_append_right _ List.mem_cons_self), rfl⟩ reported
  | connected discover hcalled setUp =>
    have unconnected : Unconnected acts := by
      rw [show acts = _ from hheard, discover]
      exact entries.unconnected.append (List.forall_mem_singleton.mpr rfl)
    obtain ⟨profiles, hmem⟩ := hcalled
    exact .connected (if_pos discover) ⟨profiles, List.mem_append_left _ hmem⟩
      (setUp.append ⟨profiles, hmem⟩ unconnected)

/-- A report with the handle of the session. -/
theorem deliver (h : Phase e v) (hpending : e.pending report = true)
    (afresh : report.ends = true → report.origin ≠ .char → v.discover ≠ 1) :
    let acts := heard report.origin v report.events
    Phase (((e.take report).launch acts).hear acts) (afterEvents v report.events) := by
  cases hends : report.ends with
  | false =>
    obtain ⟨hafter, plain, hany⟩ := heard_other report.origin (Report.not_uuid hends hpending) v
    refine h.append (congrArg (· ++ _) (log_take e report)) (fun hchar => ?_) plain (.inl hafter)
    exact Bool.or_eq_false_iff.mpr ⟨char_take report hchar, hany⟩
  | true =>
    cases report with
    | established | other => cases hends
    | hand status descriptors =>
      obtain rfl : status = 0 := of_decide_eq_true hends
      exact h.handEnds (afresh rfl nofun)
    | char status characteristics =>
      obtain rfl : status = 0 := of_decide_eq_true hends
      exact h.charEnds hpending

end Phase

/-- `connected` was called before the end marker of the characteristic discovery. -/
def Premature (log : List Act) : Prop :=
  ∃ before profiles rest, log = before ++ .called .connected profiles :: rest ∧
    ¬ Marked .char before

theorem Premature.mono (h : Premature log) : Premature (log ++ acts) := by
  obtain ⟨before, profiles, rest, rfl, unmarked⟩ := h
  exact ⟨before, profiles, rest ++ acts, by simp, unmarked⟩

theorem Premature.not_setUp (h : Premature log) : ¬ SetUp log := by
  rintro setUp
  obtain ⟨before, profiles, rest, rfl, unmarked⟩ := h
  exact unmarked (setUp.after before profiles rest rfl).2.1

/-- **While `discover` is 1** the end marker of anything but the characteristic discovery of the
session has `connected` called. -/
theorem Phase.premature (h : Phase e v) (discover : v.discover = 1) (hends : report.ends = true)
    (horigin : origin ≠ .char) : Premature (e.log ++ heard origin v report.events) := by
  have unmarked : ¬ Marked .char e.log := by
    cases h with
    | waiting _ _ plain | between _ _ _ plain => exact plain.unmarked
    | connected discover' =>
      rw [discover'] at discover
      cases discover
  have hmarker : (Act.event origin (.uuid 0 none)).marker ≠ some .char :=
    fun heq => horigin (Option.some.inj heq)
  have plain := (plain_entries origin report).append (plain_singleton hmarker)
  rw [(heard_ends hends origin v).1, discover]
  refine ⟨e.log ++ (report.entries.map (.event origin) ++ [.event origin (.uuid 0 none)]),
    (afterEvents v report.entries).profiles, [], by simp [markerCalls], fun marked => ?_⟩
  exact (marked_append.mp marked).elim unmarked plain.unmarked

/-! ### Runs -/

namespace Process

variable {s t : Process} {label : Label} {labels : List Label}

/-- The earlier sessions were set up, and it is known how far the one is that goes on. -/
structure Sound (s : Process) : Prop where
  past : ∀ p ∈ s.past, SetUp p.log
  settled : Settled s.statics
  phase : ∀ e, s.session = some e → Phase e s.statics

theorem Sound.start : Process.start.Sound :=
  ⟨nofun, .inl ⟨rfl, by decide⟩, nofun⟩

theorem Sound.setUp (h : s.Sound) : ∀ log ∈ s.logs, SetUp log := by
  refine List.forall_mem_map.mpr (List.forall_mem_append.mpr ⟨h.past, fun e he => ?_⟩)
  exact (h.phase e (Option.mem_toList.mp he)).setUp

/-- The step rule. -/
theorem step_cases (h : s.step label = some t) :
    (label = .begin ∧ s.session = none ∧ t = { s with session := some .start }) ∨
      ∃ e, s.session = some e ∧
        ((label = .finish ∧ t = { s with session := none, past := s.past ++ [e] }) ∨
          (∃ report, label = .deliver report ∧ e.pending report = true ∧ t = { s with
            statics := afterEvents s.statics report.events
            session := some (((e.take report).launch
              (heard report.origin s.statics report.events)).hear
                (heard report.origin s.statics report.events)) }) ∨
          ∃ i report p, label = .late i report ∧ s.past[i]? = some p ∧ p.pending report = true ∧
            t = { s with
              statics := afterEvents s.statics report.events
              session := some (e.hear (heard .late s.statics report.events))
              past := s.past.set i
                ((p.take report).launch (heard .late s.statics report.events)) }) := by
  cases hsession : s.session with
  | none =>
    cases label with
    | begin =>
      simp only [step, hsession, Option.some.injEq] at h
      exact .inl ⟨rfl, rfl, h.symm⟩
    | _ => simp only [step, hsession, reduceCtorEq] at h
  | some e =>
    refine .inr ⟨e, rfl, ?_⟩
    cases label with
    | begin => simp only [step, hsession, reduceCtorEq] at h
    | finish =>
      simp only [step, hsession, Option.some.injEq] at h
      exact .inl ⟨rfl, h.symm⟩
    | deliver report =>
      simp only [step, hsession, Option.ite_none_right_eq_some, Option.some.injEq] at h
      exact .inr (.inl ⟨report, rfl, h.1, h.2.symm⟩)
    | late i report =>
      cases hpast : s.past[i]? with
      | none => simp only [step, hsession, hpast, reduceCtorEq] at h
      | some p =>
        simp only [step, hsession, hpast, Option.ite_none_right_eq_some, Option.some.injEq] at h
        exact .inr (.inr ⟨i, report, p, rfl, hpast, h.1, h.2.symm⟩)

/-- What is started with the handle of an earlier session does not change what happened in it. -/
theorem log_launch (p : Session) (report : Report) (acts : List Act) :
    ((p.take report).launch acts).log = p.log := Phase.log_take p report

theorem map_log_set {l : List Session} {i : Nat} {p : Session} (hp : l[i]? = some p) :
    (l.set i ((p.take report).launch acts)).map Session.log = l.map Session.log := by
  obtain ⟨hlt, rfl⟩ := List.getElem?_eq_some_iff.mp hp
  rw [List.map_set, log_launch, ← List.getElem_map Session.log (h := by simpa using hlt),
    List.set_getElem_self]

/-- A guarded step keeps the sessions set up. -/
theorem Sound.step (hs : s.Sound) (ok : s.Afresh label) (h : s.step label = some t) : t.Sound := by
  rcases step_cases h with ⟨rfl, hnone, rfl⟩ | ⟨e, he, ⟨rfl, rfl⟩ |
    ⟨report, rfl, hpending, rfl⟩ | ⟨i, report, p, rfl, hp, hpending, rfl⟩⟩
  · refine ⟨hs.past, hs.settled, fun e he => ?_⟩
    obtain rfl := Option.some.inj he
    exact .waiting hs.settled rfl ⟨fun ⟨_, ha, _⟩ => List.not_mem_nil ha, nofun⟩
  · exact ⟨List.forall_mem_append.mpr
      ⟨hs.past, List.forall_mem_singleton.mpr (hs.phase e he).setUp⟩, hs.settled, nofun⟩
  · have afresh : report.ends = true → report.origin ≠ .char → s.statics.discover ≠ 1 := by
      cases report with
      | char => exact fun _ h => absurd rfl h
      | established | hand | other => exact fun hends _ => ok hends
    have phase := (hs.phase e he).deliver hpending afresh
    refine ⟨hs.past, phase.settled, fun e' he' => ?_⟩
    obtain rfl := Option.some.inj he'
    exact phase
  · have phase := (hs.phase e he).late hpending ok
    refine ⟨fun p' hp' => ?_, phase.settled, fun e' he' => ?_⟩
    · rcases List.mem_or_eq_of_mem_set hp' with hp' | rfl
      · exact hs.past p' hp'
      · rw [log_launch]
        exact hs.past p (List.mem_of_getElem? hp)
    · obtain rfl := Option.some.inj he'
      exact phase

/-- A step that does not meet the guard calls `connected` too early. -/
theorem Sound.premature (hs : s.Sound) (ok : ¬ s.Afresh label) (h : s.step label = some t) :
    ∃ log ∈ t.logs, Premature log := by
  rcases step_cases h with ⟨rfl, hnone, rfl⟩ | ⟨e, he, ⟨rfl, rfl⟩ | ⟨report, rfl, -, rfl⟩ |
    ⟨i, report, p, rfl, -, -, rfl⟩⟩
  · exact absurd trivial ok
  · exact absurd trivial ok
  · have violated : report.ends = true ∧ report.origin ≠ .char ∧ s.statics.discover = 1 := by
      cases report with
      | char => exact absurd trivial ok
      | established | hand | other =>
        obtain ⟨hends, hdiscover⟩ := Classical.not_imp.mp ok
        exact ⟨hends, nofun, not_not.mp hdiscover⟩
    obtain ⟨hends, horigin, discover⟩ := violated
    have premature := (hs.phase e he).premature discover hends horigin
    rw [← Phase.log_take e report] at premature
    exact ⟨_, List.mem_map_of_mem (List.mem_append_right _ List.mem_cons_self), premature⟩
  · obtain ⟨hends, hdiscover⟩ := Classical.not_imp.mp ok
    exact ⟨_, List.mem_map_of_mem (List.mem_append_right _ List.mem_cons_self),
      (hs.phase e he).premature (not_not.mp hdiscover) hends nofun⟩

/-- The logs grow. -/
theorem logs_step (h : s.step label = some t) : ∀ log ∈ s.logs, ∃ log' ∈ t.logs, log <+: log' := by
  have kept : ∀ {q : Session} {l : List Session}, q ∈ l → ∀ {log}, log <+: q.log →
      ∃ log' ∈ l.map Session.log, log <+: log' := fun hq _ grows =>
    ⟨_, List.mem_map_of_mem hq, grows⟩
  refine List.forall_mem_map.mpr (List.forall_mem_append.mpr ?_)
  rcases step_cases h with ⟨-, hnone, rfl⟩ | ⟨e, he, ⟨-, rfl⟩ | ⟨report, -, -, rfl⟩ |
    ⟨i, report, p, -, hp, -, rfl⟩⟩
  · rw [hnone]
    exact ⟨fun q hq => kept (List.mem_append_left _ hq) List.prefix_rfl, nofun⟩
  · rw [he]
    refine ⟨fun q hq => ?_, List.forall_mem_singleton.mpr ?_⟩
    · exact kept (List.mem_append_left _ (List.mem_append_left _ hq)) List.prefix_rfl
    · exact kept (List.mem_append_left _ (List.mem_append_right _ List.mem_cons_self))
        List.prefix_rfl
  · rw [he]
    refine ⟨fun q hq => kept (List.mem_append_left _ hq) List.prefix_rfl,
      List.forall_mem_singleton.mpr (kept (List.mem_append_right _ List.mem_cons_self) ?_)⟩
    rw [← Phase.log_take e report]
    exact List.prefix_append ..
  · rw [he]
    refine ⟨fun q hq => ?_, List.forall_mem_singleton.mpr
      (kept (List.mem_append_right _ List.mem_cons_self) (List.prefix_append ..))⟩
    refine ⟨q.log, ?_, List.prefix_rfl⟩
    rw [logs, List.map_append, map_log_set hp]
    exact List.mem_append_left _ (List.mem_map_of_mem hq)

/-- What was called too early stays in the logs. -/
theorem premature_step (h : s.step label = some t) (hs : ∃ log ∈ s.logs, Premature log) :
    ∃ log ∈ t.logs, Premature log := by
  obtain ⟨log, hlog, premature⟩ := hs
  obtain ⟨log', hlog', acts, rfl⟩ := logs_step h log hlog
  exact ⟨log ++ acts, hlog', premature.mono⟩

end Process

/-- **Sessions set up afresh**: in a process every session is set up afresh if and only if, while
`discover` is 1, no end marker is delivered but that of the characteristic discovery of the session
that goes on. -/
theorem setUp_iff {s : Process} {labels : List Process.Label}
    (run : Process.machine.Run (fun _ _ => True) Process.start labels s) :
    (∀ log ∈ s.logs, SetUp log) ↔ Process.machine.Run Process.Afresh Process.start labels s := by
  have sound : ∀ {t : Process} {labels}, Process.machine.Run Process.Afresh .start labels t →
      t.Sound := fun run => run.invariant .start fun hs ok step => hs.step ok step
  refine ⟨fun setUp => ?_, fun run => (sound run).setUp⟩
  -- as long as the guard is met the sessions are set up, and the first step against it is too early
  have key : Process.machine.Run Process.Afresh Process.start labels s ∨
      ∃ log ∈ s.logs, Premature log := by
    clear setUp
    induction run with
    | nil => exact .inl .nil
    | @snoc _ t _ label _ _ step ih =>
      rcases ih with run | premature
      · by_cases ok : t.Afresh label
        · exact .inl (run.snoc ok step)
        · exact .inr ((sound run).premature ok step)
      · exact .inr (Process.premature_step step premature)
  refine key.resolve_right ?_
  rintro ⟨log, hlog, premature⟩
  exact premature.not_setUp (setUp log hlog)

/-- A session that ends before it is connected, and one that comes to its end after the attempt of
the first one has failed. -/
def sessionsRun : Option Process :=
  Process.machine.execGuarded Process.Afresh Process.start
    [.begin, .finish, .begin, .late 0 (.other (.stateChanged .disconnected)), .deliver .established,
      .deliver (.hand 0 [⟨5, 0xffd1⟩]), .deliver (.char 0 [⟨4, 2, 5⟩]), .finish]

theorem setUp_iff_sessionsRun : ∃ s, sessionsRun = some s ∧
    s.past.map (fun e => e.log.countP (Act.isCall .connected)) = [0, 1] ∧
      ∀ log ∈ s.logs, SetUp log := by
  have hrun : sessionsRun.map (fun s => s.past.map fun e =>
      e.log.countP (Act.isCall .connected)) = some [0, 1] := by decide +kernel
  obtain ⟨s, hs, hdata⟩ := Option.map_eq_some_iff.mp hrun
  have run := Process.machine.run_of_execGuarded hs
  exact ⟨s, hs, hdata, (setUp_iff (run.mono fun _ => trivial)).mpr run⟩

/-- A session that is stopped between its discoveries, and the next one with another peer. -/
def abandonedRun : Option Process :=
  Process.machine.execGuarded (fun _ _ => True) Process.start
    [.begin, .deliver .established, .deliver (.hand 0 [⟨5, 0xffd1⟩]), .finish, .begin,
      .deliver .established, .deliver (.hand 0 [⟨9, 0x2a00⟩])]

/-- **A session after one that was stopped between its discoveries** calls `connected` before its
characteristic discovery has been started, and with the value handle of the other peer. -/
theorem not_setUp_abandonedRun : ∃ s, abandonedRun = some s ∧ ∃ log ∈ s.logs, ¬ SetUp log ∧
    ¬ Marked .char log ∧ ∃ profiles, .called .connected profiles ∈ log ∧
      ∃ e ∈ profiles, e.valueHandle = 5 ∧ ¬ Reported log e := by
  have hrun : abandonedRun.map (fun s => s.logs.getLast?) =
      some (some ([.event .other (.stateChanged .connected),
        .called .listen (learn initialProfiles 5 ⟨0xffd1, 0, 0, 5⟩),
        .called .discoverHand (learn initialProfiles 5 ⟨0xffd1, 0, 0, 5⟩),
        .event .hand (.uuid 9 (some ⟨0x2a00, 0, 0, 9⟩)), .event .hand (.uuid 0 none)] ++
        .called .connected (learn initialProfiles 5 ⟨0xffd1, 0, 0, 5⟩) :: [])) := by
    decide +kernel
  obtain ⟨s, hs, hlast⟩ := Option.map_eq_some_iff.mp hrun
  refine ⟨s, hs, _, List.mem_of_getLast? hlast, fun setUp => ?_, ?_, _,
    List.mem_append_right _ List.mem_cons_self, ⟨0xffd1, 0, 0, 5⟩, by decide, rfl, ?_⟩
  · have char := (setUp.after _ _ _ rfl).2.1
    simp [Marked, Act.marker] at char
  · simp [Marked, Act.marker]
  · rintro ⟨info, hmem, -⟩
    simp at hmem

end Libble.Vecs
