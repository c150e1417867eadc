import Libble.Link.Blocks

/-!
# Discoveries in blocks

A discovery collects the entries of its responses in its record and has its events delivered by the
callback that ends it, so nothing leaks before. An event about an entry does not say which
discovery it belongs to; that the events of a discovery stand together, closed by the end marker,
is what a handler has to tell them apart. It holds on every connection, whatever else goes on
there, as long as the event handler does not give the connection up.

## Main definitions

* `Gatt.Call.entries`, `Link.found`: the events about the entries of responses.
* `Link.Delivery`: nothing, one error, or an event for every entry and the end marker.
* `Link.Hears`: what a step does to an operation and its answers.
* `Link.Discovering`: where a discovery is.

## Main results

* `Link.discovery_in_one_block`: a discovery delivers one error, or its entries in one block.
-/

namespace Libble

open Att Gatt

namespace Gatt

/-- The event about a descriptor. -/
def GattDesc.event (desc : GattDesc) : Event :=
  .uuid desc.handle (some ⟨desc.uuid16, 0, 0, desc.handle⟩)

/-- The event about a characteristic. -/
def GattChar.event (chars : GattChar) : Event :=
  .uuid chars.handle (some ⟨0, chars.properties, chars.handle, chars.valueHandle⟩)

/-- The events about the entries of a response to a discovery. -/
def Call.entries (call : Call) (rsp : Pdu) : List Event :=
  match call with
  | discoverHand =>
    match decFindInfoResp rsp rsp.length with
    | some (format, list) => (list.data.map (GattDesc.ofEntry format)).map GattDesc.event
    | none => []
  | discoverChar =>
    match decReadByTypeResp rsp rsp.length with
    | some list => (list.data.map GattChar.ofEntry).map GattChar.event
    | none => []
  | _ => []

end Gatt

namespace Link

variable {s t : Link} {o : Nat} {mtu : Mtu} {labels : List Label} {call : Call}

/-- The events about the entries of all responses to a discovery. -/
def found (s : Link) (call : Call) (o : Nat) : List Event := (s.answers o).flatMap call.entries

/-- What a discovery delivers: nothing, one error, or an event for every entry and the end
marker. -/
inductive Delivery (entries : List Event) : List Event → Prop
  | nothing : Delivery entries []
  | error (text : String) : Delivery entries [.errorOccured text]
  | block : Delivery entries (entries ++ [.uuid 0 none])

/-! ### The turns of a discovery -/

/-- A discovery has collected the entries in its record. -/
inductive Collects : Call → Pdu → Proc → List Event → Prop
  | hand (start «end» : UInt16) (descriptors : List GattDesc) :
    Collects .discoverHand (encFindInfoReq start «end») (.descDiscoveredCb start «end» descriptors)
      (descriptors.map GattDesc.event)
  | char (start «end» : UInt16) (characteristics : List GattChar) :
    Collects .discoverChar (encReadByTypeReq start «end» gattCharacUuid)
      (.charDiscoveredCb start «end» characteristics) (characteristics.map GattChar.event)

/-- A turn goes on with the entries, or delivers them or an error. -/
def Reports (call : Call) (entries : List Event) : Turn Pdu Proc Event → Prop
  | .next req cont => Collects call req cont entries
  | .done events => Delivery entries events

namespace Collects

variable {buflen : Nat} {req : Pdu} {proc : Proc} {seen : List Event} {rsp : Pdu}

/-- An error ends a discovery with what it has collected, or with the error. -/
theorem reports_error (h : Collects call req proc seen) {status : UInt8} (hstatus : status ≠ 0)
    (rpdu : Pdu) : Reports call seen (turnOf (react buflen proc status rpdu)) := by
  cases h with
  | hand start «end» descriptors =>
    simp only [react, descDiscoveredCb]
    split
    · split
      · rw [charDescCb, if_pos hstatus]
        exact .error _
      · exact .block
    · rw [charDescCb, if_pos hstatus]
      exact .error _
  | char start «end» characteristics =>
    simp only [react, gattCharDiscoveredCb]
    split
    · split
      · rw [charDiscoveredCb, if_pos hstatus]
        exact .error _
      · exact .block
    · rw [charDiscoveredCb, if_pos hstatus]
      exact .error _

/-- A response has a discovery go on with its entries, or ends it. -/
theorem reports_ok (h : Collects call req proc seen) (rsp : Pdu) :
    Reports call (seen ++ call.entries rsp) (turnOf (react buflen proc 0 rsp)) := by
  have hne : ¬ (0 : UInt8) = ecodeAttrNotFound := by decide
  cases h with
  | hand start «end» descriptors =>
    simp only [react, descDiscoveredCb, if_neg hne, ne_eq, not_true_eq_false, if_false,
      Call.entries]
    cases hdec : decFindInfoResp rsp rsp.length with
    | none => exact .error _
    | some result =>
      rw [← List.map_append]
      dsimp only
      split_ifs
      · exact .error _
      · exact .hand ..
      · exact .block
  | char start «end» characteristics =>
    simp only [react, gattCharDiscoveredCb, if_neg hne, ne_eq, not_true_eq_false, if_false,
      Call.entries]
    cases hdec : decReadByTypeResp rsp rsp.length with
    | none => exact .error _
    | some list =>
      rw [← List.map_append]
      dsimp only
      split_ifs
      · exact .error _
      · exact .char ..
      · exact .block

end Collects

/-- An Error Response has no entries. -/
theorem entries_of_error {rsp : Pdu} (h : byteAt rsp 0 = opErrorRsp) : call.entries rsp = [] := by
  cases call with
  | discoverHand =>
    have hne : byteAt rsp 0 ≠ opFindInfoRsp := by
      rw [h]
      decide
    simp only [Call.entries, decFindInfoResp, if_pos hne]
  | discoverChar =>
    have hne : byteAt rsp 0 ≠ opReadByTypeRsp := by
      rw [h]
      decide
    simp only [Call.entries, decReadByTypeResp, if_pos hne]
  | request | write => rfl

/-- A response with which an error is heard has no entries. -/
theorem Collects.entries_of_heard {req rsp : Pdu} {proc : Proc} {seen : List Event}
    (h : Collects call req proc seen) (hrsp : rsp ≠ []) (hstatus : (heard req rsp).1 ≠ 0) :
    call.entries rsp = [] := by
  have refused : ¬ Grants req rsp := fun grants => hstatus (by rw [heard_of_grants grants hrsp])
  cases h with
  | hand =>
    have hne : byteAt rsp 0 ≠ opFindInfoRsp := fun hop => refused (by
      rw [Grants, hop]
      exact ⟨by decide, rfl, nofun⟩)
    simp only [Call.entries, decFindInfoResp, if_pos hne]
  | char =>
    have hne : byteAt rsp 0 ≠ opReadByTypeRsp := fun hop => refused (by
      rw [Grants, hop]
      exact ⟨by decide, rfl, nofun⟩)
    simp only [Call.entries, decReadByTypeResp, if_pos hne]

/-- The turn of a discovery with a response. -/
theorem Collects.reports {buflen : Nat} {req rsp : Pdu} {proc : Proc} {seen : List Event}
    (h : Collects call req proc seen) (hrsp : rsp ≠ []) :
    Reports call (seen ++ call.entries rsp) (reactTo buflen req proc rsp) := by
  rw [reactTo_eq]
  by_cases hok : (heard req rsp).1 = 0
  · rw [heard_of_ok hrsp hok]
    exact h.reports_ok rsp
  · rw [h.entries_of_heard hrsp hok, List.append_nil]
    exact h.reports_error hok _

/-! ### What an operation hears -/

/-- What a step does to an operation that it does not start, and to the answers to it: nothing, or
its request is sent again, or its callback is called with an error that the library makes up or
with a response, or its request may be lost. -/
inductive Hears (s t : Link) (o : Nat) : Prop
  | spared (spares : Spares s t o) (answers_eq : t.answers o = s.answers o)
  | repeated {rsp : Pdu} (spares : Spares s t o) (waits : 0 < s.load (own o))
      (hop : byteAt rsp 0 = opErrorRsp) (answers_eq : t.answers o = s.answers o ++ [rsp])
  | failed {u : Link} {op : Op} {task : Task Pdu Proc} (removes : Removes s u op)
      (htask : op.task = some task) (owner_eq : task.owner = o)
      (reacts : Reacts u t task (turnOf (react s.mtu.buflen task.cont 0x0e [opErrorRsp])))
      (answers_eq : t.answers o = s.answers o)
  | answered {u : Link} {op : Op} {task : Task Pdu Proc} {rsp : Pdu} (removes : Removes s u op)
      (htask : op.task = some task) (owner_eq : task.owner = o) (hrsp : rsp ≠ [])
      (reacts : Reacts u t task (reactTo s.mtu.buflen task.req task.cont rsp))
      (answers_eq : t.answers o = s.answers o ++ [rsp])
  | lost (removed : Loses s t) (answers_eq : t.answers o = s.answers o)

theorem Spares.of_still (h : Still s t) (o : Nat) : Spares s t o :=
  ⟨fun f _ => h.load_eq f, h.told_eq o, h.releases_eq o⟩

theorem task_of_owner {op : Op} (h : op.owner = some o) :
    ∃ task, op.task = some task ∧ task.owner = o := by
  rcases hcb : op.cb with - | ⟨addr, ⟨owner, proc⟩ | -⟩
  · simp [Op.owner, hcb] at h
  · simp only [Op.owner, hcb, Option.some.injEq] at h
    exact ⟨⟨owner, op.pdu, proc⟩, by simp [Op.task, hcb], h⟩
  · simp [Op.owner, hcb] at h

theorem load_pending {op : Op} (hidle : s.todo = []) (hpending : s.pendingReq = some op)
    (f : Task Pdu Proc → Nat) : op.weigh f ≤ s.load f := by
  simp only [load, hidle, hpending, Option.toList_some, tally_cons, tally_nil, if_true]
  omega

/-- **What a step does to an operation and its answers.** -/
theorem hears_of_step {label : Label} (tidy : s.Tidy) (stack : Stack s.todo)
    (hstep : s.step label = some t) (ho : ∀ call, label = .call call → s.nextOwner ≠ o) :
    Hears s t o := by
  have hanswers := ((delivers_of_step stack hstep).log_eq noted_of_answering o).1
  by_cases hanswered : ∃ bytes security setOk op task, label = .canRead bytes security setOk ∧
      bytes ≠ [] ∧ getOpType (byteAt bytes 0) = .rsp ∧ s.pendingReq = some op ∧
      op.task = some task ∧ task.owner = o
  · obtain ⟨bytes, security, setOk, op, task, rfl, hne, type, hpending, htask, howner⟩ := hanswered
    obtain ⟨⟨hidle, -⟩, -, rfl⟩ := step_canRead hstep
    have hrsp : (s.answering (.canRead bytes security setOk)).filterMap (Act.answerTo o) =
        [bytes] := by
      have howner' : op.owner = some o := by rw [owner_of_task htask, howner]
      simp [answering, hne, type, hpending, howner', Act.answerTo]
    rw [hrsp] at hanswers
    obtain ⟨opcode, pdu, rfl⟩ := List.exists_cons_of_ne_nil hne
    have type : getOpType opcode = .rsp := type
    rw [canReadData_rsp type] at hanswers ⊢
    rcases handleRsp_pending hidle (calm_received s (opcode :: pdu)) hpending with
      ⟨hretries, still⟩ | ⟨-, v, removes, heq⟩
    · refine .repeated (.of_still still o) ?_ ?_ hanswers
      · refine Nat.lt_of_lt_of_le ?_ (load_pending hidle hpending _)
        rw [weigh_of_task htask, own_self howner]
        exact Nat.one_pos
      · simp only [retries, decide_eq_true_eq] at hretries
        exact hretries.1
    · rw [heq] at hanswers ⊢
      have reacts := reacts_runCallback v htask
        (responseOf (byteAt op.pdu 0) opcode pdu).1 (responseOf (byteAt op.pdu 0) opcode pdu).2
      rw [removes.mtu_eq, pdu_of_task htask] at reacts
      rw [pdu_of_task htask] at hanswers ⊢
      exact .answered removes htask howner hne reacts hanswers
  · have hnil : (s.answering label).filterMap (Act.answerTo o) = [] := by
      refine List.filterMap_eq_nil_iff.mpr fun act hact => ?_
      cases label with
      | canRead bytes security setOk =>
        simp only [answering] at hact
        split at hact
        · rename_i hrsp
          obtain ⟨op, hop, rfl⟩ := List.mem_map.mp hact
          cases howner : op.owner with
          | none => rfl
          | some owner =>
            refine if_neg fun heq => hanswered ?_
            obtain ⟨task, htask, htask'⟩ := task_of_owner (howner.trans (congrArg some heq))
            exact ⟨bytes, security, setOk, op, task, rfl, hrsp.1, hrsp.2,
              Option.mem_toList.mp hop, htask, htask'⟩
        · cases hact
      | _ => cases hact
    rw [hnil, List.append_nil] at hanswers
    rcases (tidy.effect hstep).about o ho with spares |
      ⟨u, op, task, turn, removes, htask, howner, source, reacts⟩ | ⟨code, -, -, removed⟩
    · exact .spared spares hanswers
    · cases source with
      | failed => exact .failed removes htask howner reacts hanswers
      | @answered bytes security setOk op hlabel hne hpending htask' =>
        subst hlabel
        obtain ⟨-, -, rfl⟩ := step_canRead hstep
        refine .spared (.of_still (still_canReadData s (fun hne type => hanswered ?_) _ _) o)
          hanswers
        exact ⟨bytes, security, setOk, op, task, rfl, hne, type, hpending, htask', howner⟩
    · exact .lost removed hanswers

/-! ### Where a discovery is -/

/-- Where a discovery is: it waits for the answer to one request and has the entries of the answers
so far in its record, or it has had its events delivered. -/
inductive Discovering (call : Call) (o : Nat) (s : Link) : Prop
  | waiting {task : Task Pdu Proc} (owner_eq : task.owner = o)
      (collects : Collects call task.req task.cont (s.found call o)) (waits : s.Waits o [task])
      (told_eq : s.told o = [])
  | ended (waits : s.Waits o []) (delivery : Delivery (s.found call o) (s.told o))

namespace Discovering

theorem delivery (h : s.Discovering call o) : Delivery (s.found call o) (s.told o) := by
  cases h with
  | waiting _ _ _ told_eq =>
    rw [told_eq]
    exact .nothing
  | ended _ delivery => exact delivery

/-- A discovery spends its turn. -/
theorem turn {u : Link} {op : Op} {task : Task Pdu Proc} {turn : Turn Pdu Proc Event}
    (waits : s.Waits o [task]) (told_eq : s.told o = []) (removes : Removes s u op)
    (htask : op.task = some task) (owner_eq : task.owner = o) (reacts : Reacts u t task turn)
    (reports : Reports call (t.found call o) turn) : t.Discovering call o := by
  have waits' := (waits.taken removes htask owner_eq).2
  have htold : u.told task.owner = [] := by rw [owner_eq, removes.told_eq, told_eq]
  have hself := reacts.told_self htold
  subst owner_eq
  cases turn with
  | next req cont =>
    have hnew : (⟨task.owner, req, cont⟩ : Task Pdu Proc).owner = task.owner := rfl
    refine .waiting hnew reports (fun f hf => ?_) hself
    have hle := waits' f hf
    rw [reacts.load_eq, tally_cons, tally_nil]
    rw [tally_nil] at hle
    split
    · rw [Turn.tasks, tally_cons, tally_nil]
      omega
    · omega
  | done events =>
    refine .ended (fun f hf => ?_) ?_
    · have hle := waits' f hf
      rw [reacts.load_eq]
      simpa [Turn.tasks] using hle
    · rw [hself]
      exact reports

/-- Nothing happens to a discovery. -/
theorem kept (h : s.Discovering call o) (hfound : t.found call o = s.found call o)
    (htold : t.told o = s.told o)
    (hwaits : ∀ tasks : List (Task Pdu Proc), s.Waits o tasks → t.Waits o tasks) :
    t.Discovering call o := by
  cases h with
  | waiting owner_eq collects waits told_eq =>
    exact .waiting owner_eq (hfound ▸ collects) (hwaits _ waits) (htold.trans told_eq)
  | ended waits delivery =>
    refine .ended (hwaits _ waits) ?_
    rwa [hfound, htold]

/-- **Where a discovery is after a step**, and that it tells what it has to tell only once. -/
theorem step (h : s.Discovering call o) (hears : Hears s t o) :
    t.Discovering call o ∧ (s.told o = [] ∨ t.told o = s.told o) := by
  have unheard : t.answers o = s.answers o → t.found call o = s.found call o :=
    fun answers_eq => by rw [found, found, answers_eq]
  have read : ∀ {rsp}, t.answers o = s.answers o ++ [rsp] →
      t.found call o = s.found call o ++ call.entries rsp := fun answers_eq => by
    rw [found, found, answers_eq, List.flatMap_append, List.flatMap_singleton]
  cases hears with
  | spared spares answers_eq =>
    exact ⟨h.kept (unheard answers_eq) spares.told_eq fun _ => spares.waits, .inr spares.told_eq⟩
  | repeated spares _ hop answers_eq =>
    have hfound := read answers_eq
    rw [entries_of_error hop, List.append_nil] at hfound
    exact ⟨h.kept hfound spares.told_eq fun _ => spares.waits, .inr spares.told_eq⟩
  | failed removes htask owner_eq reacts answers_eq =>
    cases h with
    | ended waits => exact absurd owner_eq (waits.not_taken removes htask)
    | waiting _ collects waits told_eq =>
      obtain ⟨rfl, -⟩ := waits.taken removes htask owner_eq
      refine ⟨turn waits told_eq removes htask owner_eq reacts ?_, .inl told_eq⟩
      rw [unheard answers_eq]
      exact collects.reports_error (by decide) _
  | answered removes htask owner_eq hrsp reacts answers_eq =>
    cases h with
    | ended waits => exact absurd owner_eq (waits.not_taken removes htask)
    | waiting _ collects waits told_eq =>
      obtain ⟨rfl, -⟩ := waits.taken removes htask owner_eq
      refine ⟨turn waits told_eq removes htask owner_eq reacts ?_, .inl told_eq⟩
      rw [read answers_eq]
      exact collects.reports hrsp
  | lost removed answers_eq =>
    exact ⟨h.kept (unheard answers_eq) (removed.told_eq o) fun _ => removed.waits,
      .inr (removed.told_eq o)⟩

/-- A discovery starts. -/
theorem of_call (discovers : call = .discoverHand ∨ call = .discoverChar)
    (fresh : s.Fresh s.nextOwner) (hanswers : (s.call call).answers s.nextOwner = []) :
    (s.call call).Discovering call s.nextOwner := by
  have sends := sends_call s call
  have hnew : (⟨s.nextOwner, (call.begin s.mtu.buflen).1, (call.begin s.mtu.buflen).2⟩ :
    Task Pdu Proc).owner = s.nextOwner := rfl
  refine .waiting hnew ?_ (fun f hf => ?_) ?_
  · rw [found, hanswers]
    rcases discovers with rfl | rfl
    · exact .hand 0x0001 0xffff []
    · exact .char 0x0001 0xffff []
  · have hle := fresh.waits f hf
    have hload := sends.load_eq f
    have hnamed : (s.named call).load f = s.load f := rfl
    rw [tally_nil] at hle
    rw [hload, hnamed, tally_cons, tally_nil]
    split
    · omega
    · omega
  · refine (sends.told_eq _).trans ?_
    simpa [told, named, Link.record, Act.eventOf] using fresh.told_eq

end Discovering

/-! ### Runs -/

/-- The event handler does not give the connection up. -/
def Held (s : Link) (label : Label) : Prop := label = .drop → s.todo = []

instance (s : Link) (label : Label) : Decidable (s.Held label) :=
  inferInstanceAs (Decidable (_ → _))

/-- The invariant about a discovery: its events stand together, and an operation that has not been
started has no answers. -/
structure Blocked (call : Call) (o : Nat) (s : Link) : Prop where
  tidy : s.Tidy
  stack : Stack s.todo
  unanswered : ∀ o, s.nextOwner ≤ o → s.answers o = []
  discovering : s.calls[o]? = some call → s.Discovering call o ∧
    Together (.procedure o) (s.told o = s.events o) s.delivered

namespace Blocked

theorem new (call : Call) (o : Nat) (mtu : Mtu) : (Link.new mtu).Blocked call o :=
  ⟨.new mtu, List.Pairwise.nil, fun _ _ => rfl, nofun⟩

/-- An operation that a step does not start hears nothing unless it has been started. -/
theorem unanswered_step {label : Label} (h : s.Blocked call o) (hstep : s.step label = some t)
    {o' : Nat} (ho : t.nextOwner ≤ o') : t.answers o' = [] := by
  obtain ⟨-, hnext, -⟩ := (h.tidy.effect hstep).calls_eq hstep
  have hle : s.nextOwner ≤ o' := by omega
  have hnil := h.unanswered o' hle
  have waits := (h.tidy.fresh o' hle).waits
  have hears : Hears s t o' := hears_of_step h.tidy h.stack hstep (by
    rintro call rfl
    rw [hnext, Label.calls, List.length_singleton] at ho
    omega)
  cases hears with
  | spared _ answers_eq | failed _ _ _ _ answers_eq | lost _ answers_eq =>
    exact answers_eq.trans hnil
  | repeated _ pos =>
    have hload := waits (own o') (own_of_ne o')
    rw [tally_nil] at hload
    omega
  | answered removes htask owner_eq => exact absurd owner_eq (waits.not_taken removes htask)

theorem step {label : Label} (discovers : call = .discoverHand ∨ call = .discoverChar)
    (h : s.Blocked call o) (hstep : s.step label = some t) : t.Blocked call o := by
  have delivers := delivers_of_step h.stack hstep
  refine ⟨h.tidy.step hstep, delivers.stack h.stack, fun _ => h.unanswered_step hstep,
    fun hcall => ?_⟩
  rcases h.tidy.call_cases hstep hcall with ⟨hlt, hcall⟩ | ⟨rfl, rfl⟩
  · obtain ⟨discovering, together⟩ := h.discovering hcall
    have stepped := discovering.step
      (hears_of_step h.tidy h.stack hstep fun _ _ => Nat.ne_of_gt hlt)
    exact ⟨stepped.1, delivers.together noted_of_answering h.stack stepped.2 together⟩
  · have fresh := h.tidy.fresh _ (Nat.le_refl _)
    have hevents := (List.append_eq_nil_iff.mp fresh.told_eq).1
    obtain ⟨hanswers, -⟩ := delivers.log_eq noted_of_answering s.nextOwner
    have together : Together (.procedure s.nextOwner) (s.told s.nextOwner = s.events s.nextOwner)
        s.delivered := .of_none _ (by rw [← events_eq]; exact hevents)
    have hnil : t.answers s.nextOwner = [] := by
      rw [hanswers, h.unanswered _ (Nat.le_refl _)]
      rfl
    obtain ⟨-, -, -, rfl⟩ := step_call hstep
    exact ⟨.of_call discovers fresh hnil,
      delivers.together noted_of_answering h.stack (.inl fresh.told_eq) together⟩

end Blocked

/-- **Discoveries are delivered in whole blocks.** On every connection that the event handler does
not give up, a discovery delivers nothing, or one error, or an event for every entry of its
responses in their order and the end marker. The events stand together: no other event comes
between them, and nothing comes after them before the block is closed, which it is when the library
returns. -/
theorem discovery_in_one_block (discovers : call = .discoverHand ∨ call = .discoverChar)
    (run : machine.Run Held (Link.new mtu) labels s) (ho : s.calls[o]? = some call) :
    ∃ outs, Delivery (s.found call o) outs ∧ s.events o <+: outs ∧
      (s.todo = [] → s.events o = outs) ∧
      Together (.procedure o) (s.events o = outs) s.delivered := by
  have blocked : s.Blocked call o := run.invariant (P := Blocked call o) (.new call o mtu)
    fun h _ hstep => h.step discovers hstep
  obtain ⟨discovering, together⟩ := blocked.discovering ho
  refine ⟨s.told o, discovering.delivery, List.prefix_append _ _, fun hidle => ?_,
    together.mono Eq.symm⟩
  rw [told, hidle, List.filterMap_nil, List.append_nil, events]

/-- The handles and the characteristics are discovered at the same time. The first response about
handles is followed by an error about characteristics and by a notification; inside the block that
comes then the handler reads a value. -/
def blocksRun : Option Link :=
  machine.execGuarded Held (Link.new attDefaultLeMtu) <| List.flatten
    [[.listen, .call .discoverHand, .call .discoverChar,
        .canWrite 5, .canRead [opFindInfoRsp, 1, 5, 0, 2, 0x29] 1 true], .replicate 6 .resume,
      [.canWrite 7, .canRead [opErrorRsp, opReadByTypeReq, 1, 0, ecodeAttrNotFound] 1 true,
        .resume, .ret], .replicate 8 .resume,
      [.canRead [opHandleNfy, 5, 0, 7] 1 true, .resume, .resume, .ret], .replicate 3 .resume,
      [.canWrite 5, .canRead [opErrorRsp, opFindInfoReq, 6, 0, ecodeAttrNotFound] 1 true,
        .resume, .call (.request 5), .ret, .resume, .ret], .replicate 8 .resume]

theorem discovery_in_one_block_blocksRun : ∃ s, blocksRun = some s ∧
    Delivery (s.found .discoverHand 0) (s.events 0) ∧
    Delivery (s.found .discoverChar 1) (s.events 1) ∧ (s.events 0).length = 2 ∧
    (s.events 1).length = 1 := by
  have hrun : blocksRun.map (fun s => (s.calls, s.todo, (s.events 0).length,
      (s.events 1).length)) =
      some ([.discoverHand, .discoverChar, .request 5], [], 2, 1) := by decide +kernel
  obtain ⟨s, hs, hdata⟩ := Option.map_eq_some_iff.mp hrun
  obtain ⟨hcalls, hidle, hzero, hone⟩ : s.calls = [.discoverHand, .discoverChar, .request 5] ∧
      s.todo = [] ∧ (s.events 0).length = 2 ∧ (s.events 1).length = 1 := by
    simpa only [Prod.mk.injEq] using hdata
  obtain ⟨outs, delivery, -, hclosed, -⟩ := discovery_in_one_block (.inl rfl)
    (machine.run_of_execGuarded hs) (show s.calls[0]? = some .discoverHand by rw [hcalls]; rfl)
  obtain ⟨outs', delivery', -, hclosed', -⟩ := discovery_in_one_block (.inr rfl)
    (machine.run_of_execGuarded hs) (show s.calls[1]? = some .discoverChar by rw [hcalls]; rfl)
  rw [← hclosed hidle] at delivery
  rw [← hclosed' hidle] at delivery'
  exact ⟨s, hs, delivery, delivery', hzero, hone⟩

end Link

end Libble
