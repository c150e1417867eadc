import Libble.Link.Effects

/-!
# A read in every run

A read of the application is a thread through the run: it waits for the answer of one request, or
it has told its outcome and its `request_t` is released. That it is one of the two after every step
is said once, for any condition on its requests and any condition on its outcome that its turns
keep. Whether a request that waits may be lost in the teardown is a parameter.

## Main definitions

* `Link.Waits`: the tasks that wait for an operation; `Link.Waiting`: a task waits.
* `Link.Thread`: where a read is.
* `Link.Tidy`: the invariant of all runs; nothing is known of operations that have not started.

## Main results

* `Link.Thread.step`: where a read is after a step.
* `Link.Tidy.thread`: the step rule for a read from its call on.
* `Link.Thread.run`, `Link.thread_of_run`: where a read is in a run.
-/

namespace Libble

open Att Gatt

namespace Link

variable {s t u : Link}

/-! ### Where an operation is -/

/-- One for every task of an operation. -/
def own (o : Nat) (task : Task Pdu Proc) : Nat := if task.owner = o then 1 else 0

/-- At most these tasks wait for an operation. -/
def Waits (s : Link) (o : Nat) (tasks : List (Task Pdu Proc)) : Prop :=
  ∀ f : Task Pdu Proc → Nat, (∀ task, task.owner ≠ o → f task = 0) → s.load f ≤ tally f tasks

/-- The turn leads to a task that is good or to events that are. -/
def Leads (Good : Task Pdu Proc → Prop) (Done : List Event → Prop) (owner : Nat) :
    Turn Pdu Proc Event → Prop
  | .next req cont => Good ⟨owner, req, cont⟩
  | .done events => Done events

/-- Where a read is: it waits for the answer to one request, or it has told its outcome. A waiting
request may be lost when nobody is `Kept`. -/
inductive Thread (Good : Task Pdu Proc → Prop) (Done : List Event → Prop) (Kept : Prop) (o : Nat)
    (s : Link) : Prop
  | waiting {task : Task Pdu Proc} (owner_eq : task.owner = o) (good : Good task)
      (waits : s.Waits o [task]) (kept : Kept → s.load (isOne task) = 1) (told_eq : s.told o = [])
      (releases_eq : s.releases o = 0)
  | ended (waits : s.Waits o []) (done : Done (s.told o)) (releases_eq : s.releases o = 1)

/-- Nothing is known of an operation. -/
structure Fresh (s : Link) (o : Nat) : Prop where
  waits : s.Waits o []
  told_eq : s.told o = []
  releases_eq : s.releases o = 0

/-- The invariant of all runs about operations: those that have not been started are unknown. -/
structure Tidy (s : Link) : Prop where
  orderly : s.Orderly
  named : s.calls.length = s.nextOwner
  fresh : ∀ o, s.nextOwner ≤ o → s.Fresh o

section Waiting

variable {o : Nat} {tasks : List (Task Pdu Proc)} {task : Task Pdu Proc} {op : Op}

theorem own_of_ne (o : Nat) (task : Task Pdu Proc) (h : task.owner ≠ o) : own o task = 0 := if_neg h

theorem isOne_of_owner (h : task.owner = o) (t : Task Pdu Proc) (ht : t.owner ≠ o) :
    isOne task t = 0 := if_neg fun heq => ht (by rw [heq, h])

theorem own_self (h : task.owner = o) : own o task = 1 := if_pos h

/-- Nothing more waits. -/
theorem Waits.mono (h : s.Waits o tasks)
    (le : ∀ f : Task Pdu Proc → Nat, (∀ task, task.owner ≠ o → f task = 0) → t.load f ≤ s.load f) :
    t.Waits o tasks := fun f hf => Nat.le_trans (le f hf) (h f hf)

theorem weigh_of_task (htask : op.task = some task) (f : Task Pdu Proc → Nat) :
    op.weigh f = f task := by
  rw [Op.weigh, htask]
  rfl

/-- A task that stops waiting is the one that waited. -/
theorem Waits.taken (h : s.Waits o [task]) {task' : Task Pdu Proc} (removes : Removes s u op)
    (htask : op.task = some task') (howner : task'.owner = o) : task' = task ∧ u.Waits o [] := by
  have load_eq := fun f => weigh_of_task htask f ▸ removes.load_eq f
  have heq : task' = task := by
    classical
    by_contra hne
    have hle := h (fun t => if t = task' then 1 else 0) fun t ht => if_neg fun heq => ht (by
      rw [heq, howner])
    have hload := load_eq fun t => if t = task' then 1 else 0
    simp only [tally_cons, tally_nil, if_neg (Ne.symm hne)] at hle
    simp only [if_true] at hload
    omega
  refine ⟨heq, fun f hf => ?_⟩
  have hle := h f hf
  have hload := load_eq f
  subst heq
  simp only [tally_cons, tally_nil] at hle ⊢
  omega

end Waiting

/-- A task waits for its answer: its request is queued or pending, or the code is about to have it
answered with an error. -/
def Waiting (s : Link) (task : Task Pdu Proc) : Prop :=
  ∃ op, op.task = some task ∧ (op ∈ s.reqQueue ++ s.writeQueue ∨
    (s.pendingReq = some op ∧ tally Code.ends s.todo = 0) ∨ .discOp op ∈ s.todo)

/-- A task waits if and only if it counts. -/
theorem waiting_iff (s : Link) (task : Task Pdu Proc) :
    s.Waiting task ↔ 0 < s.load (isOne task) := by
  have task_of_weigh : ∀ op : Op, 0 < op.weigh (isOne task) → op.task = some task := by
    intro op hpos
    cases htask : op.task with
    | none =>
      rw [Op.weigh, htask] at hpos
      cases hpos
    | some task' =>
      rw [weigh_of_task htask] at hpos
      by_cases heq : task' = task
      · rw [heq]
      · rw [isOne, if_neg heq] at hpos
        cases hpos
  constructor
  · rintro ⟨op, htask, h⟩
    have hone : op.weigh (isOne task) = 1 := by rw [weigh_of_task htask, isOne_self]
    rcases h with h | ⟨hp, hends⟩ | h
    · have hle := le_tally_of_mem (f := Op.weigh (isOne task)) h
      rw [tally_append] at hle
      rw [load]
      omega
    · rw [load, hp, if_pos hends, Option.toList_some, tally_cons, hone]
      omega
    · have hle := le_tally_of_mem (f := Code.weigh (isOne task)) h
      rw [Code.weigh, hone] at hle
      rw [load]
      omega
  · intro hpos
    by_cases hqueues : 0 < tally (Op.weigh (isOne task)) (s.reqQueue ++ s.writeQueue)
    · obtain ⟨op, hop, hweigh⟩ := exists_mem_of_tally_pos hqueues
      exact ⟨op, task_of_weigh op hweigh, .inl hop⟩
    by_cases hcodes : 0 < tally (Code.weigh (isOne task)) s.todo
    · obtain ⟨code, hcode, hweigh⟩ := exists_mem_of_tally_pos hcodes
      cases code with
      | discOp op => exact ⟨op, task_of_weigh op hweigh, .inr (.inr hcode)⟩
      | _ => cases hweigh
    by_cases hends : tally Code.ends s.todo = 0
    · rw [tally_append] at hqueues
      rw [load, if_pos hends] at hpos
      obtain ⟨op, hop, hweigh⟩ := exists_mem_of_tally_pos
        (show 0 < tally (Op.weigh (isOne task)) s.pendingReq.toList by omega)
      exact ⟨op, task_of_weigh op hweigh, .inr (.inl ⟨Option.mem_toList.mp hop, hends⟩)⟩
    · rw [tally_append] at hqueues
      rw [load, if_neg hends] at hpos
      omega

/-- A read that waits is good, has told nothing, and waits for nothing else. -/
theorem Thread.of_waiting {Good : Task Pdu Proc → Prop} {Done : List Event → Prop} {Kept : Prop}
    {o : Nat} {task : Task Pdu Proc} (h : s.Thread Good Done Kept o) (howner : task.owner = o)
    (waiting : s.Waiting task) :
    Good task ∧ s.Waits o [task] ∧ s.told o = [] ∧ s.releases o = 0 := by
  have hpos := (waiting_iff s task).mp waiting
  cases h with
  | @waiting task' _ good waits _ told_eq releases_eq =>
    have hle := waits _ (isOne_of_owner howner)
    obtain rfl : task' = task := by
      by_contra hne
      rw [tally_cons, isOne, if_neg hne, tally_nil] at hle
      omega
    exact ⟨good, waits, told_eq, releases_eq⟩
  | ended waits =>
    have hle := waits _ (isOne_of_owner howner)
    rw [tally_nil] at hle
    omega

/-- Nothing happens to an operation. -/
structure Spares (s t : Link) (o : Nat) : Prop where
  load_eq : ∀ f : Task Pdu Proc → Nat, (∀ task, task.owner ≠ o → f task = 0) →
    t.load f = s.load f
  told_eq : t.told o = s.told o
  releases_eq : t.releases o = s.releases o

theorem Spares.waits {o : Nat} {tasks : List (Task Pdu Proc)} (h : Spares s t o)
    (waits : s.Waits o tasks) : t.Waits o tasks :=
  waits.mono fun f hf => Nat.le_of_eq (h.load_eq f hf)

theorem Loses.waits {o : Nat} {tasks : List (Task Pdu Proc)} (h : Loses s t)
    (waits : s.Waits o tasks) : t.Waits o tasks := waits.mono fun f _ => h.load_le f

/-- What a step does to an operation that it does not start: nothing, or its callback is called, or
its request may be lost. -/
theorem Effect.about {label : Label} (effect : Effect s t label) (o : Nat)
    (ho : ∀ call, label = .call call → s.nextOwner ≠ o) :
    Spares s t o ∨
      (∃ u op task turn, Removes s u op ∧ op.task = some task ∧ task.owner = o ∧
        TurnSource s label task turn ∧ Reacts u t task turn) ∨
      ∃ code ∈ s.todo, code.loses = true ∧ Loses s t := by
  cases effect with
  | still still =>
    exact .inl ⟨fun f _ => still.load_eq f, still.told_eq o, still.releases_eq o⟩
  | @started call hlabel sends =>
    refine .inl ⟨fun f hf => ?_, ?_, sends.releases_eq o⟩
    · rw [sends.load_eq, hf _ (ho call hlabel), ite_self, Nat.add_zero]
      rfl
    · refine (sends.told_eq o).trans ?_
      simp [told, named, Link.record, Act.eventOf]
  | @reacted u op task turn removes htask source reacts =>
    by_cases howner : task.owner = o
    · exact .inr (.inl ⟨u, op, task, turn, removes, htask, howner, source, reacts⟩)
    · refine .inl ⟨fun f hf => ?_, (reacts.told_other o (Ne.symm howner)).trans (removes.told_eq o),
        (reacts.releases_other o (Ne.symm howner)).trans (removes.releases_eq o)⟩
      have hload := removes.load_eq f
      rw [weigh_of_task htask, hf task howner] at hload
      have hzero : tally f (turn.tasks task.owner) = 0 := by
        cases turn with
        | next req cont => exact (Nat.add_zero _).trans (hf _ howner)
        | done events => rfl
      rw [reacts.load_eq, hzero, ite_self]
      exact hload
  | lost mem loses removed => exact .inr (.inr ⟨_, mem, loses, removed⟩)

section Steps

variable {label : Label} {o : Nat} {Good : Task Pdu Proc → Prop} {Done : List Event → Prop}
  {Kept : Prop}

theorem Waits.not_taken (h : s.Waits o []) {op : Op} {task : Task Pdu Proc}
    (removes : Removes s u op) (htask : op.task = some task) : task.owner ≠ o := by
  intro howner
  have hle := h (own o) (own_of_ne o)
  have hload := removes.load_eq (own o)
  rw [weigh_of_task htask, own_self howner] at hload
  rw [tally_nil] at hle
  omega

theorem Fresh.step (h : s.Fresh o) (effect : Effect s t label)
    (ho : ∀ call, label = .call call → s.nextOwner ≠ o) : t.Fresh o := by
  rcases effect.about o ho with spares | ⟨u, op, task, turn, removes, htask, howner, -⟩ |
    ⟨code, -, -, removed⟩
  · exact ⟨spares.waits h.waits, spares.told_eq.trans h.told_eq,
      spares.releases_eq.trans h.releases_eq⟩
  · exact absurd howner (h.waits.not_taken removes htask)
  · exact ⟨removed.waits h.waits, (removed.told_eq o).trans h.told_eq,
      (removed.releases_eq o).trans h.releases_eq⟩

/-- A turn is what the callback does with some response. -/
theorem TurnSource.exists_react {task : Task Pdu Proc} {turn : Turn Pdu Proc Event}
    (source : TurnSource s label task turn) :
    ∃ status rpdu, turn = turnOf (react s.mtu.buflen task.cont status rpdu) := by
  cases source with
  | failed => exact ⟨_, _, rfl⟩
  | answered => exact ⟨_, _, rfl⟩

/-- A procedure that goes on is the same kind of procedure. -/
theorem TurnSource.isRead_of_next {task : Task Pdu Proc} {req : Pdu} {cont : Proc}
    (source : TurnSource s label task (.next req cont)) : cont.isRead = task.cont.isRead := by
  obtain ⟨status, rpdu, hturn⟩ := source.exists_react
  cases hreact : react s.mtu.buflen task.cont status rpdu with
  | send pdu next =>
    rw [hreact] at hturn
    obtain ⟨rfl, rfl⟩ := Turn.next.inj hturn
    exact (continues_of_react s.mtu.le_buflen hreact).isRead
  | finish events =>
    rw [hreact] at hturn
    cases hturn

/-- A procedure goes on only while the channel is attached. -/
theorem TurnSource.attached_of_next {task : Task Pdu Proc} {req : Pdu} {cont : Proc}
    (source : TurnSource s label task (.next req cont)) : s.attached = true := by
  generalize hturn : Turn.next req cont = turn at source
  cases source with
  | failed =>
    obtain ⟨events, hevents⟩ : ∃ events, react s.mtu.buflen task.cont 0x0e [opErrorRsp] =
      .finish events := react_of_error (by decide)
    rw [hevents] at hturn
    cases hturn
  | answered hlabel hne hpending htask attached => exact attached

/-- **Where a read is after a step.** The turns of the read have to keep it good, and the teardown
has to spare it if it is to be kept. -/
theorem Thread.step (h : s.Thread Good Done Kept o) (effect : Effect s t label)
    (ho : ∀ call, label = .call call → s.nextOwner ≠ o)
    (isRead : ∀ task, Good task → task.cont.isRead = true)
    (turns : ∀ task turn, task.owner = o → Good task → TurnSource s label task turn →
      Leads Good Done o turn)
    (keeps : Kept → ∀ code ∈ s.todo, code.loses = true → ∀ task, Good task →
      s.load (isOne task) = 0) : t.Thread Good Done Kept o := by
  rcases effect.about o ho with spares |
    ⟨u, op, task, turn, removes, htask, howner, source, reacts⟩ | ⟨code, mem, loses, removed⟩
  · cases h with
    | waiting owner_eq good waits kept told_eq releases_eq =>
      exact .waiting owner_eq good (spares.waits waits)
        (fun hk => (spares.load_eq _ (isOne_of_owner owner_eq)).trans (kept hk))
        (spares.told_eq.trans told_eq) (spares.releases_eq.trans releases_eq)
    | ended waits done releases_eq =>
      exact .ended (spares.waits waits) (by rwa [spares.told_eq])
        (spares.releases_eq.trans releases_eq)
  · cases h with
    | ended waits => exact absurd howner (waits.not_taken removes htask)
    | @waiting task' _ good waits kept told_eq releases_eq =>
      obtain ⟨rfl, waits'⟩ := waits.taken removes htask howner
      have leads := turns task turn howner good source
      have htold : u.told task.owner = [] := by rw [howner, removes.told_eq, told_eq]
      have hreleases : u.releases task.owner = 0 := by
        rw [howner, removes.releases_eq, releases_eq]
      have hself := reacts.told_self htold
      subst howner
      cases turn with
      | next req cont =>
        have attached := removes.attached_eq.trans source.attached_of_next
        have hload : ∀ f, t.load f = u.load f + f ⟨task.owner, req, cont⟩ := fun f => by
          rw [reacts.load_eq, attached]
          rfl
        have hnew : (⟨task.owner, req, cont⟩ : Task Pdu Proc).owner = task.owner := rfl
        refine .waiting hnew leads (fun f hf => ?_) (fun _ => ?_)
          hself ((reacts.releases_next req cont rfl).trans hreleases)
        · have hle := waits' f hf
          rw [tally_nil] at hle
          rw [hload, tally_cons, tally_nil]
          omega
        · have hle := waits' _ (isOne_of_owner hnew)
          rw [tally_nil] at hle
          rw [hload, isOne_self]
          omega
      | done events =>
        refine .ended (fun f hf => ?_) (hself ▸ leads) ?_
        · have hle := waits' f hf
          rw [reacts.load_eq]
          simpa [Turn.tasks] using hle
        · rw [reacts.releases_self events rfl (isRead task good), hreleases]
  · cases h with
    | waiting owner_eq good waits kept told_eq releases_eq =>
      refine .waiting owner_eq good (removed.waits waits) (fun hk => ?_)
        ((removed.told_eq o).trans told_eq) ((removed.releases_eq o).trans releases_eq)
      have hzero := keeps hk code mem loses _ good
      have hone := kept hk
      omega
    | ended waits done releases_eq =>
      exact .ended (removed.waits waits) (by rwa [removed.told_eq])
        ((removed.releases_eq o).trans releases_eq)

/-- A read starts. -/
theorem Thread.of_call {call : Call} (fresh : s.Fresh s.nextOwner)
    (good : Good ⟨s.nextOwner, (call.begin s.mtu.buflen).1, (call.begin s.mtu.buflen).2⟩)
    (accepted : Kept → s.attached = true) :
    (s.call call).Thread Good Done Kept s.nextOwner := by
  have sends := sends_call s call
  have hload : ∀ f, (s.call call).load f = s.load f + if s.attached then
      f ⟨s.nextOwner, (call.begin s.mtu.buflen).1, (call.begin s.mtu.buflen).2⟩ else 0 :=
    sends.load_eq
  have hnew : (⟨s.nextOwner, (call.begin s.mtu.buflen).1, (call.begin s.mtu.buflen).2⟩ :
    Task Pdu Proc).owner = s.nextOwner := rfl
  refine .waiting hnew good (fun f hf => ?_) (fun hk => ?_) ?_ ?_
  · have hle := fresh.waits f hf
    rw [tally_nil] at hle
    rw [hload, tally_cons, tally_nil]
    split
    · omega
    · omega
  · have hle := fresh.waits _ (isOne_of_owner hnew)
    rw [tally_nil] at hle
    rw [hload, accepted hk, isOne_self, if_pos rfl]
    omega
  · refine (sends.told_eq _).trans ?_
    simpa [told, named, Link.record, Act.eventOf] using fresh.told_eq
  · exact (sends.releases_eq _).trans fresh.releases_eq

end Steps

/-! ### Runs -/

namespace Tidy

theorem new (mtu : Mtu) : (Link.new mtu).Tidy :=
  ⟨.new mtu, rfl, fun _ _ => ⟨fun _ _ => Nat.le_refl 0, rfl, rfl⟩⟩

theorem effect (h : s.Tidy) {label : Label} (hstep : s.step label = some t) : Effect s t label :=
  effect_of_step h.orderly hstep

/-- Every step keeps the operations in order. -/
theorem step (h : s.Tidy) {label : Label} (hstep : s.step label = some t) : t.Tidy := by
  have effect := h.effect hstep
  obtain ⟨hcalls, hnext, -⟩ := effect.calls_eq hstep
  refine ⟨effect.orderly h.orderly, ?_, fun o ho => ?_⟩
  · rw [hcalls, hnext, List.length_append, h.named]
  · refine (h.fresh o (by omega)).step effect ?_
    rintro call rfl
    rw [hnext, Label.calls, List.length_singleton] at ho
    omega

/-- A call that has been made after a step was made before it or is made by it. -/
theorem call_cases (h : s.Tidy) {label : Label} (hstep : s.step label = some t) {o : Nat}
    {call : Call} (hcall : t.calls[o]? = some call) :
    (o < s.nextOwner ∧ s.calls[o]? = some call) ∨ (o = s.nextOwner ∧ label = .call call) := by
  obtain ⟨hcalls, -, -⟩ := (h.effect hstep).calls_eq hstep
  rcases Nat.lt_or_ge o s.nextOwner with hlt | hge
  · rw [hcalls, List.getElem?_append_left (h.named ▸ hlt)] at hcall
    exact .inl ⟨hlt, hcall⟩
  · rw [hcalls, List.getElem?_append_right (h.named ▸ hge), h.named] at hcall
    cases label with
    | call c =>
      obtain ⟨hlt, heq⟩ := List.getElem?_eq_some_iff.mp hcall
      rw [Label.calls, List.length_singleton] at hlt
      obtain rfl : o = s.nextOwner := by omega
      exact .inr ⟨rfl, by simpa [Label.calls] using heq⟩
    | _ => cases hcall

/-- **Where a read is in a run.** One step of it. -/
theorem thread {o : Nat} {Good : Task Pdu Proc → Prop} {Done : List Event → Prop} {Kept : Prop}
    {call : Call} {label : Label} (h : s.Tidy) (hstep : s.step label = some t)
    (thread : s.calls[o]? = some call → s.Thread Good Done Kept o)
    (first : Good ⟨o, (call.begin s.mtu.buflen).1, (call.begin s.mtu.buflen).2⟩)
    (accepted : Kept → label = .call call → s.attached = true)
    (isRead : ∀ task, Good task → task.cont.isRead = true)
    (turns : ∀ task turn, task.owner = o → Good task → TurnSource s label task turn →
      Leads Good Done o turn)
    (keeps : Kept → ∀ code ∈ s.todo, code.loses = true → ∀ task, Good task →
      s.load (isOne task) = 0) : t.calls[o]? = some call → t.Thread Good Done Kept o := by
  intro hcall
  rcases h.call_cases hstep hcall with ⟨hlt, hcall⟩ | ⟨rfl, rfl⟩
  · exact (thread hcall).step (h.effect hstep) (fun _ _ => Nat.ne_of_gt hlt) isRead turns keeps
  · obtain ⟨-, -, -, rfl⟩ := step_call hstep
    exact .of_call (h.fresh _ (Nat.le_refl _)) first fun hk => accepted hk rfl

end Tidy

section Runs

variable {ok : Link → Label → Prop} {mtu : Mtu} {labels : List Label} {o : Nat}
  {Good : Task Pdu Proc → Prop} {Done : List Event → Prop}

/-- What has to be shown of the turns of a read in a guarded run. -/
def Keeps (ok : Link → Label → Prop) (mtu : Mtu) (o : Nat) (Good : Task Pdu Proc → Prop)
    (Done : List Event → Prop) : Prop :=
  ∀ s label task turn, s.mtu = mtu → ok s label → task.owner = o → Good task →
    TurnSource s label task turn → Leads Good Done o turn

/-- **Where a read is in a run** that goes on from a state where it has started. -/
theorem Thread.run (run : machine.Run ok s labels t) (tidy : s.Tidy) (hmtu : s.mtu = mtu)
    (ho : o < s.nextOwner) (thread : s.Thread Good Done False o)
    (isRead : ∀ task, Good task → task.cont.isRead = true) (turns : Keeps ok mtu o Good Done) :
    t.Thread Good Done False o := by
  have invariant : t.Tidy ∧ t.mtu = mtu ∧ o < t.nextOwner ∧ t.Thread Good Done False o := by
    refine run.invariant (P := fun a => a.Tidy ∧ a.mtu = mtu ∧ o < a.nextOwner ∧
      a.Thread Good Done False o) ⟨tidy, hmtu, ho, thread⟩ ?_
    rintro a label b ⟨tidy, hmtu, ho, thread⟩ guard hstep
    obtain ⟨-, hnext, hmtu'⟩ := (tidy.effect hstep).calls_eq hstep
    exact ⟨tidy.step hstep, hmtu'.trans hmtu, by omega, thread.step (tidy.effect hstep)
      (fun _ _ => Nat.ne_of_gt ho) isRead (fun task turn => turns a label task turn hmtu guard)
      nofun⟩
  exact invariant.2.2.2

/-- Where a read is in a run from the beginning. -/
theorem thread_of_run (call : Call) (run : machine.Run ok (Link.new mtu) labels s)
    (first : Good ⟨o, (call.begin mtu.buflen).1, (call.begin mtu.buflen).2⟩)
    (isRead : ∀ task, Good task → task.cont.isRead = true) (turns : Keeps ok mtu o Good Done) :
    s.Tidy ∧ s.mtu = mtu ∧ (s.calls[o]? = some call → s.Thread Good Done False o) := by
  refine run.invariant (P := fun a => a.Tidy ∧ a.mtu = mtu ∧
    (a.calls[o]? = some call → a.Thread Good Done False o)) ⟨.new mtu, rfl, nofun⟩ ?_
  rintro a label b ⟨tidy, hmtu, thread⟩ guard hstep
  obtain ⟨-, -, hmtu'⟩ := (tidy.effect hstep).calls_eq hstep
  exact ⟨tidy.step hstep, hmtu'.trans hmtu, tidy.thread hstep thread (hmtu ▸ first) nofun isRead
    (fun task turn => turns a label task turn hmtu guard) nofun⟩

end Runs

end Link

end Libble
