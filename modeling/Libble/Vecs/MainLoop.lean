import Libble.Foundation.LabelledMachine

/-!
# Stopping vecs_connect

`vecs_connect` waits in a GLib main loop until it is told to quit: by the signal `SIGINT`, by an
error or by the loss of the connection. All of them call `quit`, which finds the loop by the global
pointer `event_loop`, tells it to quit, gives its reference back and clears the pointer. This file
follows one call of `vecs_connect` statement by statement, with signals in between at any point,
also in the middle of `quit`, and says when a request to quit is heeded.

A reading of the pointer for `g_main_loop_run` and the entry into the loop are two statements here,
and so are the creation of the loop and the assignment of the pointer. That a quit request of the
event handler is raised is a statement of the handler.

## Main definitions

* `Vecs.Statement`: the statements of `vecs_connect` and `quit`, as the places where they are.
* `Vecs.Connect`: the state of a call of `vecs_connect`.
* `Vecs.Connect.step`, `Vecs.Connect.machine`.
* `Vecs.Connect.RaisesHeeded`: the guard.
* `Vecs.Connect.Stage`: the invariant.
* `Vecs.Connect.Heeded`: the requests raised so far are heeded.

## Main results

* `Vecs.quit_heeded`: a quit request is heeded, and the loop is given back once.
* `Vecs.not_heeded_earlyRun`: a request that comes before the loop is lost.
-/

namespace Libble.Vecs

/-- The statements of `vecs_connect`, of the event handler that it calls and of `quit`. Each names
the place where its function is. -/
inductive Statement
  /-- `signal(SIGINT, sigint)`, and the making of the handle. -/
  | install
  /-- `lble_connect` -/
  | lbleConnect
  /-- `g_main_loop_new` -/
  | loopNew
  /-- `event_loop` is assigned. -/
  | loopAssign
  /-- `if (event_loop)` before the loop. -/
  | testLoop
  /-- `event_loop` is read for `g_main_loop_run`. -/
  | runLoad
  /-- `g_main_loop_run` of a loop enters it. -/
  | runEnter
  /-- The loop runs. -/
  | loop
  /-- `if (event_loop)` after the loop. -/
  | testAgain
  /-- `g_main_loop_unref(event_loop)` after the loop. -/
  | unrefLoop
  /-- `lble_disconnect` -/
  | lbleDisconnect
  /-- `lble_freedev` -/
  | lbleFreedev
  /-- `notify_handler` calls `quit`. -/
  | raise
  /-- `if (event_loop)` in `quit`. -/
  | quitTest
  /-- `g_main_loop_quit(event_loop)` -/
  | quitQuit
  /-- `g_main_loop_unref(event_loop)` in `quit`. -/
  | quitUnref
  /-- `event_loop = NULL` -/
  | quitClear
  deriving DecidableEq, Repr

/-- The statement belongs to a quit request. -/
def Statement.isQuit : Statement → Bool
  | raise | quitTest | quitQuit | quitUnref | quitClear => true
  | _ => false

/-- A call of `vecs_connect`. -/
structure Connect where
  /-- `event_loop` is not `NULL`. -/
  eventLoop : Bool
  /-- The handler of `SIGINT` is installed. -/
  installed : Bool
  /-- `is_running` of the loop. -/
  running : Bool
  /-- How often a main loop was created. -/
  created : Nat
  /-- How often it was unreferenced. -/
  unrefs : Nat
  /-- How many quit requests were raised. -/
  requests : Nat
  /-- Where the active functions are, innermost first; `vecs_connect` is the last one. -/
  todo : List Statement
  deriving DecidableEq, Repr

namespace Connect

/-- The call begins; no loop is left over. -/
def start : Connect where
  eventLoop := false
  installed := false
  running := false
  created := 0
  unrefs := 0
  requests := 0
  todo := [.install]

/-- Go on at some statements. -/
def push (s : Connect) (codes : List Statement) : Connect := { s with todo := codes ++ s.todo }

/-- `g_main_loop_unref(event_loop)`; a null pointer is refused. -/
def unref (s : Connect) : Connect := if s.eventLoop then { s with unrefs := s.unrefs + 1 } else s

/-- `quit` is called. -/
def request (s : Connect) : Connect := { s with requests := s.requests + 1 }.push [.quitTest]

/-- Run a statement. -/
def run (s : Connect) : Statement → Connect
  | .install => { s with installed := true }.push [.lbleConnect]
  | .loopNew => { s with created := s.created + 1 }.push [.loopAssign]
  | .loopAssign => { s with eventLoop := true }.push [.testLoop]
  | .testLoop => s.push [if s.eventLoop then .runLoad else .lbleDisconnect]
  | .runLoad => s.push [if s.eventLoop then .runEnter else .testAgain]
  | .runEnter => { s with running := true }.push [.loop]
  | .loop => s.push [.testAgain]
  | .testAgain => s.push [if s.eventLoop then .unrefLoop else .lbleDisconnect]
  | .unrefLoop => s.unref.push [.lbleDisconnect]
  | .raise => s.request
  | .quitTest => if s.eventLoop then s.push [.quitQuit] else s
  | .quitQuit => (if s.eventLoop then { s with running := false } else s).push [.quitUnref]
  | .quitUnref => s.unref.push [.quitClear]
  | .quitClear => { s with eventLoop := false }
  | .lbleConnect | .lbleDisconnect | .lbleFreedev => s

/-- The steps. -/
inductive Label
  /-- The innermost function runs its next statement. -/
  | advance
  /-- `lble_connect` returns; if it failed, the handler was told an error and
  `STATE_DISCONNECTED`. -/
  | lbleConnect (failed : Bool)
  /-- `lble_disconnect` returns; if there was a connection, the handler was told
  `STATE_DISCONNECTED`. -/
  | lbleDisconnect (connected : Bool)
  /-- The main loop dispatches an event after which the handler calls `quit`. -/
  | dispatch
  /-- `SIGINT` arrives. -/
  | sigint
  deriving DecidableEq, Repr

/-- The statement can be run as such: the library functions return by steps of their own, and the
loop is left when it was told to quit. -/
def Advances (s : Connect) : Statement → Prop
  | .lbleConnect | .lbleDisconnect => False
  | .loop => s.running = false
  | _ => True

instance (s : Connect) (code : Statement) : Decidable (s.Advances code) := by
  cases code <;> unfold Advances <;> infer_instance

/-- One step. -/
def step (s : Connect) : Label → Option Connect
  | .advance => match s.todo with
    | code :: todo => if s.Advances code then some ({ s with todo := todo }.run code) else none
    | [] => none
  | .lbleConnect failed => match s.todo with
    | .lbleConnect :: todo =>
      some ({ s with todo := todo }.push
        (if failed then [.raise, .raise, .loopNew] else [.loopNew]))
    | _ => none
  | .lbleDisconnect connected => match s.todo with
    | .lbleDisconnect :: todo =>
      some ({ s with todo := todo }.push
        (if connected then [.raise, .lbleFreedev] else [.lbleFreedev]))
    | _ => none
  | .dispatch => match s.todo with
    | .loop :: _ => some (s.push [.raise])
    | _ => none
  | .sigint => if s.installed ∧ s.todo ≠ [] then some s.request else none

/-- A call of `vecs_connect` as a labelled machine. -/
def machine : LabelledMachine Connect Label := ⟨step⟩

/-- A quit request that is raised now is heeded: `event_loop` has been assigned, the loop is not
about to be entered, and no `quit` is between giving the loop back and clearing the pointer. -/
structure Heeds (s : Connect) : Prop where
  assigned : ∀ code ∈ s.todo,
    code ≠ .install ∧ code ≠ .lbleConnect ∧ code ≠ .loopNew ∧ code ≠ .loopAssign
  not_entering : s.todo.head? ≠ some .runEnter
  not_clearing : s.todo.head? = some .quitClear → s.eventLoop = false

instance (s : Connect) : Decidable s.Heeds :=
  decidable_of_iff (_ ∧ _ ∧ _) ⟨fun ⟨a, b, c⟩ => ⟨a, b, c⟩, fun ⟨a, b, c⟩ => ⟨a, b, c⟩⟩

/-- Quit requests are raised only when they are heeded. -/
def RaisesHeeded (s : Connect) : Label → Prop
  | .advance => s.todo.head? = some .raise → s.Heeds
  | .sigint => s.Heeds
  | _ => True

instance (s : Connect) (l : Label) : Decidable (s.RaisesHeeded l) := by
  cases l <;> unfold RaisesHeeded <;> infer_instance

/-! ### Stages -/

/-- How far the call is, with what is left of quit requests in front of where `vecs_connect` is. -/
inductive Stage (s : Connect) : Prop
  /-- There is no loop yet. -/
  | early (quits : List Statement) (at_ : Statement) (todo : s.todo = quits ++ [at_])
      (raises : ∀ c ∈ quits, c = .raise)
      (place : at_ = .install ∨ at_ = .lbleConnect ∨ at_ = .loopNew ∨ at_ = .loopAssign)
      (eventLoop : s.eventLoop = false) (created : s.created = if at_ = .loopAssign then 1 else 0)
      (unrefs : s.unrefs = 0) (requests : s.requests = 0)
  /-- There is a loop. -/
  | alive (quits : List Statement) (at_ : Statement) (todo : s.todo = quits ++ [at_])
      (quitting : ∀ c ∈ quits, c = .raise ∨ c = .quitTest ∨ c = .quitQuit ∨ c = .quitUnref)
      (place : at_ = .testLoop ∨ at_ = .runLoad ∨ at_ = .runEnter ∨ at_ = .loop)
      (eventLoop : s.eventLoop = true) (created : s.created = 1) (unrefs : s.unrefs = 0)
      (idle : quits = [] → s.requests = 0 ∧ (at_ = .loop → s.running = true))
      (entering : at_ = .runEnter → quits = [])
      (halted : .quitUnref ∈ quits → s.running = false)
      (pending : 0 < s.requests → s.running = true → .quitTest ∈ quits ∨ .quitQuit ∈ quits)
  /-- The loop was given back, and the pointer is about to be cleared. -/
  | clearing (quits : List Statement) (at_ : Statement)
      (todo : s.todo = .quitClear :: quits ++ [at_])
      (quitting : ∀ c ∈ quits, c.isQuit = true)
      (place : at_ = .testLoop ∨ at_ = .runLoad ∨ at_ = .loop) (eventLoop : s.eventLoop = true)
      (created : s.created = 1) (unrefs : s.unrefs = 1) (running : s.running = false)
  /-- The loop was given back. -/
  | gone (quits : List Statement) (at_ : Statement) (todo : s.todo = quits ++ [at_])
      (quitting : ∀ c ∈ quits, c.isQuit = true)
      (place : at_ = .testLoop ∨ at_ = .runLoad ∨ at_ = .loop ∨ at_ = .testAgain ∨
        at_ = .lbleDisconnect ∨ at_ = .lbleFreedev)
      (eventLoop : s.eventLoop = false) (created : s.created = 1) (unrefs : s.unrefs = 1)
      (running : s.running = false)
  /-- `vecs_connect` has returned. -/
  | returned (todo : s.todo = []) (eventLoop : s.eventLoop = false) (created : s.created = 1)
      (unrefs : s.unrefs = 1) (running : s.running = false)

/-! ### The stages go on -/

variable {s t : Connect} {code : Statement} {todo : List Statement}

theorem step_advance (h : s.step .advance = some t) :
    ∃ code todo, s.todo = code :: todo ∧ s.Advances code ∧
      t = { s with todo := todo }.run code := by
  simp only [step] at h
  split at h
  · rename_i code todo htodo
    obtain ⟨advances, ht⟩ := Option.ite_none_right_eq_some.mp h
    exact ⟨code, todo, htodo, advances, (Option.some.inj ht).symm⟩
  · cases h

/-- What the stack begins with. -/
theorem cons_eq_append {quits : List Statement} {at_ : Statement}
    (h : code :: todo = quits ++ [at_]) :
    (quits = [] ∧ code = at_ ∧ todo = []) ∨
      ∃ quits', quits = code :: quits' ∧ todo = quits' ++ [at_] := by
  cases quits with
  | nil =>
    obtain ⟨rfl, rfl⟩ := List.cons.inj h
    exact .inl ⟨rfl, rfl, rfl⟩
  | cons c quits' =>
    obtain ⟨rfl, rfl⟩ := List.cons.inj h
    exact .inr ⟨quits', rfl, rfl⟩

/-- A quit request that is heeded is raised where a loop is, or after it. -/
theorem Stage.request (h : s.Stage) (heeds : s.Heeds) (htodo : s.todo ≠ []) :
    s.request.Stage := by
  cases h with
  | early quits at_ todo raises place =>
    have hmem : at_ ∈ s.todo := todo ▸ List.mem_append_right _ List.mem_cons_self
    obtain ⟨h₁, h₂, h₃, h₄⟩ := heeds.assigned at_ hmem
    rcases place with rfl | rfl | rfl | rfl
    · exact absurd rfl h₁
    · exact absurd rfl h₂
    · exact absurd rfl h₃
    · exact absurd rfl h₄
  | alive quits at_ todo quitting place eventLoop created unrefs idle entering halted pending =>
    have hentering : at_ ≠ .runEnter := by
      rintro rfl
      refine heeds.not_entering ?_
      rw [todo, entering rfl]
      rfl
    refine .alive (.quitTest :: quits) _ (congrArg (List.cons _) todo) ?_ place eventLoop
      created unrefs nofun (fun h => absurd h hentering) (fun h => ?_) fun _ _ => .inl (by simp)
    · exact List.forall_mem_cons.mpr ⟨.inr (.inl rfl), quitting⟩
    · exact halted ((List.mem_cons.mp h).resolve_left nofun)
  | clearing quits at_ todo _ _ eventLoop =>
    have hhead : s.todo.head? = some .quitClear := by rw [todo]; rfl
    exact nomatch eventLoop.symm.trans (heeds.not_clearing hhead)
  | gone quits at_ todo quitting place eventLoop created unrefs running =>
    refine .gone (.quitTest :: quits) _ (congrArg (List.cons _) todo) ?_ place eventLoop
      created unrefs running
    exact List.forall_mem_cons.mpr ⟨rfl, quitting⟩
  | returned todo => exact absurd todo htodo

/-- Before there is a loop `vecs_connect` goes on to make it. -/
theorem Stage.advance_early {quits : List Statement} {at_ : Statement}
    (htodo : s.todo = code :: todo) (hquits : code :: todo = quits ++ [at_])
    (raises : ∀ c ∈ quits, c = .raise)
    (place : at_ = .install ∨ at_ = .lbleConnect ∨ at_ = .loopNew ∨ at_ = .loopAssign)
    (eventLoop : s.eventLoop = false) (created : s.created = if at_ = .loopAssign then 1 else 0)
    (unrefs : s.unrefs = 0) (requests : s.requests = 0) (advances : s.Advances code)
    (heeded : s.RaisesHeeded .advance) : ({ s with todo := todo }.run code).Stage := by
  rcases cons_eq_append hquits with ⟨rfl, rfl, rfl⟩ | ⟨quits', rfl, rfl⟩
  · rcases place with rfl | rfl | rfl | rfl
    · exact .early [] _ rfl nofun (.inr (.inl rfl)) eventLoop created unrefs requests
    · exact advances.elim
    · refine .early [] _ rfl nofun (.inr (.inr (.inr rfl))) eventLoop ?_ unrefs requests
      show s.created + 1 = 1
      rw [created]
      rfl
    · refine .alive [] _ rfl nofun (.inl rfl) rfl created unrefs
        (fun _ => ⟨requests, nofun⟩) nofun nofun fun h => ?_
      exact absurd requests (Nat.ne_of_gt h)
  · -- a request that is raised here would not be heeded
    obtain rfl : code = .raise := raises code List.mem_cons_self
    have heeds := heeded (by rw [htodo]; rfl)
    have hmem : at_ ∈ s.todo := htodo ▸ hquits ▸ List.mem_append_right _ List.mem_cons_self
    obtain ⟨h₁, h₂, h₃, h₄⟩ := heeds.assigned at_ hmem
    rcases place with rfl | rfl | rfl | rfl
    · exact absurd rfl h₁
    · exact absurd rfl h₂
    · exact absurd rfl h₃
    · exact absurd rfl h₄

/-- While there is a loop it is entered, or a quit request goes on to end it. -/
theorem Stage.advance_alive {quits : List Statement} {at_ : Statement}
    (htodo : s.todo = code :: todo) (hquits : code :: todo = quits ++ [at_])
    (quitting : ∀ c ∈ quits, c = .raise ∨ c = .quitTest ∨ c = .quitQuit ∨ c = .quitUnref)
    (place : at_ = .testLoop ∨ at_ = .runLoad ∨ at_ = .runEnter ∨ at_ = .loop)
    (eventLoop : s.eventLoop = true) (created : s.created = 1) (unrefs : s.unrefs = 0)
    (idle : quits = [] → s.requests = 0 ∧ (at_ = .loop → s.running = true))
    (entering : at_ = .runEnter → quits = [])
    (halted : .quitUnref ∈ quits → s.running = false)
    (pending : 0 < s.requests → s.running = true → .quitTest ∈ quits ∨ .quitQuit ∈ quits)
    (advances : s.Advances code) : ({ s with todo := todo }.run code).Stage := by
  rcases cons_eq_append hquits with ⟨rfl, rfl, rfl⟩ | ⟨quits', rfl, rfl⟩
  · obtain ⟨requests, hrunning⟩ := idle rfl
    have none : ∀ {P : Prop}, 0 < s.requests → P := fun h => absurd requests (Nat.ne_of_gt h)
    rcases place with rfl | rfl | rfl | rfl
    · refine .alive [] .runLoad ?_ nofun (.inr (.inl rfl)) eventLoop created
        unrefs (fun _ => ⟨requests, nofun⟩) nofun nofun none
      simp [run, push, eventLoop]
    · refine .alive [] .runEnter ?_ nofun (.inr (.inr (.inl rfl))) eventLoop
        created unrefs (fun _ => ⟨requests, nofun⟩) (fun _ => rfl) nofun none
      simp [run, push, eventLoop]
    · exact .alive [] _ rfl nofun (.inr (.inr (.inr rfl))) eventLoop created
        unrefs (fun _ => ⟨requests, fun _ => rfl⟩) nofun nofun none
    · exact nomatch (hrunning rfl).symm.trans advances
  · have hplace : at_ = .testLoop ∨ at_ = .runLoad ∨ at_ = .loop := by
      rcases place with h | h | h | h
      · exact .inl h
      · exact .inr (.inl h)
      · cases entering h
      · exact .inr (.inr h)
    have hentering : at_ ≠ .runEnter := fun h => nomatch entering h
    obtain ⟨hcode, hquitting⟩ := List.forall_mem_cons.mp quitting
    have halted' : .quitUnref ∈ quits' → s.running = false :=
      fun h => halted (List.mem_cons_of_mem _ h)
    rcases hcode with rfl | rfl | rfl | rfl
    · exact .alive (.quitTest :: quits') _ rfl
        (List.forall_mem_cons.mpr ⟨.inr (.inl rfl), hquitting⟩) place eventLoop created unrefs nofun
        (fun h => absurd h hentering) (fun h => halted' ((List.mem_cons.mp h).resolve_left nofun))
        fun _ _ => .inl List.mem_cons_self
    · have hrun : { s with todo := quits' ++ [at_] }.run .quitTest =
          { s with todo := .quitQuit :: quits' ++ [at_] } := by
        simp [run, push, eventLoop]
      rw [hrun]
      exact .alive (.quitQuit :: quits') _ rfl
        (List.forall_mem_cons.mpr ⟨.inr (.inr (.inl rfl)), hquitting⟩) place eventLoop created
        unrefs nofun (fun h => absurd h hentering)
        (fun h => halted' ((List.mem_cons.mp h).resolve_left nofun))
        fun _ _ => .inr List.mem_cons_self
    · have hrun : { s with todo := quits' ++ [at_] }.run .quitQuit =
          { s with running := false, todo := .quitUnref :: quits' ++ [at_] } := by
        simp [run, push, eventLoop]
      rw [hrun]
      exact .alive (.quitUnref :: quits') _ rfl
        (List.forall_mem_cons.mpr ⟨.inr (.inr (.inr rfl)), hquitting⟩) place eventLoop created
        unrefs nofun (fun h => absurd h hentering) (fun _ => rfl) nofun
    · have hrun : { s with todo := quits' ++ [at_] }.run .quitUnref =
          { s with unrefs := s.unrefs + 1, todo := .quitClear :: quits' ++ [at_] } := by
        simp [run, push, unref, eventLoop]
      rw [hrun]
      refine .clearing _ _ rfl (fun c hc => ?_) hplace eventLoop created (congrArg (· + 1) unrefs)
        (halted List.mem_cons_self)
      rcases hquitting c hc with rfl | rfl | rfl | rfl
      · rfl
      · rfl
      · rfl
      · rfl

/-- After the loop was given back `vecs_connect` goes on to its end. -/
theorem Stage.advance_gone {quits : List Statement} {at_ : Statement}
    (hquits : code :: todo = quits ++ [at_]) (quitting : ∀ c ∈ quits, c.isQuit = true)
    (place : at_ = .testLoop ∨ at_ = .runLoad ∨ at_ = .loop ∨ at_ = .testAgain ∨
      at_ = .lbleDisconnect ∨ at_ = .lbleFreedev)
    (eventLoop : s.eventLoop = false) (created : s.created = 1) (unrefs : s.unrefs = 1)
    (running : s.running = false) (advances : s.Advances code) :
    ({ s with todo := todo }.run code).Stage := by
  rcases cons_eq_append hquits with ⟨rfl, rfl, rfl⟩ | ⟨quits', rfl, rfl⟩
  · rcases place with rfl | rfl | rfl | rfl | rfl | rfl
    · refine .gone [] .lbleDisconnect ?_ nofun (by simp) eventLoop created
        unrefs running
      simp [run, push, eventLoop]
    · refine .gone [] .testAgain ?_ nofun (by simp) eventLoop created unrefs
        running
      simp [run, push, eventLoop]
    · exact .gone [] .testAgain rfl nofun (by simp) eventLoop created unrefs
        running
    · refine .gone [] .lbleDisconnect ?_ nofun (by simp) eventLoop created
        unrefs running
      simp [run, push, eventLoop]
    · exact advances.elim
    · exact .returned rfl eventLoop created unrefs running
  · obtain ⟨hcode, hquitting⟩ := List.forall_mem_cons.mp quitting
    cases code with
    | raise =>
      exact .gone (.quitTest :: quits') _ rfl
        (List.forall_mem_cons.mpr ⟨rfl, hquitting⟩) place eventLoop created unrefs running
    | quitTest =>
      have hrun : { s with todo := quits' ++ [at_] }.run .quitTest =
          { s with todo := quits' ++ [at_] } := by simp [run, eventLoop]
      rw [hrun]
      exact .gone _ _ rfl hquitting place eventLoop created unrefs running
    | quitQuit =>
      have hrun : { s with todo := quits' ++ [at_] }.run .quitQuit =
          { s with todo := .quitUnref :: quits' ++ [at_] } := by simp [run, push, eventLoop]
      rw [hrun]
      exact .gone (.quitUnref :: quits') _ rfl
        (List.forall_mem_cons.mpr ⟨rfl, hquitting⟩) place eventLoop created unrefs running
    | quitUnref =>
      have hrun : { s with todo := quits' ++ [at_] }.run .quitUnref =
          { s with todo := .quitClear :: quits' ++ [at_] } := by simp [run, push, unref, eventLoop]
      rw [hrun]
      exact .gone (.quitClear :: quits') _ rfl
        (List.forall_mem_cons.mpr ⟨rfl, hquitting⟩) place eventLoop created unrefs running
    | quitClear => exact .gone _ _ rfl hquitting place rfl created unrefs running
    | _ => cases hcode

/-- What is known where `lble_connect` returns. -/
theorem Stage.of_lbleConnect (h : s.Stage) (htodo : s.todo = .lbleConnect :: todo) :
    todo = [] ∧ s.eventLoop = false ∧ s.created = 0 ∧ s.unrefs = 0 ∧ s.requests = 0 := by
  cases h with
  | early quits at_ hquits raises place eventLoop created unrefs requests =>
    rcases cons_eq_append (htodo.symm.trans hquits) with ⟨rfl, rfl, rfl⟩ | ⟨quits', rfl, rfl⟩
    · exact ⟨rfl, eventLoop, created, unrefs, requests⟩
    · cases raises _ List.mem_cons_self
  | alive quits at_ hquits quitting place =>
    rcases cons_eq_append (htodo.symm.trans hquits) with ⟨rfl, rfl, rfl⟩ | ⟨quits', rfl, rfl⟩
    · simp at place
    · simpa using quitting _ List.mem_cons_self
  | clearing quits at_ hquits => cases htodo.symm.trans hquits
  | gone quits at_ hquits quitting place =>
    rcases cons_eq_append (htodo.symm.trans hquits) with ⟨rfl, rfl, rfl⟩ | ⟨quits', rfl, rfl⟩
    · simp at place
    · cases quitting _ List.mem_cons_self
  | returned hreturned => cases htodo.symm.trans hreturned

/-- What is known where `lble_disconnect` returns. -/
theorem Stage.of_lbleDisconnect (h : s.Stage) (htodo : s.todo = .lbleDisconnect :: todo) :
    todo = [] ∧ s.eventLoop = false ∧ s.created = 1 ∧ s.unrefs = 1 ∧ s.running = false := by
  cases h with
  | early quits at_ hquits raises place =>
    rcases cons_eq_append (htodo.symm.trans hquits) with ⟨rfl, rfl, rfl⟩ | ⟨quits', rfl, rfl⟩
    · simp at place
    · cases raises _ List.mem_cons_self
  | alive quits at_ hquits quitting place =>
    rcases cons_eq_append (htodo.symm.trans hquits) with ⟨rfl, rfl, rfl⟩ | ⟨quits', rfl, rfl⟩
    · simp at place
    · simpa using quitting _ List.mem_cons_self
  | clearing quits at_ hquits => cases htodo.symm.trans hquits
  | gone quits at_ hquits quitting place eventLoop created unrefs running =>
    rcases cons_eq_append (htodo.symm.trans hquits) with ⟨rfl, rfl, rfl⟩ | ⟨quits', rfl, rfl⟩
    · exact ⟨rfl, eventLoop, created, unrefs, running⟩
    · cases quitting _ List.mem_cons_self
  | returned hreturned => cases htodo.symm.trans hreturned

/-- The loop dispatches an event: the handler is about to raise a quit request. -/
theorem Stage.of_loop (h : s.Stage) (htodo : s.todo = .loop :: todo) : (s.push [.raise]).Stage := by
  have hpush : (s.push [.raise]).todo = .raise :: .loop :: todo := congrArg (List.cons _) htodo
  cases h with
  | early quits at_ hquits raises place =>
    rcases cons_eq_append (htodo.symm.trans hquits) with ⟨rfl, rfl, rfl⟩ | ⟨quits', rfl, rfl⟩
    · simp at place
    · cases raises _ List.mem_cons_self
  | alive quits at_ hquits quitting place eventLoop created unrefs idle entering halted pending =>
    rcases cons_eq_append (htodo.symm.trans hquits) with ⟨rfl, rfl, rfl⟩ | ⟨quits', rfl, rfl⟩
    · obtain ⟨requests, hrunning⟩ := idle rfl
      refine .alive [.raise] _ hpush (fun c hc => .inl (List.mem_singleton.mp hc)) place
        eventLoop created unrefs nofun nofun (fun h => nomatch List.mem_singleton.mp h) fun h => ?_
      exact absurd requests (Nat.ne_of_gt h)
    · simpa using quitting _ List.mem_cons_self
  | clearing quits at_ hquits => cases htodo.symm.trans hquits
  | gone quits at_ hquits quitting place eventLoop created unrefs running =>
    rcases cons_eq_append (htodo.symm.trans hquits) with ⟨rfl, rfl, rfl⟩ | ⟨quits', rfl, rfl⟩
    · refine .gone [.raise] _ hpush (fun c hc => ?_) place eventLoop created unrefs running
      rw [List.mem_singleton.mp hc]
      rfl
    · cases quitting _ List.mem_cons_self
  | returned hreturned => cases htodo.symm.trans hreturned

/-- **The stages are invariant** when quit requests are raised only when they are heeded. -/
theorem Stage.step {l : Label} (h : s.Stage) (heeded : s.RaisesHeeded l)
    (hstep : s.step l = some t) : t.Stage := by
  cases l with
  | advance =>
    obtain ⟨code, todo, htodo, advances, rfl⟩ := step_advance hstep
    cases h with
    | early quits at_ hquits raises place eventLoop created unrefs requests =>
      exact advance_early htodo (htodo ▸ hquits) raises place eventLoop created unrefs requests
        advances heeded
    | alive quits at_ hquits quitting place eventLoop created unrefs idle entering halted pending =>
      exact advance_alive htodo (htodo ▸ hquits) quitting place eventLoop created unrefs idle
        entering halted pending advances
    | clearing quits at_ hquits quitting place eventLoop created unrefs running =>
      obtain ⟨rfl, rfl⟩ := List.cons.inj (htodo.symm.trans hquits)
      have hplace : at_ = .testLoop ∨ at_ = .runLoad ∨ at_ = .loop ∨ at_ = .testAgain ∨
          at_ = .lbleDisconnect ∨ at_ = .lbleFreedev := by
        rcases place with h | h | h
        · exact .inl h
        · exact .inr (.inl h)
        · exact .inr (.inr (.inl h))
      exact .gone _ _ rfl quitting hplace rfl created unrefs running
    | gone quits at_ hquits quitting place eventLoop created unrefs running =>
      exact advance_gone (htodo ▸ hquits) quitting place eventLoop created unrefs running advances
    | returned hreturned => exact nomatch htodo.symm.trans hreturned
  | lbleConnect failed =>
    simp only [Connect.step] at hstep
    split at hstep
    · rename_i todo htodo
      obtain rfl := Option.some.inj hstep
      obtain ⟨hquits, eventLoop, created, unrefs, requests⟩ := h.of_lbleConnect htodo
      subst hquits
      cases failed with
      | false =>
        exact .early [] _ rfl nofun (.inr (.inr (.inl rfl))) eventLoop created unrefs
          requests
      | true =>
        refine .early [.raise, .raise] _ rfl (fun c hc => ?_) (.inr (.inr (.inl rfl)))
          eventLoop created unrefs requests
        simpa using hc
    · cases hstep
  | lbleDisconnect connected =>
    simp only [Connect.step] at hstep
    split at hstep
    · rename_i todo htodo
      obtain rfl := Option.some.inj hstep
      obtain ⟨hquits, eventLoop, created, unrefs, running⟩ := h.of_lbleDisconnect htodo
      subst hquits
      cases connected with
      | false => exact .gone [] _ rfl nofun (by simp) eventLoop created unrefs running
      | true =>
        refine .gone [.raise] _ rfl (fun c hc => ?_) (by simp) eventLoop created unrefs
          running
        rw [List.mem_singleton.mp hc]
        rfl
    · cases hstep
  | dispatch =>
    simp only [Connect.step] at hstep
    split at hstep
    · rename_i todo htodo
      obtain rfl := Option.some.inj hstep
      exact h.of_loop htodo
    · cases hstep
  | sigint =>
    simp only [Connect.step] at hstep
    obtain ⟨⟨-, htodo⟩, ht⟩ := Option.ite_none_right_eq_some.mp hstep
    obtain rfl := Option.some.inj ht
    exact h.request heeded htodo

theorem Stage.of_run {ls : List Label} (run : machine.Run RaisesHeeded start ls s) : s.Stage := by
  refine run.invariant ?_ fun h heeded hstep => h.step heeded hstep
  exact .early [] _ rfl nofun (.inl rfl) rfl rfl rfl rfl

/-- The quit requests raised so far are heeded: the loop is not entered any more, and if it runs it
has been told to quit, or an active `quit` is about to do so. -/
structure Heeded (s : Connect) : Prop where
  not_entered : s.todo.head? = some .runEnter → s.requests = 0
  told : 0 < s.requests → s.todo.head? = some .loop → s.running = false
  pending : 0 < s.requests → .loop ∈ s.todo → s.running = false ∨ .quitTest ∈ s.todo ∨
    .quitQuit ∈ s.todo

theorem Stage.heeded (h : s.Stage) : s.Heeded := by
  cases h with
  | early quits at_ _ _ _ _ _ _ requests =>
    have none : ∀ {P : Prop}, 0 < s.requests → P := fun h => absurd requests (Nat.ne_of_gt h)
    exact ⟨fun _ => requests, none, none⟩
  | alive quits at_ todo quitting place eventLoop created unrefs idle entering halted pending =>
    have hpending : 0 < s.requests → s.running = false ∨ .quitTest ∈ s.todo ∨
        .quitQuit ∈ s.todo := fun h => by
      by_cases hrunning : s.running = true
      · rw [todo]
        exact .inr ((pending h hrunning).imp (List.mem_append_left _) (List.mem_append_left _))
      · exact .inl (Bool.eq_false_iff.mpr hrunning)
    -- the loop is innermost only while nothing is left of a quit request
    have hidle : ∀ {code}, s.todo.head? = some code → (code = .runEnter ∨ code = .loop) →
        quits = [] := fun {code} hhead hcode => by
      rw [todo] at hhead
      cases quits with
      | nil => rfl
      | cons c quits' =>
        obtain rfl : c = code := Option.some.inj hhead
        have hc := quitting c List.mem_cons_self
        rcases hcode with rfl | rfl <;> simp at hc
    refine ⟨fun hhead => (idle (hidle hhead (.inl rfl))).1, fun h hhead => ?_,
      fun h _ => hpending h⟩
    exact absurd (idle (hidle hhead (.inr rfl))).1 (Nat.ne_of_gt h)
  | clearing quits at_ todo _ _ _ _ _ running =>
    exact ⟨fun h => (by rw [todo] at h; cases h), fun _ _ => running, fun _ _ => .inl running⟩
  | gone quits at_ todo quitting place _ _ _ running =>
    refine ⟨fun hhead => ?_, fun _ _ => running, fun _ _ => .inl running⟩
    rw [todo] at hhead
    cases quits with
    | nil =>
      obtain rfl : at_ = .runEnter := Option.some.inj hhead
      simp at place
    | cons c quits' =>
      obtain rfl : c = .runEnter := Option.some.inj hhead
      cases quitting _ List.mem_cons_self
  | returned todo _ _ _ running =>
    exact ⟨fun h => (by rw [todo] at h; cases h), fun _ _ => running, fun _ _ => .inl running⟩

/-- The loop was given back at most once, and by the end of `vecs_connect` exactly once. -/
theorem Stage.balanced (h : s.Stage) :
    s.unrefs ≤ s.created ∧ (s.todo = [] → s.unrefs = s.created ∧ s.eventLoop = false) := by
  cases h with
  | early quits at_ todo _ _ _ created unrefs =>
    refine ⟨unrefs ▸ Nat.zero_le _, fun h => ?_⟩
    exact absurd (todo.symm.trans h) (List.append_ne_nil_of_right_ne_nil _ (List.cons_ne_nil _ _))
  | alive quits at_ todo _ _ _ created unrefs =>
    refine ⟨unrefs ▸ Nat.zero_le _, fun h => ?_⟩
    exact absurd (todo.symm.trans h) (List.append_ne_nil_of_right_ne_nil _ (List.cons_ne_nil _ _))
  | clearing quits at_ todo _ _ _ created unrefs =>
    exact ⟨Nat.le_of_eq (unrefs.trans created.symm), fun h => nomatch todo.symm.trans h⟩
  | gone quits at_ todo _ _ _ created unrefs =>
    refine ⟨Nat.le_of_eq (unrefs.trans created.symm), fun h => ?_⟩
    exact absurd (todo.symm.trans h) (List.append_ne_nil_of_right_ne_nil _ (List.cons_ne_nil _ _))
  | returned _ eventLoop created unrefs =>
    exact ⟨Nat.le_of_eq (unrefs.trans created.symm), fun _ =>
      ⟨unrefs.trans created.symm, eventLoop⟩⟩

end Connect

/-- **A request to stop is heeded.** In every call of `vecs_connect` in which quit requests are
raised only after the loop was assigned, not between the reading of the pointer for the loop and the
entry into it, and not inside a `quit` that has given the loop back already: the loop is not entered
after a request, or is told to quit, and it is given back as often as it was created. -/
theorem quit_heeded {s : Connect} {ls : List Connect.Label}
    (run : Connect.machine.Run Connect.RaisesHeeded Connect.start ls s) :
    s.Heeded ∧ s.unrefs ≤ s.created ∧
      (s.todo = [] → s.unrefs = s.created ∧ s.eventLoop = false) :=
  have stage := Connect.Stage.of_run run
  ⟨stage.heeded, stage.balanced⟩

/-- The loop is made and entered, and `SIGINT` stops it; a second one comes inside the first
`quit`, and a third one while the connection is ended. -/
def stoppedRun : Option Connect :=
  Connect.machine.execGuarded Connect.RaisesHeeded Connect.start
    (([.advance, .lbleConnect false] : List Connect.Label) ++ List.replicate 5 .advance ++
      ([.sigint, .advance, .sigint] : List Connect.Label) ++ List.replicate 9 .advance ++
      ([.sigint, .advance, .lbleDisconnect true] : List Connect.Label) ++
      List.replicate 3 .advance)

theorem quit_heeded_stoppedRun :
    ∃ s, stoppedRun = some s ∧ (s.requests, s.todo) = (4, []) ∧ s.Heeded ∧
      s.unrefs = s.created := by
  have hrun : stoppedRun.map (fun s => (s.requests, s.todo)) = some (4, []) := by decide
  obtain ⟨s, hs, hdata⟩ := Option.map_eq_some_iff.mp hrun
  have heeded := quit_heeded (Connect.machine.run_of_execGuarded hs)
  exact ⟨s, hs, hdata, heeded.1, (heeded.2.2 (Prod.ext_iff.mp hdata).2).1⟩

/-- `lble_connect` fails synchronously, before there is a loop. -/
def earlyRun : Option Connect :=
  Connect.machine.execGuarded (fun _ _ => True) Connect.start
    ([.advance, .lbleConnect true] ++ List.replicate 9 .advance)

/-- **A request that comes before the loop is lost.** Both quit requests of a synchronous failure
are over when the loop is entered, which then runs with nobody to stop it. -/
theorem not_heeded_earlyRun :
    ∃ s, earlyRun = some s ∧ s.requests = 2 ∧ s.todo = [.loop] ∧ s.running = true ∧ ¬ s.Heeded := by
  have hrun : earlyRun.map (fun s => (s.requests, s.todo, s.running)) =
      some (2, [.loop], true) := by
    decide
  obtain ⟨s, hs, hdata⟩ := Option.map_eq_some_iff.mp hrun
  simp only [Prod.mk.injEq] at hdata
  obtain ⟨requests, todo, running⟩ := hdata
  refine ⟨s, hs, requests, todo, running, fun heeded => ?_⟩
  have told := heeded.told (by rw [requests]; decide) (by rw [todo]; rfl)
  exact nomatch running.symm.trans told

end Libble.Vecs
