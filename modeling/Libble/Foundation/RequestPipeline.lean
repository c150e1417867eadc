import Libble.Foundation.LabelledMachine

/-!
# Request pipelines

A client of a sequential protocol runs many procedures over one connection. Every procedure has
at most one request at a time; the requests wait in one queue, one request at a time is sent, and
the answer goes to the procedure of the request that is pending, which then submits its next
request at the end of the queue or is done. Neither the requests nor the answers carry the name of
the procedure: they are matched by the pending request alone.

The results say that the procedures do not notice each other, whatever the order in which they
were started: against a peer whose answers are a function of the request each of them goes through
the stages it goes through alone.

## Main definitions

* `Pipeline`: procedures, queue, pending request, history and outputs; `Pipeline.machine`.
* `Pipeline.stage`: the stages of one procedure against given answers.
* `Pipeline.Sound`: every procedure has at most one request.
* `Pipeline.Follows`: every procedure is in one of its stages.

## Main results

* `Pipeline.Accounted.outstanding_le`: at most one request is outstanding.
* `Pipeline.Follows.step`: against fixed answers the procedures follow their stages.
* `Pipeline.outputs_eq`: procedures with the same first request have the same outputs, whatever
  pipelines they belong to.
-/

namespace Libble

universe u v w x

/-- A request that has not been answered, with its owner and what is waiting for the answer. -/
structure Task (Req : Type u) (Cont : Type w) where
  owner : Nat
  req : Req
  cont : Cont
  deriving DecidableEq, Repr

/-- What a procedure does with an answer. -/
inductive Turn (Req : Type u) (Cont : Type w) (Out : Type x)
  | next (req : Req) (cont : Cont)
  | done (outs : List Out)
  deriving DecidableEq, Repr

/-- The request with which a procedure goes on. -/
def Turn.tasks {Req : Type u} {Cont : Type w} {Out : Type x} (owner : Nat) :
    Turn Req Cont Out → List (Task Req Cont)
  | .next req cont => [⟨owner, req, cont⟩]
  | .done _ => []

/-- What passes between the client and the peer. -/
inductive Exchange (Req : Type u) (Rsp : Type v)
  | sent (owner : Nat) (req : Req)
  | answered (owner : Nat) (req : Req) (rsp : Rsp)
  deriving DecidableEq, Repr

/-- How many requests an exchange leaves outstanding. -/
def Exchange.balance {Req : Type u} {Rsp : Type v} : Exchange Req Rsp → Int
  | .sent .. => 1
  | .answered .. => -1

/-- The client of a connection. -/
@[ext]
structure Pipeline (Req : Type u) (Rsp : Type v) (Cont : Type w) (Out : Type x) where
  /-- The first requests of the procedures; the owner of a request is the place of its procedure
  in this list. -/
  started : List (Req × Cont)
  queue : List (Task Req Cont)
  pending : Option (Task Req Cont)
  history : List (Exchange Req Rsp)
  outputs : Nat → List Out

namespace Pipeline

variable {Req : Type u} {Rsp : Type v} {Cont : Type w} {Out : Type x}

/-- The steps of a pipeline. -/
inductive Label (Req : Type u) (Rsp : Type v) (Cont : Type w)
  /-- A procedure is started. -/
  | submit (req : Req) (cont : Cont)
  /-- The first request of the queue is sent. -/
  | send
  /-- The pending request is answered. -/
  | answer (rsp : Rsp)
  /-- The pending request is answered in such a way that it is sent again. -/
  | retry (rsp : Rsp)
  deriving DecidableEq, Repr

/-- No procedure has been started. -/
def init : Pipeline Req Rsp Cont Out := ⟨[], [], none, [], fun _ => []⟩

/-- A procedure is started. -/
def submit (p : Pipeline Req Rsp Cont Out) (req : Req) (cont : Cont) :
    Pipeline Req Rsp Cont Out :=
  { p with
    started := p.started ++ [(req, cont)]
    queue := p.queue ++ [⟨p.started.length, req, cont⟩] }

/-- The request `t` is sent. -/
def send (p : Pipeline Req Rsp Cont Out) (t : Task Req Cont) (queue : List (Task Req Cont)) :
    Pipeline Req Rsp Cont Out :=
  { p with
    queue := queue
    pending := some t
    history := p.history ++ [.sent t.owner t.req] }

/-- The pending request `t` has been answered, and its procedure does what `outcome` says. -/
def settle (p : Pipeline Req Rsp Cont Out) (t : Task Req Cont) (rsp : Rsp) :
    Turn Req Cont Out → Pipeline Req Rsp Cont Out
  | .next req cont =>
    { p with
      queue := p.queue ++ [⟨t.owner, req, cont⟩]
      pending := none
      history := p.history ++ [.answered t.owner t.req rsp] }
  | .done outs =>
    { p with
      pending := none
      history := p.history ++ [.answered t.owner t.req rsp]
      outputs := Function.update p.outputs t.owner (p.outputs t.owner ++ outs) }

/-- The pending request `t` has been answered and is to be sent again. -/
def requeue (p : Pipeline Req Rsp Cont Out) (t : Task Req Cont) (rsp : Rsp) :
    Pipeline Req Rsp Cont Out :=
  { p with
    queue := t :: p.queue
    pending := none
    history := p.history ++ [.answered t.owner t.req rsp] }

variable (react : Req → Cont → Rsp → Turn Req Cont Out)

/-- One step of a pipeline whose procedures do with answers what `react` says. -/
def step (p : Pipeline Req Rsp Cont Out) :
    Label Req Rsp Cont → Option (Pipeline Req Rsp Cont Out)
  | .submit req cont => some (p.submit req cont)
  | .send => match p.pending, p.queue with
    | none, t :: queue => some (p.send t queue)
    | _, _ => none
  | .answer rsp => p.pending.map fun t => p.settle t rsp (react t.req t.cont rsp)
  | .retry rsp => p.pending.map fun t => p.requeue t rsp

/-- Pipelines as labelled machines. -/
def machine : LabelledMachine (Pipeline Req Rsp Cont Out) (Label Req Rsp Cont) := ⟨step react⟩

/-! ### What the steps do -/

section Steps

variable {react} {p q : Pipeline Req Rsp Cont Out} {rsp : Rsp}

theorem step_send (h : step react p .send = some q) :
    ∃ t queue, p.pending = none ∧ p.queue = t :: queue ∧ q = p.send t queue := by
  simp only [step] at h
  split at h
  · rename_i t queue hpending hqueue
    exact ⟨t, queue, hpending, hqueue, (Option.some.inj h).symm⟩
  · cases h

theorem step_answer (h : step react p (.answer rsp) = some q) :
    ∃ t, p.pending = some t ∧ q = p.settle t rsp (react t.req t.cont rsp) := by
  obtain ⟨t, hpending, hq⟩ := Option.map_eq_some_iff.mp h
  exact ⟨t, hpending, hq.symm⟩

theorem step_retry (h : step react p (.retry rsp) = some q) :
    ∃ t, p.pending = some t ∧ q = p.requeue t rsp := by
  obtain ⟨t, hpending, hq⟩ := Option.map_eq_some_iff.mp h
  exact ⟨t, hpending, hq.symm⟩

end Steps

/-! ### At most one outstanding request -/

/-- The number of the requests that have been sent and not been answered. -/
def outstanding (history : List (Exchange Req Rsp)) : Int := (history.map Exchange.balance).sum

theorem outstanding_concat (history : List (Exchange Req Rsp)) (e : Exchange Req Rsp) :
    outstanding (history ++ [e]) = outstanding history + e.balance := by
  simp [outstanding]

variable {react} {p q : Pipeline Req Rsp Cont Out} {label : Label Req Rsp Cont}

/-- The pending request is the one that is outstanding. -/
def Accounted (p : Pipeline Req Rsp Cont Out) : Prop :=
  outstanding p.history = p.pending.toList.length

theorem Accounted.step (h : p.Accounted) (hstep : step react p label = some q) :
    q.Accounted := by
  cases label with
  | submit req cont =>
    obtain rfl := Option.some.inj hstep
    exact h
  | send =>
    obtain ⟨t, queue, hpending, -, rfl⟩ := step_send hstep
    rw [Accounted, hpending] at h
    exact (outstanding_concat _ _).trans (congrArg (· + _) h)
  | answer rsp =>
    obtain ⟨t, hpending, rfl⟩ := step_answer hstep
    rw [Accounted, hpending] at h
    cases react t.req t.cont rsp with
    | next req cont => exact (outstanding_concat _ _).trans (congrArg (· + _) h)
    | done outs => exact (outstanding_concat _ _).trans (congrArg (· + _) h)
  | retry rsp =>
    obtain ⟨t, hpending, rfl⟩ := step_retry hstep
    rw [Accounted, hpending] at h
    exact (outstanding_concat _ _).trans (congrArg (· + _) h)

/-- **At most one request is outstanding.** -/
theorem Accounted.outstanding_le (h : p.Accounted) :
    outstanding p.history = 0 ∨ outstanding p.history = 1 := by
  rw [h]
  cases p.pending with
  | none => exact .inl rfl
  | some t => exact .inr rfl

/-! ### Histories -/

/-- `P` holds of every entry of a history and what came before it. -/
def AtEvery {α : Type u} (P : List α → α → Prop) (history : List α) : Prop :=
  ∀ before e after, history = before ++ e :: after → P before e

theorem AtEvery.concat {α : Type u} {P : List α → α → Prop} {history : List α} {e : α}
    (h : AtEvery P history) (he : P history e) : AtEvery P (history ++ [e]) := by
  intro before e' after heq
  rcases List.eq_nil_or_concat after with rfl | ⟨rest, last, rfl⟩
  · obtain ⟨rfl, hlast⟩ := List.append_inj' heq rfl
    exact List.head_eq_of_cons_eq hlast ▸ he
  · rw [List.concat_eq_append, ← List.cons_append, ← List.append_assoc] at heq
    exact h before e' rest (List.append_inj' heq rfl).1

/-! ### Every procedure has at most one request -/

/-- The requests that have not been answered. -/
def waiting (p : Pipeline Req Rsp Cont Out) : List (Task Req Cont) := p.pending.toList ++ p.queue

section Waiting

variable {t : Task Req Cont} {rsp : Rsp} {outcome : Turn Req Cont Out}

theorem waiting_submit (req : Req) (cont : Cont) :
    (p.submit req cont).waiting = p.waiting ++ [⟨p.started.length, req, cont⟩] :=
  (List.append_assoc ..).symm

theorem waiting_of_pending (h : p.pending = some t) : p.waiting = t :: p.queue := by
  simp [waiting, h]

theorem waiting_send {queue : List (Task Req Cont)} (h : p.pending = none)
    (hqueue : p.queue = t :: queue) : (p.send t queue).waiting = p.waiting := by
  simp [waiting, send, h, hqueue]

theorem waiting_requeue (rsp : Rsp) (h : p.pending = some t) :
    (p.requeue t rsp).waiting = p.waiting := by
  simp [waiting, requeue, h]

theorem waiting_settle : (p.settle t rsp outcome).waiting = p.queue ++ outcome.tasks t.owner := by
  cases outcome <;> simp [waiting, settle, Turn.tasks]

theorem history_settle :
    (p.settle t rsp outcome).history = p.history ++ [.answered t.owner t.req rsp] := by
  cases outcome <;> rfl

theorem started_settle : (p.settle t rsp outcome).started = p.started := by
  cases outcome <;> rfl

end Waiting

/-- Every request belongs to a procedure that was started, and to a different one. -/
structure Sound (p : Pipeline Req Rsp Cont Out) : Prop where
  nodup : (p.waiting.map Task.owner).Nodup
  owner_lt : ∀ t ∈ p.waiting, t.owner < p.started.length
  silent : ∀ o, p.started.length ≤ o → p.outputs o = []

/-- The procedure `o` waits for nothing. -/
def Over (p : Pipeline Req Rsp Cont Out) (o : Nat) : Prop := ∀ t ∈ p.waiting, t.owner ≠ o

/-- The procedure `o` waits for an answer, or it is done. -/
def At (p : Pipeline Req Rsp Cont Out) (o : Nat) : Turn Req Cont Out → Prop
  | .next req cont => ⟨o, req, cont⟩ ∈ p.waiting ∧ p.outputs o = []
  | .done outs => p.Over o ∧ p.outputs o = outs

theorem sound_init : (init : Pipeline Req Rsp Cont Out).Sound :=
  ⟨List.nodup_nil, nofun, fun _ _ => rfl⟩

namespace Sound

/-- A task that is moved is still the only one of its owner. -/
theorem perm (h : p.Sound) (hwaiting : q.waiting.Perm p.waiting) (hstarted : q.started = p.started)
    (houtputs : q.outputs = p.outputs) : q.Sound := by
  refine ⟨(hwaiting.map _).nodup_iff.mpr h.nodup, fun t ht => ?_, fun o ho => ?_⟩
  · rw [hstarted]
    exact h.owner_lt t (hwaiting.mem_iff.mp ht)
  · rw [houtputs]
    exact h.silent o (hstarted ▸ ho)

theorem eq_of_owner {t t' : Task Req Cont} (h : p.Sound) (ht : t ∈ p.waiting)
    (ht' : t' ∈ p.waiting) (howner : t.owner = t'.owner) : t = t' :=
  List.inj_on_of_nodup_map h.nodup ht ht' howner

theorem submit (h : p.Sound) (req : Req) (cont : Cont) : (p.submit req cont).Sound := by
  have hwaiting : (p.submit req cont).waiting = p.waiting ++ [⟨p.started.length, req, cont⟩] :=
    (List.append_assoc ..).symm
  have hlength : (p.submit req cont).started.length = p.started.length + 1 := by
    simp [Pipeline.submit]
  refine ⟨?_, fun t ht => ?_, fun o ho => ?_⟩
  · rw [hwaiting, List.map_append, List.nodup_append]
    refine ⟨h.nodup, List.nodup_singleton _, ?_⟩
    intro a ha b hb
    obtain ⟨t, ht, rfl⟩ := List.mem_map.mp ha
    obtain rfl := List.mem_singleton.mp hb
    exact Nat.ne_of_lt (h.owner_lt t ht)
  · rw [hwaiting] at ht
    rw [hlength]
    rcases List.mem_append.mp ht with ht | ht
    · exact Nat.lt_succ_of_lt (h.owner_lt t ht)
    · obtain rfl := List.mem_singleton.mp ht
      exact Nat.lt_succ_self _
  · exact h.silent o (by omega)

theorem step (h : p.Sound) (hstep : step react p label = some q) : q.Sound := by
  cases label with
  | submit req cont =>
    obtain rfl := Option.some.inj hstep
    exact h.submit req cont
  | send =>
    obtain ⟨t, queue, hpending, hqueue, rfl⟩ := step_send hstep
    refine h.perm ?_ rfl rfl
    simp [waiting, Pipeline.send, hpending, hqueue]
  | answer rsp =>
    obtain ⟨t, hpending, rfl⟩ := step_answer hstep
    have hwaiting : p.waiting = t :: p.queue := by simp [waiting, hpending]
    have hnodup := h.nodup
    have hlt := h.owner_lt
    rw [hwaiting] at hnodup hlt
    cases react t.req t.cont rsp with
    | next req cont =>
      refine ⟨?_, fun u hu => ?_, h.silent⟩
      · have hmap : (p.settle t rsp (.next req cont)).waiting.map Task.owner =
            p.queue.map Task.owner ++ [t.owner] := by
          simp [waiting, settle]
        rw [hmap]
        exact (List.perm_append_singleton _ _).nodup_iff.mpr hnodup
      · have hu : u ∈ p.queue ++ [⟨t.owner, req, cont⟩] := hu
        rcases List.mem_append.mp hu with hu | hu
        · exact hlt u (List.mem_cons_of_mem _ hu)
        · obtain rfl := List.mem_singleton.mp hu
          exact hlt t List.mem_cons_self
    | done outs =>
      refine ⟨(List.nodup_cons.mp hnodup).2, fun u hu => hlt u (List.mem_cons_of_mem _ hu),
        fun o ho => ?_⟩
      have hne : o ≠ t.owner := Nat.ne_of_gt (Nat.lt_of_lt_of_le (hlt t List.mem_cons_self) ho)
      exact (Function.update_of_ne hne ..).trans (h.silent o ho)
  | retry rsp =>
    obtain ⟨t, hpending, rfl⟩ := step_retry hstep
    refine h.perm ?_ rfl rfl
    simp [waiting, requeue, hpending]

end Sound

/-! ### Procedures against fixed answers -/

section FixedAnswers

variable (react) (answers : Req → Rsp)

/-- The stages of a procedure: its first request, and what it does with each answer. -/
def stage (first : Req × Cont) : Nat → Turn Req Cont Out
  | 0 => .next first.1 first.2
  | n + 1 => match stage first n with
    | .next req cont => react req cont (answers req)
    | .done outs => .done outs

/-- The peer gives these answers, and none of them has the request sent again. -/
def Fixed (p : Pipeline Req Rsp Cont Out) : Label Req Rsp Cont → Prop
  | .answer rsp => ∀ t, p.pending = some t → rsp = answers t.req
  | .retry _ => False
  | .submit .. | .send => True

/-- Every procedure is in one of its stages. -/
structure Follows (p : Pipeline Req Rsp Cont Out) : Prop where
  sound : p.Sound
  stages : ∀ o first, p.started[o]? = some first → ∃ n, p.At o (stage react answers first n)

variable {react answers}

/-- Where a procedure is does not change when the requests are only moved. -/
theorem At.perm {o : Nat} {outcome : Turn Req Cont Out} (h : p.At o outcome)
    (hwaiting : q.waiting.Perm p.waiting) (houtputs : q.outputs = p.outputs) : q.At o outcome := by
  cases outcome with
  | next req cont => exact ⟨hwaiting.mem_iff.mpr h.1, houtputs ▸ h.2⟩
  | done outs => exact ⟨fun t ht => h.1 t (hwaiting.mem_iff.mp ht), houtputs ▸ h.2⟩

namespace Follows

theorem submit (h : p.Follows react answers) (req : Req) (cont : Cont) :
    (p.submit req cont).Follows react answers := by
  have hwaiting : (p.submit req cont).waiting = p.waiting ++ [⟨p.started.length, req, cont⟩] :=
    (List.append_assoc ..).symm
  refine ⟨h.sound.submit req cont, fun o first hfirst => ?_⟩
  have hfirst : (p.started ++ [(req, cont)])[o]? = some first := hfirst
  by_cases hlt : o < p.started.length
  · rw [List.getElem?_append_left hlt] at hfirst
    obtain ⟨n, hn⟩ := h.stages o first hfirst
    refine ⟨n, ?_⟩
    cases hstage : stage react answers first n with
    | next req' cont' =>
      rw [hstage] at hn
      exact ⟨hwaiting ▸ List.mem_append_left _ hn.1, hn.2⟩
    | done outs =>
      rw [hstage] at hn
      refine ⟨fun t ht => ?_, hn.2⟩
      rw [hwaiting] at ht
      rcases List.mem_append.mp ht with ht | ht
      · exact hn.1 t ht
      · obtain rfl := List.mem_singleton.mp ht
        exact Nat.ne_of_gt hlt
  · obtain ⟨hlast, -⟩ := List.getElem?_eq_some_iff.mp hfirst
    have ho : o = p.started.length := by
      rw [List.length_append, List.length_singleton] at hlast
      omega
    subst ho
    obtain rfl : (req, cont) = first := by simpa using hfirst
    refine ⟨0, ?_, h.sound.silent _ (Nat.le_refl _)⟩
    rw [hwaiting]
    exact List.mem_append_right _ List.mem_cons_self

/-- The procedure of the pending request goes to its next stage, and the others stay where they
are. -/
theorem settle {t : Task Req Cont} {rsp : Rsp} (h : p.Follows react answers)
    (hpending : p.pending = some t) (hrsp : rsp = answers t.req)
    (sound : (p.settle t rsp (react t.req t.cont rsp)).Sound) :
    (p.settle t rsp (react t.req t.cont rsp)).Follows react answers := by
  have hwaiting : p.waiting = t :: p.queue := by simp [waiting, hpending]
  have hmem : t ∈ p.waiting := hwaiting ▸ List.mem_cons_self
  refine ⟨sound, fun o first hfirst => ?_⟩
  have hstarted : (p.settle t rsp (react t.req t.cont rsp)).started = p.started := by
    cases react t.req t.cont rsp <;> rfl
  obtain ⟨n, hn⟩ := h.stages o first (hstarted ▸ hfirst)
  by_cases howner : t.owner = o
  · -- the procedure that is answered
    have hstage : stage react answers first n = .next t.req t.cont := by
      cases hs : stage react answers first n with
      | next req cont =>
        rw [hs] at hn
        obtain rfl := h.sound.eq_of_owner hn.1 hmem howner.symm
        rfl
      | done outs =>
        rw [hs] at hn
        exact absurd howner (hn.1 t hmem)
    rw [hstage] at hn
    refine ⟨n + 1, ?_⟩
    have hnext : stage react answers first (n + 1) = react t.req t.cont rsp := by
      rw [hrsp, stage, hstage]
    rw [hnext]
    cases react t.req t.cont rsp with
    | next req cont =>
      refine ⟨List.mem_append_right _ (List.mem_append_right _ ?_), hn.2⟩
      rw [howner]
      exact List.mem_cons_self
    | done outs =>
      refine ⟨fun u hu hou => ?_, ?_⟩
      · have hnodup := h.sound.nodup
        rw [hwaiting, List.map_cons, List.nodup_cons] at hnodup
        have hu : u ∈ p.queue := hu
        exact hnodup.1 (howner.trans hou.symm ▸ List.mem_map_of_mem hu)
      · show Function.update p.outputs t.owner (p.outputs t.owner ++ outs) o = outs
        rw [howner, Function.update_self, hn.2, List.nil_append]
  · -- another procedure
    refine ⟨n, ?_⟩
    have hother : ∀ u : Task Req Cont, u.owner = o →
        (u ∈ (p.settle t rsp (react t.req t.cont rsp)).waiting ↔ u ∈ p.waiting) := by
      intro u hu
      have hut : u ≠ t := by
        rintro rfl
        exact howner hu
      rw [hwaiting]
      cases react t.req t.cont rsp with
      | next req cont =>
        have hunew : u ≠ ⟨t.owner, req, cont⟩ := by
          rintro rfl
          exact howner hu
        simp [waiting, Pipeline.settle, hut, hunew]
      | done outs => simp [waiting, Pipeline.settle, hut]
    have houtputs : (p.settle t rsp (react t.req t.cont rsp)).outputs o = p.outputs o := by
      cases react t.req t.cont rsp with
      | next req cont => rfl
      | done outs => exact Function.update_of_ne (Ne.symm howner) ..
    cases hs : stage react answers first n with
    | next req cont =>
      rw [hs] at hn
      exact ⟨(hother _ rfl).mpr hn.1, houtputs.trans hn.2⟩
    | done outs =>
      rw [hs] at hn
      exact ⟨fun u hu hou => hn.1 u ((hother u hou).mp hu) hou, houtputs.trans hn.2⟩

theorem step (h : p.Follows react answers) (fixed : Fixed answers p label)
    (hstep : step react p label = some q) : q.Follows react answers := by
  have sound := h.sound.step hstep
  cases label with
  | submit req cont =>
    obtain rfl := Option.some.inj hstep
    exact h.submit req cont
  | send =>
    obtain ⟨t, queue, hpending, hqueue, rfl⟩ := step_send hstep
    refine ⟨sound, fun o first hfirst => ?_⟩
    obtain ⟨n, hn⟩ := h.stages o first hfirst
    refine ⟨n, hn.perm ?_ rfl⟩
    simp [waiting, Pipeline.send, hpending, hqueue]
  | answer rsp =>
    obtain ⟨t, hpending, rfl⟩ := step_answer hstep
    exact h.settle hpending (fixed t hpending) sound
  | retry rsp => cases fixed

end Follows

/-- In every run against fixed answers the procedures follow their stages. -/
theorem follows {labels : List (Label Req Rsp Cont)}
    (run : (machine react).Run (Fixed answers) init labels p) : p.Follows react answers :=
  run.invariant ⟨sound_init, nofun⟩ fun h fixed hstep => h.step fixed hstep

/-- Once a procedure is done it stays done. -/
theorem stage_done {first : Req × Cont} {outs : List Out} {n : Nat}
    (h : stage react answers first n = .done outs) (k : Nat) :
    stage react answers first (n + k) = .done outs := by
  induction k with
  | zero => exact h
  | succ k ih => rw [← Nat.add_assoc, stage, ih]

variable {o o' : Nat} {first : Req × Cont}

/-- A procedure that is over has come to its last stage. -/
theorem Follows.done_of_over (h : p.Follows react answers) (ho : p.started[o]? = some first)
    (ended : p.Over o) : ∃ n, stage react answers first n = .done (p.outputs o) := by
  obtain ⟨n, hn⟩ := h.stages o first ho
  refine ⟨n, ?_⟩
  cases hs : stage react answers first n with
  | next req cont =>
    rw [hs] at hn
    exact absurd rfl (ended _ hn.1)
  | done outs =>
    rw [hs] at hn
    rw [hn.2]

/-- A procedure that is not over has no outputs. -/
theorem Follows.outputs_eq_nil (h : p.Follows react answers) (ho : p.started[o]? = some first)
    (waits : ¬ p.Over o) : p.outputs o = [] := by
  obtain ⟨n, hn⟩ := h.stages o first ho
  cases hs : stage react answers first n with
  | next req cont =>
    rw [hs] at hn
    exact hn.2
  | done outs =>
    rw [hs] at hn
    exact absurd hn.1 waits

/-- **Procedures do not notice each other.** Two procedures with the same first request have the
same outputs when they are over, whatever else happens in the pipelines they belong to. -/
theorem outputs_eq (hp : p.Follows react answers) (hq : q.Follows react answers)
    (ho : p.started[o]? = some first) (ho' : q.started[o']? = some first) (ended : p.Over o)
    (ended' : q.Over o') : p.outputs o = q.outputs o' := by
  obtain ⟨n, hn⟩ := hp.done_of_over ho ended
  obtain ⟨n', hn'⟩ := hq.done_of_over ho' ended'
  have hlater := stage_done hn n'
  rw [Nat.add_comm, stage_done hn' n] at hlater
  exact (Turn.done.inj hlater).symm

end FixedAnswers

end Pipeline

end Libble
