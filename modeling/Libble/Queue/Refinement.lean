import Libble.Queue.Storage

/-!
# The queues in memory are lists

Whatever is called in whatever order, also by the callbacks, the memory stores the lists: as long
as the lists can go on, the functions find everything they read and write in the memory, they
return what they return about lists, and the callbacks are called with the same items. Nothing is
lost: when all queues are gone and all functions have returned, the memory is empty.

## Main definitions

* `Queue.Matches`, `Queue.Represents`: a state of the memory and the lists that it stands for.

## Main results

* `Queue.Represents.step`: every step of the lists is a step of the memory.
* `Queue.memory_stores_lists`: every run of the lists is a run of the memory, with the same results.
* `Queue.memory_is_released`: nothing is left in the memory.
-/

namespace Libble.Queue

open Cells

variable {α : Type}

/-- Frames and tasks that have the same still to be done. -/
inductive Matches (lists : Place → List (Nat × α)) : Frame α → Task α → Prop
  | function : Matches lists .function .function
  | foreach (q : Nat) (a : Option Nat) : Matches lists (.foreach q a) (.foreach q a)
  | removeMatching (q : Nat) (function : α → Bool) (destroy : Bool) (count : UInt32) :
    Matches lists (.removeMatching q function destroy count)
      (.removeMatching q function destroy count)
  | removeItems (n : Nat) (destroy : Bool) (count : UInt32) :
    Matches lists (.removeEntries (first (lists (.loop n))) destroy count)
      (.removeItems n destroy count)
  | removed {n : Nat} {i : Nat × α} {l : List (Nat × α)} (destroy : Bool) (count : UInt32)
    (hl : lists (.loop n) = i :: l) :
    Matches lists (.removed i.1 (first l) destroy count) (.removed n destroy count)
  | unref (q : Nat) : Matches lists (.unref q) (.unref q)

/-- The lists that are being handed out. -/
def loops (todo : List (Task α)) : List Nat := todo.flatMap Task.loops

/-- The memory stands for the lists. -/
structure Represents (m : Memory α) (s : Lists α) : Prop where
  stored : Stored m.heap s.lists s.refs
  nextQueue : m.heap.nextQueue = s.nextQueue
  nextItem : m.heap.nextCell = s.nextItem
  todo : List.Forall₂ (Matches s.lists) m.todo s.todo
  nodup : (loops s.todo).Nodup
  loops_lt : ∀ n ∈ loops s.todo, n < s.nextLoop
  idle : ∀ n, n ∉ loops s.todo → s.lists (.loop n) = []
  log : m.log = s.log

variable {m t : Memory α} {s u : Lists α} {lists lists' : Place → List (Nat × α)}
  {refs : Nat → Option Int} {q n : Nat} {r : Int}

/-! ### Frames -/

/-- The list that will be handed out is known. -/
theorem Matches.of_handed {l : List (Nat × α)} (destroy : Bool) (count : UInt32)
    (hl : lists (.loop n) = l) :
    Matches lists (.removeEntries (first l) destroy count) (.removeItems n destroy count) := by
  rw [← hl]
  exact .removeItems n destroy count

/-- A task is about the lists that it hands out. -/
theorem Matches.congr {frame : Frame α} {task : Task α} (h : Matches lists frame task)
    (same : ∀ n ∈ task.loops, lists' (.loop n) = lists (.loop n)) : Matches lists' frame task := by
  cases h with
  | function => exact .function
  | foreach q a => exact .foreach q a
  | removeMatching q function destroy count => exact .removeMatching q function destroy count
  | removeItems n destroy count =>
    rw [← same n (List.mem_singleton.mpr rfl)]
    exact .removeItems n destroy count
  | @removed n i l destroy count hl =>
    exact .removed destroy count ((same n (List.mem_singleton.mpr rfl)).trans hl)
  | unref q => exact .unref q

theorem todo_congr {frames : List (Frame α)} {tasks : List (Task α)}
    (h : List.Forall₂ (Matches lists) frames tasks)
    (same : ∀ n ∈ loops tasks, lists' (.loop n) = lists (.loop n)) :
    List.Forall₂ (Matches lists') frames tasks := by
  induction h with
  | nil => exact .nil
  | @cons frame task frames tasks hd _ ih =>
    refine .cons (hd.congr fun n hn => same n ?_) (ih fun n hn => same n ?_)
    · exact List.mem_flatMap.mpr ⟨task, List.mem_cons_self, hn⟩
    · obtain ⟨task', htask, hn⟩ := List.mem_flatMap.mp hn
      exact List.mem_flatMap.mpr ⟨task', List.mem_cons_of_mem _ htask, hn⟩

theorem all_isFunction {frames : List (Frame α)} {tasks : List (Task α)}
    (h : List.Forall₂ (Matches lists) frames tasks) :
    frames.head?.all Frame.isFunction = tasks.head?.all Task.isFunction := by
  cases h with
  | nil => rfl
  | cons hd _ => cases hd <;> rfl

theorem Represents.inControl_iff (h : Represents m s) : m.InControl ↔ s.InControl := by
  rw [Memory.InControl, Lists.InControl, all_isFunction h.todo]

/-- Nothing happens to the lists that are being handed out. -/
theorem Represents.frame (h : Represents m s) (stored : Stored t.heap u.lists u.refs)
    (nextQueue : t.heap.nextQueue = u.nextQueue) (nextItem : t.heap.nextCell = u.nextItem)
    (nextLoop : u.nextLoop = s.nextLoop)
    (same : ∀ n, u.lists (.loop n) = s.lists (.loop n))
    (todo : List.Forall₂ (Matches s.lists) t.todo u.todo)
    (loops_eq : loops u.todo = loops s.todo) (log : t.log = u.log) : Represents t u := by
  refine ⟨stored, nextQueue, nextItem, todo_congr todo fun n _ => same n, ?_, ?_, ?_, log⟩
  · rw [loops_eq]
    exact h.nodup
  · rw [loops_eq, nextLoop]
    exact h.loops_lt
  · rw [loops_eq]
    exact fun n hn => (same n).trans (h.idle n hn)

theorem Represents.callBack (h : Represents m s) (called : Bool) (data : α) :
    Represents (m.callBack called data) (s.callBack called data) := by
  cases called with
  | false => exact h
  | true =>
    exact h.frame h.stored h.nextQueue h.nextItem rfl (fun _ => rfl) (.cons .function h.todo) rfl
      (congrArg (· ++ _) h.log)

/-! ### The heap -/

/-- The references to a queue are counted anew. -/
theorem Stored.setRefs {heap heap' : Heap α} (h : Stored heap lists refs) (new : Option Int)
    (hqueues : heap'.queues =
      Function.update heap.queues q (new.map fun r => header r (lists (.queue q))))
    (hcells : heap'.cells = heap.cells) (hcell : heap'.nextCell = heap.nextCell)
    (hle : heap.nextQueue ≤ heap'.nextQueue) (hlt : q < heap'.nextQueue)
    (hnew : new = none → lists (.queue q) = []) :
    Stored heap' lists (Function.update refs q new) := by
  refine ⟨hcells ▸ h.layout, fun a c hc => ?_, fun p r hp => ?_, fun p hp => ?_, fun p hp => ?_⟩
  · rw [hcell]
    exact h.below a c (hcells ▸ hc)
  · rw [hqueues]
    by_cases heq : p = q
    · subst heq
      rw [Function.update_self] at hp ⊢
      rw [hp]
      rfl
    · rw [Function.update_of_ne heq] at hp ⊢
      exact h.live p r hp
  · rw [hqueues]
    by_cases heq : p = q
    · subst heq
      rw [Function.update_self] at hp ⊢
      rw [hp]
      exact ⟨rfl, hnew hp⟩
    · rw [Function.update_of_ne heq] at hp ⊢
      exact h.dead p hp
  · rw [Function.update_of_ne (by omega)]
    exact h.unborn p (hle.trans hp)

/-- There is a queue, so its address is not to come. -/
theorem Stored.lt {heap : Heap α} (h : Stored heap lists refs) (hq : refs q = some r) :
    q < heap.nextQueue := by
  by_contra hle
  exact absurd (hq.symm.trans (h.unborn q (Nat.le_of_not_lt hle))) (by simp)

/-- `queue_unref` -/
theorem Represents.unref (h : Represents m s) (hu : s.unref q = some u) :
    ∃ heap, m.heap.queueUnref q = some heap ∧ Represents { m with heap := heap } u := by
  cases hq : s.refs q with
  | none =>
    rw [Lists.unref, hq] at hu
    cases hu
  | some r =>
    rw [Lists.unref, hq] at hu
    dsimp only at hu
    have hlt := h.stored.lt hq
    rw [Heap.queueUnref, h.stored.live q r hq]
    split at hu
    · rename_i last
      obtain ⟨empty, hu⟩ := Option.ite_none_right_eq_some.mp hu
      obtain rfl := Option.some.inj hu
      refine ⟨m.heap.setQueue q none, by simp [header, last], ?_⟩
      have stored : Stored (m.heap.setQueue q none) s.lists (Function.update s.refs q none) :=
        h.stored.setRefs none rfl rfl rfl (Nat.le_refl _) hlt fun _ => empty
      exact h.frame stored h.nextQueue h.nextItem rfl (fun _ => rfl) h.todo rfl h.log
    · rename_i more
      obtain rfl := Option.some.inj hu
      refine ⟨m.heap.setQueue q (some (header (r - 1) (s.lists (.queue q)))),
        by simp [header, more], ?_⟩
      have stored : Stored (m.heap.setQueue q (some (header (r - 1) (s.lists (.queue q))))) s.lists
          (Function.update s.refs q (some (r - 1))) :=
        h.stored.setRefs (some (r - 1)) rfl rfl rfl (Nat.le_refl _) hlt (by simp)
      exact h.frame stored h.nextQueue h.nextItem rfl (fun _ => rfl) h.todo rfl h.log

/-- The items of a queue become a list of their own. -/
theorem Stored.detach {heap : Heap α} (h : Stored heap lists refs) (hq : refs q = some r)
    (none : lists (.loop n) = []) :
    Stored (heap.setQueue q (some (header r ([] : List (Nat × α)))))
      (Function.update (Function.update lists (.queue q) []) (.loop n) (lists (.queue q)))
      refs := by
  have queues : (heap.setQueue q (some (header r ([] : List (Nat × α))))).queues =
      Function.update heap.queues q (some (header r ([] : List (Nat × α)))) := rfl
  have here : ∀ p, Function.update (Function.update lists (.queue q) []) (.loop n)
      (lists (.queue q)) (.queue p) = Function.update lists (.queue q) [] (.queue p) :=
    fun p => Function.update_of_ne (by simp) ..
  have moved := h.layout.move (p := .queue q) (q := .loop n) (by simp) none
  refine ⟨moved, h.below, fun p k hp => ?_, fun p hp => ?_, h.unborn⟩
  · rw [queues, here]
    by_cases heq : p = q
    · subst heq
      obtain rfl := Option.some.inj (hq.symm.trans hp)
      rw [Function.update_self, Function.update_self]
    · rw [Function.update_of_ne heq, Function.update_of_ne (by simp [heq])]
      exact h.live p k hp
  · have heq : p ≠ q := by
      rintro rfl
      exact absurd (hq.symm.trans hp) (by simp)
    rw [queues, here, Function.update_of_ne heq, Function.update_of_ne (by simp [heq])]
    exact h.dead p hp

/-- `queue_remove_all` begins to remove all items. -/
theorem Represents.detach (h : Represents m s) (destroy : Bool) {frames : List (Frame α)}
    {tasks : List (Task α)} (hrest : List.Forall₂ (Matches s.lists) frames tasks)
    (loops_eq : loops tasks = loops s.todo) (hu : s.detach q destroy tasks = some u) :
    ∃ t, m.detach q destroy frames = some t ∧ Represents t u := by
  obtain ⟨hlive, hu⟩ := Option.ite_none_left_eq_some.mp hu
  obtain rfl := Option.some.inj hu
  obtain ⟨r, hq⟩ := Option.ne_none_iff_exists'.mp hlive
  have unused : s.nextLoop ∉ loops s.todo := fun hn => Nat.lt_irrefl _ (h.loops_lt _ hn)
  have other : ∀ n, n ≠ s.nextLoop → Function.update (Function.update s.lists (.queue q) [])
      (.loop s.nextLoop) (s.lists (.queue q)) (.loop n) = s.lists (.loop n) := fun n hn => by
    rw [Function.update_of_ne (by simp [hn]), Function.update_of_ne (by simp)]
  have matched : Matches (Function.update (Function.update s.lists (.queue q) [])
      (.loop s.nextLoop) (s.lists (.queue q)))
      (.removeEntries (first (s.lists (.queue q))) destroy 0)
      (.removeItems s.nextLoop destroy 0) :=
    Matches.of_handed destroy 0 (Function.update_self ..)
  rw [Memory.detach, h.stored.live q r hq]
  refine ⟨_, rfl, ⟨h.stored.detach hq (h.idle _ unused), h.nextQueue, h.nextItem,
    .cons matched (todo_congr hrest fun n hn => other n ?_), ?_, fun n hn => ?_, fun n hn => ?_,
    h.log⟩⟩
  · rw [loops_eq] at hn
    exact ne_of_mem_of_not_mem hn unused
  · show (s.nextLoop :: loops tasks).Nodup
    rw [loops_eq]
    exact List.nodup_cons.mpr ⟨unused, h.nodup⟩
  · rcases List.mem_cons.mp (show n ∈ s.nextLoop :: loops tasks from hn) with rfl | hn
    · exact Nat.lt_succ_self _
    · rw [loops_eq] at hn
      exact Nat.lt_succ_of_lt (h.loops_lt n hn)
  · obtain ⟨hne, hn⟩ := not_or.mp (mt List.mem_cons.mpr
      (show n ∉ s.nextLoop :: loops tasks from hn))
    rw [loops_eq] at hn
    exact (other n hne).trans (h.idle n hn)

/-! ### The rest of a function -/

/-- The innermost function has returned. -/
theorem Represents.pop (h : Represents m s) {frame : Frame α} {task : Task α}
    {frames : List (Frame α)} {tasks : List (Task α)} (hm : m.todo = frame :: frames)
    (hs : s.todo = task :: tasks) (none : task.loops = []) :
    Represents { m with todo := frames } { s with todo := tasks } := by
  have htodo := h.todo
  rw [hm, hs] at htodo
  refine h.frame h.stored h.nextQueue h.nextItem rfl (fun _ => rfl)
    (List.forall₂_cons.mp htodo).2 ?_ h.log
  rw [loops, loops, hs, List.flatMap_cons, none, List.nil_append]

/-- The innermost function hands out a list. -/
theorem Represents.loop (h : Represents m s) {frame : Frame α} {task : Task α}
    {frames : List (Frame α)} {tasks : List (Task α)} (hm : m.todo = frame :: frames)
    (hs : s.todo = task :: tasks) (hands : task.loops = [n]) :
    List.Forall₂ (Matches s.lists) frames tasks ∧ loops s.todo = n :: loops tasks ∧
      (n :: loops tasks).Nodup ∧ (∀ k ∈ n :: loops tasks, k < s.nextLoop) ∧
      ∀ k, k ∉ n :: loops tasks → s.lists (.loop k) = [] := by
  have htodo := h.todo
  rw [hm, hs] at htodo
  have hloops : loops s.todo = n :: loops tasks := by
    rw [loops, loops, hs, List.flatMap_cons, hands, List.singleton_append]
  rw [← hloops]
  exact ⟨(List.forall₂_cons.mp htodo).2, rfl, h.nodup, h.loops_lt, h.idle⟩

/-- A function will go on. -/
theorem Represents.push (h : Represents m s) {frame : Frame α} {task : Task α}
    (matched : Matches s.lists frame task) (none : task.loops = []) :
    Represents { m with todo := frame :: m.todo } { s with todo := task :: s.todo } := by
  refine h.frame h.stored h.nextQueue h.nextItem rfl (fun _ => rfl) (.cons matched h.todo) ?_ h.log
  rw [loops, loops, List.flatMap_cons, none, List.nil_append]

/-- A function returns. -/
theorem Represents.returned (h : Represents m s) (result : Result α) :
    Represents { m with log := m.log ++ [.returned result] }
      { s with log := s.log ++ [.returned result] } :=
  h.frame h.stored h.nextQueue h.nextItem rfl (fun _ => rfl) h.todo rfl
    (congrArg (· ++ _) h.log)

/-- An item is where the list says. -/
theorem Stored.cell {heap : Heap α} (h : Stored heap lists refs) {p : Place}
    {before after : List (Nat × α)} {i : Nat × α} (hl : lists p = before ++ i :: after) :
    heap.cells i.1 = some ⟨i.2, first after⟩ := by
  have linked := h.layout.linked p
  rw [hl] at linked
  rw [(linked_append.mp linked).2.1, Option.or_none]

/-- The first item of a list that is handed out is released. -/
theorem Stored.release {heap : Heap α} (h : Stored heap lists refs) {i : Nat × α}
    {l : List (Nat × α)} (hl : lists (.loop n) = i :: l) :
    Stored { heap with cells := heap.cells.release i.1 } (Function.update lists (.loop n) l)
      refs := by
  have linked := h.layout.linked (.loop n)
  have nodup := h.layout.nodup (.loop n)
  rw [hl] at linked nodup
  have apart := List.nodup_cons.mp nodup
  have rest : Linked (heap.cells.release i.1) none l :=
    linked.2.congr fun b hb => release_of_ne _ (ne_of_mem_of_not_mem hb apart.1)
  have other : ∀ p, Function.update lists (.loop n) l (.queue p) = lists (.queue p) :=
    fun p => Function.update_of_ne (by simp) ..
  refine ⟨h.layout.update rest apart.2 ?_ ?_ ?_, fun a c hc => ?_, fun p k hp => ?_,
    fun p hp => ?_, h.unborn⟩
  · intro a ha _
    refine release_of_ne _ ?_
    rintro rfl
    exact ha (hl ▸ List.mem_cons_self)
  · exact fun a ha => .inl (hl ▸ List.mem_cons_of_mem _ ha)
  · intro a ha hr
    obtain rfl := (List.mem_cons.mp (hl ▸ ha)).resolve_right hr
    exact release_self ..
  · by_cases ha : a = i.1
    · subst ha
      exact absurd ((release_self ..).symm.trans hc) (by simp)
    · exact h.below a c ((release_of_ne _ ha).symm.trans hc)
  · rw [other]
    exact h.live p k hp
  · rw [other]
    exact h.dead p hp

/-- The loop of `queue_foreach`. -/
theorem Represents.foreach (h : Represents m s) {a : Option Nat}
    (hu : s.run (.foreach q a) = some u) :
    ∃ t, m.run (.foreach q a) = some t ∧ Represents t u := by
  cases a with
  | none =>
    obtain ⟨heap, hheap, related⟩ := h.unref hu
    exact ⟨_, by rw [Memory.run, hheap]; rfl, related⟩
  | some a =>
    rw [Lists.run] at hu
    cases hq : s.refs q with
    | none =>
      rw [hq] at hu
      cases hu
    | some r =>
      rw [hq] at hu
      dsimp only at hu
      rw [Memory.run, h.stored.live q r hq]
      simp only [Option.bind_eq_bind, Option.bind_some, header]
      by_cases hend : s.lists (.queue q) = [] ∨ r ≤ 1
      · rw [if_pos hend] at hu
        obtain ⟨heap, hheap, related⟩ := h.unref hu
        have stop : ¬ (first (s.lists (.queue q)) ≠ none ∧ 1 < r) := by
          rw [ne_eq, first_eq_none]
          rintro ⟨hne, hlt⟩
          exact hend.elim hne (by omega)
        rw [if_neg stop, hheap]
        exact ⟨_, rfl, related⟩
      · rw [if_neg hend] at hu
        obtain ⟨hne, hlt⟩ := not_or.mp hend
        have more : first (s.lists (.queue q)) ≠ none ∧ 1 < r :=
          ⟨mt first_eq_none.mp hne, Int.not_le.mp hlt⟩
        cases hrest : (s.lists (.queue q)).dropWhile (·.1 ≠ a) with
        | nil =>
          rw [hrest] at hu
          cases hu
        | cons i l =>
          rw [hrest] at hu
          obtain rfl := Option.some.inj hu
          have hl : s.lists (.queue q) = (s.lists (.queue q)).takeWhile (·.1 ≠ a) ++ i :: l := by
            rw [← hrest]
            exact (List.takeWhile_append_dropWhile ..).symm
          have here : i.1 = a := by
            have hi := List.head?_dropWhile_not (fun j : Nat × α => decide (j.1 ≠ a))
              (s.lists (.queue q))
            rw [hrest] at hi
            simpa using hi
          rw [if_pos more, ← here, h.stored.cell hl]
          exact ⟨_, rfl, (h.push (.foreach q (first l)) rfl).callBack true i.2⟩

/-- The list of a queue is not handed out. -/
theorem update_loop (lists : Place → List (Nat × α)) (q : Nat) (l : List (Nat × α)) (k : Nat) :
    Function.update lists (.queue q) l (.loop k) = lists (.loop k) :=
  Function.update_of_ne (by simp) ..

/-- The counter of a queue tells whether an item was taken. -/
theorem ofNat_succ_ne (k : Nat) : UInt32.ofNat k ≠ UInt32.ofNat (k + 1) := by
  intro heq
  rw [UInt32.ofNat_add] at heq
  have hone : UInt32.ofNat 1 = 0 := by
    have := congrArg (· - UInt32.ofNat k) heq
    simpa using this.symm
  exact absurd hone (by decide)

/-- The loop of `queue_remove_all` for the items that match. -/
theorem Represents.removeMatching (h : Represents m s) {function : α → Bool} {destroy : Bool}
    {count : UInt32} (hu : s.run (.removeMatching q function destroy count) = some u) :
    ∃ t, m.run (.removeMatching q function destroy count) = some t ∧ Represents t u := by
  rw [Lists.run] at hu
  obtain ⟨hlive, hu⟩ := Option.ite_none_left_eq_some.mp hu
  obtain ⟨r, hq⟩ := Option.ne_none_iff_exists'.mp hlive
  obtain ⟨heap, hheap, stored, hnext, hcell⟩ := h.stored.removeIf hq function
  have hqueue := stored.live q r hq
  rw [Function.update_self] at hqueue
  rw [Memory.run, h.stored.live q r hq]
  simp only [Option.bind_eq_bind, Option.bind_some, hheap, hqueue, header]
  rcases none_or_first function (s.lists (.queue q)) with hno | ⟨before, i, after, hl, hno, hi⟩
  · rw [find?_of_none hno] at hu
    obtain rfl := Option.some.inj hu
    rw [eraseP_of_none hno] at stored ⊢
    rw [Function.update_eq_self] at stored
    rw [if_pos rfl]
    exact ⟨_, rfl, h.frame stored (hnext.trans h.nextQueue) (hcell.trans h.nextItem) rfl
      (fun _ => rfl) h.todo rfl (congrArg (· ++ _) h.log)⟩
  · have hfind : (s.lists (.queue q)).find? (function ·.2) = some i :=
      hl ▸ find?_of_first hno hi
    have herase : (s.lists (.queue q)).eraseP (function ·.2) = before ++ after :=
      hl ▸ eraseP_of_first hno hi
    have hlength : (s.lists (.queue q)).length = (before ++ after).length + 1 := by
      rw [hl]
      simp only [List.length_append, List.length_cons]
      omega
    rw [hfind] at hu ⊢
    obtain rfl := Option.some.inj hu
    rw [herase] at stored ⊢
    rw [hlength, if_neg (ofNat_succ_ne _)]
    have related : Represents { m with heap := heap } (s.setList (.queue q) (before ++ after)) :=
      h.frame stored (hnext.trans h.nextQueue) (hcell.trans h.nextItem) rfl
        (update_loop s.lists q (before ++ after)) h.todo rfl h.log
    exact ⟨_, rfl, (related.push (.removeMatching q function destroy (count + 1)) rfl).callBack
      destroy i.2⟩

/-- The loop of `queue_remove_all` for all items. -/
theorem Represents.removeItems (h : Represents m s) {frames : List (Frame α)}
    {tasks : List (Task α)} {destroy : Bool} {count : UInt32}
    (hm : m.todo = .removeEntries (first (s.lists (.loop n))) destroy count :: frames)
    (hs : s.todo = .removeItems n destroy count :: tasks)
    (hu : { s with todo := tasks }.run (.removeItems n destroy count) = some u) :
    ∃ t, { m with todo := frames }.run
        (.removeEntries (first (s.lists (.loop n))) destroy count) = some t ∧
      Represents t u := by
  obtain ⟨hrest, hloops, nodup, hlt, idle⟩ := h.loop hm hs rfl
  rw [Lists.run] at hu
  dsimp only at hu
  cases hl : s.lists (.loop n) with
  | nil =>
    rw [hl] at hu
    obtain rfl := Option.some.inj hu
    refine ⟨_, rfl, ⟨h.stored, h.nextQueue, h.nextItem, hrest, (List.nodup_cons.mp nodup).2,
      fun k hk => hlt k (List.mem_cons_of_mem _ hk), fun k hk => ?_,
      congrArg (· ++ _) h.log⟩⟩
    by_cases hkn : k = n
    · rw [hkn]
      exact hl
    · exact idle k fun hmem => (List.mem_cons.mp hmem).elim hkn hk
  | cons i l =>
    rw [hl] at hu
    obtain rfl := Option.some.inj hu
    have cell := h.stored.cell (show s.lists (.loop n) = [] ++ i :: l from hl)
    rw [first_cons, Memory.run, cell]
    have related : Represents { m with todo := .removed i.1 (first l) destroy count :: frames }
        { s with todo := .removed n destroy count :: tasks } :=
      h.frame h.stored h.nextQueue h.nextItem rfl (fun _ => rfl)
        (.cons (.removed destroy count hl) hrest) hloops.symm h.log
    exact ⟨_, rfl, related.callBack destroy i.2⟩

/-- An item was handed out, and its entry is released. -/
theorem Represents.removed (h : Represents m s) {frames : List (Frame α)}
    {tasks : List (Task α)} {destroy : Bool} {count : UInt32} {i : Nat × α} {l : List (Nat × α)}
    (hl : s.lists (.loop n) = i :: l)
    (hm : m.todo = .removed i.1 (first l) destroy count :: frames)
    (hs : s.todo = .removed n destroy count :: tasks)
    (hu : { s with todo := tasks }.run (.removed n destroy count) = some u) :
    ∃ t, { m with todo := frames }.run (.removed i.1 (first l) destroy count) = some t ∧
      Represents t u := by
  obtain ⟨hrest, hloops, nodup, hlt, idle⟩ := h.loop hm hs rfl
  have other : ∀ k, k ≠ n → Function.update s.lists (.loop n) l (.loop k) = s.lists (.loop k) :=
    fun k hk => Function.update_of_ne (by simpa using hk) ..
  rw [Lists.run] at hu
  dsimp only at hu
  rw [hl] at hu
  obtain rfl := Option.some.inj hu
  have cell := h.stored.cell (show s.lists (.loop n) = [] ++ i :: l from hl)
  rw [Memory.run, cell]
  have matched : Matches (Function.update s.lists (.loop n) l)
      (.removeEntries (first l) destroy (count + 1)) (.removeItems n destroy (count + 1)) :=
    Matches.of_handed destroy (count + 1) (Function.update_self ..)
  refine ⟨_, rfl, ⟨h.stored.release hl, h.nextQueue, h.nextItem,
    .cons matched (todo_congr hrest fun k hk => other k ?_), nodup, hlt, fun k hk => ?_, h.log⟩⟩
  · exact ne_of_mem_of_not_mem hk (List.nodup_cons.mp nodup).1
  · exact (other k fun heq => hk (heq ▸ List.mem_cons_self)).trans (idle k hk)

/-- **A function runs on**, as the list's task says. -/
theorem Represents.resume (h : Represents m s) {frame : Frame α} {task : Task α}
    {frames : List (Frame α)} {tasks : List (Task α)} (hm : m.todo = frame :: frames)
    (hs : s.todo = task :: tasks) (hu : { s with todo := tasks }.run task = some u) :
    ∃ t, { m with todo := frames }.run frame = some t ∧ Represents t u := by
  have htodo := h.todo
  rw [hm, hs] at htodo
  cases (List.forall₂_cons.mp htodo).1 with
  | function => cases hu
  | foreach q a => exact (h.pop hm hs rfl).foreach hu
  | removeMatching q function destroy count => exact (h.pop hm hs rfl).removeMatching hu
  | removeItems n destroy count => exact h.removeItems hm hs hu
  | removed destroy count hl => exact h.removed hl hm hs hu
  | unref q =>
    obtain ⟨heap, hheap, related⟩ := (h.pop hm hs rfl).unref hu
    exact ⟨_, by rw [Memory.run, hheap]; rfl, related⟩

/-! ### Steps -/

/-- The memory and the lists at the start. -/
theorem Represents.start : Represents (Memory.init : Memory α) Lists.init := by
  refine ⟨⟨Layout.empty, ?_, ?_, fun _ _ => ⟨rfl, rfl⟩, fun _ _ => rfl⟩, rfl, rfl, .nil,
    List.nodup_nil, ?_, fun _ _ => rfl, rfl⟩
  · rintro a c ⟨⟩
  · rintro q r ⟨⟩
  · rintro n ⟨⟩

/-- A new queue. -/
theorem Stored.queueNew {heap : Heap α} (h : Stored heap lists refs) :
    Stored heap.queueNew lists (Function.update refs heap.nextQueue (some 1)) := by
  have none := (h.dead _ (h.unborn _ (Nat.le_refl _))).2
  refine h.setRefs (some 1) ?_ rfl rfl (Nat.le_succ _) (Nat.lt_succ_self _) (by simp)
  rw [none]
  rfl

variable [DecidableEq α]

/-- **Every step of the lists is a step of the memory.** -/
theorem Represents.step {l : Label α} (h : Represents m s) (hu : s.step l = some u) :
    ∃ t, m.step l = some t ∧ Represents t u := by
  cases l with
  | new =>
    obtain ⟨hcontrol, hu⟩ := Option.ite_none_right_eq_some.mp hu
    obtain rfl := Option.some.inj hu
    refine ⟨_, if_pos (h.inControl_iff.mpr hcontrol), ?_⟩
    rw [← h.nextQueue]
    exact h.frame h.stored.queueNew rfl h.nextItem rfl (fun _ => rfl) h.todo rfl
      (congrArg (· ++ _) h.log)
  | call q op =>
    cases q with
    | none =>
      obtain ⟨hcontrol, hu⟩ := Option.ite_none_right_eq_some.mp hu
      obtain rfl := Option.some.inj hu
      exact ⟨_, if_pos (h.inControl_iff.mpr hcontrol), h.returned op.null⟩
    | some q =>
      obtain ⟨⟨hcontrol, hlive⟩, hu⟩ := Option.ite_none_right_eq_some.mp hu
      obtain rfl := Option.some.inj hu
      obtain ⟨r, hq⟩ := Option.ne_none_iff_exists'.mp hlive
      obtain ⟨heap, hheap, stored, hnext, hcell⟩ := h.stored.exec hq op
      refine ⟨_, (if_pos (h.inControl_iff.mpr hcontrol)).trans (by simp only [hheap]; rfl), ?_⟩
      rw [h.nextItem] at stored hcell
      exact h.frame stored (hnext.trans h.nextQueue) hcell rfl
        (update_loop s.lists q (op.apply s.nextItem (s.lists (.queue q)))) h.todo rfl
        (congrArg (· ++ _) h.log)
  | foreach q =>
    cases q with
    | none =>
      obtain ⟨hcontrol, hu⟩ := Option.ite_none_right_eq_some.mp hu
      obtain rfl := Option.some.inj hu
      exact ⟨m, if_pos (h.inControl_iff.mpr hcontrol), h⟩
    | some q =>
      obtain ⟨hcontrol, hu⟩ := Option.ite_none_right_eq_some.mp hu
      obtain ⟨r, hq, hu⟩ := Option.map_eq_some_iff.mp hu
      rw [Memory.step, if_pos (h.inControl_iff.mpr hcontrol)]
      simp only [Option.bind_eq_bind, h.stored.live q r hq, Option.bind_some, header,
        Heap.queueRef, Option.map_some]
      by_cases empty : s.lists (.queue q) = []
      · rw [if_pos empty] at hu
        subst hu
        rw [if_pos (first_eq_none.mpr empty)]
        exact ⟨m, rfl, h⟩
      · rw [if_neg empty] at hu
        subst hu
        rw [if_neg (mt first_eq_none.mp empty)]
        refine ⟨_, rfl, ?_⟩
        have stored : Stored (m.heap.setQueue q (some (header (r + 1) (s.lists (.queue q)))))
            s.lists (Function.update s.refs q (some (r + 1))) :=
          h.stored.setRefs (some (r + 1)) rfl rfl rfl (Nat.le_refl _) (h.stored.lt hq) (by simp)
        have related : Represents
            { m with heap := m.heap.setQueue q (some (header (r + 1) (s.lists (.queue q)))) }
            (s.setRefs q (some (r + 1))) :=
          h.frame stored h.nextQueue h.nextItem rfl (fun _ => rfl) h.todo rfl h.log
        exact related.push (.foreach q (first (s.lists (.queue q)))) rfl
  | removeAll q function destroy =>
    cases q with
    | none =>
      obtain ⟨hcontrol, hu⟩ := Option.ite_none_right_eq_some.mp hu
      obtain rfl := Option.some.inj hu
      exact ⟨_, if_pos (h.inControl_iff.mpr hcontrol), h.returned (.count 0)⟩
    | some q =>
      cases function with
      | none =>
        obtain ⟨hcontrol, hu⟩ := Option.ite_none_right_eq_some.mp hu
        rw [Memory.step, if_pos (h.inControl_iff.mpr hcontrol)]
        exact h.detach destroy h.todo rfl hu
      | some function =>
        obtain ⟨⟨hcontrol, hlive⟩, hu⟩ := Option.ite_none_right_eq_some.mp hu
        obtain ⟨r, hq⟩ := Option.ne_none_iff_exists'.mp hlive
        rw [Memory.step, if_pos (h.inControl_iff.mpr hcontrol)]
        simp only [Option.bind_eq_bind, h.stored.live q r hq, Option.bind_some, header]
        by_cases empty : s.lists (.queue q) = []
        · rw [if_pos empty] at hu
          obtain rfl := Option.some.inj hu
          rw [if_pos (first_eq_none.mpr empty)]
          exact ⟨_, rfl, h.returned (.count 0)⟩
        · rw [if_neg empty] at hu
          obtain rfl := Option.some.inj hu
          rw [if_neg (mt first_eq_none.mp empty)]
          exact ⟨_, rfl, h.push (.removeMatching q function destroy 0) rfl⟩
  | destroy q destroy =>
    cases q with
    | none =>
      obtain ⟨hcontrol, hu⟩ := Option.ite_none_right_eq_some.mp hu
      obtain rfl := Option.some.inj hu
      exact ⟨m, if_pos (h.inControl_iff.mpr hcontrol), h⟩
    | some q =>
      obtain ⟨hcontrol, hu⟩ := Option.ite_none_right_eq_some.mp hu
      rw [Memory.step, if_pos (h.inControl_iff.mpr hcontrol)]
      exact h.detach destroy (.cons (.unref q) h.todo) rfl hu
  | ret =>
    have htodo := h.todo
    rw [Lists.step] at hu
    cases hs : s.todo with
    | nil =>
      rw [hs] at hu
      cases hu
    | cons task tasks =>
      rw [hs] at hu htodo
      cases hm : m.todo with
      | nil =>
        rw [hm] at htodo
        cases htodo
      | cons frame frames =>
        rw [hm] at htodo
        cases (List.forall₂_cons.mp htodo).1 with
        | function =>
          obtain rfl := Option.some.inj hu
          exact ⟨_, by rw [Memory.step, hm], h.pop hm hs rfl⟩
        | foreach | removeMatching | removeItems | removed | unref => cases hu
  | resume =>
    have htodo := h.todo
    rw [Lists.step] at hu
    cases hs : s.todo with
    | nil =>
      rw [hs] at hu
      cases hu
    | cons task tasks =>
      rw [hs] at hu htodo
      cases hm : m.todo with
      | nil =>
        rw [hm] at htodo
        cases htodo
      | cons frame frames =>
        rw [Memory.step, hm]
        exact h.resume hm hs hu

/-! ### Runs -/

/-- Every run of the lists is a run of the memory. -/
theorem exists_run {labels : List (Label α)}
    (run : (Lists.machine (α := α)).Run (fun _ _ => True) Lists.init labels s) :
    ∃ m, (Memory.machine (α := α)).Run (fun _ _ => True) Memory.init labels m ∧
      Represents m s := by
  induction run with
  | nil => exact ⟨_, .nil, .start⟩
  | snoc _ _ step ih =>
    obtain ⟨m, run', related⟩ := ih
    obtain ⟨t, step', related'⟩ := related.step step
    exact ⟨t, .snoc run' trivial step', related'⟩

/-- **The queues in memory are lists.** As long as the lists go on, so does the memory: it does not
read or write anything that is not there, the functions return the same results and the callbacks
are called with the same items in the same order, and the memory stores the lists. -/
theorem memory_stores_lists {labels : List (Label α)}
    (run : (Lists.machine (α := α)).Run (fun _ _ => True) Lists.init labels s) :
    ∃ m, (Memory.machine (α := α)).Run (fun _ _ => True) Memory.init labels m ∧
      m.log = s.log ∧ Stored m.heap s.lists s.refs := by
  obtain ⟨m, run', related⟩ := exists_run run
  exact ⟨m, run', related.log, related.stored⟩

/-- The callbacks of a walk and of a clearing change the queue themselves. -/
def clearingRun : List (Label Nat) :=
  [.new, .call (some 0) (.pushTail 1), .call (some 0) (.pushTail 2),
    .call (some 0) (.pushHead 3), .foreach (some 0), .resume, .call (some 0) (.remove 3),
    .call (some 0) (.pushAfter 2 4), .ret, .resume, .ret, .resume, .ret, .resume, .ret, .resume,
    .removeAll (some 0) (some (· % 2 = 0)) true, .resume, .ret, .resume,
    .call (some 0) (.pushTail 5), .ret, .resume, .destroy (some 0) true, .resume,
    .call (some 0) .isempty, .ret, .resume, .resume, .ret, .resume, .resume, .resume]

theorem memory_stores_lists_clearing : ∃ (s : Lists Nat) (m : Memory Nat),
    Memory.machine.Run (fun _ _ => True) Memory.init clearingRun m ∧ m.log = s.log ∧
      Stored m.heap s.lists s.refs := by
  obtain ⟨s, hs⟩ : ∃ s, (Lists.machine (α := Nat)).execGuarded (fun _ _ => True) Lists.init
      clearingRun = some s := Option.isSome_iff_exists.mp (by decide +kernel)
  obtain ⟨m, run, log, stored⟩ := memory_stores_lists (Lists.machine.run_of_execGuarded hs)
  exact ⟨s, m, run, log, stored⟩

/-- **Nothing is left behind.** When all queues that were made have been destroyed and no function
is running, there is neither a queue nor an entry in the memory. -/
theorem memory_is_released {labels : List (Label α)}
    (run : (Lists.machine (α := α)).Run (fun _ _ => True) Lists.init labels s)
    (returned : s.todo = []) (destroyed : ∀ q < s.nextQueue, s.refs q = none)
    (run' : (Memory.machine (α := α)).Run (fun _ _ => True) Memory.init labels m) :
    (∀ q, m.heap.queues q = none) ∧ ∀ a, m.heap.cells a = none := by
  obtain ⟨t, run'', related⟩ := exists_run run
  obtain rfl := run''.unique run'
  have dead : ∀ q, s.refs q = none := fun q => by
    rcases Nat.lt_or_ge q s.nextQueue with hlt | hge
    · exact destroyed q hlt
    · exact related.stored.unborn q (related.nextQueue ▸ hge)
  refine ⟨fun q => (related.stored.dead q (dead q)).1, fun a => ?_⟩
  by_contra hne
  obtain ⟨c, hc⟩ := Option.ne_none_iff_exists'.mp hne
  obtain ⟨p, hp⟩ := related.stored.layout.covered a c hc
  -- every list is empty: the queues are gone, and nothing is being handed out
  have empty : s.lists p = [] := by
    cases p with
    | queue q => exact (related.stored.dead q (dead q)).2
    | loop n =>
      refine related.idle n ?_
      rw [loops, returned]
      exact List.not_mem_nil
  rw [empty] at hp
  exact List.not_mem_nil hp

theorem memory_is_released_clearing : ∃ m : Memory Nat,
    Memory.machine.Run (fun _ _ => True) Memory.init clearingRun m ∧
      (∀ q, m.heap.queues q = none) ∧ ∀ a, m.heap.cells a = none := by
  obtain ⟨s, hs, ended⟩ : ∃ s, (Lists.machine (α := Nat)).execGuarded (fun _ _ => True) Lists.init
      clearingRun = some s ∧
        (s.todo.isEmpty && decide (∀ q < s.nextQueue, s.refs q = none)) = true :=
    (Option.any_eq_true ..).mp (by decide +kernel)
  have run := Lists.machine.run_of_execGuarded hs
  obtain ⟨returned, destroyed⟩ := Bool.and_eq_true_iff.mp ended
  obtain ⟨m, run', -⟩ := exists_run run
  exact ⟨m, run', memory_is_released run (List.isEmpty_iff.mp returned)
    (of_decide_eq_true destroyed) run'⟩

end Libble.Queue
