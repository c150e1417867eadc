import Libble.Queue.Lists

/-!
# How the lists are stored

The memory stores the lists if the entries of every list are linked, the structure of every queue
refers to its first and its last entry and counts them, and nothing else is in the memory. The
functions that do not call back keep this up and do to the list of their queue what they do to
lists.

The counter of a queue has 32 bits: it counts the items only up to a multiple of `2 ^ 32`.

## Main definitions

* `Queue.header`: the structure of a queue with given items.
* `Queue.Stored`: the memory stores the lists.

## Main results

* `Queue.seek_of_none`, `Queue.seek_of_first`: what the loops find.
* `Queue.Stored.exec`: the functions that do not call back.
-/

namespace Libble.Queue

open Cells

variable {α : Type}

/-- The structure of a queue with these references and items. -/
def header (refs : Int) (l : List (Nat × α)) : Queue :=
  ⟨refs, first l, final l, UInt32.ofNat l.length⟩

/-- The memory stores the lists. -/
structure Stored (m : Heap α) (lists : Place → List (Nat × α)) (refs : Nat → Option Int) :
    Prop where
  layout : m.cells.Layout lists
  below : ∀ a c, m.cells a = some c → a < m.nextCell
  live : ∀ q r, refs q = some r → m.queues q = some (header r (lists (.queue q)))
  dead : ∀ q, refs q = none → m.queues q = none ∧ lists (.queue q) = []
  unborn : ∀ q, m.nextQueue ≤ q → refs q = none

/-! ### Counting -/

theorem ofNat_length_concat (l : List (Nat × α)) (i : Nat × α) :
    UInt32.ofNat (l ++ [i]).length = UInt32.ofNat l.length + 1 := by
  rw [List.length_append, List.length_singleton, UInt32.ofNat_add]
  rfl

theorem ofNat_succ_sub_one (n : Nat) : UInt32.ofNat (n + 1) - 1 = UInt32.ofNat n := by
  rw [UInt32.ofNat_add]
  exact UInt32.add_sub_cancel _ _

/-! ### The loops -/

section Seek

variable {cells : Cells α} {function : α → Bool} {l r : List (Nat × α)} {i : Nat × α}

/-- A loop that finds nothing. -/
theorem seek_of_none {turns : Nat} (h : Linked cells none l) (hturns : l.length < turns)
    (hno : ∀ j ∈ l, function j.2 = false) (prev : Option Nat) :
    Heap.seek cells function turns prev (first l) = some none := by
  induction l generalizing turns prev with
  | nil =>
    cases turns with
    | zero => exact absurd hturns (Nat.not_lt_zero _)
    | succ turns => rfl
  | cons j l ih =>
    cases turns with
    | zero => exact absurd hturns (Nat.not_lt_zero _)
    | succ turns =>
      have hcell := h.1
      rw [Option.or_none] at hcell
      rw [first_cons, Heap.seek, hcell]
      simp only [Option.bind_eq_bind, Option.bind_some, hno j List.mem_cons_self,
        Bool.false_eq_true, if_false]
      exact ih h.2 (Nat.lt_of_succ_lt_succ hturns) (fun k hk => hno k (List.mem_cons_of_mem _ hk)) _

/-- A loop finds the first item that matches. -/
theorem seek_of_first {turns : Nat} (h : Linked cells none (l ++ i :: r))
    (hturns : (l ++ i :: r).length < turns) (hno : ∀ j ∈ l, function j.2 = false)
    (hi : function i.2 = true) (prev : Option Nat) :
    Heap.seek cells function turns prev (first (l ++ i :: r)) =
      some (some ((final l).or prev, i.1, ⟨i.2, first r⟩)) := by
  induction l generalizing turns prev with
  | nil =>
    cases turns with
    | zero => exact absurd hturns (Nat.not_lt_zero _)
    | succ turns =>
      have hcell := h.1
      rw [Option.or_none] at hcell
      rw [List.nil_append, first_cons, Heap.seek, hcell]
      simp [hi]
  | cons j l ih =>
    cases turns with
    | zero => exact absurd hturns (Nat.not_lt_zero _)
    | succ turns =>
      have hcell : cells j.1 = some ⟨j.2, first (l ++ i :: r)⟩ := by
        rw [← Option.or_none (o := first (l ++ i :: r))]
        exact h.1
      rw [List.cons_append, first_cons, Heap.seek, hcell]
      simp only [Option.bind_eq_bind, Option.bind_some, hno j List.mem_cons_self,
        Bool.false_eq_true, if_false]
      rw [ih h.2 (Nat.lt_of_succ_lt_succ hturns) (fun k hk => hno k (List.mem_cons_of_mem _ hk)),
        final_cons]
      cases final l <;> rfl

end Seek

/-- Either no item matches, or there is a first one. -/
theorem none_or_first (function : α → Bool) (l : List (Nat × α)) :
    (∀ j ∈ l, function j.2 = false) ∨ ∃ before i after, l = before ++ i :: after ∧
      (∀ j ∈ before, function j.2 = false) ∧ function i.2 = true := by
  induction l with
  | nil => exact .inl fun _ h => absurd h List.not_mem_nil
  | cons j l ih =>
    by_cases hj : function j.2 = true
    · exact .inr ⟨[], j, l, rfl, fun _ h => absurd h List.not_mem_nil, hj⟩
    · have hj : function j.2 = false := Bool.eq_false_iff.mpr hj
      rcases ih with none | ⟨before, i, after, rfl, hno, hi⟩
      · exact .inl (List.forall_mem_cons.mpr ⟨hj, none⟩)
      · exact .inr ⟨j :: before, i, after, rfl, List.forall_mem_cons.mpr ⟨hj, hno⟩, hi⟩

section First

variable {f : α → Bool} {l before after : List (Nat × α)} {i : Nat × α}

theorem find?_of_none (hno : ∀ j ∈ l, f j.2 = false) : l.find? (f ·.2) = none :=
  List.find?_eq_none.mpr fun j hj => by simp [hno j hj]

theorem find?_of_first (hno : ∀ j ∈ before, f j.2 = false) (hi : f i.2 = true) :
    (before ++ i :: after).find? (f ·.2) = some i := by
  rw [List.find?_append, find?_of_none hno, Option.none_or,
    List.find?_cons_of_pos (p := fun j : Nat × α => f j.2) hi]

theorem eraseP_of_none (hno : ∀ j ∈ l, f j.2 = false) : l.eraseP (f ·.2) = l :=
  List.eraseP_of_forall_not fun j hj => by simp [hno j hj]

theorem eraseP_of_first (hno : ∀ j ∈ before, f j.2 = false) (hi : f i.2 = true) :
    (before ++ i :: after).eraseP (f ·.2) = before ++ after := by
  rw [List.eraseP_append_right _ fun j hj => by simp [hno j hj],
    List.eraseP_cons_of_pos (p := fun j : Nat × α => f j.2) hi]

theorem any_of_none (hno : ∀ j ∈ l, f j.2 = false) : l.any (f ·.2) = false :=
  List.any_eq_false.mpr fun j hj => by simp [hno j hj]

theorem any_of_first (hi : f i.2 = true) :
    (before ++ i :: after).any (f ·.2) = true :=
  List.any_eq_true.mpr ⟨i, by simp, hi⟩

theorem insertAfter_of_none (hno : ∀ j ∈ l, f j.2 = false) (new : Nat × α) :
    insertAfter f new l = none := by
  induction l with
  | nil => rfl
  | cons j l ih =>
    rw [List.forall_mem_cons] at hno
    rw [insertAfter, hno.1, ih hno.2]
    rfl

theorem insertAfter_of_first (hno : ∀ j ∈ before, f j.2 = false)
    (hi : f i.2 = true) (new : Nat × α) :
    insertAfter f new (before ++ i :: after) = some (before ++ i :: new :: after) := by
  induction before with
  | nil => rw [List.nil_append, insertAfter, if_pos hi]; rfl
  | cons j before ih =>
    rw [List.forall_mem_cons] at hno
    rw [List.cons_append, insertAfter, hno.1, ih hno.2]
    rfl

end First

/-! ### The functions -/

namespace Stored

variable {m t : Heap α} {lists : Place → List (Nat × α)} {refs : Nat → Option Int} {q : Nat}
  {r : Int} {l : List (Nat × α)}

/-- There are no more items in a list than addresses. -/
theorem length_lt (h : Stored m lists refs) (p : Place) : (lists p).length < m.nextCell + 1 := by
  have hsub : ∀ a ∈ addrs (lists p), a ∈ List.range m.nextCell := fun a ha => by
    obtain ⟨c, hc⟩ := (h.layout.linked p).exists_cell ha
    exact List.mem_range.mpr (h.below a c hc)
  have hle := ((h.layout.nodup p).subperm hsub).length_le
  rw [List.length_map, List.length_range] at hle
  exact Nat.lt_succ_of_le hle

/-- The next address is free. -/
theorem free (h : Stored m lists refs) : m.cells m.nextCell = none := by
  by_contra hne
  obtain ⟨c, hc⟩ := Option.ne_none_iff_exists'.mp hne
  exact absurd (h.below _ c hc) (Nat.lt_irrefl _)

theorem notMem_next (h : Stored m lists refs) (p : Place) : m.nextCell ∉ addrs (lists p) :=
  h.layout.notMem h.free p

/-- The list of a queue is changed. -/
theorem change (h : Stored m lists refs) (hq : refs q = some r)
    (hqueues : t.queues = Function.update m.queues q (some (header r l)))
    (hnext : t.nextQueue = m.nextQueue)
    (layout : t.cells.Layout (Function.update lists (.queue q) l))
    (below : ∀ a c, t.cells a = some c → a < t.nextCell) :
    Stored t (Function.update lists (.queue q) l) refs := by
  refine ⟨layout, below, fun s n hs => ?_, fun s hs => ?_, fun s hs => h.unborn s (hnext ▸ hs)⟩
  · rw [hqueues]
    by_cases heq : s = q
    · subst heq
      obtain rfl := Option.some.inj (hq.symm.trans hs)
      rw [Function.update_self, Function.update_self]
    · rw [Function.update_of_ne heq, Function.update_of_ne (by simp [heq])]
      exact h.live s n hs
  · have heq : s ≠ q := by
      rintro rfl
      exact absurd (hq.symm.trans hs) (by simp)
    rw [hqueues, Function.update_of_ne heq, Function.update_of_ne (by simp [heq])]
    exact h.dead s hs

/-- An item is added to the list of a queue. -/
theorem add (h : Stored m lists refs) (hq : refs q = some r) {x : α} {cells : Cells α}
    (hqueues : t.queues = Function.update m.queues q (some (header r l)))
    (hnext : t.nextQueue = m.nextQueue) (hcells : t.cells = cells)
    (hcell : t.nextCell = m.nextCell + 1) (linked : Linked cells none l)
    (perm : l.Perm ((m.nextCell, x) :: lists (.queue q)))
    (same : ∀ b, b ∉ addrs (lists (.queue q)) → b ≠ m.nextCell → cells b = m.cells b) :
    Stored t (Function.update lists (.queue q) l) refs := by
  have hperm : (addrs l).Perm (m.nextCell :: addrs (lists (.queue q))) := perm.map Prod.fst
  have hmem : ∀ b, b ∈ addrs l ↔ b = m.nextCell ∨ b ∈ addrs (lists (.queue q)) :=
    fun b => hperm.mem_iff.trans List.mem_cons
  subst hcells
  refine h.change hq hqueues hnext (h.layout.update linked ?_ ?_ ?_ ?_) fun b c hc => ?_
  · exact hperm.nodup_iff.mpr (List.nodup_cons.mpr ⟨h.notMem_next _, h.layout.nodup _⟩)
  · exact fun b hb hl => same b hb fun heq => hl ((hmem b).mpr (.inl heq))
  · intro b hb
    rcases (hmem b).mp hb with rfl | hb
    · exact .inr h.free
    · exact .inl hb
  · exact fun b hb hl => absurd ((hmem b).mpr (.inr hb)) hl
  · rw [hcell]
    by_cases hb : b ∈ addrs l
    · rcases (hmem b).mp hb with rfl | hb
      · exact Nat.lt_succ_self _
      · obtain ⟨c', hc'⟩ := (h.layout.linked _).exists_cell hb
        exact Nat.lt_succ_of_lt (h.below b c' hc')
    · have hne : b ≠ m.nextCell := fun heq => hb ((hmem b).mpr (.inl heq))
      have hold : b ∉ addrs (lists (.queue q)) := fun hmem' => hb ((hmem b).mpr (.inr hmem'))
      exact Nat.lt_succ_of_lt (h.below b c ((same b hold hne).symm.trans hc))

/-- An item is taken from the list of a queue. -/
theorem take (h : Stored m lists refs) (hq : refs q = some r) {before after : List (Nat × α)}
    {i : Nat × α} (hl : lists (.queue q) = before ++ i :: after) {cells : Cells α}
    (hqueues : t.queues = Function.update m.queues q (some (header r (before ++ after))))
    (hnext : t.nextQueue = m.nextQueue) (hcell : t.nextCell = m.nextCell)
    (hcells : t.cells = cells.release i.1)
    (linked : Linked (cells.release i.1) none (before ++ after))
    (same : ∀ b, b ∉ addrs before → cells b = m.cells b) :
    Stored t (Function.update lists (.queue q) (before ++ after)) refs := by
  have nodup := h.layout.nodup (.queue q)
  have hmem : ∀ b, b ∈ addrs (lists (.queue q)) ↔ b = i.1 ∨ b ∈ addrs (before ++ after) := by
    intro b
    rw [hl, addrs_append, addrs_cons, addrs_append, List.mem_append, List.mem_cons,
      List.mem_append]
    tauto
  have split : (addrs (lists (.queue q))).Perm (i.1 :: addrs (before ++ after)) := by
    rw [hl, addrs_append, addrs_cons, addrs_append]
    exact List.perm_middle
  have apart := List.nodup_cons.mp (split.nodup_iff.mp nodup)
  have kept : ∀ b, b ∉ addrs (before ++ after) → b ≠ i.1 → t.cells b = m.cells b := by
    intro b hb hne
    rw [hcells, release_of_ne _ hne]
    exact same b fun hmem' => hb (addrs_append .. ▸ List.mem_append_left _ hmem')
  refine h.change hq hqueues hnext (h.layout.update (hcells ▸ linked) apart.2 ?_ ?_ ?_)
    fun b c hc => ?_
  · exact fun b hb hr => kept b hr fun heq => hb ((hmem b).mpr (.inl heq))
  · exact fun b hb => .inl ((hmem b).mpr (.inr hb))
  · intro b hb hr
    obtain rfl := ((hmem b).mp hb).resolve_right hr
    rw [hcells, release_self]
  · rw [hcell]
    by_cases hne : b = i.1
    · subst hne
      rw [hcells, release_self] at hc
      cases hc
    · by_cases hb : b ∈ addrs (before ++ after)
      · obtain ⟨c', hc'⟩ := (h.layout.linked _).exists_cell ((hmem b).mpr (.inr hb))
        exact h.below b c' hc'
      · exact h.below b c ((kept b hb hne).symm.trans hc)

/-- Nothing is changed. -/
theorem same (h : Stored m lists refs) : Stored m (Function.update lists (.queue q)
    (lists (.queue q))) refs := by
  rwa [Function.update_eq_self]

/-- `queue_push_tail` -/
theorem pushTail (h : Stored m lists refs) (hq : refs q = some r) (data : α) :
    ∃ t, m.queuePushTail q data = some (t, true) ∧
      Stored t (Function.update lists (.queue q) (lists (.queue q) ++ [(m.nextCell, data)])) refs ∧
      t.nextQueue = m.nextQueue ∧ t.nextCell = m.nextCell + 1 := by
  obtain ⟨cells, hcells, linked, same⟩ := (h.layout.linked (.queue q)).concat
    (h.layout.nodup _) (h.notMem_next _) data
  refine ⟨{ m.queueEntryNew data none with cells := cells }.setQueue q
    (some (header r (lists (.queue q) ++ [(m.nextCell, data)]))), ?_,
    h.add (x := data) hq rfl rfl rfl rfl linked ?_ same, rfl, rfl⟩
  · rw [Heap.queuePushTail, h.live q r hq]
    have hfirst : first (lists (.queue q) ++ [(m.nextCell, data)]) =
        (first (lists (.queue q))).or (some m.nextCell) := first_append ..
    simp only [Option.bind_eq_bind, Option.bind_some, header, Heap.queueEntryNew, Heap.setQueue,
      final_concat, ofNat_length_concat, hfirst]
    cases hf : final (lists (.queue q)) with
    | none =>
      rw [hf] at hcells
      obtain rfl := Option.some.inj hcells
      rfl
    | some last =>
      rw [hf] at hcells
      dsimp only at hcells ⊢
      rw [hcells]
      rfl
  · exact List.perm_append_singleton _ _

/-- `queue_push_head` -/
theorem pushHead (h : Stored m lists refs) (hq : refs q = some r) (data : α) :
    ∃ t, m.queuePushHead q data = some (t, true) ∧
      Stored t (Function.update lists (.queue q) ((m.nextCell, data) :: lists (.queue q))) refs ∧
      t.nextQueue = m.nextQueue ∧ t.nextCell = m.nextCell + 1 := by
  have fresh := h.notMem_next (.queue q)
  have linked : Linked (m.cells.alloc m.nextCell ⟨data, first (lists (.queue q))⟩) none
      ((m.nextCell, data) :: lists (.queue q)) := by
    refine ⟨?_, (h.layout.linked _).congr fun b hb => ?_⟩
    · rw [Option.or_none]
      exact alloc_self ..
    · exact alloc_of_ne _ (ne_of_mem_of_not_mem hb fresh) _
  refine ⟨(m.queueEntryNew data (first (lists (.queue q)))).setQueue q
    (some (header r ((m.nextCell, data) :: lists (.queue q)))), ?_,
    h.add hq rfl rfl rfl rfl linked (List.Perm.refl _)
      fun b _ hne => alloc_of_ne _ hne _, rfl, rfl⟩
  rw [Heap.queuePushHead, h.live q r hq]
  simp only [Option.bind_eq_bind, Option.bind_some, header, Heap.queueEntryNew, Heap.setQueue,
    first_cons, final_cons, List.length_cons, UInt32.ofNat_add]
  rfl

/-- What the loops find in a queue. -/
theorem seekFrom_of_none (h : Stored m lists refs) {function : α → Bool}
    (hno : ∀ j ∈ lists (.queue q), function j.2 = false) :
    m.seekFrom function (header r (lists (.queue q))) = some none :=
  seek_of_none (h.layout.linked _) (h.length_lt _) hno none

theorem seekFrom_of_first (h : Stored m lists refs) {function : α → Bool}
    {before after : List (Nat × α)} {i : Nat × α} (hl : lists (.queue q) = before ++ i :: after)
    (hno : ∀ j ∈ before, function j.2 = false) (hi : function i.2 = true) :
    m.seekFrom function (header r (before ++ i :: after)) =
      some (some (final before, i.1, ⟨i.2, first after⟩)) := by
  have linked := h.layout.linked (.queue q)
  have turns := h.length_lt (.queue q)
  rw [hl] at linked turns
  rw [Heap.seekFrom, header]
  exact (seek_of_first linked turns hno hi none).trans (by rw [Option.or_none])

/-- An item is taken out behind others. -/
theorem unlink (h : Stored m lists refs) (hq : refs q = some r) {before after : List (Nat × α)}
    {i : Nat × α} (hl : lists (.queue q) = before ++ i :: after) :
    ∃ t, m.unlink q (header r (before ++ i :: after)) (final before) i.1 ⟨i.2, first after⟩ =
        some t ∧
      Stored t (Function.update lists (.queue q) (before ++ after)) refs ∧
      t.nextQueue = m.nextQueue ∧ t.nextCell = m.nextCell := by
  have linked := h.layout.linked (.queue q)
  have nodup := h.layout.nodup (.queue q)
  rw [hl] at linked nodup
  obtain ⟨cells, hcells, linked, same⟩ := linked.unlink nodup
  rw [Option.or_none] at hcells
  refine ⟨{ m with cells := cells.release i.1 }.setQueue q (some (header r (before ++ after))),
    ?_, h.take hq hl rfl rfl rfl rfl linked same, rfl, rfl⟩
  have hfirst : first (before ++ after) = if final before = none then first after
      else first (before ++ i :: after) := by
    simp only [first_append, final_eq_none]
    cases before <;> simp [first]
  have hfinal : final (before ++ after) = if first after = none then final before
      else final (before ++ i :: after) := by
    simp only [first_eq_none]
    cases after with
    | nil => simp
    | cons j after => simp [final_append_cons, final_cons i, final_cons j]
  have hlength : (before ++ i :: after).length = (before ++ after).length + 1 := by
    simp only [List.length_append, List.length_cons]
    omega
  rw [header, header, hfirst, hfinal, hlength]
  cases hf : final before with
  | none =>
    rw [hf] at hcells
    obtain rfl := Option.some.inj hcells
    simp only [Heap.unlink, Option.bind_eq_bind, Option.bind_some, ofNat_succ_sub_one]
  | some last =>
    rw [hf] at hcells
    dsimp only at hcells
    simp only [Heap.unlink, Option.bind_eq_bind, hcells, Option.bind_some, ofNat_succ_sub_one]

/-- `queue_remove_if` -/
theorem removeIf (h : Stored m lists refs) (hq : refs q = some r) (f : α → Bool) :
    ∃ t, m.queueRemoveIf q f = some (t, ((lists (.queue q)).find? (f ·.2)).map Prod.snd) ∧
      Stored t (Function.update lists (.queue q) ((lists (.queue q)).eraseP (f ·.2))) refs ∧
      t.nextQueue = m.nextQueue ∧ t.nextCell = m.nextCell := by
  rw [Heap.queueRemoveIf, h.live q r hq]
  simp only [Option.bind_eq_bind, Option.bind_some]
  rcases none_or_first f (lists (.queue q)) with hno | ⟨before, i, after, hl, hno, hi⟩
  · rw [h.seekFrom_of_none hno, find?_of_none hno, eraseP_of_none hno]
    exact ⟨m, rfl, h.same, rfl, rfl⟩
  · rw [hl, h.seekFrom_of_first hl hno hi, find?_of_first hno hi, eraseP_of_first hno hi]
    obtain ⟨t, ht, stored⟩ := h.unlink hq hl
    refine ⟨t, ?_, stored⟩
    simp only [Option.bind_some, ht, Option.map_some]

/-- `queue_pop_head` -/
theorem popHead (h : Stored m lists refs) (hq : refs q = some r) :
    ∃ t, m.queuePopHead q = some (t, (lists (.queue q)).head?.map Prod.snd) ∧
      Stored t (Function.update lists (.queue q) (lists (.queue q)).tail) refs ∧
      t.nextQueue = m.nextQueue ∧ t.nextCell = m.nextCell := by
  rw [Heap.queuePopHead, h.live q r hq]
  simp only [Option.bind_eq_bind, Option.bind_some]
  cases hl : lists (.queue q) with
  | nil =>
    refine ⟨m, rfl, ?_, rfl, rfl⟩
    rw [List.tail_nil, ← hl]
    exact h.same
  | cons i after =>
    have linked := h.layout.linked (.queue q)
    have nodup := h.layout.nodup (.queue q)
    rw [hl] at linked nodup
    have hcell : m.cells i.1 = some ⟨i.2, first after⟩ := by
      rw [← Option.or_none (o := first after)]
      exact linked.1
    have apart := (List.nodup_cons.mp nodup).1
    have rest : Linked (m.cells.release i.1) none after :=
      linked.2.congr fun b hb => release_of_ne _ (ne_of_mem_of_not_mem hb apart)
    refine ⟨{ m with cells := m.cells.release i.1 }.setQueue q (some (header r after)), ?_,
      h.take hq (show lists (.queue q) = [] ++ i :: after from hl) rfl rfl rfl rfl rest
        fun _ _ => rfl, rfl, rfl⟩
    have hfinal : final after = if first after = none then none else final (i :: after) := by
      simp only [first_eq_none]
      cases after with
      | nil => rfl
      | cons j after => simp [final_cons i, final_cons j]
    simp only [header, first_cons, hcell, Option.bind_some, List.length_cons, ofNat_succ_sub_one,
      ← hfinal]
    rfl

/-- The data of the first item and of the last one. -/
theorem peek_eq (h : Stored m lists refs) (p : Place) {i : Nat × α} (hi : i ∈ lists p) :
    m.peek (some i.1) = some (some i.2) := by
  obtain ⟨before, after, hl⟩ := List.append_of_mem hi
  have linked := h.layout.linked p
  rw [hl] at linked
  rw [Heap.peek, (linked_append.mp linked).2.1]
  rfl

theorem peekHead (h : Stored m lists refs) (hq : refs q = some r) :
    m.queuePeekHead q = some ((lists (.queue q)).head?.map Prod.snd) := by
  rw [Heap.queuePeekHead, h.live q r hq]
  simp only [Option.bind_eq_bind, Option.bind_some, header, first]
  cases hl : (lists (.queue q)).head? with
  | none => rfl
  | some i => exact (if_neg (by simp)).trans (h.peek_eq _ (List.mem_of_head? hl))

theorem peekTail (h : Stored m lists refs) (hq : refs q = some r) :
    m.queuePeekTail q = some ((lists (.queue q)).getLast?.map Prod.snd) := by
  rw [Heap.queuePeekTail, h.live q r hq]
  simp only [Option.bind_eq_bind, Option.bind_some, header, final]
  cases hl : (lists (.queue q)).getLast? with
  | none => rfl
  | some i => exact (if_neg (by simp)).trans (h.peek_eq _ (List.mem_of_getLast? hl))

/-- `queue_find` -/
theorem find (h : Stored m lists refs) (hq : refs q = some r) (f : α → Bool) :
    m.queueFind q f = some (((lists (.queue q)).find? (f ·.2)).map Prod.snd) := by
  rw [Heap.queueFind, h.live q r hq]
  simp only [Option.bind_eq_bind, Option.bind_some]
  rcases none_or_first f (lists (.queue q)) with hno | ⟨before, i, after, hl, hno, hi⟩
  · rw [h.seekFrom_of_none hno, find?_of_none hno]
    rfl
  · rw [hl, h.seekFrom_of_first hl hno hi, find?_of_first hno hi]
    rfl

variable [DecidableEq α]

/-- `queue_push_after` -/
theorem pushAfter (h : Stored m lists refs) (hq : refs q = some r) (entry data : α) :
    ∃ t, m.queuePushAfter q entry data =
        some (t, (lists (.queue q)).any (·.2 = entry)) ∧
      Stored t (Function.update lists (.queue q)
        ((insertAfter (· = entry) (m.nextCell, data) (lists (.queue q))).getD
          (lists (.queue q)))) refs ∧
      t.nextQueue = m.nextQueue ∧
      t.nextCell = if (lists (.queue q)).any (·.2 = entry) then m.nextCell + 1
        else m.nextCell := by
  rw [Heap.queuePushAfter, h.live q r hq]
  simp only [Option.bind_eq_bind, Option.bind_some]
  rcases none_or_first (· = entry) (lists (.queue q)) with hno | ⟨before, i, after, hl, hno, hi⟩
  · rw [h.seekFrom_of_none hno, insertAfter_of_none hno, any_of_none (f := (· = entry)) hno]
    exact ⟨m, rfl, h.same, rfl, rfl⟩
  · rw [hl, h.seekFrom_of_first hl hno hi, insertAfter_of_first hno hi,
      any_of_first (f := (· = entry)) hi]
    have linked := h.layout.linked (.queue q)
    have nodup := h.layout.nodup (.queue q)
    have fresh := h.notMem_next (.queue q)
    rw [hl] at linked nodup fresh
    obtain ⟨cells, hcells, linked, same⟩ := linked.insert nodup fresh data
    rw [Option.or_none] at hcells
    rw [← hl] at same
    refine ⟨{ m.queueEntryNew data (first after) with cells := cells }.setQueue q
      (some (header r (before ++ i :: (m.nextCell, data) :: after))), ?_,
      h.add (x := data) hq rfl rfl rfl rfl linked ?_ same, rfl, rfl⟩
    · simp only [Option.bind_some, Heap.queueEntryNew, hcells, Heap.setQueue, header]
      have hfirst : first (before ++ i :: (m.nextCell, data) :: after) =
          first (before ++ i :: after) := by simp only [first_append, first_cons]
      have hlength : (before ++ i :: (m.nextCell, data) :: after).length =
          (before ++ i :: after).length + 1 := by
        simp only [List.length_append, List.length_cons]
        omega
      have hfinal : final (before ++ i :: (m.nextCell, data) :: after) =
          if first after = none then some m.nextCell else final (before ++ i :: after) := by
        cases after <;> simp [final_append_cons, final_cons]
      rw [hfirst, hlength, hfinal, UInt32.ofNat_add]
      rfl
    · have perm : (before ++ [i] ++ (m.nextCell, data) :: after).Perm _ := List.perm_middle
      rw [List.append_assoc, List.append_assoc] at perm
      rwa [hl]

/-- `queue_remove` -/
theorem remove (h : Stored m lists refs) (hq : refs q = some r) (data : α) :
    ∃ t, m.queueRemove q data = some (t, (lists (.queue q)).any (·.2 = data)) ∧
      Stored t (Function.update lists (.queue q) ((lists (.queue q)).eraseP (·.2 = data))) refs ∧
      t.nextQueue = m.nextQueue ∧ t.nextCell = m.nextCell := by
  rw [Heap.queueRemove, h.live q r hq]
  simp only [Option.bind_eq_bind, Option.bind_some]
  rcases none_or_first (· = data) (lists (.queue q)) with hno | ⟨before, i, after, hl, hno, hi⟩
  · rw [h.seekFrom_of_none hno, any_of_none (f := (· = data)) hno,
      eraseP_of_none (f := (· = data)) hno]
    exact ⟨m, rfl, h.same, rfl, rfl⟩
  · rw [hl, h.seekFrom_of_first hl hno hi, any_of_first (f := (· = data)) hi,
      eraseP_of_first (f := (· = data)) hno hi]
    obtain ⟨t, ht, stored⟩ := h.unlink hq hl
    refine ⟨t, ?_, stored⟩
    simp only [Option.bind_some, ht, Option.map_some]

/-- **The functions do to the stored lists what they do to lists.** -/
theorem exec (h : Stored m lists refs) (hq : refs q = some r) (op : Op α) :
    ∃ t, m.exec q op = some (t, op.result (lists (.queue q))) ∧
      Stored t (Function.update lists (.queue q) (op.apply m.nextCell (lists (.queue q)))) refs ∧
      t.nextQueue = m.nextQueue ∧
      t.nextCell = if op.makes (lists (.queue q)) then m.nextCell + 1 else m.nextCell := by
  cases op with
  | pushTail data =>
    obtain ⟨t, ht, stored, hnext, hcell⟩ := h.pushTail hq data
    exact ⟨t, by rw [Heap.exec, ht]; rfl, stored, hnext, hcell⟩
  | pushHead data =>
    obtain ⟨t, ht, stored, hnext, hcell⟩ := h.pushHead hq data
    exact ⟨t, by rw [Heap.exec, ht]; rfl, stored, hnext, hcell⟩
  | pushAfter entry data =>
    obtain ⟨t, ht, stored, hnext, hcell⟩ := h.pushAfter hq entry data
    exact ⟨t, by rw [Heap.exec, ht]; rfl, stored, hnext, hcell⟩
  | popHead =>
    obtain ⟨t, ht, stored, hnext, hcell⟩ := h.popHead hq
    exact ⟨t, by rw [Heap.exec, ht]; rfl, stored, hnext, hcell⟩
  | remove data =>
    obtain ⟨t, ht, stored, hnext, hcell⟩ := h.remove hq data
    exact ⟨t, by rw [Heap.exec, ht]; rfl, stored, hnext, hcell⟩
  | removeIf function =>
    obtain ⟨t, ht, stored, hnext, hcell⟩ := h.removeIf hq function
    exact ⟨t, by rw [Heap.exec, ht]; rfl, stored, hnext, hcell⟩
  | peekHead => exact ⟨m, by rw [Heap.exec, h.peekHead hq]; rfl, h.same, rfl, rfl⟩
  | peekTail => exact ⟨m, by rw [Heap.exec, h.peekTail hq]; rfl, h.same, rfl, rfl⟩
  | find function => exact ⟨m, by rw [Heap.exec, h.find hq]; rfl, h.same, rfl, rfl⟩
  | getEntries =>
    exact ⟨m, by rw [Heap.exec, Heap.queueGetEntries, h.live q r hq]; rfl, h.same, rfl, rfl⟩
  | length =>
    exact ⟨m, by rw [Heap.exec, Heap.queueLength, h.live q r hq]; rfl, h.same, rfl, rfl⟩
  | isempty =>
    exact ⟨m, by rw [Heap.exec, Heap.queueIsempty, h.live q r hq]; rfl, h.same, rfl, rfl⟩

end Stored

end Libble.Queue
