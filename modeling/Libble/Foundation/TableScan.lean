import Libble.Foundation.ProcedureCourse

/-!
# Scanning a sorted table

A client that does not know the rows of a remote table reads it in pieces: it asks for the rows
from a key on, gets some of them from the first one on, and asks again behind the last row it got,
until it is told that there are no more or sees it from the last key. How many rows an answer has
is up to the peer. Whatever the peer decides, every row is read once and in order, and there are
at most as many requests as rows, and one more. What the client makes of the rows in the end may
depend on the last answer.

## Main definitions

* `SortedTable`, `SortedTable.above`, `SortedTable.below`: a table, and its rows on either side of
  a key.
* `SortedTable.Split`: the rows that have been read and those that have not.
* `Scan`: a procedure of a pipeline that reads a table.

## Main results

* `SortedTable.Split.above_eq`, `SortedTable.Split.below_eq`, `SortedTable.Split.next`: what is
  found on either side of a key, and how the scan moves on.
* `Scan.scanned_of_course`: how far a scan has come.
-/

namespace Libble

universe u v w x y

/-- A table whose rows ascend strictly in their keys. -/
structure SortedTable (α : Type u) (key : α → Nat) where
  rows : List α
  ascending : rows.Pairwise fun a b => key a < key b

namespace SortedTable

variable {α : Type u} {key : α → Nat} (table : SortedTable α key)

/-- The rows from a key on. -/
def above (k : Nat) : List α := table.rows.filter fun a => k ≤ key a

/-- The rows below a key. -/
def below (k : Nat) : List α := table.rows.filter fun a => key a < k

/-- The rows below `k` are `seen`, and those from `k` on are `rest`. -/
structure Split (k : Nat) (seen rest : List α) : Prop where
  rows_eq : table.rows = seen ++ rest
  seen_lt : ∀ a ∈ seen, key a < k
  le_rest : ∀ a ∈ rest, k ≤ key a

namespace Split

variable {table} {k : Nat} {seen rest run : List α} {last : α}

/-- Nothing has been read. -/
theorem start (h : ∀ a ∈ table.rows, k ≤ key a) : table.Split k [] table.rows := ⟨rfl, nofun, h⟩

theorem above_eq (h : table.Split k seen rest) : table.above k = rest := by
  rw [above, h.rows_eq, List.filter_append, List.filter_eq_nil_iff.mpr, List.nil_append,
    List.filter_eq_self.mpr]
  · intro a ha
    simpa using h.le_rest a ha
  · intro a ha
    simpa using h.seen_lt a ha

theorem below_eq (h : table.Split k seen rest) : table.below k = seen := by
  rw [below, h.rows_eq, List.filter_append, List.filter_eq_self.mpr, List.filter_eq_nil_iff.mpr,
    List.append_nil]
  · intro a ha
    simpa using h.le_rest a ha
  · intro a ha
    simpa using h.seen_lt a ha

theorem length_le (h : table.Split k seen rest) : seen.length ≤ table.rows.length := by
  rw [h.rows_eq, List.length_append]
  exact Nat.le_add_right ..

/-- The scan moves on behind the last row that was read. -/
theorem next (h : table.Split k seen (run ++ [last] ++ rest)) :
    table.Split (key last + 1) (seen ++ (run ++ [last])) rest := by
  have hascending := table.ascending
  rw [h.rows_eq] at hascending
  obtain ⟨-, hrest, -⟩ := List.pairwise_append.mp hascending
  obtain ⟨hrun, -, hlast⟩ := List.pairwise_append.mp hrest
  obtain ⟨-, -, hinit⟩ := List.pairwise_append.mp hrun
  have hmem : last ∈ run ++ [last] := List.mem_append_right _ List.mem_cons_self
  refine ⟨by rw [h.rows_eq]; simp, fun a ha => ?_, fun a ha => hlast last hmem a ha⟩
  rcases List.mem_append.mp ha with ha | ha
  · have hle := h.le_rest last (List.mem_append_left _ hmem)
    exact Nat.lt_succ_of_lt (Nat.lt_of_lt_of_le (h.seen_lt a ha) hle)
  · rcases List.mem_append.mp ha with ha | ha
    · exact Nat.lt_succ_of_lt (hinit a ha last List.mem_cons_self)
    · obtain rfl := List.mem_singleton.mp ha
      exact Nat.lt_succ_self _

/-- Behind the greatest key there are no rows. -/
theorem rest_eq_nil (h : table.Split k seen rest) (bound : Nat)
    (hbound : ∀ a ∈ table.rows, key a < bound) (hk : bound ≤ k) : rest = [] := by
  refine List.eq_nil_iff_forall_not_mem.mpr fun a ha => ?_
  have hlt := hbound a (h.rows_eq ▸ List.mem_append_right _ ha)
  have hle := h.le_rest a ha
  omega

end Split

end SortedTable

open Pipeline

section Scan

variable {α : Type u} {key : α → Nat} {K Req : Type v} {Rsp : Type w} {Cont : Type x}
  {Out : Type y} (pos : K → Nat)

/-- A procedure that reads a table: `cont k seen` waits for the answer to the request for the rows
from `pos k` on after the rows `seen` have been read, and `Outs rsp outs` says that it may make the
outputs `outs` of the last answer `rsp`. -/
structure Scan (react : Req → Cont → Rsp → Turn Req Cont Out) (again : Rsp → Prop)
    (table : SortedTable α key) (Outs : Rsp → List Out → Prop) where
  request : K → Req
  cont : K → List α → Cont
  /-- What the peer may answer to a request. -/
  Conforms : K → Rsp → Prop
  not_again : ∀ {k rsp}, Conforms k rsp → ¬ again rsp
  /-- After an answer some more rows have been read, or the procedure is over. -/
  turn : ∀ {k seen rest rsp}, table.Split (pos k) seen rest → Conforms k rsp →
    (∃ k' run rest', run ≠ [] ∧ table.Split (pos k') (seen ++ run) rest' ∧
      react (request k) (cont k seen) rsp = .next (request k') (cont k' (seen ++ run))) ∨
    ∃ outs, Outs rsp outs ∧ react (request k) (cont k seen) rsp = .done outs

namespace Scan

variable {pos} {react : Req → Cont → Rsp → Turn Req Cont Out} {again : Rsp → Prop}
  {table : SortedTable α key} {Outs : Rsp → List Out → Prop}
  (scan : Scan pos react again table Outs) (o : Nat)

/-- How far a scan has come in its dialogue. -/
inductive Scanned : List (Exchange Req Rsp) → Phase Req Cont Out → Prop
  | queued {dialogue : List (Exchange Req Rsp)} {k : K} {seen rest : List α}
      (split : table.Split (pos k) seen rest) (le : (asked dialogue).length ≤ seen.length) :
    Scanned dialogue (.queued (scan.request k) (scan.cont k seen))
  | pending {dialogue : List (Exchange Req Rsp)} {k : K} {seen rest : List α}
      (split : table.Split (pos k) seen rest) (le : (asked dialogue).length ≤ seen.length + 1) :
    Scanned dialogue (.pending (scan.request k) (scan.cont k seen))
  | ended {dialogue : List (Exchange Req Rsp)} {req : Req} {rsp : Rsp} {outs : List Out}
      (made : Outs rsp outs) (le : (asked dialogue).length ≤ table.rows.length + 1) :
    Scanned (dialogue ++ [.answered o req rsp]) (.ended outs)

variable {scan o}

theorem Scanned.le {dialogue : List (Exchange Req Rsp)} {phase : Phase Req Cont Out}
    (h : scan.Scanned o dialogue phase) : (asked dialogue).length ≤ table.rows.length + 1 := by
  cases h with
  | queued split le => exact Nat.le_trans le (Nat.le_succ_of_le split.length_le)
  | pending split le => exact Nat.le_trans le (Nat.succ_le_succ split.length_le)
  | ended _ le =>
    rw [asked_answered]
    exact le

/-- **Scans read every row once.** Against a peer that conforms a scan sends at most one request
more than the table has rows, and it makes its outputs of the last answer. -/
theorem scanned_of_course {k : K} {dialogue : List (Exchange Req Rsp)}
    {phase : Phase Req Cont Out}
    (course : Course react again o (scan.request k, scan.cont k []) dialogue phase)
    (start : ∀ a ∈ table.rows, pos k ≤ key a)
    (conforms : ∀ k rsp, .answered o (scan.request k) rsp ∈ dialogue → scan.Conforms k rsp) :
    scan.Scanned o dialogue phase := by
  induction course with
  | start => exact .queued (.start start) (Nat.le_refl _)
  | @send dialogue req cont before ih =>
    rcases ih fun k rsp h => conforms k rsp (List.mem_append_left _ h) with ⟨split, le⟩ | _ | _
    refine .pending split ?_
    rw [asked_sent, List.length_append]
    exact Nat.succ_le_succ le
  | @answer dialogue req cont before rsp ih =>
    rcases ih fun k rsp h => conforms k rsp (List.mem_append_left _ h) with _ | ⟨split, le⟩ | _
    have conforms := conforms _ rsp (List.mem_append_right _ List.mem_cons_self)
    rcases scan.turn split conforms with ⟨k', run, rest', hne, split', hnext⟩ | ⟨outs, houts, hdone⟩
    · rw [hnext]
      refine .queued split' ?_
      have := List.length_pos_iff.mpr hne
      rw [asked_answered, List.length_append]
      omega
    · rw [hdone]
      exact .ended houts (Nat.le_trans le (Nat.succ_le_succ split.length_le))
  | @retry dialogue req cont before rsp h ih =>
    rcases ih fun k rsp h => conforms k rsp (List.mem_append_left _ h) with _ | ⟨split, le⟩ | _
    have conforms := conforms _ rsp (List.mem_append_right _ List.mem_cons_self)
    exact absurd h (scan.not_again conforms)

end Scan

end Scan

end Libble
