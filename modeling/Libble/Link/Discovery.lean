import Libble.Gatt.Discovery
import Libble.Link.Termination

/-!
# Discoveries

`lble_discover_hand` and `lble_discover_char` on an undisturbed connection, with whatever else goes
on there. Against a conforming peer they are scans of the table of the peer, so that every entry is
reported once and in order. A declaration with the last handle is an exception: it is not looked for
after one with the last handle but one, and if it is found the next request starts at handle 0,
which the peer refuses.

## Main definitions

* `Link.AnswersChar`: the answers of a conforming peer, also to a request that starts at 0.
* `Link.CharOutcome`: what `lble_discover_char` tells in the end.
* `Link.handScan`, `Link.charScan`: the discoveries as scans.

## Main results

* `Link.handEvents_of_run`, `Link.charEvents_of_run`: what the discoveries tell of any table.
* `Link.discoverHand_exact`: `lble_discover_hand` reports every attribute once.
* `Link.discoverChar_exact`: `lble_discover_char` reports every characteristic once.
-/

namespace Libble

open Att Gatt

namespace Link

variable {s : Link} {o : Nat} {mtu : Mtu} {buflen : Nat} {labels : List Label}

/-! ### Scans -/

/-- An operation that scans a table: it has told nothing yet, or what it makes of the last answer,
and that is what it has told when it is finished. -/
theorem scan_exact {α K : Type} {key : α → Nat} {pos : K → Nat} {table : SortedTable α key}
    {Outs : Pdu → List Event → Prop}
    (scan : Scan pos (reactTo mtu.buflen) Securing table Outs) {call : Call}
    (start : K) (run : machine.Run (fun _ l => Undisturbed l) (Link.new mtu) labels s)
    (ho : s.calls[o]? = some call)
    (first : call.begin mtu.buflen = (scan.request start, scan.cont start []))
    (le : ∀ a ∈ table.rows, pos start ≤ key a)
    (conforms : ∀ start rsp, .answered (some o) (scan.request start) rsp ∈ s.log →
      scan.Conforms start rsp) :
    (s.events o = [] ∨ ∃ rsp outs, Outs rsp outs ∧ s.events o <+: outs) ∧
      (s.Finished o → ∃ rsp, (s.answers o).getLast? = some rsp ∧ Outs rsp (s.events o)) ∧
      (Pipeline.asked (s.dialogue o)).length ≤ table.rows.length + 1 := by
  obtain ⟨phase, course, hevents, hfinished⟩ := course_of_run run ho
  rw [first] at course
  have scanned := scan.scanned_of_course course le
    fun start rsp h => conforms start rsp (mem_log_of_dialogue h)
  generalize hdialogue : s.dialogue o = dialogue at scanned
  refine ⟨?_, fun finished => ?_, scanned.le⟩
  · cases scanned with
    | queued | pending => exact .inl (List.prefix_nil.mp hevents)
    | ended made => exact .inr ⟨_, _, made, hevents⟩
  · rw [hfinished finished] at scanned
    cases scanned with
    | @ended dialogue req rsp outs made =>
      refine ⟨rsp, ?_, made⟩
      rw [answers, hdialogue, List.filterMap_append]
      exact List.getLast?_concat

theorem toNat_succ {handle : UInt16} (h : handle < 0xffff) :
    (handle + 1).toNat = handle.toNat + 1 := by
  have hlt : handle.toNat < 65535 := UInt16.lt_iff_toNat_lt.mp h
  rw [UInt16.toNat_add]
  exact Nat.mod_eq_of_lt (Nat.succ_lt_succ hlt)

theorem one_le_toNat {handle : UInt16} (h : 0 < handle) : (0x0001 : UInt16).toNat ≤ handle.toNat :=
  UInt16.lt_iff_toNat_lt.mp h

theorem buflen_lt (mtu : Mtu) : mtu.buflen < 2 ^ 16 := mtu.val.toNat_lt

theorem not_securing_notFound {rsp : Pdu} (h : byteAt rsp 4 = ecodeAttrNotFound) :
    ¬ Securing rsp :=
  not_securing (by rw [h]; decide) (by rw [h]; decide)

/-- The start handle of a request stands behind its opcode. -/
theorem start_of_request {opcode : UInt8} {start start' : UInt16} {rest rest' : List UInt8}
    (h : opcode :: (putLe16 start ++ rest) = opcode :: (putLe16 start' ++ rest')) :
    start = start' := by
  have htail : putLe16 start ++ rest = putLe16 start' ++ rest' := (List.cons.inj h).2
  rw [← getLe16_putLe16 start rest, htail, getLe16_putLe16]

/-! ### Handles -/

section Hand

variable (table : SortedTable Attribute fun a => a.handle.toNat)

theorem handTurn (hbuf : buflen < 2 ^ 16) {start : UInt16} {seen rest : List Attribute} {rsp : Pdu}
    (split : table.Split start.toNat seen rest) (answers : AnswersFindInfo table buflen start rsp) :
    (∃ (start' : UInt16) (run rest' : List Attribute), run ≠ [] ∧
      table.Split start'.toNat (seen ++ run) rest' ∧
      reactTo buflen (encFindInfoReq start 0xffff)
          (.descDiscoveredCb start 0xffff (seen.map Attribute.desc)) rsp =
        .next (encFindInfoReq start' 0xffff)
          (.descDiscoveredCb start' 0xffff ((seen ++ run).map Attribute.desc))) ∨
    ∃ outs, outs = handEvents table.rows ∧
      reactTo buflen (encFindInfoReq start 0xffff)
        (.descDiscoveredCb start 0xffff (seen.map Attribute.desc)) rsp = .done outs := by
  cases answers with
  | @found size run rest' above ne width fits =>
    obtain rfl : rest = run ++ rest' := split.above_eq.symm.trans above
    obtain ⟨run, last, rfl⟩ := (List.eq_nil_or_concat run).resolve_left ne
    rw [List.concat_eq_append] at *
    have hmem : last ∈ run ++ [last] := List.mem_append_right _ List.mem_cons_self
    have hlast : start ≤ last.handle :=
      UInt16.le_iff_toNat_le.mpr (split.le_rest last (List.mem_append_left _ hmem))
    have hgrants : Grants (encFindInfoReq start 0xffff)
        (findInfoRsp (formatOf size) (run ++ [last])) := ⟨nofun, rfl, nofun⟩
    rw [reactTo_of_grants hgrants nofun, react, descDiscoveredCb_found hbuf width fits hlast]
    have split' := split.next
    by_cases hend : last.handle < 0xffff
    · refine .inl ⟨last.handle + 1, run ++ [last], rest', ne, ?_, ?_⟩
      · rw [toNat_succ hend]
        exact split'
      · rw [if_pos hend, turnOf]
    · refine .inr ⟨_, rfl, ?_⟩
      have hnil : rest' = [] := by
        refine split'.rest_eq_nil 65536 (fun a _ => a.handle.toNat_lt) ?_
        have := UInt16.le_iff_toNat_le.mp (UInt16.not_lt.mp hend)
        exact Nat.succ_le_succ this
      have hrows := split'.rows_eq
      rw [hnil, List.append_nil] at hrows
      have hne : table.rows ≠ [] := by simp [hrows]
      rw [if_neg hend, turnOf, handEvents, if_neg hne, ← hrows]
  | notFound none lo hi =>
    obtain rfl : rest = [] := split.above_eq.symm.trans none
    have hrows := split.rows_eq
    rw [List.append_nil] at hrows
    refine .inr ⟨_, rfl, ?_⟩
    have hreq : byteAt (encFindInfoReq start 0xffff) 0 = opFindInfoReq := rfl
    rw [reactTo_of_error hreq rfl, react, descDiscoveredCb, if_pos rfl, turnOf, handEvents, hrows]
    simp only [List.map_eq_nil_iff]

/-- `lble_discover_hand` scans the attributes. -/
def handScan (hbuf : buflen < 2 ^ 16) :
    Scan UInt16.toNat (reactTo buflen) Securing table
      fun _ outs => outs = handEvents table.rows where
  request start := encFindInfoReq start 0xffff
  cont start seen := .descDiscoveredCb start 0xffff (seen.map Attribute.desc)
  Conforms := AnswersFindInfo table buflen
  not_again := by
    rintro start rsp (⟨_, _, _, _⟩ | ⟨_, lo, hi⟩)
    · exact fun securing => absurd (show opFindInfoRsp = opErrorRsp from securing.1) (by decide)
    · exact not_securing_notFound rfl
  turn := handTurn table hbuf

/-- What `lble_discover_hand` tells of a table without handle 0. -/
theorem handEvents_of_run (pos : ∀ a ∈ table.rows, 0 < a.handle)
    (run : machine.Run (fun _ l => Undisturbed l) (Link.new mtu) labels s)
    (ho : s.calls[o]? = some .discoverHand)
    (conforms : ∀ start rsp, .answered (some o) (encFindInfoReq start 0xffff) rsp ∈ s.log →
      AnswersFindInfo table mtu.buflen start rsp) :
    s.events o <+: handEvents table.rows ∧ (s.Finished o → s.events o = handEvents table.rows) ∧
      (Pipeline.asked (s.dialogue o)).length ≤ table.rows.length + 1 := by
  obtain ⟨hevents, hfinished, hlength⟩ := scan_exact (handScan table (buflen_lt mtu))
    0x0001 run ho rfl (fun a ha => one_le_toNat (pos a ha)) conforms
  refine ⟨?_, fun finished => ?_, hlength⟩
  · rcases hevents with hnil | ⟨rsp, outs, rfl, hprefix⟩
    · exact hnil ▸ List.nil_prefix
    · exact hprefix
  · obtain ⟨rsp, -, houts⟩ := hfinished finished
    exact houts

end Hand

/-- **`lble_discover_hand` reports every attribute exactly once.** Against a peer that conforms
the events are those about the attributes in their order and the end marker, as far as the
discovery has come, and all of them when it is finished; it sends at most one request more than
there are attributes, and until it is finished the connection goes on. -/
theorem discoverHand_exact (attributes : Attributes)
    (run : machine.Run (fun _ l => Undisturbed l) (Link.new mtu) labels s)
    (ho : s.calls[o]? = some .discoverHand)
    (conforms : ∀ start rsp, .answered (some o) (encFindInfoReq start 0xffff) rsp ∈ s.log →
      attributes.Answers mtu.buflen start rsp) :
    s.events o <+: attributes.events ∧ (s.Finished o → s.events o = attributes.events) ∧
      (Pipeline.asked (s.dialogue o)).length ≤ attributes.rows.length + 1 ∧
      (¬ s.Finished o → s.GoesOn) := by
  obtain ⟨hevents, hfinished, hlength⟩ :=
    handEvents_of_run attributes.toSortedTable attributes.pos run ho conforms
  rw [attributes.handEvents_rows] at hevents hfinished
  exact ⟨hevents, hfinished, hlength, goesOn_of_run run⟩

/-- Two attributes, the second one with the last handle. -/
def sampleAttributes : Attributes where
  rows := [⟨5, .short 0x2a00⟩, ⟨0xffff, .short 0x2a01⟩]
  ascending := by decide
  ne_nil := by decide
  pos := by decide

/-- The attributes are discovered with one request. -/
def handRun : Option Link :=
  machine.execGuarded (fun _ l => Undisturbed l) (Link.new attDefaultLeMtu)
    ([.call .discoverHand, .canWrite 5,
        .canRead (findInfoRsp (formatOf 2) sampleAttributes.rows) 1 true] ++
      [.resume, .ret, .resume, .ret, .resume, .ret] ++ .replicate 8 .resume)

theorem discoverHand_exact_handRun :
    ∃ s, handRun = some s ∧ s.events 0 = sampleAttributes.events := by
  have hrun : handRun.map (fun s => (s.calls, decide (s.Finished 0), s.dialogue 0)) =
      some ([.discoverHand], true, [.sent 0 (encFindInfoReq 0x0001 0xffff),
        .answered 0 (encFindInfoReq 0x0001 0xffff)
          (findInfoRsp (formatOf 2) sampleAttributes.rows)]) := by decide
  obtain ⟨s, hs, hdata⟩ := Option.map_eq_some_iff.mp hrun
  obtain ⟨hcalls, hfinished, hdialogue⟩ : s.calls = [.discoverHand] ∧
      decide (s.Finished 0) = true ∧ s.dialogue 0 = _ := by simpa only [Prod.mk.injEq] using hdata
  have exact := discoverHand_exact sampleAttributes (machine.run_of_execGuarded hs)
    (show s.calls[0]? = some .discoverHand by rw [hcalls]; rfl) (by
      intro start rsp h
      have hmem := mem_dialogue_of_log h
      rw [hdialogue] at hmem
      obtain ⟨-, hreq, rfl⟩ := Exchange.answered.inj
        (List.mem_singleton.mp ((List.mem_cons.mp hmem).resolve_left nofun))
      obtain rfl : start = 0x0001 := start_of_request hreq
      have habove : sampleAttributes.above (0x0001 : UInt16).toNat =
        sampleAttributes.rows ++ [] := by decide
      have hwidth : ∀ a ∈ sampleAttributes.rows, a.type.size = 2 := by decide
      exact .found habove (by decide) hwidth (by decide))
  exact ⟨s, hs, exact.2.1 (of_decide_eq_true hfinished)⟩

/-! ### Characteristics -/

section Char

variable (table : SortedTable Declaration fun d => d.handle.toNat)

/-- How a conforming peer answers the Read By Type Request for characteristic declarations from a
handle on: as it has them, and with an error if the handle is 0. -/
inductive AnswersChar (buflen : Nat) (start : UInt16) (rsp : Pdu) : Prop
  | answered (pos : 0 < start) (answers : AnswersReadByType table buflen start rsp)
  | refused (zero : start = 0) (lo hi : UInt8)
      (heq : rsp = [opErrorRsp, opReadByTypeReq, lo, hi, ecodeInvalidHandle])

/-- A declaration has the last handle. -/
def LastDeclared : Prop := ∃ d ∈ table.rows, d.handle = 0xffff

/-- What `lble_discover_char` tells in the end: the declarations below the last handle, which are
all of them or all but the one with the last handle, behind which it does not look after the last
handle but one; or an error after it has found the one with the last handle. -/
inductive CharOutcome (rsp : Pdu) : List Event → Prop
  | reported (h : LastDeclared table → lastChar rsp = some 0xfffe) :
    CharOutcome rsp (charEvents (table.below 0xffff))
  | wrapped (h : LastDeclared table) (none : lastChar rsp = none) :
    CharOutcome rsp [errorEvent ecodeInvalidHandle]

/-- The handle that a request starts at is 0 only after the last handle. -/
abbrev CharStart : Type := { start : UInt16 // start = 0 → LastDeclared table }

/-- Where a request looks in the table: one that starts at 0 is behind all of it. -/
def CharStart.pos (start : CharStart table) : Nat :=
  if start.val = 0 then 65536 else start.val.toNat

theorem lastChar_readByTypeRsp {size : Nat} {run : List Declaration} {last : Declaration}
    (width : ∀ d ∈ run ++ [last], d.uuid.size = size) :
    lastChar (readByTypeRsp (UInt8.ofNat (5 + size)) (run ++ [last])) = some last.handle := by
  obtain ⟨list, hdec, hfound⟩ := decReadByTypeResp_readByTypeRsp (by simp) width
  rw [lastChar, hdec, Option.bind_some, hfound]
  simp [Declaration.char]

variable {table}

/-- The request behind a declaration. -/
theorem exists_next {last : Declaration} (mem : last ∈ table.rows) :
    ∃ start : CharStart table, start.val = last.handle + 1 ∧
      start.pos = last.handle.toNat + 1 := by
  by_cases hwrap : last.handle = 0xffff
  · have hzero : last.handle + 1 = 0 := by rw [hwrap]; rfl
    refine ⟨⟨last.handle + 1, fun _ => ⟨last, mem, hwrap⟩⟩, rfl, ?_⟩
    rw [CharStart.pos, if_pos hzero, hwrap]
    rfl
  · have hle := Nat.le_of_lt_succ last.handle.toNat_lt
    have hsucc : (last.handle + 1).toNat = last.handle.toNat + 1 :=
      toNat_succ (UInt16.lt_of_le_of_ne (UInt16.le_iff_toNat_le.mpr hle) hwrap)
    have hne : last.handle + 1 ≠ 0 := fun h => by
      rw [h] at hsucc
      cases hsucc
    exact ⟨⟨last.handle + 1, fun h => absurd h hne⟩, rfl, (if_neg hne).trans hsucc⟩

/-- The discovery ends behind the last handle but one. -/
theorem eq_of_not_lt_end {handle : UInt16} (h : ¬ handle + 1 < 0xffff) : handle = 0xfffe := by
  have hlt := handle.toNat_lt
  have hle : 65535 ≤ (handle.toNat + 1) % 2 ^ 16 := by
    have := UInt16.le_iff_toNat_le.mp (UInt16.not_lt.mp h)
    rwa [UInt16.toNat_add] at this
  refine UInt16.toNat_inj.mp ?_
  show handle.toNat = 65534
  omega

/-- Without a declaration that has the last handle the others are all. -/
theorem below_eq_rows (absent : ¬ LastDeclared table) : table.below 0xffff = table.rows := by
  refine List.filter_eq_self.mpr fun d hd => decide_eq_true ?_
  have hlt := d.handle.toNat_lt
  have hne : d.handle.toNat ≠ 65535 := fun h => absent ⟨d, hd, UInt16.toNat_inj.mp h⟩
  show d.handle.toNat < 65535
  omega

theorem not_lastDeclared_of_split {k : Nat} {seen : List Declaration}
    (split : table.Split k seen []) (hk : k ≤ 65535) : ¬ LastDeclared table := by
  rintro ⟨d, hd, hlast⟩
  rw [split.rows_eq, List.append_nil] at hd
  have hlt := split.seen_lt d hd
  rw [hlast] at hlt
  exact absurd hlt (Nat.not_lt.mpr hk)

/-- A response with declarations grants a request for them. -/
theorem grants_readByTypeRsp (start : UInt16) (elen : UInt8) (run : List Declaration) :
    Grants (encReadByTypeReq start 0xffff gattCharacUuid) (readByTypeRsp elen run) := by
  have hreq : byteAt (encReadByTypeReq start 0xffff gattCharacUuid) 0 = opReadByTypeReq := rfl
  have hrsp : byteAt (readByTypeRsp elen run) 0 = opReadByTypeRsp := rfl
  rw [Grants, hreq, hrsp]
  exact ⟨by decide, rfl, fun h => absurd h (by decide)⟩

variable (table)

theorem charTurn {start : CharStart table} {seen rest : List Declaration} {rsp : Pdu}
    (split : table.Split start.pos seen rest) (answers : AnswersChar table buflen start rsp) :
    (∃ (start' : CharStart table) (run rest' : List Declaration), run ≠ [] ∧
      table.Split start'.pos (seen ++ run) rest' ∧
      reactTo buflen (encReadByTypeReq start 0xffff gattCharacUuid)
          (.charDiscoveredCb start 0xffff (seen.map Declaration.char)) rsp =
        .next (encReadByTypeReq start' 0xffff gattCharacUuid)
          (.charDiscoveredCb start' 0xffff ((seen ++ run).map Declaration.char))) ∨
    ∃ outs, CharOutcome table rsp outs ∧
      reactTo buflen (encReadByTypeReq start 0xffff gattCharacUuid)
        (.charDiscoveredCb start 0xffff (seen.map Declaration.char)) rsp = .done outs := by
  obtain ⟨start, hzero⟩ := start
  have hreq : byteAt (encReadByTypeReq start 0xffff gattCharacUuid) 0 = opReadByTypeReq := rfl
  cases answers with
  | refused zero lo hi heq =>
    subst heq
    refine .inr ⟨_, .wrapped (hzero zero) rfl, ?_⟩
    rw [reactTo_of_error hreq rfl, react, gattCharDiscoveredCb, if_neg (by decide),
      if_pos (by decide), turnOf, charDiscoveredCb, if_pos (by decide)]
  | answered pos answers =>
    have hpos : CharStart.pos table ⟨start, hzero⟩ = start.toNat :=
      if_neg (UInt16.ne_of_lt pos).symm
    rw [hpos] at split
    cases answers with
    | @found size run rest' above ne width fits =>
      obtain rfl : rest = run ++ rest' := split.above_eq.symm.trans above
      obtain ⟨run, last, rfl⟩ := (List.eq_nil_or_concat run).resolve_left ne
      rw [List.concat_eq_append] at *
      have hlast : start ≤ last.handle :=
        UInt16.le_iff_toNat_le.mpr (split.le_rest last (by simp))
      have hmem : last ∈ table.rows := split.rows_eq ▸ (by simp)
      have nonempty : readByTypeRsp (UInt8.ofNat (5 + size)) (run ++ [last]) ≠ [] :=
        List.cons_ne_nil _ _
      rw [reactTo_of_grants (grants_readByTypeRsp ..) nonempty, react,
        charDiscoveredCb_found width hlast (UInt16.lt_of_lt_of_le pos hlast)]
      have split' := split.next
      by_cases hend : last.handle + 1 < 0xffff
      · obtain ⟨start', hval, hpos'⟩ := exists_next hmem
        refine .inl ⟨start', run ++ [last], rest', ne, hpos' ▸ split', ?_⟩
        rw [if_pos hend, turnOf, hval]
      · have hlast : last.handle = 0xfffe := eq_of_not_lt_end hend
        have below : table.below 0xffff = seen ++ (run ++ [last]) := by
          rw [hlast] at split'
          exact split'.below_eq
        have hne : table.below 0xffff ≠ [] := by simp [below]
        refine .inr ⟨_, .reported fun _ => ?_, ?_⟩
        · rw [lastChar_readByTypeRsp width, hlast]
        · rw [if_neg hend, turnOf, charEvents, if_neg hne, below]
    | notFound none lo hi =>
      obtain rfl : rest = [] := split.above_eq.symm.trans none
      have absent := not_lastDeclared_of_split split (Nat.le_of_lt_succ start.toNat_lt)
      have hrows := split.rows_eq
      rw [List.append_nil] at hrows
      refine .inr ⟨_, .reported fun h => absurd h absent, ?_⟩
      rw [reactTo_of_error hreq rfl, react, gattCharDiscoveredCb, if_pos rfl, turnOf, charEvents,
        below_eq_rows absent, hrows]
      simp only [List.map_eq_nil_iff]

/-- `lble_discover_char` scans the declarations. -/
def charScan : Scan (CharStart.pos table) (reactTo buflen) Securing table (CharOutcome table) where
  request start := encReadByTypeReq start 0xffff gattCharacUuid
  cont start seen := .charDiscoveredCb start 0xffff (seen.map Declaration.char)
  Conforms start := AnswersChar table buflen start
  not_again := by
    rintro start rsp (⟨-, ⟨_, _, _, _⟩ | ⟨_, lo, hi⟩⟩ | ⟨-, lo, hi, rfl⟩)
    · exact fun securing => absurd (show opReadByTypeRsp = opErrorRsp from securing.1) (by decide)
    · exact not_securing_notFound rfl
    · exact not_securing (show ecodeInvalidHandle ≠ 0x05 by decide)
        (show ecodeInvalidHandle ≠ 0x0f by decide)
  turn := charTurn table

/-- What `lble_discover_char` tells of a table without handle 0. -/
theorem charEvents_of_run (pos : ∀ d ∈ table.rows, 0 < d.handle)
    (run : machine.Run (fun _ l => Undisturbed l) (Link.new mtu) labels s)
    (ho : s.calls[o]? = some .discoverChar)
    (conforms : ∀ start rsp,
      .answered (some o) (encReadByTypeReq start 0xffff gattCharacUuid) rsp ∈ s.log →
        (start = 0 → LastDeclared table) → AnswersChar table mtu.buflen start rsp) :
    (s.events o = [] ∨ ∃ rsp outs, CharOutcome table rsp outs ∧ s.events o <+: outs) ∧
      (s.Finished o →
        ∃ rsp, (s.answers o).getLast? = some rsp ∧ CharOutcome table rsp (s.events o)) ∧
      (Pipeline.asked (s.dialogue o)).length ≤ table.rows.length + 1 :=
  scan_exact (charScan table) ⟨0x0001, fun h => absurd h (by decide)⟩ run ho rfl
    (fun d hd => one_le_toNat (pos d hd)) fun start rsp h => conforms start rsp h start.property

end Char

/-- **`lble_discover_char` reports every characteristic exactly once.** Against a peer that
conforms the events are those about the declarations in their order and the end marker, as far as
the discovery has come, and all of them when it is finished; it sends at most one request more than
there are declarations, and until it is finished the connection goes on. -/
theorem discoverChar_exact (declarations : Declarations)
    (run : machine.Run (fun _ l => Undisturbed l) (Link.new mtu) labels s)
    (ho : s.calls[o]? = some .discoverChar)
    (conforms : ∀ start rsp,
      .answered (some o) (encReadByTypeReq start 0xffff gattCharacUuid) rsp ∈ s.log →
        declarations.Answers mtu.buflen start rsp) :
    s.events o <+: declarations.events ∧ (s.Finished o → s.events o = declarations.events) ∧
      (Pipeline.asked (s.dialogue o)).length ≤ declarations.rows.length + 1 ∧
      (¬ s.Finished o → s.GoesOn) := by
  have absent : ¬ LastDeclared declarations.toSortedTable := fun ⟨d, hd, hlast⟩ =>
    absurd (hlast ▸ declarations.lt_end d hd) (by decide)
  obtain ⟨hevents, hfinished, hlength⟩ := charEvents_of_run declarations.toSortedTable
    declarations.pos run ho fun start rsp h wraps => by
      have pos : 0 < start := UInt16.pos_iff_ne_zero.mpr fun h => absent (wraps h)
      exact .answered pos (conforms start rsp h)
  have outcome : ∀ {rsp outs}, CharOutcome declarations.toSortedTable rsp outs →
      outs = declarations.events := by
    rintro rsp outs (⟨-⟩ | ⟨h, -⟩)
    · rw [below_eq_rows absent, declarations.charEvents_rows]
    · exact absurd h absent
  refine ⟨?_, fun finished => ?_, hlength, goesOn_of_run run⟩
  · rcases hevents with hnil | ⟨rsp, outs, houts, hprefix⟩
    · exact hnil ▸ List.nil_prefix
    · exact outcome houts ▸ hprefix
  · obtain ⟨rsp, -, houts⟩ := hfinished finished
    exact outcome houts

/-- Two characteristic declarations, the second one with the last handle but one. -/
def sampleDeclarations : Declarations where
  rows := [⟨5, 0x02, 6, .short 0x2a00⟩, ⟨0xfffe, 0x10, 0xffff, .short 0x2a01⟩]
  ascending := by decide
  ne_nil := by decide
  pos := by decide
  lt_end := by decide

/-- The characteristics are discovered with one request. -/
def charRun : Option Link :=
  machine.execGuarded (fun _ l => Undisturbed l) (Link.new attDefaultLeMtu)
    ([.call .discoverChar, .canWrite 7,
        .canRead (readByTypeRsp (UInt8.ofNat (5 + 2)) sampleDeclarations.rows) 1 true] ++
      [.resume, .ret, .resume, .ret, .resume, .ret] ++ .replicate 8 .resume)

theorem discoverChar_exact_charRun :
    ∃ s, charRun = some s ∧ s.events 0 = sampleDeclarations.events := by
  have hrun : charRun.map (fun s => (s.calls, decide (s.Finished 0), s.dialogue 0)) =
      some ([.discoverChar], true, [.sent 0 (encReadByTypeReq 0x0001 0xffff gattCharacUuid),
        .answered 0 (encReadByTypeReq 0x0001 0xffff gattCharacUuid)
          (readByTypeRsp (UInt8.ofNat (5 + 2)) sampleDeclarations.rows)]) := by decide
  obtain ⟨s, hs, hdata⟩ := Option.map_eq_some_iff.mp hrun
  obtain ⟨hcalls, hfinished, hdialogue⟩ : s.calls = [.discoverChar] ∧
      decide (s.Finished 0) = true ∧ s.dialogue 0 = _ := by simpa only [Prod.mk.injEq] using hdata
  have exact := discoverChar_exact sampleDeclarations (machine.run_of_execGuarded hs)
    (show s.calls[0]? = some .discoverChar by rw [hcalls]; rfl) (by
      intro start rsp h
      have hmem := mem_dialogue_of_log h
      rw [hdialogue] at hmem
      obtain ⟨-, hreq, rfl⟩ := Exchange.answered.inj
        (List.mem_singleton.mp ((List.mem_cons.mp hmem).resolve_left nofun))
      obtain rfl : start = 0x0001 := start_of_request hreq
      have habove : sampleDeclarations.above (0x0001 : UInt16).toNat =
        sampleDeclarations.rows ++ [] := by decide
      have hwidth : ∀ d ∈ sampleDeclarations.rows, d.uuid.size = 2 := by decide
      exact .found habove (by decide) hwidth (by decide))
  exact ⟨s, hs, exact.2.1 (of_decide_eq_true hfinished)⟩

end Link

end Libble
