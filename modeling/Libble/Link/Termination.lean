import Libble.Link.Issued

/-!
# Discoveries end

The requests of a discovery ask for what comes after the last handle that the peer has named, so
their start handles go up whatever the peer answers, and there cannot be more of them than handles.
The discovery of characteristics has one hole: behind the handle 0xffff its start handle wraps to
0, and the test of the end takes 0 for a handle before the end.

## Main definitions

* `Link.Ascends`: the start handles of the requests go up.
* `Link.lastChar`: the last handle in a Read By Type Response.

## Main results

* `Link.ascends_of_course`: a procedure whose start handle goes up with every answer.
* `Link.discovery_ascends`: when the requests of a discovery ascend.
-/

namespace Libble

open Att Gatt

namespace Link

variable {s : Link} {o : Nat} {mtu : Mtu} {buflen : Nat} {labels : List Label}

/-! ### Requests that ascend -/

/-- The handle from which on a discovery request asks. -/
def startOf (req : Pdu) : UInt16 := getLe16 req 1

/-- The start handles go up, none is 0, and there are at most 65535. -/
structure Ascends (starts : List UInt16) : Prop where
  ascending : starts.Pairwise (· < ·)
  pos : ∀ start ∈ starts, 0 < start
  length_le : starts.length ≤ 65535

/-- There are not more ascending handles than handles. -/
theorem length_lt_of_ascending {starts : List UInt16} {bound : Nat}
    (ascending : starts.Pairwise (· < ·)) (pos : ∀ start ∈ starts, 0 < start)
    (lt : ∀ start ∈ starts, start.toNat < bound) (hbound : 0 < bound) : starts.length < bound := by
  induction starts using List.reverseRecOn generalizing bound with
  | nil => exact hbound
  | append_singleton starts last ih =>
    obtain ⟨hstarts, -, hlast⟩ := List.pairwise_append.mp ascending
    have hpos : 0 < last.toNat :=
      UInt16.lt_iff_toNat_lt.mp (pos last (List.mem_append_right _ List.mem_cons_self))
    have hlt := lt last (List.mem_append_right _ List.mem_cons_self)
    have := ih hstarts (fun start h => pos start (List.mem_append_left _ h))
      (fun start h => UInt16.lt_iff_toNat_lt.mp (hlast start h last List.mem_cons_self)) hpos
    rw [List.length_append, List.length_singleton]
    omega

theorem ascends_of_pairwise {starts : List UInt16} (ascending : starts.Pairwise (· < ·))
    (pos : ∀ start ∈ starts, 0 < start) : Ascends starts :=
  ⟨ascending, pos, Nat.le_of_lt_succ
    (length_lt_of_ascending ascending pos (fun start _ => start.toNat_lt) (Nat.succ_pos _))⟩

/-! ### Errors -/

/-- What reaches a procedure is the response, or an error. -/
theorem reactTo_cases {req rsp : Pdu} (proc : Proc) (hreq : byteAt req 0 ≠ 0) :
    (∃ status, (status = 0 → ¬ Securing rsp) ∧
        reactTo buflen req proc rsp = turnOf (react buflen proc status rsp)) ∨
      ∃ events, reactTo buflen req proc rsp = .done events := by
  rcases responseOf_cases (byteAt req 0) (byteAt rsp 0) (rsp.drop 1) with ⟨hanswered, heq⟩ | heq
  · refine .inl ⟨statusOf (byteAt rsp 0) (rsp.drop 1), fun hstatus securing => ?_, ?_⟩
    · obtain ⟨hop, hlength, hcode⟩ := securing
      have hbyte : (rsp.drop 1).getD 3 0 = byteAt rsp 4 := by simp [byteAt]
      have hfour : ¬ (rsp.drop 1).length < 4 := by
        rw [List.length_drop]
        omega
      rw [statusOf, if_pos hop, if_neg hfour, hbyte] at hstatus
      rw [hstatus] at hcode
      exact absurd hcode (by decide)
    · have hcons : byteAt rsp 0 :: rsp.drop 1 = rsp := by
        cases rsp with
        | nil => exact absurd hanswered.symm hreq
        | cons opcode pdu => rfl
      simp only [reactTo, heq, hcons]
  · have ended : ∃ events, react buflen proc 0x0e [opErrorRsp] = .finish events :=
      react_of_error (by decide)
    obtain ⟨events, hevents⟩ := ended
    refine .inr ⟨events, ?_⟩
    simp only [reactTo, heq, statusOf_failure, hevents, turnOf]

/-! ### Procedures that ascend -/

section Ascending

variable (buflen) (At : UInt16 → Pdu → Proc → Prop) (Allowed : Pdu → Prop)

/-- A procedure whose start handle goes up with every answer that is allowed. -/
structure Advances : Prop where
  startOf_eq : ∀ {start req proc}, At start req proc → startOf req = start
  turn : ∀ {start req proc rsp}, At start req proc → 0 < start → Allowed rsp →
    (∃ start' req' proc', ¬ Securing rsp ∧ reactTo buflen req proc rsp = .next req' proc' ∧
      At start' req' proc' ∧ start < start') ∨
    ∃ events, reactTo buflen req proc rsp = .done events

/-- A request starts above those before it, and they ascend. -/
structure Above (settled : List (Pdu × Pdu)) (req : Pdu) (proc : Proc) : Prop where
  here : At (startOf req) req proc
  ascending : ((settled.map Prod.fst ++ [req]).map startOf).Pairwise (· < ·)
  pos : ∀ start ∈ (settled.map Prod.fst ++ [req]).map startOf, 0 < start

variable {buflen At Allowed} {dialogue : List (Exchange Pdu Pdu)}
  {phase : Pipeline.Phase Pdu Proc Event}

/-- The first request starts above none. -/
theorem Above.first {req : Pdu} {proc : Proc} (here : At (startOf req) req proc)
    (pos : 0 < startOf req) : Above At [] req proc :=
  ⟨here, List.pairwise_singleton _ _, List.forall_mem_singleton.mpr pos⟩

/-- A request that starts above the last one starts above all. -/
theorem Above.concat {settled : List (Pdu × Pdu)} {req req' rsp : Pdu} {proc proc' : Proc}
    (h : Above At settled req proc) (here : At (startOf req') req' proc')
    (lt : startOf req < startOf req') : Above At (settled ++ [(req, rsp)]) req' proc' := by
  have hlast : ∀ start ∈ (settled.map Prod.fst ++ [req]).map startOf, start ≤ startOf req := by
    intro start hstart
    have ascending := h.ascending
    rw [List.map_append, List.map_singleton] at hstart ascending
    rcases List.mem_append.mp hstart with hstart | hstart
    · exact UInt16.le_of_lt
        ((List.pairwise_append.mp ascending).2.2 start hstart _ List.mem_cons_self)
    · exact List.mem_singleton.mp hstart ▸ UInt16.le_refl _
  have hpos : 0 < startOf req :=
    h.pos _ (List.mem_map_of_mem (List.mem_append_right _ List.mem_cons_self))
  have hmap : (settled ++ [(req, rsp)]).map Prod.fst = settled.map Prod.fst ++ [req] :=
    List.map_append
  refine ⟨here, ?_, ?_⟩
  · rw [hmap, List.map_append, List.map_singleton]
    refine List.pairwise_append.mpr ⟨h.ascending, List.pairwise_singleton _ _, ?_⟩
    intro start hstart start' hstart'
    exact List.mem_singleton.mp hstart' ▸ UInt16.lt_of_le_of_lt (hlast start hstart) lt
  · rw [hmap, List.map_append, List.map_singleton]
    exact List.forall_mem_append.mpr
      ⟨h.pos, List.forall_mem_singleton.mpr (UInt16.lt_trans hpos lt)⟩

/-- **Start handles go up** along the course of such a procedure. -/
theorem ascends_of_course (advances : Advances buflen At Allowed) {start : UInt16} {req : Pdu}
    {proc : Proc} (here : At start req proc) (pos : 0 < start)
    (course : Pipeline.Course (reactTo buflen) Securing o (req, proc) dialogue phase)
    (allowed : ∀ req rsp, (req, rsp) ∈ fulfilled dialogue → Allowed rsp) :
    ((issued dialogue).map startOf).Pairwise (· < ·) ∧
      ∀ h ∈ (issued dialogue).map startOf, 0 < h := by
  obtain rfl := advances.startOf_eq here
  have issuing : Issuing (Above At) (dialogue.foldl observe (false, [])) (fulfilled dialogue)
      phase := by
    have first : Above At [] req proc := .first here pos
    refine issuing_of_course first course ?_
    intro settled req proc rsp req' proc' le above hnext
    have hallowed := allowed req rsp (le.subset (List.mem_append_right _ List.mem_cons_self))
    have hpos : 0 < startOf req :=
      above.pos _ (List.mem_map_of_mem (List.mem_append_right _ List.mem_cons_self))
    rcases advances.turn above.here hpos hallowed with
      ⟨start', _, _, -, hnext', here', lt⟩ | ⟨events, hdone⟩
    · obtain ⟨rfl, rfl⟩ := Turn.next.inj (hnext'.symm.trans hnext)
      obtain rfl := advances.startOf_eq here'
      exact above.concat here' lt
    · cases hdone.symm.trans hnext
  obtain ⟨settled, req, proc, above, -, hreqs⟩ := issuing.exists_before
  have sublist : ((issued dialogue).map startOf).Sublist
      ((settled.map Prod.fst ++ [req]).map startOf) := by
    rcases hreqs with hreqs | hreqs
    · rw [issued, hreqs]
      exact (List.sublist_append_left _ [req]).map startOf
    · rw [issued, hreqs]
  exact ⟨above.ascending.sublist sublist, fun start hstart => above.pos start (sublist.mem hstart)⟩

end Ascending

/-! ### Discoveries -/

theorem startOf_cons (opcode : UInt8) (start : UInt16) (rest : List UInt8) :
    startOf (opcode :: (putLe16 start ++ rest)) = start := by
  rw [startOf, ← List.singleton_append]
  exact (getLe16_append_right [opcode] (putLe16 start ++ rest) 0).trans (getLe16_putLe16 start rest)

theorem lt_succ_of_lt_end {handle : UInt16} (h : handle < 0xffff) : handle < handle + 1 := by
  have hlt : handle.toNat < 65535 := UInt16.lt_iff_toNat_lt.mp h
  have hadd : (handle + 1).toNat = handle.toNat + 1 := by
    rw [UInt16.toNat_add]
    exact Nat.mod_eq_of_lt (Nat.succ_lt_succ hlt)
  rw [UInt16.lt_iff_toNat_lt, hadd]
  exact Nat.lt_succ_self _

/-- `lble_discover_hand` waits for the answer to its request from a handle on. -/
def HandAt (start : UInt16) (req : Pdu) (proc : Proc) : Prop :=
  req = encFindInfoReq start 0xffff ∧
    ∃ descriptors, proc = .descDiscoveredCb start 0xffff descriptors

/-- The handles of `lble_discover_hand` go up whatever the peer answers. -/
theorem hand_advances (buflen : Nat) : Advances buflen HandAt fun _ => True where
  startOf_eq := by
    rintro start req proc ⟨rfl, -⟩
    exact startOf_cons ..
  turn := by
    rintro start req proc rsp ⟨rfl, descriptors, rfl⟩ - -
    have hreq : byteAt (encFindInfoReq start 0xffff) 0 ≠ 0 := nofun
    rcases reactTo_cases (.descDiscoveredCb start 0xffff descriptors) hreq with
      ⟨status, securing, hreact⟩ | hdone
    · rw [hreact]
      by_cases hstatus : status = 0
      · rw [react, descDiscoveredCb, hstatus, if_neg (by decide), if_neg (by decide)]
        split
        · exact .inr ⟨_, rfl⟩
        · dsimp only
          split_ifs with hlow hend
          · exact .inr ⟨_, rfl⟩
          · exact .inl ⟨_, _, _, securing hstatus, rfl, ⟨rfl, _, rfl⟩,
              UInt16.lt_of_le_of_lt (UInt16.not_lt.mp hlow) (lt_succ_of_lt_end hend)⟩
          · exact .inr ⟨_, rfl⟩
      · obtain ⟨events, hevents⟩ := react_of_error hstatus
        exact .inr ⟨events, by rw [hevents, turnOf]⟩
    · exact .inr hdone

/-- `lble_discover_char` waits for the answer to its request from a handle on. -/
def CharAt (start : UInt16) (req : Pdu) (proc : Proc) : Prop :=
  req = encReadByTypeReq start 0xffff gattCharacUuid ∧
    ∃ characteristics, proc = .charDiscoveredCb start 0xffff characteristics

/-- The last handle in a Read By Type Response, if it has entries. -/
def lastChar (rsp : Pdu) : Option UInt16 :=
  (decReadByTypeResp rsp rsp.length).bind fun list =>
    (list.data.map GattChar.ofEntry).getLast?.map GattChar.handle

/-- The handles of `lble_discover_char` go up unless the peer names the last handle. -/
theorem char_advances (buflen : Nat) :
    Advances buflen CharAt fun rsp => lastChar rsp ≠ some 0xffff where
  startOf_eq := by
    rintro start req proc ⟨rfl, -⟩
    exact startOf_cons ..
  turn := by
    rintro start req proc rsp ⟨rfl, characteristics, rfl⟩ hpos hlast
    have hreq : byteAt (encReadByTypeReq start 0xffff gattCharacUuid) 0 ≠ 0 := nofun
    rcases reactTo_cases (.charDiscoveredCb start 0xffff characteristics) hreq with
      ⟨status, securing, hreact⟩ | hdone
    · rw [hreact]
      by_cases hstatus : status = 0
      · rw [react, gattCharDiscoveredCb, hstatus, if_neg (by decide), if_neg (by decide)]
        cases hdec : decReadByTypeResp rsp rsp.length with
        | none => exact .inr ⟨_, rfl⟩
        | some list =>
          simp only [lastChar, hdec, Option.bind_some] at hlast
          dsimp only
          generalize (list.data.map GattChar.ofEntry).getLast?.map GattChar.handle = last at hlast ⊢
          split_ifs with hlow hend
          · exact .inr ⟨_, rfl⟩
          · have hle : start ≤ last.getD 0 := UInt16.not_lt.mp hlow
            have hne : last.getD 0 ≠ 0xffff := by
              cases last with
              | none => decide
              | some handle => exact fun h => hlast (congrArg some h)
            have hlt : last.getD 0 < 0xffff := by
              refine UInt16.lt_of_le_of_ne ?_ hne
              exact UInt16.le_iff_toNat_le.mpr (Nat.le_of_lt_succ (last.getD 0).toNat_lt)
            exact .inl ⟨_, _, _, securing hstatus, rfl, ⟨rfl, _, rfl⟩,
              UInt16.lt_of_le_of_lt hle (lt_succ_of_lt_end hlt)⟩
          · exact .inr ⟨_, rfl⟩
      · obtain ⟨events, hevents⟩ := react_of_error hstatus
        exact .inr ⟨events, by rw [hevents, turnOf]⟩
    · exact .inr hdone

/-- The start handles of the requests of an operation. -/
def starts (s : Link) (o : Nat) : List UInt16 := (issued (s.dialogue o)).map startOf

/-- **The start handles of a discovery go up** whatever the peer answers, except that no Read By
Type Response may end with the handle 0xffff; so there are at most 65535 requests, and until the
discovery is finished the connection goes on. -/
theorem discovery_ascends {call : Call} (hcall : call = .discoverHand ∨ call = .discoverChar)
    (run : machine.Run (fun _ l => Undisturbed l) (Link.new mtu) labels s)
    (ho : s.calls[o]? = some call)
    (hlast : call = .discoverChar → ∀ rsp ∈ s.answers o, lastChar rsp ≠ some 0xffff) :
    Ascends (s.starts o) ∧ (¬ s.Finished o → s.GoesOn) := by
  obtain ⟨phase, course, -⟩ := course_of_run run ho
  refine ⟨?_, goesOn_of_run run⟩
  rcases hcall with rfl | rfl
  · obtain ⟨ascending, hpos⟩ := ascends_of_course (hand_advances mtu.buflen)
      ⟨rfl, [], rfl⟩ (show (0 : UInt16) < 0x0001 by decide) course fun _ _ _ => trivial
    exact ascends_of_pairwise ascending hpos
  · obtain ⟨ascending, hpos⟩ := ascends_of_course (char_advances mtu.buflen)
      ⟨rfl, [], rfl⟩ (show (0 : UInt16) < 0x0001 by decide) course
      fun req rsp h => hlast rfl rsp (mem_answers (answered_of_fulfilled h).1)
    exact ascends_of_pairwise ascending hpos

/-- Two characteristics are found one after the other, then there are no more. -/
def ascendingRun : Option Link :=
  machine.execGuarded (fun _ l => Undisturbed l) (Link.new attDefaultLeMtu)
    ([.call .discoverChar, .canWrite 7,
        .canRead [opReadByTypeRsp, 7, 5, 0, 2, 6, 0, 0, 0x2a] 1 true] ++
      .replicate 6 .resume ++
      [.canWrite 7, .canRead [opErrorRsp, opReadByTypeReq, 6, 0, ecodeAttrNotFound] 1 true])

theorem discovery_ascends_ascendingRun :
    ∃ s, ascendingRun = some s ∧ s.starts 0 = [1, 6] ∧ Ascends (s.starts 0) := by
  have hrun : ascendingRun.map (fun s => (s.calls, s.starts 0,
      decide (∀ rsp ∈ s.answers 0, lastChar rsp ≠ some 0xffff))) =
        some ([.discoverChar], [1, 6], true) := by decide
  obtain ⟨s, hs, hdata⟩ := Option.map_eq_some_iff.mp hrun
  obtain ⟨hcalls, hstarts, hlast⟩ : s.calls = [.discoverChar] ∧ s.starts 0 = [1, 6] ∧ _ := by
    simpa only [Prod.mk.injEq] using hdata
  have ascends := discovery_ascends (.inr rfl) (machine.run_of_execGuarded hs)
    (show s.calls[0]? = some .discoverChar by rw [hcalls]; rfl)
    fun _ => of_decide_eq_true hlast
  exact ⟨s, hs, hstarts, ascends.1⟩

/-- A characteristic has the last handle. -/
def wrappingRun : Option Link :=
  machine.execGuarded (fun _ l => Undisturbed l) (Link.new attDefaultLeMtu)
    ([.call .discoverChar, .canWrite 7,
        .canRead [opReadByTypeRsp, 7, 0xff, 0xff, 2, 6, 0, 0, 0x2a] 1 true] ++
      .replicate 6 .resume ++ [.canWrite 7])

theorem not_ascends_wrappingRun : ∃ s, wrappingRun = some s ∧ ¬ Ascends (s.starts 0) := by
  have hrun : wrappingRun.map (fun s => s.starts 0) = some [1, 0] := by decide
  obtain ⟨s, hs, hstarts⟩ := Option.map_eq_some_iff.mp hrun
  refine ⟨s, hs, fun ascends => ?_⟩
  rw [hstarts] at ascends
  exact absurd (ascends.pos 0 (by decide)) (by decide)

end Link

end Libble
