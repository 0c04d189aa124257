import Bandchain.Oracle.Commitment
import Bandchain.Oracle.EventLog

/-!
# The packets of a proof

A proof of a result comes with the request and the response packet that the result commits to.
The handler reads both from the events of the block that wrote the result, and every
`request_execute` event it meets overwrites the one before: the packets are those of the last
request that the block finished.
-/

namespace Bandchain.Bridge

open Oracle Exec

def eventTypeRequestExecute : String := "request_execute"

/-! ## The handler -/

abbrev Packets : Type := OracleRequestPacketData × OracleResponsePacketData

/-- The packets before any event is read. -/
def zeroPackets : Packets := (⟨[], 0, [], 0, 0⟩, ⟨[], 0, 0, 0, 0, .open, []⟩)

/-- The status with the given wire number; no event carries another number. -/
def resolveStatusOf : ℤ → Option ResolveStatus
  | 0 => some .open
  | 1 => some .success
  | 2 => some .failure
  | 3 => some .expired
  | _ => none

/-- The body of the inner loop; `none` is a panic, for a number that does not parse. -/
def readAttribute (p : Packets) (kv : String × Bytes) : Option Packets :=
  match kv.1 with
  | "request_id" => (Decimal.parseInt64 kv.2).map fun n => (p.1, { p.2 with requestID := n })
  | "client_id" => some ({ p.1 with clientID := kv.2 }, { p.2 with clientID := kv.2 })
  | "oracle_script_id" =>
    (Decimal.parseInt64 kv.2).map fun n => ({ p.1 with oracleScriptID := n }, p.2)
  | "calldata" => some ({ p.1 with calldata := kv.2 }, p.2)
  | "ask_count" => (Decimal.parseUint64 kv.2).map fun n => ({ p.1 with askCount := n }, p.2)
  | "min_count" => (Decimal.parseUint64 kv.2).map fun n => ({ p.1 with minCount := n }, p.2)
  | "ans_count" => (Decimal.parseUint64 kv.2).map fun n => (p.1, { p.2 with ansCount := n })
  | "request_time" => (Decimal.parseInt64 kv.2).map fun n => (p.1, { p.2 with requestTime := n })
  | "resolve_time" => (Decimal.parseInt64 kv.2).map fun n => (p.1, { p.2 with resolveTime := n })
  | "resolve_status" => ((Decimal.parseInt64 kv.2).bind resolveStatusOf).map fun st =>
    (p.1, { p.2 with resolveStatus := st })
  | "result" => some (p.1, { p.2 with result := kv.2 })
  | _ => some p

/-- The body of the outer loop. -/
def readEvent (p : Packets) (ev : AbciEvent) : Option Packets :=
  if ev.type ≠ eventTypeRequestExecute then some p else ev.attributes.foldlM readAttribute p

/-- The part of `GetProofHandlerFn` that builds the packets from the events of the block. -/
def getPackets (endBlockEvents : List AbciEvent) : Option Packets :=
  endBlockEvents.foldlM readEvent zeroPackets

/-- The events that the handler reads. -/
def executeEvents (evs : List AbciEvent) : List AbciEvent :=
  evs.filter (·.type = eventTypeRequestExecute)

/-! ## Reading the event of one request -/

/-- The signed fields are 64-bit numbers, as their types in the source say. -/
structure FitPackets (req : OracleRequestPacketData) (res : OracleResponsePacketData) : Prop where
  oracleScriptID : Decimal.FitsInt64 req.oracleScriptID
  requestID : Decimal.FitsInt64 res.requestID
  requestTime : Decimal.FitsInt64 res.requestTime
  resolveTime : Decimal.FitsInt64 res.resolveTime

lemma resolveStatusOf_toNat (st : ResolveStatus) : resolveStatusOf st.toNat = some st := by
  cases st <;> rfl

lemma fitsInt64_toNat (st : ResolveStatus) : Decimal.FitsInt64 st.toNat := by
  cases st <;> decide

/-- Whatever was read before, the event leaves the two packets it was made from. -/
lemma readEvent_requestExecute (bech32 : Bytes → Bytes) {req : OracleRequestPacketData}
    {res : OracleResponsePacketData} (x : Bytes) (hfit : FitPackets req res)
    (hclient : res.clientID = req.clientID) (p : Packets) :
    readEvent p ((requestExecuteEvent req res x).toAbci bech32) = some (req, res) := by
  have hstatus : (Decimal.parseInt64 (Decimal.print res.resolveStatus.toNat)).bind
      resolveStatusOf = some res.resolveStatus := by
    rw [Decimal.parseInt64_print (fitsInt64_toNat _), Option.bind_some, resolveStatusOf_toNat]
  rw [readEvent, if_neg (by simp [Event.toAbci, requestExecuteEvent, eventTypeRequestExecute])]
  simp [Event.toAbci, requestExecuteEvent, readAttribute, AttrValue.toText,
    Decimal.parseInt64_print hfit.oracleScriptID, Decimal.parseInt64_print hfit.requestID,
    Decimal.parseInt64_print hfit.requestTime, Decimal.parseInt64_print hfit.resolveTime, hstatus,
    ← hclient]
  rw [hclient]

/-! ## Reading all events -/

/-- Other events are skipped. -/
lemma getPackets_eq (evs : List AbciEvent) :
    getPackets evs = (executeEvents evs).foldlM readEvent zeroPackets := by
  rw [getPackets, executeEvents]
  generalize zeroPackets = p
  induction evs generalizing p with
  | nil => rfl
  | cons e evs ih =>
    by_cases he : e.type = eventTypeRequestExecute
    · rw [List.filter_cons_of_pos (by simpa using he), List.foldlM_cons, List.foldlM_cons]
      exact congrArg _ (funext ih)
    · rw [List.filter_cons_of_neg (by simpa using he), List.foldlM_cons, readEvent, if_pos he]
      exact ih p

/-- What the handler reads from the events of a list of requests, one after the other. -/
lemma foldlM_readEvent (bech32 : Bytes → Bytes) {ss : List SaveRecord}
    {f : SaveRecord → Packets} (hread : ∀ s ∈ ss, ∀ p,
      readEvent p (s.event.toAbci bech32) = some (f s)) (p : Packets) :
    (ss.map fun s => s.event.toAbci bech32).foldlM readEvent p =
      some ((ss.getLast?.map f).getD p) := by
  induction ss generalizing p with
  | nil => rfl
  | cons s ss ih =>
    rw [List.map_cons, List.foldlM_cons, hread s List.mem_cons_self]
    refine (ih (fun t ht => hread t (List.mem_cons_of_mem _ ht)) (f s)).trans ?_
    rw [List.getLast?_cons]
    cases ss.getLast? <;> rfl

/-! ## The events of a block -/

/-- The results that some calls save. -/
def saves (t : List Oracle.Call) : List SaveRecord :=
  t.filterMap fun
    | .saveResult s => some s
    | _ => none

/-- The `request_execute` events among some calls. -/
def executions (t : List Oracle.Call) : List Event :=
  t.filterMap fun
    | .event e => if e.type = eventTypeRequestExecute then some e else none
    | _ => none

lemma mem_saves {t : List Oracle.Call} {s : SaveRecord} : s ∈ saves t ↔ .saveResult s ∈ t := by
  rw [saves, List.mem_filterMap]
  constructor
  · rintro ⟨c, hc, hcs⟩
    cases c with
    | saveResult s' => rwa [Option.some.inj hcs] at hc
    | _ => cases hcs
  · intro h
    exact ⟨_, h, rfl⟩

/-- Writing the results of some saves. -/
def saveAll (results : Table RequestID Bytes) (ss : List SaveRecord) : Table RequestID Bytes :=
  ss.foldl (fun t s => t.insert s.id s.hash) results

/-- The second world comes later in the same block: every result saved since then belongs to a
stored request and is announced by its event, and no other event is a `request_execute`. -/
structure Announces (w w' : World) : Prop where
  header : w'.header = w.header
  requests : w'.store.requests = w.store.requests
  news : ∃ cs, w'.trace = w.trace ++ cs ∧
    w'.store.results = saveAll w.store.results (saves cs) ∧
    executions cs = (saves cs).map SaveRecord.event ∧
    ∀ s ∈ saves cs, ∃ r : Request, w.store.requests[s.id]? = some r ∧
      s = r.saveRecord s.id s.reportCount w.header.time s.status s.result

/-- Calls that neither save a result nor announce one. -/
def Silent (cs : List Oracle.Call) : Prop := saves cs = [] ∧ executions cs = []

lemma announces_of_silent {w w' : World} {cs : List Oracle.Call} (hheader : w'.header = w.header)
    (hrequests : w'.store.requests = w.store.requests)
    (hresults : w'.store.results = w.store.results) (htrace : w'.trace = w.trace ++ cs)
    (hcs : Silent cs) : Announces w w' := by
  obtain ⟨hsaves, hexec⟩ := hcs
  refine ⟨hheader, hrequests, cs, htrace, ?_, ?_, ?_⟩
  · rw [hsaves, hresults]
    rfl
  · rw [hsaves, hexec]
    rfl
  · simp [hsaves]

lemma Announces.refl (w : World) : Announces w w :=
  announces_of_silent rfl rfl rfl (List.append_nil _).symm ⟨rfl, rfl⟩

lemma Announces.trans {w w' w'' : World} (h : Announces w w') (h' : Announces w' w'') :
    Announces w w'' := by
  obtain ⟨hheader, hrequests, cs, hcs, hresults, hexec, hsave⟩ := h
  obtain ⟨hheader', hrequests', cs', hcs', hresults', hexec', hsave'⟩ := h'
  refine ⟨hheader'.trans hheader, hrequests'.trans hrequests, cs ++ cs', ?_, ?_, ?_, ?_⟩
  · rw [hcs', hcs, List.append_assoc]
  · rw [hresults', hresults, saves, saves, saves, List.filterMap_append, saveAll, saveAll, saveAll,
      List.foldl_append]
  · rw [saves, executions, List.filterMap_append, List.filterMap_append, List.map_append]
    exact congrArg₂ _ hexec hexec'
  · intro s hs
    rw [saves, List.filterMap_append] at hs
    rw [hrequests, hheader] at hsave'
    rcases List.mem_append.mp hs with hs | hs
    · exact hsave s hs
    · exact hsave' s hs

instance : IsPreorder World Announces where
  refl := .refl
  trans _ _ _ := .trans

lemma announces_saveResult (id : RequestID) (status : ResolveStatus) (result : Bytes) :
    Exits Announces (saveResult id status result) := by
  refine exits_saveResult_of_stored fun w r hr => ?_
  refine ⟨rfl, rfl, [.saveResult _, .event _], List.append_assoc _ _ _, rfl, rfl, ?_⟩
  intro s hs
  obtain rfl := List.mem_singleton.mp hs
  exact ⟨r, hr, rfl⟩

lemma silent_jailCalls (consAddr : Option Bytes) : Silent (jailCalls consAddr) := by
  cases consAddr <;> exact ⟨rfl, rfl⟩

lemma endBlockKeeps_announces (k : Keeper) : EndBlockKeeps k Announces where
  record c w hc := by
    have hsilent : Silent [c] := by
      cases c <;> first | exact hc.elim | exact ⟨rfl, rfl⟩
    exact announces_of_silent rfl rfl rfl rfl hsilent
  saveResult := announces_saveResult
  pending _ := announces_of_silent rfl rfl rfl (List.append_nil _).symm ⟨rfl, rfl⟩
  cursor _ _ := announces_of_silent rfl rfl rfl (List.append_nil _).symm ⟨rfl, rfl⟩
  report _ _ _ := announces_of_silent rfl rfl rfl rfl (silent_jailCalls _)
  channels _ _ := announces_of_silent rfl rfl rfl (List.append_nil _).symm ⟨rfl, rfl⟩

lemma announces_endBlock {k : Keeper} {w w' : World} (h : Oracle.Step k w .endBlock w') :
    Announces w w' := by
  have hexits := (endBlockKeeps_announces k).exits_handleEndBlock w
  rwa [ExitsAt, step_endBlock_iff.mp h] at hexits

/-! ## The packets are those of the last request -/

/-- Identifiers and times are 64-bit numbers, as their types in the source say. -/
structure FitsInt64 (w : World) : Prop where
  time : Decimal.FitsInt64 w.header.time
  requests : ∀ (id : ℤ) (r : Request), w.store.requests[id]? = some r →
    Decimal.FitsInt64 id ∧ Decimal.FitsInt64 r.oracleScriptID ∧ Decimal.FitsInt64 r.requestTime

/-- The packets that a saved result commits to. -/
def savedPackets (w : World) (s : SaveRecord) : Packets :=
  match w.store.requests[s.id]? with
  | none => zeroPackets
  | some r =>
    (r.savedPacket, r.response s.id s.reportCount w.header.time s.status s.result)

/-- What a save that belongs to a stored request says about its packets. -/
lemma savedPackets_spec {w : World} (hfit : FitsInt64 w) {s : SaveRecord} {r : Request}
    (hr : w.store.requests[s.id]? = some r)
    (hs : s = r.saveRecord s.id s.reportCount w.header.time s.status s.result) :
    ∃ req res, savedPackets w s = (req, res) ∧ FitPackets req res ∧ res.clientID = req.clientID ∧
      res.requestID = s.id ∧ s.hash = calculateResultHash req res ∧
      s.event = requestExecuteEvent req res s.hash := by
  obtain ⟨hid, hscript, htime⟩ := hfit.requests s.id r hr
  refine ⟨r.savedPacket, r.response s.id s.reportCount w.header.time s.status s.result, ?_,
    ⟨hscript, hid, htime, hfit.time⟩, rfl, rfl, ?_, ?_⟩
  · rw [savedPackets, hr]
  · conv_lhs => rw [hs]
    rfl
  · conv_lhs => rw [hs]
    conv_rhs => rw [hs]
    rfl

/-- The events `evs` of a block that ended with the calls `cs`: other modules add events of
their own. -/
def BlockEvents (bech32 : Bytes → Bytes) (cs : List Oracle.Call) (evs : List AbciEvent) : Prop :=
  executeEvents evs = (executions cs).map (Event.toAbci bech32)

section Block

variable {k : Keeper} {w w' : World} {bech32 : Bytes → Bytes} {cs : List Oracle.Call}
  {evs : List AbciEvent}

/-- The handler reads the packets of the last result saved in the block. -/
lemma getPackets_endBlock (hfit : FitsInt64 w) (h : Oracle.Step k w .endBlock w')
    (hcs : w'.trace = w.trace ++ cs) (hevs : BlockEvents bech32 cs evs) :
    executeEvents evs = (saves cs).map (fun s => s.event.toAbci bech32) ∧
      getPackets evs = some (((saves cs).getLast?.map (savedPackets w)).getD zeroPackets) := by
  obtain ⟨_, _, ds, hds, _, hexec, hsave⟩ := announces_endBlock h
  obtain rfl := List.append_cancel_left (hcs.symm.trans hds)
  have hlist : executeEvents evs = (saves cs).map fun s => s.event.toAbci bech32 := by
    rw [hevs, hexec, List.map_map]
    rfl
  refine ⟨hlist, ?_⟩
  rw [getPackets_eq, hlist]
  refine foldlM_readEvent bech32 (fun s hs p => ?_) zeroPackets
  obtain ⟨r, hr, hrec⟩ := hsave s hs
  obtain ⟨req, res, hpackets, hfits, hclient, _, _, hevent⟩ := savedPackets_spec hfit hr hrec
  rw [hpackets, hevent]
  exact readEvent_requestExecute bech32 _ hfits hclient p

/-- The handler builds the packets from the event of the request `R`, and they hash to the
result stored for it. -/
def BuildsOwnPackets (bech32 : Bytes → Bytes) (R : RequestID) (w' : World)
    (evs : List AbciEvent) : Prop :=
  ∃ req res, getPackets evs = some (req, res) ∧ res.requestID = R ∧
    (requestExecuteEvent req res (calculateResultHash req res)).toAbci bech32 ∈ evs ∧
    w'.store.results[R]? = some (calculateResultHash req res)

/-- The last `request_execute` event of the block is that of the request `R`. -/
def LastExecuted (R : RequestID) (evs : List AbciEvent) : Prop :=
  ∃ e, (executeEvents evs).getLast? = some e ∧ ("request_id", Decimal.print R) ∈ e.attributes

/-- An event names one request. -/
lemma mem_requestExecute_iff {req : OracleRequestPacketData} {res : OracleResponsePacketData}
    {x : Bytes} {R : RequestID} :
    ("request_id", Decimal.print R) ∈ ((requestExecuteEvent req res x).toAbci bech32).attributes ↔
      res.requestID = R := by
  simp only [Event.toAbci, requestExecuteEvent, List.map_cons, List.map_nil, AttrValue.toText,
    List.mem_cons, Prod.mk.injEq, List.not_mem_nil, or_false]
  constructor
  · intro h
    simp only [String.reduceEq, false_and, false_or, or_false, true_and] at h
    exact (Decimal.print_inj h).symm
  · rintro rfl
    simp

lemma lastExecuted_iff (hfit : FitsInt64 w) (h : Oracle.Step k w .endBlock w')
    (hcs : w'.trace = w.trace ++ cs) (hevs : BlockEvents bech32 cs evs) (R : RequestID) :
    LastExecuted R evs ↔ ∃ s, (saves cs).getLast? = some s ∧ s.id = R := by
  obtain ⟨hlist, _⟩ := getPackets_endBlock hfit h hcs hevs
  obtain ⟨_, _, ds, hds, _, _, hsave⟩ := announces_endBlock h
  obtain rfl := List.append_cancel_left (hcs.symm.trans hds)
  rw [LastExecuted, hlist, List.getLast?_map]
  cases hs : (saves cs).getLast? with
  | none => simp
  | some s =>
    obtain ⟨r, hr, hrec⟩ := hsave s (List.mem_of_getLast? hs)
    obtain ⟨req, res, _, _, _, hid, _, hevent⟩ := savedPackets_spec hfit hr hrec
    simp only [Option.map_some, Option.some.injEq, exists_eq_left', hevent,
      mem_requestExecute_iff, hid]

lemma buildsOwnPackets_iff_last (hfit : FitsInt64 w) (h : Oracle.Step k w .endBlock w')
    (hcs : w'.trace = w.trace ++ cs) (hevs : BlockEvents bech32 cs evs) (R : RequestID) :
    BuildsOwnPackets bech32 R w' evs ↔ ∃ s, (saves cs).getLast? = some s ∧ s.id = R := by
  obtain ⟨hlist, hget⟩ := getPackets_endBlock hfit h hcs hevs
  obtain ⟨_, _, ds, hds, hresults, _, hsave⟩ := announces_endBlock h
  obtain rfl := List.append_cancel_left (hcs.symm.trans hds)
  rcases (saves cs).eq_nil_or_concat' with hnil | ⟨ss, s, hss⟩
  · -- the block finishes no request, so there is no event to build from
    rw [hnil] at hlist ⊢
    refine iff_of_false ?_ (by simp)
    rintro ⟨req, res, _, _, hmem, _⟩
    exact List.filter_eq_nil_iff.mp hlist _ hmem (decide_eq_true rfl)
  · obtain ⟨r, hr, hrec⟩ := hsave s (by rw [hss]; simp)
    obtain ⟨req, res, hpackets, _, _, hid, hhash, hevent⟩ := savedPackets_spec hfit hr hrec
    rw [hss, List.getLast?_concat, Option.map_some, Option.getD_some, hpackets] at hget
    rw [hss, List.getLast?_concat]
    constructor
    · rintro ⟨req', res', hget', rfl, _, _⟩
      obtain ⟨rfl, rfl⟩ := Prod.mk.inj (Option.some.inj (hget.symm.trans hget'))
      exact ⟨s, rfl, hid.symm⟩
    · rintro ⟨_, hs, rfl⟩
      obtain rfl := Option.some.inj hs
      refine ⟨req, res, hget, hid, ?_, ?_⟩
      · have hmem : s.event.toAbci bech32 ∈ executeEvents evs := by
          rw [hlist, hss]
          simp
        rw [← hhash, ← hevent]
        exact (List.mem_filter.mp hmem).1
      · -- the result of the last request is the last one written
        rw [hresults, hss, saveAll, List.foldl_append, ← hhash]
        exact Table.getElem?_insert_self _ _ _

/-- **The packets of a proof.**  At the end of any block, and for every list of events that the
block can return, the handler builds the packets of the request `R` from its own event, and they
hash to its stored result, exactly if that event is the last `request_execute` event. -/
theorem buildsOwnPackets_iff (hfit : FitsInt64 w) (h : Oracle.Step k w .endBlock w')
    (hcs : w'.trace = w.trace ++ cs) (hevs : BlockEvents bech32 cs evs) (R : RequestID) :
    BuildsOwnPackets bech32 R w' evs ↔ LastExecuted R evs :=
  (buildsOwnPackets_iff_last hfit h hcs hevs R).trans (lastExecuted_iff hfit h hcs hevs R).symm

end Block

/-! ## A block that finishes two requests -/

namespace TwoRequests

open Oracle.Sample

/-- Two requests to both validators, each answered by the first one. -/
def labels : List Oracle.Label :=
  create askingScript ++
    [.deliver (.requestData (requestMsg 2 1)), .deliver (.requestData (requestMsg 2 1)),
     .deliver (.reportData (reportMsg alice)),
     .deliver (.reportData { reportMsg alice with requestID := 2 })]

/-- The events of the block, where no other module adds any. -/
def events (cs : List Oracle.Call) : List AbciEvent := (executions cs).map (Event.toAbci fun a => a)

lemma blockEvents (cs : List Oracle.Call) : BlockEvents (fun a => a) cs (events cs) := by
  rw [BlockEvents, executeEvents, events, List.filter_eq_self]
  intro e he
  obtain ⟨e', he', rfl⟩ := List.mem_map.mp he
  obtain ⟨c, _, hc⟩ := List.mem_filterMap.mp he'
  cases c with
  | event e =>
    simp only [Option.ite_none_right_eq_some, Option.some.injEq] at hc
    obtain ⟨htype, rfl⟩ := hc
    exact decide_eq_true htype
  | _ => cases hc

/-- The block resolves the request 1, then the request 2. -/
lemma exists_block : ∃ w w' cs, ReachableWorld keeper w ∧ FitsInt64 w ∧
    Oracle.Step keeper w .endBlock w' ∧ w'.trace = w.trace ++ cs ∧
    (saves cs).map SaveRecord.id = [1, 2] := by
  obtain ⟨w, hrun, htime, hrequests, w', hst, hsaves⟩ := exists_runWhere (f := next keeper)
    (P := fun _ _ => True) (s := genesis) labels
    (I := fun w => Decimal.FitsInt64 w.header.time ∧
      (∀ e ∈ w.store.requests.toList, Decimal.FitsInt64 e.1 ∧
        Decimal.FitsInt64 e.2.oracleScriptID ∧ Decimal.FitsInt64 e.2.requestTime) ∧
      ∃ w' ∈ next keeper .endBlock w,
        (saves (w'.trace.drop w.trace.length)).map SaveRecord.id = [1, 2])
    (by decide +kernel)
  have hw : ReachableWorld keeper w := ⟨_, _, starts_genesis, hrun⟩
  obtain ⟨_, _, cs, hcs, _⟩ := announces_endBlock hst
  refine ⟨w, w', cs, hw, ⟨htime, fun id r hr => ?_⟩, hst, hcs, ?_⟩
  · exact hrequests (id, r) (Std.ExtTreeMap.mem_toList_iff_getElem?_eq_some.mpr hr)
  · rwa [hcs, List.drop_left] at hsaves

end TwoRequests

open TwoRequests

/-- The proof of the second request is right. -/
theorem buildsOwnPackets_second : ∃ w w' cs, ReachableWorld Sample.keeper w ∧
    Oracle.Step Sample.keeper w .endBlock w' ∧ w'.trace = w.trace ++ cs ∧
    BuildsOwnPackets (fun a => a) 2 w' (events cs) := by
  obtain ⟨w, w', cs, hw, hfit, hst, hcs, hids⟩ := exists_block
  refine ⟨w, w', cs, hw, hst, hcs, (buildsOwnPackets_iff hfit hst hcs (blockEvents cs) 2).mpr ?_⟩
  have hlast := congrArg List.getLast? hids
  rw [List.getLast?_map] at hlast
  exact (lastExecuted_iff hfit hst hcs (blockEvents cs) 2).mpr (Option.map_eq_some_iff.mp hlast)

/-- The proof of the first request carries the packets of the second. -/
theorem not_buildsOwnPackets_first : ∃ w w' cs, ReachableWorld Sample.keeper w ∧
    Oracle.Step Sample.keeper w .endBlock w' ∧ w'.trace = w.trace ++ cs ∧
    BlockEvents (fun a => a) cs (events cs) ∧ (∃ s, .saveResult s ∈ cs ∧ s.id = 1) ∧
    (∃ x, w'.store.results[(1 : ℤ)]? = some x) ∧
    ¬BuildsOwnPackets (fun a => a) 1 w' (events cs) := by
  obtain ⟨w, w', cs, hw, hfit, hst, hcs, hids⟩ := exists_block
  obtain ⟨s, hs, hid⟩ : ∃ s ∈ saves cs, s.id = 1 := by
    have : (1 : ℤ) ∈ (saves cs).map SaveRecord.id := by simp [hids]
    exact List.mem_map.mp this
  obtain ⟨s', _, hid', hresult⟩ := result_of_saved hw hst hcs (mem_saves.mp hs)
  rw [hid] at hresult
  refine ⟨w, w', cs, hw, hst, hcs, blockEvents cs, ⟨s, mem_saves.mp hs, hid⟩, ⟨_, hresult⟩, ?_⟩
  rw [buildsOwnPackets_iff_last hfit hst hcs (blockEvents cs) 1]
  rintro ⟨t, ht, ht1⟩
  have hlast := congrArg List.getLast? hids
  rw [List.getLast?_map, ht, Option.map_some, ht1] at hlast
  cases hlast

end Bandchain.Bridge
