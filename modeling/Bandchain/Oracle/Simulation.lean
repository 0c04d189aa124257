import Bandchain.Oracle.History
import Bandchain.Oracle.Refinement

/-!
# Runs of the chain are runs of the ledger

The steps of the chain, put together from the functions they run.  Each step is matched by a
run of the ledger whose requests and reports come from the message that was delivered; so
what holds along all runs of the ledger holds along all runs of the chain.
-/

namespace Bandchain.Oracle

open Exec

/-! ## What a step can do -/

/-- A delivery that makes a request: what the requester sent, and the channel it came from. -/
inductive Requests (k : Keeper) (w : World) :
    Label → OracleRequestPacketData → Option IBCInfo → World → Prop
  | message {m : MsgRequestData} {w' : World} :
      m.validateBasic = .ok () → (handleMsgRequestData k m).run w = .ok () w' →
      Requests k w (.deliver (.requestData m)) m.toSpec.toPacket none w'
  | packet {q : RecvPacket} {d : OracleRequestPacketData} {w' : World} :
      k.unmarshalJSON q.data = some d → (onRecvPacket k q).run w = .ok () w' →
      Requests k w (.deliver (.recvPacket q)) d (some ⟨q.destPort, q.destChannel⟩) w'

/-- The four kinds of steps: quiet ones, accepted requests, accepted reports, and the ends of
blocks. -/
inductive StepCase (k : Keeper) (w : World) : Label → World → Prop
  | quiet {l : Label} {w' : World} : Quiet w w' → StepCase k w l w'
  | request {l : Label} {packet : OracleRequestPacketData} {info : Option IBCInfo} {w' : World} :
      Requests k w l packet info w' → StepCase k w l w'
  | report {m : MsgReportData} {w' : World} :
      m.validateBasic = .ok () → (handleMsgReportData m).run w = .ok () w' →
      StepCase k w (.deliver (.reportData m)) w'
  | endBlock {w' : World} : (handleEndBlock k).run w = .ok () w' → StepCase k w .endBlock w'

/-- A world that is rolled back, with the files that were written. -/
lemma quiet_rollback {k : Keeper} {w w' : World} {m : Msg} {e : Err}
    (h : (m.handle k).run w = .error e w') : Quiet w { w with files := w'.files } := by
  have hfiles := keepsFiles_handle k m w
  rw [ExitsAt, h] at hfiles
  exact .of_same rfl hfiles rfl

/-- A packet that is taken is a request. -/
lemma requests_of_onRecvPacket {k : Keeper} {w w' : World} {q : RecvPacket}
    (h : (onRecvPacket k q).run w = .ok () w') :
    ∃ packet info, Requests k w (.deliver (.recvPacket q)) packet info w' := by
  cases hdata : k.unmarshalJSON q.data with
  | none =>
    rw [onRecvPacket, hdata] at h
    cases h
  | some d => exact ⟨_, _, .packet hdata h⟩

/-- What a handler that succeeds has done. -/
lemma handle_cases {k : Keeper} {w w' : World} {m : Msg} (hbasic : m.validateBasic = .ok ())
    (h : (m.handle k).run w = .ok () w') : StepCase k w (.deliver m) w' := by
  cases m with
  | createDataSource m => exact .quiet (quiet_of_ok (quiet_handleMsgCreateDataSource k m) h)
  | editDataSource m => exact .quiet (quiet_of_ok (quiet_handleMsgEditDataSource k m) h)
  | createOracleScript m => exact .quiet (quiet_of_ok (quiet_handleMsgCreateOracleScript k m) h)
  | editOracleScript m => exact .quiet (quiet_of_ok (quiet_handleMsgEditOracleScript k m) h)
  | requestData m => exact .request (.message hbasic h)
  | reportData m => exact .report hbasic h
  | addReporter m => exact .quiet (quiet_of_ok (quiet_handleMsgAddReporter m) h)
  | removeReporter m => exact .quiet (quiet_of_ok (quiet_handleMsgRemoveReporter m) h)
  | recvPacket q =>
    obtain ⟨_, _, hreq⟩ := requests_of_onRecvPacket h
    exact .request hreq

/-- A delivery is accepted, or quiet. -/
lemma deliver_cases (k : Keeper) (m : Msg) (w : World) :
    StepCase k w (.deliver m) (deliver k m w) := by
  unfold deliver
  rcases hbasic : m.validateBasic with e | u
  · exact .quiet (.refl w)
  · rcases hrun : (m.handle k).run w with ⟨u, w'⟩ | ⟨e, w'⟩
    · exact handle_cases hbasic hrun
    · exact .quiet (quiet_rollback hrun)

theorem step_cases {k : Keeper} {w w' : World} {l : Label} (h : Step k w l w') :
    StepCase k w l w' := by
  change next k l w = some w' at h
  cases l with
  | beginBlock header =>
    simp only [next] at h
    split_ifs at h
    obtain rfl := Option.some.inj h
    exact .quiet (.of_same rfl w.files.le_refl rfl)
  | deliver m =>
    obtain rfl := Option.some.inj h
    exact deliver_cases k m w
  | writeFile data =>
    obtain rfl := Option.some.inj h
    exact .quiet (.of_same rfl (w.files.le_addFile data) rfl)
  | updateParams params =>
    simp only [next] at h
    split_ifs at h
    obtain rfl := Option.some.inj h
    exact .quiet (quiet_of_store ⟨rfl, rfl, rfl, rfl, rfl, rfl⟩ rfl rfl rfl rfl)
  | updateStaking staking =>
    obtain rfl := Option.some.inj h
    exact .quiet (.of_same rfl w.files.le_refl rfl)
  | updateChannels channels =>
    obtain rfl := Option.some.inj h
    exact .quiet (.of_same rfl w.files.le_refl rfl)
  | endBlock => exact .endBlock (step_endBlock_iff.mp h)

/-- An accepted request is a step of the chain. -/
lemma Requests.step {k : Keeper} {w w' : World} {l : Label} {packet : OracleRequestPacketData}
    {info : Option IBCInfo} (h : Requests k w l packet info w') : Step k w l w' := by
  cases h with
  | message hbasic hrun =>
    show some (deliver k _ w) = some w'
    simp only [deliver, Msg.validateBasic, hbasic, Msg.handle, hrun]
  | packet hdata hrun =>
    show some (deliver k _ w) = some w'
    simp only [deliver, Msg.validateBasic, Msg.handle, hrun]

/-- What an accepted request does; the bounds on it are those of its message. -/
lemma Requests.stored {k : Keeper} {w w' : World} {l : Label} {packet : OracleRequestPacketData}
    {info : Option IBCInfo} (h : Requests k w l packet info w') :
    ∃ p r, Prepared packet.toSpec info w p r w' ∧ (info = none → p.spec.Bounded) := by
  cases h with
  | @message m _ hbasic hrun =>
    obtain ⟨p, r, hprep⟩ := prepareRequest_eq_ok hrun
    refine ⟨p, r, hprep, fun _ => ?_⟩
    rw [hprep.spec]
    exact MsgRequestData.bounded_of_validateBasic hbasic
  | @packet q d _ hdata hrun =>
    rw [onRecvPacket, hdata] at hrun
    obtain ⟨p, r, hprep⟩ := prepareRequest_eq_ok hrun
    exact ⟨p, r, hprep, nofun⟩

/-! ## All steps -/

/-- The requests and reports of the ledger come from the message that the step delivers. -/
def Justified (k : Keeper) (w : World) (l : Label) (L : Ledger) : Ledger.Act → Prop
  | .request p => ∃ packet info w', Requests k w l packet info w' ∧ p.spec = packet.toSpec ∧
      p.ibcInfo = info
  | .report rid rep =>
      ∃ m, l = .deliver (.reportData m) ∧ m.validateBasic = .ok () ∧ rid = m.requestID ∧
        rep = m.report w ∧ w.store.isReporter m.validator m.reporter = true ∧
        (∃ r, Reportable w rid r rep) ∧ L = w.ledger
  | _ => True

/-- The view of a step of the chain. -/
def Refines (k : Keeper) (w : World) (l : Label) (w' : World) : Prop :=
  w'.ScriptsBounded ∧ ∃ acts, RunWhere Ledger.Step (Justified k w l) w.ledger acts w'.ledger

lemma refines_requests {k : Keeper} {w w' : World} {l : Label} {packet : OracleRequestPacketData}
    {info : Option IBCInfo} (hb : w.ScriptsBounded) (h : Requests k w l packet info w') :
    Refines k w l w' := by
  obtain ⟨p, r, hprep, hbound⟩ := h.stored
  have hstep := step_addRequest w.store.getPendingResolveList hprep.id hprep.describes
    hprep.ready (by
      rw [hprep.ibcInfo]
      exact hbound)
  refine ⟨(hprep.quiet.scripts hb).1, [.request p, .quiet], ?_⟩
  refine .cons ?_ hstep (.single trivial (hprep.quiet.step_ledger hb))
  exact ⟨packet, info, w', h, hprep.spec, hprep.ibcInfo⟩

lemma refines_handleMsgReportData {k : Keeper} {w w' : World} {m : MsgReportData}
    (hb : w.ScriptsBounded) (hbasic : m.validateBasic = .ok ())
    (h : (handleMsgReportData m).run w = .ok () w') :
    Refines k w (.deliver (.reportData m)) w' := by
  obtain ⟨hreporter, r, hrep, hlogs⟩ := handleMsgReportData_eq_ok h
  have hquiet := hlogs.quiet
  have hnodup := (MsgReportData.validateBasic_eq_ok.mp hbasic).2.2.2.1
  have hstep := step_acceptReport hrep hnodup
  have hb₁ := scriptsBounded_acceptReport hb m.requestID r (m.report w)
  refine ⟨(hquiet.scripts hb₁).1, [.report m.requestID (m.report w), .quiet], ?_⟩
  refine .cons ?_ hstep (.single trivial (hquiet.step_ledger hb₁))
  exact ⟨m, rfl, hbasic, rfl, rfl, hreporter, ⟨r, hrep⟩, rfl⟩

/-- **Refinement.**  Every step of the chain is a run of the ledger. -/
theorem step_refines {k : Keeper} {w w' : World} {l : Label} (hb : w.ScriptsBounded)
    (h : Step k w l w') : Refines k w l w' := by
  cases step_cases h with
  | quiet hquiet =>
    exact ⟨(hquiet.scripts hb).1, [.quiet], .single trivial (hquiet.step_ledger hb)⟩
  | request hreq => exact refines_requests hb hreq
  | report hbasic hrun => exact refines_handleMsgReportData hb hbasic hrun
  | endBlock hrun =>
    obtain ⟨hb', _, acts, hacts⟩ := run_handleEndBlock hb hrun
    refine ⟨hb', acts, hacts.imp ?_⟩
    intro L a ha
    cases a with
    | request _ => exact ha.elim
    | report _ _ => exact ha.elim
    | _ => trivial

/-! ## All runs -/

/-- A run of the chain is a run of the ledger.  A condition on the steps of the chain carries
over if it implies one on the requests and reports that justify the steps of the ledger. -/
theorem run_refines {k : Keeper} {P : World → Label → Prop} {Q : Ledger → Ledger.Act → Prop}
    (hPQ : ∀ w l, P w l → ∀ L a, Justified k w l L a → Q L a) {w w' : World} {ls : List Label}
    (h : RunWhere (Step k) P w ls w') (hb : w.ScriptsBounded) :
    w'.ScriptsBounded ∧ ∃ acts, RunWhere Ledger.Step Q w.ledger acts w'.ledger := by
  refine h.simulate World.ledger (J := World.ScriptsBounded) ?_ hb
  intro s l t hs hP hst
  obtain ⟨ht, acts, hacts⟩ := step_refines hs hst
  exact ⟨ht, acts, hacts.imp (hPQ s l hP)⟩

/-- Genesis stores scripts for the identifiers up to their count. -/
lemma scriptsBounded_foldl {s : Store} (l : List OracleScript)
    (h : ∀ (id : ℤ) (o : OracleScript), s.oracleScripts[id]? = some o →
      id ≤ s.getOracleScriptCount) :
    ∀ (id : ℤ) (o : OracleScript), (l.foldl Store.addOracleScript s).oracleScripts[id]? = some o →
      id ≤ (l.foldl Store.addOracleScript s).getOracleScriptCount := by
  induction l generalizing s with
  | nil => exact h
  | cons o l ih =>
    refine ih fun id o' ho' => ?_
    show id ≤ s.getOracleScriptCount + 1
    by_cases hid : s.getOracleScriptCount + 1 = id
    · exact hid.ge
    · have hold : s.oracleScripts[id]? = some o' := by
        simpa only [Store.addOracleScript, Table.getElem?_insert_ne _ _ hid] using ho'
      exact (h id o' hold).trans (Int.le_add_one le_rfl)

lemma scriptsBounded_of_starts {data : GenesisState} {w : World} (h : Starts data w) :
    w.ScriptsBounded := by
  unfold World.ScriptsBounded
  rw [h.1]
  refine scriptsBounded_foldl data.oracleScripts fun id o ho => ?_
  rw [foldl_proj (f := Store.addDataSource) Store.oracleScripts fun _ _ => rfl] at ho
  simp [Store.empty] at ho

/-- A genesis state without results starts a fresh ledger. -/
lemma fresh_of_starts {data : GenesisState} {w : World} (h : Starts data w)
    (hres : data.results = []) : w.ledger.Fresh := by
  have hfresh := fresh_initGenesis data
  have hresults := results_initGenesis data
  have hcount := requestCount_initGenesis data
  rw [hres] at hresults hcount
  rw [← h.1] at hfresh hresults hcount
  refine ⟨?_, ?_, ?_, hfresh.requests, hfresh.reports, hresults, h.2⟩
  · simp [World.ledger, World.ledgerWith, Store.getRequestCount, hcount]
  · simp [World.ledger, World.ledgerWith, Store.getRequestLastExpired, hfresh.requestLastExpired]
  · simp [World.ledger, World.ledgerWith, Store.getPendingResolveList, hfresh.pendingResolveList]

/-- **Invariants of runs.**  What every step of the ledger keeps, under a condition that the
steps of the chain meet, is kept along a run of the chain. -/
lemma ledger_invariant {k : Keeper} {P : World → Label → Prop} {Q : Ledger → Ledger.Act → Prop}
    {I : Ledger → Prop} (hPQ : ∀ w l, P w l → ∀ L a, Justified k w l L a → Q L a)
    (hstep : ∀ {L a L'}, Q L a → Ledger.Step L a L' → I L → I L') {w w' : World}
    {ls : List Label} (h : RunWhere (Step k) P w ls w') (hb : w.ScriptsBounded)
    (hI : I w.ledger) : I w'.ledger := by
  obtain ⟨_, acts, hacts⟩ := run_refines hPQ h hb
  exact hacts.invariant hstep hI

/-- **The history of a run.**  A world that a chain reaches from a genesis state without
results has a ledger with all its invariants. -/
theorem recorded_of_run {k : Keeper} {data : GenesisState} {w₀ w : World} {ls : List Label}
    (h₀ : Starts data w₀) (hres : data.results = []) (h : Run (Step k) w₀ ls w) :
    w.ledger.Recorded :=
  ledger_invariant (Q := fun _ _ => True) (fun _ _ _ _ _ _ => trivial)
    (fun _ hst hI => hI.step hst) h (scriptsBounded_of_starts h₀) (fresh_of_starts h₀ hres).recorded

lemma recorded_of_reachable {k : Keeper} {w : World} (h : ReachableWorld k w) :
    w.ledger.Recorded := by
  obtain ⟨w₀, ls, h₀, hrun⟩ := h
  exact recorded_of_run h₀ rfl hrun

lemma scriptsBounded_of_run {k : Keeper} {data : GenesisState} {w₀ w : World} {ls : List Label}
    (h₀ : Starts data w₀) (h : Run (Step k) w₀ ls w) : w.ScriptsBounded :=
  (run_refines (Q := fun _ _ => True) (fun _ _ _ _ _ _ => trivial) h
    (scriptsBounded_of_starts h₀)).1

lemma scriptsBounded_of_reachable {k : Keeper} {w : World} (h : ReachableWorld k w) :
    w.ScriptsBounded := by
  obtain ⟨w₀, ls, h₀, hrun⟩ := h
  exact scriptsBounded_of_run h₀ hrun

/-- A stored request stays as it is, and history is never rewritten. -/
lemma stable_of_run {k : Keeper} {w w' : World} {ls : List Label} (hw : ReachableWorld k w)
    (hrun : Run (Step k) w ls w') :
    (∀ (id : RequestID) (r : Request), w.store.requests[id]? = some r →
      w'.store.requests[id]? = some r) ∧ ∃ cs, w'.trace = w.trace ++ cs := by
  have h := ledger_invariant (Q := fun _ _ => True) (I := fun L => L.Recorded ∧
      (∀ (id : RequestID) (r : Request), w.store.requests[id]? = some r →
        L.requests[id]? = some r) ∧ ∃ cs, L.trace = w.trace ++ cs)
    (fun _ _ _ _ _ _ => trivial) ?_ hrun (scriptsBounded_of_reachable hw)
    ⟨recorded_of_reachable hw, fun _ _ h => h, [], (List.append_nil _).symm⟩
  · exact h.2
  · rintro L a L' - hst ⟨hrec, hreq, cs, hcs⟩
    obtain ⟨ds, hds, _⟩ := hst.news
    refine ⟨hrec.step hst, fun id r hr => hrec.stored.request_stable hst (hreq id r hr),
      cs ++ ds, ?_⟩
    rw [hds, hcs, List.append_assoc]

/-- What is stored and recorded of an accepted request, at any later time. -/
lemma Requests.later {k : Keeper} {w₁ w₂ w : World} {l : Label} {packet : OracleRequestPacketData}
    {info : Option IBCInfo} {ls : List Label} (h : Requests k w₁ l packet info w₂)
    (h₁ : ReachableWorld k w₁) (hrun : Run (Step k) w₂ ls w) :
    ∃ p r, p.id = w₁.store.getRequestCount + 1 ∧ p.spec = packet.toSpec ∧ p.ibcInfo = info ∧
      p.blockTime = w₁.header.time ∧ p.Describes r ∧ .prepareRequest p ∈ w.trace ∧
      w.store.requests[p.id]? = some r := by
  obtain ⟨p, r, hprep, _⟩ := h.stored
  obtain ⟨hreq, cs, hcs⟩ := stable_of_run (h₁.of_run (.single trivial h.step)) hrun
  obtain ⟨ds, hds, _⟩ := hprep.quiet.trace
  refine ⟨p, r, hprep.id, hprep.spec, hprep.ibcInfo, hprep.blockTime, hprep.describes, ?_,
    hreq _ _ ?_⟩
  · rw [hcs, hds, World.addRequest]
    simp
  · rw [hprep.quiet.requests, hprep.id]
    exact Table.getElem?_insert_self _ _ _

end Bandchain.Oracle
