import Bandchain.Lib.Ranked
import Bandchain.Oracled.RequestLog

/-!
# The report of a request

The daemon answers a request if every executable that it gets can be logged and every output is
small enough for a report, and if the request asks for something.  In whatever order the goroutines
finish, it then submits one message, with the result of every raw request in it, and the chain takes
the report.  If one executable is too short, the daemon crashes; if one output is too long, nothing
is submitted.
-/

namespace Bandchain.Oracled

open Oracle

/-! ## The reports that are due -/

/-- The raw report for a raw request: the result of its own executable on its own calldata. -/
def Context.rawReport (c : Context) (idx : ℕ) (req : RawRequest) : RawReport :=
  match c.query idx req.dataSourceHash with
  | .error _ => failToLoad req
  | .ok resValue => executed c idx req resValue.bytes

def Context.rawReports (c : Context) (reqs : List RawRequest) : List RawReport :=
  reqs.mapIdx c.rawReport

/-- The raw report that a goroutine is going to send. -/
def Goroutine.report (c : Context) (g : Goroutine) : RawReport :=
  match g.stage with
  | .load => c.rawReport g.idx g.req
  | .execute exec => executed c g.idx g.req exec

variable {c : Context} {s t : State} {id : RequestID} {reqs : List RawRequest}

lemma getExecutable_eq_ok {idx : ℕ} {hash exec : Bytes}
    (h : getExecutable c idx hash = .ok exec) :
    ∃ resValue, c.query idx hash = .ok resValue ∧ resValue.bytes = exec := by
  rw [getExecutable] at h
  cases hquery : c.query idx hash with
  | error e => simp [hquery] at h
  | ok resValue =>
    simp only [hquery] at h
    split_ifs at h
    exact ⟨resValue, rfl, Except.ok.inj h⟩

lemma getExecutable_eq_error {idx : ℕ} {hash : Bytes} {e : String}
    (h : getExecutable c idx hash = .error (.error e)) : c.query idx hash = .error e := by
  rw [getExecutable] at h
  cases hquery : c.query idx hash with
  | error e' =>
    simp only [hquery, Except.error.injEq, Stop.error.injEq] at h
    rw [h]
  | ok resValue =>
    simp only [hquery] at h
    split_ifs at h
    cases h

lemma getExecutable_eq_panic {idx : ℕ} {hash : Bytes} :
    getExecutable c idx hash = .error .panic ↔
      ∃ resValue, c.query idx hash = .ok resValue ∧ resValue.cap < 32 := by
  rw [getExecutable]
  cases c.query idx hash with
  | error e => simp
  | ok resValue => by_cases hcap : resValue.cap < 32 <;> simp [hcap]

@[simp] lemma externalID_rawReport (idx : ℕ) (req : RawRequest) :
    (c.rawReport idx req).externalID = req.externalID := by
  rw [Context.rawReport]
  split <;> rfl

lemma map_externalID_rawReports (reqs : List RawRequest) :
    (c.rawReports reqs).map RawReport.externalID = reqs.map RawRequest.externalID := by
  refine List.ext_getElem? fun i => ?_
  simp [Context.rawReports, Function.comp_def]

lemma submitReport_eq_some {reps : List RawReport} {m : MsgReportData} :
    submitReport c id reps = some m ↔
      m = ⟨id, reps, c.validator, c.reporter⟩ ∧ m.validateBasic = .ok () := by
  rw [submitReport]
  cases hvalid : MsgReportData.validateBasic ⟨id, reps, c.validator, c.reporter⟩ with
  | error e =>
    simp only [reduceCtorEq, false_iff, not_and]
    rintro rfl h
    rw [hvalid] at h
    cases h
  | ok u =>
    simp only [Option.some.injEq]
    constructor
    · rintro rfl
      exact ⟨rfl, hvalid⟩
    · rintro ⟨rfl, _⟩
      rfl

/-! ## The invariant -/

/-- What is left of the handler's work, and what it has done.  The raw reports received, those in
the channel and those that the goroutines are going to send are the ones that are due. -/
structure Working (c : Context) (id : RequestID) (reqs : List RawRequest) (s : State) : Prop where
  requestID : s.requestID = id
  chanCap : s.chanCap = reqs.length
  perm : (s.running.map (Goroutine.report c) ++ (s.reportsChan ++ s.reports)).Perm
    (c.rawReports reqs)
  own : ∀ g ∈ s.running, reqs[g.idx]? = some g.req
  receiving : ∀ left, s.phase = .receiving left →
    left = s.running.length + s.reportsChan.length ∧ s.submitted = []
  returned : s.phase = .returned → s.running = [] ∧ s.reportsChan = [] ∧
    s.submitted = (submitReport c id s.reports).toList
  crashed : s.crashed = true → ∃ idx req, reqs[idx]? = some req ∧
    getExecutable c idx req.dataSourceHash = .error .panic

lemma working_start : Working c id reqs (.start id reqs) where
  requestID := rfl
  chanCap := rfl
  perm := by
    have hdue : (State.start id reqs).running.map (Goroutine.report c) = c.rawReports reqs := by
      refine List.ext_getElem? fun i => ?_
      simp only [State.start, Context.rawReports, List.getElem?_map, List.getElem?_mapIdx,
        Option.map_map]
      rfl
    rw [hdue]
    exact List.Perm.of_eq (List.append_nil _)
  own := by
    intro g hg
    obtain ⟨i, hi, rfl⟩ := List.mem_mapIdx.mp hg
    exact List.getElem?_eq_getElem hi
  receiving := by
    rintro _ ⟨⟩
    simp [State.start]
  returned := by rintro ⟨⟩
  crashed := by rintro ⟨⟩

/-- A goroutine that sends its raw report leaves the others as they are. -/
lemma Working.send (h : Working c id reqs s) {g : Goroutine} {before after : List Goroutine}
    (hrunning : s.running = before ++ g :: after) {rep : RawReport} (hrep : rep = g.report c) :
    Working c id reqs
      { s with running := before ++ after, reportsChan := s.reportsChan ++ [rep] } where
  requestID := h.requestID
  chanCap := h.chanCap
  perm := by
    refine List.Perm.trans ?_ h.perm
    subst hrep
    simp only [hrunning, List.map_append, List.map_cons, List.append_assoc, List.cons_append,
      List.nil_append]
    refine List.Perm.append_left _ ?_
    -- the raw report moves from the goroutines to the channel
    rw [← List.append_assoc, ← List.append_assoc]
    exact List.perm_middle
  own := by
    intro g' hg'
    refine h.own g' ?_
    rw [hrunning, List.mem_append, List.mem_cons]
    exact (List.mem_append.mp hg').imp_right .inr
  receiving := by
    intro left hphase
    obtain ⟨hleft, hsubmitted⟩ := h.receiving left hphase
    refine ⟨?_, hsubmitted⟩
    rw [hleft, hrunning]
    simp only [List.length_append, List.length_cons, List.length_nil]
    omega
  returned := by
    intro hphase
    have hnil := (h.returned hphase).1
    rw [hrunning] at hnil
    simp at hnil
  crashed := h.crashed

/-- The handler takes a raw report from the channel. -/
lemma Working.receive (h : Working c id reqs s) {left : ℕ} {rep : RawReport}
    {reps : List RawReport} (hphase : s.phase = .receiving (left + 1))
    (hchan : s.reportsChan = rep :: reps) :
    Working c id reqs
      { s with phase := .receiving left, reportsChan := reps, reports := s.reports ++ [rep] } where
  requestID := h.requestID
  chanCap := h.chanCap
  perm := by
    refine List.Perm.trans (List.Perm.append_left _ ?_) h.perm
    rw [hchan, List.cons_append, ← List.append_assoc]
    exact List.perm_append_singleton _ _
  own := h.own
  receiving := by
    rintro _ ⟨⟩
    obtain ⟨hleft, hsubmitted⟩ := h.receiving _ hphase
    rw [hchan, List.length_cons] at hleft
    exact ⟨Nat.succ.inj hleft, hsubmitted⟩
  returned := by rintro ⟨⟩
  crashed := h.crashed

/-- What one step keeps. -/
lemma Working.step (h : Working c id reqs s) {l : Label} (hstep : Step c s l t) :
    Working c id reqs t := by
  cases hstep with
  | @panic g before after hlive hrunning hstage hexec =>
    refine { h with crashed := fun _ => ⟨g.idx, g.req, h.own g ?_, hexec⟩ }
    rw [hrunning]
    exact List.mem_append_right _ List.mem_cons_self
  | @fail g before after e hlive hrunning hstage hexec hroom =>
    refine h.send hrunning ?_
    simp only [Goroutine.report, hstage, Context.rawReport, getExecutable_eq_error hexec]
  | @load g before after exec hlive hrunning hstage hexec =>
    obtain ⟨resValue, hquery, hbytes⟩ := getExecutable_eq_ok hexec
    -- the raw report to come stays the same
    have hreport : (Goroutine.mk g.idx g.req (.execute exec)).report c = g.report c := by
      simp only [Goroutine.report, hstage, Context.rawReport, hquery, hbytes]
    refine ⟨h.requestID, h.chanCap, ?_, ?_, ?_, ?_, h.crashed⟩
    · have hperm := h.perm
      rw [hrunning] at hperm
      simpa only [List.map_append, List.map_cons, hreport] using hperm
    · have hown := h.own
      rw [hrunning] at hown
      simpa only [List.forall_mem_append, List.forall_mem_cons] using hown
    · intro left hphase
      have hleft := h.receiving left hphase
      rw [hrunning] at hleft
      simpa using hleft
    · intro hphase
      have hnil := (h.returned hphase).1
      rw [hrunning] at hnil
      simp at hnil
  | @execute g before after exec hlive hrunning hstage hroom =>
    refine h.send hrunning ?_
    simp only [Goroutine.report, hstage]
  | receive hlive hphase hchan => exact h.receive hphase hchan
  | submit hlive hphase =>
    obtain ⟨hleft, hsubmitted⟩ := h.receiving 0 hphase
    have hrunning : s.running = [] := List.length_eq_zero_iff.mp (by omega)
    have hchan : s.reportsChan = [] := List.length_eq_zero_iff.mp (by omega)
    refine { h with
      receiving := by rintro _ ⟨⟩
      returned := fun _ => ⟨hrunning, hchan, ?_⟩ }
    rw [hsubmitted, h.requestID, List.nil_append]

/-- What every run keeps. -/
lemma working_of_run {ls : List Label} (hrun : Run (Step c) (.start id reqs) ls s) :
    Working c id reqs s :=
  hrun.invariant (fun _ hstep h => h.step hstep) working_start

/-! ## The end of the work -/

/-- The steps that a goroutine has still to take, its raw report to be received included. -/
def Goroutine.weight (g : Goroutine) : ℕ :=
  match g.stage with
  | .load => 3
  | .execute _ => 2

def Phase.weight : Phase → ℕ
  | .receiving _ => 1
  | .returned => 0

def State.rank (s : State) : ℕ :=
  (s.running.map Goroutine.weight).sum + s.reportsChan.length + s.phase.weight +
    if s.crashed then 0 else 1

lemma lowers_rank : Lowers (Step c) State.rank := by
  intro s l t hstep
  cases hstep with
  | panic hlive hrunning hstage hexec => simp [State.rank, hlive]
  | fail hlive hrunning hstage hexec hroom =>
    simp [State.rank, hrunning, Goroutine.weight, hstage]
    omega
  | load hlive hrunning hstage hexec => simp [State.rank, hrunning, Goroutine.weight, hstage]
  | execute hlive hrunning hstage hroom =>
    simp [State.rank, hrunning, Goroutine.weight, hstage]
    omega
  | receive hlive hphase hchan => simp [State.rank, hphase, hchan, Phase.weight]
  | submit hlive hphase => simp [State.rank, hphase, Phase.weight]

/-- The work ends only when the handler has returned, unless the daemon has crashed. -/
lemma Working.returned_of_atRest (h : Working c id reqs s) (hlive : s.crashed = false)
    (hrest : AtRest (Step c) s) : s.phase = .returned := by
  cases hphase : s.phase with
  | returned => rfl
  | receiving left =>
    exfalso
    obtain ⟨hleft, _⟩ := h.receiving left hphase
    cases hchan : s.reportsChan with
    | cons rep reps =>
      rw [hchan, List.length_cons] at hleft
      rw [hleft] at hphase
      exact hrest _ _ (.receive hlive hphase hchan)
    | nil =>
      cases hrunning : s.running with
      | nil =>
        rw [hrunning, hchan] at hleft
        subst hleft
        exact hrest _ _ (.submit hlive hphase)
      | cons g after =>
        have hrunning' : s.running = [] ++ g :: after := hrunning
        -- the channel is empty, and it can take one raw report at least
        have hroom : s.reportsChan.length < s.chanCap := by
          have hown := h.own g (hrunning ▸ List.mem_cons_self)
          obtain ⟨hlt, _⟩ := List.getElem?_eq_some_iff.mp hown
          rw [hchan, List.length_nil, h.chanCap]
          omega
        cases hstage : g.stage with
        | execute exec => exact hrest _ _ (.execute hlive hrunning' hstage hroom)
        | load =>
          cases hexec : getExecutable c g.idx g.req.dataSourceHash with
          | ok exec => exact hrest _ _ (.load hlive hrunning' hstage hexec)
          | error e =>
            cases e with
            | panic => exact hrest _ _ (.panic hlive hrunning' hstage hexec)
            | error e => exact hrest _ _ (.fail hlive hrunning' hstage hexec hroom)

/-! ## The report -/

/-- The message has one entry for every raw request, with its own result, and passes the checks of
the chain as long as the request `r` is there and has no report of the validator. -/
structure Answers (c : Context) (id : RequestID) (r : Request) (reqs : List RawRequest)
    (m : MsgReportData) : Prop where
  requestID : m.requestID = id
  validator : m.validator = c.validator
  rawReports : m.rawReports.Perm (c.rawReports reqs)
  valid : m.validateBasic = .ok ()
  accepted : ∀ w : World, w.store.requests[id]? = some r →
    w.store.hasReport id c.validator = false →
    ∃ w', (addReport id (m.report w)).run w = .ok () w'

/-- From the state `s` the daemon does not crash, all runs end, and at the end of each it has
submitted one message, which answers the request. -/
structure Reports (c : Context) (id : RequestID) (r : Request) (reqs : List RawRequest)
    (s : State) : Prop where
  live : ∀ ls t, Run (Step c) s ls t → t.crashed = false
  ends : ∃ n, ∀ ls t, Run (Step c) s ls t → ls.length ≤ n
  submits : ∀ ls t, Run (Step c) s ls t → AtRest (Step c) t →
    ∃ m, t.submitted = [m] ∧ Answers c id r reqs m

/-- The executable of a raw request, if there is one, can be logged, and its output fits into a
report. -/
def Context.Serves (c : Context) (idx : ℕ) (req : RawRequest) : Prop :=
  ∀ resValue, c.query idx req.dataSourceHash = .ok resValue → 32 ≤ resValue.cap ∧
    (c.execute idx resValue.bytes req.calldata).1.length ≤ maxRawReportDataSize

lemma Context.Serves.data_le {idx : ℕ} {req : RawRequest} (h : c.Serves idx req) :
    (c.rawReport idx req).data.length ≤ maxRawReportDataSize := by
  rw [Context.rawReport]
  cases hquery : c.query idx req.dataSourceHash with
  | error e =>
    show (Bytes.ascii "FAIL_TO_LOAD_DATA_SOURCE").length ≤ maxRawReportDataSize
    decide +kernel
  | ok resValue => exact (h resValue hquery).2

/-- The raw reports make a valid message if every raw request is served. -/
lemma answers_of_perm {r : Request} {reps : List RawReport} (hne : reqs ≠ [])
    (hids : r.rawRequestIDs = reqs.map RawRequest.externalID)
    (hval : c.validator ∈ r.requestedValidators)
    (hnodup : (reqs.map RawRequest.externalID).Nodup)
    (hserves : ∀ idx req, reqs[idx]? = some req → c.Serves idx req)
    (hperm : reps.Perm (c.rawReports reqs)) :
    Answers c id r reqs ⟨id, reps, c.validator, c.reporter⟩ := by
  have hmap : (reps.map RawReport.externalID).Perm r.rawRequestIDs := by
    rw [hids, ← map_externalID_rawReports (c := c)]
    exact hperm.map _
  refine ⟨rfl, rfl, hperm, MsgReportData.validateBasic_eq_ok.mpr
    ⟨c.validator_length, c.reporter_length, ?_, ?_, ?_⟩, ?_⟩
  · rintro rfl
    refine hne ?_
    simpa [Context.rawReports] using hperm
  · rw [hids] at hmap
    exact hmap.nodup_iff.mpr hnodup
  · intro rep hrep
    obtain ⟨idx, hlt, rfl⟩ := List.mem_mapIdx.mp (hperm.mem_iff.mp hrep)
    exact (hserves idx _ (List.getElem?_eq_getElem hlt)).data_le
  · intro w hr hfresh
    refine ⟨_, addReport_eq_ok.mpr ⟨r, ⟨hr, hval, hasReport_eq_false.mp hfresh, ?_, ?_⟩, rfl⟩⟩
    · rw [← hmap.length_eq, List.length_map]
      rfl
    · intro rep hrep
      exact hmap.mem_iff.mp (List.mem_map_of_mem hrep)

/-- A goroutine that gets a short executable crashes the daemon. -/
lemma exists_crash {idx : ℕ} {req : RawRequest} (hreq : reqs[idx]? = some req)
    (hexec : getExecutable c idx req.dataSourceHash = .error .panic) :
    ∃ ls t, Run (Step c) (.start id reqs) ls t ∧ t.crashed = true := by
  have hmem : (⟨idx, req, .load⟩ : Goroutine) ∈ (State.start id reqs).running := by
    obtain ⟨hlt, rfl⟩ := List.getElem?_eq_some_iff.mp hreq
    exact List.mem_mapIdx.mpr ⟨idx, hlt, rfl⟩
  obtain ⟨before, after, hrunning⟩ := List.append_of_mem hmem
  exact ⟨_, _, .single trivial (.panic rfl hrunning rfl hexec), rfl⟩

/-- Once the goroutines are started, all depends on what the node and the executor answer. -/
lemma reports_start_iff {r : Request} (hids : r.rawRequestIDs = reqs.map RawRequest.externalID)
    (hval : c.validator ∈ r.requestedValidators)
    (hnodup : (reqs.map RawRequest.externalID).Nodup) :
    Reports c id r reqs (.start id reqs) ↔
      reqs ≠ [] ∧ ∀ idx req, reqs[idx]? = some req → c.Serves idx req := by
  constructor
  · intro h
    obtain ⟨ls, t, hrun, hrest⟩ := (lowers_rank (c := c)).exists_atRest (.start id reqs)
    obtain ⟨m, _, hm⟩ := h.submits ls t hrun hrest
    obtain ⟨_, _, hne, _, hdata⟩ := MsgReportData.validateBasic_eq_ok.mp hm.valid
    refine ⟨?_, fun idx req hreq resValue hquery => ⟨?_, ?_⟩⟩
    · rintro rfl
      exact hne (List.perm_nil.mp hm.rawReports)
    · by_contra hcap
      obtain ⟨ls, t, hrun, hcrashed⟩ :
          ∃ ls t, Run (Step c) (.start id reqs) ls t ∧ t.crashed = true :=
        exists_crash hreq
          (getExecutable_eq_panic.mpr ⟨resValue, hquery, Nat.lt_of_not_le hcap⟩)
      rw [h.live ls t hrun] at hcrashed
      cases hcrashed
    · have hdue : c.rawReport idx req ∈ c.rawReports reqs := by
        obtain ⟨hlt, rfl⟩ := List.getElem?_eq_some_iff.mp hreq
        exact List.mem_mapIdx.mpr ⟨idx, hlt, rfl⟩
      have hle := hdata _ (hm.rawReports.mem_iff.mpr hdue)
      rwa [Context.rawReport, hquery] at hle
  · rintro ⟨hne, hserves⟩
    have hlive : ∀ ls t, Run (Step c) (.start id reqs) ls t → t.crashed = false := by
      intro ls t hrun
      rw [← Bool.not_eq_true]
      intro hcrashed
      obtain ⟨idx, req, hreq, hexec⟩ := (working_of_run hrun).crashed hcrashed
      obtain ⟨resValue, hquery, hcap⟩ := getExecutable_eq_panic.mp hexec
      exact Nat.not_le.mpr hcap (hserves idx req hreq resValue hquery).1
    refine ⟨hlive, ⟨_, fun ls t hrun => lowers_rank.length_le hrun⟩, fun ls t hrun hrest => ?_⟩
    have hworking := working_of_run hrun
    obtain ⟨hrunning, hchan, hsubmitted⟩ :=
      hworking.returned (hworking.returned_of_atRest (hlive ls t hrun) hrest)
    have hperm := hworking.perm
    rw [hrunning, hchan, List.map_nil, List.nil_append, List.nil_append] at hperm
    have hanswers : Answers c id r reqs ⟨id, t.reports, c.validator, c.reporter⟩ :=
      answers_of_perm hne hids hval hnodup hserves hperm
    refine ⟨_, ?_, hanswers⟩
    rw [hsubmitted, submitReport_eq_some.mpr ⟨rfl, hanswers.valid⟩]
    rfl

/-- **The report of a request.**  Let the chain have accepted a request, for the validator among
others, whose raw requests have different external identifiers.  The daemon never crashes and
submits one report, complete, correct and acceptable, in whatever order its goroutines finish, if
and only if the request asks for something, every executable that the node returns can be resliced
to 32 bytes, and every output fits into a raw report. -/
theorem handleRequestLog_reports_iff {k : Keeper} {spec : RequestSpec} {ibcInfo : Option IBCInfo}
    {w w' : World} {p : PrepareRecord} {r : Request} {asked : List (DataSource × Oracle.RawRequest)}
    {log : ABCIMessageLog} (h : Asked k spec ibcInfo w p r asked w')
    (hval : c.validator ∈ r.requestedValidators) (hnodup : (asked.map (·.2.externalID)).Nodup)
    (hfit : Fits p.id asked) (hlog : log.Carries c.bech32 (requestEvents p.id r asked)) :
    Reports c p.id r (asked.map rawRequestOf) (handleRequestLog c log) ↔
      asked ≠ [] ∧ ∀ idx a, asked[idx]? = some a → ∀ resValue,
        c.query idx a.1.filename = .ok resValue → 32 ≤ resValue.cap ∧
          (c.execute idx resValue.bytes a.2.calldata).1.length ≤ maxRawReportDataSize := by
  have hids : (asked.map rawRequestOf).map RawRequest.externalID =
      asked.map (·.2.externalID) := by
    rw [List.map_map]
    rfl
  rw [handleRequestLog_eq_start hfit hlog hval, reports_start_iff (by rw [h.rawRequestIDs, hids])
    hval (by rwa [hids])]
  refine and_congr (by simp) (forall_congr' fun idx => ?_)
  constructor
  · intro hserves a ha
    exact hserves (rawRequestOf a) (by rw [List.getElem?_map, ha, Option.map_some])
  · intro hserves req hreq
    rw [List.getElem?_map] at hreq
    obtain ⟨a, ha, rfl⟩ := Option.map_eq_some_iff.mp hreq
    exact hserves a ha

namespace Sample

def spec : RequestSpec := (Oracle.Sample.requestMsg 2 1).toSpec

def prepared : PrepareRecord := ⟨1, spec, none, 16, [.askExternalData 1 1 []], 1590000000⟩

def rawRequest : Oracle.RawRequest := ⟨1, 1, []⟩

/-- The world after the request, and the data source that the request asks. -/
def accepted (w : World) : Option (World × Request × DataSource) :=
  match (prepareRequest Oracle.Sample.keeper spec none).run w with
  | .error _ _ => none
  | .ok _ w' => do
    let r ← w'.store.requests[(1 : ℤ)]?
    let ds ← w'.store.dataSources[(1 : ℤ)]?
    return (w', r, ds)

lemma exists_asked : ∃ w w' r ds,
    Asked Oracle.Sample.keeper spec none w prepared r [(ds, rawRequest)] w' ∧
      Oracle.Sample.alice.operator ∈ r.requestedValidators := by
  obtain ⟨w, _, ⟨w', r, ds⟩, haccepted, hval, hids, htrace⟩ := exists_runWhere
    (f := next Oracle.Sample.keeper) (P := fun _ _ => True) (s := Oracle.Sample.genesis)
    (Oracle.Sample.create Oracle.Sample.askingScript)
    (I := fun w => ∃ x ∈ accepted w, Oracle.Sample.alice.operator ∈ x.2.1.requestedValidators ∧
      x.2.1.rawRequestIDs = [1] ∧ x.1.trace = w.trace ++
        .prepareRequest prepared :: (requestEvents 1 x.2.1 [(x.2.2, rawRequest)]).map .event)
    (by decide +kernel)
  refine ⟨w, w', r, ds, ?_, hval⟩
  rw [Option.mem_def, accepted] at haccepted
  split at haccepted
  · cases haccepted
  · next hrun =>
    simp only [Option.bind_eq_bind, Option.bind_eq_some_iff, Option.pure_def,
      Option.some.injEq, Prod.mk.injEq] at haccepted
    obtain ⟨_, hr, _, hds, rfl, rfl, rfl⟩ := haccepted
    exact ⟨hrun, hr, hids, by simpa [rawRequest] using hds, htrace⟩

/-- The node returns the same value to all queries. -/
def context (resValue : Slice) : Context where
  validator := Oracle.Sample.alice.operator
  validator_length := rfl
  reporter := Oracle.Sample.alice.operator
  reporter_length := rfl
  bech32 a := a
  query _ _ := .ok resValue
  execute _ _ _ := ([7], 0)

/-- The log with the events of the request and nothing else. -/
def logOf (r : Request) (ds : DataSource) : ABCIMessageLog where
  events := (requestEvents prepared.id r [(ds, rawRequest)]).map (Event.toAbci fun a => a)

/-- An executable that is a valid upload, in a slice of its own length. -/
def shortExecutable : Slice := ⟨Bytes.ascii "#!/bin/sh", 9, by decide +kernel⟩

/-- The same with room behind it. -/
def roomyExecutable : Slice := ⟨Bytes.ascii "#!/bin/sh", 32, by decide +kernel⟩

lemma fits (ds : DataSource) : Fits prepared.id [(ds, rawRequest)] := by
  refine ⟨by decide, ?_, ?_⟩ <;> simp [rawRequest, Decimal.FitsInt64]

lemma handleRequestLog_eq (resValue : Slice) {r : Request} (ds : DataSource)
    (hval : Oracle.Sample.alice.operator ∈ r.requestedValidators) :
    handleRequestLog (context resValue) (logOf r ds) =
      .start prepared.id [rawRequestOf (ds, rawRequest)] :=
  handleRequestLog_eq_start (fits ds) (fun _ _ _ => rfl) hval

end Sample

/-- A short executable crashes the daemon. -/
theorem not_reports_shortExecutable : ∃ w w' r ds,
    Asked Oracle.Sample.keeper Sample.spec none w Sample.prepared r [(ds, Sample.rawRequest)] w' ∧
      (Sample.context Sample.shortExecutable).validator ∈ r.requestedValidators ∧
      ¬Reports (Sample.context Sample.shortExecutable) Sample.prepared.id r
        [rawRequestOf (ds, Sample.rawRequest)]
        (handleRequestLog (Sample.context Sample.shortExecutable) (Sample.logOf r ds)) := by
  obtain ⟨w, w', r, ds, hasked, hval⟩ := Sample.exists_asked
  refine ⟨w, w', r, ds, hasked, hval, fun h => ?_⟩
  rw [Sample.handleRequestLog_eq _ ds hval] at h
  obtain ⟨ls, t, hrun, hcrashed⟩ : ∃ ls t, Run (Step (Sample.context Sample.shortExecutable))
      (.start Sample.prepared.id [rawRequestOf (ds, Sample.rawRequest)]) ls t ∧
        t.crashed = true :=
    exists_crash List.getElem?_cons_zero (getExecutable_eq_panic.mpr ⟨_, rfl, by decide⟩)
  rw [h.live ls t hrun] at hcrashed
  cases hcrashed

theorem handleRequestLog_reports_iff_sample : ∃ w w' r ds,
    Asked Oracle.Sample.keeper Sample.spec none w Sample.prepared r [(ds, Sample.rawRequest)] w' ∧
      Reports (Sample.context Sample.roomyExecutable) Sample.prepared.id r
        [rawRequestOf (ds, Sample.rawRequest)]
        (handleRequestLog (Sample.context Sample.roomyExecutable) (Sample.logOf r ds)) := by
  obtain ⟨w, w', r, ds, hasked, hval⟩ := Sample.exists_asked
  refine ⟨w, w', r, ds, hasked, (handleRequestLog_reports_iff hasked hval
    (List.nodup_singleton _) (Sample.fits ds) fun _ _ _ => rfl).mpr
      ⟨by simp, fun idx a _ resValue hquery => ?_⟩⟩
  obtain rfl := Except.ok.inj hquery
  exact ⟨Nat.le_refl _, Nat.le_add_left 1 _⟩

end Bandchain.Oracled
