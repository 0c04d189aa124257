import Bandchain.Oracle.Expiry
import Bandchain.Oracle.ReportLog

/-!
# Missed reports

Which checks are made along a run: those of the validators asked for the requests that the
expiry cursor passes, each once and in order.  So there are never so many checks of a validator
that his counter wraps around, and the counters of a run are exact.
-/

namespace Bandchain.Oracle

open Exec

/-! ## Which checks are made -/

/-- The checks of a history, the first one first: the request, the validator, and whether he
reported. -/
def told (t : List Call) : List (RequestID × ValAddress × Bool) :=
  (reportCalls t).reverse.map fun c => (c.request, c.val, c.reported)

/-- The validators asked for a request. -/
def World.requested (w : World) (id : RequestID) : List ValAddress :=
  match w.store.requests[id]? with
  | none => []
  | some r => r.requestedValidators

/-- The checks due when a request expires in a world. -/
def World.checks (w : World) (id : RequestID) : List (RequestID × ValAddress × Bool) :=
  (w.requested id).map fun val =>
    (id, val, ((w.store.getReports id).map Report.validator).contains val)

lemma told_of_log {t u : List Call} (h : reportLog u = reportLog t) : told u = told t := by
  rw [told, told, reportCalls, reportCalls, h]

/-- Checking a list of validators tells them all, in order. -/
lemma told_checkAll {k : Keeper} {reported : ValAddress → Bool} {vals : List ValAddress}
    {w w' : World} {u : PUnit}
    (h : (forM vals fun val => handleValidatorReport k val (reported val)).run w = .ok u w') :
    told w'.trace = told w.trace ++
      vals.map fun val => ((reportLog w.trace).request, val, reported val) := by
  induction vals generalizing w with
  | nil =>
    obtain rfl := (EStateM.Result.ok.inj h).2
    exact (List.append_nil _).symm
  | cons val vals ih =>
    rw [List.forM_cons, run_bind_of_ok (handleValidatorReport_run k val (reported val) w)] at h
    rw [ih h, told, reportCalls, reportLog_afterReport, List.map_cons, List.reverse_cons,
      List.map_append, List.append_assoc]
    rfl

/-- The end of the work on an expired request checks the validators that were asked. -/
lemma told_finishExpire {k : Keeper} {id : RequestID} {r : Request} {w w' : World} {u : Unit}
    (hr : w.store.requests[id]? = some r) (hid : (reportLog w.trace).request = id)
    (h : (do updateReportInfos k id; modifyStore fun s => { s with requestLastExpired := some id } :
      OracleM Unit).run w = .ok u w') : told w'.trace = told w.trace ++ w.checks id := by
  obtain ⟨_, w₁, hinfos, hset⟩ := bind_eq_ok.mp h
  obtain rfl := (EStateM.Result.ok.inj hset).2
  rw [updateReportInfos, run_get_bind, readStore_bind_eq_ok] at hinfos
  obtain ⟨r', hr', hloop⟩ := hinfos
  obtain rfl := Option.some.inj (hr.symm.trans (Store.mustGetRequest_eq_ok.mp hr'))
  have htold := told_checkAll hloop
  rw [hid] at htold
  simp only [World.checks, World.requested, hr]
  exact htold

lemma checks_congr {w w' : World} (hrequests : w'.store.requests = w.store.requests)
    (hreports : w'.store.reports = w.store.reports) : w'.checks = w.checks := by
  funext id
  simp only [World.checks, World.requested, Store.getReports, Store.getReportIterator, hrequests,
    hreports]

lemma told_expireRequest {k : Keeper} {w w' : World} {id : RequestID} {r : Request} {u : Unit}
    (hr : w.store.requests[id]? = some r) (h : (expireRequest k id r).run w = .ok u w') :
    told w'.trace = told w.trace ++ w.checks id := by
  let w₀ : World := w.log [.processExpired id]
  have hlog₀ : reportLog w₀.trace = ⟨id, reportCalls w.trace⟩ := reportLog_append w.trace [_]
  have htold₀ : told w₀.trace = told w.trace := by
    rw [told, reportCalls, hlog₀]
    rfl
  rw [expireRequest, run_get_bind, run_record_bind] at h
  split_ifs at h with hcount
  · obtain ⟨w₁, s, cs, hsave, _, hsend, hstore, _, htrace⟩ :=
      saveAndRespond_run k (w := w₀) hr .expired []
    have hrest := (run_bind_of_ok hsave).symm.trans ((congrArg (EStateM.run · w₀)
      (bind_assoc _ _ _)).trans h)
    have hlog₁ : reportLog w₁.trace = reportLog w₀.trace := by
      rw [htrace]
      refine reportLog_unlogged fun c hc => ?_
      simp only [List.mem_cons] at hc
      rcases hc with rfl | rfl | hc
      · trivial
      · trivial
      · exact hsend.isUnlogged c hc
    have hr₁ : w₁.store.requests[id]? = some r := by
      rw [hstore]
      exact hr
    have htold := told_finishExpire hr₁ (by rw [hlog₁, hlog₀]) hrest
    rw [htold, told_of_log hlog₁, htold₀,
      checks_congr (w := w) (by rw [hstore]; rfl) (by rw [hstore]; rfl)]
  · rw [← htold₀]
    exact told_finishExpire (w := w₀) hr (by rw [hlog₀]) h

lemma told_processExpiredLoop {k : Keeper} {window : ℤ} {n : ℕ} {id : RequestID} {w w' : World}
    {u : Unit} (hid : id = w.store.getRequestLastExpired + 1)
    (h : (processExpiredLoop k window n id).run w = .ok u w') :
    w.store.getRequestLastExpired ≤ w'.store.getRequestLastExpired ∧
      told w'.trace = told w.trace ++ (idsBetween w.store.getRequestLastExpired
        w'.store.getRequestLastExpired).flatMap w.checks := by
  have hsame : ∀ w : World, told w.trace = told w.trace ++ (idsBetween
      w.store.getRequestLastExpired w.store.getRequestLastExpired).flatMap w.checks := by
    intro w
    rw [idsBetween_self, List.flatMap_nil, List.append_nil]
  induction n generalizing w id with
  | zero =>
    obtain rfl := (EStateM.Result.ok.inj h).2
    exact ⟨le_rfl, hsame w⟩
  | succ n ih =>
    obtain ⟨r, hr, ⟨_, rfl⟩ | ⟨_, _, w₁, hexpire, hloop⟩⟩ := processExpiredLoop_succ_eq_ok h
    · exact ⟨le_rfl, hsame _⟩
    · have hcursor := cursor_expireRequest hexpire
      have hset := sameSetting_expireRequest hexpire
      obtain ⟨hle, htold⟩ := ih (by rw [hcursor]) hloop
      rw [hcursor, hid] at hle
      have hstep : w.store.getRequestLastExpired ≤ w.store.getRequestLastExpired + 1 :=
        Int.le_add_one le_rfl
      refine ⟨hstep.trans hle, ?_⟩
      rw [htold, told_expireRequest hr hexpire, hcursor, checks_congr hset.requests hset.reports,
        hid, idsBetween_append hstep hle, idsBetween_succ, List.flatMap_append,
        List.flatMap_singleton, List.append_assoc]

/-- Resolving checks nobody. -/
lemma reportLog_resolveAll {k : Keeper} {ids : List RequestID} {w w' : World} {u : PUnit}
    (h : (forM ids fun id => resolveRequest k id).run w = .ok u w') :
    reportLog w'.trace = reportLog w.trace := by
  induction ids generalizing w with
  | nil =>
    obtain rfl := (EStateM.Result.ok.inj h).2
    rfl
  | cons id ids ih =>
    rw [List.forM_cons] at h
    obtain ⟨_, w₁, hid, hids⟩ := bind_eq_ok.mp h
    obtain ⟨r, o, code, hr, ho, hcode⟩ := resolveRequest_inv hid
    obtain ⟨w₂, exitCode, retdata, s, cs, hrun, _, hsend, _, _, htrace⟩ :=
      resolveRequest_run k hr ho hcode
    obtain rfl : w₁ = w₂ := (EStateM.Result.ok.inj (hid.symm.trans hrun)).2
    rw [ih hids, htrace]
    refine reportLog_unlogged fun c hc => ?_
    simp only [List.mem_cons] at hc
    rcases hc with rfl | rfl | rfl | hc
    · trivial
    · trivial
    · trivial
    · exact hsend.isUnlogged c hc

/-- The end of a block checks the validators of the requests that the cursor passes. -/
lemma told_handleEndBlock {k : Keeper} {w w' : World} {u : Unit}
    (h : (handleEndBlock k).run w = .ok u w') :
    told w'.trace = told w.trace ++ (idsBetween w.store.getRequestLastExpired
      w'.store.getRequestLastExpired).flatMap w.checks := by
  rw [handleEndBlock, run_get_bind] at h
  obtain ⟨_, w₁, hresolve, h⟩ := bind_eq_ok.mp h
  rw [run_modifyStore_bind, processExpiredRequests, run_get_bind] at h
  obtain ⟨results, hstore⟩ := store_resolveAll hresolve
  have htold := (told_processExpiredLoop rfl h).2
  have hcursor : w₁.store.getRequestLastExpired = w.store.getRequestLastExpired := by
    rw [hstore]
    rfl
  have hchecks : w₁.checks = w.checks := checks_congr (by rw [hstore]) (by rw [hstore])
  change told w'.trace = told w₁.trace ++ (idsBetween w₁.store.getRequestLastExpired
      w'.store.getRequestLastExpired).flatMap w₁.checks at htold
  rw [htold, hcursor, hchecks, told_of_log (reportLog_resolveAll hresolve)]

lemma Call.IsEvent.isUnlogged {c : Call} (h : c.IsEvent) : c.IsUnlogged := by
  cases c <;> first | exact h.elim | trivial

/-- A step is the end of a block, or it checks nobody. -/
lemma step_unchecked {k : Keeper} {w w' : World} {l : Label} (h : Step k w l w') :
    l = .endBlock ∧ (handleEndBlock k).run w = .ok () w' ∨
      w'.store.reportInfos = w.store.reportInfos ∧
      w'.store.requestLastExpired = w.store.requestLastExpired ∧
      ∃ cs, w'.trace = w.trace ++ cs ∧ ∀ c ∈ cs, c.IsUnlogged := by
  cases step_turn h with
  | aside haside =>
    obtain ⟨cs, htrace, hcs⟩ := haside.trace
    exact .inr ⟨haside.reportInfos, haside.requestLastExpired, cs, htrace,
      fun c hc => (hcs c hc).isUnlogged⟩
  | @request _ _ _ _ p r _ hprep =>
    obtain ⟨cs, rfl, hcs⟩ := hprep.logs
    refine .inr ⟨rfl, rfl, .prepareRequest p :: cs, List.append_assoc _ [_] _, ?_⟩
    rintro c (_ | ⟨_, hc⟩)
    · trivial
    · exact (hcs c hc).isUnlogged
  | @report m r _ _ _ _ hlogs =>
    obtain ⟨cs, rfl, hcs⟩ := hlogs
    unfold World.acceptReport
    split_ifs
    · refine .inr ⟨rfl, rfl, .setReport m.requestID (m.report w).validator ::
        .addPendingRequest m.requestID :: cs, ?_, ?_⟩
      · simp [World.log, World.addPendingRequest, World.setReport]
      rintro c (_ | ⟨_, _ | ⟨_, hc⟩⟩)
      · trivial
      · trivial
      · exact (hcs c hc).isUnlogged
    · refine .inr ⟨rfl, rfl, .setReport m.requestID (m.report w).validator :: cs,
        List.append_assoc _ [_] _, ?_⟩
      rintro c (_ | ⟨_, hc⟩)
      · trivial
      · exact (hcs c hc).isUnlogged
  | endBlock hrun => exact .inl ⟨rfl, hrun⟩

/-- **The checks of a step** are those of the requests that the cursor passes. -/
lemma told_step {k : Keeper} {w w' : World} {l : Label} (h : Step k w l w') :
    told w'.trace = told w.trace ++ (idsBetween w.store.getRequestLastExpired
      w'.store.getRequestLastExpired).flatMap w.checks := by
  rcases step_unchecked h with ⟨rfl, hrun⟩ | ⟨_, hcursor, cs, htrace, hcs⟩
  · exact told_handleEndBlock hrun
  · rw [Store.getRequestLastExpired, Store.getRequestLastExpired, hcursor, idsBetween_self,
      List.flatMap_nil, List.append_nil, htrace, told_of_log (reportLog_unlogged hcs)]

lemma counts_step {k : Keeper} {w w' : World} {l : Label} {max : UInt64} (h : Step k w l w')
    (hmax : l = .endBlock → w.store.params.maxConsecutiveMisses = max) (hw : w.Counts max) :
    w'.Counts max := by
  rcases step_unchecked h with ⟨rfl, hrun⟩ | ⟨hinfos, _, cs, htrace, hcs⟩
  · have hkeeps := (endBlockKeeps_counts k max).exits_handleEndBlock w
    rw [ExitsAt, hrun] at hkeeps
    exact (hkeeps ⟨hmax rfl, hw⟩).2
  · exact hw.of_unlogged hinfos htrace hcs

/-! ## Every check once -/

/-- The validators asked for a request are different. -/
def World.Distinct (w : World) : Prop := ∀ id, (w.requested id).Nodup

lemma requested_congr {w w' : World} (h : w'.store.requests = w.store.requests) :
    w'.requested = w.requested := by
  funext id
  rw [World.requested, h]
  rfl

lemma distinct_step {k : Keeper} {w w' : World} {l : Label} (h : Step k w l w')
    (hbonded : (w.staking.bonded.map Validator.operator).Nodup) (hw : w.Distinct) :
    w'.Distinct := by
  cases step_turn h with
  | aside haside =>
    intro id
    rw [requested_congr haside.requests]
    exact hw id
  | @request _ _ _ _ p r _ hprep =>
    obtain ⟨cs, rfl, _⟩ := hprep.logs
    intro id
    by_cases hid : w.store.getRequestCount + 1 = id
    · have hr : (w.addRequest p r).store.requests[id]? = some r := by
        rw [← hid]
        exact Table.getElem?_insert_self _ _ _
      simp only [World.requested, World.log, hr]
      exact hprep.nodup hbonded
    · have hold : (w.addRequest p r).store.requests[id]? = w.store.requests[id]? :=
        Table.getElem?_insert_ne _ _ hid
      simp only [World.requested, World.log, hold]
      exact hw id
  | report _ _ _ hlogs =>
    obtain ⟨cs, rfl, _⟩ := hlogs
    unfold World.acceptReport
    split_ifs <;> exact hw
  | endBlock hrun =>
    intro id
    rw [requested_congr (sameSetting_handleEndBlock hrun).requests]
    exact hw id

/-- The pairs of a request and a validator to check while the cursor moves. -/
def World.pairs (w : World) (a b : ℤ) : List (RequestID × ValAddress) :=
  (idsBetween a b).flatMap fun id => (w.requested id).map (Prod.mk id)

/-- The pairs of a request and a validator that were checked, the first one first. -/
def checkedPairs (t : List Call) : List (RequestID × ValAddress) :=
  (told t).map fun c => (c.1, c.2.1)

lemma map_checks (w : World) (a b : ℤ) :
    ((idsBetween a b).flatMap w.checks).map (fun c => (c.1, c.2.1)) = w.pairs a b := by
  rw [List.map_flatMap, World.pairs]
  refine List.flatMap_congr fun id _ => ?_
  rw [World.checks, List.map_map]
  rfl

/-- The requests up to the cursor keep their validators. -/
lemma requested_stable {k : Keeper} {w w' : World} {l : Label} (hw : ReachableWorld k w)
    (h : Step k w l w') {id : ℤ} (hpos : 0 < id) (hid : id ≤ w'.store.getRequestLastExpired) :
    w'.requested id = w.requested id := by
  rcases step_unchecked h with ⟨_, hrun⟩ | ⟨_, hcursor, _⟩
  · rw [requested_congr (sameSetting_handleEndBlock hrun).requests]
  · have hS := (recorded_of_reachable hw).stored
    have hle : w'.store.getRequestLastExpired ≤ w.store.getRequestCount := by
      rw [Store.getRequestLastExpired, hcursor]
      exact hS.lastExpired_le
    obtain ⟨r, hr⟩ := (hS.stored id).mpr ⟨hpos, hid.trans hle⟩
    have hr' := (stable_of_run hw (.single trivial h)).1 id r hr
    change w.store.requests[id]? = some r at hr
    simp only [World.requested, hr, hr']

/-- **Every check in order.**  The checks of a run are those of the requests up to the cursor. -/
lemma checkedPairs_of_run {k : Keeper} {w₀ w : World} {ls : List Label}
    (h₀ : Starts defaultGenesisState w₀) (hrun : Run (Step k) w₀ ls w) :
    checkedPairs w.trace = w.pairs 0 w.store.getRequestLastExpired := by
  have hI : ReachableWorld k w ∧
      checkedPairs w.trace = w.pairs 0 w.store.getRequestLastExpired := by
    refine hrun.invariant (I := fun w => ReachableWorld k w ∧
      checkedPairs w.trace = w.pairs 0 w.store.getRequestLastExpired) ?_ ⟨.of_init h₀, ?_⟩
    · rintro w l w' - hst ⟨hw, hpairs⟩
      have hle := cursor_le_of_step (scriptsBounded_of_reachable hw) hst
      have h0 : 0 ≤ w.store.getRequestLastExpired :=
        (recorded_of_reachable hw).stored.lastExpired_nonneg
      refine ⟨hw.of_run (.single trivial hst), ?_⟩
      have hsame : w'.pairs 0 w'.store.getRequestLastExpired =
          w.pairs 0 w'.store.getRequestLastExpired := by
        refine List.flatMap_congr fun id hid => ?_
        obtain ⟨hpos, hid⟩ := mem_idsBetween.mp hid
        rw [requested_stable hw hst hpos hid]
      rw [hsame, World.pairs, idsBetween_append h0 hle, List.flatMap_append, checkedPairs,
        told_step hst, List.map_append, map_checks]
      exact congrArg (· ++ _) hpairs
    · have hfresh := fresh_of_starts h₀ rfl
      have hcursor : w₀.store.getRequestLastExpired = 0 := hfresh.requestLastExpired
      rw [hcursor, World.pairs, idsBetween_self, h₀.2]
      rfl
  exact hI.2

lemma nodup_idsBetween (a b : ℤ) : (idsBetween a b).Nodup := by
  refine List.nodup_range.map fun i j hij => ?_
  simpa using hij

lemma nodup_pairs {w : World} (hw : w.Distinct) (a b : ℤ) : (w.pairs a b).Nodup := by
  rw [World.pairs, List.nodup_flatMap]
  refine ⟨fun id _ => (hw id).map (Prod.mk_right_injective id), ?_⟩
  refine (nodup_idsBetween a b).imp fun hne => ?_
  rw [Function.onFun, List.disjoint_left]
  rintro ⟨id, v⟩ hx hy
  obtain ⟨_, _, hx⟩ := List.mem_map.mp hx
  obtain ⟨_, _, hy⟩ := List.mem_map.mp hy
  exact hne ((Prod.mk.inj hx).1.trans (Prod.mk.inj hy).1.symm)

/-- A validator is checked at most once for each request up to the cursor. -/
lemma length_calls_le {w : World} (hw : w.Distinct)
    (hpairs : checkedPairs w.trace = w.pairs 0 w.store.getRequestLastExpired) (val : ValAddress) :
    ((reportCalls w.trace).filter fun c => c.val = val).length ≤
      w.store.getRequestLastExpired.toNat := by
  have hnodup : (checkedPairs w.trace).Nodup := by
    rw [hpairs]
    exact nodup_pairs hw _ _
  have hfilter : ((checkedPairs w.trace).filter fun p => p.2 = val).length =
      ((reportCalls w.trace).filter fun c => c.val = val).length := by
    rw [checkedPairs, told, List.map_map, List.map_reverse, List.filter_reverse,
      List.length_reverse, List.filter_map, List.length_map]
    rfl
  -- the requests of these checks are different, and the cursor has passed them
  have hids : (((checkedPairs w.trace).filter fun p => p.2 = val).map Prod.fst).Nodup := by
    refine List.Nodup.map_on ?_ (hnodup.filter _)
    rintro ⟨i, v⟩ hx ⟨j, v'⟩ hy (rfl : i = j)
    have hv := (List.mem_filter.mp hx).2
    have hv' := (List.mem_filter.mp hy).2
    simp only [decide_eq_true_eq] at hv hv'
    rw [hv, hv']
  have hsub : ((checkedPairs w.trace).filter fun p => p.2 = val).map Prod.fst ⊆
      idsBetween 0 w.store.getRequestLastExpired := by
    intro i hi
    obtain ⟨p, hp, rfl⟩ := List.mem_map.mp hi
    have hmem := (List.mem_filter.mp hp).1
    rw [hpairs] at hmem
    obtain ⟨id, hid, hp⟩ := List.mem_flatMap.mp hmem
    obtain ⟨_, _, rfl⟩ := List.mem_map.mp hp
    exact hid
  have hlen := (List.subperm_of_subset hids hsub).length_le
  rw [List.length_map, hfilter, idsBetween, List.length_map, List.length_range] at hlen
  simpa using hlen

/-! ## All runs -/

/-- A stored report is one of the reports that the iteration visits. -/
lemma contains_validator {w : World} (hR : w.ledger.Reported) (id : RequestID) (val : ValAddress) :
    ((w.store.getReports id).map Report.validator).contains val = w.store.hasReport id val := by
  rw [Bool.eq_iff_iff, List.contains_iff_mem, Store.hasReport,
    Std.ExtTreeMap.contains_eq_isSome_getElem?, Option.isSome_iff_exists]
  simp only [Store.getReports, Store.getReportIterator, List.map_map, List.mem_map,
    Function.comp_apply]
  constructor
  · rintro ⟨⟨key, rep⟩, hentry, rfl⟩
    obtain ⟨rfl, _⟩ := hR.entry hentry
    exact ⟨rep, (Table.mem_entriesWhere.mp hentry).1⟩
  · rintro ⟨rep, hrep⟩
    obtain ⟨_, _, hval, _⟩ := hR id val rep hrep
    exact ⟨(toLex (id, val), rep), Table.mem_entriesWhere.mpr ⟨hrep, by simp⟩, hval⟩

/-- What is checked: in the run so far, every validator asked for an expired request, once and
in the order of the requests; in the next step, with the reports stored before it. -/
structure ChecksValidators (k : Keeper) (w : World) : Prop where
  pairs : checkedPairs w.trace = w.pairs 0 w.store.getRequestLastExpired
  once : (checkedPairs w.trace).Nodup
  reported : ∀ l w', Step k w l w' → told w'.trace = told w.trace ++
    (idsBetween w.store.getRequestLastExpired w'.store.getRequestLastExpired).flatMap fun id =>
      (w.requested id).map fun val => (id, val, w.store.hasReport id val)

/-- How misses are counted: the counter of a validator is the number of his misses since it was
last set back, at most `m`; a call jails if it is a miss on top of `m`, and then the validator
was found and was not jailed; and nobody is jailed otherwise. -/
structure CountsMisses (m : UInt64) (w : World) : Prop where
  missed : ∀ val, (w.store.getValidatorReportInfoWithDefault val).consecutiveMissed.toNat =
    missedSince val (reportCalls w.trace)
  le : ∀ val, (w.store.getValidatorReportInfoWithDefault val).consecutiveMissed ≤ m
  jails : ∀ newer c older, reportCalls w.trace = newer ++ c :: older →
    (c.jails.isSome = true ↔ c.misses = true ∧ missedSince c.val older = m.toNat)
  notJailed : ∀ c ∈ reportCalls w.trace, ∀ consAddr, c.jails = some consAddr →
    c.found = some (consAddr, false)
  jailed : jailed w.trace = (reportCalls w.trace).reverse.filterMap ReportCall.jails

/-- The maximum that the end of a block reads. -/
def MaxMisses (m : UInt64) (w : World) : Label → Prop
  | .endBlock => w.store.params.maxConsecutiveMisses = m
  | _ => True

instance (m : UInt64) (w : World) : (l : Label) → Decidable (MaxMisses m w l)
  | .endBlock => inferInstanceAs (Decidable (w.store.params.maxConsecutiveMisses = m))
  | .beginBlock _ | .deliver _ | .writeFile _ | .updateParams _ | .updateStaking _
  | .updateChannels _ => .isTrue trivial

lemma counts_of_run {k : Keeper} {w₀ w : World} {ls : List Label} {m : UInt64}
    (h₀ : Starts defaultGenesisState w₀) (hrun : RunWhere (Step k) (MaxMisses m) w₀ ls w) :
    w.Counts m := by
  refine hrun.invariant (I := World.Counts m) ?_ ?_
  · intro w l w' hmax hst hw
    refine counts_step hst ?_ hw
    rintro rfl
    exact hmax
  · refine ⟨fun val => ?_, ?_, ?_⟩
    · rw [Store.getValidatorReportInfoWithDefault, h₀.1, h₀.2]
      rfl
    · rw [h₀.2]
      trivial
    · rw [h₀.2]
      rfl

lemma World.Counts.countsMisses {m : UInt64} {w : World} (h : w.Counts m)
    (hshort : Short (reportCalls w.trace)) : CountsMisses m w := by
  have hmissed : ∀ val, (w.store.getValidatorReportInfoWithDefault val).consecutiveMissed.toNat =
      missedSince val (reportCalls w.trace) := by
    intro val
    rw [h.missed val]
    exact toNat_ofNat_of_lt ((missedSince_le_length _ _).trans_lt (hshort val))
  refine ⟨hmissed, fun val => ?_, fun newer c older hsplit => ?_, fun c hc => ?_, h.jailed⟩
  · rw [UInt64.le_iff_toNat_le, hmissed]
    exact h.judged.missedSince_le hshort val
  · have hjudged := h.judged
    rw [hsplit] at hshort hjudged
    exact (hjudged.of_append newer).jails_iff (hshort.of_append newer)
  · obtain ⟨newer, older, hsplit⟩ := List.append_of_mem hc
    have hjudged := h.judged
    rw [hsplit] at hjudged
    exact (hjudged.of_append newer).2.1

lemma distinct_of_run {k : Keeper} {w₀ w : World} {ls : List Label}
    (h₀ : Starts defaultGenesisState w₀) (hrun : RunWhere (Step k)
      (fun w _ => (w.staking.bonded.map Validator.operator).Nodup) w₀ ls w) : w.Distinct := by
  refine hrun.invariant (I := World.Distinct) ?_ ?_
  · intro w l w' hbonded hst hw
    exact distinct_step hst hbonded hw
  · intro id
    have hnone : w₀.store.requests[id]? = none := by
      rw [h₀.1, (fresh_initGenesis _).requests]
      simp
    simp only [World.requested, hnone]
    exact List.nodup_nil

/-- **Missed reports.**  In every run in which the bonded validators are different ones, every
validator asked for an expired request is checked once, in the order of the requests.  If the
maximum of consecutive misses is the same at every end of a block, the counters count the
misses, and jail when there is one too many. -/
theorem infractions_of_run {k : Keeper} {w₀ w : World} {ls : List Label}
    (h₀ : Starts defaultGenesisState w₀) (hrun : RunWhere (Step k)
      (fun w _ => (w.staking.bonded.map Validator.operator).Nodup) w₀ ls w) :
    ChecksValidators k w ∧ ∀ m : UInt64, RunWhere (Step k) (MaxMisses m) w₀ ls w →
      FitsInt64 w.store.getRequestCount → CountsMisses m w := by
  have hw : ReachableWorld k w := ⟨w₀, ls, h₀, hrun.run⟩
  have hrec := recorded_of_reachable hw
  have hdistinct := distinct_of_run h₀ hrun
  have hpairs := checkedPairs_of_run h₀ hrun.run
  refine ⟨⟨hpairs, ?_, fun l w' hst => ?_⟩, fun m hmax hfits => ?_⟩
  · rw [hpairs]
    exact nodup_pairs hdistinct _ _
  · rw [told_step hst]
    congr 1
    refine List.flatMap_congr fun id _ => ?_
    rw [World.checks]
    simp only [contains_validator hrec.reported]
  · refine (counts_of_run h₀ hmax).countsMisses fun val => ?_
    have hlen := length_calls_le hdistinct hpairs val
    have hle : w.store.getRequestLastExpired ≤ w.store.getRequestCount := hrec.stored.lastExpired_le
    have hlt := hle.trans_lt hfits.2
    omega

namespace Sample

/-- With one miss allowed, both validators are asked twice; Alice reports once, and Bob does
not report. -/
def twoMisses : List Label :=
  create askingScript ++
    [.updateParams { defaultParams with expirationBlockCount := 1, maxConsecutiveMisses := 1 },
     .deliver (.requestData (requestMsg 2 2)), .deliver (.reportData (reportMsg alice)), .endBlock,
     block 2, .deliver (.requestData (requestMsg 2 2)), .endBlock, block 3, .endBlock]

end Sample

theorem infractions_of_run_twoMisses : ∃ w, Run (Step Sample.keeper) Sample.genesis
      Sample.twoMisses w ∧
    ChecksValidators Sample.keeper w ∧ CountsMisses 1 w ∧ (checkedPairs w.trace).length = 4 ∧
    (w.store.getValidatorReportInfoWithDefault Sample.alice.operator).consecutiveMissed = 1 ∧
    (w.store.getValidatorReportInfoWithDefault Sample.bob.operator).consecutiveMissed = 0 ∧
    jailed w.trace = [Sample.bob.consAddr] := by
  obtain ⟨w, hrun, hcount, hlen, halice, hbob, hjailed⟩ := exists_runWhere
    (f := next Sample.keeper) (P := fun w l =>
      (w.staking.bonded.map Validator.operator).Nodup ∧ MaxMisses 1 w l)
    (s := Sample.genesis) Sample.twoMisses
    (I := fun w => w.store.getRequestCount = 2 ∧ (checkedPairs w.trace).length = 4 ∧
      (w.store.getValidatorReportInfoWithDefault Sample.alice.operator).consecutiveMissed = 1 ∧
      (w.store.getValidatorReportInfoWithDefault Sample.bob.operator).consecutiveMissed = 0 ∧
      jailed w.trace = [Sample.bob.consAddr]) (by decide +kernel)
  obtain ⟨hchecks, hcounts⟩ := infractions_of_run Sample.starts_genesis
    (hrun.imp fun _ _ h => h.1)
  refine ⟨w, hrun.run, hchecks, hcounts 1 (hrun.imp fun _ _ h => h.2) ?_, hlen, halice, hbob,
    hjailed⟩
  rw [hcount, FitsInt64]
  omega

end Bandchain.Oracle
