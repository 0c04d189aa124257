import Bandchain.Oracle.Simulation

/-!
# The end of a block never panics

A panic at the end of a block stops the chain.  From the invariants of the ledger, every
request that the end of a block looks up is stored, and every script it runs is ready.
-/

namespace Bandchain.Oracle

open Exec

/-! ## Work that cannot fail -/

lemma total_handleValidatorReport (k : Keeper) (val : ValAddress) (reported : Bool) :
    Total (handleValidatorReport k val reported) :=
  fun w => ⟨(), _, handleValidatorReport_run k val reported w⟩

lemma updateReportInfos_run (k : Keeper) {w : World} {id : RequestID} {r : Request}
    (hr : w.store.requests[id]? = some r) : ∃ w', (updateReportInfos k id).run w = .ok () w' := by
  have hread : (readStore (·.mustGetRequest id)).run w = .ok r w :=
    readStore_eq_ok.mpr ⟨Store.mustGetRequest_eq_ok.mpr hr, rfl⟩
  obtain ⟨u, w', hloop⟩ := (Total.forM fun val => total_handleValidatorReport k val
    (((w.store.getReports id).map Report.validator).contains val) : Total (forM
      r.requestedValidators fun val => handleValidatorReport k val
        (((w.store.getReports id).map Report.validator).contains val))) w
  refine ⟨w', ?_⟩
  rw [updateReportInfos, run_get_bind, run_bind_of_ok hread]
  exact hloop

/-! ## Resolving all pending requests -/

/-- Requests whose script is ready can all be resolved. -/
lemma resolveAll_run (k : Keeper) (ids : List RequestID) {w : World}
    (h : ∀ id ∈ ids, ∃ r : Request, w.store.requests[id]? = some r ∧ r.oracleScriptID ∈ w.ready) :
    ∃ w', (forM ids fun id => resolveRequest k id).run w = .ok ⟨⟩ w' := by
  induction ids generalizing w with
  | nil => exact ⟨w, rfl⟩
  | cons id ids ih =>
    obtain ⟨r, hr, o, ho, code, hcode⟩ := h id List.mem_cons_self
    obtain ⟨w₁, _, _, _, _, hrun, _, _, hstore, hfiles, _⟩ := resolveRequest_run k hr ho hcode
    have hready : w₁.ready = w.ready := by
      unfold World.ready
      rw [hstore, hfiles]
    obtain ⟨w', hrest⟩ := ih (w := w₁) (by
      intro x hx
      rw [hready, hstore]
      exact h x (List.mem_cons_of_mem _ hx))
    exact ⟨w', (run_bind_of_ok hrun).trans hrest⟩

/-! ## Expiring -/

lemma expireRequest_run (k : Keeper) {w : World} {id : RequestID} {r : Request}
    (hr : w.store.requests[id]? = some r) :
    ∃ w', (expireRequest k id r).run w = .ok () w' ∧ w'.store.requests = w.store.requests := by
  -- the end of the work, from any world that has the same requests
  have hfinish : ∀ w₁ : World, w₁.store.requests = w.store.requests → ∃ w',
      (do updateReportInfos k id; modifyStore fun s => { s with requestLastExpired := some id } :
        OracleM Unit).run w₁ = .ok () w' ∧ w'.store.requests = w.store.requests := by
    intro w₁ hw₁
    obtain ⟨w₂, hw₂⟩ := updateReportInfos_run k (w := w₁) (by rw [hw₁]; exact hr)
    refine ⟨w₂.setRequestLastExpired id, run_bind_of_ok hw₂, ?_⟩
    exact (quiet_of_ok (quiet_updateReportInfos k id) hw₂).requests.trans hw₁
  rw [expireRequest, run_get_bind, run_record_bind]
  split_ifs with hcount
  · let w₀ : World := { w with trace := w.trace ++ [.processExpired id] }
    obtain ⟨w₁, s, cs, hsave, _, _, hstore, _, _⟩ := saveAndRespond_run k (w := w₀) hr .expired []
    obtain ⟨w', hw', hreq⟩ := hfinish w₁ (by rw [hstore])
    refine ⟨w', ?_, hreq⟩
    exact (congrArg (EStateM.run · w₀) (bind_assoc _ _ _)).symm.trans
      ((run_bind_of_ok hsave).trans hw')
  · exact hfinish _ rfl

/-- The loop does not panic while the requests it reaches are stored. -/
lemma processExpiredLoop_run (k : Keeper) (count : ℤ) (n : ℕ) (id : ℤ) {w : World}
    (h : ∀ i : ℤ, id ≤ i → i < id + n → ∃ r, w.store.requests[i]? = some r) :
    ∃ w', (processExpiredLoop k count n id).run w = .ok () w' := by
  induction n generalizing id w with
  | zero => exact ⟨w, rfl⟩
  | succ n ih =>
    obtain ⟨r, hr⟩ := h id le_rfl (by omega)
    have hread : (readStore (·.mustGetRequest id)).run w = .ok r w :=
      readStore_eq_ok.mpr ⟨Store.mustGetRequest_eq_ok.mpr hr, rfl⟩
    rw [processExpiredLoop, run_bind_of_ok hread, run_get_bind]
    split_ifs with hopen
    · exact ⟨w, rfl⟩
    · obtain ⟨w₁, hrun, hreq⟩ := expireRequest_run k hr
      obtain ⟨w', hw'⟩ := ih (id + 1) (w := w₁) (by
        intro i hle hlt
        rw [hreq]
        exact h i (by omega) (by omega))
      exact ⟨w', (run_bind_of_ok hrun).trans hw'⟩

lemma processExpiredRequests_run (k : Keeper) {w : World}
    (h : ∀ i : ℤ, w.store.getRequestLastExpired < i → i ≤ w.store.getRequestCount →
      ∃ r, w.store.requests[i]? = some r) :
    ∃ w', (processExpiredRequests k).run w = .ok () w' := by
  rw [processExpiredRequests, run_get_bind]
  refine processExpiredLoop_run k _ _ _ fun i hle hlt => h i ?_ ?_
  · omega
  · omega

/-! ## The end of a block -/

/-- **No panic.**  With the invariants of the ledger, the end of a block succeeds. -/
theorem handleEndBlock_run (k : Keeper) {w : World} (h : w.ledger.Inv) :
    ∃ w', (handleEndBlock k).run w = .ok () w' := by
  obtain ⟨w₁, hresolve⟩ := resolveAll_run k w.store.getPendingResolveList (w := w) (by
    intro id hid
    obtain ⟨r, hr, _⟩ := h.queued.resolvable id hid
    exact ⟨r, hr, h.stored.ready id r hr⟩)
  -- that changes nothing but the results
  obtain ⟨results, hstore⟩ := store_resolveAll hresolve
  obtain ⟨w', hexpire⟩ := processExpiredRequests_run k (w := w₁.clearPending) (by
    intro i hlt hle
    have h0 : 0 ≤ w.store.getRequestLastExpired := h.stored.lastExpired_nonneg
    change w₁.store.getRequestLastExpired < i at hlt
    change i ≤ w₁.store.getRequestCount at hle
    show ∃ r, w₁.store.requests[i]? = some r
    rw [hstore] at hlt hle ⊢
    exact (h.stored.stored i).mpr ⟨lt_of_le_of_lt h0 hlt, hle⟩)
  refine ⟨w', ?_⟩
  rw [handleEndBlock, run_get_bind, run_bind_of_ok hresolve, run_modifyStore_bind]
  exact hexpire

/-- **The end of a block never panics.**  In every reachable world the requests are those up
to the count, the cursor is among them, and the queue holds, once each, requests with enough
reports whose script exists and has its code on disk; so the end of the block succeeds. -/
theorem endBlock_of_reachable {k : Keeper} {w : World} (h : ReachableWorld k w) :
    (∀ id : ℤ, (∃ r, w.store.requests[id]? = some r) ↔ 1 ≤ id ∧ id ≤ w.store.getRequestCount) ∧
      0 ≤ w.store.getRequestLastExpired ∧
      w.store.getRequestLastExpired ≤ w.store.getRequestCount ∧
      w.store.getPendingResolveList.Nodup ∧
      (∀ id ∈ w.store.getPendingResolveList, ∃ (r : Request) (o : OracleScript),
        w.store.requests[id]? = some r ∧ r.minCount.toNat ≤ w.store.getReportCount id ∧
        w.store.oracleScripts[r.oracleScriptID]? = some o ∧ w.files.Has o.filename) ∧
      ∃ w', (handleEndBlock k).run w = .ok () w' := by
  have hI := (recorded_of_reachable h).toInv
  refine ⟨hI.stored.stored, hI.stored.lastExpired_nonneg, hI.stored.lastExpired_le,
    hI.queued.nodup, fun id hid => ?_, handleEndBlock_run k hI⟩
  obtain ⟨r, hr, _, hmin⟩ := hI.queued.resolvable id hid
  obtain ⟨o, ho, hfile⟩ := hI.stored.ready id r hr
  exact ⟨r, o, hr, hmin, ho, hfile⟩

theorem endBlock_of_reachable_twoReports : ∃ w, ReachableWorld Sample.keeper w ∧
    w.store.getPendingResolveList = [1] ∧
      ∃ w', (handleEndBlock Sample.keeper).run w = .ok () w' := by
  obtain ⟨w, hrun, hpend⟩ := exists_runWhere (f := next Sample.keeper) (P := fun _ _ => True)
    (s := Sample.genesis) Sample.twoReports
    (I := fun w => w.store.getPendingResolveList = [1]) (by decide +kernel)
  have hw : ReachableWorld Sample.keeper w := ⟨_, _, Sample.starts_genesis, hrun⟩
  exact ⟨w, hw, hpend, (endBlock_of_reachable hw).2.2.2.2.2⟩

end Bandchain.Oracle
