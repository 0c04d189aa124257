import Bandchain.Oracle.EndBlock

/-!
# Restarting from an exported state

The export of a state keeps the results, and the import counts them as requests; but neither
the requests nor the expiry cursor come along.  The first end of a block after the restart
looks for the first request, and panics if there should be one.
-/

namespace Bandchain.Oracle

open Exec

/-- A request that the expiry loop should find and does not. -/
lemma handleEndBlock_of_missing (k : Keeper) {w : World}
    (hpend : w.store.getPendingResolveList = [])
    (hlt : w.store.getRequestLastExpired < w.store.getRequestCount)
    (hnone : w.store.requests[w.store.getRequestLastExpired + 1]? = none) :
    ∃ w', (handleEndBlock k).run w = .error (.panic "request not found") w' := by
  obtain ⟨n, hn⟩ : ∃ n, (w.store.getRequestCount + 1 -
      (w.store.getRequestLastExpired + 1)).toNat = n + 1 :=
    Nat.exists_eq_succ_of_ne_zero (by omega)
  have hmust : w.clearPending.store.mustGetRequest (w.store.getRequestLastExpired + 1) =
      .error (.panic "request not found") := by
    simp only [Store.mustGetRequest, Store.getRequest, World.clearPending, hnone]
  refine ⟨w.clearPending, ?_⟩
  have hloop : (processExpiredLoop k (toInt64 w.store.params.expirationBlockCount.toNat) (n + 1)
      (w.store.getRequestLastExpired + 1)).run w.clearPending =
      .error (.panic "request not found") w.clearPending :=
    bind_eq_error.mpr (.inl (readStore_eq_error.mpr ⟨hmust, rfl⟩))
  rw [handleEndBlock, run_get_bind, hpend, List.forM_nil, run_bind_of_ok (run_pure _),
    run_modifyStore_bind, processExpiredRequests, run_get_bind]
  rw [← hn] at hloop
  exact hloop

/-- In every run from the genesis state, the end of a block succeeds, and every request that
has not expired is stored. -/
def RestartsSafely (k : Keeper) (data : GenesisState) : Prop :=
  ∀ w₀ ls w, Starts data w₀ → Run (Step k) w₀ ls w →
    (∃ w', (handleEndBlock k).run w = .ok () w') ∧
      ∀ id : ℤ, w.store.getRequestLastExpired < id → id ≤ w.store.getRequestCount →
        ∃ r, w.store.requests[id]? = some r

lemma restartsSafely_of_no_results {k : Keeper} {data : GenesisState} (h : data.results = []) :
    RestartsSafely k data := by
  intro w₀ ls w h₀ hrun
  have hI := (recorded_of_run h₀ h hrun).toInv
  refine ⟨handleEndBlock_run k hI, fun id hlt hle => (hI.stored.stored id).mpr ⟨?_, hle⟩⟩
  have h0 : 0 ≤ w.store.getRequestLastExpired := hI.stored.lastExpired_nonneg
  omega

/-- With results to import, the first end of a block panics. -/
lemma handleEndBlock_of_results (k : Keeper) {data : GenesisState} (h : data.results ≠ [])
    {w : World} (hw : Starts data w) :
    ∃ w', (handleEndBlock k).run w = .error (.panic "request not found") w' := by
  have hfresh := fresh_initGenesis data
  have hcount := requestCount_initGenesis data
  rw [← hw.1] at hfresh hcount
  have hcursor : w.store.getRequestLastExpired = 0 := by
    rw [Store.getRequestLastExpired, hfresh.requestLastExpired]
    rfl
  refine handleEndBlock_of_missing k ?_ ?_ ?_
  · rw [Store.getPendingResolveList, hfresh.pendingResolveList]
    rfl
  · rw [hcursor, Store.getRequestCount, hcount]
    exact Int.natCast_pos.mpr (List.length_pos_iff.mpr h)
  · rw [hfresh.requests]
    simp

lemma not_restartsSafely_of_results (k : Keeper) {data : GenesisState} (h : data.results ≠ []) :
    ¬RestartsSafely k data := by
  intro hsafe
  let w : World := { Sample.genesis with store := initGenesis data }
  have hw : Starts data w := ⟨rfl, rfl⟩
  obtain ⟨⟨w', hok⟩, _⟩ := hsafe w [] w hw (.nil w)
  obtain ⟨w'', herr⟩ := handleEndBlock_of_results k h hw
  exact absurd (hok.symm.trans herr) (by simp)

/-- **Restart.**  A chain restarts safely from an exported state exactly if no result was
stored. -/
theorem restartsSafely_iff (k : Keeper) (s : Store) :
    RestartsSafely k (exportGenesis s) ↔ s.results = ∅ := by
  rw [← exportGenesis_results_eq_nil_iff]
  constructor
  · intro hsafe
    by_contra hne
    exact not_restartsSafely_of_results k hne hsafe
  · exact restartsSafely_of_no_results

/-- The state after one request was resolved does not restart. -/
theorem not_restartsSafely_resolved : ∃ s, ReachableWorld Sample.keeper s ∧
    s.store.hasResult 1 = true ∧ ¬RestartsSafely Sample.keeper (exportGenesis s.store) ∧
    ∀ w, Starts (exportGenesis s.store) w →
      ∃ w', (handleEndBlock Sample.keeper).run w = .error (.panic "request not found") w' := by
  obtain ⟨s, hrun, hres, hne⟩ := exists_runWhere (f := next Sample.keeper) (P := fun _ _ => True)
    (s := Sample.genesis) (Sample.twoReports ++ [.endBlock])
    (I := fun s => s.store.hasResult 1 = true ∧ (exportGenesis s.store).results ≠ [])
    (by decide +kernel)
  exact ⟨s, ⟨_, _, Sample.starts_genesis, hrun⟩, hres, not_restartsSafely_of_results _ hne,
    fun w hw => handleEndBlock_of_results _ hne hw⟩

end Bandchain.Oracle
