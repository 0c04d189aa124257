import Bandchain.Oracle.Expiry
import Bandchain.Oracle.Lifecycle

/-!
# Every request is answered

A request that asks for a report at all is answered, whatever its validators and its script do: at
the latest by the end of the first block in which its time is over.  The answer tells whether
enough of the validators reported.
-/

namespace Bandchain.Oracle

open Exec

/-- The result tells how the request went: it expired with too few reports, or its script was
executed with enough of them. -/
def SaveRecord.Settles (s : SaveRecord) (r : Request) : Prop :=
  s.status = .expired ∧ s.reportCount < r.minCount.toNat ∨
    (s.status = .success ∨ s.status = .failure) ∧ r.minCount.toNat ≤ s.reportCount

namespace Ledger

variable {L L' : Ledger} {a : Act}

/-- Every result that was saved settles its request. -/
def Decided (L : Ledger) : Prop :=
  ∀ s, .saveResult s ∈ L.trace → ∀ r : Request, L.requests[s.id]? = some r → s.Settles r

lemma Fresh.decided (h : L.Fresh) : L.Decided := by
  intro s hs
  rw [h.trace] at hs
  cases hs

lemma not_saveResult_of_isPlain {cs : List Call} (hcs : ∀ c ∈ cs, c.IsPlain) {s : SaveRecord} :
    .saveResult s ∉ cs := fun hs => hcs _ hs

/-- The results saved before a step are still the right ones after it. -/
lemma Decided.extend (h : L.Decided) (hI : L.Recorded) (hst : Step L a L') {cs : List Call}
    (htrace : L'.trace = L.trace ++ cs)
    (hcs : ∀ s, .saveResult s ∈ cs → ∃ r : Request, L.requests[s.id]? = some r ∧ s.Settles r) :
    L'.Decided := by
  intro s hs r' hr'
  obtain ⟨r, hr, hsettles⟩ : ∃ r : Request, L.requests[s.id]? = some r ∧ s.Settles r := by
    rw [htrace] at hs
    rcases List.mem_append.mp hs with hs | hs
    · obtain ⟨r, hr, -⟩ := hI.described.saved s hs
      exact ⟨r, hr, h s hs r hr⟩
    · exact hcs s hs
  obtain rfl := Option.some.inj ((hI.stored.request_stable hst hr).symm.trans hr')
  exact hsettles

lemma settles_outcome {r : Request} {id : RequestID} {n : ℕ} {time exitCode : ℤ} {retdata : Bytes}
    (hn : r.minCount.toNat ≤ n) :
    (r.saveRecord id n time (outcome exitCode retdata).1
      (outcome exitCode retdata).2).Settles r := by
  refine .inr ⟨?_, hn⟩
  show (outcome exitCode retdata).1 = .success ∨ (outcome exitCode retdata).1 = .failure
  unfold outcome
  split_ifs
  · exact .inr rfl
  · exact .inl rfl

lemma Decided.step (h : L.Decided) (hI : L.Recorded) (hst : Step L a L') : L'.Decided := by
  cases a with
  | quiet =>
    cases hst with
    | quiet hsub hcs =>
      refine h.extend hI (.quiet hsub hcs) rfl fun s hs => ?_
      exact absurd hs (not_saveResult_of_isPlain fun c hc => (hcs c hc).isPlain)
  | request p =>
    cases hst with
    | request hid hdesc hready hbound =>
      exact h.extend hI (.request hid hdesc hready hbound) rfl (by simp)
  | report rid rep =>
    obtain ⟨_, _, _, _, _, _, _, ⟨_, _, htrace⟩ | ⟨_, _, htrace⟩⟩ := hst.of_report
    · exact h.extend hI hst htrace (by simp)
    · exact h.extend hI hst htrace (by simp)
  | resolve id =>
    obtain ⟨rest, r, exitCode, retdata, time, cs, s, hpd, hr, hs, hsend, _, _, _, _, _, htrace⟩ :=
      hst.of_resolve
    refine h.extend hI hst htrace fun s' hs' => ?_
    obtain rfl : s' = s := by
      rcases List.mem_cons.mp hs' with hs' | hs'
      · cases hs'
      rcases List.mem_cons.mp hs' with hs' | hs'
      · exact Call.saveResult.inj hs'
      · exact absurd hs' (not_saveResult_of_isPlain (hsend.isPlain_event s.event))
    -- the request was in the queue, so it has enough reports
    obtain ⟨r', hr', -, hmin⟩ := hI.queued.resolvable id (by rw [hpd]; exact List.mem_cons_self)
    obtain rfl := Option.some.inj (hr.symm.trans hr')
    rw [hs]
    exact ⟨r, hr, settles_outcome hmin⟩
  | expire id =>
    obtain ⟨_, _, _, _, _, _, _, _, r, hr, ⟨time, cs, s, hlt, hs, hsend, _, htrace⟩ |
      ⟨_, _, htrace⟩⟩ := hst.of_expire
    · refine h.extend hI hst htrace fun s' hs' => ?_
      obtain rfl : s' = s := by
        rcases List.mem_cons.mp hs' with hs' | hs'
        · cases hs'
        rcases List.mem_cons.mp hs' with hs' | hs'
        · exact Call.saveResult.inj hs'
        · exact absurd hs' (not_saveResult_of_isPlain (hsend.isPlain_event s.event))
      rw [hs]
      exact ⟨r, hr, .inl ⟨rfl, hlt⟩⟩
    · exact h.extend hI hst htrace (by simp)

end Ledger

lemma decided_of_reachable {k : Keeper} {w : World} (h : ReachableWorld k w) :
    w.ledger.Decided := by
  obtain ⟨w₀, ls, h₀, hrun⟩ := h
  have hfresh := fresh_of_starts h₀ rfl
  exact (ledger_invariant (Q := fun _ _ => True) (I := fun L => L.Recorded ∧ L.Decided)
    (fun _ _ _ _ _ _ => trivial) (fun _ hst hI => ⟨hI.1.step hst, hI.2.step hI.1 hst⟩) hrun
    (scriptsBounded_of_starts h₀) ⟨hfresh.recorded, hfresh.decided⟩).2

/-- The cursor never moves back in a run. -/
lemma cursor_le_of_run {k : Keeper} {w w' : World} {ls : List Label} (hw : ReachableWorld k w)
    (h : Run (Step k) w ls w') : w.store.getRequestLastExpired ≤ w'.store.getRequestLastExpired :=
  ledger_invariant (Q := fun _ _ => True)
    (I := fun L => w.store.getRequestLastExpired ≤ L.requestLastExpired)
    (fun _ _ _ _ _ _ => trivial) (fun _ hst hI => hI.trans hst.processes.1) h
    (scriptsBounded_of_reachable hw) le_rfl

/-- **Deadline.**  Take a request, by a message or over a channel, that asks for at least one
report.  After any block that ends when its time is over, it has a result for good, and the result
tells how it went. -/
theorem answered_by_deadline {k : Keeper} {w₁ w₂ w w' v : World} {l : Label}
    {packet : OracleRequestPacketData} {info : Option IBCInfo} {ls ms : List Label}
    (h₁ : ReachableWorld k w₁) (hreq : Requests k w₁ l packet info w₂)
    (hmin : 1 ≤ packet.minCount.toNat) (hrun : Run (Step k) w₂ ls w)
    (hend : Step k w .endBlock w')
    (hfits : ∀ (id : ℤ) (r : Request), w.store.requests[id]? = some r →
      FitsInt64 (w.closingHeight r))
    (hdue : w₁.header.height + w.store.params.expirationBlockCount.toNat ≤ w.header.height)
    (hlater : Run (Step k) w' ms v) :
    ∃ s, .saveResult s ∈ v.trace ∧ s.id = w₁.store.getRequestCount + 1 ∧
      v.store.results[s.id]? = some s.hash ∧
      (s.status = .expired ∧ s.reportCount < packet.minCount.toNat ∨
        (s.status = .success ∨ s.status = .failure) ∧ packet.minCount.toNat ≤ s.reportCount) := by
  obtain ⟨p, r, hprep, -⟩ := hreq.stored
  have hw₂ := h₁.of_run (.single trivial hreq.step)
  have hw := hw₂.of_run hrun
  have hw' := hw.of_run (.single trivial hend)
  have hv := hw'.of_run hlater
  have hr₂ : w₂.store.requests[w₁.store.getRequestCount + 1]? = some r := by
    rw [hprep.quiet.requests]
    exact Table.getElem?_insert_self _ _ _
  have hr := (stable_of_run hw₂ hrun).1 _ _ hr₂
  have hr' := (stable_of_run hw (.single trivial hend)).1 _ _ hr
  have hrv := (stable_of_run hw' hlater).1 _ _ hr'
  have hcount : r.minCount = packet.minCount := by
    rw [hprep.describes.minCount, hprep.spec]
    rfl
  -- the block in which the time is over moves the cursor over the request
  have hpassed : w₁.store.getRequestCount + 1 ≤ w'.store.getRequestLastExpired := by
    by_contra hnot
    obtain ⟨_, _, _, hopen⟩ := endBlock_expires hw hw' (step_endBlock_iff.mp hend) hfits
    have hlt := hopen _ r (not_le.mp hnot) hr'
    rw [World.closingHeight, hprep.height] at hlt
    omega
  have hI := recorded_of_reachable hv
  obtain ⟨x, hx⟩ := hI.queued.passed _ r hrv (hcount ▸ hmin)
    (hpassed.trans (cursor_le_of_run hw' hlater))
  obtain ⟨s, hs, hid, rfl⟩ := hI.described.save_of_result hx
  refine ⟨s, hs, hid, hid ▸ hx, ?_⟩
  have hsettles := decided_of_reachable hv s hs r (hid ▸ hrv)
  rwa [SaveRecord.Settles, hcount] at hsettles

namespace Sample

/-- The rest of the first block, the 19 blocks after it, and the start of one more. -/
def untilDue : List Label :=
  .endBlock :: (List.range 19).flatMap (fun i => [block (i + 2), .endBlock]) ++ [block 21]

/-- Both validators are asked in the first block, and nobody reports. -/
lemma exists_untilDue : ∃ w₁ w₂ w w', ReachableWorld keeper w₁ ∧
    Requests keeper w₁ (.deliver (.requestData (requestMsg 2 1)))
      (requestMsg 2 1).toSpec.toPacket none w₂ ∧
    Run (Step keeper) w₂ untilDue w ∧ Step keeper w .endBlock w' ∧
    (∀ (id : ℤ) (r : Request), w.store.requests[id]? = some r →
      FitsInt64 (w.closingHeight r)) ∧
    w₁.header.height + w.store.params.expirationBlockCount.toNat ≤ w.header.height := by
  obtain ⟨w₁, w₂, w', h₁, hreq, hrun, hcount, hheight, hr, hstart, hwindow, hnow⟩ :=
    exists_run_request_run (k := keeper) (m := requestMsg 2 1) genesis (create askingScript)
      (untilDue ++ [.endBlock])
      (I := fun w₁ w' => w'.store.getRequestCount = 1 ∧ w₁.store.getRequestCount = 0 ∧
        (w'.store.requests[(1 : ℤ)]?.map Request.requestHeight) = some 1 ∧
        w₁.header.height = 1 ∧ w'.store.params.expirationBlockCount.toNat = 20 ∧
        w'.header.height = 21)
      (by decide +kernel)
  have hbasic : (requestMsg 2 1).validateBasic = .ok () := rfl
  have hw₁ : ReachableWorld keeper w₁ := ⟨_, _, starts_genesis, h₁⟩
  have hreq' : Requests keeper w₁ _ _ _ w₂ := .message hbasic hreq
  have hw₂ := hw₁.of_run (.single trivial hreq'.step)
  obtain ⟨w, hw, hend⟩ := hrun.split
  cases hend with
  | cons _ hend hnil =>
    cases hnil
    have hsame := sameSetting_handleEndBlock (step_endBlock_iff.mp hend)
    rw [hsame.params] at hwindow
    rw [hsame.header] at hnow
    refine ⟨w₁, w₂, w, w', hw₁, hreq', hw, hend, fun id r hid => ?_, ?_⟩
    · have hS := (recorded_of_reachable (hw₂.of_run hw)).stored
      have hrange := (hS.stored id).mp ⟨r, hid⟩
      have hle : w.store.getRequestCount = 1 := by
        rw [← hcount, Store.getRequestCount, Store.getRequestCount, hsame.requestCount]
      change 1 ≤ id ∧ id ≤ w.store.getRequestCount at hrange
      obtain rfl : id = 1 := by omega
      rw [hsame.requests, hid] at hr
      have hone : r.requestHeight = 1 := Option.some.inj hr
      rw [World.closingHeight, hone, hwindow]
      exact ⟨by norm_num, by norm_num⟩
    · rw [hstart, hwindow, hnow]
      norm_num

end Sample

theorem answered_by_deadline_sample : ∃ v, ReachableWorld Sample.keeper v ∧
    ∃ s : SaveRecord, .saveResult s ∈ v.trace ∧ v.store.results[s.id]? = some s.hash ∧
      (s.status = .expired ∧ s.reportCount < 1 ∨
        (s.status = .success ∨ s.status = .failure) ∧ 1 ≤ s.reportCount) := by
  obtain ⟨w₁, w₂, w, v, h₁, hreq, hrun, hend, hfits, hdue⟩ := Sample.exists_untilDue
  obtain ⟨s, hs, -, hx, hsettles⟩ := answered_by_deadline h₁ hreq le_rfl hrun hend hfits hdue
    (.nil v)
  have hw := (h₁.of_run (.single trivial hreq.step)).of_run hrun
  exact ⟨v, hw.of_run (.single trivial hend), s, hs, hx, hsettles⟩

end Bandchain.Oracle
