import Bandchain.Oracle.Ledger

/-!
# Invariants of the ledger

The facts about the requests, their reports and the queue that every step of the ledger
keeps.  They are grouped by the part of the ledger they are about; each group rests on the
ones before it.
-/

namespace Bandchain.Oracle
namespace Ledger

variable {L L' : Ledger} {a : Act}

/-- The ledger of a chain that has not seen a request. -/
structure Fresh (L : Ledger) : Prop where
  requestCount : L.requestCount = 0
  requestLastExpired : L.requestLastExpired = 0
  pending : L.pending = []
  requests : L.requests = ∅
  reports : L.reports = ∅
  results : L.results = ∅
  trace : L.trace = []

/-! ## Counting reports -/

lemma reportCount_congr (h : L'.reports = L.reports) (id : RequestID) :
    L'.reportCount id = L.reportCount id := by
  rw [reportCount, reportCount, h]

lemma reportCount_insert_self {rid : RequestID} {v : ValAddress} {rep : Report}
    (h : L'.reports = L.reports.insert (toLex (rid, v)) rep)
    (hfresh : L.reports[toLex (rid, v)]? = none) :
    L'.reportCount rid = L.reportCount rid + 1 := by
  rw [reportCount, reportCount, h]
  exact Table.length_entriesWhere_insert hfresh (by simp)

lemma reportCount_insert_ne {rid id : RequestID} {v : ValAddress} {rep : Report}
    (h : L'.reports = L.reports.insert (toLex (rid, v)) rep) (hne : rid ≠ id) :
    L'.reportCount id = L.reportCount id := by
  rw [reportCount, reportCount, h]
  exact (Table.perm_entriesWhere_insert_of_not (by simpa using hne)).length_eq

/-! ## Requests and the cursor -/

/-- Requests are stored exactly for the identifiers up to the count, the cursor is among
them, and the script of every request is ready to run. -/
structure Stored (L : Ledger) : Prop where
  stored : ∀ id : ℤ, (∃ r, L.requests[id]? = some r) ↔ 1 ≤ id ∧ id ≤ L.requestCount
  lastExpired_nonneg : 0 ≤ L.requestLastExpired
  lastExpired_le : L.requestLastExpired ≤ L.requestCount
  ready : ∀ (id : RequestID) (r : Request), L.requests[id]? = some r → r.oracleScriptID ∈ L.ready

lemma Fresh.stored (h : L.Fresh) : L.Stored where
  stored := by
    intro id
    simp only [h.requests, h.requestCount]
    constructor
    · rintro ⟨r, hr⟩
      simp at hr
    · omega
  lastExpired_nonneg := by rw [h.requestLastExpired]
  lastExpired_le := by rw [h.requestLastExpired, h.requestCount]
  ready := by
    intro id r hr
    simp [h.requests] at hr

/-- The identifier of the next request is free. -/
lemma Stored.next_free (h : L.Stored) : L.requests[L.requestCount + 1]? = none := by
  by_contra hne
  obtain ⟨r, hr⟩ := Option.ne_none_iff_exists'.mp hne
  have := ((h.stored _).mp ⟨r, hr⟩).2
  omega

lemma Stored.step (h : L.Stored) (hst : Step L a L') : L'.Stored := by
  obtain ⟨hs, h0, hle, hready⟩ := h
  cases hst with
  | quiet hsub _ => exact ⟨hs, h0, hle, fun id r hr => hsub (hready id r hr)⟩
  | request hid _ hr _ =>
    refine ⟨fun id => ?_, h0, ?_, fun id q hq => ?_⟩
    · by_cases hn : L.requestCount + 1 = id
      · subst hn
        simp only [Table.getElem?_insert_self]
        constructor
        · intro _
          exact ⟨by omega, le_refl _⟩
        · exact fun _ => ⟨_, rfl⟩
      · simp only [Table.getElem?_insert_ne _ _ hn, hs]
        omega
    · exact Int.le_add_one hle
    · by_cases hn : L.requestCount + 1 = id
      · subst hn
        simp only [Table.getElem?_insert_self, Option.some.injEq] at hq
        exact hq ▸ hr
      · simp only [Table.getElem?_insert_ne _ _ hn] at hq
        exact hready id q hq
  | report _ _ _ => exact ⟨hs, h0, hle, hready⟩
  | reportLast _ _ _ => exact ⟨hs, h0, hle, hready⟩
  | resolve _ _ _ _ => exact ⟨hs, h0, hle, hready⟩
  | expire _ _ hlt _ _ _ => exact ⟨hs, Int.add_nonneg h0 (by decide), hlt, hready⟩
  | pass _ _ hlt _ => exact ⟨hs, Int.add_nonneg h0 (by decide), hlt, hready⟩

/-- A stored request is never changed. -/
lemma Stored.request_stable (h : L.Stored) (hst : Step L a L') {id : RequestID} {r : Request}
    (hr : L.requests[id]? = some r) : L'.requests[id]? = some r := by
  cases hst with
  | request _ _ _ _ =>
    have hne : L.requestCount + 1 ≠ id := by
      rintro rfl
      rw [h.next_free] at hr
      cases hr
    simpa only [Table.getElem?_insert_ne _ _ hne] using hr
  | _ => exact hr

/-! ## Reports -/

/-- Every stored report is a complete answer of a requested validator. -/
def Reported (L : Ledger) : Prop :=
  ∀ (rid : RequestID) (v : ValAddress) (rep : Report), L.reports[toLex (rid, v)]? = some rep →
    ∃ r : Request, L.requests[rid]? = some r ∧ rep.validator = v ∧ v ∈ r.requestedValidators ∧
      List.Perm (rep.rawReports.map RawReport.externalID) r.rawRequestIDs

lemma Fresh.reported (h : L.Fresh) : L.Reported := by
  intro rid v rep hrep
  simp [h.reports] at hrep

/-- Different external IDs, as many as were asked for and all of them asked for, answer
every raw request exactly once. -/
lemma Acceptable.perm {rid : RequestID} {r : Request} {rep : Report}
    (h : L.Acceptable rid r rep) :
    List.Perm (rep.rawReports.map RawReport.externalID) r.rawRequestIDs := by
  have hsub : rep.rawReports.map RawReport.externalID ⊆ r.rawRequestIDs := by
    intro x hx
    obtain ⟨y, hy, rfl⟩ := List.mem_map.mp hx
    exact h.subset y hy
  refine (List.subperm_of_subset h.nodup hsub).perm_of_length_le ?_
  rw [List.length_map, h.length]

lemma Reported.insert (h : L.Reported) {rid : RequestID} {r : Request} {rep : Report}
    (hr : L.requests[rid]? = some r) (hacc : L.Acceptable rid r rep)
    (hreq : L'.requests = L.requests)
    (hrep : L'.reports = L.reports.insert (toLex (rid, rep.validator)) rep) : L'.Reported := by
  intro rid' v rep' hrep'
  rw [hrep] at hrep'
  rw [hreq]
  by_cases hk : toLex (rid, rep.validator) = toLex (rid', v)
  · obtain ⟨rfl, rfl⟩ := Prod.mk.inj (toLex.injective hk)
    rw [Table.getElem?_insert_self] at hrep'
    obtain rfl := Option.some.inj hrep'
    exact ⟨r, hr, rfl, hacc.requested, hacc.perm⟩
  · rw [Table.getElem?_insert_ne _ _ hk] at hrep'
    exact h rid' v rep' hrep'

lemma Reported.step (h : L.Reported) (hS : L.Stored) (hst : Step L a L') : L'.Reported := by
  have hstable : ∀ (id : RequestID) (r : Request), L.requests[id]? = some r →
      L'.requests[id]? = some r := fun _ _ hr => hS.request_stable hst hr
  cases hst with
  | report hr hacc _ => exact h.insert hr hacc rfl rfl
  | reportLast hr hacc _ => exact h.insert hr hacc rfl rfl
  | _ =>
    intro rid v rep hrep
    obtain ⟨r, hr, hrest⟩ := h rid v rep hrep
    exact ⟨r, hstable _ _ hr, hrest⟩

/-- A request that is not stored has no reports. -/
lemma Reported.reportCount_eq_zero (h : L.Reported) {id : RequestID}
    (hid : L.requests[id]? = none) : L.reportCount id = 0 := by
  rw [reportCount, List.length_eq_zero_iff, List.eq_nil_iff_forall_not_mem]
  rintro ⟨k, rep⟩ hk
  rw [Table.mem_entriesWhere] at hk
  obtain ⟨r, hr, _⟩ := h (ofLex k).1 (ofLex k).2 rep hk.1
  have hid' : (ofLex k).1 = id := by simpa using hk.2
  rw [hid', hid] at hr
  cases hr

/-- What iterating over the reports of a request visits. -/
lemma Reported.entry (h : L.Reported) {id : RequestID} {k : RequestID ×ₗ ValAddress} {rep : Report}
    (hk : (k, rep) ∈ Table.entriesWhere L.reports fun k => (ofLex k).1 == id) :
    k = toLex (id, rep.validator) ∧ ∃ r : Request, L.requests[id]? = some r ∧
      rep.validator ∈ r.requestedValidators := by
  rw [Table.mem_entriesWhere] at hk
  have hid : (ofLex k).1 = id := by simpa using hk.2
  obtain ⟨r, hr, hval, hmem, _⟩ := h (ofLex k).1 (ofLex k).2 rep hk.1
  subst hid
  exact ⟨by rw [hval]; rfl, r, hr, hval ▸ hmem⟩

/-- Every validator has at most one report for a request. -/
lemma Reported.nodup_validators (h : L.Reported) (id : RequestID) :
    ((Table.entriesWhere L.reports fun k => (ofLex k).1 == id).map
      fun e => e.2.validator).Nodup := by
  refine List.Nodup.map_on ?_ (Table.nodup_entriesWhere L.reports _)
  rintro ⟨k, rep⟩ hk ⟨k', rep'⟩ hk' hval
  obtain rfl : k = k' := by
    rw [(h.entry hk).1, (h.entry hk').1]
    exact congrArg (fun v => toLex (id, v)) hval
  rw [Table.mem_entriesWhere] at hk hk'
  rw [Option.some.inj (hk.1.symm.trans hk'.1)]

/-- There are at most as many reports as requested validators. -/
lemma Reported.reportCount_le (h : L.Reported) {id : RequestID} {r : Request}
    (hr : L.requests[id]? = some r) : L.reportCount id ≤ r.requestedValidators.length := by
  have hsub : ((Table.entriesWhere L.reports fun k => (ofLex k).1 == id).map
      fun e => e.2.validator) ⊆ r.requestedValidators := by
    intro v hv
    obtain ⟨e, he, rfl⟩ := List.mem_map.mp hv
    obtain ⟨_, r', hr', hmem⟩ := h.entry he
    obtain rfl := Option.some.inj (hr.symm.trans hr')
    exact hmem
  have hlen := (List.subperm_of_subset (h.nodup_validators id) hsub).length_le
  rwa [List.length_map] at hlen

/-! ## The queue and the results -/

/-- A request has enough reports to be resolved. -/
def Resolvable (L : Ledger) (id : RequestID) : Prop :=
  ∃ r : Request, L.requests[id]? = some r ∧ 1 ≤ r.minCount.toNat ∧
    r.minCount.toNat ≤ L.reportCount id

/-- The queue holds resolvable requests, each once; a resolvable request is in the queue or
has a result; a request that the cursor has passed has a result. -/
structure Queued (L : Ledger) : Prop where
  nodup : L.pending.Nodup
  resolvable : ∀ id ∈ L.pending, L.Resolvable id
  resolved : ∀ id, L.Resolvable id → id ∈ L.pending ∨ ∃ h : Bytes, L.results[id]? = some h
  passed : ∀ (id : ℤ) (r : Request), L.requests[id]? = some r → 1 ≤ r.minCount.toNat →
    id ≤ L.requestLastExpired → ∃ h, L.results[id]? = some h

lemma Fresh.queued (h : L.Fresh) : L.Queued where
  nodup := by rw [h.pending]; exact List.nodup_nil
  resolvable := by simp [h.pending]
  resolved := by
    rintro id ⟨r, hr, _⟩
    simp [h.requests] at hr
  passed := by
    intro id r hr
    simp [h.requests] at hr

/-- A new request is not resolvable, and makes no other request so. -/
lemma resolvable_request (hS : L.Stored) (hR : L.Reported) {p : PrepareRecord}
    (hst : Step L (.request p) L') {id : RequestID} : L'.Resolvable id ↔ L.Resolvable id := by
  have hnew := hR.reportCount_eq_zero hS.next_free
  cases hst with
  | request _ _ _ _ =>
    constructor
    · rintro ⟨q, hq, hpos, hle⟩
      by_cases hn : L.requestCount + 1 = id
      · subst hn
        have hcount : q.minCount.toNat ≤ L.reportCount (L.requestCount + 1) := hle
        omega
      · simp only [Table.getElem?_insert_ne _ _ hn] at hq
        exact ⟨q, hq, hpos, hle⟩
    · rintro ⟨q, hq, hpos, hle⟩
      refine ⟨q, ?_, hpos, hle⟩
      have hn : L.requestCount + 1 ≠ id := by
        rintro rfl
        rw [hS.next_free] at hq
        cases hq
      simpa only [Table.getElem?_insert_ne _ _ hn] using hq

/-- A stored report makes its request resolvable exactly if it is the last one needed. -/
lemma resolvable_insert {rid id : RequestID} {r : Request} {rep : Report}
    (hr : L.requests[rid]? = some r) (hacc : L.Acceptable rid r rep)
    (hreq : L'.requests = L.requests)
    (hrep : L'.reports = L.reports.insert (toLex (rid, rep.validator)) rep) :
    L'.Resolvable id ↔
      L.Resolvable id ∨ id = rid ∧ L.reportCount rid + 1 = r.minCount.toNat := by
  by_cases hid : rid = id
  · subst hid
    simp only [Resolvable, hreq, hr, Option.some.injEq, exists_eq_left',
      reportCount_insert_self hrep hacc.fresh, true_and]
    omega
  · have hne : id ≠ rid := Ne.symm hid
    simp only [Resolvable, hreq, reportCount_insert_ne hrep hid, hne, false_and, or_false]

lemma exists_result_insert {t : Table RequestID Bytes} {id id' : RequestID} {x : Bytes}
    (h : id = id' ∨ ∃ y, t[id']? = some y) : ∃ y, (t.insert id x)[id']? = some y := by
  by_cases hid : id = id'
  · subst hid
    exact ⟨x, Table.getElem?_insert_self _ _ _⟩
  · rw [Table.getElem?_insert_ne _ _ hid]
    exact h.resolve_left hid

lemma resolvable_congr (hreq : L'.requests = L.requests) (hrep : L'.reports = L.reports)
    {id : RequestID} : L'.Resolvable id ↔ L.Resolvable id := by
  simp only [Resolvable, hreq, reportCount_congr hrep]

lemma Queued.step_report (h : L.Queued) {rid : RequestID} {rep : Report}
    (hst : Step L (.report rid rep) L') : L'.Queued := by
  obtain ⟨r, hr, hacc, hreq, hresults, hcursor, hins, hqueue⟩ := hst.of_report
  have hiff : ∀ id, L'.Resolvable id ↔
      L.Resolvable id ∨ id = rid ∧ L.reportCount rid + 1 = r.minCount.toNat :=
    fun _ => resolvable_insert hr hacc hreq hins
  have hpass : ∀ (id : ℤ) (q : Request), L'.requests[id]? = some q → 1 ≤ q.minCount.toNat →
      id ≤ L'.requestLastExpired → ∃ x, L'.results[id]? = some x := by
    rw [hreq, hresults, hcursor]
    exact h.passed
  rcases hqueue with ⟨hne, hpd, _⟩ | ⟨heq, hpd, _⟩
  · refine ⟨hpd ▸ h.nodup, fun id hid => ?_, fun id hid => ?_, hpass⟩
    · rw [hpd] at hid
      exact (hiff id).mpr (.inl (h.resolvable id hid))
    · rw [hpd, hresults]
      rcases (hiff id).mp hid with hid | ⟨_, hlast⟩
      · exact h.resolved id hid
      · exact absurd hlast hne
  · refine ⟨?_, fun id hid => ?_, fun id hid => ?_, hpass⟩
    · rw [hpd]
      refine List.Nodup.append h.nodup (List.nodup_singleton _) ?_
      -- a request in the queue has enough reports already
      intro x hx hx'
      obtain rfl := List.mem_singleton.mp hx'
      obtain ⟨q, hq, _, hle⟩ := h.resolvable x hx
      obtain rfl := Option.some.inj (hr.symm.trans hq)
      omega
    · rw [hpd] at hid
      refine (hiff id).mpr ?_
      rcases List.mem_append.mp hid with hid | hid
      · exact .inl (h.resolvable id hid)
      · exact .inr ⟨List.mem_singleton.mp hid, heq⟩
    · rw [hpd, hresults]
      rcases (hiff id).mp hid with hid | ⟨hid, _⟩
      · exact (h.resolved id hid).imp_left fun h => List.mem_append_left _ h
      · exact .inl (List.mem_append_right _ (List.mem_singleton.mpr hid))

lemma Queued.step_resolve (h : L.Queued) {id : RequestID} (hst : Step L (.resolve id) L') :
    L'.Queued := by
  obtain ⟨rest, r, _, _, _, _, s, hpd, _, _, _, hreq, hrep, hcursor, hpd', hresults, _⟩ :=
    hst.of_resolve
  obtain ⟨hnd, hres, hdone, hpass⟩ := h
  rw [hpd] at hnd hres hdone
  refine ⟨hpd' ▸ hnd.of_cons, fun x hx => ?_, fun x hx => ?_, fun x q hq hpos hx => ?_⟩
  · rw [hpd'] at hx
    exact (resolvable_congr hreq hrep).mpr (hres x (List.mem_cons_of_mem _ hx))
  · rw [hpd', hresults]
    rcases hdone x ((resolvable_congr hreq hrep).mp hx) with hmem | hmem
    · rcases List.mem_cons.mp hmem with rfl | hmem
      · exact .inr (exists_result_insert (.inl rfl))
      · exact .inl hmem
    · exact .inr (exists_result_insert (.inr hmem))
  · rw [hreq] at hq
    rw [hcursor] at hx
    rw [hresults]
    exact exists_result_insert (.inr (hpass x q hq hpos hx))

lemma Queued.step_expire (h : L.Queued) {id : RequestID} (hst : Step L (.expire id) L') :
    L'.Queued := by
  obtain ⟨rfl, hpd, _, _, hreq, hrep, hpd', hcursor, r, hr, hcase⟩ := hst.of_expire
  -- the results are kept, and the expired request has one if it ever was resolvable
  have hkeep : ∀ x : ℤ, (∃ y, L.results[x]? = some y) → ∃ y, L'.results[x]? = some y := by
    intro x hx
    rcases hcase with ⟨_, _, s, _, _, _, hresults, _⟩ | ⟨_, hresults, _⟩
    · rw [hresults]
      exact exists_result_insert (.inr hx)
    · rw [hresults]
      exact hx
  have hnew : 1 ≤ r.minCount.toNat → ∃ y, L'.results[L.requestLastExpired + 1]? = some y := by
    intro hpos
    rcases hcase with ⟨_, _, s, _, _, _, hresults, _⟩ | ⟨hle, hresults, _⟩
    · rw [hresults]
      exact exists_result_insert (.inl rfl)
    · rw [hresults]
      refine (h.resolved _ ⟨r, hr, hpos, hle⟩).resolve_left ?_
      rw [hpd]
      exact List.not_mem_nil
  refine ⟨hpd' ▸ h.nodup, fun x hx => ?_, fun x hx => ?_, fun x q hq hpos hx => ?_⟩
  · rw [hpd'] at hx
    exact (resolvable_congr hreq hrep).mpr (h.resolvable x hx)
  · rw [hpd']
    exact (h.resolved x ((resolvable_congr hreq hrep).mp hx)).imp_right (hkeep x)
  · rw [hreq] at hq
    rw [hcursor] at hx
    rcases Int.le_add_one_iff.mp hx with hx | rfl
    · exact hkeep x (h.passed x q hq hpos hx)
    · obtain rfl := Option.some.inj (hr.symm.trans hq)
      exact hnew hpos

lemma Queued.step (h : L.Queued) (hS : L.Stored) (hR : L.Reported) (hst : Step L a L') :
    L'.Queued := by
  cases a with
  | quiet =>
    cases hst with
    | quiet _ _ => exact ⟨h.nodup, h.resolvable, h.resolved, h.passed⟩
  | request p =>
    have hiff : ∀ id, L'.Resolvable id ↔ L.Resolvable id := fun _ => resolvable_request hS hR hst
    have hle := hS.lastExpired_le
    cases hst with
    | request _ _ _ _ =>
      refine ⟨h.nodup, fun id hid => (hiff id).mpr (h.resolvable id hid),
        fun id hid => h.resolved id ((hiff id).mp hid), fun id q hq hpos hid => ?_⟩
      have hid' : id ≤ L.requestLastExpired := hid
      have hn : L.requestCount + 1 ≠ id := by omega
      simp only [Table.getElem?_insert_ne _ _ hn] at hq
      exact h.passed id q hq hpos hid'
  | report rid rep => exact h.step_report hst
  | resolve id => exact h.step_resolve hst
  | expire id => exact h.step_expire hst

/-! ## The invariant of the ledger -/

/-- Everything above. -/
structure Inv (L : Ledger) : Prop where
  stored : L.Stored
  reported : L.Reported
  queued : L.Queued

lemma Fresh.inv (h : L.Fresh) : L.Inv := ⟨h.stored, h.reported, h.queued⟩

lemma Inv.step (h : L.Inv) (hst : Step L a L') : L'.Inv :=
  ⟨h.stored.step hst, h.reported.step h.stored hst, h.queued.step h.stored h.reported hst⟩

end Ledger
end Bandchain.Oracle
