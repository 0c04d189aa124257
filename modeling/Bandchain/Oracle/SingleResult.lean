import Bandchain.Oracle.History

/-!
# At most one result

A request is saved once at most, as long as no report makes an expired request resolvable.
The queue of the ledger does not look at the expiry cursor, so that condition is needed: a
request that expired with too few reports, and got its result then, is queued and resolved
again if a late report completes it.
-/

namespace Bandchain.Oracle

/-- One hash is saved with each result. -/
lemma countP_isSaveResult (id : RequestID) (t : List Call) :
    t.countP (Call.isSaveResult id) = (savedHashes id t).length := by
  induction t with
  | nil => rfl
  | cons c t ih =>
    cases c with
    | saveResult s =>
      rw [savedHashes_cons, List.countP_cons, ih]
      by_cases h : s.id = id <;> simp [Call.isSaveResult, h]
    | _ => simpa [Call.isSaveResult, savedHashes] using ih

namespace Ledger

variable {L L' : Ledger} {a : Act}

/-! ## Packets -/

/-- A packet goes out only with a result. -/
def SentOnce (L : Ledger) : Prop :=
  ∀ id, L.trace.countP (Call.isSendPacket id) ≤ L.trace.countP (Call.isSaveResult id)

lemma countP_sends_le {r : Request} {res : OracleResponsePacketData} {cs : List Call}
    (h : Sends r res cs) (id : RequestID) :
    cs.countP (Call.isSendPacket id) ≤ if res.requestID = id then 1 else 0 := by
  cases h with
  | nothing => simp
  | packet _ _ _ hdata => simp [Call.isSendPacket, hdata]

lemma countP_isSendPacket_quiet {cs : List Call} (h : ∀ c ∈ cs, c.IsQuiet) (id : RequestID) :
    cs.countP (Call.isSendPacket id) = 0 := by
  rw [List.countP_eq_zero]
  intro c hc
  have := h c hc
  cases c <;> first | exact this.elim | exact Bool.false_ne_true

lemma SentOnce.step (h : L.SentOnce) (hst : Step L a L') : L'.SentOnce := by
  intro id
  have hold := h id
  cases a with
  | quiet =>
    cases hst with
    | quiet _ hcs =>
      show (L.trace ++ _).countP _ ≤ (L.trace ++ _).countP _
      rw [List.countP_append, List.countP_append, countP_isSendPacket_quiet hcs]
      omega
  | request p =>
    cases hst with
    | request _ _ _ _ =>
      show (L.trace ++ _).countP _ ≤ (L.trace ++ _).countP _
      simpa [Call.isSendPacket, Call.isSaveResult] using hold
  | report rid rep =>
    obtain ⟨_, _, _, _, _, _, _, hqueue⟩ := hst.of_report
    rcases hqueue with ⟨_, _, htrace⟩ | ⟨_, _, htrace⟩
    · simpa [htrace, Call.isSendPacket, Call.isSaveResult] using hold
    · simpa [htrace, List.countP_cons, Call.isSendPacket, Call.isSaveResult] using hold
  | resolve rid =>
    obtain ⟨_, r, _, _, _, cs, s, _, _, hs, hsend, _, _, _, _, _, htrace⟩ := hst.of_resolve
    have hcs := countP_sends_le hsend id
    have hid : s.id = rid := by rw [hs]; rfl
    change _ ≤ if rid = id then 1 else 0 at hcs
    simp only [htrace, List.countP_append, List.countP_cons, Call.isSendPacket, Call.isSaveResult,
      hid, beq_iff_eq, Bool.false_eq_true, if_false]
    omega
  | expire rid =>
    obtain ⟨_, _, _, _, _, _, _, _, r, _, hcase⟩ := hst.of_expire
    rcases hcase with ⟨_, cs, s, _, hs, hsend, _, htrace⟩ | ⟨_, _, htrace⟩
    · have hcs := countP_sends_le hsend id
      have hid : s.id = rid := by rw [hs]; rfl
      change _ ≤ if rid = id then 1 else 0 at hcs
      simp only [htrace, List.countP_append, List.countP_cons, Call.isSendPacket,
        Call.isSaveResult, hid, beq_iff_eq, Bool.false_eq_true, if_false]
      omega
    · simpa [htrace, Call.isSendPacket, Call.isSaveResult] using hold

/-! ## Results -/

/-- The step is not a report that completes a request after the cursor has passed it. -/
def OnTime (L : Ledger) (a : Act) : Prop :=
  ∀ rid rep, a = .report rid rep → ∀ r : Request, L.requests[rid]? = some r →
    L.reportCount rid + 1 = r.minCount.toNat → L.requestLastExpired < rid

/-- A request in the queue has no result yet; a request with a result has enough reports or
was passed by the cursor; and there is one result at most. -/
structure SavedOnce (L : Ledger) : Prop where
  pending : ∀ id ∈ L.pending, L.results[id]? = none
  settled : ∀ (id : ℤ) (r : Request), L.requests[id]? = some r → (∃ x, L.results[id]? = some x) →
    r.minCount.toNat ≤ L.reportCount id ∨ id ≤ L.requestLastExpired
  single : ∀ id, (savedHashes id L.trace).length ≤ 1

lemma Fresh.savedOnce (h : L.Fresh) : L.SavedOnce where
  pending := by simp [h.pending]
  settled := by simp [h.requests]
  single := by simp [h.trace, savedHashes]

/-- Where no result is stored, none was saved. -/
lemma Described.savedHashes_eq_nil (h : L.Described) {id : RequestID}
    (hid : L.results[id]? = none) : savedHashes id L.trace = [] := by
  rwa [h.result, List.getLast?_eq_none_iff] at hid

/-- A stored result was saved. -/
lemma Described.save_of_result (h : L.Described) {id : RequestID} {x : Bytes}
    (hx : L.results[id]? = some x) : ∃ s, .saveResult s ∈ L.trace ∧ s.id = id ∧ s.hash = x := by
  rw [h.result] at hx
  exact mem_savedHashes.mp (List.mem_of_getLast? hx)

/-- A result belongs to a stored request. -/
lemma Described.request_of_result (h : L.Described) {id : RequestID} {x : Bytes}
    (hx : L.results[id]? = some x) : ∃ r, L.requests[id]? = some r := by
  obtain ⟨s, hs, rfl, _⟩ := h.save_of_result hx
  obtain ⟨r, hr, _⟩ := h.saved s hs
  exact ⟨r, hr⟩

/-- The only hash saved by a plain call, a saved result and more plain calls. -/
lemma savedHashes_save {c : Call} {s : SaveRecord} {ds : List Call} (hc : c.IsPlain)
    (hds : ∀ d ∈ ds, d.IsPlain) (id : RequestID) :
    savedHashes id (c :: .saveResult s :: .event s.event :: ds) =
      if s.id = id then [s.hash] else [] := by
  have hc' : savedHashes id [c] = [] := savedHashes_plain (by simpa using hc)
  have hds' : savedHashes id (.event s.event :: ds) = [] :=
    savedHashes_plain (List.forall_mem_cons.mpr ⟨trivial, hds⟩)
  rw [← List.singleton_append, savedHashes_append, hc', List.nil_append, savedHashes_cons, hds']

/-- Saving a result where there is none. -/
lemma SavedOnce.save (h : L.SavedOnce) (hD : L.Described) {s : SaveRecord} {cs : List Call}
    (hnone : L.results[s.id]? = none) (htrace : L'.trace = L.trace ++ cs)
    (hcs : ∀ id, savedHashes id cs = if s.id = id then [s.hash] else []) (id : RequestID) :
    (savedHashes id L'.trace).length ≤ 1 := by
  rw [htrace, savedHashes_append, hcs]
  by_cases hid : s.id = id
  · subst hid
    simp [hD.savedHashes_eq_nil hnone]
  · simpa [hid] using h.single id

lemma SavedOnce.step_report (h : L.SavedOnce) {rid : RequestID} {rep : Report}
    (hst : Step L (.report rid rep) L') (hP : OnTime L (.report rid rep)) : L'.SavedOnce := by
  obtain ⟨r, hr, hacc, hreq, hresults, hcursor, hins, hqueue⟩ := hst.of_report
  have hmono : ∀ id, L.reportCount id ≤ L'.reportCount id := by
    intro id
    by_cases hid : rid = id
    · subst hid
      rw [reportCount_insert_self hins hacc.fresh]
      omega
    · rw [reportCount_insert_ne hins hid]
  have hsettled : ∀ (id : ℤ) (q : Request), L'.requests[id]? = some q →
      (∃ x, L'.results[id]? = some x) →
      q.minCount.toNat ≤ L'.reportCount id ∨ id ≤ L'.requestLastExpired := by
    intro id q hq hx
    rw [hreq] at hq
    rw [hresults] at hx
    rw [hcursor]
    exact (h.settled id q hq hx).imp_left fun hle => hle.trans (hmono id)
  rcases hqueue with ⟨_, hpd, htrace⟩ | ⟨heq, hpd, htrace⟩
  · refine ⟨?_, hsettled, fun id => ?_⟩
    · rw [hpd, hresults]
      exact h.pending
    · simpa [htrace, savedHashes] using h.single id
  · refine ⟨fun id hid => ?_, hsettled, fun id => ?_⟩
    · rw [hpd] at hid
      rw [hresults]
      rcases List.mem_append.mp hid with hid | hid
      · exact h.pending id hid
      · -- a result would mean enough reports, or a cursor that has passed the request
        obtain rfl := List.mem_singleton.mp hid
        by_contra hne
        have hlt : L.requestLastExpired < id := hP id rep rfl r hr heq
        rcases h.settled id r hr (Option.ne_none_iff_exists'.mp hne) with hle | hle
        · omega
        · exact absurd hle (not_le.mpr hlt)
    · simpa [htrace, savedHashes] using h.single id

lemma SavedOnce.step_resolve (h : L.SavedOnce) (hR : L.Recorded) {rid : RequestID}
    (hst : Step L (.resolve rid) L') : L'.SavedOnce := by
  obtain ⟨rest, r, _, _, _, cs, s, hpd, hr, hs, hsend, hreq, hrep, hcursor, hpd', hresults,
    htrace⟩ := hst.of_resolve
  have hid : s.id = rid := by rw [hs]; rfl
  have hnodup := hR.queued.nodup
  rw [hpd] at hnodup
  have hmem : rid ∈ L.pending := by rw [hpd]; exact List.mem_cons_self
  refine ⟨fun x hx => ?_, fun x q hq hx => ?_, ?_⟩
  · rw [hpd'] at hx
    have hne : rid ≠ x := by
      rintro rfl
      exact (List.nodup_cons.mp hnodup).1 hx
    rw [hresults, Table.getElem?_insert_ne _ _ hne]
    exact h.pending x (by rw [hpd]; exact List.mem_cons_of_mem _ hx)
  · rw [hreq] at hq
    rw [hresults] at hx
    rw [hcursor, reportCount_congr hrep]
    by_cases hne : rid = x
    · subst hne
      obtain ⟨q', hq', _, hle⟩ := hR.queued.resolvable rid hmem
      obtain rfl := Option.some.inj (hq'.symm.trans hq)
      exact .inl hle
    · rw [Table.getElem?_insert_ne _ _ hne] at hx
      exact h.settled x q hq hx
  · refine h.save hR.described (s := s) (by rw [hid]; exact h.pending rid hmem) htrace fun x => ?_
    exact savedHashes_save (by trivial) hsend.isPlain x

lemma SavedOnce.step_expire (h : L.SavedOnce) (hR : L.Recorded) {rid : RequestID}
    (hst : Step L (.expire rid) L') : L'.SavedOnce := by
  obtain ⟨hrid, hpd, _, _, hreq, hrep, hpd', hcursor, r, hr, hcase⟩ := hst.of_expire
  have hpending : ∀ x ∈ L'.pending, L'.results[x]? = none := by
    rw [hpd', hpd]
    simp
  -- a request that was settled stays settled when the cursor moves
  have hsettled : ∀ {x q}, L'.requests[x]? = some q → (∃ v, L.results[x]? = some v) →
      q.minCount.toNat ≤ L'.reportCount x ∨ x ≤ L'.requestLastExpired := by
    intro x q hq hx
    rw [hreq] at hq
    rw [hcursor, reportCount_congr hrep]
    refine (h.settled x q hq hx).imp_right fun hle => ?_
    rw [hrid]
    exact Int.le_add_one hle
  rcases hcase with ⟨_, cs, s, hcount, hs, hsend, hresults, htrace⟩ | ⟨_, hresults, htrace⟩
  · have hid : s.id = rid := by rw [hs]; rfl
    -- the request has too few reports and the cursor is just before it, so it has no result
    have hnone : L.results[rid]? = none := by
      by_contra hne
      rcases h.settled rid r hr (Option.ne_none_iff_exists'.mp hne) with hle | hle
      · omega
      · rw [hrid] at hle
        omega
    refine ⟨hpending, fun x q hq hx => ?_, ?_⟩
    · by_cases hne : rid = x
      · rw [hcursor]
        exact .inr hne.ge
      · rw [hresults, Table.getElem?_insert_ne _ _ hne] at hx
        exact hsettled hq hx
    · refine h.save hR.described (s := s) (by rw [hid]; exact hnone) htrace fun x => ?_
      exact savedHashes_save (by trivial) hsend.isPlain x
  · refine ⟨hpending, fun x q hq hx => ?_, fun x => ?_⟩
    · rw [hresults] at hx
      exact hsettled hq hx
    · simpa [htrace, savedHashes] using h.single x

lemma SavedOnce.step (h : L.SavedOnce) (hR : L.Recorded) (hst : Step L a L') (hP : OnTime L a) :
    L'.SavedOnce := by
  cases a with
  | quiet =>
    cases hst with
    | quiet _ hcs =>
      refine ⟨h.pending, h.settled, fun id => ?_⟩
      show (savedHashes id (L.trace ++ _)).length ≤ 1
      rw [savedHashes_append, savedHashes_plain fun c hc => (hcs c hc).isPlain]
      simpa using h.single id
  | request p =>
    cases hst with
    | request _ _ _ _ =>
      refine ⟨h.pending, fun id q hq hx => ?_, fun id => ?_⟩
      · have hn : L.requestCount + 1 ≠ id := by
          rintro rfl
          obtain ⟨x, hx⟩ := hx
          obtain ⟨q', hq'⟩ := hR.described.request_of_result hx
          exact absurd (hR.stored.next_free.symm.trans hq') (by simp)
        simp only [Table.getElem?_insert_ne _ _ hn] at hq
        exact h.settled id q hq hx
      · simpa [log, savedHashes] using h.single id
  | report rid rep => exact h.step_report hst hP
  | resolve rid => exact h.step_resolve hR hst
  | expire rid => exact h.step_expire hR hst

/-- A stored result is never replaced. -/
lemma SavedOnce.result_stable (h : L.SavedOnce) (hR : L.Recorded) (hst : Step L a L')
    (hP : OnTime L a) {id : RequestID} {x : Bytes} (hx : L.results[id]? = some x) :
    L'.results[id]? = some x := by
  have h' := h.step hR hst hP
  have hD := hR.described
  have hD' := hD.step hR.stored hst
  obtain ⟨cs, htrace, _⟩ := hst.news
  have hsingle := h'.single id
  rw [hD.result] at hx
  rw [hD'.result]
  rw [htrace, savedHashes_append] at hsingle ⊢
  -- one hash was saved before, so none was saved in this step
  have hpos : 0 < (savedHashes id L.trace).length := by
    rw [List.length_pos_iff]
    rintro hnil
    simp [hnil] at hx
  have hnil : savedHashes id cs = [] := by
    rw [List.length_append] at hsingle
    exact List.length_eq_zero_iff.mp (by omega)
  rw [hnil, List.append_nil]
  exact hx

/-! ## Results still to come -/

/-- The results saved for a request, with those that its entries in the queue will bring,
never become fewer. -/
lemma Step.owed_le (hst : Step L a L') (id : RequestID) :
    (savedHashes id L.trace).length + L.pending.count id ≤
      (savedHashes id L'.trace).length + L'.pending.count id := by
  cases a with
  | quiet =>
    cases hst with
    | quiet _ _ =>
      show _ ≤ (savedHashes id (L.trace ++ _)).length + L.pending.count id
      rw [savedHashes_append, List.length_append]
      omega
  | request p =>
    cases hst with
    | request _ _ _ _ =>
      show _ ≤ (savedHashes id (L.trace ++ _)).length + L.pending.count id
      rw [savedHashes_append, List.length_append]
      omega
  | report rid rep =>
    obtain ⟨_, _, _, _, _, _, _, hqueue⟩ := hst.of_report
    rcases hqueue with ⟨_, hpd, htrace⟩ | ⟨_, hpd, htrace⟩
    · rw [htrace, hpd, savedHashes_append, List.length_append]
      omega
    · rw [htrace, hpd, savedHashes_append, List.length_append, List.count_append]
      omega
  | resolve rid =>
    obtain ⟨rest, _, _, _, _, cs, s, hpd, _, hs, hsend, _, _, _, hpd', _, htrace⟩ := hst.of_resolve
    have hid : s.id = rid := by rw [hs]; rfl
    rw [htrace, hpd, hpd', savedHashes_append, List.length_append,
      savedHashes_save (by trivial) hsend.isPlain, hid, List.count_cons]
    by_cases hne : rid = id
    · simp [hne, Nat.add_right_comm]
      omega
    · simp [hne]
  | expire rid =>
    obtain ⟨_, _, _, _, _, _, hpd', _, _, _, hcase⟩ := hst.of_expire
    rcases hcase with ⟨_, _, _, _, _, _, _, htrace⟩ | ⟨_, _, htrace⟩
    · rw [htrace, hpd', savedHashes_append, List.length_append]
      omega
    · rw [htrace, hpd', savedHashes_append, List.length_append]
      omega

end Ledger
end Bandchain.Oracle
