import Bandchain.Oracle.Simulation

/-!
# Reports in time

Every report carries a flag that says whether it came before its request was resolved.  The
flag is set when the report is stored, from the results at that moment; the number of answers
is committed when the result is saved.  Over a whole run the two agree: the reports with the
flag are those that the first result of the request counts.
-/

namespace Bandchain.Oracle

/-- No call of the list sets a report. -/
def SetsNoReport (cs : List Call) : Prop := ∀ c ∈ cs, ∀ id v, c ≠ .setReport id v

lemma setsNoReport_of_isUncounted {cs : List Call} (h : ∀ c ∈ cs, c.IsUncounted) :
    SetsNoReport cs := by
  rintro c hc id v rfl
  exact h _ hc

lemma SetsNoReport.cons {c : Call} {cs : List Call} (hc : ∀ id v, c ≠ .setReport id v)
    (h : SetsNoReport cs) : SetsNoReport (c :: cs) := by
  intro d hd
  rcases List.mem_cons.mp hd with rfl | hd
  · exact hc
  · exact h d hd

lemma SetsNoReport.notMem {cs : List Call} (h : SetsNoReport cs) (id : RequestID)
    (v : ValAddress) : .setReport id v ∉ cs := fun hmem => h _ hmem id v rfl

lemma SetsNoReport.isSetReport {cs : List Call} (h : SetsNoReport cs) (id : RequestID) :
    ∀ c ∈ cs, c.isSetReport id = false := by
  intro c hc
  cases c with
  | setReport rid v => exact absurd rfl (h _ hc rid v)
  | _ => rfl

namespace Ledger

variable {L L' : Ledger} {a : Act}

/-- A result is stored exactly if one was saved. -/
lemma Described.contains_result (h : L.Described) (id : RequestID) :
    L.results.contains id = true ↔ ∃ c ∈ L.trace, c.isSaveResult id = true := by
  rw [Std.ExtTreeMap.contains_eq_isSome_getElem?, h.result, List.getLast?_isSome]
  constructor
  · intro hne
    obtain ⟨x, hx⟩ := List.exists_mem_of_ne_nil _ hne
    obtain ⟨s, hs, hid, _⟩ := mem_savedHashes.mp hx
    exact ⟨_, hs, by simp [Call.isSaveResult, hid]⟩
  · rintro ⟨c, hc, hsave⟩
    cases c with
    | saveResult s =>
      exact List.ne_nil_of_mem
        (mem_savedHashes.mpr ⟨s, hc, by simpa [Call.isSaveResult] using hsave, rfl⟩)
    | _ => cases hsave

/-- The flags against the history: a report was set once if it is stored, it has the flag if
that was before the first result, and the flags are as many as the reports set before it. -/
structure Flagged (L : Ledger) : Prop where
  once : ∀ id v, L.trace.count (.setReport id v) =
    if L.reports.contains (toLex (id, v)) = true then 1 else 0
  flag : ∀ (id : RequestID) (v : ValAddress) (rep : Report),
    L.reports[toLex (id, v)]? = some rep → (rep.inBeforeResolve = true ↔
      .setReport id v ∈ before (Call.isSaveResult id) L.trace)
  counted : ∀ id : RequestID,
    (Table.entriesWhere L.reports fun k => (ofLex k).1 == id).countP
      (fun e => e.2.inBeforeResolve) =
      (before (Call.isSaveResult id) L.trace).countP (Call.isSetReport id)

lemma Flagged.count_le (h : L.Flagged) (id : RequestID) (v : ValAddress) :
    L.trace.count (.setReport id v) ≤ 1 := by
  rw [h.once]
  split_ifs <;> omega

/-- A report is stored exactly if it was set. -/
lemma Flagged.mem_iff (h : L.Flagged) (id : RequestID) (v : ValAddress) :
    .setReport id v ∈ L.trace ↔ L.reports.contains (toLex (id, v)) = true := by
  rw [← List.count_pos_iff, h.once]
  split_ifs with hcontains
  · simp [hcontains]
  · simp [hcontains]

lemma Fresh.flagged (h : L.Fresh) : L.Flagged where
  once := by simp [h.trace, h.reports]
  flag := by
    intro id v rep hrep
    simp [h.reports] at hrep
  counted := by
    intro id
    have hnone : Table.entriesWhere L.reports (fun k => (ofLex k).1 == id) = [] := by
      simp [Table.entriesWhere, h.reports]
    rw [hnone, h.trace]
    rfl

/-- Calls that set no report change nothing. -/
lemma Flagged.extend (h : L.Flagged) {cs : List Call} (hreports : L'.reports = L.reports)
    (htrace : L'.trace = L.trace ++ cs) (hcs : SetsNoReport cs) : L'.Flagged where
  once := by
    intro id v
    rw [htrace, List.count_append, List.count_eq_zero_of_not_mem (hcs.notMem id v), hreports]
    exact h.once id v
  flag := by
    intro id v rep hrep
    rw [hreports] at hrep
    rw [htrace, mem_before_append_of_notMem (hcs.notMem id v)]
    exact h.flag id v rep hrep
  counted := by
    intro id
    rw [htrace, hreports, countP_before_append_of_forall (hcs.isSetReport id)]
    exact h.counted id

/-- A report is set: it has the flag exactly if there is no result yet. -/
lemma Flagged.insert (h : L.Flagged) (hD : L.Described) {rid : RequestID} {rep : Report}
    (hfresh : L.reports[toLex (rid, rep.validator)]? = none)
    (hflag : rep.inBeforeResolve = !L.results.contains rid)
    (hreports : L'.reports = L.reports.insert (toLex (rid, rep.validator)) rep)
    (htrace : L'.trace = L.trace ++ [.setReport rid rep.validator]) : L'.Flagged := by
  have hnot : .setReport rid rep.validator ∉ L.trace := by
    rw [← List.count_eq_zero, h.once, Std.ExtTreeMap.contains_eq_isSome_getElem?, hfresh]
    rfl
  -- the new report is set before the first result exactly if it has the flag
  have hnew : ∀ c, before (Call.isSaveResult rid) (L.trace ++ [c]) =
      before (Call.isSaveResult rid) L.trace ++
        if rep.inBeforeResolve = true then before (Call.isSaveResult rid) [c] else [] := by
    intro c
    by_cases hres : L.results.contains rid = true
    · rw [before_append_of_exists ((hD.contains_result rid).mp hres), hflag, hres]
      simp
    · have hall : ∀ c ∈ L.trace, Call.isSaveResult rid c = false := by
        intro c hc
        by_contra hsave
        exact hres ((hD.contains_result rid).mpr ⟨c, hc, by simpa using hsave⟩)
      rw [before_append_of_forall hall, before_of_forall hall, hflag, if_pos (by simp [hres])]
  have hset : before (Call.isSaveResult rid) [.setReport rid rep.validator] =
      [.setReport rid rep.validator] := rfl
  refine ⟨fun id v => ?_, fun id v rep' hrep' => ?_, fun id => ?_⟩
  · rw [htrace, List.count_append, h.once, hreports]
    by_cases hkey : toLex (rid, rep.validator) = toLex (id, v)
    · obtain ⟨rfl, rfl⟩ := Prod.mk.inj (toLex.injective hkey)
      simp [Std.ExtTreeMap.contains_eq_isSome_getElem?, hfresh]
    · have hne : ¬Call.setReport rid rep.validator = .setReport id v := by
        intro heq
        obtain ⟨rfl, rfl⟩ := Call.setReport.inj heq
        exact hkey rfl
      have hzero : List.count (Call.setReport id v) [.setReport rid rep.validator] = 0 :=
        List.count_eq_zero_of_not_mem fun hmem => hne (List.mem_singleton.mp hmem).symm
      rw [hzero, Nat.add_zero, Std.ExtTreeMap.contains_eq_isSome_getElem?,
        Std.ExtTreeMap.contains_eq_isSome_getElem?, Table.getElem?_insert_ne _ _ hkey]
  · rw [hreports] at hrep'
    rw [htrace]
    by_cases hkey : toLex (rid, rep.validator) = toLex (id, v)
    · obtain ⟨rfl, rfl⟩ := Prod.mk.inj (toLex.injective hkey)
      rw [Table.getElem?_insert_self] at hrep'
      obtain rfl := Option.some.inj hrep'
      rw [hnew, hset, List.mem_append, or_iff_right fun hmem => hnot (before_subset hmem)]
      split_ifs with htrue
      · simp [htrue]
      · simp [htrue]
    · rw [Table.getElem?_insert_ne _ _ hkey] at hrep'
      rw [mem_before_append_of_notMem]
      · exact h.flag id v rep' hrep'
      · rw [List.mem_singleton]
        intro heq
        obtain ⟨rfl, rfl⟩ := Call.setReport.inj heq
        exact hkey rfl
  · rw [htrace, hreports]
    by_cases hid : rid = id
    · subst hid
      rw [(Table.perm_entriesWhere_insert hfresh (by simp)).countP_eq, List.countP_cons,
        h.counted, hnew, hset, List.countP_append]
      split_ifs with htrue
      · simp [Call.isSetReport]
      · rfl
    · rw [(Table.perm_entriesWhere_insert_of_not (by simpa using hid)).countP_eq, h.counted,
        countP_before_append_of_forall]
      simpa [Call.isSetReport] using hid

/-- A report is flagged by the results of the ledger. -/
def FlagsReports (L : Ledger) : Act → Prop
  | .report rid rep => rep.inBeforeResolve = !L.results.contains rid
  | _ => True

lemma Flagged.step (h : L.Flagged) (hD : L.Described) (hQ : FlagsReports L a)
    (hst : Step L a L') : L'.Flagged := by
  cases a with
  | quiet =>
    cases hst with
    | quiet _ hcs =>
      exact h.extend rfl rfl (setsNoReport_of_isUncounted fun c hc => (hcs c hc).isUncounted)
  | request p =>
    cases hst with
    | request _ _ _ _ =>
      exact h.extend rfl rfl (setsNoReport_of_isUncounted (by simp [Call.IsUncounted]))
  | report rid rep =>
    obtain ⟨r, _, hacc, _, _, _, hins, hqueue⟩ := hst.of_report
    -- the report, and then the queue
    have hset : Flagged { L with
        reports := L.reports.insert (toLex (rid, rep.validator)) rep
        trace := L.trace ++ [.setReport rid rep.validator] } :=
      h.insert hD hacc.fresh hQ rfl rfl
    rcases hqueue with ⟨_, _, htrace⟩ | ⟨_, _, htrace⟩
    · have hnil : L'.trace = L.trace ++ [.setReport rid rep.validator] ++ [] := by
        rw [htrace, List.append_nil]
      exact hset.extend hins hnil (setsNoReport_of_isUncounted (by simp))
    · have hadd : L'.trace =
          L.trace ++ [.setReport rid rep.validator] ++ [.addPendingRequest rid] := by
        rw [htrace]
        simp
      exact hset.extend hins hadd (.cons (by simp) (setsNoReport_of_isUncounted (by simp)))
  | resolve id =>
    obtain ⟨_, _, _, _, _, cs, s, _, _, _, hsend, _, hrep, _, _, _, htrace⟩ := hst.of_resolve
    exact h.extend hrep htrace (.cons (by simp) (.cons (by simp) (.cons (by simp)
      (setsNoReport_of_isUncounted hsend.isUncounted))))
  | expire id =>
    obtain ⟨_, _, _, _, _, hrep, _, _, r, _, hcase⟩ := hst.of_expire
    rcases hcase with ⟨_, cs, s, _, _, hsend, _, htrace⟩ | ⟨_, _, htrace⟩
    · exact h.extend hrep htrace (.cons (by simp) (.cons (by simp) (.cons (by simp)
        (setsNoReport_of_isUncounted hsend.isUncounted))))
    · exact h.extend hrep htrace (setsNoReport_of_isUncounted (by simp [Call.IsUncounted]))

end Ledger

/-- A message flags its report by the results of the world. -/
lemma flagsReports_of_justified {k : Keeper} {w : World} {l : Label} {L : Ledger} {a : Ledger.Act}
    (h : Justified k w l L a) : Ledger.FlagsReports L a := by
  cases a with
  | report rid rep =>
    obtain ⟨m, _, _, rfl, rfl, _, _, rfl⟩ := h
    rfl
  | _ => trivial

lemma flagged_of_run {k : Keeper} {data : GenesisState} {w₀ w : World} {ls : List Label}
    (h₀ : Starts data w₀) (hres : data.results = []) (hrun : Run (Step k) w₀ ls w) :
    w.ledger.Flagged := by
  have hfresh := fresh_of_starts h₀ hres
  have hI := ledger_invariant (I := fun L => L.Recorded ∧ L.Flagged)
    (fun _ _ _ _ _ hjust => flagsReports_of_justified hjust) ?_ hrun
    (scriptsBounded_of_starts h₀) ⟨hfresh.recorded, hfresh.flagged⟩
  · exact hI.2
  · rintro L a L' hQ hst ⟨hrec, hflag⟩
    exact ⟨hrec.step hst, hflag.step hrec.described hQ hst⟩

/-- A request with the committed number of answers: as many validators were asked as a 64-bit
number counts, so the number of answers is not cut. -/
lemma ansCount_response {k : Keeper} {w : World} (h : ReachableWorld k w) {pre post : List Call}
    {s : SaveRecord} (ht : w.trace = pre ++ .saveResult s :: post) {r : Request}
    (hr : w.store.requests[s.id]? = some r) :
    (r.response s.id s.reportCount s.blockTime s.status s.result).ansCount.toNat =
      s.reportCount := by
  have hrec := recorded_of_reachable h
  have hcount : s.reportCount = pre.countP (Call.isSetReport s.id) :=
    (hrec.explained.at_split ht).1
  have htotal : pre.countP (Call.isSetReport s.id) ≤ w.ledger.reportCount s.id := by
    rw [← hrec.counted.reports s.id]
    refine List.Sublist.countP_le ?_
    show List.Sublist pre w.trace
    rw [ht]
    exact List.sublist_append_left _ _
  have hasked := hrec.reported.reportCount_le hr
  obtain ⟨p, _, _, hdesc⟩ := hrec.described.prepared s.id r hr
  have hlt := p.spec.askCount.toNat_lt
  rw [hdesc.askCount] at hasked
  show (UInt64.ofNat s.reportCount).toNat = s.reportCount
  rw [UInt64.toNat_ofNat']
  exact Nat.mod_eq_of_lt (by omega)

/-- **Reports in time.**  At the moment `pre` of a run the first result of a request is saved.
In every later state the reports for the request with the flag are those stored before, the
ones without it are those stored afterwards, and the flags are as many as the answers that the
result commits to. -/
theorem flags_of_run {k : Keeper} {w₀ w : World} {ls : List Label} {pre post : List Call}
    {s : SaveRecord} (h₀ : Starts defaultGenesisState w₀) (hrun : Run (Step k) w₀ ls w)
    (ht : w.trace = pre ++ .saveResult s :: post)
    (hfirst : ∀ s', .saveResult s' ∈ pre → s'.id ≠ s.id) :
    (∀ v, (∃ rep : Report, w.store.reports[toLex (s.id, v)]? = some rep ∧
      rep.inBeforeResolve = true) ↔ .setReport s.id v ∈ pre) ∧
      (∀ v, (∃ rep : Report, w.store.reports[toLex (s.id, v)]? = some rep ∧
        rep.inBeforeResolve = false) ↔ .setReport s.id v ∈ post) ∧
      ∃ r, w.store.requests[s.id]? = some r ∧
        s = r.saveRecord s.id s.reportCount s.blockTime s.status s.result ∧
        (w.store.getReports s.id).countP Report.inBeforeResolve =
          (r.response s.id s.reportCount s.blockTime s.status s.result).ansCount.toNat := by
  have hw : ReachableWorld k w := ⟨w₀, ls, h₀, hrun⟩
  have hflag := flagged_of_run h₀ rfl hrun
  have hrec := recorded_of_reachable hw
  have hbefore : before (Call.isSaveResult s.id) w.trace = pre := by
    rw [ht]
    refine before_eq_of_split (fun c hc => ?_) (by simp [Call.isSaveResult])
    cases c with
    | saveResult s' => simpa [Call.isSaveResult] using hfirst s' hc
    | _ => rfl
  have hflags : ∀ v (rep : Report), w.store.reports[toLex (s.id, v)]? = some rep →
      (rep.inBeforeResolve = true ↔ .setReport s.id v ∈ pre) := by
    intro v rep hrep
    rw [← hbefore]
    exact hflag.flag s.id v rep hrep
  -- a stored report was set once, before or after the result
  have hstored : ∀ v, (∃ rep : Report, w.store.reports[toLex (s.id, v)]? = some rep) ↔
      .setReport s.id v ∈ pre ∨ .setReport s.id v ∈ post := by
    intro v
    have hmem := hflag.mem_iff s.id v
    change _ ∈ w.trace ↔ _ at hmem
    rw [← Option.isSome_iff_exists, ← Std.ExtTreeMap.contains_eq_isSome_getElem?]
    refine hmem.symm.trans ?_
    rw [ht]
    simp
  have honce : ∀ v, .setReport s.id v ∈ pre → .setReport s.id v ∉ post := by
    intro v hpre hpost
    have hcount := hflag.count_le s.id v
    change w.trace.count _ ≤ 1 at hcount
    rw [ht, List.count_append, List.count_cons] at hcount
    have h1 := List.count_pos_iff.mpr hpre
    have h2 := List.count_pos_iff.mpr hpost
    omega
  refine ⟨fun v => ⟨?_, fun hv => ?_⟩, fun v => ⟨?_, fun hv => ?_⟩, ?_⟩
  · rintro ⟨rep, hrep, htrue⟩
    exact (hflags v rep hrep).mp htrue
  · obtain ⟨rep, hrep⟩ := (hstored v).mpr (.inl hv)
    exact ⟨rep, hrep, (hflags v rep hrep).mpr hv⟩
  · rintro ⟨rep, hrep, hfalse⟩
    refine ((hstored v).mp ⟨rep, hrep⟩).resolve_left fun hpre => ?_
    rw [(hflags v rep hrep).mpr hpre] at hfalse
    cases hfalse
  · obtain ⟨rep, hrep⟩ := (hstored v).mpr (.inr hv)
    refine ⟨rep, hrep, ?_⟩
    rw [← Bool.not_eq_true]
    exact fun htrue => honce v ((hflags v rep hrep).mp htrue) hv
  · obtain ⟨r, hr, hs⟩ := hrec.described.saved s (by
      show _ ∈ w.trace
      rw [ht]
      simp)
    refine ⟨r, hr, hs, ?_⟩
    rw [ansCount_response hw ht hr, (hrec.explained.at_split ht).1, ← hbefore]
    exact (List.countP_map ..).trans (hflag.counted s.id)

namespace Sample

/-- Both validators are asked, one report is wanted; one report comes in the block in which the
request is made, the other one in the next block. -/
def oneLateReport : List Label :=
  create askingScript ++
    [.deliver (.requestData (requestMsg 2 1)), .deliver (.reportData (reportMsg alice)), .endBlock,
     block 2, .deliver (.reportData (reportMsg bob)), .endBlock]

end Sample

theorem flags_of_run_oneLateReport : ∃ w pre s post,
    Run (Step Sample.keeper) Sample.genesis Sample.oneLateReport w ∧
    w.trace = pre ++ .saveResult s :: post ∧ .setReport 1 Sample.alice.operator ∈ pre ∧
    .setReport 1 Sample.bob.operator ∈ post ∧
    (w.store.getReports 1).countP Report.inBeforeResolve = 1 := by
  obtain ⟨w, hrun, hsome, halice, hbob, hcount⟩ := exists_runWhere (f := next Sample.keeper)
    (P := fun _ _ => True) (s := Sample.genesis) Sample.oneLateReport
    (I := fun w => (w.trace.find? (Call.isSaveResult 1)).isSome = true ∧
      w.store.reports[toLex ((1 : ℤ), Sample.alice.operator)]?.map Report.inBeforeResolve =
        some true ∧
      w.store.reports[toLex ((1 : ℤ), Sample.bob.operator)]?.map Report.inBeforeResolve =
        some false ∧
      (w.store.getReports 1).countP Report.inBeforeResolve = 1) (by decide +kernel)
  obtain ⟨c, hfind⟩ := Option.isSome_iff_exists.mp hsome
  obtain ⟨hc, pre, post, ht, hfirst⟩ := List.find?_eq_some_iff_append.mp hfind
  obtain ⟨repA, hrepA, hflagA⟩ := Option.map_eq_some_iff.mp halice
  obtain ⟨repB, hrepB, hflagB⟩ := Option.map_eq_some_iff.mp hbob
  cases c with
  | saveResult s =>
    obtain hid : s.id = 1 := by simpa [Call.isSaveResult] using hc
    obtain ⟨hin, hafter, _⟩ := flags_of_run Sample.starts_genesis hrun ht (fun s' hs' => by
      rw [hid]
      simpa [Call.isSaveResult] using hfirst _ hs')
    rw [hid] at hin hafter
    exact ⟨w, pre, s, post, hrun, ht, (hin _).mp ⟨repA, hrepA, hflagA⟩,
      (hafter _).mp ⟨repB, hrepB, hflagB⟩, hcount⟩
  | _ => cases hc

end Bandchain.Oracle
