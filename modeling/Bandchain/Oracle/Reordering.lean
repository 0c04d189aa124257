import Bandchain.Oracle.Registry
import Bandchain.Oracle.Similar

/-!
# Reports in any order

A block proposer chooses the order of the reports in a block.  The order decides which report
makes a request resolvable, and in which order the requests are resolved; it decides neither
which reports are accepted nor what is in the store after the block.  The proof runs the two
orders side by side: the worlds stay similar.
-/

namespace Bandchain.Oracle

open Exec

/-! ## Delivering reports -/

/-- The report of the message is accepted, for the request `r`. -/
structure World.Takes (w : World) (m : MsgReportData) (r : Request) : Prop where
  basic : m.validateBasic = .ok ()
  reporter : w.store.isReporter m.validator m.reporter = true
  reportable : Reportable w m.requestID r (m.report w)

lemma accepts_reportData_iff {k : Keeper} {w : World} {m : MsgReportData} :
    Accepts k w (.reportData m) ↔ ∃ r, w.Takes m r := by
  constructor
  · rintro ⟨hbasic, w', hrun⟩
    obtain ⟨hreporter, r, hrep, _⟩ := handleMsgReportData_eq_ok hrun
    exact ⟨r, hbasic, hreporter, hrep⟩
  · rintro ⟨r, hbasic, hreporter, hrep⟩
    exact ⟨hbasic, _, handleMsgReportData_run hreporter hrep⟩

/-- Whether a report is accepted depends on few things. -/
lemma World.Takes.congr {w w' : World} {m : MsgReportData} {r : Request} (h : w.Takes m r)
    (hrequests : w'.store.requests = w.store.requests)
    (hreporters : w'.store.reporters = w.store.reporters)
    (hresults : w'.store.results = w.store.results)
    (hreport : w'.store.reports[toLex (m.requestID, m.validator)]? =
      w.store.reports[toLex (m.requestID, m.validator)]?) : w'.Takes m r := by
  have hrep : m.report w' = m.report w := by
    rw [MsgReportData.report, Store.hasResult, hresults]
    rfl
  refine ⟨h.basic, ?_, ?_, ?_, ?_, ?_, ?_⟩
  · rw [Store.isReporter, hreporters]
    exact h.reporter
  · rw [hrequests]
    exact h.reportable.request
  · exact h.reportable.requested
  · exact hreport.trans h.reportable.fresh
  · exact h.reportable.length
  · exact h.reportable.subset

/-- What a report adds to the queue. -/
def World.queue (w : World) (m : MsgReportData) (r : Request) : List RequestID :=
  if w.store.getReportCount m.requestID + 1 = r.minCount.toNat then [m.requestID] else []

/-- What a report adds to the history. -/
def World.reportTrace (w : World) (m : MsgReportData) (r : Request) : List Call :=
  .setReport m.requestID m.validator :: (w.queue m r).map .addPendingRequest ++ [.event m.event]

/-- The world `w'` is `w` after the report of the message was accepted. -/
structure Delivered (m : MsgReportData) (r : Request) (w w' : World) : Prop where
  header : w'.header = w.header
  files : w'.files = w.files
  staking : w'.staking = w.staking
  channels : w'.channels = w.channels
  store : w'.store.unqueued = { w.store.unqueued with
    reports := w.store.reports.insert (toLex (m.requestID, m.validator)) (m.report w) }
  pending : w'.store.getPendingResolveList = w.store.getPendingResolveList ++ w.queue m r
  trace : w'.trace = w.trace ++ w.reportTrace m r

lemma World.Takes.delivered {k : Keeper} {w : World} {m : MsgReportData} {r : Request}
    (h : w.Takes m r) : Delivered m r w (deliver k (.reportData m) w) := by
  have hrun := handleMsgReportData_run h.reporter h.reportable
  have hdeliver : deliver k (.reportData m) w =
      (w.acceptReport m.requestID r (m.report w)).log [.event m.event] := by
    simp only [deliver, Msg.validateBasic, h.basic, Msg.handle, hrun]
  have hcount : (w.setReport m.requestID (m.report w)).store.getReportCount m.requestID =
      w.store.getReportCount m.requestID + 1 :=
    Table.length_entriesWhere_insert h.reportable.fresh (by simp)
  rw [hdeliver, World.acceptReport, hcount]
  by_cases hq : w.store.getReportCount m.requestID + 1 = r.minCount.toNat
  · rw [if_pos hq]
    refine ⟨rfl, rfl, rfl, rfl, rfl, ?_, ?_⟩
    · rw [World.queue, if_pos hq]
      rfl
    · rw [World.reportTrace, World.queue, if_pos hq]
      simp [World.log, World.addPendingRequest, World.setReport, MsgReportData.report]
  · rw [if_neg hq]
    refine ⟨rfl, rfl, rfl, rfl, rfl, ?_, ?_⟩
    · rw [World.queue, if_neg hq, List.append_nil]
      rfl
    · rw [World.reportTrace, World.queue, if_neg hq]
      simp [World.log, World.setReport, MsgReportData.report]

/-- A report that is not accepted changes nothing. -/
lemma deliver_of_not_takes {k : Keeper} {w : World} {m : MsgReportData} (h : ¬∃ r, w.Takes m r) :
    deliver k (.reportData m) w = w := by
  rw [← accepts_reportData_iff (k := k)] at h
  have : IsPreorder World fun w w' : World => w'.files = w.files :=
    { refl := fun _ => rfl, trans := fun _ _ _ h h' => h'.trans h }
  have hfiles := exits_handleMsgReportData (R := fun w w' => w'.files = w.files)
    (fun _ _ => rfl) (fun _ _ => rfl) m w
  unfold deliver
  rcases hbasic : (Msg.reportData m).validateBasic with e | u
  · rfl
  · rcases hrun : ((Msg.reportData m).handle k).run w with ⟨u, w'⟩ | ⟨e, w'⟩
    · exact absurd ⟨hbasic, w', hrun⟩ h
    · have hrun' : (handleMsgReportData m).run w = .error e w' := hrun
      rw [ExitsAt, hrun'] at hfiles
      show ({ w with files := w'.files } : World) = w
      rw [show w'.files = w.files from hfiles]

section

variable {k : Keeper} {o : Observer k} {w w' : World} {m n : MsgReportData} {r q : Request}

lemma World.Takes.of_similar (h : w.Takes m r) (hsim : Similar o w w') : w'.Takes m r := by
  have hreports : w'.store.reports = w.store.reports := hsim.read (·.reports) fun _ => rfl
  exact h.congr (hsim.read (·.requests) fun _ => rfl) (hsim.read (·.reporters) fun _ => rfl)
    (hsim.read (·.results) fun _ => rfl) (by rw [hreports])

lemma takes_iff_of_similar (hsim : Similar o w w') : (∃ r, w.Takes m r) ↔ ∃ r, w'.Takes m r :=
  ⟨fun ⟨r, h⟩ => ⟨r, h.of_similar hsim⟩,
    fun ⟨r, h⟩ => ⟨r, h.of_similar (Std.Symm.symm _ _ hsim)⟩⟩

/-- A report is delivered alike in similar worlds. -/
lemma Similar.deliver (h : Similar o w w') (m : MsgReportData) :
    Similar o (deliver k (.reportData m) w) (Oracle.deliver k (.reportData m) w') := by
  by_cases htake : ∃ r, w.Takes m r
  · obtain ⟨r, htake⟩ := htake
    have hd := htake.delivered (k := k)
    have hd' := (htake.of_similar h).delivered (k := k)
    have hreports : w'.store.reports = w.store.reports := h.read (·.reports) fun _ => rfl
    have hrep : m.report w' = m.report w := by
      have hres : w'.store.hasResult m.requestID = w.store.hasResult m.requestID :=
        h.read (·.hasResult m.requestID) fun _ => rfl
      rw [MsgReportData.report, hres]
      rfl
    have hqueue : w'.queue m r = w.queue m r := by
      have hcount : w'.store.getReportCount m.requestID = w.store.getReportCount m.requestID :=
        h.read (·.getReportCount m.requestID) fun _ => rfl
      rw [World.queue, hcount]
      rfl
    refine ⟨?_, ?_, ?_, ?_, ?_, ?_, ?_⟩
    · rw [hd'.header, hd.header, h.header]
    · rw [hd'.files, hd.files, h.files]
    · rw [hd'.staking, hd.staking, h.staking]
    · rw [hd'.store, hd.store, h.store, hreports, hrep]
    · rw [hd'.pending, hd.pending, hqueue]
      exact h.pending.append_right _
    · rw [hd'.channels, hd.channels]
      exact h.channels
    · have htrace : w'.reportTrace m r = w.reportTrace m r := by
        rw [World.reportTrace, hqueue]
        rfl
      rw [hd'.trace, hd.trace, htrace, List.filterMap_append, List.filterMap_append]
      exact h.trace.append_right _
  · rw [deliver_of_not_takes htake, deliver_of_not_takes fun h' =>
      htake ((takes_iff_of_similar h).mpr h')]
    exact h

/-- The messages are for different reports. -/
def Independent (m n : MsgReportData) : Prop :=
  (m.validator, m.requestID) ≠ (n.validator, n.requestID)

lemma Independent.symm (h : Independent m n) : Independent n m := Ne.symm h

lemma Independent.key (h : Independent m n) :
    toLex (m.requestID, m.validator) ≠ toLex (n.requestID, n.validator) := by
  intro heq
  obtain ⟨hid, hval⟩ := Prod.mk.inj (toLex.injective heq)
  exact h (by rw [hid, hval])

/-- What another accepted report leaves alone. -/
lemma Delivered.reports (h : Delivered m r w w') : w'.store.reports =
    w.store.reports.insert (toLex (m.requestID, m.validator)) (m.report w) :=
  congrArg Store.reports h.store

lemma Delivered.report (h : Delivered m r w w') : n.report w' = n.report w := by
  have hresults : w'.store.results = w.store.results := by
    have := congrArg Store.results h.store
    exact this
  rw [MsgReportData.report, Store.hasResult, hresults]
  rfl

/-- A report is accepted or not, whatever other reports were delivered before. -/
lemma takes_deliver_iff (h : Independent m n) :
    (Oracle.deliver k (.reportData m) w).Takes n q ↔ w.Takes n q := by
  by_cases htake : ∃ r, w.Takes m r
  · obtain ⟨r, htake⟩ := htake
    have hd := htake.delivered (k := k)
    have hrequests := congrArg Store.requests hd.store
    have hreporters := congrArg Store.reporters hd.store
    have hresults := congrArg Store.results hd.store
    have hreport : (Oracle.deliver k (.reportData m) w).store.reports[toLex
        (n.requestID, n.validator)]? = w.store.reports[toLex (n.requestID, n.validator)]? := by
      rw [hd.reports, Table.getElem?_insert_ne _ _ h.key]
    exact ⟨fun hn => hn.congr hrequests.symm hreporters.symm hresults.symm hreport.symm,
      fun hn => hn.congr hrequests hreporters hresults hreport⟩
  · rw [deliver_of_not_takes htake]

/-- The number of reports after another one. -/
lemma Delivered.reportCount (h : Delivered m r w w') (hfresh :
    w.store.reports[toLex (m.requestID, m.validator)]? = none) (id : RequestID) :
    w'.store.getReportCount id =
      w.store.getReportCount id + if m.requestID = id then 1 else 0 := by
  simp only [Store.getReportCount, Store.getReportIterator, h.reports]
  split_ifs with hid
  · exact Table.length_entriesWhere_insert hfresh (by simpa using hid)
  · exact (Table.perm_entriesWhere_insert_of_not (by simpa using hid)).length_eq

/-- Two reports add the same to the queue, in whichever order they come. -/
lemma queue_comm {w₁ w₂ : World} (hm : w.Takes m r) (hn : w.Takes n q)
    (h₁ : Delivered m r w w₁) (h₂ : Delivered n q w w₂) :
    List.Perm (w.queue m r ++ w₁.queue n q) (w.queue n q ++ w₂.queue m r) := by
  have hcount₁ := h₁.reportCount hm.reportable.fresh n.requestID
  have hcount₂ := h₂.reportCount hn.reportable.fresh m.requestID
  by_cases hid : m.requestID = n.requestID
  · -- the same request: the first report adds it, or the second one, or none
    obtain rfl : r = q := by
      have hr := hm.reportable.request
      rw [hid] at hr
      exact Option.some.inj (hr.symm.trans hn.reportable.request)
    rw [if_pos hid] at hcount₁
    rw [if_pos hid.symm] at hcount₂
    rw [World.queue, World.queue, World.queue, World.queue, hcount₁, hcount₂, hid]
  · rw [if_neg hid, Nat.add_zero] at hcount₁
    rw [if_neg (Ne.symm hid), Nat.add_zero] at hcount₂
    have hqueue₁ : w₁.queue n q = w.queue n q := by
      rw [World.queue, hcount₁]
      rfl
    have hqueue₂ : w₂.queue m r = w.queue m r := by
      rw [World.queue, hcount₂]
      rfl
    rw [hqueue₁, hqueue₂]
    exact List.perm_append_comm

/-- Two accepted reports can come in any order. -/
lemma similar_of_delivered {w₁ w₂ v₁ v₂ : World} (h : Independent m n) (hm : w.Takes m r)
    (hn : w.Takes n q) (h₁ : Delivered m r w w₁) (h₁' : Delivered n q w₁ v₁)
    (h₂ : Delivered n q w w₂) (h₂' : Delivered m r w₂ v₂) : Similar o v₁ v₂ := by
  have hqueue := queue_comm hm hn h₁ h₂
  refine ⟨?_, ?_, ?_, ?_, ?_, ?_, ?_⟩
  · rw [h₂'.header, h₂.header, h₁'.header, h₁.header]
  · rw [h₂'.files, h₂.files, h₁'.files, h₁.files]
  · rw [h₂'.staking, h₂.staking, h₁'.staking, h₁.staking]
  · rw [h₂'.store, h₂.store, h₂.reports, h₂.report, h₁'.store, h₁.store, h₁.reports, h₁.report,
      Table.insert_comm _ _ _ h.key]
  · rw [h₂'.pending, h₂.pending, h₁'.pending, h₁.pending, List.append_assoc, List.append_assoc]
    exact hqueue.append_left _
  · rw [h₂'.channels, h₂.channels, h₁'.channels, h₁.channels]
    exact o.equiv.refl _
  · refine List.Perm.filterMap _ (List.perm_iff_count.mpr fun c => ?_)
    have hcount := (hqueue.map Call.addPendingRequest).count_eq c
    rw [h₂'.trace, h₂.trace, h₁'.trace, h₁.trace]
    simp only [World.reportTrace, List.map_append, List.count_append, List.cons_append,
      List.count_cons] at hcount ⊢
    omega

lemma similar_deliver_comm (h : Independent m n) (w : World) :
    Similar o (Oracle.deliver k (.reportData n) (Oracle.deliver k (.reportData m) w))
      (Oracle.deliver k (.reportData m) (Oracle.deliver k (.reportData n) w)) := by
  by_cases hm : ∃ r, w.Takes m r
  · by_cases hn : ∃ q, w.Takes n q
    · obtain ⟨r, hm⟩ := hm
      obtain ⟨q, hn⟩ := hn
      exact similar_of_delivered h hm hn hm.delivered ((takes_deliver_iff h).mpr hn).delivered
        hn.delivered ((takes_deliver_iff h.symm).mpr hm).delivered
    · rw [deliver_of_not_takes hn, deliver_of_not_takes fun hn' => hn (by
        simpa only [takes_deliver_iff h] using hn')]
      exact Similar.refl o _
  · rw [deliver_of_not_takes hm, deliver_of_not_takes (m := m) fun hm' => hm (by
      simpa only [takes_deliver_iff h.symm] using hm')]
    exact Similar.refl o _

end

/-! ## All orders -/

/-- Deliver the messages one after the other. -/
def deliverAll (k : Keeper) (ms : List MsgReportData) (w : World) : World :=
  ms.foldl (fun w m => deliver k (.reportData m) w) w

lemma run_deliverAll (k : Keeper) (ms : List MsgReportData) (w : World) :
    Run (Step k) w (ms.map fun m => .deliver (.reportData m)) (deliverAll k ms w) := by
  induction ms generalizing w with
  | nil => exact .nil w
  | cons m ms ih => exact .cons trivial rfl (ih _)

lemma Similar.deliverAll {k : Keeper} {o : Observer k} {w w' : World} (h : Similar o w w')
    (ms : List MsgReportData) :
    Similar o (deliverAll k ms w) (Oracle.deliverAll k ms w') := by
  induction ms generalizing w w' with
  | nil => exact h
  | cons m ms ih => exact ih (h.deliver m)

/-- Similar worlds stay similar, in whichever order the reports come. -/
lemma similar_deliverAll {k : Keeper} {o : Observer k} {ms ns : List MsgReportData}
    (hperm : ms.Perm ns) (hind : ms.Pairwise Independent) {w w' : World} (h : Similar o w w') :
    Similar o (deliverAll k ms w) (deliverAll k ns w') := by
  induction hperm generalizing w w' with
  | nil => exact h
  | cons m _ ih => exact ih hind.of_cons (h.deliver m)
  | swap m n ms =>
    have hne : Independent n m := List.rel_of_pairwise_cons hind (by simp)
    have hswap := trans_of (Similar o) (similar_deliver_comm hne w) ((h.deliver m).deliver n)
    exact hswap.deliverAll ms
  | trans h₁ _ ih₁ ih₂ =>
    have hind₂ : List.Pairwise Independent _ :=
      (h₁.pairwise_iff fun h => Independent.symm h).mp hind
    exact trans_of (Similar o) (ih₁ hind (Similar.refl o w)) (ih₂ hind₂ h)

/-- Whether a report is accepted does not depend on the reports delivered before it. -/
lemma takes_deliverAll_iff {k : Keeper} {ms : List MsgReportData} {m : MsgReportData} {r : Request}
    (h : ∀ n ∈ ms, Independent n m) (w : World) : (deliverAll k ms w).Takes m r ↔ w.Takes m r := by
  induction ms generalizing w with
  | nil => exact Iff.rfl
  | cons n ms ih =>
    refine (ih (fun x hx => h x (by simp [hx])) _).trans ?_
    exact takes_deliver_iff (h n (by simp))

/-- In a reachable world everything in the queue can be resolved. -/
lemma canResolve_of_reachable {k : Keeper} {w : World} (hw : ReachableWorld k w) :
    ∀ id ∈ w.store.getPendingResolveList, w.CanResolve id := by
  intro id hid
  have hI := (recorded_of_reachable hw).toInv
  obtain ⟨r, hr, _⟩ := hI.queued.resolvable id hid
  obtain ⟨c, hc, code, hcode⟩ := hI.stored.ready id r hr
  exact ⟨r, c, code, hr, hc, hcode⟩

/-- A block ends alike after the reports in two orders. -/
lemma endBlock_reordered {k : Keeper} (o : Observer k) {w v : World} {ms ns : List MsgReportData}
    (hw : ReachableWorld k w) (hperm : ms.Perm ns) (hind : ms.Pairwise Independent)
    (hv : (handleEndBlock k).run (deliverAll k ms w) = .ok () v) :
    ∃ v', (handleEndBlock k).run (deliverAll k ns w) = .ok () v' ∧ Similar o v v' := by
  have hsim := similar_deliverAll hperm hind (Similar.refl o w)
  have hreach := hw.of_run (run_deliverAll k ms w)
  exact (agree_handleEndBlock hsim (recorded_of_reachable hreach).toInv.queued.nodup
    (canResolve_of_reachable hreach)).ok hv

/-- After the end of a block, similar worlds have the same store. -/
lemma Similar.store_eq {k : Keeper} {o : Observer k} {v v' : World} (h : Similar o v v')
    (hv : v.store.pendingResolveList = some []) (hv' : v'.store.pendingResolveList = some []) :
    v'.store = v.store := by
  have hfull : ∀ s : Store, s.pendingResolveList = some [] →
      s = { s.unqueued with pendingResolveList := some [] } := by
    rintro ⟨⟩ rfl
    rfl
  rw [hfull v'.store hv', hfull v.store hv, h.store]

/-- The labels of a block that delivers the messages. -/
def reportBlock (ms : List MsgReportData) : List Label :=
  (ms.map fun m => .deliver (.reportData m)) ++ [.endBlock]

/-- The two orders of the reports give the same block, from `w` to `v` or to `v'`. -/
structure SameOutcome (k : Keeper) (w : World) (ms ns : List MsgReportData) (v v' : World) :
    Prop where
  /-- Each message is accepted in one order exactly if it is in the other. -/
  accepts : ∀ m pre post pre' post', ms = pre ++ m :: post → ns = pre' ++ m :: post' →
    (Accepts k (deliverAll k pre w) (.reportData m) ↔
      Accepts k (deliverAll k pre' w) (.reportData m))
  /-- The queue differs in its order only. -/
  pending : List.Perm (deliverAll k ms w).store.getPendingResolveList
    (deliverAll k ns w).store.getPendingResolveList
  store : v'.store = v.store
  files : v'.files = v.files
  staking : v'.staking = v.staking
  /-- Events and other calls differ in their order only, and so do packets, apart from their
  sequence numbers, if the IBC module treats packets alike. -/
  trace : List.Perm (v.trace.filterMap Call.exceptPackets) (v'.trace.filterMap Call.exceptPackets)
  packets : k.SendsByRoute → List.Perm (v.trace.map Call.unnumbered) (v'.trace.map Call.unnumbered)

/-- **Reports in any order.**  In a reachable world, reports for different pairs of a validator
and a request are delivered in two orders, and then the block ends.  The same messages are
accepted, and the same is stored after the block. -/
theorem sameOutcome_of_perm {k : Keeper} {w : World} (hw : ReachableWorld k w)
    {ms ns : List MsgReportData} (hperm : ms.Perm ns)
    (hind : ms.Pairwise fun m n => (m.validator, m.requestID) ≠ (n.validator, n.requestID)) :
    ∃ v v', Run (Step k) w (reportBlock ms) v ∧ Run (Step k) w (reportBlock ns) v' ∧
      SameOutcome k w ms ns v v' := by
  have hreach := hw.of_run (run_deliverAll k ms w)
  have hreach' := hw.of_run (run_deliverAll k ns w)
  obtain ⟨v, hv⟩ := handleEndBlock_run k (recorded_of_reachable hreach).toInv
  obtain ⟨v', hv', hsim⟩ := endBlock_reordered (.blind k) hw hperm hind hv
  have hpend := (run_handleEndBlock (scriptsBounded_of_reachable hreach) hv).2.1
  have hpend' := (run_handleEndBlock (scriptsBounded_of_reachable hreach') hv').2.1
  refine ⟨v, v', (run_deliverAll k ms w).append (.single trivial (step_endBlock_iff.mpr hv)),
    (run_deliverAll k ns w).append (.single trivial (step_endBlock_iff.mpr hv')), ?_⟩
  refine ⟨?_, (similar_deliverAll hperm hind (Similar.refl (.blind k) w)).pending,
    hsim.store_eq hpend hpend', hsim.files, hsim.staking, hsim.trace, fun hsend => ?_⟩
  · rintro m pre post pre' post' rfl rfl
    have hpre : ∀ n ∈ pre, Independent n m := fun n hn =>
      (List.pairwise_append.mp hind).2.2 n hn m (by simp)
    have hind' : (pre' ++ m :: post').Pairwise Independent :=
      (hperm.pairwise_iff fun h => Independent.symm h).mp hind
    have hpre' : ∀ n ∈ pre', Independent n m := fun n hn =>
      (List.pairwise_append.mp hind').2.2 n hn m (by simp)
    rw [accepts_reportData_iff, accepts_reportData_iff]
    simp only [takes_deliverAll_iff hpre, takes_deliverAll_iff hpre']
  · obtain ⟨v'', hv'', hsim'⟩ := endBlock_reordered (.unnumbered k hsend) hw hperm hind hv
    obtain rfl := (EStateM.Result.ok.inj (hv'.symm.trans hv'')).2
    have htrace := hsim'.trace
    change List.Perm (v.trace.filterMap (some ∘ Call.unnumbered))
      (v'.trace.filterMap (some ∘ Call.unnumbered)) at htrace
    rwa [List.filterMap_eq_map] at htrace

/-- The IBC module of the small chain counts packets, and sends them all. -/
lemma Sample.sendsByRoute_keeper : Sample.keeper.SendsByRoute where
  routes c c' p hnext hsend := by
    obtain rfl := Option.some.inj hsend
    refine ⟨rfl, rfl, fun port channel => ?_⟩
    show (if port = p.sourcePort ∧ channel = p.sourceChannel then some (p.sequence + 1)
      else c.getNextSequenceSend port channel).isSome = _
    split_ifs with heq
    · rw [heq.1, heq.2, hnext]
      rfl
    · rfl
  uniform _ _ _ _ _ _ _ _ := rfl

theorem sameOutcome_of_perm_twoReports : ∃ w v v', ReachableWorld Sample.keeper w ∧
    Run (Step Sample.keeper) w
      (reportBlock [Sample.reportMsg Sample.alice, Sample.reportMsg Sample.bob]) v ∧
    Run (Step Sample.keeper) w
      (reportBlock [Sample.reportMsg Sample.bob, Sample.reportMsg Sample.alice]) v' ∧
    SameOutcome Sample.keeper w [Sample.reportMsg Sample.alice, Sample.reportMsg Sample.bob]
      [Sample.reportMsg Sample.bob, Sample.reportMsg Sample.alice] v v' ∧
    List.Perm (v.trace.map Call.unnumbered) (v'.trace.map Call.unnumbered) ∧
    v.store.getReportCount 1 = 2 ∧ v.store.hasResult 1 = true := by
  obtain ⟨u, hrun, hcount, hres⟩ := exists_runWhere (f := next Sample.keeper)
    (P := fun _ _ => True) (s := Sample.genesis)
    ((Sample.create Sample.askingScript ++ [.deliver (.requestData (Sample.requestMsg 2 1))]) ++
      reportBlock [Sample.reportMsg Sample.alice, Sample.reportMsg Sample.bob])
    (I := fun w => w.store.getReportCount 1 = 2 ∧ w.store.hasResult 1 = true) (by decide +kernel)
  obtain ⟨w, hfirst, hblock⟩ := hrun.split
  have hw : ReachableWorld Sample.keeper w := ⟨_, _, Sample.starts_genesis, hfirst⟩
  have hperm : List.Perm [Sample.reportMsg Sample.alice, Sample.reportMsg Sample.bob]
      [Sample.reportMsg Sample.bob, Sample.reportMsg Sample.alice] := .swap _ _ _
  obtain ⟨v, v', hv, hv', hsame⟩ := sameOutcome_of_perm hw hperm (by decide)
  obtain rfl : u = v := hblock.unique hv
  exact ⟨w, u, v', hw, hv, hv', hsame, hsame.packets Sample.sendsByRoute_keeper, hcount, hres⟩

end Bandchain.Oracle
