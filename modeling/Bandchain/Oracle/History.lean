import Bandchain.Lib.Trace
import Bandchain.Oracle.Invariant

/-!
# The history of the ledger

What the trace of a run says about the ledger it leads to: every stored request was prepared
and every saved result belongs to a stored request; the calls of each kind are as many as
the ledger shows; and every call is explained by the calls before it.
-/

namespace Bandchain.Oracle

/-! ## Kinds of calls -/

namespace Call

def isSetReport (id : RequestID) : Call → Bool
  | .setReport rid _ => rid == id
  | _ => false

def isAddPendingRequest (id : RequestID) : Call → Bool
  | .addPendingRequest rid => rid == id
  | _ => false

def isExecute (id : RequestID) : Call → Bool
  | .execute rid _ _ => rid == id
  | _ => false

def isSaveResult (id : RequestID) : Call → Bool
  | .saveResult s => s.id == id
  | _ => false

/-- A packet that carries the response to the request. -/
def isSendPacket (id : RequestID) : Call → Bool
  | .sendPacket p => p.data.requestID == id
  | _ => false

end Call

/-- The hashes saved for a request, in order. -/
def savedHashes (id : RequestID) (t : List Call) : List Bytes :=
  t.filterMap fun
    | .saveResult s => if s.id = id then some s.hash else none
    | _ => none

/-- The calls that neither prepare a request nor save a result. -/
def Call.IsPlain : Call → Prop
  | .prepareRequest _ => False
  | .saveResult _ => False
  | _ => True

lemma Call.IsQuiet.isPlain {c : Call} (h : c.IsQuiet) : c.IsPlain := by
  cases c <;> first | exact h.elim | trivial

lemma Sends.isPlain {r : Request} {res : OracleResponsePacketData} {cs : List Call}
    (h : Sends r res cs) : ∀ c ∈ cs, c.IsPlain := by
  cases h with
  | nothing => simp
  | packet _ _ _ _ => simp [Call.IsPlain]

/-- The calls after a result is saved: its event, and the packet, if one is sent. -/
lemma Sends.isPlain_event {r : Request} {res : OracleResponsePacketData} {cs : List Call}
    (h : Sends r res cs) (e : Event) : ∀ c ∈ [Call.event e] ++ cs, c.IsPlain := by
  intro c hc
  rcases List.mem_append.mp hc with hc | hc
  · obtain rfl := List.mem_singleton.mp hc
    trivial
  · exact h.isPlain c hc

lemma mem_savedHashes {id : RequestID} {t : List Call} {x : Bytes} :
    x ∈ savedHashes id t ↔ ∃ s, .saveResult s ∈ t ∧ s.id = id ∧ s.hash = x := by
  rw [savedHashes, List.mem_filterMap]
  constructor
  · rintro ⟨c, hc, hcx⟩
    cases c with
    | saveResult s => exact ⟨s, hc, by simpa using hcx⟩
    | _ => cases hcx
  · rintro ⟨s, hs, hid, hx⟩
    exact ⟨_, hs, by simp [hid, hx]⟩

lemma savedHashes_append (id : RequestID) (t u : List Call) :
    savedHashes id (t ++ u) = savedHashes id t ++ savedHashes id u :=
  List.filterMap_append

lemma savedHashes_cons (id : RequestID) (s : SaveRecord) (t : List Call) :
    savedHashes id (.saveResult s :: t) =
      if s.id = id then s.hash :: savedHashes id t else savedHashes id t := by
  by_cases h : s.id = id <;> simp [savedHashes, h]

lemma savedHashes_plain {id : RequestID} {cs : List Call} (hcs : ∀ c ∈ cs, c.IsPlain) :
    savedHashes id cs = [] := by
  rw [savedHashes, List.filterMap_eq_nil_iff]
  intro c hc
  have := hcs c hc
  cases c with
  | saveResult s => exact this.elim
  | _ => rfl

/-- The calls that neither set a report nor touch the queue. -/
def Call.IsUncounted : Call → Prop
  | .setReport _ _ => False
  | .addPendingRequest _ => False
  | .execute _ _ _ => False
  | _ => True

lemma Call.IsQuiet.isUncounted {c : Call} (h : c.IsQuiet) : c.IsUncounted := by
  cases c <;> first | exact h.elim | trivial

lemma Sends.isUncounted {r : Request} {res : OracleResponsePacketData} {cs : List Call}
    (h : Sends r res cs) : ∀ c ∈ cs, c.IsUncounted := by
  cases h with
  | nothing => simp
  | packet _ _ _ _ => simp [Call.IsUncounted]

lemma countP_uncounted {cs : List Call} (hcs : ∀ c ∈ cs, c.IsUncounted) (id : RequestID) :
    cs.countP (Call.isSetReport id) = 0 ∧ cs.countP (Call.isAddPendingRequest id) = 0 ∧
      cs.countP (Call.isExecute id) = 0 := by
  simp only [List.countP_eq_zero]
  refine ⟨?_, ?_, ?_⟩ <;>
  · intro c hc
    have := hcs c hc
    cases c <;> first | exact this.elim | exact Bool.false_ne_true

namespace Ledger

variable {L L' : Ledger} {a : Act}

/-! ## Requests and results in the history -/

/-- Requests and results are the ones the history tells of. -/
structure Described (L : Ledger) : Prop where
  prepared : ∀ (id : RequestID) (r : Request), L.requests[id]? = some r →
    ∃ p, .prepareRequest p ∈ L.trace ∧ p.id = id ∧ p.Describes r
  described : ∀ p, .prepareRequest p ∈ L.trace → (p.ibcInfo = none → p.spec.Bounded) ∧
    ∃ r : Request, L.requests[p.id]? = some r ∧ p.Describes r
  saved : ∀ s, .saveResult s ∈ L.trace → ∃ r : Request, L.requests[s.id]? = some r ∧
    s = r.saveRecord s.id s.reportCount s.blockTime s.status s.result
  result : ∀ id : RequestID, L.results[id]? = (savedHashes id L.trace).getLast?

lemma Fresh.described (h : L.Fresh) : L.Described where
  prepared := by
    intro id r hr
    simp [h.requests] at hr
  described := by simp [h.trace]
  saved := by simp [h.trace]
  result := by simp [h.trace, h.results, savedHashes]

/-- The calls `cs` that a step adds to the history, against the ledgers before and after. -/
structure News (L L' : Ledger) (cs : List Call) : Prop where
  numbered : ∀ p, .prepareRequest p ∈ cs → p.id = L.requestCount + 1
  prepared : ∀ p, .prepareRequest p ∈ cs → (p.ibcInfo = none → p.spec.Bounded) ∧
    ∃ r : Request, L'.requests[p.id]? = some r ∧ p.Describes r
  saved : ∀ s, .saveResult s ∈ cs → ∃ r : Request, L.requests[s.id]? = some r ∧
    s = r.saveRecord s.id s.reportCount s.blockTime s.status s.result
  result : ∀ id : RequestID, L'.results[id]? = (savedHashes id cs).getLast?.or L.results[id]?

lemma News.of_plain {cs : List Call} (hcs : ∀ c ∈ cs, c.IsPlain) (hres : L'.results = L.results) :
    News L L' cs where
  numbered := fun _ hp => (hcs _ hp).elim
  prepared := fun _ hp => (hcs _ hp).elim
  saved := fun _ hs => (hcs _ hs).elim
  result := by
    intro id
    rw [savedHashes_plain hcs, hres]
    rfl

/-- A saved result among plain calls. -/
lemma News.of_save {cs ds : List Call} {s : SaveRecord} {r : Request}
    (hr : L.requests[s.id]? = some r)
    (hs : s = r.saveRecord s.id s.reportCount s.blockTime s.status s.result)
    (hcs : ∀ c ∈ cs, c.IsPlain) (hds : ∀ c ∈ ds, c.IsPlain)
    (hres : L'.results = L.results.insert s.id s.hash) :
    News L L' (cs ++ .saveResult s :: ds) := by
  have hnone : ∀ p, .prepareRequest p ∉ cs ++ .saveResult s :: ds := by
    intro p hp
    rcases List.mem_append.mp hp with hp | hp
    · exact (hcs _ hp).elim
    · rcases List.mem_cons.mp hp with hp | hp
      · cases hp
      · exact (hds _ hp).elim
  refine ⟨fun p hp => (hnone p hp).elim, fun p hp => (hnone p hp).elim, fun s' hs' => ?_,
    fun id => ?_⟩
  · rcases List.mem_append.mp hs' with hs' | hs'
    · exact (hcs _ hs').elim
    · rcases List.mem_cons.mp hs' with hs' | hs'
      · cases hs'
        exact ⟨r, hr, hs⟩
      · exact (hds _ hs').elim
  · rw [savedHashes_append, savedHashes_plain hcs, savedHashes_cons, savedHashes_plain hds, hres]
    by_cases hid : s.id = id
    · subst hid
      simp
    · simp [hid, Table.getElem?_insert_ne _ _ hid]

/-- The history grows by the news of the step. -/
lemma Step.news (hst : Step L a L') : ∃ cs, L'.trace = L.trace ++ cs ∧ News L L' cs := by
  cases hst with
  | quiet _ hcs =>
    exact ⟨_, rfl, .of_plain (fun c hc => (hcs c hc).isPlain) rfl⟩
  | @request p r hid hdesc _ hbound =>
    refine ⟨_, rfl, ?_, ?_, ?_, ?_⟩
    · intro q hq
      obtain rfl : q = p := by simpa using hq
      exact hid
    · intro q hq
      obtain rfl : q = p := by simpa using hq
      refine ⟨hbound, r, ?_, hdesc⟩
      rw [hid, Table.getElem?_insert_self]
    · intro s hs
      simp at hs
    · intro id
      simp [savedHashes, log]
  | report _ _ _ => exact ⟨_, rfl, .of_plain (by simp [Call.IsPlain]) rfl⟩
  | reportLast _ _ _ => exact ⟨_, rfl, .of_plain (by simp [Call.IsPlain]) rfl⟩
  | @resolve id rest r exitCode retdata time cs s _ hr hs hsend =>
    refine ⟨[.execute id exitCode retdata] ++ .saveResult s :: ([.event s.event] ++ cs), ?_, ?_⟩
    · simp [log, save]
    · exact .of_save (by rw [hs]; exact hr) (by rw [hs]; rfl) (by simp [Call.IsPlain])
        (hsend.isPlain_event s.event) rfl
  | @expire r time cs s _ hr _ _ hs hsend =>
    refine ⟨[.processExpired (L.requestLastExpired + 1)] ++
      .saveResult s :: ([.event s.event] ++ cs), ?_, ?_⟩
    · simp [log, save]
    · exact .of_save (by rw [hs]; exact hr) (by rw [hs]; rfl) (by simp [Call.IsPlain])
        (hsend.isPlain_event s.event) rfl
  | pass _ _ _ _ => exact ⟨_, rfl, .of_plain (by simp [Call.IsPlain]) rfl⟩

lemma Step.requestCount_le (hst : Step L a L') : L.requestCount ≤ L'.requestCount := by
  cases hst with
  | request _ _ _ _ => exact Int.le_add_one le_rfl
  | _ => exact le_rfl

lemma Described.step (h : L.Described) (hS : L.Stored) (hst : Step L a L') : L'.Described := by
  obtain ⟨cs, htrace, hnews⟩ := hst.news
  have hstable : ∀ (id : RequestID) (r : Request), L.requests[id]? = some r →
      L'.requests[id]? = some r := fun _ _ hr => hS.request_stable hst hr
  refine ⟨fun id r hr => ?_, fun p hp => ?_, fun s hs => ?_, fun id => ?_⟩
  · rcases hold : L.requests[id]? with _ | r'
    · -- the request is new, so this step prepared it
      cases hst with
      | @request p q hid hdesc _ _ =>
        by_cases hn : L.requestCount + 1 = id
        · subst hn
          simp only [Table.getElem?_insert_self, Option.some.injEq] at hr
          subst hr
          exact ⟨p, List.mem_append_right _ (List.mem_singleton.mpr rfl), hid, hdesc⟩
        · simp only [Table.getElem?_insert_ne _ _ hn] at hr
          exact absurd (hold.symm.trans hr) (by simp)
      | _ => exact absurd (hold.symm.trans hr) (by simp)
    · obtain rfl := Option.some.inj ((hstable id r' hold).symm.trans hr)
      obtain ⟨p, hp, hpid, hdesc⟩ := h.prepared id r' hold
      exact ⟨p, by rw [htrace]; exact List.mem_append_left _ hp, hpid, hdesc⟩
  · rw [htrace] at hp
    rcases List.mem_append.mp hp with hp | hp
    · obtain ⟨hbound, r, hr, hdesc⟩ := h.described p hp
      exact ⟨hbound, r, hstable _ _ hr, hdesc⟩
    · exact hnews.prepared p hp
  · rw [htrace] at hs
    rcases List.mem_append.mp hs with hs | hs
    · obtain ⟨r, hr, hrec⟩ := h.saved s hs
      exact ⟨r, hstable _ _ hr, hrec⟩
    · obtain ⟨r, hr, hrec⟩ := hnews.saved s hs
      exact ⟨r, hstable _ _ hr, hrec⟩
  · rw [htrace, hnews.result, savedHashes_append, List.getLast?_append, h.result]

/-! ## Counting calls -/

/-- As many reports were set as are stored; a request was queued at most once, and exactly if
it is resolvable; and it was executed as often as it left the queue. -/
structure Counted (L : Ledger) : Prop where
  reports : ∀ id, L.trace.countP (Call.isSetReport id) = L.reportCount id
  queued_le : ∀ id, L.trace.countP (Call.isAddPendingRequest id) ≤ 1
  queued_iff : ∀ id, 0 < L.trace.countP (Call.isAddPendingRequest id) ↔ L.Resolvable id
  executed : ∀ id, L.trace.countP (Call.isExecute id) + L.pending.count id =
    L.trace.countP (Call.isAddPendingRequest id)

lemma Fresh.counted (h : L.Fresh) : L.Counted where
  reports := by
    intro id
    rw [h.reported.reportCount_eq_zero (by simp [h.requests]), h.trace]
    rfl
  queued_le := by simp [h.trace]
  queued_iff := by
    intro id
    simp [h.trace, Resolvable, h.requests]
  executed := by
    intro id
    rw [h.trace, h.pending]
    rfl

/-- The counts survive a step whose new calls account for what it changes. -/
lemma Counted.extend (h : L.Counted) {cs : List Call} (htrace : L'.trace = L.trace ++ cs)
    (hrep : ∀ id, L'.reportCount id = L.reportCount id + cs.countP (Call.isSetReport id))
    (hqueue : ∀ id, cs.countP (Call.isAddPendingRequest id) ≤ 1 ∧
      (L.Resolvable id → cs.countP (Call.isAddPendingRequest id) = 0) ∧
      (L'.Resolvable id ↔
        L.Resolvable id ∨ 0 < cs.countP (Call.isAddPendingRequest id)))
    (hexec : ∀ id, cs.countP (Call.isExecute id) + L'.pending.count id =
      L.pending.count id + cs.countP (Call.isAddPendingRequest id)) : L'.Counted := by
  refine ⟨fun id => ?_, fun id => ?_, fun id => ?_, fun id => ?_⟩
  · rw [htrace, List.countP_append, h.reports, hrep]
  · have hold := h.queued_le id
    have hiff := h.queued_iff id
    obtain ⟨hle, hzero, _⟩ := hqueue id
    rw [htrace, List.countP_append]
    by_cases hres : L.Resolvable id
    · rw [hzero hres]
      exact hold
    · rw [← hiff] at hres
      omega
  · rw [htrace, List.countP_append, (hqueue id).2.2, ← h.queued_iff id]
    omega
  · have hold := h.executed id
    have hnew := hexec id
    rw [htrace, List.countP_append, List.countP_append]
    omega

/-- A step that touches neither reports nor the queue. -/
lemma Counted.extend_uncounted (h : L.Counted) {cs : List Call}
    (htrace : L'.trace = L.trace ++ cs) (hcs : ∀ c ∈ cs, c.IsUncounted)
    (hreports : L'.reports = L.reports) (hpending : L'.pending = L.pending)
    (hiff : ∀ id, L'.Resolvable id ↔ L.Resolvable id) : L'.Counted := by
  have hzero := countP_uncounted hcs
  refine h.extend htrace (fun id => ?_) (fun id => ?_) (fun id => ?_)
  · rw [(hzero id).1, reportCount_congr hreports, Nat.add_zero]
  · simp [(hzero id).2.1, hiff id]
  · rw [(hzero id).2.1, (hzero id).2.2, hpending, Nat.zero_add, Nat.add_zero]

lemma Counted.step_report (h : L.Counted) {rid : RequestID} {rep : Report}
    (hst : Step L (.report rid rep) L') : L'.Counted := by
  obtain ⟨r, hr, hacc, hreq, _, _, hins, hqueue⟩ := hst.of_report
  have hiff : ∀ id, L'.Resolvable id ↔
      L.Resolvable id ∨ id = rid ∧ L.reportCount rid + 1 = r.minCount.toNat :=
    fun _ => resolvable_insert hr hacc hreq hins
  have hcount : ∀ id, L'.reportCount id = L.reportCount id + if rid = id then 1 else 0 := by
    intro id
    by_cases hid : rid = id
    · subst hid
      simp [reportCount_insert_self hins hacc.fresh]
    · simp [reportCount_insert_ne hins hid, hid]
  rcases hqueue with ⟨hne, hpd, htrace⟩ | ⟨heq, hpd, htrace⟩
  · refine h.extend htrace (fun id => ?_) (fun id => ?_) (fun id => ?_)
    · simp [Call.isSetReport, hcount]
    · simp [Call.isAddPendingRequest, hiff, hne]
    · simp [Call.isExecute, Call.isAddPendingRequest, hpd]
  · -- the request was not resolvable before this report
    have hnot : ¬L.Resolvable rid := by
      rintro ⟨q, hq, _, hle⟩
      obtain rfl := Option.some.inj (hr.symm.trans hq)
      omega
    refine h.extend htrace (fun id => ?_) (fun id => ?_) (fun id => ?_)
    · simp [Call.isSetReport, hcount, List.countP_cons]
    · by_cases hid : rid = id
      · subst hid
        simp [Call.isAddPendingRequest, hiff, heq, hnot]
      · simp [Call.isAddPendingRequest, hiff, hid, Ne.symm hid]
    · simp [Call.isExecute, Call.isAddPendingRequest, hpd, List.count_singleton]

lemma Counted.step (h : L.Counted) (hI : L.Inv) (hst : Step L a L') : L'.Counted := by
  cases a with
  | quiet =>
    cases hst with
    | quiet _ hcs =>
      exact h.extend_uncounted rfl (fun c hc => (hcs c hc).isUncounted) rfl rfl fun _ => Iff.rfl
  | request p =>
    have hiff : ∀ id, L'.Resolvable id ↔ L.Resolvable id :=
      fun _ => resolvable_request hI.stored hI.reported hst
    cases hst with
    | request _ _ _ _ =>
      exact h.extend_uncounted rfl (by simp [Call.IsUncounted]) rfl rfl hiff
  | report rid rep => exact h.step_report hst
  | resolve id =>
    obtain ⟨rest, r, exitCode, retdata, _, cs, s, hpd, _, _, hsend, hreq, hrep, _, hpd', _,
      htrace⟩ := hst.of_resolve
    have hzero := countP_uncounted hsend.isUncounted
    refine h.extend htrace (fun x => ?_) (fun x => ?_) (fun x => ?_)
    · simp [reportCount_congr hrep, Call.isSetReport, (hzero x).1]
    · simp [resolvable_congr hreq hrep, Call.isAddPendingRequest, (hzero x).2.1]
    · simp [hpd, hpd', List.countP_cons, List.count_cons, Call.isExecute, Call.isAddPendingRequest,
        (hzero x).2.1, (hzero x).2.2, Nat.add_comm]
  | expire id =>
    obtain ⟨_, _, _, _, hreq, hrep, hpd', _, r, _, hcase⟩ := hst.of_expire
    have hiff : ∀ x, L'.Resolvable x ↔ L.Resolvable x := fun _ => resolvable_congr hreq hrep
    rcases hcase with ⟨_, cs, s, _, _, hsend, _, htrace⟩ | ⟨_, _, htrace⟩
    · refine h.extend_uncounted htrace ?_ hrep hpd' hiff
      intro c hc
      simp only [List.mem_cons] at hc
      rcases hc with rfl | rfl | rfl | hc
      · trivial
      · trivial
      · trivial
      · exact hsend.isUncounted c hc
    · exact h.extend_uncounted htrace (by simp [Call.IsUncounted]) hrep hpd' hiff

/-! ## What must have happened before -/

/-- A call to queue, to execute or to save is explained by the calls before it: a request is
queued right after the report that makes it resolvable, it is executed when it has enough
reports, and its result is the outcome of the execution or of the expiry just before. -/
def Explained (pre : List Call) : Call → Prop
  | .addPendingRequest id => ∃ p v, .prepareRequest p ∈ pre ∧ p.id = id ∧
      pre.getLast? = some (.setReport id v) ∧
      pre.countP (Call.isSetReport id) = p.spec.minCount.toNat
  | .execute id _ _ => ∃ p, .prepareRequest p ∈ pre ∧ p.id = id ∧ 1 ≤ p.spec.minCount.toNat ∧
      p.spec.minCount.toNat ≤ pre.countP (Call.isSetReport id)
  | .saveResult s => s.reportCount = pre.countP (Call.isSetReport s.id) ∧
      ((∃ exitCode retdata, pre.getLast? = some (.execute s.id exitCode retdata) ∧
          (s.status, s.result) = outcome exitCode retdata) ∨
        pre.getLast? = some (.processExpired s.id) ∧ s.status = .expired ∧ s.result = [])
  | _ => True

lemma explained_quiet {c : Call} (h : c.IsQuiet) (pre : List Call) : Explained pre c := by
  cases c <;> first | exact h.elim | trivial

lemma explained_sends {r : Request} {res : OracleResponsePacketData} {cs : List Call}
    (h : Sends r res cs) : ∀ c ∈ cs, ∀ pre, Explained pre c := by
  cases h with
  | nothing => simp
  | packet _ _ _ _ => simp [Explained]

lemma Described.explained_step (h : L.Described) (hC : L.Counted) (hQ : L.Queued)
    (hst : Step L a L') : ∃ cs, L'.trace = L.trace ++ cs ∧ AlongFrom Explained L.trace cs := by
  cases a with
  | quiet =>
    cases hst with
    | quiet _ hcs =>
      exact ⟨_, rfl, alongFrom_of_forall fun c hc pre => explained_quiet (hcs c hc) pre⟩
  | request p =>
    cases hst with
    | request _ _ _ _ => exact ⟨_, rfl, by simp [Explained]⟩
  | report rid rep =>
    obtain ⟨r, hr, _, _, _, _, _, hqueue⟩ := hst.of_report
    rcases hqueue with ⟨_, _, htrace⟩ | ⟨heq, _, htrace⟩
    · exact ⟨_, htrace, by simp [Explained]⟩
    · refine ⟨_, htrace, trivial, ?_, trivial⟩
      obtain ⟨p, hp, hpid, hdesc⟩ := h.prepared rid r hr
      refine ⟨p, rep.validator, List.mem_append_left _ hp, hpid, by simp, ?_⟩
      rw [List.countP_append, hC.reports, ← hdesc.minCount, ← heq]
      simp [Call.isSetReport]
  | resolve id =>
    obtain ⟨rest, r, exitCode, retdata, time, cs, s, hpd, hr, hs, hsend, _, _, _, _, _, htrace⟩ :=
      hst.of_resolve
    refine ⟨_, htrace, ?_, ?_, trivial, alongFrom_of_forall (explained_sends hsend)⟩
    · obtain ⟨p, hp, hpid, hdesc⟩ := h.prepared id r hr
      obtain ⟨q, hq, hpos, hle⟩ := hQ.resolvable id (by rw [hpd]; exact List.mem_cons_self)
      obtain rfl := Option.some.inj (hr.symm.trans hq)
      refine ⟨p, hp, hpid, ?_, ?_⟩
      · rw [← hdesc.minCount]
        exact hpos
      · rw [← hdesc.minCount, hC.reports]
        exact hle
    · subst hs
      refine ⟨?_, .inl ⟨exitCode, retdata, by simp [Request.saveRecord], rfl⟩⟩
      rw [List.countP_append, Request.saveRecord, hC.reports]
      simp [Call.isSetReport]
  | expire id =>
    obtain ⟨_, _, _, _, _, _, _, _, r, _, hcase⟩ := hst.of_expire
    rcases hcase with ⟨time, cs, s, _, hs, hsend, _, htrace⟩ | ⟨_, _, htrace⟩
    · refine ⟨_, htrace, trivial, ?_, trivial, alongFrom_of_forall (explained_sends hsend)⟩
      subst hs
      refine ⟨?_, .inr ⟨by simp [Request.saveRecord], rfl, rfl⟩⟩
      rw [List.countP_append, Request.saveRecord, hC.reports]
      simp [Call.isSetReport]
    · exact ⟨_, htrace, trivial, trivial⟩

/-! ## The history of a run -/

/-- Everything above. -/
structure Recorded (L : Ledger) : Prop extends L.Inv where
  described : L.Described
  counted : L.Counted
  explained : Along Explained L.trace

lemma Fresh.recorded (h : L.Fresh) : L.Recorded where
  toInv := h.inv
  described := h.described
  counted := h.counted
  explained := by simp [h.trace]

lemma Recorded.step (h : L.Recorded) (hst : Step L a L') : L'.Recorded := by
  obtain ⟨cs, htrace, hcs⟩ := h.described.explained_step h.counted h.queued hst
  refine ⟨h.toInv.step hst, h.described.step h.stored hst, h.counted.step h.toInv hst, ?_⟩
  rw [htrace]
  exact along_append.mpr ⟨h.explained, hcs⟩

/-- The two records of one request, stored under the same identifier, say the same. -/
lemma Described.describes (h : L.Described) {p : PrepareRecord} {r : Request}
    (hp : .prepareRequest p ∈ L.trace) (hr : L.requests[p.id]? = some r) : p.Describes r := by
  obtain ⟨_, q, hq, hdesc⟩ := h.described p hp
  obtain rfl := Option.some.inj (hr.symm.trans hq)
  exact hdesc

end Ledger
end Bandchain.Oracle
