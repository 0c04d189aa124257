import Bandchain.Oracle.Effects
import Bandchain.Oracle.EndBlock

/-!
# Expiry

The expiry loop goes through the requests in the order of their numbers, stops at the first one
that is still open and never looks back.  That is right because heights grow with the numbers:
whatever the expiration window is at the end of a block, the requests that are due are the
first ones after the cursor.
-/

namespace Bandchain.Oracle

open Exec

/-! ## Heights -/

/-- Requests were made in the order of their numbers, and not after the current block. -/
structure World.HeightsOrdered (w : World) : Prop where
  mono : ∀ (i j : ℤ) (r q : Request), i ≤ j → w.store.requests[i]? = some r →
    w.store.requests[j]? = some q → r.requestHeight ≤ q.requestHeight
  le : ∀ (i : ℤ) (r : Request), w.store.requests[i]? = some r → r.requestHeight ≤ w.header.height

lemma World.HeightsOrdered.of_same {w w' : World} (h : w.HeightsOrdered)
    (hrequests : w'.store.requests = w.store.requests)
    (hheight : w.header.height ≤ w'.header.height) : w'.HeightsOrdered := by
  refine ⟨?_, ?_⟩
  · rw [hrequests]
    exact h.mono
  · rw [hrequests]
    exact fun i r hr => (h.le i r hr).trans hheight

/-- A new request comes after all others. -/
lemma World.HeightsOrdered.addRequest {w : World} (h : w.HeightsOrdered) (hS : w.ledger.Stored)
    {p : PrepareRecord} {r : Request} (hheight : r.requestHeight = w.header.height) :
    (w.addRequest p r).HeightsOrdered := by
  have hle : ∀ (i : ℤ) (q : Request), (w.addRequest p r).store.requests[i]? = some q →
      q.requestHeight ≤ w.header.height := by
    intro i q hq
    by_cases hi : w.store.getRequestCount + 1 = i
    · subst hi
      obtain rfl := Option.some.inj ((Table.getElem?_insert_self _ _ _).symm.trans hq)
      exact hheight.le
    · exact h.le i q ((Table.getElem?_insert_ne _ _ hi).symm.trans hq)
  refine ⟨fun i j q q' hij hq hq' => ?_, hle⟩
  by_cases hj : w.store.getRequestCount + 1 = j
  · subst hj
    obtain rfl := Option.some.inj ((Table.getElem?_insert_self _ _ _).symm.trans hq')
    rw [hheight]
    exact hle i q hq
  · have hq'' := (Table.getElem?_insert_ne _ _ hj).symm.trans hq'
    have hjle : j ≤ w.store.getRequestCount := ((hS.stored j).mp ⟨q', hq''⟩).2
    have hi : w.store.getRequestCount + 1 ≠ i := by omega
    exact h.mono i j q q' hij ((Table.getElem?_insert_ne _ _ hi).symm.trans hq) hq''

lemma heightsOrdered_step {k : Keeper} {w w' : World} {l : Label} (hS : w.ledger.Stored)
    (h : Step k w l w') (hw : w.HeightsOrdered) : w'.HeightsOrdered := by
  cases step_turn h with
  | aside haside => exact hw.of_same haside.requests haside.height
  | @request _ _ _ _ p r _ hprep =>
    obtain ⟨cs, rfl, _⟩ := hprep.logs
    have hadd : (w.addRequest p r).HeightsOrdered := hw.addRequest hS hprep.height
    exact hadd.of_same rfl le_rfl
  | report _ _ _ hlogs =>
    obtain ⟨cs, rfl, _⟩ := hlogs
    unfold World.acceptReport
    split_ifs <;> exact hw.of_same rfl le_rfl
  | endBlock hrun =>
    have hsame := sameSetting_handleEndBlock hrun
    exact hw.of_same hsame.requests (congrArg Header.height hsame.header).ge

lemma heightsOrdered_of_reachable {k : Keeper} {w : World} (h : ReachableWorld k w) :
    w.HeightsOrdered := by
  have hI : ReachableWorld k w ∧ w.HeightsOrdered := by
    refine h.invariant (I := fun w => ReachableWorld k w ∧ w.HeightsOrdered) ?_ ?_
    · intro w h₀
      refine ⟨.of_init h₀, ?_, ?_⟩
      · intro i j r q _ hr
        rw [h₀.1, (fresh_initGenesis _).requests] at hr
        simp at hr
      · intro i r hr
        rw [h₀.1, (fresh_initGenesis _).requests] at hr
        simp at hr
    · rintro w l w' hst ⟨hw, hheights⟩
      exact ⟨hw.of_run (.single trivial hst),
        heightsOrdered_step (recorded_of_reachable hw).stored hst hheights⟩
  exact hI.2

/-! ## The processed requests -/

/-- The requests that the expiry loop has processed, in order. -/
def processed (t : List Call) : List RequestID :=
  t.filterMap fun
    | .processExpired id => some id
    | _ => none

/-- The numbers after `a` up to `b`. -/
def idsBetween (a b : ℤ) : List ℤ := (List.range (b - a).toNat).map fun i : ℕ => a + 1 + i

lemma mem_idsBetween {a b id : ℤ} : id ∈ idsBetween a b ↔ a < id ∧ id ≤ b := by
  simp only [idsBetween, List.mem_map, List.mem_range]
  constructor
  · rintro ⟨i, hi, rfl⟩
    omega
  · rintro ⟨h1, h2⟩
    exact ⟨(id - a - 1).toNat, by omega, by omega⟩

lemma idsBetween_self (a : ℤ) : idsBetween a a = [] := by
  simp [idsBetween]

lemma idsBetween_append {a b c : ℤ} (hab : a ≤ b) (hbc : b ≤ c) :
    idsBetween a c = idsBetween a b ++ idsBetween b c := by
  have hsplit : (c - a).toNat = (b - a).toNat + (c - b).toNat := by omega
  rw [idsBetween, hsplit, List.range_add, List.map_append, List.map_map, idsBetween, idsBetween]
  congr 1
  refine List.map_congr_left fun i _ => ?_
  show a + 1 + (((b - a).toNat + i : ℕ) : ℤ) = b + 1 + i
  push_cast
  omega

lemma idsBetween_succ (a : ℤ) : idsBetween a (a + 1) = [a + 1] := by
  simp [idsBetween]

lemma processed_append (t u : List Call) : processed (t ++ u) = processed t ++ processed u :=
  List.filterMap_append

lemma processed_quiet {cs : List Call} (h : ∀ c ∈ cs, c.IsQuiet) : processed cs = [] := by
  rw [processed, List.filterMap_eq_nil_iff]
  intro c hc
  have hq := h c hc
  cases c with
  | processExpired id => exact hq.elim
  | _ => rfl

lemma processed_sends {r : Request} {res : OracleResponsePacketData} {cs : List Call}
    (h : Sends r res cs) : processed cs = [] := by
  cases h with
  | nothing => rfl
  | packet _ _ _ _ => rfl

namespace Ledger

variable {L L' : Ledger} {a : Act}

lemma processed_of_same {cs : List Call} (hcursor : L'.requestLastExpired = L.requestLastExpired)
    (htrace : L'.trace = L.trace ++ cs) (hcs : processed cs = []) :
    L.requestLastExpired ≤ L'.requestLastExpired ∧ processed L'.trace =
      processed L.trace ++ idsBetween L.requestLastExpired L'.requestLastExpired := by
  rw [hcursor, idsBetween_self, htrace, processed_append, hcs]
  exact ⟨le_rfl, rfl⟩

/-- The cursor moves one request at a time, and the history says so. -/
lemma Step.processes (hst : Step L a L') :
    L.requestLastExpired ≤ L'.requestLastExpired ∧ processed L'.trace =
      processed L.trace ++ idsBetween L.requestLastExpired L'.requestLastExpired := by
  cases a with
  | quiet =>
    cases hst with
    | quiet _ hcs => exact processed_of_same rfl rfl (processed_quiet hcs)
  | request p =>
    cases hst with
    | request _ _ _ _ =>
      exact processed_of_same rfl (rfl : _ = L.trace ++ [Call.prepareRequest p]) rfl
  | report rid rep =>
    obtain ⟨r, _, _, _, _, hcursor, _, hqueue⟩ := hst.of_report
    rcases hqueue with ⟨_, _, htrace⟩ | ⟨_, _, htrace⟩
    · exact processed_of_same hcursor htrace rfl
    · exact processed_of_same hcursor htrace rfl
  | resolve id =>
    obtain ⟨_, _, _, _, _, cs, s, _, _, _, hsend, _, _, hcursor, _, _, htrace⟩ := hst.of_resolve
    have hcs : processed cs = [] := processed_sends hsend
    exact processed_of_same hcursor htrace hcs
  | expire id =>
    obtain ⟨rfl, _, _, _, _, _, _, hcursor, r, _, hcase⟩ := hst.of_expire
    rw [hcursor, idsBetween_succ]
    refine ⟨Int.le_add_one le_rfl, ?_⟩
    rcases hcase with ⟨_, cs, s, _, _, hsend, _, htrace⟩ | ⟨_, _, htrace⟩
    · have hcs : processed cs = [] := processed_sends hsend
      rw [htrace, processed_append]
      exact congrArg (fun ids => _ ++ _ :: ids) hcs
    · rw [htrace, processed_append]
      rfl

end Ledger

/-- The requests processed so far are those up to the cursor, in order. -/
lemma processed_of_run {k : Keeper} {data : GenesisState} {w₀ w : World} {ls : List Label}
    (h₀ : Starts data w₀) (hres : data.results = []) (hrun : Run (Step k) w₀ ls w) :
    processed w.trace = idsBetween 0 w.store.getRequestLastExpired := by
  have hfresh := fresh_of_starts h₀ hres
  have hI := ledger_invariant (Q := fun _ _ => True) (I := fun L => 0 ≤ L.requestLastExpired ∧
      processed L.trace = idsBetween 0 L.requestLastExpired)
    (fun _ _ _ _ _ _ => trivial) ?_ hrun (scriptsBounded_of_starts h₀) ?_
  · exact hI.2
  · rintro L a L' - hst ⟨h0, hL⟩
    obtain ⟨hle, hprocessed⟩ := hst.processes
    refine ⟨h0.trans hle, ?_⟩
    rw [hprocessed, hL, idsBetween_append h0 hle]
  · rw [hfresh.requestLastExpired, hfresh.trace]
    exact ⟨le_rfl, rfl⟩

lemma processed_of_reachable {k : Keeper} {w : World} (h : ReachableWorld k w) :
    processed w.trace = idsBetween 0 w.store.getRequestLastExpired := by
  obtain ⟨w₀, ls, h₀, hrun⟩ := h
  exact processed_of_run h₀ rfl hrun

/-- The cursor never moves back. -/
lemma cursor_le_of_step {k : Keeper} {w w' : World} {l : Label} (hb : w.ScriptsBounded)
    (h : Step k w l w') : w.store.getRequestLastExpired ≤ w'.store.getRequestLastExpired := by
  obtain ⟨_, acts, hacts⟩ := step_refines hb h
  exact hacts.invariant (I := fun L => w.store.getRequestLastExpired ≤ L.requestLastExpired)
    (fun _ hst hL => hL.trans hst.processes.1) le_rfl

/-! ## The loop -/

lemma cursor_expireRequest {k : Keeper} {w w' : World} {id : RequestID} {r : Request} {u : Unit}
    (h : (expireRequest k id r).run w = .ok u w') : w'.store.getRequestLastExpired = id := by
  have hfinish : ∀ {w₁ : World}, (do
      updateReportInfos k id
      modifyStore fun s => { s with requestLastExpired := some id } : OracleM Unit).run w₁ =
      .ok u w' → w'.store.getRequestLastExpired = id := by
    intro w₁ h₁
    rw [Store.getRequestLastExpired, (finishExpire_eq_ok h₁).requestLastExpired]
    rfl
  rw [expireRequest, run_get_bind, run_record_bind] at h
  split_ifs at h with hcount
  · obtain ⟨_, w₁, _, h⟩ := bind_eq_ok.mp h
    obtain ⟨_, w₂, _, h⟩ := bind_eq_ok.mp h
    exact hfinish h
  · exact hfinish h

lemma sameSetting_expireRequest {k : Keeper} {w w' : World} {id : RequestID} {r : Request}
    {u : Unit} (h : (expireRequest k id r).run w = .ok u w') : SameSetting w w' := by
  have := (endBlockKeeps_sameSetting k).exits_expireRequest id r w
  rwa [ExitsAt, h] at this

/-- The loop moves the cursor over requests that have expired, and stops at one that has not or
after `n` requests. -/
lemma processExpiredLoop_spec {k : Keeper} {window : ℤ} {n : ℕ} {id : RequestID} {w w' : World}
    {u : Unit} (hid : id = w.store.getRequestLastExpired + 1)
    (h : (processExpiredLoop k window n id).run w = .ok u w') :
    (∀ i : ℤ, w.store.getRequestLastExpired < i → i ≤ w'.store.getRequestLastExpired →
      ∃ r, w.store.requests[i]? = some r ∧
        notExpired r.requestHeight window w.header.height = false) ∧
      (w'.store.getRequestLastExpired < w.store.getRequestLastExpired + n →
        ∃ r, w.store.requests[w'.store.getRequestLastExpired + 1]? = some r ∧
          notExpired r.requestHeight window w.header.height = true) := by
  induction n generalizing w id with
  | zero =>
    obtain rfl := (EStateM.Result.ok.inj h).2
    exact ⟨fun i hlt hle => by omega, fun hlt => by omega⟩
  | succ n ih =>
    obtain ⟨r, hr, ⟨hopen, rfl⟩ | ⟨hopen, _, w₁, hexpire, hloop⟩⟩ :=
      processExpiredLoop_succ_eq_ok h
    · exact ⟨fun i hlt hle => by omega, fun _ => ⟨r, hid ▸ hr, hopen⟩⟩
    · have hcursor := cursor_expireRequest hexpire
      have hsame := sameSetting_expireRequest hexpire
      obtain ⟨hdue, hstop⟩ := ih (by rw [hcursor]) hloop
      rw [hcursor, hsame.requests, hsame.header] at hdue
      rw [hcursor, hsame.requests, hsame.header] at hstop
      refine ⟨fun i hlt hle => ?_, fun hlt => hstop ?_⟩
      · by_cases hi : i = id
        · subst hi
          exact ⟨r, hr, hopen⟩
        · refine hdue i ?_ hle
          rw [hid] at hi ⊢
          omega
      · rw [hid]
        push_cast at hlt
        omega

/-- The end of a block moves the cursor to the last of the first requests that have expired. -/
lemma handleEndBlock_expires {k : Keeper} {w w' : World} {u : Unit}
    (h : (handleEndBlock k).run w = .ok u w') :
    (∀ i : ℤ, w.store.getRequestLastExpired < i → i ≤ w'.store.getRequestLastExpired →
      ∃ r, w.store.requests[i]? = some r ∧ notExpired r.requestHeight
        (toInt64 w.store.params.expirationBlockCount.toNat) w.header.height = false) ∧
      (w'.store.getRequestLastExpired < w.store.getRequestCount →
        ∃ r, w.store.requests[w'.store.getRequestLastExpired + 1]? = some r ∧
          notExpired r.requestHeight (toInt64 w.store.params.expirationBlockCount.toNat)
            w.header.height = true) := by
  rw [handleEndBlock, run_get_bind] at h
  obtain ⟨_, w₁, hresolve, h⟩ := bind_eq_ok.mp h
  rw [run_modifyStore_bind, processExpiredRequests, run_get_bind] at h
  obtain ⟨results, hstore⟩ := store_resolveAll hresolve
  have hheader : w₁.header = w.header := by
    have hsame : Exits SameSetting (forM w.store.getPendingResolveList fun id =>
        resolveRequest k id) :=
      Exits.forM fun _ _ => (endBlockKeeps_sameSetting k).exits_resolveRequest _
    have := hsame w
    rw [ExitsAt, hresolve] at this
    exact this.header
  have hspec := processExpiredLoop_spec rfl h
  simp only [hstore, hheader, Store.getRequestLastExpired, Store.getRequestCount] at hspec
  refine ⟨hspec.1, fun hlt => hspec.2 ?_⟩
  have hlt' : w'.store.requestLastExpired.getD 0 < w.store.requestCount.getD 0 := hlt
  omega

/-! ## Expiry in order -/

/-- A number that fits a signed 64-bit integer. -/
def FitsInt64 (n : ℤ) : Prop := -2 ^ 63 ≤ n ∧ n < 2 ^ 63

/-- As long as the sum fits, there is no wrap-around. -/
lemma notExpired_eq_true {height count now : ℤ} (h : FitsInt64 (height + count)) :
    notExpired height (toInt64 count) now = true ↔ now < height + count := by
  obtain ⟨hlow, hhigh⟩ := h
  have hsum : toInt64 (height + toInt64 count) = height + count := by
    rw [toInt64, toInt64, Int.add_bmod_bmod, Int.bmod_def]
    split_ifs <;> omega
  rw [notExpired, hsum, decide_eq_true_iff]

/-- The height of the last block in which a request is open, plus one. -/
def World.closingHeight (w : World) (r : Request) : ℤ :=
  r.requestHeight + w.store.params.expirationBlockCount.toNat

/-- The step from `w` to `w'` expires requests in order. -/
structure ExpiresInOrder (w : World) (l : Label) (w' : World) : Prop where
  heights : ∀ (i j : ℤ) (r q : Request), i ≤ j → w'.store.requests[i]? = some r →
    w'.store.requests[j]? = some q → r.requestHeight ≤ q.requestHeight
  cursor_le : w.store.getRequestLastExpired ≤ w'.store.getRequestLastExpired
  /-- Over the whole run, each request was processed once, in order and without gaps. -/
  processed : processed w'.trace = idsBetween 0 w'.store.getRequestLastExpired
  /-- The end of a block processes requests that have expired, and leaves only open ones. -/
  endBlock : l = .endBlock →
    (∀ (id : ℤ) (r : Request), w.store.requests[id]? = some r → FitsInt64 (w.closingHeight r)) →
    ∃ ids, Oracle.processed w'.trace = Oracle.processed w.trace ++ ids ∧
      (∀ id ∈ ids, ∃ r, w.store.requests[id]? = some r ∧ w.closingHeight r ≤ w.header.height) ∧
      ∀ (id : ℤ) (r : Request), w'.store.getRequestLastExpired < id →
        w'.store.requests[id]? = some r → w.header.height < w.closingHeight r

lemma endBlock_expires {k : Keeper} {w w' : World} (hw : ReachableWorld k w)
    (hw' : ReachableWorld k w') (h : (handleEndBlock k).run w = .ok () w')
    (hfits : ∀ (id : ℤ) (r : Request), w.store.requests[id]? = some r →
      FitsInt64 (w.closingHeight r)) :
    ∃ ids, processed w'.trace = processed w.trace ++ ids ∧
      (∀ id ∈ ids, ∃ r, w.store.requests[id]? = some r ∧ w.closingHeight r ≤ w.header.height) ∧
      ∀ (id : ℤ) (r : Request), w'.store.getRequestLastExpired < id →
        w'.store.requests[id]? = some r → w.header.height < w.closingHeight r := by
  have hsame := sameSetting_handleEndBlock h
  have hS := (recorded_of_reachable hw).stored
  have hle := cursor_le_of_step (scriptsBounded_of_reachable hw) (step_endBlock_iff.mpr h)
  obtain ⟨hdue, hstop⟩ := handleEndBlock_expires h
  refine ⟨idsBetween w.store.getRequestLastExpired w'.store.getRequestLastExpired, ?_, ?_, ?_⟩
  · rw [processed_of_reachable hw, processed_of_reachable hw']
    exact idsBetween_append hS.lastExpired_nonneg hle
  · intro id hid
    obtain ⟨hlt, hid⟩ := mem_idsBetween.mp hid
    obtain ⟨r, hr, hexpired⟩ := hdue id hlt hid
    refine ⟨r, hr, not_lt.mp fun hnot => ?_⟩
    rw [(notExpired_eq_true (hfits id r hr)).mpr hnot] at hexpired
    cases hexpired
  · -- the first request after the cursor is open, and the others were made later
    intro id r hlt hr
    rw [hsame.requests] at hr
    have hid := (hS.stored id).mp ⟨r, hr⟩
    obtain ⟨q, hq, hopen⟩ := hstop (lt_of_lt_of_le hlt hid.2)
    have hheight := (heightsOrdered_of_reachable hw).mono _ id q r hlt hq hr
    rw [notExpired_eq_true (hfits _ q hq)] at hopen
    exact hopen.trans_le (Int.add_le_add_right hheight _)

/-- **Expiry.**  In every run, whatever the expiration window becomes between blocks, requests
expire in the order of their numbers, each once; after a block only open requests are left. -/
theorem expiresInOrder_of_run {k : Keeper} {w₀ w w' : World} {ls : List Label} {l : Label}
    (h₀ : Starts defaultGenesisState w₀) (hrun : Run (Step k) w₀ ls w) (h : Step k w l w') :
    ExpiresInOrder w l w' := by
  have hw : ReachableWorld k w := ⟨w₀, ls, h₀, hrun⟩
  have hw' : ReachableWorld k w' := hw.of_run (.single trivial h)
  refine ⟨(heightsOrdered_of_reachable hw').mono,
    cursor_le_of_step (scriptsBounded_of_reachable hw) h, processed_of_reachable hw', ?_⟩
  rintro rfl hfits
  exact endBlock_expires hw hw' (step_endBlock_iff.mp h) hfits

namespace Sample

/-- A request is made, and then the window is made so short that it expires in the next
block. -/
def shortWindow : List Label :=
  create askingScript ++ [.deliver (.requestData (requestMsg 2 1)), .endBlock,
    .updateParams { defaultParams with expirationBlockCount := 1 }, block 2]

end Sample

theorem expiresInOrder_shortWindow : ∃ w w',
    Run (Step Sample.keeper) Sample.genesis Sample.shortWindow w ∧
    Step Sample.keeper w .endBlock w' ∧ ExpiresInOrder w .endBlock w' ∧
    w'.store.getRequestLastExpired = 1 := by
  obtain ⟨w', hrun, hcursor⟩ := exists_runWhere (f := next Sample.keeper) (P := fun _ _ => True)
    (s := Sample.genesis) (Sample.shortWindow ++ [.endBlock])
    (I := fun w => w.store.getRequestLastExpired = 1) (by decide +kernel)
  obtain ⟨w, hfirst, hlast⟩ := hrun.split
  cases hlast with
  | cons _ hst hnil =>
    cases hnil
    exact ⟨w, w', hfirst, hst, expiresInOrder_of_run Sample.starts_genesis hfirst hst, hcursor⟩

end Bandchain.Oracle
