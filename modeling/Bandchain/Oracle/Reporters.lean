import Bandchain.Oracle.Effects

/-!
# Who may report

A validator appoints accounts to report for him, and dismisses them.  Whatever report is stored for
a validator came in a message of the validator himself, or of an account that he had appointed
before that message and had not dismissed in between.
-/

namespace Bandchain.Oracle

open Exec

/-! ## Appointments -/

/-- The validator has appointed the account, and has not dismissed it since. -/
def Store.Appointed (s : Store) (val : ValAddress) (addr : AccAddress) : Prop :=
  s.reporters[toLex (val, addr)]? = some ()

lemma isReporter_eq_true {s : Store} {val : ValAddress} {addr : AccAddress} :
    s.isReporter val addr = true ↔ val = addr ∨ s.Appointed val addr := by
  rw [Store.isReporter, Bool.or_eq_true, beq_iff_eq, Store.Appointed,
    Std.ExtTreeMap.contains_eq_isSome_getElem?, Option.isSome_iff_exists]
  exact or_congr_right ⟨fun ⟨_, h⟩ => h, fun h => ⟨_, h⟩⟩

section Step

variable {k : Keeper} {w w' : World} {l : Label} {val : ValAddress} {addr : AccAddress}

/-- Only the messages for reporters change who is one. -/
lemma reporters_step (h : Step k w l w') :
    w'.store.reporters = w.store.reporters ∨
      (∃ m, l = .deliver (.addReporter m) ∧ w'.store.reporters =
        w.store.reporters.insert (toLex (m.validator, m.reporter)) ()) ∨
      ∃ m, l = .deliver (.removeReporter m) ∧ w'.store.reporters =
        w.store.reporters.erase (toLex (m.validator, m.reporter)) := by
  cases step_effect h with
  | beginBlock _ | rejected _ | writeFile | updateParams _ | updateStaking | updateChannels =>
    exact .inl rfl
  | createDataSource _ _ hlogs | editDataSource _ _ _ _ hlogs | createOracleScript _ _ hlogs
  | editOracleScript _ _ _ _ hlogs =>
    obtain ⟨cs, rfl, -⟩ := hlogs
    exact .inl rfl
  | @addReporter m _ _ hlogs =>
    obtain ⟨cs, rfl, -⟩ := hlogs
    exact .inr (.inl ⟨m, rfl, rfl⟩)
  | @removeReporter m _ hlogs =>
    obtain ⟨cs, rfl, -⟩ := hlogs
    exact .inr (.inr ⟨m, rfl, rfl⟩)
  | request _ hprep =>
    obtain ⟨cs, rfl, -⟩ := hprep.logs
    exact .inl rfl
  | report _ _ _ hlogs =>
    obtain ⟨cs, rfl, -⟩ := hlogs
    unfold World.acceptReport
    split_ifs <;> exact .inl rfl
  | endBlock hrun => exact .inl (sameSetting_handleEndBlock hrun).reporters

/-- A validator appoints an account by a message. -/
lemma exists_addReporter_of_appointed (h : Step k w l w') (hnot : ¬w.store.Appointed val addr)
    (happ : w'.store.Appointed val addr) : l = .deliver (.addReporter ⟨val, addr⟩) := by
  rw [Store.Appointed] at hnot happ
  rcases reporters_step h with heq | ⟨m, rfl, heq⟩ | ⟨m, rfl, heq⟩
  · exact absurd (heq ▸ happ) hnot
  · by_cases hkey : toLex (val, addr) = toLex (m.validator, m.reporter)
    · obtain ⟨rfl, rfl⟩ := Prod.mk.inj (toLex_inj.mp hkey)
      rfl
    · rw [heq, Table.getElem?_insert_ne _ _ (Ne.symm hkey)] at happ
      exact absurd happ hnot
  · rw [heq, Std.ExtTreeMap.getElem?_erase] at happ
    split_ifs at happ
    exact absurd happ hnot

/-- A report is stored by a message that carries it. -/
lemma exists_reportData_of_stored {rid : RequestID} {rep : Report} (h : Step k w l w')
    (hnot : w.store.reports[toLex (rid, val)]? ≠ some rep)
    (hrep : w'.store.reports[toLex (rid, val)]? = some rep) :
    ∃ m, l = .deliver (.reportData m) ∧ m.requestID = rid ∧ m.validator = val ∧
      rep = m.report w ∧ w.store.isReporter val m.reporter = true := by
  cases step_turn h with
  | aside haside => exact absurd (haside.reports ▸ hrep) hnot
  | request _ hprep =>
    obtain ⟨cs, rfl, -⟩ := hprep.logs
    exact absurd hrep hnot
  | @report m r _ _ hreporter _ hlogs =>
    obtain ⟨cs, rfl, -⟩ := hlogs
    have hreports : ((w.acceptReport m.requestID r (m.report w)).log cs).store.reports =
        w.store.reports.insert (toLex (m.requestID, m.validator)) (m.report w) := by
      unfold World.acceptReport
      split_ifs <;> rfl
    rw [hreports] at hrep
    by_cases hkey : toLex (rid, val) = toLex (m.requestID, m.validator)
    · obtain ⟨rfl, rfl⟩ := Prod.mk.inj (toLex_inj.mp hkey)
      rw [Table.getElem?_insert_self] at hrep
      exact ⟨m, rfl, rfl, rfl, (Option.some.inj hrep).symm, hreporter⟩
    · rw [Table.getElem?_insert_ne _ _ (Ne.symm hkey)] at hrep
      exact absurd hrep hnot
  | endBlock hrun => exact absurd ((sameSetting_handleEndBlock hrun).reports ▸ hrep) hnot

end Step

/-- At the end of the run `ls` the account is the validator's own, or he has appointed it by a
message of the run and has not dismissed it since. -/
def AuthorizedBy (k : Keeper) (w₀ : World) (ls : List Label) (w : World) (val : ValAddress)
    (addr : AccAddress) : Prop :=
  addr = val ∨ ∃ before after u v, ls = before ++ .deliver (.addReporter ⟨val, addr⟩) :: after ∧
    Run (Step k) w₀ before u ∧ Step k u (.deliver (.addReporter ⟨val, addr⟩)) v ∧
    RunWhere (Step k) (fun w _ => w.store.Appointed val addr) v after w ∧
    w.store.Appointed val addr

lemma authorizedBy {k : Keeper} {w₀ w : World} {ls : List Label} {val : ValAddress}
    {addr : AccAddress} (h₀ : Starts defaultGenesisState w₀) (hrun : Run (Step k) w₀ ls w)
    (h : w.store.isReporter val addr = true) : AuthorizedBy k w₀ ls w val addr := by
  rcases isReporter_eq_true.mp h with hself | happ
  · exact .inl hself.symm
  have hstart : ¬w₀.store.Appointed val addr := by
    have hempty : (initGenesis defaultGenesisState).reporters = ∅ :=
      initGenesis_proj Store.reporters (fun _ _ => rfl) (fun _ _ => rfl) _
    rw [Store.Appointed, h₀.1, hempty]
    simp
  rcases hrun.since (Q := fun w => w.store.Appointed val addr) happ with
    ⟨hw₀, -⟩ | ⟨before, l, after, u, v, rfl, hbefore, hnot, hstep, hv, hafter⟩
  · exact absurd hw₀ hstart
  · obtain rfl := exists_addReporter_of_appointed hstep hnot hv
    exact .inr ⟨before, after, u, v, rfl, hbefore, hstep, hafter, happ⟩

/-- **Authorization.**  A stored report is that of a message of the run.  When the message came, its
sender was the validator, or an account that he had appointed and not dismissed. -/
theorem report_authorized {k : Keeper} {w₀ w : World} {ls : List Label}
    (h₀ : Starts defaultGenesisState w₀) (hrun : Run (Step k) w₀ ls w) {rid : RequestID}
    {val : ValAddress} {rep : Report} (hrep : w.store.reports[toLex (rid, val)]? = some rep) :
    ∃ before m after u v, ls = before ++ .deliver (.reportData m) :: after ∧
      Run (Step k) w₀ before u ∧ Step k u (.deliver (.reportData m)) v ∧
      Run (Step k) v after w ∧ m.requestID = rid ∧ m.validator = val ∧ rep = m.report u ∧
      AuthorizedBy k w₀ before u val m.reporter := by
  have hstart : w₀.store.reports[toLex (rid, val)]? ≠ some rep := by
    rw [h₀.1, (fresh_initGenesis _).reports]
    simp
  rcases hrun.since (Q := fun w => w.store.reports[toLex (rid, val)]? = some rep) hrep with
    ⟨hw₀, -⟩ | ⟨before, l, after, u, v, rfl, hbefore, hnot, hstep, hv, hafter⟩
  · exact absurd hw₀ hstart
  · obtain ⟨m, rfl, hrid, hval, hrep, hreporter⟩ := exists_reportData_of_stored hstep hnot hv
    refine ⟨before, m, after, u, v, rfl, hbefore, hstep, hafter.run, hrid, hval, hrep, ?_⟩
    exact authorizedBy h₀ hbefore hreporter

namespace Sample

/-- The first validator appoints an account, and the account reports for him. -/
def reportByDelegate : List Label :=
  create askingScript ++
    [.deliver (.requestData (requestMsg 2 1)), .deliver (.addReporter ⟨alice.operator, owner⟩),
     .deliver (.reportData ⟨1, [⟨1, 0, [7]⟩], alice.operator, owner⟩)]

lemma exists_reportByDelegate : ∃ w, Run (Step keeper) genesis reportByDelegate w ∧
    w.store.reports[toLex ((1 : RequestID), alice.operator)]? =
      some ⟨alice.operator, true, [⟨1, 0, [7]⟩]⟩ :=
  exists_runWhere (f := next keeper) (P := fun _ _ => True) (s := genesis) reportByDelegate
    (I := fun w => w.store.reports[toLex ((1 : RequestID), alice.operator)]? =
      some ⟨alice.operator, true, [⟨1, 0, [7]⟩]⟩)
    (by decide +kernel)

end Sample

theorem report_authorized_sample : ∃ w, Run (Step Sample.keeper) Sample.genesis
    Sample.reportByDelegate w ∧ ∃ before m after u v,
      Sample.reportByDelegate = before ++ .deliver (.reportData m) :: after ∧
      Run (Step Sample.keeper) Sample.genesis before u ∧
      Step Sample.keeper u (.deliver (.reportData m)) v ∧ Run (Step Sample.keeper) v after w ∧
      m.requestID = 1 ∧ m.validator = Sample.alice.operator ∧
      ⟨Sample.alice.operator, true, [⟨1, 0, [7]⟩]⟩ = m.report u ∧
      AuthorizedBy Sample.keeper Sample.genesis before u Sample.alice.operator m.reporter := by
  obtain ⟨w, hrun, hrep⟩ := Sample.exists_reportByDelegate
  exact ⟨w, hrun, report_authorized Sample.starts_genesis hrun hrep⟩

end Bandchain.Oracle
