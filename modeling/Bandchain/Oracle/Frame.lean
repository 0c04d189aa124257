import Bandchain.Oracle.Refinement

/-!
# What the end of a block leaves alone

The end of a block runs through all of the keeper that handles results and expiry.  A relation
between worlds that every single write there respects is respected by all of it.  The first
use of that rule is the frame: the block, the files, the requests, the reports and everything
that messages register are the same afterwards.
-/

namespace Bandchain.Oracle

open Exec

/-- The calls recorded at the end of a block, apart from saved results and report infos. -/
def Call.IsBlockWork : Call → Prop
  | .execute _ _ _ => True
  | .sendPacket _ => True
  | .processExpired _ => True
  | _ => False

/-- The writes made at the end of a block respect the relation. -/
structure EndBlockKeeps (k : Keeper) (R : World → World → Prop) : Prop where
  record : ∀ (c : Call) (w : World), c.IsBlockWork → R w (w.log [c])
  saveResult : ∀ (id : RequestID) (status : ResolveStatus) (result : Bytes),
    Exits R (saveResult id status result)
  pending : ∀ w : World, R w w.clearPending
  cursor : ∀ (w : World) (id : RequestID), R w (w.setRequestLastExpired id)
  report : ∀ (w : World) (val : ValAddress) (reported : Bool), R w (w.afterReport k val reported)
  channels : ∀ (w : World) (channels : Channels), R w { w with channels := channels }

namespace EndBlockKeeps

variable {k : Keeper} {R : World → World → Prop}

lemma exits_record (h : EndBlockKeeps k R) {c : Call} (hc : c.IsBlockWork) :
    Exits R (Oracle.record c) := fun w => h.record c w hc

lemma exits_handleValidatorReport (h : EndBlockKeeps k R) (val : ValAddress) (reported : Bool) :
    Exits R (handleValidatorReport k val reported) := by
  intro w
  rw [ExitsAt, handleValidatorReport_run]
  exact h.report w val reported

variable [IsPreorder World R]

lemma exits_respond (h : EndBlockKeeps k R) (ibcInfo : Option IBCInfo)
    (res : OracleResponsePacketData) : Exits R (respond k ibcInfo res) := by
  cases ibcInfo with
  | none => exact Exits.pure _
  | some info =>
    refine Exits.get_bind fun w => ?_
    cases w.channels.getChannel info.sourcePort info.sourceChannel with
    | none => exact Exits.pure _
    | some ch =>
      cases w.channels.getNextSequenceSend info.sourcePort info.sourceChannel with
      | none => exact Exits.pure _
      | some seq =>
        refine Exits.ite (Exits.pure _) ?_
        dsimp only
        cases k.sendPacket w.channels _ with
        | none => exact Exits.pure _
        | some channels =>
          exact (Exits.modify fun w => h.channels w channels).bind fun _ =>
            h.exits_record (by trivial)

lemma exits_resolveRequest (h : EndBlockKeeps k R) (reqID : RequestID) :
    Exits R (resolveRequest k reqID) := by
  refine (Exits.readStore _).bind fun req => Exits.get_bind fun _ => (Exits.valueOf _).bind fun _ =>
    (Exits.readStore _).bind fun _ => Exits.bind (Exits.get_bind fun _ => Exits.valueOf _) fun _ =>
    (h.exits_record (by trivial)).bind fun _ => ?_
  exact Exits.ite ((h.saveResult _ _ _).bind fun _ => h.exits_respond _ _)
    ((h.saveResult _ _ _).bind fun _ => h.exits_respond _ _)

lemma exits_expireRequest (h : EndBlockKeeps k R) (id : RequestID) (req : Request) :
    Exits R (expireRequest k id req) := by
  have hfinish : Exits R (do
      updateReportInfos k id
      modifyStore fun s => { s with requestLastExpired := some id }) :=
    Exits.bind (Exits.get_bind fun _ => (Exits.readStore _).bind fun _ => Exits.forM fun _ _ =>
      h.exits_handleValidatorReport _ _) fun _ => Exits.modifyStore fun w => h.cursor w id
  refine Exits.get_bind fun _ => (h.exits_record (by trivial)).bind fun _ => Exits.ite ?_ hfinish
  exact (h.saveResult _ _ _).bind fun _ => (h.exits_respond _ _).bind fun _ => hfinish

lemma exits_processExpiredLoop (h : EndBlockKeeps k R) (count : ℤ) (n : ℕ) (id : RequestID) :
    Exits R (processExpiredLoop k count n id) := by
  induction n generalizing id with
  | zero => exact Exits.pure _
  | succ n ih =>
    exact (Exits.readStore _).bind fun _ => Exits.get_bind fun _ => Exits.ite (Exits.pure _)
      ((h.exits_expireRequest _ _).bind fun _ => ih _)

/-- **Frame rule.**  The end of a block respects what its writes respect. -/
theorem exits_handleEndBlock (h : EndBlockKeeps k R) : Exits R (handleEndBlock k) :=
  Exits.get_bind fun _ => (Exits.forM fun _ _ => h.exits_resolveRequest _).bind fun _ =>
    Exits.bind (Exits.modifyStore h.pending) fun _ =>
    Exits.get_bind fun _ => h.exits_processExpiredLoop _ _ _

end EndBlockKeeps

/-- Saving a result respects a relation that storing it and recording it respect. -/
lemma exits_saveResult {R : World → World → Prop} [IsPreorder World R]
    (hrecord : ∀ (c : Call) (w : World), (c.IsEvent ∨ ∃ s, c = .saveResult s) → R w (w.log [c]))
    (hresult : ∀ (w : World) (id : RequestID) (result : Bytes),
      R w { w with store := { w.store with results := w.store.results.insert id result } })
    (id : RequestID) (status : ResolveStatus) (result : Bytes) :
    Exits R (saveResult id status result) :=
  (Exits.readStore _).bind fun _ => Exits.get_bind fun _ =>
    (Exits.modifyStore fun w => hresult w id _).bind fun _ =>
    Exits.bind (fun w => hrecord _ w (.inr ⟨_, rfl⟩)) fun _ =>
    Exits.bind (fun w => hrecord _ w (.inl trivial)) fun _ => Exits.pure _

/-! ## The frame -/

/-- What the end of a block leaves alone. -/
structure SameSetting (w w' : World) : Prop where
  header : w'.header = w.header
  files : w'.files = w.files
  params : w'.store.params = w.store.params
  dataSourceCount : w'.store.dataSourceCount = w.store.dataSourceCount
  dataSources : w'.store.dataSources = w.store.dataSources
  oracleScriptCount : w'.store.oracleScriptCount = w.store.oracleScriptCount
  oracleScripts : w'.store.oracleScripts = w.store.oracleScripts
  reporters : w'.store.reporters = w.store.reporters
  requestCount : w'.store.requestCount = w.store.requestCount
  requests : w'.store.requests = w.store.requests
  reports : w'.store.reports = w.store.reports

instance : IsPreorder World SameSetting where
  refl _ := ⟨rfl, rfl, rfl, rfl, rfl, rfl, rfl, rfl, rfl, rfl, rfl⟩
  trans _ _ _ h h' := ⟨h'.1.trans h.1, h'.2.trans h.2, h'.3.trans h.3, h'.4.trans h.4,
    h'.5.trans h.5, h'.6.trans h.6, h'.7.trans h.7, h'.8.trans h.8, h'.9.trans h.9,
    h'.10.trans h.10, h'.11.trans h.11⟩

lemma endBlockKeeps_sameSetting (k : Keeper) : EndBlockKeeps k SameSetting where
  record _ _ _ := ⟨rfl, rfl, rfl, rfl, rfl, rfl, rfl, rfl, rfl, rfl, rfl⟩
  saveResult := exits_saveResult
    (fun _ _ _ => ⟨rfl, rfl, rfl, rfl, rfl, rfl, rfl, rfl, rfl, rfl, rfl⟩)
    fun _ _ _ => ⟨rfl, rfl, rfl, rfl, rfl, rfl, rfl, rfl, rfl, rfl, rfl⟩
  pending _ := ⟨rfl, rfl, rfl, rfl, rfl, rfl, rfl, rfl, rfl, rfl, rfl⟩
  cursor _ _ := ⟨rfl, rfl, rfl, rfl, rfl, rfl, rfl, rfl, rfl, rfl, rfl⟩
  report _ _ _ := ⟨rfl, rfl, rfl, rfl, rfl, rfl, rfl, rfl, rfl, rfl, rfl⟩
  channels _ _ := ⟨rfl, rfl, rfl, rfl, rfl, rfl, rfl, rfl, rfl, rfl, rfl⟩

lemma sameSetting_handleEndBlock {k : Keeper} {w w' : World} {u : Unit}
    (h : (handleEndBlock k).run w = .ok u w') : SameSetting w w' := by
  have := (endBlockKeeps_sameSetting k).exits_handleEndBlock w
  rwa [ExitsAt, h] at this

end Bandchain.Oracle
