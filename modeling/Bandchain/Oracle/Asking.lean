import Bandchain.Oracle.Refinement

/-!
# What a request asks for

The events by which an accepted request tells the validators what to do: one with the identifier
and the validators, then one for every raw request, with the file of its data source.
-/

namespace Bandchain.Oracle

open Exec

/-- The events of a request. -/
def requestEvents (id : RequestID) (r : Request) (asked : List (DataSource × RawRequest)) :
    List Event :=
  requestEvent id r.requestedValidators :: asked.map fun a => rawRequestEvent a.1 a.2

/-- `PrepareRequest` accepts a request: it is stored as `r`, and asks for these raw requests, each
from a data source of the chain. -/
structure Asked (k : Keeper) (spec : RequestSpec) (ibcInfo : Option IBCInfo) (w : World)
    (p : PrepareRecord) (r : Request) (asked : List (DataSource × RawRequest)) (w' : World) :
    Prop where
  run : (prepareRequest k spec ibcInfo).run w = .ok () w'
  stored : w'.store.requests[p.id]? = some r
  rawRequestIDs : r.rawRequestIDs = asked.map (·.2.externalID)
  dataSource : ∀ a ∈ asked, w'.store.dataSources[a.2.dataSourceID]? = some a.1
  trace : w'.trace = w.trace ++ .prepareRequest p :: (requestEvents p.id r asked).map .event

/-- The loop over the raw requests emits an event for each. -/
lemma forM_rawRequestEvent_eq_ok {rawRequests : List RawRequest} {w w' : World} {u : Unit}
    (h : (forM rawRequests fun rawReq : RawRequest => do
      let ds ← readStore (·.getDataSource rawReq.dataSourceID)
      record (.event (rawRequestEvent ds rawReq))).run w = .ok u w') :
    ∃ asked : List (DataSource × RawRequest), asked.map Prod.snd = rawRequests ∧
      (∀ a ∈ asked, w.store.dataSources[a.2.dataSourceID]? = some a.1) ∧
      w' = w.log (asked.map fun a => .event (rawRequestEvent a.1 a.2)) := by
  induction rawRequests generalizing w with
  | nil =>
    obtain ⟨_, rfl⟩ := EStateM.Result.ok.inj h
    exact ⟨[], rfl, by simp, by simp [World.log]⟩
  | cons rawReq rawRequests ih =>
    rw [List.forM_cons] at h
    obtain ⟨_, w₁, hbody, h⟩ := bind_eq_ok.mp h
    obtain ⟨ds, hds, hrecord⟩ := readStore_bind_eq_ok.mp hbody
    obtain ⟨_, rfl⟩ := EStateM.Result.ok.inj hrecord
    obtain ⟨asked, hasked, hall, rfl⟩ := ih h
    refine ⟨(ds, rawReq) :: asked, by rw [List.map_cons, hasked], ?_, ?_⟩
    · rw [List.forall_mem_cons]
      exact ⟨Store.getDataSource_eq_ok.mp hds, hall⟩
    · simp [World.log]

/-- Every accepted request asks for some raw requests. -/
lemma exists_asked {k : Keeper} {spec : RequestSpec} {ibcInfo : Option IBCInfo} {w w' : World}
    (hrun : (prepareRequest k spec ibcInfo).run w = .ok () w') :
    ∃ p r asked, Asked k spec ibcInfo w p r asked w' := by
  have h := hrun
  simp only [prepareRequest, run_get_bind, failIf_bind_eq_ok] at h
  obtain ⟨_, h⟩ := h
  obtain ⟨vals, w₁, hvals, h⟩ := bind_eq_ok.mp h
  rw [(getRandomValidators_eq_ok hvals).1] at h
  simp only [readStore_bind_eq_ok, getFile_bind_eq_ok, failIf_bind_eq_ok, valueOf_bind_eq_ok,
    run_modifyStore_bind, run_record_bind] at h
  obtain ⟨script, _, code, _, _, rawRequests, _, hloop⟩ := h
  obtain ⟨asked, hasked, hall, hw'⟩ := forM_rawRequestEvent_eq_ok hloop
  let env := newExecEnv (spec.request ibcInfo w.header vals []) w.header.time
    (toInt64 w.store.params.maxRawRequestCount.toNat)
  refine ⟨⟨w.store.getRequestCount + 1, spec, ibcInfo, w.store.params.maxRawRequestCount,
    (k.owasm code true env).1, w.header.time⟩,
    spec.request ibcInfo w.header vals (rawRequests.map RawRequest.externalID), asked, hrun,
    ?_, ?_, ?_, ?_⟩
  · rw [hw']
    exact Table.getElem?_insert_self _ _ _
  · rw [← hasked, List.map_map]
    rfl
  · rw [hw']
    exact hall
  · rw [hw']
    simp [World.log, requestEvents, RequestSpec.request, newRequest, env]

end Bandchain.Oracle
