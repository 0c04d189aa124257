import Bandchain.Oracle.Simulation

/-!
# Which requests are admitted

A request reaches the store from a message, which has passed `ValidateBasic`, or from an IBC
packet, on whose data no check is made.  The number of raw requests is limited on both ways.
-/

namespace Bandchain.Oracle

/-- The bounds that the rest of the module takes for granted of a stored request. -/
structure Request.Bounded (r : Request) : Prop where
  minCount_pos : 1 ≤ r.minCount.toNat
  minCount_le : r.minCount.toNat ≤ r.requestedValidators.length
  calldata_le : r.calldata.length ≤ maxCalldataSize
  clientID_le : r.clientID.length ≤ maxClientIDLength

lemma PrepareRecord.Describes.bounded_iff {p : PrepareRecord} {r : Request} (h : p.Describes r) :
    r.Bounded ↔ p.spec.Bounded := by
  constructor
  · rintro ⟨h1, h2, h3, h4⟩
    rw [h.minCount] at h1 h2
    rw [h.askCount] at h2
    rw [h.calldata] at h3
    rw [h.clientID] at h4
    exact ⟨h1, h2, h3, h4⟩
  · rintro ⟨h1, h2, h3, h4⟩
    rw [← h.minCount] at h1 h2
    rw [← h.askCount] at h2
    rw [← h.calldata] at h3
    rw [← h.clientID] at h4
    exact ⟨h1, h2, h3, h4⟩

/-- The raw requests of a request are within the limit in force when it was made. -/
lemma PrepareRecord.Describes.length_rawRequestIDs_le {p : PrepareRecord} {r : Request}
    (h : p.Describes r) : r.rawRequestIDs.length ≤ p.maxRawRequestCount.toNat := by
  rw [h.rawRequestIDs]
  refine (length_keptExternalIDs_le _ _).trans ?_
  have hlt := p.maxRawRequestCount.toNat_lt
  unfold toInt64
  rw [Int.bmod_def]
  split_ifs <;> omega

/-- The step delivers no packet whose data is outside the bounds. -/
def BoundedPackets (k : Keeper) (_ : World) : Label → Prop
  | .deliver (.recvPacket q) => ∀ d ∈ k.unmarshalJSON q.data, d.toSpec.Bounded
  | _ => True

/-- Where packets are within the bounds, so is every request that is made. -/
lemma bounded_of_justified {k : Keeper} {w : World} {l : Label} (hP : BoundedPackets k w l)
    {L : Ledger} {p : PrepareRecord} (h : Justified k w l L (.request p)) : p.spec.Bounded := by
  obtain ⟨packet, info, w', hreq, hspec, _⟩ := h
  rw [hspec]
  cases hreq with
  | message hbasic _ => exact MsgRequestData.bounded_of_validateBasic hbasic
  | packet hdata _ => exact hP _ hdata

lemma bounded_step {L L' : Ledger} {a : Ledger.Act} (hP : ∀ p, a = .request p → p.spec.Bounded)
    (hst : Ledger.Step L a L')
    (h : ∀ (id : RequestID) (r : Request), L.requests[id]? = some r → r.Bounded) :
    ∀ (id : RequestID) (r : Request), L'.requests[id]? = some r → r.Bounded := by
  cases hst with
  | @request p r _ hdesc _ _ =>
    intro id q hq
    by_cases hid : L.requestCount + 1 = id
    · subst hid
      simp only [Table.getElem?_insert_self, Option.some.injEq] at hq
      subst hq
      exact hdesc.bounded_iff.mpr (hP p rfl)
    · simp only [Table.getElem?_insert_ne _ _ hid] at hq
      exact h id q hq
  | _ => exact h

/-- **Bounds.**  A stored request has at most as many raw requests as the limit in force when
it was made.  It meets the other bounds exactly if it came from a message, or from a packet
that met them; so all requests do in a run all of whose packets do. -/
theorem requests_bounded {k : Keeper} {w₀ w : World} {ls : List Label}
    (h₀ : Starts defaultGenesisState w₀) (hrun : Run (Step k) w₀ ls w) :
    (∀ (id : RequestID) (r : Request), w.store.requests[id]? = some r →
      ∃ p, .prepareRequest p ∈ w.trace ∧ p.id = id ∧
        r.rawRequestIDs.length ≤ p.maxRawRequestCount.toNat ∧
        (r.Bounded ↔ p.ibcInfo = none ∨ p.spec.Bounded)) ∧
      (RunWhere (Step k) (BoundedPackets k) w₀ ls w →
        ∀ (id : RequestID) (r : Request), w.store.requests[id]? = some r → r.Bounded) := by
  have hI := recorded_of_run h₀ rfl hrun
  refine ⟨fun id r hr => ?_, fun hbounded => ?_⟩
  · obtain ⟨p, hp, hid, hdesc⟩ := hI.described.prepared id r hr
    refine ⟨p, hp, hid, hdesc.length_rawRequestIDs_le, hdesc.bounded_iff.trans ?_⟩
    constructor
    · exact .inr
    · rintro (hnone | hbound)
      · exact (hI.described.described p hp).1 hnone
      · exact hbound
  · refine ledger_invariant (Q := fun _ a => ∀ p, a = .request p → p.spec.Bounded)
      (I := fun L => ∀ (id : RequestID) (r : Request), L.requests[id]? = some r → r.Bounded)
      ?_ bounded_step hbounded (scriptsBounded_of_starts h₀) ?_
    · rintro v l hP L a ha p rfl
      exact bounded_of_justified hP ha
    · intro id r hr
      rw [(fresh_of_starts h₀ rfl).requests] at hr
      simp at hr

theorem requests_bounded_message : ∃ w, ReachableWorld Sample.keeper w ∧
    ∃ r : Request, w.store.requests[(1 : ℤ)]? = some r ∧ r.Bounded := by
  obtain ⟨w, hrun, r, hr, hinfo⟩ := exists_runWhere (f := next Sample.keeper)
    (P := fun _ _ => True) (s := Sample.genesis)
    (Sample.create Sample.askingScript ++ [.deliver (.requestData (Sample.requestMsg 2 1))])
    (I := fun w => ∃ r ∈ w.store.requests[(1 : ℤ)]?, r.ibcInfo = none) (by decide +kernel)
  have hw : ReachableWorld Sample.keeper w := ⟨_, _, Sample.starts_genesis, hrun⟩
  obtain ⟨p, hp, hid, _, hiff⟩ := (requests_bounded Sample.starts_genesis hrun).1 1 r hr
  have hdesc := (recorded_of_reachable hw).described.describes hp (r := r) (hid ▸ hr)
  exact ⟨w, hw, r, hr, hiff.mpr (.inl (hdesc.ibcInfo.symm.trans hinfo))⟩

/-- A packet that wants no report is admitted. -/
theorem not_bounded_packet : ∃ w, Run (Step Sample.keeper) Sample.genesis
    (Sample.create Sample.askingScript ++ [.deliver (.recvPacket Sample.recvPacket)]) w ∧
    ∃ r : Request, w.store.requests[(1 : ℤ)]? = some r ∧ ¬r.Bounded := by
  obtain ⟨w, hrun, r, hr, hmin⟩ := exists_runWhere (f := next Sample.keeper)
    (P := fun _ _ => True) (s := Sample.genesis)
    (Sample.create Sample.askingScript ++ [.deliver (.recvPacket Sample.recvPacket)])
    (I := fun w => ∃ r ∈ w.store.requests[(1 : ℤ)]?, r.minCount = 0) (by decide +kernel)
  refine ⟨w, hrun, r, hr, fun hbound => ?_⟩
  have hpos := hbound.minCount_pos
  rw [hmin] at hpos
  exact absurd hpos (by decide)

end Bandchain.Oracle
