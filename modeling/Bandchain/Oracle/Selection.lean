import Bandchain.Bandrng.Candidates
import Bandchain.Oracle.Migration

/-!
# The selection of validators

Sampling never runs out of candidates, so a request gets as many different validators as it asks
for.
-/

namespace Bandchain.Oracle

/-- **Sampling without replacement.**  For positive weights with a sum that fits, `ChooseK` returns
as many different indexes as asked for, whatever the numbers are, and the candidates of every round
are some of the elements left.  The sampled validators are different bonded ones. -/
theorem chooseK_selects :
    (∀ (weights : List UInt64) (k : ℕ), (∀ w ∈ weights, 0 < w.toNat) →
      Bandrng.total weights < 2 ^ 64 → 1 ≤ k → k ≤ weights.length →
      (∀ (G : Type) (next : G → UInt64 × G) (rng : G),
        ∃ r, Bandrng.chooseKFrom next rng weights k = .ok r ∧ r.length = k ∧ r.Nodup ∧
          ∀ i ∈ r, i < weights.length) ∧
      ∀ round < k, ∃ c : ℕ, Bandrng.getCandidateSize round k weights.length = .ok (c : ℤ) ∧
        1 ≤ c ∧ c ≤ weights.length - round) ∧
    ∀ (size nextReqID : ℤ) (w w' : World) (vals : List ValAddress),
      (w.staking.bonded.map Validator.operator).Nodup →
      (∀ v ∈ w.staking.bonded, 0 < v.tokens) →
      (getRandomValidators size nextReqID).run w = .ok vals w' →
      (vals.length : ℤ) = size ∧ vals.Nodup ∧
        ∀ v ∈ vals, v ∈ w.staking.bonded.map Validator.operator := by
  constructor
  · intro weights k hpos hfits _ hk
    exact ⟨fun G next rng => Bandrng.chooseKFrom_eq_ok rng hpos hfits hk,
      fun round hround => Bandrng.getCandidateSize_eq_ok hround hk⟩
  · intro size nextReqID w w' vals hnodup _ h
    obtain ⟨_, hsize, hlen, hmem, hdistinct⟩ := getRandomValidators_eq_ok h
    exact ⟨by omega, hdistinct hnodup, hmem⟩

open Sample in
/-- Two of three elements, and the only validator of a new chain. -/
theorem chooseK_selects_sample :
    (∃ r, Bandrng.chooseKFrom (fun n : UInt64 => (n, n + 1)) 5 [3, 1, 2] (2 : ℕ) = .ok r ∧
      r.length = 2 ∧ r.Nodup ∧ ∀ i ∈ r, i < 3) ∧
    ∃ vals w', (getRandomValidators 1 7).run (newChain defaultGenesisState) = .ok vals w' ∧
      (vals.length : ℤ) = 1 ∧ vals.Nodup ∧ ∀ v ∈ vals, v ∈ [alice.operator] := by
  have hbonded : (newChain defaultGenesisState).staking.bonded = [alice] := rfl
  have hrun := getRandomValidators_single rfl hbonded 7
  have hpos : ∀ v ∈ (newChain defaultGenesisState).staking.bonded, 0 < v.tokens := by
    intro v hv
    rw [hbonded] at hv
    obtain rfl := List.mem_singleton.mp hv
    exact Nat.succ_pos _
  exact ⟨(chooseK_selects.1 [3, 1, 2] 2 (by simp) (by decide) (by decide) (by decide)).1 _ _ _,
    _, _, hrun, chooseK_selects.2 1 7 _ _ _ (by rw [hbonded]; exact List.nodup_singleton _) hpos
      hrun⟩

end Bandchain.Oracle
