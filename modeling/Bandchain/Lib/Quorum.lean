import Mathlib

/-!
# Weighted quorums

Voters with voting powers, of which only finitely many are positive.  The total power follows
the change of one power, and two sets of voters with more than two thirds of the total power
each have more than one third of it in common.
-/

namespace Bandchain
namespace Quorum

variable {V : Type} {power : V → ℕ}

/-- The sum of all powers. -/
noncomputable def total (power : V → ℕ) : ℕ := ∑ᶠ v, power v

lemma total_zero : total (fun _ : V => 0) = 0 := finsum_zero

/-- The total is the sum over any finite set that holds all voters with power. -/
lemma total_eq_sum {s : Finset V} (h : ∀ v ∉ s, power v = 0) : total power = ∑ v ∈ s, power v := by
  refine finsum_eq_sum_of_support_subset power fun v hv => ?_
  by_contra hs
  exact hv (h v hs)

/-- A finite set of voters has at most the total power. -/
lemma sum_le_total (hfin : (Function.support power).Finite) (s : Finset V) :
    ∑ v ∈ s, power v ≤ total power := by
  classical
  rw [total_eq_sum (s := s ∪ hfin.toFinset)]
  · exact Finset.sum_le_sum_of_subset Finset.subset_union_left
  · intro v hv
    simp only [Finset.mem_union, Set.Finite.mem_toFinset, Function.mem_support, not_or,
      not_not] at hv
    exact hv.2

lemma le_total (hfin : (Function.support power).Finite) (v : V) : power v ≤ total power := by
  have := sum_le_total hfin {v}
  rwa [Finset.sum_singleton] at this

/-- Bounded powers of finitely many voters have a bounded total. -/
lemma total_le [Finite V] {b : ℕ} (h : ∀ v, power v ≤ b) : total power ≤ Nat.card V * b := by
  have := Fintype.ofFinite V
  rw [total_eq_sum (s := Finset.univ) fun v hv => absurd (Finset.mem_univ v) hv,
    Nat.card_eq_fintype_card]
  exact Finset.sum_le_card_nsmul _ _ _ fun v _ => h v

section

variable [DecidableEq V]

/-- The total after one power has changed. -/
lemma total_update (hfin : (Function.support power).Finite) (v : V) (p : ℕ) :
    total (Function.update power v p) + power v = total power + p := by
  have hall : ∀ x ∉ insert v hfin.toFinset, x ≠ v ∧ power x = 0 := by
    intro x hx
    simpa [not_or] using hx
  have hold : total power = ∑ x ∈ insert v hfin.toFinset, power x :=
    total_eq_sum fun x hx => (hall x hx).2
  have hnew : total (Function.update power v p) =
      ∑ x ∈ insert v hfin.toFinset, Function.update power v p x := by
    refine total_eq_sum fun x hx => ?_
    rw [Function.update_of_ne (hall x hx).1, (hall x hx).2]
  have hmem : v ∈ insert v hfin.toFinset := Finset.mem_insert_self _ _
  have hsame : ∑ x ∈ (insert v hfin.toFinset).erase v, Function.update power v p x =
      ∑ x ∈ (insert v hfin.toFinset).erase v, power x :=
    Finset.sum_congr rfl fun x hx => Function.update_of_ne (Finset.ne_of_mem_erase hx) _ _
  rw [hold, hnew, ← Finset.add_sum_erase _ _ hmem, ← Finset.add_sum_erase _ power hmem, hsame,
    Function.update_self]
  omega

/-- The power of a list of different voters. -/
lemma sum_map_eq (l : List V) (hl : l.Nodup) : (l.map power).sum = ∑ v ∈ l.toFinset, power v :=
  (List.sum_toFinset power hl).symm

/-- Different voters who are in a set, or have no power, have at most the power of the set. -/
lemma sum_map_le_indicator (hfin : (Function.support power).Finite) {l : List V} (hl : l.Nodup)
    {A : Set V} (h : ∀ v ∈ l, power v ≠ 0 → v ∈ A) :
    (l.map power).sum ≤ total (A.indicator power) := by
  have hsame : l.map power = l.map (A.indicator power) := by
    refine List.map_congr_left fun v hv => ?_
    by_cases hzero : power v = 0
    · rw [hzero]
      exact (Set.indicator_apply_eq_zero.mpr fun _ => hzero).symm
    · rw [Set.indicator_of_mem (h v hv hzero)]
  have hfin' : (Function.support (A.indicator power)).Finite := by
    rw [Set.support_indicator]
    exact hfin.subset Set.inter_subset_right
  rw [hsame, sum_map_eq l hl]
  exact sum_le_total hfin' _

/-- **Quorum intersection.**  The voters common to two lists that have more than two thirds of
the power each have more than one third of it. -/
theorem third_lt_common (hfin : (Function.support power).Finite) {l m : List V} (hl : l.Nodup)
    (hm : m.Nodup) (hlp : 2 * total power < 3 * (l.map power).sum)
    (hmp : 2 * total power < 3 * (m.map power).sum) :
    total power < 3 * ((l.filter (· ∈ m)).map power).sum := by
  have hcommon : (l.filter (· ∈ m)).toFinset = l.toFinset ∩ m.toFinset := by
    ext v
    simp
  have hunion := sum_le_total hfin (l.toFinset ∪ m.toFinset)
  have hadd : ∑ v ∈ l.toFinset ∪ m.toFinset, power v + ∑ v ∈ l.toFinset ∩ m.toFinset, power v =
      ∑ v ∈ l.toFinset, power v + ∑ v ∈ m.toFinset, power v := Finset.sum_union_inter
  rw [sum_map_eq l hl] at hlp
  rw [sum_map_eq m hm] at hmp
  rw [sum_map_eq _ (hl.filter _), hcommon]
  omega

end

end Quorum
end Bandchain
