import Bandchain.Bandrng.Sampling

/-!
# One choice

The running sums of the weights cut the numbers below their sum into one segment for each weight,
as long as the weight.  `ChooseOne` returns the segment that its lucky number is in.
-/

namespace Bandchain.Bandrng

/-- The sum of the weights, without overflow. -/
def total (weights : List UInt64) : ℕ := (weights.map UInt64.toNat).sum

@[simp] lemma total_cons (w : UInt64) (ws : List UInt64) : total (w :: ws) = w.toNat + total ws :=
  rfl

/-! ## The segments -/

/-- The segment that a number is in, where the segments have these lengths and follow each other
from zero on. -/
def segment : List ℕ → ℕ → ℕ
  | [], _ => 0
  | w :: ws, l => if l < w then 0 else segment ws (l - w) + 1

lemma segment_lt {ws : List ℕ} {l : ℕ} (h : l < ws.sum) : segment ws l < ws.length := by
  induction ws generalizing l with
  | nil => exact absurd h (Nat.not_lt_zero l)
  | cons w ws ih =>
    rw [List.sum_cons] at h
    rw [segment, List.length_cons]
    split_ifs with hl
    · omega
    · have := ih (l := l - w) (by omega)
      omega

lemma segment_add (w : ℕ) (ws : List ℕ) (l : ℕ) :
    segment (w :: ws) (w + l) = segment ws l + 1 := by
  rw [segment, if_neg (by omega), Nat.add_sub_cancel_left]

/-- A segment has as many numbers as it is long. -/
lemma count_segment (ws : List ℕ) {i : ℕ} (hi : i < ws.length) :
    Nat.count (fun l => segment ws l = i) ws.sum = ws[i] := by
  induction ws generalizing i with
  | nil => exact absurd hi (Nat.not_lt_zero i)
  | cons w ws ih =>
    rw [List.sum_cons, Nat.count_add]
    have hhead : ∀ l < w, segment (w :: ws) l = 0 := fun l hl => by rw [segment, if_pos hl]
    cases i with
    | zero =>
      have hall : Nat.count (fun l => segment (w :: ws) l = 0) w = w :=
        Nat.count_iff_forall.mpr fun {l} hl => hhead l hl
      have hnone : Nat.count (fun l => segment (w :: ws) (w + l) = 0) ws.sum = 0 := by
        refine Nat.count_iff_forall_not.mpr fun l _ => ?_
        rw [segment_add]
        exact Nat.succ_ne_zero _
      rw [hall, hnone]
      rfl
    | succ i =>
      have hnone : Nat.count (fun l => segment (w :: ws) l = i + 1) w = 0 := by
        refine Nat.count_iff_forall_not.mpr fun l hl => ?_
        rw [hhead l hl]
        exact (Nat.succ_ne_zero _).symm
      simp only [segment_add, Nat.add_right_cancel_iff]
      rw [hnone, Nat.zero_add, ih (Nat.lt_of_succ_lt_succ hi)]
      rfl

/-! ## The sums -/

lemma toNat_add_of_lt {a b : UInt64} (h : a.toNat + b.toNat < 2 ^ 64) :
    (a + b).toNat = a.toNat + b.toNat := by
  rw [UInt64.toNat_add, Nat.mod_eq_of_lt h]

lemma toNat_max_sub (a : UInt64) :
    ((18446744073709551615 : UInt64) - a).toNat = 2 ^ 64 - 1 - a.toNat := by
  have hmax : (18446744073709551615 : UInt64).toNat = 2 ^ 64 - 1 := by decide
  have ha := a.toNat_lt
  have hle : a ≤ 18446744073709551615 := by
    rw [UInt64.le_iff_toNat_le, hmax]
    omega
  rw [UInt64.toNat_sub_of_le _ _ hle, hmax]

lemma addUint64Overflow_of_lt {a b : UInt64} (h : a.toNat + b.toNat < 2 ^ 64) :
    addUint64Overflow a b = (a + b, false) := by
  rw [addUint64Overflow, if_neg]
  rw [UInt64.lt_iff_toNat_lt, toNat_max_sub]
  omega

lemma addUint64Overflow_of_le {a b : UInt64} (h : 2 ^ 64 ≤ a.toNat + b.toNat) :
    addUint64Overflow a b = (0, true) := by
  have ha := a.toNat_lt
  have hb := b.toNat_lt
  rw [addUint64Overflow, if_pos]
  rw [UInt64.lt_iff_toNat_lt, toNat_max_sub]
  omega

lemma sumWeights_eq_ok (weights : List UInt64) (sum : UInt64)
    (h : sum.toNat + total weights < 2 ^ 64) :
    ∃ s, sumWeights sum weights = .ok s ∧ s.toNat = sum.toNat + total weights := by
  induction weights generalizing sum with
  | nil => exact ⟨sum, rfl, rfl⟩
  | cons w ws ih =>
    rw [total_cons] at h
    have hadd : (sum + w).toNat = sum.toNat + w.toNat := toNat_add_of_lt (by omega)
    obtain ⟨s, hs, hsum⟩ := @ih (sum + w) (by omega)
    refine ⟨s, ?_, by rw [hsum, hadd, total_cons, Nat.add_assoc]⟩
    rw [sumWeights, addUint64Overflow_of_lt (by omega)]
    exact hs

lemma sumWeights_eq_error (weights : List UInt64) (sum : UInt64)
    (h : 2 ^ 64 ≤ sum.toNat + total weights) :
    sumWeights sum weights = .error "sum of weights exceed max uint64" := by
  induction weights generalizing sum with
  | nil =>
    have := sum.toNat_lt
    rw [total, List.map_nil, List.sum_nil] at h
    omega
  | cons w ws ih =>
    rw [total_cons] at h
    rw [sumWeights]
    rcases Nat.lt_or_ge (sum.toNat + w.toNat) (2 ^ 64) with hlt | hge
    · rw [addUint64Overflow_of_lt hlt]
      refine @ih (sum + w) ?_
      rw [toNat_add_of_lt hlt]
      omega
    · rw [addUint64Overflow_of_le hge]
      rfl

/-- The running sums of the second loop do not wrap, since those of the first do not overflow. -/
lemma pickIndex_eq {weights : List UInt64} {lucky current : UInt64} {idx : ℕ}
    (hfits : current.toNat + total weights < 2 ^ 64)
    (hlucky : lucky.toNat < current.toNat + total weights)
    (hcurrent : current.toNat ≤ lucky.toNat) :
    pickIndex lucky current idx weights =
      .ok (idx + segment (weights.map UInt64.toNat) (lucky.toNat - current.toNat)) := by
  induction weights generalizing current idx with
  | nil =>
    rw [total, List.map_nil, List.sum_nil] at hlucky
    omega
  | cons w ws ih =>
    rw [total_cons] at hfits hlucky
    have hadd : (current + w).toNat = current.toNat + w.toNat := toNat_add_of_lt (by omega)
    rw [pickIndex, List.map_cons, segment]
    by_cases h : lucky.toNat < current.toNat + w.toNat
    · rw [if_pos (by rw [gt_iff_lt, UInt64.lt_iff_toNat_lt]; omega), if_pos (by omega),
        Nat.add_zero]
    · rw [if_neg (by rw [gt_iff_lt, UInt64.lt_iff_toNat_lt]; omega), if_neg (by omega),
        ih (by omega) (by omega) (by omega), hadd, Nat.sub_sub]
      congr 1
      omega

/-! ## The choice -/

section

variable {G : Type} {next : G → UInt64 × G}

/-- The index that a lucky number stands for. -/
def luckyIndex (weights : List UInt64) (luckyNumber : ℕ) : ℕ :=
  segment (weights.map UInt64.toNat) luckyNumber

lemma luckyIndex_lt {weights : List UInt64} {l : ℕ} (h : l < total weights) :
    luckyIndex weights l < weights.length := by
  have := segment_lt h
  rwa [List.length_map] at this

/-- The choice is that of the lucky number. -/
lemma chooseOneFrom_eq (rng : G) {weights : List UInt64} (hpos : 0 < total weights)
    (hfits : total weights < 2 ^ 64) :
    chooseOneFrom next rng weights =
      .ok (luckyIndex weights ((next rng).1.toNat % total weights), (next rng).2) := by
  have hzero : (0 : UInt64).toNat = 0 := rfl
  obtain ⟨s, hs, hsum⟩ := sumWeights_eq_ok weights 0 (by omega)
  rw [hzero, Nat.zero_add] at hsum
  have hne : s ≠ 0 := by
    rintro rfl
    omega
  have hlucky : ((next rng).1 % s).toNat = (next rng).1.toNat % total weights := by
    rw [UInt64.toNat_mod, hsum]
  have hlt := Nat.mod_lt (next rng).1.toNat hpos
  have hpick : pickIndex ((next rng).1 % s) 0 0 weights =
      .ok (luckyIndex weights ((next rng).1.toNat % total weights)) := by
    rw [pickIndex_eq (by omega) (by omega) (by omega), hlucky, Nat.zero_add]
    rfl
  simp only [chooseOneFrom, hs, bind, Except.bind, if_neg hne, hpick]

lemma chooseOneFrom_eq_overflow (rng : G) {weights : List UInt64}
    (h : 2 ^ 64 ≤ total weights) :
    chooseOneFrom next rng weights = .error "sum of weights exceed max uint64" := by
  have hs := sumWeights_eq_error weights 0
    (by rwa [show (0 : UInt64).toNat = 0 from rfl, Nat.zero_add])
  simp only [chooseOneFrom, hs, bind, Except.bind]

/-- Without any weight the lucky number is a remainder by zero. -/
lemma chooseOneFrom_eq_zero (rng : G) {weights : List UInt64} (h : total weights = 0) :
    chooseOneFrom next rng weights = .error "integer divide by zero" := by
  have hzero : (0 : UInt64).toNat = 0 := rfl
  obtain ⟨s, hs, hsum⟩ := sumWeights_eq_ok weights 0 (by omega)
  have hs0 : s = 0 := UInt64.toNat.inj (by omega)
  simp only [chooseOneFrom, hs, bind, Except.bind, if_pos hs0]

end

/-- **The choice is proportional to the weight.**  The lucky numbers below the sum of the weights
decide the index, each index has as many of them as its weight, and the choice only panics with an
overflow when the sum does not fit. -/
theorem chooseOne_proportional :
    (∀ weights : List UInt64, 0 < total weights → total weights < 2 ^ 64 →
      ∃ index : ℕ → ℕ,
        (∀ (G : Type) (next : G → UInt64 × G) (rng : G), chooseOneFrom next rng weights =
          .ok (index ((next rng).1.toNat % total weights), (next rng).2)) ∧
        ∀ i (h : i < weights.length),
          ((Finset.range (total weights)).filter (index · = i)).card = weights[i].toNat) ∧
    ∀ (G : Type) (next : G → UInt64 × G) (rng : G) (weights : List UInt64),
      chooseOneFrom next rng weights = .error "sum of weights exceed max uint64" ↔
        2 ^ 64 ≤ total weights := by
  refine ⟨fun weights hpos hfits => ⟨luckyIndex weights, fun G next rng =>
    chooseOneFrom_eq rng hpos hfits, fun i h => ?_⟩, fun G next rng weights =>
    ⟨fun h => ?_, chooseOneFrom_eq_overflow rng⟩⟩
  · have hcount := count_segment (weights.map UInt64.toNat) (i := i) (by rwa [List.length_map])
    rw [Nat.count_eq_card_filter_range, List.getElem_map] at hcount
    exact hcount
  · by_contra hfits
    rcases Nat.eq_zero_or_pos (total weights) with hzero | hpos
    · rw [chooseOneFrom_eq_zero rng hzero] at h
      exact absurd (Except.error.inj h) (by decide)
    · rw [chooseOneFrom_eq rng hpos (by omega)] at h
      cases h

/-- A weight of two between a weight of one and none. -/
theorem chooseOne_proportional_sample :
    (∃ index : ℕ → ℕ,
      (∀ (G : Type) (next : G → UInt64 × G) (rng : G), chooseOneFrom next rng [1, 2, 0] =
        .ok (index ((next rng).1.toNat % 3), (next rng).2)) ∧
      ∀ i (h : i < 3), ((Finset.range 3).filter (index · = i)).card =
        ([1, 2, 0] : List UInt64)[i].toNat) ∧
    (∀ (G : Type) (next : G → UInt64 × G) (rng : G),
      chooseOneFrom next rng [18446744073709551615, 1] =
        .error "sum of weights exceed max uint64") :=
  ⟨chooseOne_proportional.1 [1, 2, 0] (by decide) (by decide), fun G next rng =>
    (chooseOne_proportional.2 G next rng [18446744073709551615, 1]).mpr (by decide)⟩

end Bandchain.Bandrng
