import Bandchain.Lib.Ranks
import Mathlib.Data.List.GetD

/-!
# The standard library of oracle scripts

`majority` and `median` reduce the values that the validators reported to one.  Both must not let a
minority decide.  The median adds its two middle values before it halves them, and the sum may wrap.
-/

namespace Bandchain.Owasm

/-! ## Majority -/

section Majority

variable {T : Type} [DecidableEq T]

/-- One step of the first loop.  The counter is unsigned. -/
def vote (state : T × ℕ) (v : T) : Except String (T × ℕ) := do
  let count ←
    if state.1 = v then .ok (state.2 + 1)
    else if state.2 = 0 then .error "attempt to subtract with overflow"
    else .ok (state.2 - 1)
  .ok (if count = 0 then (v, 1) else (state.1, count))

/-- A vector has too few elements for a counter, or twice a counter, to reach the end of `usize`. -/
def majority (vec : List T) : Except String (Option T) :=
  match vec with
  | [] => .error "index out of bounds"
  | v :: vs => do
    let (candidate, _) ← vs.foldlM vote (v, 1)
    let count := vec.foldl (fun count v => if candidate = v then count + 1 else count) 0
    .ok (if 2 * count > vec.length then some candidate else none)

/-- The candidate may have as many more votes than the others as the counter says, and the others
lack as many. -/
structure Leads (seen : List T) (candidate : T) (count : ℕ) : Prop where
  pos : 0 < count
  candidate_le : 2 * seen.count candidate ≤ seen.length + count
  others_le : ∀ x ≠ candidate, 2 * seen.count x + count ≤ seen.length + 1

lemma count_concat (seen : List T) (v x : T) :
    (seen ++ [v]).count x = seen.count x + if v = x then 1 else 0 := by
  rw [List.count_append, List.count_singleton]
  simp only [beq_iff_eq]

/-- The counter never underflows, since the candidate is replaced as soon as it is zero. -/
lemma Leads.vote {seen : List T} {candidate : T} {count : ℕ} (h : Leads seen candidate count)
    (v : T) :
    ∃ candidate' count', vote (candidate, count) v = .ok (candidate', count') ∧
      Leads (seen ++ [v]) candidate' count' := by
  obtain ⟨hpos, hcandidate, hothers⟩ := h
  have hlen : (seen ++ [v]).length = seen.length + 1 := by simp
  by_cases hv : candidate = v
  · refine ⟨candidate, count + 1, ?_, Nat.succ_pos _, ?_, fun x hx => ?_⟩
    · simp only [Owasm.vote, if_pos hv, bind, Except.bind, if_neg (Nat.succ_ne_zero count)]
    · rw [count_concat, hlen, if_pos hv.symm]
      omega
    · have := hothers x hx
      rw [count_concat, hlen, if_neg (fun h => hx (h.symm.trans hv.symm))]
      omega
  · have hv' := hothers v (Ne.symm hv)
    rcases Nat.lt_or_ge 1 count with hmany | hone
    · refine ⟨candidate, count - 1, ?_, by omega, ?_, fun x hx => ?_⟩
      · simp only [Owasm.vote, if_neg hv, if_neg (show ¬count = 0 by omega), bind, Except.bind,
          if_neg (show ¬count - 1 = 0 by omega)]
      · rw [count_concat, hlen, if_neg (Ne.symm hv)]
        omega
      · have := hothers x hx
        rw [count_concat, hlen]
        split_ifs <;> omega
    · -- the candidate loses its last vote to the next candidate, who also keeps it
      obtain rfl : count = 1 := by omega
      refine ⟨v, 1, ?_, Nat.one_pos, ?_, fun x hx => ?_⟩
      · simp only [Owasm.vote, if_neg hv, if_neg one_ne_zero, bind, Except.bind, Nat.sub_self,
          if_true]
      · rw [count_concat, hlen, if_pos rfl]
        omega
      · rw [count_concat, hlen, if_neg (Ne.symm hx)]
        rcases eq_or_ne x candidate with rfl | hxc
        · omega
        · have := hothers x hxc
          omega

lemma Leads.votes {seen : List T} {candidate : T} {count : ℕ} (h : Leads seen candidate count)
    (vs : List T) :
    ∃ candidate' count', vs.foldlM Owasm.vote (candidate, count) = .ok (candidate', count') ∧
      Leads (seen ++ vs) candidate' count' := by
  induction vs generalizing seen candidate count with
  | nil => exact ⟨candidate, count, rfl, by rwa [List.append_nil]⟩
  | cons v vs ih =>
    obtain ⟨candidate₁, count₁, hvote, h₁⟩ := h.vote v
    obtain ⟨candidate₂, count₂, hvotes, h₂⟩ := ih h₁
    refine ⟨candidate₂, count₂, ?_, by rwa [List.append_assoc, List.singleton_append] at h₂⟩
    simp only [List.foldlM_cons, hvote, bind, Except.bind]
    exact hvotes

lemma leads_singleton (v : T) : Leads [v] v 1 where
  pos := Nat.one_pos
  candidate_le := by simp
  others_le x hx := by simp [Ne.symm hx]

lemma foldl_count (candidate : T) (vs : List T) (n : ℕ) :
    vs.foldl (fun count v => if candidate = v then count + 1 else count) n =
      n + vs.count candidate := by
  induction vs generalizing n with
  | nil => rfl
  | cons v vs ih =>
    rw [List.foldl_cons, ih, List.count_cons]
    simp only [beq_iff_eq, eq_comm (a := v)]
    split_ifs <;> omega

/-- **The majority.**  The vote ends without an underflow, and returns the value of more than half
of the positions, if there is one. -/
theorem majority_eq (vec : List T) (hne : vec ≠ []) :
    ∃ r, majority vec = .ok r ∧ ∀ x, r = some x ↔ vec.length < 2 * vec.count x := by
  obtain ⟨v, vs, rfl⟩ := List.exists_cons_of_ne_nil hne
  obtain ⟨candidate, count, hvotes, hleads⟩ := (leads_singleton v).votes vs
  have hpos := hleads.pos
  refine ⟨if 2 * (v :: vs).count candidate > (v :: vs).length then some candidate else none, ?_,
    fun x => ?_⟩
  · simp only [majority, hvotes, bind, Except.bind, foldl_count, Nat.zero_add]
  · rw [List.singleton_append] at hleads
    constructor
    · intro h
      split_ifs at h with hmost
      rw [← Option.some.inj h]
      exact hmost
    · intro h
      obtain rfl : x = candidate := by
        by_contra hx
        have := hleads.others_le x hx
        omega
      rw [if_pos h]

theorem majority_eq_sample :
    ∃ r, majority [2, 1, 2] = .ok r ∧ ∀ x, r = some x ↔ 3 < 2 * [2, 1, 2].count x :=
  majority_eq [2, 1, 2] (by decide)

end Majority

/-! ## Machine integers -/

/-- A fixed-width integer type. -/
structure IntType where
  signed : Bool
  bits : ℕ
  wide : 8 ≤ bits

namespace IntType

def min (t : IntType) : ℤ := if t.signed then -2 ^ (t.bits - 1) else 0

def max (t : IntType) : ℤ := t.min + 2 ^ t.bits - 1

/-- The type has the number. -/
def Has (t : IntType) (n : ℤ) : Prop := t.min ≤ n ∧ n ≤ t.max

/-- The number of the type that differs by a multiple of `2 ^ bits`. -/
def wrap (t : IntType) (n : ℤ) : ℤ := (n - t.min) % 2 ^ t.bits + t.min

/-- The bounds in terms of half the number of values. -/
lemma exists_half (t : IntType) : ∃ half : ℤ, 128 ≤ half ∧ (2 : ℤ) ^ t.bits = 2 * half ∧
    (t.min = -half ∧ t.max = half - 1 ∨ t.min = 0 ∧ t.max = 2 * half - 1) := by
  have hpow : (2 : ℤ) ^ t.bits = 2 * 2 ^ (t.bits - 1) := by
    rw [← pow_succ', Nat.sub_add_cancel (by have := t.wide; omega)]
  have hhalf : (2 : ℤ) ^ 7 ≤ 2 ^ (t.bits - 1) :=
    pow_le_pow_right₀ (by decide) (by have := t.wide; omega)
  refine ⟨2 ^ (t.bits - 1), hhalf, hpow, ?_⟩
  rw [max, min, hpow]
  split_ifs
  · exact .inl ⟨rfl, by ring⟩
  · exact .inr ⟨rfl, by ring⟩

lemma has_wrap (t : IntType) (n : ℤ) : t.Has (t.wrap n) := by
  obtain ⟨half, hhalf, hpow, h⟩ := t.exists_half
  have hnonneg := Int.emod_nonneg (n - t.min) (show 2 * half ≠ 0 by omega)
  have hlt := Int.emod_lt_of_pos (n - t.min) (show 0 < 2 * half by omega)
  rw [Has, wrap, hpow]
  omega

lemma wrap_of_has {t : IntType} {n : ℤ} (h : t.Has n) : t.wrap n = n := by
  obtain ⟨half, hhalf, hpow, hbounds⟩ := t.exists_half
  obtain ⟨hmin, hmax⟩ := h
  rw [wrap, hpow, Int.emod_eq_of_lt (by omega) (by omega)]
  omega

lemma wrap_add (t : IntType) (n k : ℤ) : t.wrap (n + 2 ^ t.bits * k) = t.wrap n := by
  rw [wrap, wrap, add_sub_right_comm, Int.add_mul_emod_self_left]

end IntType

/-- A value of a fixed-width integer type. -/
structure Machine (t : IntType) where
  val : ℤ
  has : t.Has val

namespace Machine

variable {t : IntType}

lemma val_injective : Function.Injective (Machine.val : Machine t → ℤ) := by
  rintro ⟨a, _⟩ ⟨b, _⟩ rfl
  rfl

instance : LinearOrder (Machine t) := LinearOrder.lift' Machine.val val_injective

lemma le_iff {a b : Machine t} : a ≤ b ↔ a.val ≤ b.val := Iff.rfl

/-- Addition wraps in a release build. -/
instance : Add (Machine t) := ⟨fun a b => ⟨t.wrap (a.val + b.val), t.has_wrap _⟩⟩

/-- Division truncates towards zero. -/
instance : Div (Machine t) := ⟨fun a b => ⟨t.wrap (a.val.tdiv b.val), t.has_wrap _⟩⟩

instance : OfNat (Machine t) 2 where
  ofNat := ⟨2, by obtain ⟨half, hhalf, _, h⟩ := t.exists_half; rw [IntType.Has]; omega⟩

lemma val_add (a b : Machine t) : (a + b).val = t.wrap (a.val + b.val) := rfl

lemma val_half (a : Machine t) : (a / 2).val = t.wrap (a.val.tdiv 2) := rfl

end Machine

/-! ## Median -/

/-- The values in the order of `partial_cmp`, whose `unwrap` does not panic on integers. -/
def sorted {T : Type} [LE T] [DecidableLE T] (vals : List T) : List T :=
  vals.mergeSort fun a b => decide (a ≤ b)

def median {T : Type} [LE T] [DecidableLE T] [Add T] [Div T] [OfNat T 2] (vals : List T) :
    Except String T :=
  let vals := sorted vals
  let mid := vals.length / 2
  if vals.length % 2 = 0 then
    match vals[mid - 1]?, vals[mid]? with
    | some a, some b => .ok ((a + b) / 2)
    | _, _ => .error "index out of bounds"
  else
    match vals[mid]? with
    | some v => .ok v
    | none => .error "index out of bounds"

lemma tdiv_two_cases (n : ℤ) : n.tdiv 2 = n / 2 ∧ 0 ≤ n ∨ n.tdiv 2 = (n + 1) / 2 ∧ n ≤ 0 := by
  rcases le_total 0 n with h | h
  · exact .inl ⟨Int.tdiv_eq_ediv_of_nonneg h, h⟩
  · refine .inr ⟨?_, h⟩
    obtain ⟨m, rfl⟩ : ∃ m, n = -m := ⟨-n, by omega⟩
    rw [Int.neg_tdiv, Int.tdiv_eq_ediv_of_nonneg (by omega)]
    omega

/-- Half of a sum that does not wrap lies between the terms. -/
lemma half_add_of_has {t : IntType} {a b : Machine t} (hab : a ≤ b) (h : t.Has (a.val + b.val)) :
    a ≤ (a + b) / 2 ∧ (a + b) / 2 ≤ b := by
  rw [Machine.le_iff] at hab
  rw [Machine.le_iff, Machine.le_iff, Machine.val_half, Machine.val_add, IntType.wrap_of_has h]
  have ha := a.has
  have hb := b.has
  rw [IntType.Has] at ha hb
  have hcases := tdiv_two_cases (a.val + b.val)
  rw [IntType.wrap_of_has ⟨by omega, by omega⟩]
  omega

/-- Half of a sum that wraps lies before both terms or after them. -/
lemma half_add_of_not_has {t : IntType} {a b : Machine t} (hab : a ≤ b)
    (h : ¬t.Has (a.val + b.val)) : (a + b) / 2 < a ∨ b < (a + b) / 2 := by
  obtain ⟨half, hhalf, hpow, hbounds⟩ := t.exists_half
  have ha := a.has
  have hb := b.has
  rw [IntType.Has] at ha hb h
  rw [Machine.le_iff] at hab
  rw [← not_le, ← not_le, Machine.le_iff, Machine.le_iff, Machine.val_half, Machine.val_add]
  rcases le_total t.max (a.val + b.val) with hover | hunder
  · have hwrap : t.wrap (a.val + b.val) = a.val + b.val - 2 * half := by
      rw [← t.wrap_add _ (-1), hpow, IntType.wrap_of_has ⟨by omega, by omega⟩]
      ring
    have hcases := tdiv_two_cases (a.val + b.val - 2 * half)
    rw [hwrap, IntType.wrap_of_has ⟨by omega, by omega⟩]
    omega
  · have hwrap : t.wrap (a.val + b.val) = a.val + b.val + 2 * half := by
      rw [← t.wrap_add _ 1, hpow, IntType.wrap_of_has ⟨by omega, by omega⟩]
      ring
    have hcases := tdiv_two_cases (a.val + b.val + 2 * half)
    rw [hwrap, IntType.wrap_of_has ⟨by omega, by omega⟩]
    omega

/-- No minority decides: the value lies in every interval with more than half of the values. -/
def Robust {T : Type} [LinearOrder T] (vals : List T) (m : T) : Prop :=
  ∀ lo hi, vals.length < 2 * within lo hi vals → lo ≤ m ∧ m ≤ hi

section Median

variable {T : Type} [LinearOrder T] {vals : List T} {i : ℕ}

lemma length_sorted (vals : List T) : (sorted vals).length = vals.length := List.length_mergeSort _

/-- The value in the middle, and the one before it if their number is even, cannot be moved out of
the interval. -/
lemma robust_sorted (h : i < (sorted vals).length) (hlow : 2 * i ≤ vals.length)
    (hhigh : vals.length ≤ 2 * (i + 1)) : Robust vals (sorted vals)[i] := by
  intro lo hi hmost
  have hs : (sorted vals).Pairwise (· ≤ ·) := pairwise_mergeSort_le vals
  have hlen := length_sorted vals
  have hperm : vals.Perm (sorted vals) := (List.mergeSort_perm vals _).symm
  rw [within_perm hperm] at hmost
  constructor
  · by_contra hlt
    have := within_le_of_getElem_lt hs hi h (not_le.mp hlt)
    omega
  · by_contra hlt
    have := within_le_of_lt_getElem hs lo h (not_le.mp hlt)
    omega

lemma exists_median (hne : vals ≠ []) [Add T] [Div T] [OfNat T 2] :
    (vals.length % 2 = 1 ∧ ∃ h : vals.length / 2 < (sorted vals).length,
      median vals = .ok (sorted vals)[vals.length / 2]) ∨
    (vals.length % 2 = 0 ∧ ∃ (h : vals.length / 2 < (sorted vals).length)
        (h' : vals.length / 2 - 1 < (sorted vals).length), 0 < vals.length / 2 ∧
      median vals =
        .ok (((sorted vals)[vals.length / 2 - 1] + (sorted vals)[vals.length / 2]) / 2)) := by
  have hlen := length_sorted vals
  have hpos := List.length_pos_iff.mpr hne
  have hmid : vals.length / 2 < (sorted vals).length := by omega
  have hmid' : vals.length / 2 - 1 < (sorted vals).length := by omega
  rcases Nat.mod_two_eq_zero_or_one vals.length with heven | hodd
  · refine .inr ⟨heven, hmid, hmid', by omega, ?_⟩
    simp only [median, hlen, if_pos heven, List.getElem?_eq_getElem hmid,
      List.getElem?_eq_getElem hmid']
  · refine .inl ⟨hodd, hmid, ?_⟩
    simp only [median, hlen, if_neg (show ¬vals.length % 2 = 0 by omega),
      List.getElem?_eq_getElem hmid]

end Median

/-- The exact sum of the two values in the middle. -/
def middleSum {t : IntType} (vals : List (Machine t)) : ℤ :=
  ((sorted vals).map Machine.val).getD (vals.length / 2 - 1) 0 +
    ((sorted vals).map Machine.val).getD (vals.length / 2) 0

/-- **The median.**  A minority cannot move the median out of the range of the others, exactly if
the number of values is odd or the sum of the two in the middle does not wrap. -/
theorem median_robust_iff {t : IntType} (vals : List (Machine t)) (hne : vals ≠ []) :
    ∃ m, median vals = .ok m ∧
      (Robust vals m ↔ (vals.length % 2 = 0 → t.Has (middleSum vals))) := by
  have hs : (sorted vals).Pairwise (· ≤ ·) := pairwise_mergeSort_le vals
  have hlen := length_sorted vals
  have hperm : vals.Perm (sorted vals) := (List.mergeSort_perm vals _).symm
  rcases exists_median hne with ⟨hodd, h, hmedian⟩ | ⟨heven, h, h', hpos, hmedian⟩
  · refine ⟨_, hmedian, fun _ heven => absurd heven (by omega), fun _ => ?_⟩
    exact robust_sorted h (by omega) (by omega)
  · refine ⟨_, hmedian, ?_⟩
    have hab := List.pairwise_iff_getElem.mp hs _ _ h' h (by omega)
    have hsum : middleSum vals = (sorted vals)[vals.length / 2 - 1].val +
        (sorted vals)[vals.length / 2].val := by
      rw [middleSum, List.getD_eq_getElem _ _ (by rw [List.length_map]; exact h'),
        List.getD_eq_getElem _ _ (by rw [List.length_map]; exact h), List.getElem_map,
        List.getElem_map]
    rw [hsum]
    constructor
    · -- the first value in the middle and those after it are a majority, and so are the second
      -- and those before it
      intro hrobust _
      by_contra hwrap
      have hfirst : 0 < (sorted vals).length := by omega
      have hlast : (sorted vals).length - 1 < (sorted vals).length := by omega
      rcases half_add_of_not_has hab hwrap with hlt | hlt
      · have hmost := length_sub_le_within_last hs h' hlast
        rw [← within_perm hperm] at hmost
        have hm := hrobust (sorted vals)[vals.length / 2 - 1]
          (sorted vals)[(sorted vals).length - 1]
        exact absurd (hm (by omega)).1 (not_le.mpr hlt)
      · have hmost := lt_within_head hs h hfirst
        rw [← within_perm hperm] at hmost
        have hm := hrobust (sorted vals)[0] (sorted vals)[vals.length / 2]
        exact absurd (hm (by omega)).2 (not_le.mpr hlt)
    · intro hfits lo hi hmost
      obtain ⟨hle, hge⟩ := half_add_of_has hab (hfits heven)
      have ha := robust_sorted h' (by omega) (by omega) lo hi hmost
      have hb := robust_sorted h (by omega) (by omega) lo hi hmost
      exact ⟨ha.1.trans hle, hge.trans hb.2⟩

namespace Sample

/-- The unsigned integers of eight bits. -/
def byte : IntType := ⟨false, 8, le_rfl⟩

def value (n : ℕ) (h : n < 256) : Machine byte :=
  ⟨n, Int.natCast_nonneg n, by change (n : ℤ) ≤ 0 + 2 ^ 8 - 1; omega⟩

end Sample

open Sample

theorem median_robust_iff_sample :
    ∃ m, median [value 3 (by decide), value 1 (by decide), value 2 (by decide)] = .ok m ∧
      (Robust [value 3 (by decide), value 1 (by decide), value 2 (by decide)] m ↔
        (3 % 2 = 0 →
          byte.Has (middleSum [value 3 (by decide), value 1 (by decide), value 2 (by decide)]))) :=
  median_robust_iff _ (by simp)

/-- All values are 200, and the median is 72. -/
theorem not_median_robust :
    ¬∀ (t : IntType) (vals : List (Machine t)) (lo hi : Machine t), vals ≠ [] →
      vals.length < 2 * within lo hi vals → ∃ m, median vals = .ok m ∧ lo ≤ m ∧ m ≤ hi := by
  intro h
  obtain ⟨m, hm, hlo, _⟩ := h byte [value 200 (by decide), value 200 (by decide)]
    (value 200 (by decide)) (value 200 (by decide)) (by simp) (by decide)
  have hsorted : sorted [value 200 (by decide), value 200 (by decide)] =
      [value 200 (by decide), value 200 (by decide)] :=
    List.mergeSort_of_pairwise (by simp)
  have hmedian : median [value 200 (by decide), value 200 (by decide)] =
      .ok (value 72 (by decide)) := by
    simp only [median, hsorted]
    rfl
  rw [hmedian] at hm
  obtain rfl := Except.ok.inj hm
  exact absurd hlo (by decide)

end Bandchain.Owasm
