import Mathlib.Data.List.Sort
import Mathlib.Order.Basic
import Mathlib.Tactic

/-!
# Ranks in a sorted list

How many elements of a list lie in an interval, and what this says about the element at a given
position of the sorted list.
-/

namespace Bandchain

variable {α : Type} [LinearOrder α]

/-- The number of elements in the interval from `lo` to `hi`. -/
def within (lo hi : α) (l : List α) : ℕ := l.countP fun v => decide (lo ≤ v ∧ v ≤ hi)

lemma within_perm {lo hi : α} {l l' : List α} (h : l.Perm l') : within lo hi l = within lo hi l' :=
  h.countP_eq _

lemma within_append (lo hi : α) (l l' : List α) :
    within lo hi (l ++ l') = within lo hi l + within lo hi l' :=
  List.countP_append

lemma within_le_length (lo hi : α) (l : List α) : within lo hi l ≤ l.length := List.countP_le_length

lemma within_eq_zero {lo hi : α} {l : List α} (h : ∀ v ∈ l, ¬(lo ≤ v ∧ v ≤ hi)) :
    within lo hi l = 0 :=
  List.countP_eq_zero.mpr fun v hv => by simpa using h v hv

lemma within_eq_length {lo hi : α} {l : List α} (h : ∀ v ∈ l, lo ≤ v ∧ v ≤ hi) :
    within lo hi l = l.length :=
  List.countP_eq_length.mpr fun v hv => by simpa using h v hv

section Sorted

variable {s : List α} (hs : s.Pairwise (· ≤ ·)) {i : ℕ}

include hs

lemma le_of_mem_drop (h : i < s.length) {v : α} (hv : v ∈ s.drop i) : s[i] ≤ v := by
  rw [List.drop_eq_getElem_cons h] at hv
  rcases List.mem_cons.mp hv with rfl | hv
  · exact le_rfl
  · rw [← List.take_append_drop i s, List.drop_eq_getElem_cons h] at hs
    exact (List.pairwise_cons.mp (List.pairwise_append.mp hs).2.1).1 v hv

lemma le_of_mem_take (h : i < s.length) {v : α} (hv : v ∈ s.take (i + 1)) : v ≤ s[i] := by
  rw [List.take_succ_eq_append_getElem h, List.mem_append, List.mem_singleton] at hv
  rcases hv with hv | rfl
  · rw [← List.take_append_drop i s, List.pairwise_append] at hs
    exact hs.2.2 v hv _ (by rw [List.drop_eq_getElem_cons h]; exact List.mem_cons_self)
  · exact le_rfl

/-- If the interval ends before the element, only the elements before it may lie in it. -/
lemma within_le_of_lt_getElem (lo : α) {hi : α} (h : i < s.length) (hlt : hi < s[i]) :
    within lo hi s ≤ i := by
  have hsplit := within_append lo hi (s.take i) (s.drop i)
  have hdrop : within lo hi (s.drop i) = 0 := within_eq_zero fun v hv hin =>
    absurd (hlt.trans_le (le_of_mem_drop hs h hv)) (not_lt.mpr hin.2)
  have htake := within_le_length lo hi (s.take i)
  rw [List.length_take] at htake
  rw [List.take_append_drop] at hsplit
  omega

/-- If the interval starts after the element, only the elements after it may lie in it. -/
lemma within_le_of_getElem_lt {lo : α} (hi : α) (h : i < s.length) (hlt : s[i] < lo) :
    within lo hi s ≤ s.length - (i + 1) := by
  have hsplit := within_append lo hi (s.take (i + 1)) (s.drop (i + 1))
  have htake : within lo hi (s.take (i + 1)) = 0 := within_eq_zero fun v hv hin =>
    absurd ((le_of_mem_take hs h hv).trans_lt hlt) (not_lt.mpr hin.1)
  have hdrop := within_le_length lo hi (s.drop (i + 1))
  rw [List.length_drop] at hdrop
  rw [List.take_append_drop] at hsplit
  omega

/-- The elements up to one lie between the first and it. -/
lemma lt_within_head (h : i < s.length) (h0 : 0 < s.length) : i < within s[0] s[i] s := by
  have hsplit := within_append s[0] s[i] (s.take (i + 1)) (s.drop (i + 1))
  have htake : within s[0] s[i] (s.take (i + 1)) = (s.take (i + 1)).length := by
    refine within_eq_length fun v hv => ⟨?_, le_of_mem_take hs h hv⟩
    exact le_of_mem_drop hs h0 (by rw [List.drop_zero]; exact List.mem_of_mem_take hv)
  rw [List.length_take] at htake
  rw [List.take_append_drop] at hsplit
  omega

/-- The elements from one on lie between it and the last. -/
lemma length_sub_le_within_last (h : i < s.length) (hlast : s.length - 1 < s.length) :
    s.length - i ≤ within s[i] s[s.length - 1] s := by
  have hsplit := within_append s[i] s[s.length - 1] (s.take i) (s.drop i)
  have hdrop : within s[i] s[s.length - 1] (s.drop i) = (s.drop i).length := by
    refine within_eq_length fun v hv => ⟨le_of_mem_drop hs h hv, ?_⟩
    refine le_of_mem_take hs hlast ?_
    rw [List.take_of_length_le (by omega)]
    exact List.mem_of_mem_drop hv
  rw [List.length_drop] at hdrop
  rw [List.take_append_drop] at hsplit
  omega

end Sorted

/-- Sorting by a linear order. -/
lemma pairwise_mergeSort_le (l : List α) :
    (l.mergeSort fun a b => decide (a ≤ b)).Pairwise (· ≤ ·) := by
  refine (List.pairwise_mergeSort (fun a b c hab hbc => ?_) (fun a b => ?_) l).imp fun h => ?_
  · exact decide_eq_true ((of_decide_eq_true hab).trans (of_decide_eq_true hbc))
  · simpa using le_total a b
  · exact of_decide_eq_true h

end Bandchain
