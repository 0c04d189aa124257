import Bandchain.Bandrng.Choice

/-!
# The candidates of a round

In every round of `ChooseK` the candidates are among the elements that are left, so no slice is out
of bounds and a number is chosen.  The number of candidates is a power of `n - 1` whose exponent
falls from one to zero on a line, and what is left falls on a line, too; the power stays below the
line since it is convex.
-/

namespace Bandchain.Bandrng

/-! ## The size of the window -/

/-- The arithmetic mean of `K - i` copies of `N` and `i` ones is at most `N - i + i / N`. -/
lemma pow_lt_pow_sub {N K i : ℕ} (hiN : i < N) (hiK : i ≤ K) (hKN : K ≤ N) (hK : 0 < K) :
    N ^ (K - i) < (N - i + 1) ^ K := by
  have hN : 0 < N := by omega
  have hKpos : (0 : ℝ) < K := by exact_mod_cast hK
  have hNpos : (0 : ℝ) < N := by exact_mod_cast hN
  have hsum : ((K - i : ℕ) : ℝ) / K + (i : ℝ) / K = 1 := by
    rw [← add_div, Nat.cast_sub hiK, sub_add_cancel, div_self hKpos.ne']
  -- the geometric mean is at most the arithmetic mean
  have hmean := Real.geom_mean_le_arith_mean2_weighted
    (div_nonneg (Nat.cast_nonneg _) hKpos.le) (div_nonneg (Nat.cast_nonneg _) hKpos.le)
    hNpos.le zero_le_one hsum
  rw [Real.one_rpow, mul_one, mul_one] at hmean
  -- which is below the next number
  have hbelow : ((K - i : ℕ) : ℝ) / K * N + (i : ℝ) / K < (N - i + 1 : ℕ) := by
    rw [Nat.cast_sub hiK, Nat.cast_add, Nat.cast_sub hiN.le, Nat.cast_one]
    have hiN' : (i : ℝ) < N := by exact_mod_cast hiN
    have hKN' : (K : ℝ) ≤ N := by exact_mod_cast hKN
    have hi0 : (0 : ℝ) ≤ i := Nat.cast_nonneg _
    rw [div_mul_eq_mul_div, ← add_div, div_lt_iff₀ hKpos]
    rcases hiK.eq_or_lt with rfl | hlt
    · nlinarith
    · have hiK' : (i : ℝ) < K := by exact_mod_cast hlt
      nlinarith
  have hroot : ((N : ℝ) ^ (((K - i : ℕ) : ℝ) / K)) ^ K = (N : ℝ) ^ (K - i) := by
    rw [← Real.rpow_natCast, ← Real.rpow_mul hNpos.le, div_mul_cancel₀ _ hKpos.ne',
      Real.rpow_natCast]
  have hlt := pow_lt_pow_left₀ (hmean.trans_lt hbelow) (Real.rpow_nonneg hNpos.le _) hK.ne'
  rw [hroot] at hlt
  exact_mod_cast hlt

/-- The root of a power is below the line. -/
lemma floorPow_lt {N K i : ℕ} (hiN : i < N) (hiK : i ≤ K) (hKN : K ≤ N) (hK : 0 < K) :
    floorPow N (K - i) K < N - i + 1 := by
  have hspec : floorPow N (K - i) K ^ K ≤ N ^ (K - i) := by
    refine Nat.findGreatest_spec (P := fun m => m ^ K ≤ N ^ (K - i)) (Nat.zero_le N) ?_
    rw [Nat.zero_pow hK]
    exact Nat.zero_le _
  exact lt_of_pow_lt_pow_left₀ K (Nat.zero_le _)
    (hspec.trans_lt (pow_lt_pow_sub hiN hiK hKN hK))

/-- The candidates of a round are among those that are left, and there is one. -/
lemma getCandidateSize_eq_ok {round k n : ℕ} (hround : round < k) (hkn : k ≤ n) :
    ∃ c : ℕ, getCandidateSize round k n = .ok (c : ℤ) ∧ 1 ≤ c ∧ c ≤ n - round := by
  rw [getCandidateSize, if_neg (by omega), if_neg (by omega)]
  split_ifs with hzero hone
  · exact ⟨n, rfl, by omega, by omega⟩
  · exact ⟨1, rfl, le_rfl, by omega⟩
  · have hbase : ((n : ℤ) - 1).toNat = n - 1 := by omega
    have hexp : ((k : ℤ) - 1 - round).toNat = k - 1 - round := by omega
    have hroot : ((k : ℤ) - 1).toNat = k - 1 := by omega
    rw [hbase, hexp, hroot]
    have hlt := floorPow_lt (N := n - 1) (K := k - 1) (i := round) (by omega) (by omega)
      (by omega) (by omega)
    generalize floorPow (n - 1) (k - 1 - round) (k - 1) = m at hlt ⊢
    exact ⟨m + 1, by rw [Nat.cast_add, Nat.cast_one], by omega, by omega⟩

/-! ## The rounds -/

lemma total_append (ws ws' : List UInt64) : total (ws ++ ws') = total ws + total ws' := by
  simp only [total, List.map_append, List.sum_append]

/-- What is left to choose from when `len` elements are: positive weights whose sum fits, and
indexes of elements. -/
structure Pool (n : ℕ) (values : List UInt64) (indexes : List ℕ) (len : ℕ) : Prop where
  length_values : values.length = n
  length_indexes : indexes.length = n
  pos : ∀ w ∈ values.take len, 0 < w.toNat
  fits : total (values.take len) < 2 ^ 64
  index_lt : ∀ i ∈ indexes.take len, i < n

lemma Pool.start {weights : List UInt64} (hpos : ∀ w ∈ weights, 0 < w.toNat)
    (hfits : total weights < 2 ^ 64) :
    Pool weights.length weights (List.range weights.length) weights.length where
  length_values := rfl
  length_indexes := List.length_range
  pos w hw := hpos w (List.mem_of_mem_take hw)
  fits := by rwa [List.take_length]
  index_lt i hi := List.mem_range.mp (List.mem_of_mem_take hi)

lemma total_eraseIdx_le (ws : List UInt64) (i : ℕ) : total (ws.eraseIdx i) ≤ total ws :=
  ((List.eraseIdx_sublist ws i).map UInt64.toNat).sum_le_sum fun _ _ => Nat.zero_le _

/-- An element that is chosen leaves the pool. -/
lemma Pool.removeAt {n len i : ℕ} {values : List UInt64} {indexes : List ℕ}
    (h : Pool n values indexes len) (hi : i < len) (hlen : len ≤ n) :
    Pool n (removeAt values len i) (removeAt indexes len i) (len - 1) where
  length_values := by rw [length_removeAt hi (by rw [h.length_values]; exact hlen), h.length_values]
  length_indexes := by
    rw [length_removeAt hi (by rw [h.length_indexes]; exact hlen), h.length_indexes]
  pos w hw := by
    rw [take_removeAt hi (by rw [h.length_values]; exact hlen)] at hw
    exact h.pos w (List.mem_of_mem_eraseIdx hw)
  fits := by
    rw [take_removeAt hi (by rw [h.length_values]; exact hlen)]
    exact (total_eraseIdx_le _ _).trans_lt h.fits
  index_lt j hj := by
    rw [take_removeAt hi (by rw [h.length_indexes]; exact hlen)] at hj
    exact h.index_lt j (List.mem_of_mem_eraseIdx hj)

/-- Some of the elements of the pool, at least one of them, can be chosen from. -/
lemma Pool.chooseOneFrom_eq_ok {G : Type} (next : G → UInt64 × G) {n len c : ℕ}
    {values : List UInt64} {indexes : List ℕ} (h : Pool n values indexes len) (hlen : len ≤ n)
    (hc : 1 ≤ c) (hclen : c ≤ len) (rng : G) :
    ∃ j rng', chooseOneFrom next rng (values.take c) = .ok (j, rng') ∧ j < len := by
  have htake : (values.take len).take c = values.take c := by
    rw [List.take_take, min_eq_left hclen]
  have hlength : (values.take c).length = c := by
    rw [List.length_take, h.length_values, min_eq_left (hclen.trans hlen)]
  have hsplit := total_append ((values.take len).take c) ((values.take len).drop c)
  rw [List.take_append_drop, htake] at hsplit
  have hpos : 0 < total (values.take c) := by
    obtain ⟨w, ws, hws⟩ := List.exists_cons_of_length_pos (l := values.take c) (by omega)
    have hw := h.pos w (List.mem_of_mem_take (by rw [htake, hws]; exact List.mem_cons_self))
    rw [hws, total_cons]
    omega
  have hfits := h.fits
  have hlt := luckyIndex_lt (Nat.mod_lt (next rng).1.toNat hpos)
  exact ⟨_, _, chooseOneFrom_eq rng hpos (by omega), by omega⟩

section

variable {G : Type} {next : G → UInt64 × G}

/-- Every round has a candidate, and it takes an index from the pool. -/
lemma chooseKLoop_eq_ok {k n remaining round : ℕ} {rng : G} {values : List UInt64}
    {indexes luckies : List ℕ} (hround : round + remaining = k) (hkn : k ≤ n)
    (hpool : Pool n values indexes (n - round)) (hluckies : ∀ i ∈ luckies, i < n) :
    ∃ r, chooseKLoop next k n remaining round rng values indexes luckies = .ok r ∧
      ∀ i ∈ r, i < n := by
  induction remaining generalizing round rng values indexes luckies with
  | zero => exact ⟨luckies, rfl, hluckies⟩
  | succ remaining ih =>
    obtain ⟨c, hc, hc1, hclen⟩ := getCandidateSize_eq_ok (show round < k by omega) hkn
    obtain ⟨j, rng', hone, hj⟩ := hpool.chooseOneFrom_eq_ok next (by omega) hc1 hclen rng
    have hsize : ¬((c : ℤ) < 0 ∨ (c : ℤ) > values.length) := by
      rw [hpool.length_values]
      omega
    have hindex : indexes.getD j 0 < n := by
      have hj' : j < (indexes.take (n - round)).length := by
        rw [List.length_take, hpool.length_indexes]
        omega
      refine hpool.index_lt _ ?_
      rw [List.getD_eq_getElem _ _ (by rw [hpool.length_indexes]; omega)]
      have := List.getElem_mem hj'
      rwa [List.getElem_take] at this
    obtain ⟨r, hr, hlt⟩ := @ih (round + 1) rng' (removeAt values (n - round) j)
      (removeAt indexes (n - round) j) (luckies ++ [indexes.getD j 0]) (by omega)
      (by rw [← Nat.sub_sub]; exact hpool.removeAt hj (Nat.sub_le _ _)) (by
        intro i hi
        rcases List.mem_append.mp hi with hi | hi
        · exact hluckies i hi
        · rw [List.mem_singleton.mp hi]
          exact hindex)
    refine ⟨r, ?_, hlt⟩
    simp only [chooseKLoop, bind, Except.bind, hc, if_neg hsize, Int.toNat_natCast, hone,
      if_neg (show ¬j ≥ n - round by omega), hr]

/-- As many indexes are chosen as asked for. -/
lemma chooseKFrom_eq_ok (rng : G) {weights : List UInt64} {k : ℕ}
    (hpos : ∀ w ∈ weights, 0 < w.toNat) (hfits : total weights < 2 ^ 64)
    (hk : k ≤ weights.length) :
    ∃ r, chooseKFrom next rng weights k = .ok r ∧ r.length = k ∧ r.Nodup ∧
      ∀ i ∈ r, i < weights.length := by
  obtain ⟨r, hr, hlt⟩ : ∃ r, chooseKFrom next rng weights k = .ok r ∧
      ∀ i ∈ r, i < weights.length :=
    chooseKLoop_eq_ok (Nat.zero_add k) hk (Pool.start hpos hfits)
      (fun i hi => absurd hi List.not_mem_nil)
  exact ⟨r, hr, length_chooseK hr, nodup_chooseK hr, hlt⟩

end

end Bandchain.Bandrng
