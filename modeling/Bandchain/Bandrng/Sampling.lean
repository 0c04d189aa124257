import Bandchain.Lib.Sha256

/-!
# Weighted sampling of validators

The generator and the sampling functions of `pkg/bandrng`.  Go slices share their backing
array: removing an element shifts the tail to the left and leaves the old last element
beyond the new length, where a longer reslice can still see it.  The two arrays of
`ChooseK` are therefore modelled with their backing array and their length.
-/

namespace Bandchain.Bandrng

/-- A generator: the 32-byte seed of its next value. -/
structure Rng where
  seed : Bytes

def newRng (initSeed : Bytes) : Rng := ⟨sha256 initSeed⟩

/-- The next number, read from the first eight bytes of the seed, and the next generator. -/
def Rng.nextUint64 (r : Rng) : UInt64 × Rng :=
  (UInt64.ofNat ((r.seed.take 8).foldl (fun n b => n * 256 + b.toNat) 0), ⟨sha256 r.seed⟩)

/-- The sum of two numbers, and whether it overflows. -/
def addUint64Overflow (a b : UInt64) : UInt64 × Bool :=
  if 18446744073709551615 - a < b then (0, true) else (a + b, false)

/-- The sum of the weights, or a panic. -/
def sumWeights : UInt64 → List UInt64 → Except String UInt64
  | sum, [] => .ok sum
  | sum, w :: ws =>
    let r := addUint64Overflow sum w
    if r.2 then .error "sum of weights exceed max uint64" else sumWeights r.1 ws

/-- The first index whose running sum exceeds the lucky number. -/
def pickIndex (luckyNumber : UInt64) : UInt64 → ℕ → List UInt64 → Except String ℕ
  | _, _, [] => .error "error"
  | currentSum, idx, w :: ws =>
    if currentSum + w > luckyNumber then .ok idx
    else pickIndex luckyNumber (currentSum + w) (idx + 1) ws

/-! The sampling functions only ask the generator for its next number.  They are defined for every
source `next` of numbers, with a state in `G`. -/

def chooseOneFrom {G : Type} (next : G → UInt64 × G) (rng : G) (weights : List UInt64) :
    Except String (ℕ × G) := do
  let sum ← sumWeights 0 weights
  if sum = 0 then .error "integer divide by zero"
  else
    let idx ← pickIndex ((next rng).1 % sum) 0 0 weights
    .ok (idx, (next rng).2)

/-- `int(math.Pow(b, p / q))` with an exact power: the largest `m` with `m ^ q ≤ b ^ p`. -/
def floorPow (b p q : ℕ) : ℕ := Nat.findGreatest (fun m => m ^ q ≤ b ^ p) b

def getCandidateSize (currentRound totalRound totalCount : ℤ) : Except String ℤ :=
  if currentRound < 0 ∨ currentRound ≥ totalRound then
    .error "currentRound must in range [0,totalRound)"
  else if totalCount < totalRound then .error "error: totalCount < totalRound"
  else if currentRound = 0 then .ok totalCount
  else if totalCount = currentRound + 1 then .ok 1
  else
    .ok (floorPow (totalCount - 1).toNat (totalRound - 1 - currentRound).toNat
      (totalRound - 1).toNat + 1)

/-- Remove the element at `i` from a slice of length `len` over the backing array `arr`. -/
def removeAt {α : Type} (arr : List α) (len i : ℕ) : List α :=
  arr.take i ++ (arr.take len).drop (i + 1) ++ arr.drop (len - 1)

/-- The rounds of `ChooseK` that remain.  `len` is the length of the two slices, `values` and
`indexes` are their backing arrays. -/
def chooseKLoop {G : Type} (next : G → UInt64 × G) (k : ℤ) (totalCount : ℕ) :
    ℕ → ℕ → G → List UInt64 → List ℕ → List ℕ → Except String (List ℕ)
  | 0, _, _, _, _, luckies => .ok luckies
  | remaining + 1, round, rng, values, indexes, luckies => do
    let len := totalCount - round
    let candidateSize ← getCandidateSize round k totalCount
    if candidateSize < 0 ∨ candidateSize > values.length then
      .error "slice bounds out of range"
    else
      let (luckyNumber, rng') ← chooseOneFrom next rng (values.take candidateSize.toNat)
      if luckyNumber ≥ len then .error "index out of range"
      else
        chooseKLoop next k totalCount remaining (round + 1) rng' (removeAt values len luckyNumber)
          (removeAt indexes len luckyNumber) (luckies ++ [indexes.getD luckyNumber 0])

def chooseKFrom {G : Type} (next : G → UInt64 × G) (rng : G) (weights : List UInt64) (k : ℤ) :
    Except String (List ℕ) :=
  chooseKLoop next k weights.length k.toNat 0 rng weights (List.range weights.length) []

def chooseOne (rng : Rng) (weights : List UInt64) : Except String (ℕ × Rng) :=
  chooseOneFrom Rng.nextUint64 rng weights

def chooseK (rng : Rng) (weights : List UInt64) (k : ℤ) : Except String (List ℕ) :=
  chooseKFrom Rng.nextUint64 rng weights k

section

variable {G : Type} {next : G → UInt64 × G}

/-- A round that succeeds draws a lucky number and removes it. -/
lemma chooseKLoop_succ_eq_ok {k : ℤ} {totalCount remaining round : ℕ} {rng : G}
    {values : List UInt64} {indexes luckies r : List ℕ}
    (h : chooseKLoop next k totalCount (remaining + 1) round rng values indexes luckies = .ok r) :
    ∃ luckyNumber rng', luckyNumber < totalCount - round ∧
      chooseKLoop next k totalCount remaining (round + 1) rng'
        (removeAt values (totalCount - round) luckyNumber)
        (removeAt indexes (totalCount - round) luckyNumber)
        (luckies ++ [indexes.getD luckyNumber 0]) = .ok r := by
  simp only [chooseKLoop, bind, Except.bind] at h
  cases hc : getCandidateSize round k totalCount with
  | error e => simp [hc] at h
  | ok candidateSize =>
    simp only [hc] at h
    split_ifs at h with hsize
    cases ho : chooseOneFrom next rng (values.take candidateSize.toNat) with
    | error e => simp [ho] at h
    | ok p =>
      simp only [ho] at h
      split_ifs at h with hlucky
      exact ⟨p.1, p.2, Nat.lt_of_not_le hlucky, h⟩

/-- Every round adds one index. -/
lemma length_chooseKLoop {k : ℤ} {totalCount remaining round : ℕ} {rng : G}
    {values : List UInt64} {indexes luckies r : List ℕ}
    (h : chooseKLoop next k totalCount remaining round rng values indexes luckies = .ok r) :
    r.length = luckies.length + remaining := by
  induction remaining generalizing round rng values indexes luckies with
  | zero =>
    rw [chooseKLoop] at h
    rw [← Except.ok.inj h]
    rfl
  | succ remaining ih =>
    obtain ⟨luckyNumber, rng', _, h⟩ := chooseKLoop_succ_eq_ok h
    have hr := ih h
    simp only [List.length_append, List.length_cons, List.length_nil] at hr
    omega

lemma length_chooseK {rng : G} {weights : List UInt64} {k : ℤ} {r : List ℕ}
    (h : chooseKFrom next rng weights k = .ok r) : r.length = k.toNat := by
  have := length_chooseKLoop h
  simpa using this

/-! ## The chosen indexes are different -/

/-- What is left of a slice after an element is removed. -/
lemma take_removeAt {α : Type} {arr : List α} {len i : ℕ} (hi : i < len) (hlen : len ≤ arr.length) :
    (removeAt arr len i).take (len - 1) = (arr.take len).eraseIdx i := by
  rw [removeAt, List.eraseIdx_eq_take_drop_succ, List.take_take, min_eq_left hi.le]
  refine List.take_left' ?_
  simp only [List.length_append, List.length_take, List.length_drop]
  omega

lemma length_removeAt {α : Type} {arr : List α} {len i : ℕ} (hi : i < len)
    (hlen : len ≤ arr.length) : (removeAt arr len i).length = arr.length := by
  simp only [removeAt, List.length_append, List.length_take, List.length_drop]
  omega

/-- An index that is chosen is removed from those still to choose from. -/
lemma nodup_chooseKLoop {k : ℤ} {totalCount remaining round : ℕ} {rng : G}
    {values : List UInt64} {indexes luckies r : List ℕ} (hlen : indexes.length = totalCount)
    (hnodup : (luckies ++ indexes.take (totalCount - round)).Nodup)
    (h : chooseKLoop next k totalCount remaining round rng values indexes luckies = .ok r) :
    r.Nodup := by
  induction remaining generalizing round rng values indexes luckies with
  | zero =>
    rw [chooseKLoop] at h
    rw [← Except.ok.inj h]
    exact (List.nodup_append.mp hnodup).1
  | succ remaining ih =>
    obtain ⟨luckyNumber, rng', hi, h⟩ := chooseKLoop_succ_eq_ok h
    have hle : totalCount - round ≤ indexes.length := by omega
    refine ih (by rw [length_removeAt hi hle, hlen]) ?_ h
    -- the chosen index moves from the indexes left to the lucky ones
    have htake : (removeAt indexes (totalCount - round) luckyNumber).take (totalCount - round - 1) =
        (indexes.take (totalCount - round)).eraseIdx luckyNumber := take_removeAt hi hle
    rw [Nat.sub_sub] at htake
    rw [htake]
    have hi' : luckyNumber < (indexes.take (totalCount - round)).length := by
      rw [List.length_take]
      omega
    have hget : indexes.getD luckyNumber 0 =
        (indexes.take (totalCount - round)).get ⟨luckyNumber, hi'⟩ := by
      rw [List.getD_eq_getElem _ _ (by omega)]
      simp
    have hperm := List.getElem_cons_eraseIdx_perm hi'
    rw [hget, List.append_assoc]
    exact (hperm.append_left luckies).nodup_iff.mpr hnodup

lemma nodup_chooseK {rng : G} {weights : List UInt64} {k : ℤ} {r : List ℕ}
    (h : chooseKFrom next rng weights k = .ok r) : r.Nodup := by
  refine nodup_chooseKLoop (by simp) ?_ h
  rw [List.nil_append, Nat.sub_zero, List.take_of_length_le (by simp)]
  exact List.nodup_range

end

end Bandchain.Bandrng
