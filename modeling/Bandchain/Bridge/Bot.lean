import Bandchain.Bridge.Powers

/-!
# The validator sets that the bot pushes

The bot of `bandevmbot` reads the current validator set from a node and sends all of it to
`updateValidatorPowers`, which takes it as a list of changes: a validator that has left the set
keeps its power.  So the powers are those of the last set exactly if no validator ever left.
-/

namespace Bandchain.Bridge

open Exec

variable {platform : Platform} {s t : Storage}

/-! ## The bot -/

/-- A validator as the node returns it, with the address that belongs to its public key. -/
structure Validator where
  addr : Address
  votingPower : Int64

/-- A validator as the bot sends it. -/
def Validator.withPower (v : Validator) : ValidatorWithPower where
  addr := v.addr
  power := BitVec.ofInt 256 v.votingPower.toInt

/-- A validator set: different addresses with positive powers. -/
structure ValidatorSet where
  validators : List Validator
  nodup : (validators.map Validator.addr).Nodup
  pos : ∀ v ∈ validators, 0 < v.votingPower.toInt

namespace ValidatorSet

def getValidators (V : ValidatorSet) : List ValidatorWithPower :=
  V.validators.map Validator.withPower

/-- The power of an address in a set. -/
def powerOf (V : ValidatorSet) (a : Address) : ℕ :=
  (V.validators.find? (·.addr = a)).elim 0 (·.votingPower.toInt.toNat)

def totalPower (V : ValidatorSet) : ℕ := (V.validators.map (·.votingPower.toInt.toNat)).sum

/-- The addresses of a set. -/
def addrs (V : ValidatorSet) : List Address := V.validators.map Validator.addr

end ValidatorSet

/-- One round of the bot, which is the owner of the bridge. -/
def updateValidators (platform : Platform) (bot : Address) (s : Storage) (V : ValidatorSet) :
    Except Revert Storage :=
  updateValidatorPowers platform bot V.getValidators s

/-- The bridge after its deployment with one set and pushes of further ones. -/
def deployAndPush (platform : Platform) (bot : Address) (V₀ : ValidatorSet)
    (Vs : List ValidatorSet) : Except Revert Storage := do
  let s ← constructor platform bot V₀.getValidators
  Vs.foldlM (updateValidators platform bot) s

/-- The bridge has the powers and the total of a validator set. -/
def Storage.Mirrors (s : Storage) (V : ValidatorSet) : Prop :=
  (∀ a, s.power a = V.powerOf a) ∧ s.totalValidatorPower.toNat = V.totalPower

/-! ## Powers in a set -/

lemma Validator.toNat_withPower (v : Validator) (h : 0 < v.votingPower.toInt) :
    v.withPower.power.toNat = v.votingPower.toInt.toNat := by
  have hlt : v.votingPower.toInt < 2 ^ 63 := v.votingPower.toInt_lt
  rw [withPower, BitVec.toNat_ofInt, Int.emod_eq_of_lt (by omega) (by omega)]

lemma Validator.withPower_lt (v : Validator) (h : 0 < v.votingPower.toInt) :
    v.withPower.power.toNat < 2 ^ 63 := by
  have hlt : v.votingPower.toInt < 2 ^ 63 := v.votingPower.toInt_lt
  rw [v.toNat_withPower h]
  omega

namespace ValidatorSet

variable {V : ValidatorSet} {a : Address}

lemma powerOf_of_mem {v : Validator} (h : v ∈ V.validators) :
    V.powerOf v.addr = v.votingPower.toInt.toNat := by
  rcases hfind : V.validators.find? (·.addr = v.addr) with _ | w
  · exact absurd (List.find?_eq_none.mp hfind v h) (by simp)
  · have hw : w = v := List.inj_on_of_nodup_map V.nodup (List.mem_of_find?_eq_some hfind) h
      (by simpa using List.find?_some hfind)
    rw [powerOf, hfind, hw]
    rfl

lemma powerOf_eq_zero_iff : V.powerOf a = 0 ↔ a ∉ V.addrs := by
  constructor
  · intro hzero ha
    obtain ⟨v, hv, rfl⟩ := List.mem_map.mp ha
    have hpos := V.pos v hv
    rw [powerOf_of_mem hv] at hzero
    omega
  · intro ha
    have hnone : V.validators.find? (·.addr = a) = none := by
      rw [List.find?_eq_none]
      intro v hv hva
      exact ha (List.mem_map.mpr ⟨v, hv, by simpa using hva⟩)
    rw [powerOf, hnone]
    rfl

lemma total_powerOf (V : ValidatorSet) : Quorum.total V.powerOf = V.totalPower := by
  rw [Quorum.total_eq_sum (s := V.addrs.toFinset) fun a ha =>
    powerOf_eq_zero_iff.mpr (by simpa using ha)]
  rw [← Quorum.sum_map_eq V.addrs V.nodup, totalPower, addrs, List.map_map]
  exact congrArg List.sum (List.map_congr_left fun v hv => powerOf_of_mem hv)

end ValidatorSet

/-! ## A push -/

/-- The powers are as small as those of a validator set, so that the total cannot overflow. -/
structure Storage.Tame (s : Storage) (bot : Address) : Prop where
  balanced : s.Balanced
  small : ∀ a, s.power a < 2 ^ 63
  owner : s.owner = bot

namespace Storage.Tame

variable {bot : Address} {v : ValidatorWithPower}

lemma total_add_lt (h : s.Tame bot) : s.totalValidatorPower.toNat + 2 ^ 63 < 2 ^ 256 := by
  have hcard : Nat.card Address = 2 ^ 160 := by
    rw [Nat.card_congr BitVec.equivFin.toEquiv, Nat.card_eq_fintype_card, Fintype.card_fin]
  have hle := Quorum.total_le fun a => (h.small a).le
  rw [← h.balanced, hcard] at hle
  omega

lemma of_setPower (h : s.Tame bot) (hset : s.SetPower v t) (hv : v.power.toNat < 2 ^ 63) :
    t.Tame bot := by
  refine ⟨hset.balanced h.balanced, fun a => ?_, hset.owner.trans h.owner⟩
  rw [hset.power]
  by_cases ha : a = v.addr
  · subst ha
    rwa [Function.update_self]
  · rw [Function.update_of_ne ha]
    exact h.small a

lemma exists_add_eq_ok (platform : Platform) (h : s.Tame bot) {rest : UInt256}
    (hrest : rest.toNat ≤ s.totalValidatorPower.toNat) (hv : v.power.toNat < 2 ^ 63) :
    ∃ total, platform.add rest v.power = .ok total := by
  have hlt := h.total_add_lt
  refine ⟨rest + v.power, platform.add_eq_ok.mpr ?_⟩
  rw [BitVec.toNat_add_of_lt (by omega)]

/-- Setting one small power does not revert. -/
lemma exists_updateValidator (h : s.Tame bot) (hv : v.power.toNat < 2 ^ 63) :
    ∃ t, updateValidator platform s v = .ok t ∧ t.Tame bot := by
  obtain ⟨rest, hrest⟩ := exists_sub_eq_ok platform h.balanced v.addr
  have hle : rest.toNat ≤ s.totalValidatorPower.toNat := by
    rw [platform.sub_eq_ok.mp hrest]
    exact Nat.le_add_right _ _
  obtain ⟨total, htotal⟩ := exists_add_eq_ok platform h hle hv
  have hok : updateValidator platform s v = .ok { s with
      validatorPowers := Function.update s.validatorPowers v.addr v.power
      totalValidatorPower := total } := by
    rw [updateValidator, hrest]
    show (platform.add rest v.power >>= _) = _
    rw [htotal]
    rfl
  exact ⟨_, hok, h.of_setPower (updateValidator_eq_ok hok) hv⟩

/-- Setting the power of a new validator does not revert. -/
lemma exists_initValidator (h : s.Tame bot) (hv : v.power.toNat < 2 ^ 63)
    (hnew : s.power v.addr = 0) : ∃ t, initValidator platform s v = .ok t ∧ t.Tame bot := by
  obtain ⟨total, htotal⟩ := exists_add_eq_ok platform h le_rfl hv
  have hzero : s.validatorPowers v.addr = 0 := BitVec.eq_of_toNat_eq hnew
  have hok : initValidator platform s v = .ok { s with
      validatorPowers := Function.update s.validatorPowers v.addr v.power
      totalValidatorPower := total } := by
    rw [initValidator, require, if_pos hzero]
    show (platform.add s.totalValidatorPower v.power >>= _) = _
    rw [htotal]
    rfl
  exact ⟨_, hok, h.of_setPower (initValidator_eq_ok hok) hv⟩

end Storage.Tame

/-- The powers after a loop that sets the powers of different validators. -/
lemma power_of_foldlM {f : Storage → ValidatorWithPower → Except Revert Storage}
    (hf : ∀ {s v t}, f s v = .ok t → s.SetPower v t) {vs : List ValidatorWithPower}
    (hnodup : (vs.map ValidatorWithPower.addr).Nodup) (h : vs.foldlM f s = .ok t) (a : Address) :
    t.power a = (vs.find? (·.addr = a)).elim (s.power a) (·.power.toNat) := by
  induction vs generalizing s with
  | nil =>
    rw [← Except.ok.inj h]
    rfl
  | cons v vs ih =>
    rw [List.foldlM_cons, except_bind_eq_ok] at h
    obtain ⟨u, hu, h⟩ := h
    rw [List.map_cons, List.nodup_cons] at hnodup
    rw [ih hnodup.2 h, (hf hu).power]
    by_cases ha : v.addr = a
    · subst ha
      -- the rest of the list does not set this power again
      have hnone : vs.find? (·.addr = v.addr) = none := by
        rw [List.find?_eq_none]
        intro w hw hwv
        exact hnodup.1 (List.mem_map.mpr ⟨w, hw, by simpa using hwv⟩)
      rw [hnone, List.find?_cons_of_pos (by simp)]
      exact Function.update_self _ _ _
    · rw [List.find?_cons_of_neg (by simpa using ha), Function.update_of_ne (Ne.symm ha)]

namespace ValidatorSet

variable {V : ValidatorSet} {a : Address}

lemma nodup_getValidators (V : ValidatorSet) :
    (V.getValidators.map ValidatorWithPower.addr).Nodup := by
  rw [getValidators, List.map_map]
  exact V.nodup

lemma power_lt_of_mem {v : ValidatorWithPower} (h : v ∈ V.getValidators) :
    v.power.toNat < 2 ^ 63 := by
  obtain ⟨w, hw, rfl⟩ := List.mem_map.mp h
  exact w.withPower_lt (V.pos w hw)

/-- A set overwrites the powers of its own addresses and no others. -/
lemma elim_find?_getValidators (V : ValidatorSet) (a : Address) (n : ℕ) :
    (V.getValidators.find? (·.addr = a)).elim n (·.power.toNat) =
      if a ∈ V.addrs then V.powerOf a else n := by
  have hmap : V.getValidators.find? (·.addr = a) =
      (V.validators.find? (·.addr = a)).map Validator.withPower := List.find?_map ..
  rw [hmap]
  rcases hfind : V.validators.find? (·.addr = a) with _ | v
  · have hmem : a ∉ V.addrs := by
      intro ha
      obtain ⟨v, hv, rfl⟩ := List.mem_map.mp ha
      exact List.find?_eq_none.mp hfind v hv (by simp)
    rw [hfind, if_neg hmem]
    rfl
  · have hv := List.mem_of_find?_eq_some hfind
    have haddr : v.addr = a := by simpa using List.find?_some hfind
    have hmem : a ∈ V.addrs := List.mem_map.mpr ⟨v, hv, haddr⟩
    rw [if_pos hmem, powerOf, hfind]
    exact v.toNat_withPower (V.pos v hv)

end ValidatorSet

/-! ## Deployment and pushes -/

/-- What is known after some sets, of which `V` is the last. -/
structure Pushed (bot : Address) (sets : List ValidatorSet) (V : ValidatorSet) (s : Storage) :
    Prop where
  tame : s.Tame bot
  power_of_mem : ∀ a ∈ V.addrs, s.power a = V.powerOf a
  power_eq_zero_iff : ∀ a, s.power a = 0 ↔ ∀ W ∈ sets, a ∉ W.addrs

variable {bot : Address} {sets Vs : List ValidatorSet} {V V₀ : ValidatorSet}

lemma tame_blank (bot : Address) : (Storage.blank bot).Tame bot :=
  ⟨balanced_blank bot, fun _ => Nat.two_pow_pos 63, rfl⟩

/-- The constructor accepts a validator set. -/
lemma exists_constructor (platform : Platform) (bot : Address) (V₀ : ValidatorSet) :
    ∃ s, constructor platform bot V₀.getValidators = .ok s ∧ Pushed bot [V₀] V₀ s := by
  have hloop : ∀ {vs : List ValidatorWithPower} {s : Storage},
      (vs.map ValidatorWithPower.addr).Nodup → (∀ v ∈ vs, v.power.toNat < 2 ^ 63) →
        (∀ v ∈ vs, s.power v.addr = 0) → s.Tame bot →
          ∃ t, vs.foldlM (initValidator platform) s = .ok t ∧ t.Tame bot := by
    intro vs
    induction vs with
    | nil => exact fun _ _ _ hs => ⟨_, rfl, hs⟩
    | cons v vs ih =>
      intro s hnodup hsmall hnew hs
      rw [List.map_cons, List.nodup_cons] at hnodup
      obtain ⟨u, hu, hut⟩ := hs.exists_initValidator (hsmall v List.mem_cons_self)
        (hnew v List.mem_cons_self)
      obtain ⟨t, ht, htame⟩ := ih hnodup.2 (fun w hw => hsmall w (List.mem_cons_of_mem _ hw))
        (fun w hw => by
          have hne : w.addr ≠ v.addr := fun h => hnodup.1 (List.mem_map.mpr ⟨w, hw, h⟩)
          rw [(initValidator_eq_ok hu).power, Function.update_of_ne hne]
          exact hnew w (List.mem_cons_of_mem _ hw)) hut
      refine ⟨t, ?_, htame⟩
      rw [List.foldlM_cons, except_bind_eq_ok]
      exact ⟨u, hu, ht⟩
  obtain ⟨s, hs, htame⟩ := hloop V₀.nodup_getValidators (fun _ => ValidatorSet.power_lt_of_mem)
    (fun _ _ => rfl) (tame_blank bot)
  have hpower : ∀ a, s.power a = if a ∈ V₀.addrs then V₀.powerOf a else 0 := by
    intro a
    rw [power_of_foldlM initValidator_eq_ok V₀.nodup_getValidators hs,
      V₀.elim_find?_getValidators]
    rfl
  refine ⟨s, hs, htame, fun a ha => by rw [hpower, if_pos ha], fun a => ?_⟩
  rw [hpower, List.forall_mem_singleton, ← ValidatorSet.powerOf_eq_zero_iff]
  split_ifs with ha
  · rfl
  · simp [ValidatorSet.powerOf_eq_zero_iff.mpr ha]

/-- A push is accepted; it sets the powers of its own addresses. -/
lemma Pushed.exists_updateValidators (platform : Platform) (h : Pushed bot sets V s)
    (W : ValidatorSet) :
    ∃ t, updateValidators platform bot s W = .ok t ∧ Pushed bot (sets ++ [W]) W t := by
  obtain ⟨t, ht, htame⟩ := exists_foldlM_eq_ok (I := (Storage.Tame · bot))
    (f := updateValidator platform)
    (fun hv hs => hs.exists_updateValidator (ValidatorSet.power_lt_of_mem hv)) h.tame
  have hok : updateValidators platform bot s W = .ok t := by
    rw [updateValidators, updateValidatorPowers, require, if_pos h.tame.owner.symm]
    exact ht
  have hpower : ∀ a, t.power a = if a ∈ W.addrs then W.powerOf a else s.power a := by
    intro a
    rw [power_of_foldlM updateValidator_eq_ok W.nodup_getValidators ht,
      W.elim_find?_getValidators]
  refine ⟨t, hok, htame, fun a ha => by rw [hpower, if_pos ha], fun a => ?_⟩
  rw [hpower, List.forall_mem_append, List.forall_mem_singleton]
  split_ifs with ha
  · rw [ValidatorSet.powerOf_eq_zero_iff]
    exact ⟨fun hn => absurd ha hn, fun hn => hn.2⟩
  · rw [h.power_eq_zero_iff]
    exact ⟨fun hall => ⟨hall, ha⟩, fun hall => hall.1⟩

lemma Pushed.exists_foldlM (platform : Platform) (h : Pushed bot sets V s)
    (hlast : sets.getLast? = some V) (Vs : List ValidatorSet) :
    ∃ t W, Vs.foldlM (updateValidators platform bot) s = .ok t ∧
      (sets ++ Vs).getLast? = some W ∧ Pushed bot (sets ++ Vs) W t := by
  induction Vs generalizing sets V s with
  | nil => exact ⟨s, V, rfl, by simpa using hlast, by simpa using h⟩
  | cons W Vs ih =>
    obtain ⟨u, hu, hpushed⟩ := h.exists_updateValidators platform W
    obtain ⟨t, X, ht, hX, hfinal⟩ := ih hpushed (by simp)
    rw [List.append_assoc, List.singleton_append] at hX hfinal
    refine ⟨t, X, ?_, hX, hfinal⟩
    rw [List.foldlM_cons, except_bind_eq_ok]
    exact ⟨u, hu, ht⟩

/-- After some pushes the bridge mirrors the last set if no address was left behind. -/
lemma Pushed.mirrors_iff (h : Pushed bot sets V s) :
    s.Mirrors V ↔ ∀ W ∈ sets, ∀ a ∈ W.addrs, a ∈ V.addrs := by
  constructor
  · rintro ⟨hpower, _⟩ W hW a ha
    by_contra hleft
    have hzero : s.power a = 0 := by
      rw [hpower, ValidatorSet.powerOf_eq_zero_iff]
      exact hleft
    exact (h.power_eq_zero_iff a).mp hzero W hW ha
  · intro hall
    have hpower : ∀ a, s.power a = V.powerOf a := by
      intro a
      by_cases ha : a ∈ V.addrs
      · exact h.power_of_mem a ha
      · rw [ValidatorSet.powerOf_eq_zero_iff.mpr ha, h.power_eq_zero_iff]
        exact fun W hW hmem => ha (hall W hW a hmem)
    refine ⟨hpower, ?_⟩
    rw [h.tame.balanced, funext hpower, ValidatorSet.total_powerOf]

lemma exists_deployAndPush (platform : Platform) (bot : Address) (V₀ : ValidatorSet)
    (Vs : List ValidatorSet) :
    ∃ s, deployAndPush platform bot V₀ Vs = .ok s ∧
      Pushed bot (V₀ :: Vs) ((V₀ :: Vs).getLast (List.cons_ne_nil _ _)) s := by
  obtain ⟨s₀, hs₀, hpushed⟩ := exists_constructor platform bot V₀
  obtain ⟨s, V, hs, hlast, hfinal⟩ := hpushed.exists_foldlM platform rfl Vs
  rw [List.singleton_append] at hlast hfinal
  rw [List.getLast?_eq_some_getLast (List.cons_ne_nil _ _), Option.some.injEq] at hlast
  rw [hlast]
  refine ⟨s, ?_, hfinal⟩
  rw [deployAndPush, except_bind_eq_ok]
  exact ⟨s₀, hs₀, hs⟩

/-- **The bot and leaving validators.**  For every validator set given to the constructor and all
sets pushed after it no call reverts, and at the end the powers and the total are those of the
last set if and only if every address of the sets before is in the last one. -/
theorem deployAndPush_mirrors_iff (platform : Platform) (bot : Address) (V₀ : ValidatorSet)
    (Vs : List ValidatorSet) :
    ∃ s, deployAndPush platform bot V₀ Vs = .ok s ∧
      (((∀ a, (s.validatorPowers a).toNat =
            ((V₀ :: Vs).getLast (List.cons_ne_nil _ _)).powerOf a) ∧
          s.totalValidatorPower.toNat =
            ((V₀ :: Vs).getLast (List.cons_ne_nil _ _)).totalPower) ↔
        ∀ W ∈ V₀ :: Vs, ∀ a ∈ W.addrs,
          a ∈ ((V₀ :: Vs).getLast (List.cons_ne_nil _ _)).addrs) := by
  obtain ⟨s, hs, hpushed⟩ := exists_deployAndPush platform bot V₀ Vs
  exact ⟨s, hs, hpushed.mirrors_iff⟩

/-- With the validators 1 and 2 at the start and then validator 1 alone, validator 2 keeps its
power: the bridge does not have the powers of the last set. -/
theorem not_deployAndPush_mirrors :
    ¬∀ (platform : Platform) (bot : Address) (V₀ : ValidatorSet) (Vs : List ValidatorSet)
      (s : Storage), deployAndPush platform bot V₀ Vs = .ok s →
        (∀ a, (s.validatorPowers a).toNat =
            ((V₀ :: Vs).getLast (List.cons_ne_nil _ _)).powerOf a) ∧
          s.totalValidatorPower.toNat =
            ((V₀ :: Vs).getLast (List.cons_ne_nil _ _)).totalPower := by
  intro h
  let V₀ : ValidatorSet := ⟨[⟨1, 1⟩, ⟨2, 1⟩], by decide, by decide⟩
  let V₁ : ValidatorSet := ⟨[⟨1, 1⟩], by decide, by decide⟩
  obtain ⟨s, hs, hpushed⟩ := exists_deployAndPush (Sample.evm fun _ _ _ _ => 0) 0 V₀ [V₁]
  have hall := hpushed.mirrors_iff.mp (h _ _ _ _ s hs)
  exact absurd (hall V₀ List.mem_cons_self 2 (by decide)) (by decide)

end Bandchain.Bridge
