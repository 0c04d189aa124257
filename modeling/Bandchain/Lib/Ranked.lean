import Bandchain.Lib.Run

/-!
# Systems that come to rest

A system whose every step lowers a rank takes only so many steps, whatever the order, and can
always be run to a state in which no step is left.
-/

namespace Bandchain

variable {S L : Type} (step : S → L → S → Prop)

/-- No step is left. -/
def AtRest (s : S) : Prop := ∀ l t, ¬step s l t

/-- Every step lowers the rank. -/
def Lowers (rank : S → ℕ) : Prop := ∀ s l t, step s l t → rank t < rank s

variable {step} {rank : S → ℕ} {s t : S} {ls : List L}

/-- The rank pays for every step of a run. -/
lemma Lowers.length_le (h : Lowers step rank) (hrun : Run step s ls t) : ls.length ≤ rank s := by
  induction hrun with
  | nil s => exact Nat.zero_le _
  | cons _ hstep _ ih =>
    have hlt := h _ _ _ hstep
    rw [List.length_cons]
    omega

/-- From every state some run leads to a state at rest. -/
lemma Lowers.exists_atRest (h : Lowers step rank) (s : S) :
    ∃ ls t, Run step s ls t ∧ AtRest step t := by
  induction hn : rank s using Nat.strong_induction_on generalizing s with
  | _ n ih =>
    by_cases hrest : AtRest step s
    · exact ⟨[], s, .nil s, hrest⟩
    · obtain ⟨l, t, hstep⟩ : ∃ l t, step s l t := by simpa [AtRest] using hrest
      obtain ⟨ls, u, hrun, hu⟩ := ih (rank t) (hn ▸ h _ _ _ hstep) t rfl
      exact ⟨l :: ls, u, .cons trivial hstep hrun, hu⟩

end Bandchain
