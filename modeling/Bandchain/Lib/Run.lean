import Mathlib

/-!
# Runs of a transition system

A transition system is a relation `step s l t`: the label `l` leads from the state `s` to
the state `t`.  A run is a list of labels taken one after the other.  Runs may be restricted
to steps that meet a condition on the state before the step and on the label.  The file
gives the invariant rule and the simulation rule: a system whose every step is matched by a
run of another system has only runs that the other system matches.
-/

namespace Bandchain

variable {S L : Type} (step : S → L → S → Prop)

/-- `RunWhere step P s ls t`: the labels `ls` lead from `s` to `t`, and every step, in the
state in which it is taken, meets `P`. -/
inductive RunWhere (P : S → L → Prop) : S → List L → S → Prop
  | nil (s : S) : RunWhere P s [] s
  | cons {s t u : S} {l : L} {ls : List L} :
      P s l → step s l t → RunWhere P t ls u → RunWhere P s (l :: ls) u

/-- A run with no condition on its steps. -/
abbrev Run : S → List L → S → Prop := RunWhere step fun _ _ => True

/-- A state is reachable if some run leads to it from an initial state. -/
def Reachable (init : S → Prop) (s : S) : Prop := ∃ s₀ ls, init s₀ ∧ Run step s₀ ls s

variable {step} {P Q : S → L → Prop} {s t u : S} {l : L} {ls ms : List L}

lemma RunWhere.imp (hPQ : ∀ s l, P s l → Q s l) (h : RunWhere step P s ls t) :
    RunWhere step Q s ls t := by
  induction h with
  | nil s => exact .nil s
  | cons hP hstep _ ih => exact .cons (hPQ _ _ hP) hstep ih

lemma RunWhere.run (h : RunWhere step P s ls t) : Run step s ls t :=
  h.imp fun _ _ _ => trivial

lemma RunWhere.append (h₁ : RunWhere step P s ls t) (h₂ : RunWhere step P t ms u) :
    RunWhere step P s (ls ++ ms) u := by
  induction h₁ with
  | nil s => exact h₂
  | cons hP hstep _ ih => exact .cons hP hstep (ih h₂)

/-- A run can be cut at any point. -/
lemma RunWhere.split (h : RunWhere step P s (ls ++ ms) u) :
    ∃ t, RunWhere step P s ls t ∧ RunWhere step P t ms u := by
  induction ls generalizing s with
  | nil => exact ⟨s, .nil s, h⟩
  | cons l ls ih =>
    cases h with
    | cons hP hstep h =>
      obtain ⟨t, h₁, h₂⟩ := ih h
      exact ⟨t, .cons hP hstep h₁, h₂⟩

/-- A run meets a condition at every step, or there is a first part of it and a step after
that part that does not. -/
lemma RunWhere.all_or_exists_not (h : Run step s ls u) :
    RunWhere step Q s ls u ∨ ∃ ls₁ l ls₂ s₁ s₂, ls = ls₁ ++ l :: ls₂ ∧ Run step s ls₁ s₁ ∧
      ¬Q s₁ l ∧ step s₁ l s₂ ∧ Run step s₂ ls₂ u := by
  induction h with
  | nil s => exact .inl (.nil s)
  | @cons s t u l ls _ hstep hrest ih =>
    by_cases hQ : Q s l
    · rcases ih with ih | ⟨ls₁, l', ls₂, s₁, s₂, rfl, h₁, hnot, hst, h₂⟩
      · exact .inl (.cons hQ hstep ih)
      · exact .inr ⟨l :: ls₁, l', ls₂, s₁, s₂, rfl, .cons trivial hstep h₁, hnot, hst, h₂⟩
    · exact .inr ⟨[], l, ls, s, t, rfl, .nil s, hQ, hstep, hrest⟩

/-- **Since rule.**  What holds at the end of a run has held all along, or since a step of the run
that made it hold. -/
lemma RunWhere.since {Q : S → Prop} (h : Run step s ls u) (hu : Q u) :
    Q s ∧ RunWhere step (fun s _ => Q s) s ls u ∨ ∃ ls₁ l ls₂ s₁ s₂, ls = ls₁ ++ l :: ls₂ ∧
      Run step s ls₁ s₁ ∧ ¬Q s₁ ∧ step s₁ l s₂ ∧ Q s₂ ∧ RunWhere step (fun s _ => Q s) s₂ ls₂ u := by
  induction h with
  | nil s => exact .inl ⟨hu, .nil s⟩
  | @cons s t u l ls _ hstep hrest ih =>
    rcases ih hu with ⟨ht, hall⟩ | ⟨ls₁, l', ls₂, s₁, s₂, rfl, h₁, hnot, hst, hs₂, h₂⟩
    · by_cases hs : Q s
      · exact .inl ⟨hs, .cons hs hstep hall⟩
      · exact .inr ⟨[], l, ls, s, t, rfl, .nil s, hs, hstep, ht, hall⟩
    · exact .inr ⟨l :: ls₁, l', ls₂, s₁, s₂, rfl, .cons trivial hstep h₁, hnot, hst, hs₂, h₂⟩

lemma RunWhere.single (hP : P s l) (hstep : step s l t) : RunWhere step P s [l] t :=
  .cons hP hstep (.nil t)

/-- **Invariant rule.**  What every step preserves holds at the end of a run if it holds at
its start. -/
lemma RunWhere.invariant {I : S → Prop} (h : RunWhere step P s ls t)
    (hstep : ∀ {s l t}, P s l → step s l t → I s → I t) (hs : I s) : I t := by
  induction h with
  | nil s => exact hs
  | cons hP hst _ ih => exact ih (hstep hP hst hs)

/-- **Accounting rule.**  A quantity to which every step adds what belongs to its label has
grown by the sum over the labels at the end of a run. -/
lemma RunWhere.sum {M : Type} [AddCommMonoid M] {q : S → M} {gain : L → M}
    (h : RunWhere step P s ls t)
    (hstep : ∀ {s l t}, P s l → step s l t → q t = q s + gain l) :
    q t = q s + (ls.map gain).sum := by
  induction h with
  | nil s => simp
  | cons hP hst _ ih => rw [ih, hstep hP hst, List.map_cons, List.sum_cons, add_assoc]

lemma Reachable.of_run {init : S → Prop} (hs : Reachable step init s) (h : Run step s ls t) :
    Reachable step init t := by
  obtain ⟨s₀, ks, hinit, hrun⟩ := hs
  exact ⟨s₀, ks ++ ls, hinit, hrun.append h⟩

lemma Reachable.of_init {init : S → Prop} (h : init s) : Reachable step init s :=
  ⟨s, [], h, .nil s⟩

/-- **Invariant rule for reachable states.** -/
lemma Reachable.invariant {init I : S → Prop} (hs : Reachable step init s)
    (hinit : ∀ {s}, init s → I s) (hstep : ∀ {s l t}, step s l t → I s → I t) : I s := by
  obtain ⟨s₀, ls, h₀, hrun⟩ := hs
  exact hrun.invariant (fun _ hst hI => hstep hst hI) (hinit h₀)

/-- **Simulation rule.**  If an invariant holds at the start, and every step keeps it and is
viewed as a run of the abstract system, then so is every run. -/
lemma RunWhere.simulate {A M : Type} {astep : A → M → A → Prop} {R : A → M → Prop}
    (view : S → A) {J : S → Prop} (hsim : ∀ {s l t}, J s → P s l → step s l t →
      J t ∧ ∃ as, RunWhere astep R (view s) as (view t))
    (h : RunWhere step P s ls t) (hs : J s) :
    J t ∧ ∃ as, RunWhere astep R (view s) as (view t) := by
  induction h with
  | nil s => exact ⟨hs, [], .nil _⟩
  | cons hP hst _ ih =>
    obtain ⟨ht, as, has⟩ := hsim hs hP hst
    obtain ⟨hu, bs, hbs⟩ := ih ht
    exact ⟨hu, as ++ bs, has.append hbs⟩

/-! ## Running a step function -/

/-- The relation of a partial step function. -/
def stepOf (f : L → S → Option S) (s : S) (l : L) (t : S) : Prop := f l s = some t

/-- The labels determine where a run of a step function ends. -/
lemma RunWhere.unique {f : L → S → Option S} (h : RunWhere (stepOf f) P s ls t)
    (h' : RunWhere (stepOf f) Q s ls u) : t = u := by
  induction h with
  | nil s =>
    cases h'
    rfl
  | cons _ hst _ ih =>
    cases h' with
    | cons _ hst' h' =>
      obtain rfl := Option.some.inj (hst.symm.trans hst')
      exact ih h'

/-- The run computed by taking the labels in order, as long as every step meets `P`. -/
def runAll (f : L → S → Option S) (P : S → L → Prop) [∀ s l, Decidable (P s l)] :
    List L → S → Option S
  | [], s => some s
  | l :: ls, s => if P s l then (f l s).bind (runAll f P ls) else none

lemma runWhere_of_runAll {f : L → S → Option S} [∀ s l, Decidable (P s l)]
    (h : runAll f P ls s = some t) : RunWhere (stepOf f) P s ls t := by
  induction ls generalizing s with
  | nil =>
    rw [← Option.some.inj h]
    exact .nil s
  | cons l ls ih =>
    rw [runAll] at h
    split_ifs at h with hP
    obtain ⟨s', hs', h⟩ := Option.bind_eq_some_iff.mp h
    exact .cons hP hs' (ih h)

/-- What is computed of the state that some labels lead to holds of a state they lead to. -/
lemma exists_runWhere {f : L → S → Option S} [∀ s l, Decidable (P s l)] {I : S → Prop}
    [DecidablePred I] (ls : List L) (h : (runAll f P ls s).any (fun t => decide (I t)) = true) :
    ∃ t, RunWhere (stepOf f) P s ls t ∧ I t := by
  rcases hrun : runAll f P ls s with _ | t
  · simp [hrun] at h
  · refine ⟨t, runWhere_of_runAll hrun, ?_⟩
    simpa [hrun] using h

end Bandchain
