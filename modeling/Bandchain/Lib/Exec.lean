import Mathlib

/-!
# Executions that can fail

Code that reads and writes a state and may fail is a function in the state-and-exception
monad `EStateM`: a failure keeps the state reached so far, and it is the caller who decides
whether to roll it back.  The lemmas below take a finished execution apart, one statement
at a time, without unfolding the monad.
-/

namespace Bandchain
namespace Exec

variable {ε σ α β : Type}

/-- Stop with the error `e` if the condition holds. -/
def failIf (c : Prop) [Decidable c] (e : ε) : EStateM ε σ Unit := if c then throw e else pure ()

/-- The value of a pure computation, or its error. -/
def valueOf : Except ε α → EStateM ε σ α
  | .ok a => pure a
  | .error e => throw e

/-- A pure computation that succeeds, taken apart. -/
lemma except_bind_eq_ok {x : Except ε α} {f : α → Except ε β} {b : β} :
    (x >>= f) = .ok b ↔ ∃ a, x = .ok a ∧ f a = .ok b := by
  cases x <;> simp [bind, Except.bind]

lemma except_bind_eq_error {x : Except ε α} {f : α → Except ε β} {e : ε} :
    (x >>= f) = .error e ↔ x = .error e ∨ ∃ a, x = .ok a ∧ f a = .error e := by
  cases x <;> simp [bind, Except.bind]

lemma toOption_eq_some {x : Except ε α} {a : α} : x.toOption = some a ↔ x = .ok a := by
  cases x <;> simp [Except.toOption]

variable {s t : σ} {e : ε}

/-- **Loop rule.**  What every round that succeeds preserves holds after a loop that succeeds. -/
lemma foldlM_invariant {I : σ → Prop} {f : σ → α → Except ε σ} {l : List α}
    (h : l.foldlM f s = .ok t) (hf : ∀ {s a t}, a ∈ l → f s a = .ok t → I s → I t) (hs : I s) :
    I t := by
  induction l generalizing s with
  | nil =>
    rw [← Except.ok.inj h]
    exact hs
  | cons a l ih =>
    rw [List.foldlM_cons, except_bind_eq_ok] at h
    obtain ⟨u, hu, h⟩ := h
    exact ih h (fun ha => hf (List.mem_cons_of_mem _ ha)) (hf List.mem_cons_self hu hs)

/-- A loop succeeds if every round does, from all states that the rounds lead to. -/
lemma exists_foldlM_eq_ok {I : σ → Prop} {f : σ → α → Except ε σ} {l : List α}
    (hf : ∀ {s a}, a ∈ l → I s → ∃ t, f s a = .ok t ∧ I t) (hs : I s) :
    ∃ t, l.foldlM f s = .ok t ∧ I t := by
  induction l generalizing s with
  | nil => exact ⟨s, rfl, hs⟩
  | cons a l ih =>
    obtain ⟨u, hu, hI⟩ := hf List.mem_cons_self hs
    obtain ⟨t, ht, hI⟩ := ih (fun ha => hf (List.mem_cons_of_mem _ ha)) hI
    refine ⟨t, ?_, hI⟩
    rw [List.foldlM_cons, except_bind_eq_ok]
    exact ⟨u, hu, ht⟩

lemma bind_eq_ok {x : EStateM ε σ α} {f : α → EStateM ε σ β} {b : β} :
    (x >>= f).run s = .ok b t ↔ ∃ a s', x.run s = .ok a s' ∧ (f a).run s' = .ok b t := by
  show EStateM.bind x f s = _ ↔ ∃ a s', x s = _ ∧ f a s' = _
  rw [EStateM.bind]
  rcases hx : x s with ⟨a, s'⟩ | ⟨e, s'⟩ <;> simp

lemma bind_eq_error {x : EStateM ε σ α} {f : α → EStateM ε σ β} :
    (x >>= f).run s = .error e t ↔
      x.run s = .error e t ∨ ∃ a s', x.run s = .ok a s' ∧ (f a).run s' = .error e t := by
  show EStateM.bind x f s = _ ↔ x s = _ ∨ ∃ a s', x s = _ ∧ f a s' = _
  rw [EStateM.bind]
  rcases hx : x s with ⟨a, s'⟩ | ⟨e', s'⟩ <;> simp

lemma run_bind_of_ok {x : EStateM ε σ α} {f : α → EStateM ε σ β} {a : α}
    (h : x.run s = .ok a t) : (x >>= f).run s = (f a).run t := by
  show EStateM.bind x f s = f a t
  change x s = _ at h
  rw [EStateM.bind, h]

@[simp] lemma run_pure (a : α) : (pure a : EStateM ε σ α).run s = .ok a s := rfl

@[simp] lemma run_throw : (throw e : EStateM ε σ α).run s = .error e s := rfl

@[simp] lemma run_get : (get : EStateM ε σ σ).run s = .ok s s := rfl

@[simp] lemma run_modify (f : σ → σ) : (modify f : EStateM ε σ Unit).run s = .ok () (f s) := rfl

@[simp] lemma failIf_eq_ok {c : Prop} [Decidable c] {u : Unit} :
    (failIf c e : EStateM ε σ Unit).run s = .ok u t ↔ ¬c ∧ t = s := by
  by_cases h : c <;> simp [failIf, h, eq_comm]

lemma run_failIf_of_not {c : Prop} [Decidable c] (h : ¬c) :
    (failIf c e : EStateM ε σ Unit).run s = .ok () s := by
  simp [h]

@[simp] lemma failIf_eq_error {c : Prop} [Decidable c] {e' : ε} :
    (failIf c e : EStateM ε σ Unit).run s = .error e' t ↔ c ∧ e' = e ∧ t = s := by
  by_cases h : c <;> simp [failIf, h, eq_comm]

@[simp] lemma valueOf_eq_ok {x : Except ε α} {a : α} :
    (valueOf x : EStateM ε σ α).run s = .ok a t ↔ x = .ok a ∧ t = s := by
  cases x <;> simp [valueOf, eq_comm]

@[simp] lemma valueOf_eq_error {x : Except ε α} :
    (valueOf x : EStateM ε σ α).run s = .error e t ↔ x = .error e ∧ t = s := by
  cases x <;> simp [valueOf, eq_comm]

/-! The first statement of a program, when it cannot change the state or cannot fail. -/

lemma run_get_bind {f : σ → EStateM ε σ β} : (get >>= f).run s = (f s).run s := (rfl)

lemma run_modify_bind {g : σ → σ} {f : Unit → EStateM ε σ β} :
    ((modify g : EStateM ε σ Unit) >>= f).run s = (f ()).run (g s) := (rfl)

lemma failIf_bind_eq_ok {c : Prop} [Decidable c] {f : Unit → EStateM ε σ β} {b : β} :
    (failIf c e >>= f).run s = .ok b t ↔ ¬c ∧ (f ()).run s = .ok b t := by
  rw [bind_eq_ok]
  simp only [failIf_eq_ok]
  constructor
  · rintro ⟨_, _, ⟨hc, rfl⟩, hf⟩
    exact ⟨hc, hf⟩
  · rintro ⟨hc, hf⟩
    exact ⟨(), s, ⟨hc, rfl⟩, hf⟩

lemma valueOf_bind_eq_ok {x : Except ε α} {f : α → EStateM ε σ β} {b : β} :
    (valueOf x >>= f).run s = .ok b t ↔ ∃ a, x = .ok a ∧ (f a).run s = .ok b t := by
  rw [bind_eq_ok]
  simp only [valueOf_eq_ok]
  constructor
  · rintro ⟨a, _, ⟨hx, rfl⟩, hf⟩
    exact ⟨a, hx, hf⟩
  · rintro ⟨a, hx, hf⟩
    exact ⟨a, s, ⟨hx, rfl⟩, hf⟩

/-- A loop whose body only checks succeeds exactly when every check does. -/
lemma forM_failIf_eq_ok {l : List α} {c : α → Prop} [DecidablePred c] {f : α → ε} {u : Unit} :
    (forM l fun a => (failIf (c a) (f a) : EStateM ε σ Unit)).run s = .ok u t ↔
      (∀ a ∈ l, ¬c a) ∧ t = s := by
  induction l generalizing s with
  | nil => simp [eq_comm]
  | cons a l ih =>
    simp only [List.forM_cons, bind_eq_ok, failIf_eq_ok, ih, List.forall_mem_cons]
    constructor
    · rintro ⟨_, s', ⟨ha, rfl⟩, hl, rfl⟩
      exact ⟨⟨ha, hl⟩, rfl⟩
    · rintro ⟨⟨ha, hl⟩, rfl⟩
      exact ⟨(), t, ⟨ha, rfl⟩, hl, rfl⟩

/-- A loop whose body only checks leaves the state alone when it fails, too. -/
lemma forM_failIf_eq_error {l : List α} {c : α → Prop} [DecidablePred c] {f : α → ε}
    (h : (forM l fun a => (failIf (c a) (f a) : EStateM ε σ Unit)).run s = .error e t) :
    t = s := by
  induction l generalizing s with
  | nil => simp at h
  | cons a l ih =>
    rw [List.forM_cons, bind_eq_error] at h
    rcases h with h | ⟨_, s', h, hl⟩
    · exact (failIf_eq_error.mp h).2.2
    · rw [failIf_eq_ok] at h
      rw [ih hl, h.2]

/-! ## Programs that cannot fail -/

/-- The program succeeds in every state. -/
def Total (x : EStateM ε σ α) : Prop := ∀ s, ∃ a t, x.run s = .ok a t

lemma Total.bind {x : EStateM ε σ α} {f : α → EStateM ε σ β} (hx : Total x)
    (hf : ∀ a, Total (f a)) : Total (x >>= f) := by
  intro s
  obtain ⟨a, t, hxs⟩ := hx s
  obtain ⟨b, u, hfa⟩ := hf a t
  exact ⟨b, u, (run_bind_of_ok hxs).trans hfa⟩

lemma Total.forM {l : List α} {f : α → EStateM ε σ PUnit} (hf : ∀ a, Total (f a)) :
    Total (forM l f) := by
  induction l with
  | nil => exact fun s => ⟨⟨⟩, s, rfl⟩
  | cons a l ih =>
    rw [List.forM_cons]
    exact (hf a).bind fun _ => ih

/-! ## What every exit keeps -/

/-- The state in which an execution ends, whether it succeeds or fails. -/
def finalState : EStateM.Result ε σ α → σ
  | .ok _ s => s
  | .error _ s => s

/-- Started in `s`, the program ends in a state related to `s`, whether it succeeds or fails. -/
def ExitsAt (R : σ → σ → Prop) (s : σ) (x : EStateM ε σ α) : Prop := R s (finalState (x.run s))

/-- Every exit of the program is in a state related to the one in which it started. -/
def Exits (R : σ → σ → Prop) (x : EStateM ε σ α) : Prop := ∀ s, ExitsAt R s x

section Exits

variable {R : σ → σ → Prop}

lemma Exits.modify {f : σ → σ} (h : ∀ s, R s (f s)) : Exits R (modify f : EStateM ε σ Unit) := h

lemma Exits.ite {c : Prop} [Decidable c] {x y : EStateM ε σ α} (hx : Exits R x)
    (hy : Exits R y) : Exits R (if c then x else y) := by
  by_cases h : c
  · rwa [if_pos h]
  · rwa [if_neg h]

variable [IsPreorder σ R]

lemma Exits.pure (a : α) : Exits R (pure a : EStateM ε σ α) := fun s => refl_of R s

lemma Exits.throw (e : ε) : Exits R (throw e : EStateM ε σ α) := fun s => refl_of R s

lemma Exits.failIf {c : Prop} [Decidable c] (e : ε) :
    Exits R (failIf c e : EStateM ε σ Unit) := by
  intro s
  by_cases h : c <;> simpa [ExitsAt, Exec.failIf, h, finalState] using refl_of R s

lemma Exits.valueOf (x : Except ε α) : Exits R (valueOf x : EStateM ε σ α) := by
  intro s
  cases x <;> exact refl_of R s

/-- It is enough to look at the rest of the program where its first part succeeds. -/
lemma ExitsAt.bind {s : σ} {x : EStateM ε σ α} {f : α → EStateM ε σ β} (hx : ExitsAt R s x)
    (hf : ∀ a t, x.run s = .ok a t → ExitsAt R t (f a)) : ExitsAt R s (x >>= f) := by
  unfold ExitsAt at hx ⊢
  rcases hxs : x.run s with ⟨a, t⟩ | ⟨e, t⟩
  · rw [run_bind_of_ok hxs]
    rw [hxs] at hx
    exact trans_of R hx (hf a t hxs)
  · rw [bind_eq_error.mpr (.inl hxs)]
    rw [hxs] at hx
    exact hx

lemma Exits.bind {x : EStateM ε σ α} {f : α → EStateM ε σ β} (hx : Exits R x)
    (hf : ∀ a, Exits R (f a)) : Exits R (x >>= f) :=
  fun s => (hx s).bind fun a t _ => hf a t

lemma Exits.get_bind {f : σ → EStateM ε σ β} (hf : ∀ s, Exits R (f s)) :
    Exits R (get >>= f) :=
  Exits.bind (fun s => refl_of R s) hf

lemma Exits.forM {l : List α} {f : α → EStateM ε σ PUnit} (hf : ∀ a ∈ l, Exits R (f a)) :
    Exits R (forM l f) := by
  induction l with
  | nil => exact Exits.pure _
  | cons a l ih =>
    rw [List.forM_cons]
    exact (hf a (by simp)).bind fun _ => ih fun b hb => hf b (by simp [hb])

end Exits

end Exec
end Bandchain
