import Bandchain.Lib.Exec

/-!
# Two executions side by side

Two programs, started in two related states, agree if both succeed with the same value and end
in related states, or both fail.  The rules follow the structure of programs.  The last one is
about loops: if the passes of a loop commute, a loop over a list agrees with the loop over the
list in any other order.
-/

namespace Bandchain
namespace Exec

variable {ε σ α β ι : Type} {R : σ → σ → Prop} {s t : σ}

/-- Started in `s` and in `t`, the programs succeed with the same value in related states, or
both fail. -/
def AgreeAt (R : σ → σ → Prop) (s t : σ) (x y : EStateM ε σ α) : Prop :=
  (∃ a s' t', x.run s = .ok a s' ∧ y.run t = .ok a t' ∧ R s' t') ∨
    ∃ e e' s' t', x.run s = .error e s' ∧ y.run t = .error e' t'

/-- Started in related states, the program agrees with itself. -/
def Agree (R : σ → σ → Prop) (x : EStateM ε σ α) : Prop := ∀ s t, R s t → AgreeAt R s t x x

lemma AgreeAt.of_ok {x y : EStateM ε σ α} {a : α} {s' t' : σ} (hx : x.run s = .ok a s')
    (hy : y.run t = .ok a t') (h : R s' t') : AgreeAt R s t x y := .inl ⟨a, s', t', hx, hy, h⟩

/-- Where one of two programs that agree succeeds, the other one does. -/
lemma AgreeAt.ok {x y : EStateM ε σ α} {a : α} {s' : σ} (h : AgreeAt R s t x y)
    (hx : x.run s = .ok a s') : ∃ t', y.run t = .ok a t' ∧ R s' t' := by
  rcases h with ⟨b, s'', t', hx', hy, hR⟩ | ⟨_, _, _, _, hx', _⟩
  · obtain ⟨rfl, rfl⟩ := EStateM.Result.ok.inj (hx.symm.trans hx')
    exact ⟨t', hy, hR⟩
  · rw [hx] at hx'
    cases hx'

lemma AgreeAt.bind {x y : EStateM ε σ α} {f g : α → EStateM ε σ β} (h : AgreeAt R s t x y)
    (hf : ∀ a s' t', R s' t' → AgreeAt R s' t' (f a) (g a)) :
    AgreeAt R s t (x >>= f) (y >>= g) := by
  rcases h with ⟨a, s', t', hx, hy, hR⟩ | ⟨e, e', s', t', hx, hy⟩
  · rw [AgreeAt, run_bind_of_ok hx, run_bind_of_ok hy]
    exact hf a s' t' hR
  · exact .inr ⟨e, e', s', t', bind_eq_error.mpr (.inl hx), bind_eq_error.mpr (.inl hy)⟩

lemma AgreeAt.trans [IsTrans σ R] {u : σ} {x y z : EStateM ε σ α} (h : AgreeAt R s t x y)
    (h' : AgreeAt R t u y z) : AgreeAt R s u x z := by
  rcases h with ⟨a, s', t', hx, hy, hR⟩ | ⟨e, e', s', t', hx, hy⟩
  · obtain ⟨u', hz, hR'⟩ := h'.ok hy
    exact .of_ok hx hz (trans_of R hR hR')
  · rcases h' with ⟨_, _, _, hy', _⟩ | ⟨_, e'', _, u', _, hz⟩
    · rw [hy] at hy'
      cases hy'
    · exact .inr ⟨e, e'', s', u', hx, hz⟩

lemma Agree.pure (a : α) : Agree R (pure a : EStateM ε σ α) :=
  fun _ _ h => .of_ok rfl rfl h

lemma Agree.modify {f : σ → σ} (hf : ∀ s t, R s t → R (f s) (f t)) :
    Agree R (modify f : EStateM ε σ Unit) :=
  fun s t h => .of_ok rfl rfl (hf s t h)

lemma Agree.valueOf (x : Except ε α) : Agree R (valueOf x : EStateM ε σ α) := by
  intro s t h
  cases x with
  | ok a => exact .of_ok rfl rfl h
  | error e => exact .inr ⟨e, e, s, t, rfl, rfl⟩

lemma Agree.bind {x : EStateM ε σ α} {f : α → EStateM ε σ β} (hx : Agree R x)
    (hf : ∀ a, Agree R (f a)) : Agree R (x >>= f) :=
  fun s t h => (hx s t h).bind fun a s' t' h' => hf a s' t' h'

/-- What the rest of a program reads from the state may depend on where it starts. -/
lemma Agree.get_bind {f : σ → EStateM ε σ β} (hf : ∀ s t, R s t → AgreeAt R s t (f s) (f t)) :
    Agree R (get >>= f) := hf

lemma Agree.ite {c : Prop} [Decidable c] {x y : EStateM ε σ α} (hx : Agree R x)
    (hy : Agree R y) : Agree R (if c then x else y) := by
  by_cases h : c
  · rwa [if_pos h]
  · rwa [if_neg h]

lemma Agree.forM {l : List ι} {f : ι → EStateM ε σ PUnit} (hf : ∀ i ∈ l, Agree R (f i)) :
    Agree R (forM l f) := by
  induction l with
  | nil => exact Agree.pure _
  | cons i l ih =>
    rw [List.forM_cons]
    exact (hf i (by simp)).bind fun _ => ih fun j hj => hf j (by simp [hj])

/-- **Loops in any order.**  If different passes of a loop commute, the order does not matter. -/
lemma AgreeAt.forM_perm [IsTrans σ R] [Std.Symm R] {l l' : List ι} {f : ι → EStateM ε σ PUnit}
    (hperm : l.Perm l') (hnodup : l.Nodup) (hf : ∀ i ∈ l, Agree R (f i))
    (hcomm : ∀ i ∈ l, ∀ j ∈ l, i ≠ j → ∀ s t, R s t →
      AgreeAt R s t (f i >>= fun _ => f j) (f j >>= fun _ => f i))
    (h : R s t) : AgreeAt R s t (forM l f) (forM l' f) := by
  induction hperm generalizing s t with
  | nil => exact Agree.pure _ s t h
  | cons i _ ih =>
    rw [List.forM_cons, List.forM_cons]
    refine (hf i (by simp) s t h).bind fun _ s' t' h' => ?_
    exact ih hnodup.of_cons (fun j hj => hf j (by simp [hj]))
      (fun j hj k hk => hcomm j (by simp [hj]) k (by simp [hk])) h'
  | swap i j l =>
    have hne : j ≠ i := fun heq => (List.nodup_cons.mp hnodup).1 (by simp [heq])
    have hswap := hcomm j (by simp) i (by simp) hne s t h
    simp only [List.forM_cons, ← bind_assoc]
    refine hswap.bind fun _ s' t' h' => ?_
    exact Agree.forM (fun k hk => hf k (by simp [hk])) s' t' h'
  | trans h₁ _ ih₁ ih₂ =>
    have hself : R s s := trans_of R h (Std.Symm.symm _ _ h)
    refine (ih₁ hnodup hf hcomm hself).trans (ih₂ (h₁.nodup_iff.mp hnodup) ?_ ?_ h)
    · exact fun i hi => hf i (h₁.mem_iff.mpr hi)
    · exact fun i hi j hj => hcomm i (h₁.mem_iff.mpr hi) j (h₁.mem_iff.mpr hj)

end Exec
end Bandchain
