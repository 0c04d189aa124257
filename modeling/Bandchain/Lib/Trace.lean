import Mathlib

/-!
# Properties of a history

A history is a list of entries, the oldest first.  `Along Φ` says that every entry of a
history is explained by the entries before it: `Φ pre c` holds for each entry `c` with the
part `pre` of the history that precedes it.  Such a property survives every extension whose
new entries are explained in turn.  `before p` is the part of a history before the first entry
of some kind.
-/

namespace Bandchain

variable {C : Type} (Φ : List C → C → Prop)

/-- Every entry of the second list is explained by the first list and the entries before it. -/
def AlongFrom : List C → List C → Prop
  | _, [] => True
  | pre, c :: cs => Φ pre c ∧ AlongFrom (pre ++ [c]) cs

/-- Every entry of a history is explained by what comes before it. -/
def Along (t : List C) : Prop := AlongFrom Φ [] t

variable {Φ} {pre t cs : List C}

@[simp] lemma alongFrom_nil : AlongFrom Φ pre [] := trivial

@[simp] lemma alongFrom_cons {c : C} :
    AlongFrom Φ pre (c :: cs) ↔ Φ pre c ∧ AlongFrom Φ (pre ++ [c]) cs := Iff.rfl

lemma alongFrom_append :
    AlongFrom Φ pre (t ++ cs) ↔ AlongFrom Φ pre t ∧ AlongFrom Φ (pre ++ t) cs := by
  induction t generalizing pre with
  | nil => simp
  | cons c t ih =>
    rw [List.cons_append, alongFrom_cons, alongFrom_cons, ih, and_assoc, List.append_assoc,
      List.singleton_append]

@[simp] lemma along_nil : Along Φ [] := trivial

/-- The extension rule. -/
lemma along_append : Along Φ (t ++ cs) ↔ Along Φ t ∧ AlongFrom Φ t cs := by
  rw [Along, alongFrom_append, List.nil_append]
  exact Iff.rfl

/-- An entry whose explanation does not look at the history is explained anywhere. -/
lemma alongFrom_of_forall (h : ∀ c ∈ cs, ∀ pre, Φ pre c) : AlongFrom Φ pre cs := by
  induction cs generalizing pre with
  | nil => trivial
  | cons c cs ih =>
    exact ⟨h c (by simp) pre, ih fun d hd => h d (by simp [hd])⟩

/-- An explained history can be cut at any entry. -/
lemma Along.at_split (h : Along Φ t) {post : List C} {c : C} (ht : t = pre ++ c :: post) :
    Φ pre c := by
  subst ht
  exact ((along_append.mp h).2).1

/-! ## Before the first entry of a kind -/

/-- The part of a history before the first entry that satisfies `p`. -/
def before (p : C → Bool) (t : List C) : List C := t.takeWhile fun c => !p c

section Before

variable {p : C → Bool} {u : List C} {c : C}

lemma before_append_of_forall (h : ∀ c ∈ t, p c = false) : before p (t ++ u) = t ++ before p u :=
  List.takeWhile_append_of_pos fun c hc => by simp [h c hc]

/-- Once there is such an entry, the part before it stays the same. -/
lemma before_append_of_exists (h : ∃ c ∈ t, p c = true) : before p (t ++ u) = before p t := by
  induction t with
  | nil => simp at h
  | cons d t ih =>
    by_cases hd : p d = true
    · simp [before, hd]
    · have ht : ∃ c ∈ t, p c = true := by
        obtain ⟨c, hc, hpc⟩ := h
        rcases List.mem_cons.mp hc with rfl | hc
        · exact absurd hpc hd
        · exact ⟨c, hc, hpc⟩
      have hcons : ∀ l, before p (d :: l) = d :: before p l := by
        intro l
        simp [before, hd]
      rw [List.cons_append, hcons, hcons, ih ht]

lemma before_eq_of_split (hpre : ∀ d ∈ pre, p d = false) (hc : p c = true) :
    before p (pre ++ c :: t) = pre := by
  rw [before_append_of_forall hpre]
  simp [before, hc]

lemma before_subset : before p t ⊆ t := (List.takeWhile_prefix _).subset

lemma before_of_forall (h : ∀ c ∈ t, p c = false) : before p t = t := by
  have := before_append_of_forall (u := []) h
  simpa [before] using this

/-- An extension adds to the part before the first such entry only what it holds itself. -/
lemma before_append : ∃ v, v ⊆ u ∧ before p (t ++ u) = before p t ++ v := by
  by_cases h : ∃ c ∈ t, p c = true
  · exact ⟨[], by simp, by rw [before_append_of_exists h, List.append_nil]⟩
  · have hall : ∀ c ∈ t, p c = false := by
      intro c hc
      by_contra hpc
      exact h ⟨c, hc, by simpa using hpc⟩
    exact ⟨before p u, before_subset, by rw [before_append_of_forall hall, before_of_forall hall]⟩

lemma mem_before_append_of_notMem (hc : c ∉ u) : c ∈ before p (t ++ u) ↔ c ∈ before p t := by
  obtain ⟨v, hv, heq⟩ := before_append (p := p) (t := t) (u := u)
  rw [heq, List.mem_append]
  exact or_iff_left fun hcv => hc (hv hcv)

lemma countP_before_append_of_forall {q : C → Bool} (hq : ∀ c ∈ u, q c = false) :
    (before p (t ++ u)).countP q = (before p t).countP q := by
  obtain ⟨v, hv, heq⟩ := before_append (p := p) (t := t) (u := u)
  rw [heq, List.countP_append, Nat.add_eq_left, List.countP_eq_zero]
  intro c hc
  rw [hq c (hv hc)]
  exact Bool.false_ne_true

end Before

end Bandchain
