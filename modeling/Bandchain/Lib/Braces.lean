import Mathlib

/-!
# Texts with braces

A scanner that counts open braces and treats separators outside of all braces apart reads a text
whose braces match, and whose separators are all inside of braces, as one piece.
-/

namespace Bandchain
namespace Braces

variable {α σ : Type} {left right : α} {sep : α → Prop} {s t : List α}

/-- Every brace has its partner. -/
inductive Balanced (left right : α) : List α → Prop
  | nil : Balanced left right []
  | cons {c : α} {s : List α} : c ≠ left → c ≠ right → Balanced left right s →
      Balanced left right (c :: s)
  | braces {s t : List α} : Balanced left right s → Balanced left right t →
      Balanced left right (left :: (s ++ right :: t))

/-- Every brace has its partner, and every separator is inside of braces. -/
inductive Shut (left right : α) (sep : α → Prop) : List α → Prop
  | nil : Shut left right sep []
  | cons {c : α} {s : List α} : c ≠ left → c ≠ right → ¬sep c → Shut left right sep s →
      Shut left right sep (c :: s)
  | braces {s t : List α} : Balanced left right s → Shut left right sep t →
      Shut left right sep (left :: (s ++ right :: t))

lemma Balanced.append (hs : Balanced left right s) (ht : Balanced left right t) :
    Balanced left right (s ++ t) := by
  induction hs with
  | nil => exact ht
  | cons hl hr _ ih => exact .cons hl hr ih
  | braces hs _ _ ih =>
    rw [List.cons_append, List.append_assoc, List.cons_append]
    exact .braces hs ih

lemma Shut.append (hs : Shut left right sep s) (ht : Shut left right sep t) :
    Shut left right sep (s ++ t) := by
  induction hs with
  | nil => exact ht
  | cons hl hr hsep _ ih => exact .cons hl hr hsep ih
  | braces hs _ ih =>
    rw [List.cons_append, List.append_assoc, List.cons_append]
    exact .braces hs ih

lemma Shut.balanced (hs : Shut left right sep s) : Balanced left right s := by
  induction hs with
  | nil => exact .nil
  | cons hl hr _ _ ih => exact .cons hl hr ih
  | braces hs _ ih => exact .braces hs ih

/-- A text without braces and separators. -/
lemma Shut.of_forall (h : ∀ c ∈ s, c ≠ left ∧ c ≠ right ∧ ¬sep c) : Shut left right sep s := by
  induction s with
  | nil => exact .nil
  | cons c s ih =>
    obtain ⟨⟨hl, hr, hsep⟩, hs⟩ := List.forall_mem_cons.mp h
    exact .cons hl hr hsep (ih hs)

/-- Some braces are open, and every separator is inside of braces. -/
def Nested (left right : α) (sep : α → Prop) : ℕ → List α → Prop
  | 0, s => Shut left right sep s
  | n + 1, s => ∃ t b, s = t ++ left :: b ∧ Nested left right sep n t ∧ Balanced left right b

section Nested

variable {n : ℕ} {c : α}

lemma Shut.outer (h : Shut left right sep s) (hl : c ≠ left) (hr : c ≠ right) (hsep : ¬sep c) :
    Shut left right sep (s ++ [c]) :=
  h.append (.cons hl hr hsep .nil)

lemma Nested.inner (h : Nested left right sep (n + 1) s) (hl : c ≠ left) (hr : c ≠ right) :
    Nested left right sep (n + 1) (s ++ [c]) := by
  obtain ⟨t, b, rfl, ht, hb⟩ := h
  exact ⟨t, b ++ [c], by simp, ht, hb.append (.cons hl hr .nil)⟩

lemma Nested.opens (h : Nested left right sep n s) :
    Nested left right sep (n + 1) (s ++ [left]) :=
  ⟨s, [], rfl, h, .nil⟩

lemma Nested.closes (h : Nested left right sep (n + 1) s) :
    Nested left right sep n (s ++ [right]) := by
  obtain ⟨t, b, rfl, ht, hb⟩ := h
  rw [List.append_assoc, List.cons_append]
  cases n with
  | zero => exact Shut.append ht (.braces hb .nil)
  | succ n =>
    obtain ⟨t', b', rfl, ht', hb'⟩ := ht
    refine ⟨t', b' ++ left :: (b ++ [right]), by simp, ht', ?_⟩
    exact hb'.append (.braces hb .nil)

end Nested

/-! ## Scanners -/

/-- The scanner appends what it reads to the text of the state: everything inside of braces, and
outside of all braces everything but separators.  The state knows the number of open braces. -/
structure Collects (left right : α) (sep : α → Prop) (f : σ → α → σ) (st : ℕ → List α → σ) :
    Prop where
  inner : ∀ {n w c}, c ≠ left → c ≠ right → f (st (n + 1) w) c = st (n + 1) (w ++ [c])
  outer : ∀ {w c}, c ≠ left → c ≠ right → ¬sep c → f (st 0 w) c = st 0 (w ++ [c])
  opens : ∀ {n w}, f (st n w) left = st (n + 1) (w ++ [left])
  closes : ∀ {n w}, f (st (n + 1) w) right = st n (w ++ [right])

variable {f : σ → α → σ} {st : ℕ → List α → σ}

/-- Inside of braces, a balanced text is collected. -/
lemma Collects.foldl_balanced (h : Collects left right sep f st) (hs : Balanced left right s)
    (n : ℕ) (w : List α) : s.foldl f (st (n + 1) w) = st (n + 1) (w ++ s) := by
  induction hs generalizing n w with
  | nil => rw [List.foldl_nil, List.append_nil]
  | cons hl hr _ ih => rw [List.foldl_cons, h.inner hl hr, ih, List.append_assoc]; rfl
  | braces _ _ ihs iht =>
    rw [List.foldl_cons, h.opens, List.foldl_append, ihs, List.foldl_cons, h.closes, iht]
    simp

/-- Outside of all braces, a text that is shut is collected. -/
lemma Collects.foldl_shut (h : Collects left right sep f st) (hs : Shut left right sep s)
    (w : List α) : s.foldl f (st 0 w) = st 0 (w ++ s) := by
  induction hs generalizing w with
  | nil => rw [List.foldl_nil, List.append_nil]
  | cons hl hr hsep _ ih => rw [List.foldl_cons, h.outer hl hr hsep, ih, List.append_assoc]; rfl
  | braces hs _ ih =>
    rw [List.foldl_cons, h.opens, List.foldl_append, h.foldl_balanced hs, List.foldl_cons,
      h.closes, ih]
    simp

end Braces
end Bandchain
