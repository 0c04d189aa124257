import Mathlib

/-!
# Balances

Every account holds an amount.  Amounts are added up, and the smaller can be taken from the
larger: a number, or one number for each currency.  A transfer takes an amount from one account
and gives it to another.
-/

namespace Bandchain

variable {A M : Type*} [DecidableEq A] [AddCommMonoid M] [Sub M]

/-- The balances after `x` moved from the account `a` to the account `b`. -/
def transfer (f : A → M) (a b : A) (x : M) (c : A) : M :=
  (if c = a then f c - x else f c) + if c = b then x else 0

variable {f : A → M} {a b c : A} {x : M}

lemma transfer_of_ne (ha : c ≠ a) (hb : c ≠ b) : transfer f a b x c = f c := by
  rw [transfer, if_neg ha, if_neg hb, add_zero]

lemma transfer_receiver (hab : a ≠ b) : transfer f a b x b = f b + x := by
  rw [transfer, if_neg hab.symm, if_pos rfl]

lemma transfer_sender_add [PartialOrder M] [CanonicallyOrderedAdd M] [OrderedSub M]
    (hx : x ≤ f a) (hab : a ≠ b) : transfer f a b x a + x = f a := by
  rw [transfer, if_pos rfl, if_neg hab, add_zero, tsub_add_cancel_of_le hx]

end Bandchain
