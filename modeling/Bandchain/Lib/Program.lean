import Bandchain.Lib.Exec

/-!
# Programs that make requests

A program either returns a value, or makes a request and goes on with the answer to it.  What the
answers are, and what the requests do, is up to the handler that the program is run with.  A process
may go on forever, and is run by its first requests.  The file gives the laws of running, the rule
by which two handlers are compared, and the one by which a handler makes every process stop.
-/

namespace Bandchain

/-- A program that returns an `α`; the answer to the request `r` is an `Ans r`. -/
inductive Program {Req : Type} (Ans : Req → Type) (α : Type)
  | pure (a : α)
  | call (r : Req) (next : Ans r → Program Ans α)

namespace Program

variable {Req : Type} {Ans : Req → Type} {α β σ τ ε : Type}

/-- Go on with the value that a program returns. -/
def bind : Program Ans α → (α → Program Ans β) → Program Ans β
  | pure a, f => f a
  | call r next, f => call r fun a => (next a).bind f

instance : Monad (Program Ans) where
  pure := pure
  bind := bind

/-- The program that makes one request. -/
def request (r : Req) : Program Ans (Ans r) := call r pure

/-- Run a program with a handler whose requests may fail. -/
def run (h : (r : Req) → EStateM ε σ (Ans r)) : Program Ans α → EStateM ε σ α
  | pure a => EStateM.pure a
  | call r next => EStateM.bind (h r) fun a => (next a).run h

section Run

variable {h : (r : Req) → EStateM ε σ (Ans r)} {s s' : σ}

lemma run_call_of_ok {r : Req} {next : Ans r → Program Ans α} {a : Ans r}
    (hr : h r s = .ok a s') : (call r next).run h s = (next a).run h s' := by
  rw [run, EStateM.bind, hr]

lemma run_call_of_error {r : Req} {next : Ans r → Program Ans α} {e : ε}
    (hr : h r s = .error e s') : (call r next).run h s = .error e s' := by
  rw [run, EStateM.bind, hr]

lemma run_bind (p : Program Ans α) (f : α → Program Ans β) :
    (p.bind f).run h = EStateM.bind (p.run h) fun a => (f a).run h := by
  induction p with
  | pure a => rfl
  | call r next ih =>
    funext s
    cases hr : h r s with
    | ok a s' =>
      have hrun : ((call r next).bind f).run h s = ((next a).bind f).run h s' :=
        run_call_of_ok hr
      rw [hrun, ih, EStateM.bind, EStateM.bind, run_call_of_ok hr]
    | error e s' =>
      have hrun : ((call r next).bind f).run h s = .error e s' := run_call_of_error hr
      rw [hrun, EStateM.bind, run_call_of_error hr]

/-- What every request keeps, every program keeps. -/
lemma invariant_run {I : σ → Prop} (hI : ∀ r s a s', h r s = .ok a s' → I s → I s')
    (p : Program Ans α) {a : α} (hp : p.run h s = .ok a s') (hs : I s) : I s' := by
  induction p generalizing s with
  | pure b =>
    obtain ⟨-, rfl⟩ := EStateM.Result.ok.inj hp
    exact hs
  | call r next ih =>
    cases hr : h r s with
    | ok b s₁ =>
      rw [run_call_of_ok hr] at hp
      exact ih b hp (hI r s b s₁ hr hs)
    | error e s₁ =>
      rw [run_call_of_error hr] at hp
      cases hp

end Run

/-! ## Two handlers -/

section Simulation

/-- Two outcomes are the same, up to a relation between the states. -/
inductive Matches (R : σ → τ → Prop) : EStateM.Result ε σ α → EStateM.Result ε τ α → Prop
  | ok (a : α) {s : σ} {t : τ} : R s t → Matches R (.ok a s) (.ok a t)
  | error (e : ε) {s : σ} {t : τ} : R s t → Matches R (.error e s) (.error e t)

variable {h : (r : Req) → EStateM ε σ (Ans r)} {h' : (r : Req) → EStateM ε τ (Ans r)}

lemma Matches.ok_of_eq {R : σ → τ → Prop} {a b : α} (hab : a = b) {s : σ} {t : τ} (hst : R s t) :
    Matches R (.ok a s : EStateM.Result ε σ α) (.ok b t) := by
  rw [hab]
  exact .ok b hst

lemma Matches.bind {R : σ → τ → Prop} {x : EStateM ε σ α} {y : EStateM ε τ α}
    {f : α → EStateM ε σ β} {g : α → EStateM ε τ β} {s : σ} {t : τ}
    (hxy : Matches R (x s) (y t)) (hfg : ∀ a s t, R s t → Matches R (f a s) (g a t)) :
    Matches R (EStateM.bind x f s) (EStateM.bind y g t) := by
  rw [EStateM.bind, EStateM.bind]
  revert hxy
  generalize x s = u, y t = v
  rintro (⟨a, hst⟩ | ⟨e, hst⟩)
  · exact hfg a _ _ hst
  · exact .error e hst

/-- **Simulation rule.**  If two handlers treat every request alike, they run every program
alike. -/
theorem Matches.run {R : σ → τ → Prop} (hsim : ∀ r s t, R s t → Matches R (h r s) (h' r t))
    (p : Program Ans α) {s : σ} {t : τ} (hst : R s t) : Matches R (p.run h s) (p.run h' t) := by
  induction p generalizing s t with
  | pure a => exact .ok a hst
  | call r next ih => exact (hsim r s t hst).bind fun a _ _ hst' => ih a hst'

end Simulation

end Program

/-! ## Processes -/

/-- What a process does next. -/
inductive Turn {Req : Type} (Ans : Req → Type) (State α : Type)
  | stop (a : α)
  | ask (r : Req) (resume : Ans r → State)

namespace Turn

variable {Req : Type} {Ans : Req → Type} {State α σ ε : Type} {next : State → Turn Ans State α}
  {h : (r : Req) → EStateM ε σ (Ans r)} {s : State}

/-- The first `n` turns of a process, which returns nothing if it then goes on. -/
def unroll (next : State → Turn Ans State α) : ℕ → State → Program Ans (Option α)
  | 0, _ => .pure none
  | n + 1, s =>
    match next s with
    | stop a => .pure (some a)
    | ask r resume => .call r fun a => unroll next n (resume a)

lemma unroll_of_stop {a : α} (hnext : next s = stop a) (n : ℕ) :
    unroll next (n + 1) s = .pure (some a) := by rw [unroll, hnext]

lemma unroll_of_ask {r : Req} {resume : Ans r → State} (hnext : next s = ask r resume) (n : ℕ) :
    unroll next (n + 1) s = .call r fun a => unroll next n (resume a) := by rw [unroll, hnext]

/-- What a process returns does not depend on how far it is unrolled. -/
lemma run_unroll_mono {n m : ℕ} (hnm : n ≤ m) (s : State) (t : σ)
    (hends : ∀ t', (unroll next n s).run h t ≠ .ok none t') :
    (unroll next m s).run h t = (unroll next n s).run h t := by
  induction n generalizing m s t with
  | zero => exact absurd rfl (hends t)
  | succ n ih =>
    obtain ⟨m, rfl⟩ := Nat.exists_eq_add_of_lt hnm
    cases hnext : next s with
    | stop a => rw [unroll_of_stop hnext, unroll_of_stop hnext]
    | ask r resume =>
      rw [unroll_of_ask hnext] at hends ⊢
      rw [unroll_of_ask hnext]
      cases hr : h r t with
      | ok a t' =>
        rw [Program.run_call_of_ok hr] at hends ⊢
        rw [Program.run_call_of_ok hr]
        exact ih (by omega) _ _ hends
      | error e t' => rw [Program.run_call_of_error hr, Program.run_call_of_error hr]

/-- **Running out of gas.**  A handler stops a process if each request that it charges for uses up
gas, and if between those the process makes only a bounded number of requests. -/
lemma run_unroll_ne_none (gas : σ → ℕ) {Charged : Req → Prop} {rank : State → ℕ} {bound : ℕ}
    (hgas : ∀ r t a t', h r t = .ok a t' → gas t' ≤ gas t)
    (hcharged : ∀ r t a t', Charged r → h r t = .ok a t' → gas t' < gas t)
    (hrank : ∀ s r resume, next s = ask r resume → ¬Charged r → ∀ a, rank (resume a) < rank s)
    (hbound : ∀ s, rank s < bound) {n : ℕ} (s : State) (t : σ) (hn : gas t * bound + rank s < n)
    (t' : σ) : (unroll next n s).run h t ≠ .ok none t' := by
  induction n generalizing s t with
  | zero => exact absurd hn (Nat.not_lt_zero _)
  | succ n ih =>
    cases hnext : next s with
    | stop a =>
      rw [unroll_of_stop hnext]
      rintro ⟨⟩
    | ask r resume =>
      rw [unroll_of_ask hnext]
      cases hr : h r t with
      | error e t₁ =>
        rw [Program.run_call_of_error hr]
        rintro ⟨⟩
      | ok a t₁ =>
        rw [Program.run_call_of_ok hr]
        refine ih (resume a) t₁ ?_
        by_cases hfree : Charged r
        · have hmul := Nat.mul_le_mul_right bound (hcharged r t a t₁ hfree hr)
          have := hbound (resume a)
          rw [Nat.succ_mul] at hmul
          omega
        · have hmul := Nat.mul_le_mul_right bound (hgas r t a t₁ hr)
          have := hrank s r resume hnext hfree a
          omega

end Turn
end Bandchain
