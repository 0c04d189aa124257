import Bandchain.Lib.Bytes
import Bandchain.Lib.Exec

/-!
# Encoders and decoders

A decoder reads a value from the front of a string and returns it with the rest of the string,
or fails.  It *reads* an encoding if it succeeds exactly on the strings that start with the
encoding of a value, and returns that value and what follows.  This one equivalence holds two
laws: a value that was encoded is read back, and what is read was encoded in no other way.

The values may be restricted by a condition, and the strings by a bound on their length.
-/

namespace Bandchain
namespace Codec

variable {ε α β : Type}

/-- The decoder returns the values that satisfy `P`, from exactly their encodings, on all strings
shorter than `N`. -/
def Reads (N : ℕ) (P : α → Prop) (enc : α → Bytes) (dec : Bytes → Except ε (α × Bytes)) : Prop :=
  ∀ b : Bytes, b.length < N → ∀ (a : α) (rest : Bytes),
    dec b = .ok (a, rest) ↔ P a ∧ b = enc a ++ rest

variable {N : ℕ} {P : α → Prop} {enc : α → Bytes} {dec : Bytes → Except ε (α × Bytes)} {b : Bytes}

/-- A decoder at the start of a longer computation. -/
lemma Reads.bind_eq_ok (h : Reads N P enc dec) (hb : b.length < N)
    {f : α × Bytes → Except ε β} {x : β} :
    (dec b >>= f) = .ok x ↔ ∃ a rest, P a ∧ b = enc a ++ rest ∧ f (a, rest) = .ok x := by
  constructor
  · intro hx
    rcases hdec : dec b with e | ⟨a, rest⟩
    · rw [hdec] at hx
      cases hx
    · rw [hdec] at hx
      obtain ⟨hP, hsplit⟩ := (h b hb a rest).mp hdec
      exact ⟨a, rest, hP, hsplit, hx⟩
  · rintro ⟨a, rest, hP, hsplit, hx⟩
    rw [(h b hb a rest).mpr ⟨hP, hsplit⟩]
    exact hx

/-- The rest of a string that is read is not longer. -/
lemma length_rest_lt {a rest : Bytes} (hb : b.length < N) (h : b = a ++ rest) :
    rest.length < N := by
  rw [h, List.length_append] at hb
  omega

/-- A decoder whose values are wrapped. -/
lemma Reads.map (h : Reads N P enc dec) {Q : β → Prop} {enc' : β → Bytes} (f : α → β)
    (hf : ∀ c, Q c ↔ ∃ a, P a ∧ f a = c) (henc : ∀ a, P a → enc' (f a) = enc a) :
    Reads N Q enc' (fun b => do
      let (a, rest) ← dec b
      return (f a, rest)) := by
  intro b hb c rest
  rw [h.bind_eq_ok hb, hf]
  constructor
  · rintro ⟨a, rest', hP, hsplit, hout⟩
    obtain ⟨rfl, rfl⟩ := Prod.mk.inj (Except.ok.inj hout)
    exact ⟨⟨a, hP, rfl⟩, by rw [henc a hP]; exact hsplit⟩
  · rintro ⟨⟨a, hP, rfl⟩, hsplit⟩
    rw [henc a hP] at hsplit
    exact ⟨a, rest, hP, hsplit, rfl⟩

/-! ## Fixed width -/

/-- Read a value from the first `w` bytes. -/
def readFixed (w : ℕ) (conv : Bytes → α) (e : ε) (b : Bytes) : Except ε (α × Bytes) :=
  if b.length < w then .error e else .ok (conv (b.take w), b.drop w)

/-- Reading a fixed number of bytes reads encodings of that width. -/
lemma reads_readFixed {w : ℕ} {conv : Bytes → α} (e : ε) (hwidth : ∀ a, (enc a).length = w)
    (hconv : ∀ a, conv (enc a) = a) (henc : ∀ b : Bytes, b.length = w → enc (conv b) = b) :
    Reads N (fun _ => True) enc (readFixed w conv e) := by
  intro b _ a rest
  rw [readFixed]
  constructor
  · intro h
    split_ifs at h with hlt
    obtain ⟨rfl, rfl⟩ := Prod.mk.inj (Except.ok.inj h)
    rw [henc _ (by rw [List.length_take]; omega), List.take_append_drop]
    exact ⟨trivial, rfl⟩
  · rintro ⟨_, rfl⟩
    rw [if_neg (by rw [List.length_append, hwidth]; omega), ← hwidth a, List.take_left,
      List.drop_left, hconv]

/-! ## Sequences -/

/-- Read `n` values, one after the other. -/
def readMany (dec : Bytes → Except ε (α × Bytes)) : ℕ → Bytes → Except ε (List α × Bytes)
  | 0, b => .ok ([], b)
  | n + 1, b => do
    let (a, b) ← dec b
    let (as, b) ← readMany dec n b
    return (a :: as, b)

/-- Reading one value more. -/
lemma readMany_succ_eq_ok {dec : Bytes → Except ε (α × Bytes)} {n : ℕ} {b rest : Bytes}
    {as : List α} :
    readMany dec (n + 1) b = .ok (as, rest) ↔ ∃ a mid as', dec b = .ok (a, mid) ∧
      readMany dec n mid = .ok (as', rest) ∧ a :: as' = as := by
  rw [readMany, Exec.except_bind_eq_ok]
  constructor
  · rintro ⟨⟨a, mid⟩, ha, h⟩
    obtain ⟨⟨as', rest'⟩, has, h⟩ := Exec.except_bind_eq_ok.mp h
    obtain ⟨rfl, rfl⟩ := Prod.mk.inj (Except.ok.inj h)
    exact ⟨a, mid, as', ha, has, rfl⟩
  · rintro ⟨a, mid, as', ha, has, rfl⟩
    refine ⟨(a, mid), ha, ?_⟩
    show (readMany dec n mid).bind _ = _
    rw [has]
    rfl

/-- If no value takes more bytes than its encoding has, then no sequence does. -/
lemma length_le_of_readMany (enc : α → Bytes) {dec : Bytes → Except ε (α × Bytes)}
    (h : ∀ {b a rest}, P a → dec b = .ok (a, rest) → b.length ≤ rest.length + (enc a).length)
    {n : ℕ} {b rest : Bytes} {as : List α} (hall : ∀ a ∈ as, P a)
    (hread : readMany dec n b = .ok (as, rest)) :
    b.length ≤ rest.length + (as.flatMap enc).length := by
  induction n generalizing b as with
  | zero =>
    obtain ⟨rfl, rfl⟩ := Prod.mk.inj (Except.ok.inj hread)
    exact Nat.le_add_right _ _
  | succ n ih =>
    obtain ⟨a, mid, as', ha, has, rfl⟩ := readMany_succ_eq_ok.mp hread
    obtain ⟨hP, hall⟩ := List.forall_mem_cons.mp hall
    have hhead := h hP ha
    have htail := ih hall has
    rw [List.flatMap_cons, List.length_append]
    omega

/-- Reading `n` values reads the concatenation of their encodings. -/
lemma Reads.readMany (h : Reads N P enc dec) (n : ℕ) :
    Reads N (fun as => as.length = n ∧ ∀ a ∈ as, P a) (fun as => as.flatMap enc)
      (readMany dec n) := by
  induction n with
  | zero =>
    intro b _ as rest
    rw [Codec.readMany, Except.ok.injEq, Prod.mk.injEq]
    constructor
    · rintro ⟨rfl, rfl⟩
      simp
    · rintro ⟨⟨hlen, _⟩, rfl⟩
      obtain rfl := List.length_eq_zero_iff.mp hlen
      exact ⟨rfl, rfl⟩
  | succ n ih =>
    intro b hb as rest
    rw [Codec.readMany, h.bind_eq_ok hb]
    constructor
    · rintro ⟨a, b', hP, rfl, hrest⟩
      obtain ⟨as', b'', ⟨hlen, hall⟩, rfl, hout⟩ :=
        (ih.bind_eq_ok (length_rest_lt hb rfl)).mp hrest
      obtain ⟨rfl, rfl⟩ := Prod.mk.inj (Except.ok.inj hout)
      refine ⟨⟨by rw [List.length_cons, hlen], ?_⟩, by simp⟩
      exact List.forall_mem_cons.mpr ⟨hP, hall⟩
    · rintro ⟨⟨hlen, hall⟩, rfl⟩
      cases as with
      | nil => cases hlen
      | cons a as =>
        obtain ⟨hP, hall⟩ := List.forall_mem_cons.mp hall
        have hb' : (as.flatMap enc ++ rest).length < N :=
          length_rest_lt (a := enc a) hb (by simp)
        refine ⟨a, as.flatMap enc ++ rest, hP, by simp, ?_⟩
        rw [ih.bind_eq_ok hb']
        exact ⟨as, rest, ⟨Nat.succ.inj hlen, hall⟩, rfl, rfl⟩

/-! ## Decoders with a state -/

/-- A decoder that moves a string forward, as a function; a failure forgets where it stopped. -/
def ofState (d : EStateM ε Bytes α) (b : Bytes) : Except ε (α × Bytes) :=
  match d.run b with
  | .ok a rest => .ok (a, rest)
  | .error e _ => .error e

@[simp] lemma ofState_pure (a : α) : ofState (pure a : EStateM ε Bytes α) b = .ok (a, b) := rfl

@[simp] lemma ofState_throw (e : ε) : ofState (throw e : EStateM ε Bytes α) b = .error e := rfl

lemma ofState_bind {d : EStateM ε Bytes α} {f : α → EStateM ε Bytes β} :
    ofState (d >>= f) b = ofState d b >>= fun p => ofState (f p.1) p.2 := by
  rw [ofState, ofState]
  show (match EStateM.bind d f b with | .ok a rest => _ | .error e _ => _) = _
  rw [EStateM.bind, EStateM.run]
  rcases d b with ⟨a, rest⟩ | ⟨e, rest⟩ <;> rfl

end Codec
end Bandchain
