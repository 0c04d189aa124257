import Bandchain.Obi.JavaScriptCodec

/-!
# Whole buffers in JavaScript

The class `Obi` of `obi.js` reads a schema of two halves, for the input and for the output.  Its two
decoders are to read a whole buffer, and test what remains with a condition on a `Buffer`; an object
is true whatever it holds.
-/

set_option linter.dupNamespace false

namespace Bandchain.Obi.JavaScript

/-- The class `\s` of regular expressions. -/
def isSpace (c : Char) : Bool :=
  isLineTerminator c || c ∈ ['\t', '\u000b', '\u000c', ' ', '\u00a0', '\u1680', '\u202f', '\u205f',
    '\u3000', '\ufeff'] || ('\u2000' ≤ c && c ≤ '\u200a')

structure Obi where
  inputObi : Spec
  outputObi : Spec

/-- A half that is missing is `undefined`, which has no method `match`. -/
def fromToken : Option SchemaText → Except String Spec
  | some token => fromSpec token
  | none => .error "TypeError"

/-- The constructor. -/
def Obi.new (schema : SchemaText) : Except String Obi := do
  let normalizedSchema := schema.filter fun c => !isSpace c
  let tokens := normalizedSchema.splitOn '/'
  let inputObi ← fromToken tokens[0]?
  let outputObi ← fromToken tokens[1]?
  return { inputObi, outputObi }

/-- A `Buffer` as a condition. -/
def truthy (_ : Bytes) : Bool := true

/-- The two decoders, which differ in the schema only. -/
def decodeWhole (node : Node) (obi : Spec) (buff : Bytes) : Except String Data := do
  let (value, remaining) ← decode node obi buff
  if truthy remaining then
    throw "Not all data is consumed after decoding output"
  return value

namespace Obi

variable (node : Node) (obi : Obi)

def encodeInput (value : Data) : Except String Bytes := encode obi.inputObi value

def decodeInput (buff : Bytes) : Except String Data := decodeWhole node obi.inputObi buff

def encodeOutput (value : Data) : Except String Bytes := encode obi.outputObi value

def decodeOutput (buff : Bytes) : Except String Data := decodeWhole node obi.outputObi buff

end Obi

/-- Decoding takes exactly the buffer. -/
def Consumed (node : Node) (spec : Spec) (buff : Bytes) : Prop :=
  ∃ value, decode node spec buff = .ok (value, [])

/-- What a decoder of whole buffers is to do: give the value if nothing remains, and throw if
something does or if decoding throws. -/
def DecodesWhole (node : Node) (spec : Spec) (decoder : Bytes → Except String Data)
    (buff : Bytes) : Prop :=
  match decode node spec buff with
  | .ok (value, []) => decoder buff = .ok value
  | _ => ∃ e, decoder buff = .error e

variable (node : Node) {spec : Spec} {buff : Bytes}

/-- Whatever the buffer holds, the decoder throws. -/
lemma exists_decodeWhole_eq_error (spec : Spec) (buff : Bytes) :
    ∃ e, decodeWhole node spec buff = .error e := by
  rw [decodeWhole]
  cases decode node spec buff with
  | error e => exact ⟨e, rfl⟩
  | ok r => exact ⟨_, rfl⟩

lemma decodesWhole_iff :
    DecodesWhole node spec (decodeWhole node spec) buff ↔ ¬Consumed node spec buff := by
  obtain ⟨e, he⟩ := exists_decodeWhole_eq_error node spec buff
  rw [DecodesWhole]
  constructor
  · rintro h ⟨value, hvalue⟩
    rw [hvalue] at h
    change decodeWhole node spec buff = .ok value at h
    rw [he] at h
    cases h
  · intro h
    split
    · next value hvalue => exact absurd ⟨value, hvalue⟩ h
    · exact ⟨e, he⟩

/-- An encoding is consumed, and nothing longer is. -/
lemma consumed_of_plain {v : Data} (hv : spec.InRange v) (hplain : Plain v) :
    ∃ enc, encode spec v = .ok enc ∧ Consumed node spec enc ∧
      ∀ rest, rest ≠ [] → ¬Consumed node spec (enc ++ rest) := by
  obtain ⟨henc, hdec⟩ := decode_canonical node hv hplain
  refine ⟨_, henc, ⟨v, ?_⟩, ?_⟩
  · have h := hdec []
    rwa [List.append_nil] at h
  · rintro rest hrest ⟨value, hvalue⟩
    rw [hdec rest] at hvalue
    exact hrest (Prod.mk.inj (Except.ok.inj hvalue)).2

/-- The decoders of a class that accepts its schema do what they are to do on exactly those buffers
that are not consumed; the encodings of plain values are all consumed, and with any bytes after them
they are not. -/
theorem decodeInput_decodeOutput_iff {schema : SchemaText} {obi : Obi}
    (_ : Obi.new schema = .ok obi) :
    (∀ buff, DecodesWhole node obi.inputObi (obi.decodeInput node) buff ↔
        ¬Consumed node obi.inputObi buff) ∧
      (∀ buff, DecodesWhole node obi.outputObi (obi.decodeOutput node) buff ↔
        ¬Consumed node obi.outputObi buff) ∧
      (∀ v, obi.inputObi.InRange v → Plain v → ∃ enc, obi.encodeInput v = .ok enc ∧
        Consumed node obi.inputObi enc ∧
          ∀ rest, rest ≠ [] → ¬Consumed node obi.inputObi (enc ++ rest)) ∧
      ∀ v, obi.outputObi.InRange v → Plain v → ∃ enc, obi.encodeOutput v = .ok enc ∧
        Consumed node obi.outputObi enc ∧
          ∀ rest, rest ≠ [] → ¬Consumed node obi.outputObi (enc ++ rest) :=
  ⟨fun _ => decodesWhole_iff node, fun _ => decodesWhole_iff node,
    fun _ hv hplain => consumed_of_plain node hv hplain,
    fun _ hv hplain => consumed_of_plain node hv hplain⟩

/-- The schema `u8 / string`. -/
lemma new_sample : Obi.new "u8 / string".toList = .ok ⟨.integer false 1, .string⟩ := rfl

/-- Of two bytes one remains, and the decoder throws as it should. -/
theorem decodeInput_decodeOutput_iff_sample :
    DecodesWhole Sample.node (.integer false 1)
      (Obi.decodeInput Sample.node ⟨.integer false 1, .string⟩) [7, 8] := by
  refine ((decodeInput_decodeOutput_iff Sample.node new_sample).1 [7, 8]).mpr ?_
  rintro ⟨value, hvalue⟩
  have hdec : decode Sample.node (.integer false 1) [7, 8] = .ok (.int 7, [8]) := rfl
  rw [hdec] at hvalue
  cases hvalue

/-- The byte of a number is not read back. -/
theorem not_decodeInput_encodeInput :
    ¬∀ (node : Node) (schema : SchemaText) (obi : Obi), Obi.new schema = .ok obi →
      ∀ buff, DecodesWhole node obi.inputObi (obi.decodeInput node) buff := by
  intro h
  have hseven := h Sample.node _ _ new_sample [7]
  exact (decodesWhole_iff Sample.node).mp hseven ⟨.int 7, rfl⟩

end Bandchain.Obi.JavaScript
