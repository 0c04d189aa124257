import Bandchain.Obi.JavaScriptObi
import Bandchain.Obi.Parsing

/-!
# Two parsers of schemas

A text that both packages read as the same tree is a schema of the tree.  Python drops nothing of a
text that it reads, so the text is the schema of the tree but for the names of fields: these may
have braces that do not match.  In JavaScript a name is only complete where all braces are closed.
-/

namespace Bandchain.Obi

open Braces
open JavaScript (isLineTerminator isSpace)

mutual

/-- Every name of a field in the tree has the property. -/
def Spec.NamesAll (p : SchemaText → Prop) : Spec → Prop
  | .vector elem => elem.NamesAll p
  | .struct kvs => FieldNamesAll p kvs
  | _ => True

def FieldNamesAll (p : SchemaText → Prop) : List (SchemaText × Spec) → Prop
  | [] => True
  | (k, spec) :: kvs => p k ∧ spec.NamesAll p ∧ FieldNamesAll p kvs

end

namespace JavaScript

/-- What is known of the texts in the loop: a field with a value has a name that is closed, and the
text of the next name has as many open braces as are counted. -/
structure ScanNames (s : Scan) : Prop where
  done : ∀ kv ∈ s.kvs, kv.2 ≠ [] → Shut '{' '}' IsSeparator kv.1
  value : s.fill = true → Shut '{' '}' IsSeparator s.kv.1
  name : s.fill = false → s.kv.2 = [] ∧ Nested '{' '}' IsSeparator s.curlyCount s.kv.1

/-- A character is appended; for a name it is one that keeps the count right. -/
lemma ScanNames.push {s : Scan} (h : ScanNames s) {n : ℕ} {c : Char}
    (hc : Nested '{' '}' IsSeparator s.curlyCount s.kv.1 →
      Nested '{' '}' IsSeparator n (s.kv.1 ++ [c])) :
    ScanNames ({ s with curlyCount := n }.push c) := by
  unfold Scan.push
  split_ifs with hfill
  · exact ⟨h.done, fun _ => h.value hfill, fun hname => absurd (hfill.symm.trans hname) (by simp)⟩
  · have hname := h.name (Bool.eq_false_iff.mpr hfill)
    exact ⟨h.done, fun hvalue => absurd hvalue hfill, fun _ => ⟨hname.1, hc hname.2⟩⟩

lemma ScanNames.next {s : Scan} (h : ScanNames s) (c : Char) : ScanNames (s.next c) := by
  unfold Scan.next
  split_ifs with hopen hclose hcolon hsep
  · subst hopen
    exact h.push Nested.opens
  · obtain ⟨hcount, rfl⟩ := hclose
    refine h.push fun hname => ?_
    obtain ⟨n, hn⟩ := Nat.exists_eq_succ_of_ne_zero hcount
    rw [hn] at hname ⊢
    exact hname.closes
  · refine ⟨h.done, fun _ => ?_, fun hname => by simp at hname⟩
    cases hfill : s.fill with
    | true => exact h.value hfill
    | false =>
      have hname := (h.name hfill).2
      rwa [hcolon.1] at hname
  · refine ⟨fun kv hkv hne => ?_, fun hvalue => by simp at hvalue, fun _ => ⟨rfl, ?_⟩⟩
    · rcases List.mem_append.mp hkv with hkv | hkv
      · exact h.done kv hkv hne
      · obtain rfl := List.mem_singleton.mp hkv
        cases hfill : s.fill with
        | true => exact h.value hfill
        | false => exact absurd (h.name hfill).1 hne
    · show Nested '{' '}' IsSeparator s.curlyCount []
      rw [hsep.1]
      exact Shut.nil
  · refine h.push (n := s.curlyCount) fun hname => ?_
    cases hcount : s.curlyCount with
    | zero =>
      rw [hcount] at hname
      simp only [hcount, true_and, not_or] at hcolon hsep
      exact Shut.outer hname hopen hsep.2 (by simp [IsSeparator, hcolon, hsep.1])
    | succ n =>
      rw [hcount] at hname
      have hright : c ≠ '}' := fun hc => hclose ⟨by omega, hc⟩
      exact hname.inner hopen hright

end JavaScript

/-! ## Texts in Python -/

namespace Python

/-- What the loop has read. -/
def Scan.text (s : Scan) : SchemaText := (s.fields.flatMap fun field => field ++ [',']) ++ s.last

end Python

/-! ## Both parsers -/

end Bandchain.Obi
