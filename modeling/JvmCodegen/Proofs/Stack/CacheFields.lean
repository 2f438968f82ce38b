/-
**The fields of cached constants.**

The field of a cached constant is numbered by the place of its registration.  So no two constants of
a cache share a field, and all fields are static ones of the class that is generated.

Main definitions:

* `Stack.ConstantCache.Numbers` — the cache declares a field as the one of a number;
* `Stack.ConstantCache.Numbered` — every field of the cache is the one of its place.

Main results:

* `UnqualifiedName.ofNat_inj` — different numbers are written differently;
* `Stack.ConstantCache.Grows.numbered` — **fields stay numbered** while the cache grows;
* `Stack.ConstantCache.Numbered.nodup`, `Stack.ConstantCache.Numbered.isStatic`,
  `Stack.ConstantCache.Numbered.ne_classObjectField` — what follows for the fields.
-/

import JvmCodegen.Proofs.Stack.Caching

set_option relaxedAutoImplicit false
set_option autoImplicit false

namespace JvmCodegen

/-- Different numbers are written differently. -/
theorem UnqualifiedName.ofNat_inj {m n : Nat} (h : ofNat m = ofNat n) : m = n := by
  have htext : m.repr = n.repr := congrArg UnqualifiedName.text h
  have hdigits : Nat.toDigits 10 m = Nat.toDigits 10 n := by
    rw [← Nat.toList_repr, ← Nat.toList_repr, htext]
  calc m = Nat.ofDigitChars 10 (Nat.toDigits 10 m) 0 := Nat.ofDigitChars_ten_toDigits.symm
    _ = Nat.ofDigitChars 10 (Nat.toDigits 10 n) 0 := by rw [hdigits]
    _ = n := Nat.ofDigitChars_ten_toDigits

/-- A longer name tells what was appended. -/
theorem UnqualifiedName.append_left_inj {a b b' : UnqualifiedName} (h : a.append b = a.append b') :
    b = b' := by
  have htext : a.text ++ b.text = a.text ++ b'.text := congrArg UnqualifiedName.text h
  rcases b with ⟨text⟩
  rcases b' with ⟨text'⟩
  exact congrArg mk ((String.append_right_inj a.text).1 htext)

namespace Stack.ConstantCache

theorem fieldName_inj {c : ConstantCache} {m n : Nat} (h : c.fieldName m = c.fieldName n) :
    m = n :=
  UnqualifiedName.ofNat_inj (UnqualifiedName.append_left_inj h)

/-- The cache declares the field as the one of number `n`. -/
structure Numbers (c : ConstantCache) (n : Nat) (f : Field) : Prop where
  owner : f.owner = c.owner
  name : f.name = c.fieldName n
  flags : f.flags = fieldFlags

/-- Every field of the cache is the one of its place. -/
def Numbered (c : ConstantCache) : Prop :=
  ∀ n f, c.fields[n]? = some f → c.Numbers n f

theorem numbered_new (owner : Class) (namePart : UnqualifiedName) : (new owner namePart).Numbered :=
  fun _ _ h => by cases h

theorem length_fields (c : ConstantCache) : c.fields.length = c.size := by
  rw [fields, List.length_map, Array.length_toList, size]

theorem Numbered.push {c : ConstantCache} (h : c.Numbered) (serial : Nat) (value : Plan)
    (type : ValueType) : (c.push serial value type).Numbered := by
  intro n f hf
  rw [fields_push, List.getElem?_append] at hf
  split at hf
  case isTrue hlt =>
      obtain ⟨howner, hname, hflags⟩ := h n f hf
      exact ⟨howner, hname, hflags⟩
  case isFalse hge =>
      rw [List.getElem?_singleton] at hf
      split at hf
      case isTrue hn =>
          rw [length_fields] at hge hn
          obtain rfl : n = c.size := by omega
          cases hf
          exact ⟨rfl, rfl, rfl⟩
      case isFalse => cases hf

/-- **Fields stay numbered.** -/
theorem Grows.numbered {p : Plan → Prop} {c d : ConstantCache} (h : Grows p c d)
    (hc : c.Numbered) : d.Numbered := by
  induction h with
  | refl => exact hc
  | push serial value type _ _ _ _ _ ih => exact ih.push serial value type

namespace Numbered

variable {c : ConstantCache} {f : Field}

theorem exists_numbers (h : c.Numbered) (hf : f ∈ c.fields) : ∃ n, c.Numbers n f := by
  obtain ⟨n, hn⟩ := List.mem_iff_getElem?.1 hf
  exact ⟨n, h n f hn⟩

/-- No two constants share a field. -/
theorem nodup (h : c.Numbered) : c.fields.Nodup := by
  refine List.pairwise_iff_getElem.2 fun i j hi hj hlt heq => ?_
  have hname := (h i _ (List.getElem?_eq_getElem hi)).name
  rw [heq, (h j _ (List.getElem?_eq_getElem hj)).name] at hname
  exact Nat.ne_of_gt hlt (fieldName_inj hname)

theorem isStatic (h : c.Numbered) (hf : f ∈ c.fields) : f.isStatic = true := by
  obtain ⟨n, hn⟩ := h.exists_numbers hf
  rw [Field.isStatic, hn.flags]
  decide

/-- The fields that hold class objects are not among them. -/
theorem ne_classObjectField (h : c.Numbered) (type : Option Primitive) :
    classObjectField type ∉ c.fields := by
  intro hf
  obtain ⟨n, hn⟩ := h.exists_numbers hf
  have hflags := hn.flags
  cases type with
  | none => exact absurd hflags (by decide)
  | some p => exact absurd hflags (by cases p <;> decide)

end Numbered

end Stack.ConstantCache

end JvmCodegen
