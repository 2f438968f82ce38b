/-
**Subtyping is decided.**

Below is the relation with which a Java programmer would describe subtyping: a class lies below its
superclass and its interfaces, everything lies below `Object`, arrays lie below `Cloneable` and
`Serializable`, arrays of references are covariant, and nothing else holds.  What is computed compares
arrays by their numbers of dimensions and by three names.  In a graph in which Java's rules hold, both
are the same relation.

Main definitions:

* `ClassGraph.Knows` — the types over the classes of a graph;
* `ClassGraph.Below` — subtyping as the least relation.

Main results:

* `ClassGraph.isSubtype_array` — arrays of references compare as their elements do;
* `ClassGraph.isSubtype_trans` — the computed relation is transitive;
* `ClassGraph.isSubtype_iff_below` — **the computed relation is the least one**.
-/

import JvmCodegen.Proofs.ClassGraph.Reachability
import JvmCodegen.Proofs.FieldType
import JvmCodegen.Proofs.Stack.TypedMachine

set_option relaxedAutoImplicit false
set_option autoImplicit false

namespace JvmCodegen.ClassGraph

open Relation

variable {g : ClassGraph}

/-! ### Reference types -/

/-- The class that a type mentions, if it mentions one, is a class of the graph. -/
def Knows (g : ClassGraph) (r : RefType Class) : Prop := ∀ c ∈ r.class?, c ∈ g.classes

@[simp] theorem knows_object {c : Class} : g.Knows (.object c) ↔ c ∈ g.classes := by
  simp [Knows, RefType.class?]

@[simp] theorem knows_objectArray {n : Nat} {c : Class} :
    g.Knows (.objectArray n c) ↔ c ∈ g.classes := by
  simp [Knows, RefType.class?]

@[simp] theorem knows_array {r : RefType Class} :
    g.Knows (.array (.reference r)) ↔ g.Knows r := by
  simp [Knows, FieldType.class?]

theorem isSubtype_object_array (c : Class) (t : ValueType) :
    g.isSubtype (.object c) (.array t) = false := by
  rcases t with p | (d | ⟨n, d⟩ | ⟨n, p⟩) <;> rfl

theorem isSubtype_array_object (t : ValueType) (c : Class) :
    g.isSubtype (.array t) (.object c) = isAboveArrays c.name := by
  rcases t with p | (d | ⟨n, d⟩ | ⟨n, p⟩) <;> rfl

/-- **Arrays of references compare as their elements do.** -/
theorem isSubtype_array (r s : RefType Class) :
    g.isSubtype (.array (.reference r)) (.array (.reference s)) = g.isSubtype r s := by
  rcases r with c | ⟨m, c⟩ | ⟨m, p⟩ <;> rcases s with d | ⟨n, d⟩ | ⟨n, q⟩ <;>
    simp [RefType.array, isSubtype]

theorem isSubtype_array_primitive (p q : Primitive) :
    g.isSubtype (.array (.primitive p)) (.array (.primitive q)) = (p == q) := by
  simp [RefType.array, isSubtype]

/-- An array of primitive values is no array of references. -/
theorem isSubtype_array_primitive_reference (p : Primitive) (r : RefType Class) :
    g.isSubtype (.array (.primitive p)) (.array (.reference r)) = false := by
  rcases r with c | ⟨m, c⟩ | ⟨m, q⟩ <;> simp [RefType.array, isSubtype]

/-- An array of references is no array of primitive values. -/
theorem isSubtype_array_reference_primitive (r : RefType Class) (p : Primitive) :
    g.isSubtype (.array (.reference r)) (.array (.primitive p)) = false := by
  rcases r with c | ⟨m, c⟩ | ⟨m, q⟩ <;> simp [RefType.array, isSubtype]

theorem isSubtype_trans (hg : g.IsConnected) (hr : g.IsHierarchy) {r s t : RefType Class}
    (hrk : g.Knows r) (hsk : g.Knows s) (htk : g.Knows t) (h₁ : g.isSubtype r s = true)
    (h₂ : g.isSubtype s t = true) : g.isSubtype r t = true := by
  -- on the greatest type: below an array of references stand only such arrays, by their elements
  induction t using RefType.array_induction generalizing r s with
  | object d =>
      have hd := knows_object.1 htk
      rcases s.eq_object_or_array with ⟨c, rfl⟩ | ⟨e, rfl⟩
      · have hc := knows_object.1 hsk
        rcases r.eq_object_or_array with ⟨b, rfl⟩ | ⟨e', rfl⟩
        · exact isSubclass_trans hg hr (knows_object.1 hrk) hc hd h₁ h₂
        · rw [isSubtype_array_object] at h₁ ⊢
          exact isAboveArrays_of_isSubclass hg hr hc hd h₁ h₂
      · rcases r.eq_object_or_array with ⟨b, rfl⟩ | ⟨e', rfl⟩
        · simp [isSubtype_object_array] at h₁
        · rw [isSubtype_array_object] at h₂ ⊢
          exact h₂
  | primitive p =>
      cases s using RefType.array_induction with
      | object c => simp [isSubtype_object_array] at h₂
      | primitive q =>
          rw [isSubtype_array_primitive, beq_iff_eq] at h₂
          rwa [← h₂]
      | reference s => simp [isSubtype_array_reference_primitive] at h₂
  | reference t ih =>
      cases s using RefType.array_induction with
      | object c => simp [isSubtype_object_array] at h₂
      | primitive q => simp [isSubtype_array_primitive_reference] at h₂
      | reference s =>
          cases r using RefType.array_induction with
          | object c => simp [isSubtype_object_array] at h₁
          | primitive q => simp [isSubtype_array_primitive_reference] at h₁
          | reference r =>
              rw [isSubtype_array] at h₁ h₂ ⊢
              exact ih (knows_array.1 hrk) (knows_array.1 hsk) (knows_array.1 htk) h₁ h₂

/-! ### Subtyping as a least relation -/

/-- **Subtyping**, as the least reflexive and transitive relation with these rules. -/
inductive Below (g : ClassGraph) : RefType Class → RefType Class → Prop
  | refl (r : RefType Class) : Below g r r
  | trans {r s t : RefType Class} : Below g r s → Below g s t → Below g r t
  | superclass {c d : Class} : g.superclass? c = some d → Below g (.object c) (.object d)
  | interface {c d : Class} : d ∈ g.interfaces c → Below g (.object c) (.object d)
  | object (r : RefType Class) : Below g r (.object Java.object)
  | cloneable (t : ValueType) : Below g (.array t) (.object Java.cloneable)
  | serializable (t : ValueType) : Below g (.array t) (.object Java.serializable)
  | covariant {r s : RefType Class} :
      Below g r s → Below g (.array (.reference r)) (.array (.reference s))

namespace Below

theorem of_reaches {c d : Class} (h : ReflTransGen g.DirectlyBelow c d) :
    g.Below (.object c) (.object d) := by
  induction h with
  | refl => exact .refl _
  | tail _ h ih =>
      refine ih.trans ?_
      cases h with
      | superclass h => exact .superclass h
      | interface h => exact .interface h

/-- What lies above a type over the classes of a graph is a type over the classes of the graph. -/
theorem knows (hg : g.IsConnected) {r s : RefType Class} (h : g.Below r s) (hr : g.Knows r) :
    g.Knows s := by
  induction h with
  | refl => exact hr
  | trans _ _ ih₁ ih₂ => exact ih₂ (ih₁ hr)
  | superclass h => exact knows_object.2 (hg.superclass _ _ h)
  | interface h => exact knows_object.2 (hg.interface _ _ h).1
  | object => exact knows_object.2 (hg.library _ (by simp))
  | cloneable => exact knows_object.2 (hg.library _ (by simp))
  | serializable => exact knows_object.2 (hg.library _ (by simp))
  | covariant _ ih => exact knows_array.2 (ih (knows_array.1 hr))

/-- An array lies below each of the classes above arrays. -/
theorem array_object (hg : g.IsConnected) (hr : g.IsHierarchy) {d : Class} (hd : d ∈ g.classes)
    (t : ValueType) (h : isAboveArrays d.name = true) : g.Below (.array t) (.object d) := by
  rcases (isAboveArrays_iff hg hr hd).1 h with rfl | rfl | rfl
  · exact .object _
  · exact .cloneable t
  · exact .serializable t

/-- What is computed to be a subtype is one. -/
theorem of_isSubtype (hg : g.IsConnected) (hr : g.IsHierarchy) {s t : RefType Class}
    (hsk : g.Knows s) (htk : g.Knows t) (h : g.isSubtype s t = true) : g.Below s t := by
  -- on the smaller type: an array lies below few classes, and below arrays by its elements
  induction s using RefType.array_induction generalizing t with
  | object c =>
      rcases t.eq_object_or_array with ⟨d, rfl⟩ | ⟨e, rfl⟩
      · rcases (isSubclass_iff hg hr (knows_object.1 hsk) (knows_object.1 htk)).1 h with rfl | h
        · exact .object _
        · exact of_reaches h
      · simp [isSubtype_object_array] at h
  | primitive p =>
      cases t using RefType.array_induction with
      | object d => exact array_object hg hr (knows_object.1 htk) _ (isSubtype_array_object _ d ▸ h)
      | primitive q =>
          rw [isSubtype_array_primitive, beq_iff_eq] at h
          rw [h]
          exact .refl _
      | reference t => simp [isSubtype_array_primitive_reference] at h
  | reference s ih =>
      cases t using RefType.array_induction with
      | object d => exact array_object hg hr (knows_object.1 htk) _ (isSubtype_array_object _ d ▸ h)
      | primitive q => simp [isSubtype_array_reference_primitive] at h
      | reference t =>
          rw [isSubtype_array] at h
          exact .covariant (ih (knows_array.1 hsk) (knows_array.1 htk) h)

/-- Every subtype is computed to be one. -/
theorem isSubtype (hg : g.IsConnected) (hr : g.IsHierarchy) {s t : RefType Class}
    (h : g.Below s t) (hsk : g.Knows s) : g.isSubtype s t = true := by
  have hedge : ∀ {c d : Class}, c ∈ g.classes → g.DirectlyBelow c d → g.isSubclass c d = true :=
    fun hc hstep => (isSubclass_iff hg hr hc (hg.mem_classes_of_directlyBelow hstep)).2
      (.inr (.single hstep))
  induction h with
  | refl r => exact g.isSubtype_refl r
  | trans h₁ h₂ ih₁ ih₂ =>
      have hk := h₁.knows hg hsk
      exact isSubtype_trans hg hr hsk hk (h₂.knows hg hk) (ih₁ hsk) (ih₂ hk)
  | superclass h => exact hedge (knows_object.1 hsk) (.superclass h)
  | interface h => exact hedge (knows_object.1 hsk) (.interface h)
  | object r =>
      rcases r.eq_object_or_array with ⟨c, rfl⟩ | ⟨t, rfl⟩
      · exact (isSubclass_iff hg hr (knows_object.1 hsk) (hg.library _ (by simp))).2 (.inl rfl)
      · exact isSubtype_array_object t _
  | cloneable t => exact isSubtype_array_object t _
  | serializable t => exact isSubtype_array_object t _
  | covariant _ ih =>
      rw [isSubtype_array]
      exact ih (knows_array.1 hsk)

end Below

/-- **The computed relation is subtyping**: in every graph that grows out of the Java library and
keeps Java's rules, it answers for any two reference types over the classes of the graph, and
answers as the least relation does. -/
theorem isSubtype_iff_below (hg : g.FromLibrary) (hr : g.IsHierarchy) {s t : RefType Class}
    (hs : g.Knows s) (ht : g.Knows t) : g.isSubtype s t = true ↔ g.Below s t :=
  ⟨Below.of_isSubtype hg.isConnected hr hs ht, fun h => h.isSubtype hg.isConnected hr hs⟩

/-! ### Interfaces in a circle -/

def ringA : Class := ⟨21, ⟨"A"⟩, Java.interfaceClass⟩
def ringB : Class := ⟨22, ⟨"B"⟩, Java.interfaceClass⟩
def ringC : Class := ⟨23, ⟨"C"⟩, ClassFlags.publicClass⟩

/-- The library with two interfaces that extend one another, and a class that implements the first
of them. -/
def ring : ClassGraph :=
  let g := withJavaLibrary
  let g := (g.addClass ringA.name (some Java.object) ringA.flags).2
  let g := (g.addClass ringB.name (some Java.object) ringB.flags).2
  let g := (g.addClass ringC.name (some Java.number) ringC.flags).2
  let g := g.addInterface ringA ringB 1
  let g := g.addInterface ringB ringA 1
  g.addInterface ringC ringA 1

theorem fromLibrary_ring : ring.FromLibrary := by
  refine .addInterface _ _ _ (.addInterface _ _ _ (.addInterface _ _ _ ?_ ?_ ?_ rfl) ?_ ?_ rfl)
    ?_ ?_ rfl
  · refine .addClass _ _ _ (.addClass _ _ _ (.addClass _ _ _ .library ?_) ?_) ?_
    all_goals decide
  all_goals decide

theorem isHierarchy_ring : ring.IsHierarchy where
  nodup_names := by decide
  rooted := by decide
  interfaces_rooted := by decide
  object := rfl
  cloneable := rfl
  serializable := rfl

/-- Going round the circle, the search finds an interface and misses the class. -/
theorem isSubtype_iff_below_ring :
    ring.FromLibrary ∧ ring.IsHierarchy ∧
      ring.Knows (.objectArray 1 ringC) ∧ ring.Knows (.objectArray 1 ringB) ∧
      ring.Below (.objectArray 1 ringC) (.objectArray 1 ringB) ∧
      ¬ring.Below (.objectArray 1 ringB) (.objectArray 1 ringC) := by
  have hB : ring.Knows (.objectArray 1 ringB) := knows_objectArray.2 (by decide)
  have hC : ring.Knows (.objectArray 1 ringC) := knows_objectArray.2 (by decide)
  have hfound : ring.isSubtype (.objectArray 1 ringC) (.objectArray 1 ringB) = true := by cbv
  have hmissed : ring.isSubtype (.objectArray 1 ringB) (.objectArray 1 ringC) = false := by cbv
  refine ⟨fromLibrary_ring, isHierarchy_ring, hC, hB, ?_, fun h => ?_⟩
  · exact (isSubtype_iff_below fromLibrary_ring isHierarchy_ring hC hB).1 hfound
  · have h := (isSubtype_iff_below fromLibrary_ring isHierarchy_ring hB hC).2 h
    rw [hmissed] at h
    cases h

end JvmCodegen.ClassGraph
