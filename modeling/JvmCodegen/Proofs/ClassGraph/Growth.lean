/-
**Growing class graphs.**

A class graph starts as that of the Java library and grows by classes, by interfaces of its classes,
and by members.  A new class names as its superclass a class that is already there, so superclasses
never run in circles; an interface can be given to a class at any time, so lists of interfaces may.
Nothing that is in the graph is ever taken back.

Main definitions:

* `ClassGraph.DirectlyBelow` — the edges from a class to its superclass and to its interfaces;
* `ClassGraph.IsConnected` — what all these graphs have in common;
* `ClassGraph.FromLibrary` — the graphs that grow out of the library.

Main results:

* `ClassGraph.FromLibrary.isConnected` — **every change keeps it**: classes stay where they are, and
  edges stay inside the graph;
* `ClassGraph.IsConnected.nodup_classes` — the classes of a graph are pairwise distinct.
-/

import Mathlib
import JvmCodegen.ClassGraph.JavaLibrary
import JvmCodegen.ClassGraph.Subtyping

set_option relaxedAutoImplicit false
set_option autoImplicit false

namespace JvmCodegen.ClassGraph

/-! ### Edges -/

/-- The second class is the superclass of the first or one of its interfaces. -/
inductive DirectlyBelow (g : ClassGraph) : Class → Class → Prop
  | superclass {c d : Class} : g.superclass? c = some d → DirectlyBelow g c d
  | interface {c d : Class} : d ∈ g.interfaces c → DirectlyBelow g c d

/-! ### The lists of a class -/

/-- One of the lists that the graph holds about a class. -/
def listed {β : Type} (list : ClassEntry → Array β) (g : ClassGraph) (c : Class) : List β :=
  ((g.entry? c).map fun e => (list e).toList).getD []

/-- The function reads one of the lists that a graph holds about a class. -/
def Reads {β : Type} (read : ClassGraph → Class → List β) (list : ClassEntry → Array β) : Prop :=
  ∀ g c, read g c = g.listed list c

theorem listed_eq {β : Type} (list : ClassEntry → Array β) (g : ClassGraph) (c : Class) :
    g.listed list c =
      match g.entry? c with
      | none => []
      | some e => (list e).toList := by
  unfold listed
  cases g.entry? c with
  | none => rfl
  | some e => rfl

theorem reads_interfaces : Reads interfaces (·.interfaces) := fun g c => (listed_eq _ g c).symm

theorem reads_methods : Reads methods (·.methods) := fun g c => (listed_eq _ g c).symm

theorem reads_fields : Reads fields (·.fields) := fun g c => (listed_eq _ g c).symm

/-! ### What a change to one entry keeps -/

/-- The graph after a change to the entry at one place. -/
def modifyEntry (g : ClassGraph) (n : Nat) (f : ClassEntry → ClassEntry) : ClassGraph :=
  { g with entries := g.entries.modify n f }

section Modify

variable {g : ClassGraph} {n : Nat} {f : ClassEntry → ClassEntry}

theorem entry?_modifyEntry (c : Class) :
    entry? (g.modifyEntry n f) c = if n = c.serial then (g.entry? c).map f else g.entry? c := by
  simp [modifyEntry, entry?, Array.getElem?_modify]

theorem classes_modifyEntry (h : ∀ e, (f e).declared = e.declared) :
    (g.modifyEntry n f).classes = g.classes := by
  refine List.ext_getElem? fun i => ?_
  simp only [classes, modifyEntry, List.getElem?_map, Array.getElem?_toList, Array.getElem?_modify]
  split
  · cases g.entries[i]? with
    | none => rfl
    | some e => exact congrArg some (h e)
  · rfl

theorem superclass?_modifyEntry (h : ∀ e, (f e).superclass = e.superclass) (c : Class) :
    (g.modifyEntry n f).superclass? c = g.superclass? c := by
  rw [superclass?, superclass?, entry?_modifyEntry]
  split
  · cases g.entry? c with
    | none => rfl
    | some e => exact h e
  · rfl

theorem isSome_entry?_modifyEntry (c : Class) :
    (ClassGraph.entry? (g.modifyEntry n f) c).isSome = (g.entry? c).isSome := by
  rw [entry?_modifyEntry]
  split
  · exact Option.isSome_map
  · rfl

namespace Reads

variable {β : Type} {read : ClassGraph → Class → List β} {list : ClassEntry → Array β}

theorem modifyEntry (hread : Reads read list) (c : Class) (h : ∀ e, list (f e) = list e) :
    read (g.modifyEntry n f) c = read g c := by
  rw [hread, hread, listed, listed, entry?_modifyEntry]
  split
  · cases g.entry? c with
    | none => rfl
    | some e => exact congrArg Array.toList (h e)
  · rfl

/-- A declaration at the end of a list of the class at one place. -/
theorem modifyEntry_push (hread : Reads read list) {x : β}
    (h : ∀ e, list (f e) = (list e).push x) (c : Class) :
    read (g.modifyEntry n f) c =
      if n = c.serial ∧ (g.entry? c).isSome then read g c ++ [x] else read g c := by
  rw [hread, hread, listed, listed, entry?_modifyEntry]
  by_cases hn : n = c.serial
  · cases g.entry? c <;> simp [hn, h]
  · simp [hn]

/-- A class that is not in the graph has empty lists. -/
theorem eq_nil_of_size_le (hread : Reads read list) {c : Class} (h : g.entries.size ≤ c.serial) :
    read g c = [] := by
  rw [hread, listed, entry?, Array.getElem?_eq_none h]
  rfl

end Reads

end Modify

section Steps

variable {g : ClassGraph}

/-- What a list of interfaces can have gained is the one that was added. -/
theorem mem_interfaces_addInterface {c i d j : Class} {count : Nat}
    (h : j ∈ (g.addInterface c i count).interfaces d) : j = i ∨ j ∈ g.interfaces d := by
  rw [show g.addInterface c i count = g.modifyEntry c.serial _ from rfl, reads_interfaces,
    listed, entry?_modifyEntry] at h
  rw [reads_interfaces, listed]
  split at h
  · cases he : g.entry? d with
    | none => simp [he] at h
    | some e =>
        have h : j ∈ e.interfaces ∨ ¬count = 0 ∧ j = i := by simpa [he] using h
        rcases h with h | h
        · exact .inr (by simpa using h)
        · exact .inl h.2
  · exact .inr h

theorem classes_addClass (name : BinaryName) (superclass : Option Class) (flags : ClassFlags) :
    (g.addClass name superclass flags).2.classes =
      g.classes ++ [⟨g.entries.size, name, flags⟩] := by
  simp [classes, addClass]

theorem superclass?_addClass (name : BinaryName) (superclass : Option Class) (flags : ClassFlags)
    (c : Class) :
    (g.addClass name superclass flags).2.superclass? c =
      if c.serial = g.entries.size then superclass else g.superclass? c := by
  simp only [superclass?, entry?, addClass, Array.getElem?_push]
  split <;> rfl

/-- A new class starts with empty lists. -/
theorem Reads.addClass {β : Type} {read : ClassGraph → Class → List β} {list : ClassEntry → Array β}
    (hread : Reads read list) {superclass : Option Class}
    (hempty : ∀ d, list ⟨d, superclass, #[], #[], #[]⟩ = #[]) (name : BinaryName) (flags : ClassFlags)
    (c : Class) : read (g.addClass name superclass flags).2 c = read g c := by
  simp only [hread _ _, listed, entry?, ClassGraph.addClass, Array.getElem?_push]
  split
  · rename_i h
    simp [h, hempty]
  · rfl

end Steps

/-- Classes stand at the places that their serial numbers say. -/
def IsNumbered (g : ClassGraph) : Prop := ∀ (i : Nat) (c : Class), g.classes[i]? = some c → c.serial = i

theorem length_classes (g : ClassGraph) : g.classes.length = g.entries.size := by simp [classes]

namespace IsNumbered

variable {g : ClassGraph} {c d : Class}

theorem addClass (h : g.IsNumbered) (name : BinaryName) (superclass : Option Class)
    (flags : ClassFlags) : (g.addClass name superclass flags).2.IsNumbered := by
  intro i c hc
  rw [classes_addClass, List.getElem?_append] at hc
  split at hc
  · exact h i c hc
  · rename_i hi
    obtain ⟨hlt, hc⟩ := List.getElem?_eq_some_iff.1 hc
    have hi : i = g.entries.size := by
      rw [length_classes] at hlt hi
      simp at hlt
      omega
    subst hi
    simpa [length_classes] using congrArg Class.serial hc.symm

/-- A class is known by its serial number. -/
theorem eq_of_serial (h : g.IsNumbered) (hc : c ∈ g.classes) (hd : d ∈ g.classes)
    (heq : c.serial = d.serial) : c = d := by
  obtain ⟨i, hi⟩ := List.mem_iff_getElem?.1 hc
  obtain ⟨j, hj⟩ := List.mem_iff_getElem?.1 hd
  obtain rfl : i = j := by rw [← h i c hi, ← h j d hj, heq]
  exact Option.some.inj (hi.symm.trans hj)

theorem serial_lt (h : g.IsNumbered) (hc : c ∈ g.classes) : c.serial < g.entries.size := by
  obtain ⟨i, hi⟩ := List.mem_iff_getElem?.1 hc
  rw [h i c hi, ← length_classes]
  exact (List.getElem?_eq_some_iff.1 hi).1

theorem isSome_entry? (h : g.IsNumbered) (hc : c ∈ g.classes) : (g.entry? c).isSome := by
  rw [ClassGraph.entry?, Array.getElem?_eq_getElem (h.serial_lt hc)]
  rfl

end IsNumbered

/-- The same classes with the same superclasses and the same interfaces. -/
structure SameClasses (g g' : ClassGraph) : Prop where
  classes : g'.classes = g.classes
  superclass? : ∀ c, g'.superclass? c = g.superclass? c
  interfaces : ∀ c, g'.interfaces c = g.interfaces c

theorem sameClasses_addField (g : ClassGraph) (owner : Class) (name : UnqualifiedName)
    (type : ValueType) (flags : FieldFlags) :
    g.SameClasses (g.addField owner name type flags).2 where
  classes := classes_modifyEntry (g := g) fun _ => rfl
  superclass? := superclass?_modifyEntry (g := g) fun _ => rfl
  interfaces := fun c => reads_interfaces.modifyEntry (g := g) c fun _ => rfl

theorem sameClasses_addMethod (g : ClassGraph) (owner : Class) (name : UnqualifiedName)
    (descriptor : MethodDescriptor Class) (flags : MethodFlags) :
    g.SameClasses (g.addMethod owner name descriptor flags).2 := by
  unfold addMethod
  dsimp only
  split
  · exact ⟨rfl, fun _ => rfl, fun _ => rfl⟩
  · exact ⟨classes_modifyEntry (g := g) fun _ => rfl, superclass?_modifyEntry (g := g) fun _ => rfl,
      fun c => reads_interfaces.modifyEntry (g := g) c fun _ => rfl⟩

/-! ### What every change keeps -/

/-- Classes stand at the places that their serial numbers say, edges stay inside the graph, and what
a class lists as its interfaces are interfaces. The classes that every array lies below are there,
the first of them without a superclass. -/
structure IsConnected (g : ClassGraph) : Prop where
  serial : g.IsNumbered
  superclass : ∀ c d, g.superclass? c = some d → d ∈ g.classes
  interface : ∀ c d, d ∈ g.interfaces c → d ∈ g.classes ∧ d.isInterface = true
  library : ∀ c ∈ [Java.object, Java.cloneable, Java.serializable], c ∈ g.classes
  object : g.superclass? Java.object = none

namespace IsConnected

variable {g g' : ClassGraph}

theorem of_sameClasses (h : g.IsConnected) (hs : g.SameClasses g') : g'.IsConnected where
  serial := by rw [IsNumbered, hs.classes]; exact h.serial
  superclass c d hd := by
    rw [hs.superclass?] at hd
    rw [hs.classes]
    exact h.superclass c d hd
  interface c d hd := by
    rw [hs.interfaces] at hd
    rw [hs.classes]
    exact h.interface c d hd
  library := by rw [hs.classes]; exact h.library
  object := by rw [hs.superclass?]; exact h.object

theorem withJavaLibrary : ClassGraph.withJavaLibrary.IsConnected where
  serial i c h := by
    have hi : i < 21 := (List.getElem?_eq_some_iff.1 h).1
    interval_cases i <;> cases h <;> rfl
  superclass c d h := by
    obtain ⟨e, he, h⟩ := Option.bind_eq_some_iff.1 h
    have hall : ∀ e ∈ ClassGraph.withJavaLibrary.entries, ∀ d ∈ e.superclass,
        d ∈ ClassGraph.withJavaLibrary.classes := by decide
    exact hall e (Array.mem_of_getElem? he) d h
  interface c d h := by
    rw [reads_interfaces] at h
    cases he : ClassGraph.withJavaLibrary.entry? c with
    | none => simp [listed, he] at h
    | some e =>
        have hall : ∀ e ∈ ClassGraph.withJavaLibrary.entries, ∀ d ∈ e.interfaces.toList,
            d ∈ ClassGraph.withJavaLibrary.classes ∧ d.isInterface = true := by decide
        exact hall e (Array.mem_of_getElem? he) d (by simpa [listed, he] using h)
  library := by decide
  object := rfl

theorem addClass (h : g.IsConnected) (name : BinaryName) {superclass : Option Class}
    (flags : ClassFlags) (hs : ∀ s ∈ superclass, s ∈ g.classes) :
    (g.addClass name superclass flags).2.IsConnected := by
  have hmem : ∀ c ∈ g.classes, c ∈ (g.addClass name superclass flags).2.classes := by
    intro c hc
    rw [classes_addClass]
    exact List.mem_append_left _ hc
  refine ⟨h.serial.addClass name superclass flags, ?_, ?_, fun c hc => hmem c (h.library c hc), ?_⟩
  · intro c d hd
    rw [superclass?_addClass] at hd
    split at hd
    · exact hmem d (hs d hd)
    · exact hmem d (h.superclass c d hd)
  · intro c d hd
    rw [reads_interfaces.addClass fun _ => rfl] at hd
    exact ⟨hmem d (h.interface c d hd).1, (h.interface c d hd).2⟩
  · -- The graph is not empty, so the new class does not take the place of the root.
    have hobject := h.library Java.object (by simp)
    have hpos : 0 < g.entries.size := by
      rw [← length_classes]
      exact List.length_pos_of_mem hobject
    rw [superclass?_addClass, if_neg (by simp [Java.object]; omega)]
    exact h.object

theorem addInterface (h : g.IsConnected) {i : Class} (c : Class) (count : Nat)
    (hi : i ∈ g.classes) (hint : i.isInterface = true) : (g.addInterface c i count).IsConnected := by
  have hc : (g.addInterface c i count).classes = g.classes :=
    classes_modifyEntry (g := g) fun _ => rfl
  have hs := superclass?_modifyEntry (g := g) (n := c.serial)
    (f := fun e => { e with interfaces := e.interfaces ++ Array.replicate count i }) fun _ => rfl
  refine ⟨by rw [IsNumbered, hc]; exact h.serial, ?_, ?_, by rw [hc]; exact h.library,
    (hs _).trans h.object⟩
  · intro d s hd
    rw [hc]
    exact h.superclass d s ((hs d).symm.trans hd)
  · intro d j hj
    rw [hc]
    rcases mem_interfaces_addInterface hj with rfl | hj
    · exact ⟨hi, hint⟩
    · exact h.interface d j hj

end IsConnected

/-! ### Graphs that grow out of the library -/

/-- **The graphs that grow out of the Java library.** A superclass and an interface are classes of
the graph, and only interfaces are given to a class as its interfaces. -/
inductive FromLibrary : ClassGraph → Prop
  | library : FromLibrary withJavaLibrary
  | addClass {g : ClassGraph} (name : BinaryName) (superclass : Option Class) (flags : ClassFlags) :
      FromLibrary g → (∀ s ∈ superclass, s ∈ g.classes) →
      FromLibrary (g.addClass name superclass flags).2
  | addInterface {g : ClassGraph} (c i : Class) (count : Nat) :
      FromLibrary g → c ∈ g.classes → i ∈ g.classes → i.isInterface = true →
      FromLibrary (g.addInterface c i count)
  | addField {g : ClassGraph} (owner : Class) (name : UnqualifiedName) (type : ValueType)
      (flags : FieldFlags) :
      FromLibrary g → FromLibrary (g.addField owner name type flags).2
  | addMethod {g : ClassGraph} (owner : Class) (name : UnqualifiedName)
      (descriptor : MethodDescriptor Class) (flags : MethodFlags) :
      FromLibrary g → FromLibrary (g.addMethod owner name descriptor flags).2

theorem FromLibrary.isConnected {g : ClassGraph} (h : g.FromLibrary) : g.IsConnected := by
  induction h with
  | library => exact .withJavaLibrary
  | addClass name superclass flags _ hs ih => exact ih.addClass name flags hs
  | addInterface c i count _ _ hi hint ih => exact ih.addInterface c count hi hint
  | addField owner name type flags _ ih => exact ih.of_sameClasses (sameClasses_addField ..)
  | addMethod owner name descriptor flags _ ih =>
      exact ih.of_sameClasses (sameClasses_addMethod ..)

namespace IsConnected

variable {g : ClassGraph}

theorem mem_classes_of_directlyBelow (h : g.IsConnected) {c d : Class} (hd : g.DirectlyBelow c d) :
    d ∈ g.classes := by
  cases hd with
  | superclass hd => exact h.superclass c d hd
  | interface hd => exact (h.interface c d hd).1

/-- The classes of a graph are pairwise distinct. -/
theorem nodup_classes (h : g.IsConnected) : g.classes.Nodup := by
  refine List.nodup_iff_getElem?_ne_getElem?.2 fun i j hij hj heq => ?_
  have hi : (g.classes[j]?) = some g.classes[j] := List.getElem?_eq_getElem hj
  have := h.serial i _ (heq.trans hi)
  have := h.serial j _ hi
  omega

end IsConnected

end JvmCodegen.ClassGraph
