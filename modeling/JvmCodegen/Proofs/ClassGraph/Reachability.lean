/-
**Reachability between classes.**

The search for a class goes upwards depth first.  It leaves interfaces out unless an interface is
looked for, remembers what it has visited, and is not run at all for the root.  What it answers is
reachability along superclasses and interfaces all the same: in circles, because the classes that were
visited are closed upwards when the search gives up; and without interfaces, because Java's rules let
an interface lead to interfaces and to the root only.

Main definitions:

* `ClassGraph.Explored` — the invariant of the search;
* `ClassGraph.IsHierarchy` — Java's rules for the classes of a graph.

Main results:

* `ClassGraph.Explored.visit`, `ClassGraph.Explored.skip` — each step of the search keeps its invariant;
* `ClassGraph.exists_explored_of_search` — what a search that fails has visited;
* `ClassGraph.search_eq_true_iff` — **the search finds what can be reached**, even in circles;
* `ClassGraph.isSubclass_iff` — **a class lies below the root and below what it reaches**;
* `ClassGraph.isSubclass_trans` — the relation between classes is transitive;
* `ClassGraph.isAboveArrays_of_isSubclass` — the classes above arrays are closed upwards.
-/

import JvmCodegen.Proofs.ClassGraph.Growth

set_option relaxedAutoImplicit false
set_option autoImplicit false

namespace JvmCodegen.ClassGraph

open Relation

variable {g : ClassGraph}

/-! ### The search -/

section Search

variable {via : Bool} {target : Class}

theorem mem_above {c d : Class} :
    d ∈ g.above via c ↔ g.superclass? c = some d ∨ (via = true ∧ d ∈ g.interfaces c) := by
  cases via <;> simp [above, Option.mem_toList]

theorem directlyBelow_of_mem_above {c d : Class} (h : d ∈ g.above via c) : g.DirectlyBelow c d := by
  rcases mem_above.1 h with h | ⟨-, h⟩
  · exact .superclass h
  · exact .interface h

/-- Where the search succeeds, the target lies above one of the pending classes. -/
theorem reaches_of_search {pending unvisited : List Class}
    (h : g.search via target pending unvisited = true) :
    ∃ c ∈ pending, ReflTransGen (fun c d => d ∈ g.above via c) c target := by
  fun_induction search g via target pending unvisited with
  | case1 => cases h
  | case2 unvisited pending => exact ⟨target, by simp, .refl⟩
  | case3 c pending unvisited hne hmem ih =>
      obtain ⟨d, hd, hreach⟩ := ih h
      rcases List.mem_append.1 hd with hd | hd
      · exact ⟨c, by simp, hreach.head hd⟩
      · exact ⟨d, by simp [hd], hreach⟩
  | case4 c pending unvisited hne hmem ih =>
      obtain ⟨d, hd, hreach⟩ := ih h
      exact ⟨d, by simp [hd], hreach⟩

/-- **The invariant of the search**: a class that was visited is not the target, and what is above it
is pending or was visited as well. -/
def Explored (g : ClassGraph) (via : Bool) (target : Class) (pending unvisited : List Class) :
    Prop :=
  ∀ c ∈ g.classes, c ∉ unvisited →
    c ≠ target ∧ ∀ d ∈ g.above via c, d ∈ pending ∨ d ∉ unvisited

namespace Explored

variable {c : Class} {pending unvisited : List Class}

/-- **A class is visited**: all that is above it becomes pending. -/
theorem visit (h : g.Explored via target (c :: pending) unvisited) (hnodup : unvisited.Nodup)
    (hne : c ≠ target) : g.Explored via target (g.above via c ++ pending) (unvisited.erase c) := by
  intro d hd hv
  by_cases hdc : d = c
  · subst hdc
    exact ⟨hne, fun e he => .inl (List.mem_append_left _ he)⟩
  · have hv : d ∉ unvisited := fun h => hv ((List.mem_erase_of_ne hdc).2 h)
    obtain ⟨htarget, habove⟩ := h d hd hv
    refine ⟨htarget, fun e he => ?_⟩
    rcases habove e he with he | he
    · rcases List.mem_cons.1 he with rfl | he
      · exact .inr hnodup.not_mem_erase
      · exact .inl (List.mem_append_right _ he)
    · exact .inr fun h => he (List.mem_of_mem_erase h)

/-- **A class is left out** that was visited before, in a circle perhaps. -/
theorem skip (h : g.Explored via target (c :: pending) unvisited) (hc : c ∉ unvisited) :
    g.Explored via target pending unvisited := by
  intro d hd hv
  obtain ⟨htarget, habove⟩ := h d hd hv
  refine ⟨htarget, fun e he => ?_⟩
  rcases habove e he with he | he
  · rcases List.mem_cons.1 he with rfl | he
    · exact .inr hc
    · exact .inl he
  · exact .inr he

/-- When nothing is pending any more, all that is reached from a visited class was visited as well. -/
theorem not_mem_of_reaches (hg : g.IsConnected) (h : g.Explored via target [] unvisited) {d : Class}
    (hc : c ∈ g.classes) (hv : c ∉ unvisited)
    (hreach : ReflTransGen (fun c d => d ∈ g.above via c) c d) : d ∈ g.classes ∧ d ∉ unvisited := by
  induction hreach with
  | refl => exact ⟨hc, hv⟩
  | @tail d e _ he ih =>
      obtain ⟨hd, hv⟩ := ih
      have hmem := hg.mem_classes_of_directlyBelow (directlyBelow_of_mem_above he)
      exact ⟨hmem, ((h d hd hv).2 e he).resolve_left List.not_mem_nil⟩

end Explored

/-- **Where the search fails**, all pending classes were visited in the end, and nothing is left
pending. -/
theorem exists_explored_of_search {pending unvisited : List Class} (hnodup : unvisited.Nodup)
    (hexplored : g.Explored via target pending unvisited)
    (h : g.search via target pending unvisited = false) :
    ∃ rest, rest ⊆ unvisited ∧ (∀ c ∈ pending, c ∉ rest) ∧ g.Explored via target [] rest := by
  fun_induction search g via target pending unvisited with
  | case1 unvisited => exact ⟨unvisited, List.Subset.refl _, by simp, hexplored⟩
  | case2 => cases h
  | case3 c pending unvisited hne hmem ih =>
      obtain ⟨rest, hrest, hpending, hdone⟩ := ih (hnodup.erase c) (hexplored.visit hnodup hne) h
      refine ⟨rest, fun d hd => List.mem_of_mem_erase (hrest hd), fun d hd => ?_, hdone⟩
      rcases List.mem_cons.1 hd with rfl | hd
      · exact fun hd => hnodup.not_mem_erase (hrest hd)
      · exact hpending d (List.mem_append_right _ hd)
  | case4 c pending unvisited hne hmem ih =>
      obtain ⟨rest, hrest, hpending, hdone⟩ := ih hnodup (hexplored.skip hmem) h
      refine ⟨rest, hrest, fun d hd => ?_, hdone⟩
      rcases List.mem_cons.1 hd with rfl | hd
      · exact fun hd => hmem (hrest hd)
      · exact hpending d hd

/-- **The search finds what can be reached.** -/
theorem search_eq_true_iff (hg : g.IsConnected) {c : Class} (hc : c ∈ g.classes) :
    g.search via target [c] g.classes = true ↔
      ReflTransGen (fun c d => d ∈ g.above via c) c target := by
  constructor
  · intro h
    obtain ⟨d, hd, hreach⟩ := reaches_of_search h
    rwa [List.mem_singleton.1 hd] at hreach
  · intro hreach
    by_contra h
    obtain ⟨rest, -, hpending, hdone⟩ := exists_explored_of_search hg.nodup_classes
      (fun c hc hv => absurd hc hv) (Bool.eq_false_iff.2 h)
    -- a search that gives up has visited all that is reached, and no visited class is the target
    obtain ⟨htarget, hv⟩ := hdone.not_mem_of_reaches hg hc (hpending c List.mem_cons_self) hreach
    exact (hdone target htarget hv).1 rfl

end Search

/-! ### Classes -/

/-- **Java's rules** for the classes of a graph: names are unique, only the root has no superclass,
the superclass of an interface is the root, and the classes that every array lies below have no
interfaces of their own. -/
structure IsHierarchy (g : ClassGraph) : Prop where
  nodup_names : (g.classes.map Class.name).Nodup
  rooted : ∀ c ∈ g.classes, g.superclass? c = none → c = Java.object
  interfaces_rooted : ∀ c ∈ g.classes, c.isInterface = true → g.superclass? c = some Java.object
  object : g.interfaces Java.object = []
  cloneable : g.interfaces Java.cloneable = []
  serializable : g.interfaces Java.serializable = []

theorem IsHierarchy.eq_of_name (hr : g.IsHierarchy) {c d : Class} (hc : c ∈ g.classes)
    (hd : d ∈ g.classes) (h : c.name = d.name) : c = d :=
  List.inj_on_of_nodup_map hr.nodup_names hc hd h

/-- Nothing lies above the root. -/
theorem not_directlyBelow_object (hg : g.IsConnected) (hr : g.IsHierarchy) (d : Class) :
    ¬g.DirectlyBelow Java.object d := by
  intro h
  cases h with
  | superclass h => rw [hg.object] at h; cases h
  | interface h => rw [hr.object] at h; cases h

theorem mem_classes_of_reaches (hg : g.IsConnected) {c d : Class} (hc : c ∈ g.classes)
    (h : ReflTransGen g.DirectlyBelow c d) : d ∈ g.classes := by
  cases h with
  | refl => exact hc
  | tail _ h => exact hg.mem_classes_of_directlyBelow h

/-- A class that is neither an interface nor the root is reached through superclasses only: on the
way to it, a step to an interface could go on to interfaces and to the root, and to nothing else. -/
theorem reaches_via_superclasses (hg : g.IsConnected) (hr : g.IsHierarchy) {c d : Class}
    (hc : c ∈ g.classes) (hreach : ReflTransGen g.DirectlyBelow c d) (hd : d.isInterface = false)
    (hne : d ≠ Java.object) : ReflTransGen (fun c d => d ∈ g.above false c) c d := by
  induction hreach with
  | refl => exact .refl
  | @tail b d hreach hstep ih =>
      have hb : b ∈ g.classes := mem_classes_of_reaches hg hc hreach
      cases hstep with
      | interface h =>
          have := (hg.interface b d h).2
          simp [hd] at this
      | superclass h =>
          have hinterface : b.isInterface = false := by
            by_contra hi
            have := hr.interfaces_rooted b hb (by simpa using hi)
            exact hne (by simpa [h] using this)
          have hroot : b ≠ Java.object := by
            rintro rfl
            exact not_directlyBelow_object hg hr d (.superclass h)
          exact (ih hinterface hroot).tail (mem_above.2 (.inl h))

/-- **A class lies below the root, and below what it reaches.** -/
theorem isSubclass_iff (hg : g.IsConnected) (hr : g.IsHierarchy) {c d : Class} (hc : c ∈ g.classes)
    (hd : d ∈ g.classes) :
    g.isSubclass c d = true ↔ d = Java.object ∨ ReflTransGen g.DirectlyBelow c d := by
  unfold isSubclass
  split
  · -- the shortcut is taken for a class without a superclass, and there is only one
    rename_i h
    have hroot : g.superclass? d = none := by
      simp only [Bool.and_eq_true, Option.isNone_iff_eq_none] at h
      exact h.1
    exact ⟨fun _ => .inl (hr.rooted d hd hroot), fun _ => rfl⟩
  · rename_i h
    have hne : d ≠ Java.object := by
      rintro rfl
      exact h (by rw [hg.object]; rfl)
    rw [search_eq_true_iff hg hc]
    refine ⟨fun h => .inr (ReflTransGen.mono (fun _ _ => directlyBelow_of_mem_above) _ _ h), fun h => ?_⟩
    have hreach := h.resolve_left hne
    cases hi : d.isInterface with
    | false => exact reaches_via_superclasses hg hr hc hreach hi hne
    | true =>
        refine ReflTransGen.mono (fun b e hstep => mem_above.2 ?_) _ _ hreach
        cases hstep with
        | superclass h => exact .inl h
        | interface h => exact .inr ⟨rfl, h⟩

theorem isSubclass_trans (hg : g.IsConnected) (hr : g.IsHierarchy) {b c d : Class}
    (hb : b ∈ g.classes) (hc : c ∈ g.classes) (hd : d ∈ g.classes)
    (h₁ : g.isSubclass b c = true) (h₂ : g.isSubclass c d = true) : g.isSubclass b d = true := by
  rw [isSubclass_iff hg hr hb hd]
  rcases (isSubclass_iff hg hr hc hd).1 h₂ with rfl | h₂
  · exact .inl rfl
  rcases (isSubclass_iff hg hr hb hc).1 h₁ with rfl | h₁
  · cases h₂.cases_head with
    | inl h => exact .inl h.symm
    | inr h =>
        obtain ⟨e, he, -⟩ := h
        exact absurd he (not_directlyBelow_object hg hr e)
  · exact .inr (h₁.trans h₂)

/-! ### The classes above arrays -/

/-- In a graph with unique names, three classes have the names that are compared with. -/
theorem isAboveArrays_iff (hg : g.IsConnected) (hr : g.IsHierarchy) {c : Class}
    (hc : c ∈ g.classes) :
    isAboveArrays c.name = true ↔
      c = Java.object ∨ c = Java.cloneable ∨ c = Java.serializable := by
  have heq : ∀ d ∈ [Java.object, Java.cloneable, Java.serializable],
      c.name.text = d.name.text → c = d := by
    intro d hd h
    refine hr.eq_of_name hc (hg.library d hd) ?_
    cases hn : c.name
    cases hm : d.name
    simp_all
  constructor
  · intro h
    simp only [isAboveArrays, Bool.or_eq_true, beq_iff_eq] at h
    rcases h with (h | h) | h
    · exact .inl (heq Java.object (by simp) h)
    · exact .inr (.inl (heq Java.cloneable (by simp) h))
    · exact .inr (.inr (heq Java.serializable (by simp) h))
  · rintro (rfl | rfl | rfl) <;> rfl

/-- What lies above a class above arrays is above arrays. -/
theorem isAboveArrays_of_isSubclass (hg : g.IsConnected) (hr : g.IsHierarchy) {c d : Class}
    (hc : c ∈ g.classes) (hd : d ∈ g.classes) (habove : isAboveArrays c.name = true)
    (h : g.isSubclass c d = true) : isAboveArrays d.name = true := by
  rcases (isSubclass_iff hg hr hc hd).1 h with rfl | hreach
  · rfl
  clear hd h
  induction hreach with
  | refl => exact habove
  | @tail b d hreach hstep ih =>
      have hb : b ∈ g.classes := mem_classes_of_reaches hg hc hreach
      have hcases := (isAboveArrays_iff hg hr hb).1 ih
      have hlist : g.interfaces b = [] := by
        rcases hcases with rfl | rfl | rfl
        · exact hr.object
        · exact hr.cloneable
        · exact hr.serializable
      cases hstep with
      | interface h => rw [hlist] at h; cases h
      | superclass h =>
          have hroot : d = Java.object := by
            rcases hcases with rfl | rfl | rfl
            · rw [hg.object] at h; cases h
            · rw [hr.interfaces_rooted _ hb rfl] at h; exact (Option.some.inj h).symm
            · rw [hr.interfaces_rooted _ hb rfl] at h; exact (Option.some.inj h).symm
          rw [hroot]
          rfl

end JvmCodegen.ClassGraph
