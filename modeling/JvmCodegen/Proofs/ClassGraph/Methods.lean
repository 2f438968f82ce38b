/-
**The methods that a class lists.**

A class lists at most one method of a name, a descriptor and a staticness; whoever asks for another one
gets the first.  The other flags do not count, and neither does what the descriptor looks like as text.
However a class graph grows, the list of a class only gets longer at its end, and it stays free of
repetitions.

Main definitions:

* `Method.key` — what a class tells its methods apart by;
* `ClassGraph.GrowsTo` — what can be done to a class graph, in any order;
* `ClassGraph.ListsOnce` — a class of the graph lists its methods under different keys.

Main results:

* `ClassGraph.addMethod_cases` — a known method is handed out, or a new one is listed;
* `ClassGraph.GrowsTo.mem_methods` — **what is listed stays listed**;
* `ClassGraph.GrowsTo.listsOnce` — **however the graph grows**, no class lists two methods under one key.
-/

import JvmCodegen.Proofs.ClassGraph.Growth
import JvmCodegen.Proofs.FieldType.MethodDescriptor

set_option relaxedAutoImplicit false
set_option autoImplicit false

namespace JvmCodegen

/-- What a class tells its methods apart by. -/
def Method.key (m : Method) : UnqualifiedName × MethodDescriptor Class × Bool :=
  (m.name, m.descriptor, m.isStatic)

namespace ClassGraph

/-! ### The list of a class -/

/-- The graph with one more method at the end of its owner's list. -/
def withMethod (g : ClassGraph) (m : Method) : ClassGraph :=
  { g.modifyEntry m.owner.serial fun e => { e with methods := e.methods.push m } with
    methodCount := g.methodCount + 1 }

section Steps

variable (g : ClassGraph)

theorem isSome_entry?_addClass {name : BinaryName} {superclass : Option Class} {flags : ClassFlags}
    {c : Class} (h : (g.entry? c).isSome) :
    (ClassGraph.entry? (g.addClass name superclass flags).2 c).isSome := by
  simp only [addClass, entry?, Array.getElem?_push]
  split
  · rfl
  · exact h

theorem isSome_entry?_withMethod (m : Method) (c : Class) :
    (ClassGraph.entry? (g.withMethod m) c).isSome = (g.entry? c).isSome :=
  isSome_entry?_modifyEntry (g := g) c

theorem methods_withMethod (m : Method) (c : Class) :
    (g.withMethod m).methods c =
      if m.owner.serial = c.serial ∧ (g.entry? c).isSome then g.methods c ++ [m] else g.methods c :=
  reads_methods.modifyEntry_push (g := g) (fun _ => rfl) c

/-- The class that was just added is in the graph. -/
theorem isSome_entry?_addClass_self (name : BinaryName) (superclass : Option Class)
    (flags : ClassFlags) :
    (ClassGraph.entry? (g.addClass name superclass flags).2
      (g.addClass name superclass flags).1).isSome := by
  simp [addClass, entry?]

theorem methods_addClass_self (name : BinaryName) (superclass : Option Class) (flags : ClassFlags) :
    (g.addClass name superclass flags).2.methods (g.addClass name superclass flags).1 = [] := by
  rw [reads_methods.addClass fun _ => rfl]
  exact reads_methods.eq_nil_of_size_le (Nat.le_refl _)

/-- A method is looked up in the list of its owner, by its key. -/
theorem findMethod_eq_find? (owner : Class) (name : UnqualifiedName)
    (descriptor : MethodDescriptor Class) (isStatic : Bool) :
    g.findMethod owner name descriptor isStatic =
      (g.methods owner).find? fun m => m.key = (name, descriptor, isStatic) := by
  have htest : ∀ m : Method, (m.name == name && m.isStatic == isStatic && m.descriptor == descriptor) =
      decide (m.key = (name, descriptor, isStatic)) := by
    intro m
    rw [Bool.eq_iff_iff]
    simp only [Method.key, Bool.and_eq_true, beq_iff_eq, decide_eq_true_eq, Prod.mk.injEq, and_assoc]
    exact and_congr_right fun _ => and_comm
  rw [findMethod, reads_methods, listed]
  simp only [htest]
  cases g.entry? owner with
  | none => rfl
  | some e => exact Array.find?_toList.symm

/-- **Adding a method** hands out one that is listed under the same key, or else lists a new one. -/
theorem addMethod_cases (owner : Class) (name : UnqualifiedName)
    (descriptor : MethodDescriptor Class) (flags : MethodFlags) :
    (∃ m ∈ g.methods owner, m.key = (name, descriptor, flags.has MethodFlags.staticFlag) ∧
      g.addMethod owner name descriptor flags = (m, g)) ∨
    ∃ m : Method, m = ⟨g.methodCount, owner, name, descriptor, flags⟩ ∧
      (∀ k ∈ g.methods owner, k.key ≠ m.key) ∧
      g.addMethod owner name descriptor flags = (m, g.withMethod m) := by
  unfold addMethod
  dsimp only
  rw [findMethod_eq_find?]
  split
  · rename_i m hfind
    have hkey := List.find?_some hfind
    exact .inl ⟨m, List.mem_of_find?_eq_some hfind, of_decide_eq_true hkey, rfl⟩
  · rename_i hnone
    refine .inr ⟨_, rfl, fun k hk hkey => ?_, rfl⟩
    exact List.find?_eq_none.1 hnone k hk (decide_eq_true hkey)

/-- A method that was added to a class of the graph is listed. -/
theorem mem_methods_addMethod {owner : Class} (h : (g.entry? owner).isSome) {name : UnqualifiedName}
    {descriptor : MethodDescriptor Class} {flags : MethodFlags} {m : Method} {g' : ClassGraph}
    (hadd : g.addMethod owner name descriptor flags = (m, g')) : m ∈ g'.methods owner := by
  rcases g.addMethod_cases owner name descriptor flags with
    ⟨k, hmem, -, heq⟩ | ⟨k, rfl, -, heq⟩
  · cases hadd.symm.trans heq
    exact hmem
  · cases hadd.symm.trans heq
    rw [methods_withMethod, if_pos ⟨rfl, h⟩]
    exact List.mem_append_right _ (List.mem_singleton_self _)

end Steps

/-! ### However the graph grows -/

/-- **What can be done to a class graph**, in any order. The classes in the descriptors of new methods
have names without semicolons, as all names have that are read from a text. -/
inductive GrowsTo (g : ClassGraph) : ClassGraph → Prop
  | refl : GrowsTo g g
  | addClass {h : ClassGraph} (earlier : GrowsTo g h) (name : BinaryName) (superclass : Option Class)
      (flags : ClassFlags) : GrowsTo g (h.addClass name superclass flags).2
  | addInterface {h : ClassGraph} (earlier : GrowsTo g h) (c i : Class) (count : Nat) :
      GrowsTo g (h.addInterface c i count)
  | addField {h : ClassGraph} (earlier : GrowsTo g h) (owner : Class) (name : UnqualifiedName)
      (type : ValueType) (flags : FieldFlags) : GrowsTo g (h.addField owner name type flags).2
  | addMethod {h : ClassGraph} (earlier : GrowsTo g h) (owner : Class) (name : UnqualifiedName)
      (descriptor : MethodDescriptor Class) (flags : MethodFlags) (named : descriptor.HasNoSemicolon) :
      GrowsTo g (h.addMethod owner name descriptor flags).2

theorem GrowsTo.trans {g h k : ClassGraph} (hg : g.GrowsTo h) (hk : h.GrowsTo k) : g.GrowsTo k := by
  induction hk with
  | refl => exact hg
  | addClass _ name superclass flags ih => exact ih.addClass name superclass flags
  | addInterface _ c i count ih => exact ih.addInterface c i count
  | addField _ owner name type flags ih => exact ih.addField owner name type flags
  | addMethod _ owner name descriptor flags named ih =>
      exact ih.addMethod owner name descriptor flags named

/-- A class of the graph lists its methods under different keys, and the classes in their descriptors
have names without semicolons. -/
structure ListsOnce (g : ClassGraph) (c : Class) : Prop where
  present : (g.entry? c).isSome
  distinct : ∀ m ∈ g.methods c, ∀ k ∈ g.methods c, m.key = k.key → m = k
  named : ∀ m ∈ g.methods c, m.descriptor.HasNoSemicolon

namespace ListsOnce

variable {g h : ClassGraph} {c : Class}

/-- The same list in another graph. -/
theorem of_methods_eq (hg : g.ListsOnce c) (hpresent : (h.entry? c).isSome)
    (hmethods : h.methods c = g.methods c) : h.ListsOnce c where
  present := hpresent
  distinct := by rw [hmethods]; exact hg.distinct
  named := by rw [hmethods]; exact hg.named

/-- The list with one more method, under a new key. -/
theorem of_methods_concat (hg : g.ListsOnce c) (hpresent : (h.entry? c).isSome) {m : Method}
    (hmethods : h.methods c = g.methods c ++ [m]) (hnamed : m.descriptor.HasNoSemicolon)
    (hfresh : ∀ k ∈ g.methods c, k.key ≠ m.key) : h.ListsOnce c := by
  have hcases : ∀ k ∈ h.methods c, k ∈ g.methods c ∨ k = m := by
    intro k hk
    rw [hmethods] at hk
    simpa using hk
  refine ⟨hpresent, fun k hk l hl hkey => ?_, fun k hk => ?_⟩
  · rcases hcases k hk with hk | rfl
    · rcases hcases l hl with hl | rfl
      · exact hg.distinct k hk l hl hkey
      · exact absurd hkey (hfresh k hk)
    · rcases hcases l hl with hl | rfl
      · exact absurd hkey.symm (hfresh l hl)
      · rfl
  · rcases hcases k hk with hk | rfl
    · exact hg.named k hk
    · exact hnamed

/-- Whatever class a method is added to, no class lists two methods under one key. -/
theorem addMethod (hg : g.ListsOnce c) (owner : Class) (name : UnqualifiedName)
    {descriptor : MethodDescriptor Class} (flags : MethodFlags) (hnamed : descriptor.HasNoSemicolon) :
    (g.addMethod owner name descriptor flags).2.ListsOnce c := by
  rcases g.addMethod_cases owner name descriptor flags with
    ⟨m, -, -, heq⟩ | ⟨m, rfl, hfresh, heq⟩
  · rw [heq]
    exact hg
  · rw [heq]
    have hpresent : (ClassGraph.entry?
        (g.withMethod ⟨g.methodCount, owner, name, descriptor, flags⟩) c).isSome := by
      rw [isSome_entry?_withMethod]
      exact hg.present
    have hmethods := g.methods_withMethod ⟨g.methodCount, owner, name, descriptor, flags⟩ c
    by_cases hserial : owner.serial = c.serial ∧ (g.entry? c).isSome
    · -- the class is the owner, at least for the graph, which looks at the serial number only
      have hsame : g.methods owner = g.methods c := by
        rw [reads_methods, reads_methods, listed, listed, entry?, entry?, hserial.1]
      rw [hsame] at hfresh
      rw [if_pos hserial] at hmethods
      exact hg.of_methods_concat hpresent hmethods hnamed hfresh
    · rw [if_neg hserial] at hmethods
      exact hg.of_methods_eq hpresent hmethods

end ListsOnce

namespace GrowsTo

variable {g h : ClassGraph} {c : Class}

/-- **However the graph grows**, no class lists two methods under one key. -/
theorem listsOnce (hgrows : g.GrowsTo h) (hg : g.ListsOnce c) : h.ListsOnce c := by
  induction hgrows with
  | refl => exact hg
  | @addClass h _ name superclass flags ih =>
      exact ih.of_methods_eq (h.isSome_entry?_addClass ih.present)
        (reads_methods.addClass (fun _ => rfl) name flags c)
  | @addInterface h _ owner i count ih | @addField h _ owner name type flags ih =>
      refine ih.of_methods_eq ?_ (reads_methods.modifyEntry (g := h) c fun _ => rfl)
      exact (isSome_entry?_modifyEntry (g := h) c).trans ih.present
  | addMethod _ owner name descriptor flags named ih => exact ih.addMethod owner name flags named

/-- **What is listed stays listed.** -/
theorem mem_methods (hgrows : g.GrowsTo h) {m : Method} (hm : m ∈ g.methods c) :
    m ∈ h.methods c := by
  induction hgrows with
  | refl => exact hm
  | @addClass h _ name superclass flags ih => rwa [reads_methods.addClass fun _ => rfl]
  | @addInterface h _ owner i count ih | @addField h _ owner name type flags ih =>
      refine (congrArg (m ∈ ·) ?_).mpr ih
      exact reads_methods.modifyEntry (g := h) c fun _ => rfl
  | @addMethod h _ owner name descriptor flags named ih =>
      rcases h.addMethod_cases owner name descriptor flags with
        ⟨k, -, -, heq⟩ | ⟨k, rfl, -, heq⟩
      · rw [heq]
        exact ih
      · rw [heq, methods_withMethod]
        split
        · exact List.mem_append_left _ ih
        · exact ih

end GrowsTo

end ClassGraph

end JvmCodegen
