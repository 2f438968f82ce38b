/-
**Subtyping.**

A value of one reference type can be stored where another is expected if the first type lies
below the second.  Between classes this is a search along superclasses, and along interfaces too
where an interface is looked for; the lists of interfaces may run in circles, so the search
remembers which classes it has not yet been to.  Arrays are covariant, and lie below the few
classes that every array lies below.

Main definitions:

* `ClassGraph.search` — depth-first search upwards from some classes;
* `ClassGraph.isSubclass` — the relation between classes;
* `ClassGraph.isSubtype` — the relation between reference types.
-/

import JvmCodegen.ClassGraph

set_option relaxedAutoImplicit false
set_option autoImplicit false

namespace JvmCodegen.ClassGraph

/-! ### Classes -/

/-- The classes of the graph, in the order in which they were added. -/
def classes (g : ClassGraph) : List Class := g.entries.toList.map (·.declared)

/-- The classes one step above a class. -/
def above (g : ClassGraph) (viaInterfaces : Bool) (c : Class) : List Class :=
  (g.superclass? c).toList ++ if viaInterfaces then g.interfaces c else []

/-- Depth-first search for `target` from the pending classes upwards. A class that is not among the
unvisited ones has been to before, and is not gone on from. -/
def search (g : ClassGraph) (viaInterfaces : Bool) (target : Class) :
    List Class → List Class → Bool
  | [], _ => false
  | c :: pending, unvisited =>
      if c = target then true
      else if c ∈ unvisited then
        search g viaInterfaces target (g.above viaInterfaces c ++ pending) (unvisited.erase c)
      else search g viaInterfaces target pending unvisited
termination_by pending unvisited => (unvisited.length, pending.length)
decreasing_by
  · rename_i h
    have := List.length_erase_of_mem h
    have := List.length_pos_of_mem h
    exact Prod.Lex.left _ _ (by omega)
  · exact Prod.Lex.right _ (by simp)

/-- Every class lies below a class without a superclass that is not an interface. Otherwise the
class is looked for among those above, with interfaces only where it is one. -/
def isSubclass (g : ClassGraph) (sub sup : Class) : Bool :=
  if (g.superclass? sup).isNone && !sup.isInterface then true
  else g.search sup.isInterface sup [sub] g.classes

/-! ### Reference types -/

/-- The names of the classes that every array lies below. -/
def isAboveArrays (name : BinaryName) : Bool :=
  name.text == "java/lang/Object" || name.text == "java/lang/Cloneable"
    || name.text == "java/io/Serializable"

/-- **A value of the first type can be stored where the second is expected.** -/
def isSubtype (g : ClassGraph) : RefType Class → RefType Class → Bool
  | .object sub, .object sup => g.isSubclass sub sup
  | .object _, _ => false
  | _, .object sup => isAboveArrays sup.name
  | .primitiveArray m sub, .primitiveArray n sup => m == n && sub == sup
  | .objectArray m sub, .objectArray n sup =>
      if m < n then false
      else if m = n then g.isSubclass sub sup
      else isAboveArrays sup.name
  | .primitiveArray m _, .objectArray n sup => decide (n < m) && isAboveArrays sup.name
  | .objectArray _ _, .primitiveArray _ _ => false

end JvmCodegen.ClassGraph
