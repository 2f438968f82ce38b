/-
**Lists addressed by offset.**

The constants of a class file are not counted one by one: an eight-byte constant takes up two
places.  An offset list gives each element the offset at which it begins, which is the starting
offset plus the widths of the elements before it, and finds an element again by that offset.

Main definitions:

* `HasWidth` — the number of places that an element takes up;
* `OffsetList`, `OffsetList.startingAt`, `OffsetList.push` — the lists;
* `OffsetList.add`, `OffsetList.addEach` — pushes that tell where their elements begin;
* `OffsetList.get?` — the element at an offset, by binary search.

Main results: `OffsetList.next_push`, `OffsetList.toList_push` — what a push does.
-/

set_option relaxedAutoImplicit false
set_option autoImplicit false

namespace JvmCodegen

/-- Elements that take up a number of places. -/
class HasWidth (α : Type) where
  width : α → Nat

export HasWidth (width)

/-- Elements with the offsets at which they begin, and the offset of the next element. -/
structure OffsetList (α : Type) where
  entries : Array (Nat × α)
  next : Nat

namespace OffsetList

variable {α : Type}

/-- The empty list whose first element will begin at `offset`. -/
def startingAt (offset : Nat) : OffsetList α := ⟨#[], offset⟩

/-- The number of elements. -/
def size (xs : OffsetList α) : Nat := xs.entries.size

/-- The elements with their offsets, in the order in which they were pushed. -/
def toList (xs : OffsetList α) : List (Nat × α) := xs.entries.toList

/-- The list with one more element, which begins at `xs.next`. -/
def push [HasWidth α] (xs : OffsetList α) (x : α) : OffsetList α :=
  ⟨xs.entries.push (xs.next, x), xs.next + width x⟩

/-- Push an element. The answer is the offset at which it begins. -/
def add [HasWidth α] (xs : OffsetList α) (x : α) : Nat × OffsetList α := (xs.next, xs.push x)

/-- Push the elements of a list one after the other. The answers are their offsets, in order. -/
def addEach [HasWidth α] (xs : OffsetList α) : List α → List Nat × OffsetList α
  | [] => ([], xs)
  | x :: rest =>
      let (offset, pushed) := xs.add x
      let (offsets, pushed) := pushed.addEach rest
      (offset :: offsets, pushed)

/-- The element that begins at `offset` between the places `lo` and `hi`, by halving. -/
def search (entries : Array (Nat × α)) (offset lo hi : Nat) : Option α :=
  if lo < hi then
    let mid := (lo + hi) / 2
    match entries[mid]? with
    | none => none
    | some (here, x) =>
        if here = offset then some x
        else if here < offset then search entries offset (mid + 1) hi
        else search entries offset lo mid
  else none
termination_by hi - lo

/-- The element that begins at an offset, if one does. -/
def get? (xs : OffsetList α) (offset : Nat) : Option α :=
  search xs.entries offset 0 xs.entries.size

@[simp] theorem toList_startingAt (offset : Nat) :
    (startingAt offset : OffsetList α).toList = [] := rfl

@[simp] theorem next_startingAt (offset : Nat) :
    (startingAt offset : OffsetList α).next = offset := rfl

@[simp] theorem next_push [HasWidth α] (xs : OffsetList α) (x : α) :
    (xs.push x).next = xs.next + width x := rfl

@[simp] theorem toList_push [HasWidth α] (xs : OffsetList α) (x : α) :
    (xs.push x).toList = xs.toList ++ [(xs.next, x)] := by
  simp [toList, push]

end OffsetList

end JvmCodegen
