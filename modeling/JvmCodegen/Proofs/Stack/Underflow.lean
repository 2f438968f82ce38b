/-
**Running out of the operand stack.**

The height after a list of instructions is a sum, and says nothing about the way there: code that
pops first and pushes afterwards has a sum too.  Here the instructions are run from a height that is
known, and the run breaks off where one of them pops more slots than the stack holds.  How high the
stack has to be for the instructions to run through is a second sum, taken from the end.

Main definitions:

* `Stack.runHeight` — the height after the instructions, unless the run breaks off;
* `Stack.neededHeight` — the least height from which the instructions run through;
* `Stack.BreaksOffAt` — the place where the run breaks off.

Main results:

* `Stack.runHeight_append` — one list of instructions after another;
* `Stack.eq_netHeight_of_runHeight` — a run that gets through ends where the sum says;
* `Stack.runHeight_of_neededHeight_le`, `Stack.runHeight_of_lt_neededHeight` — **a run gets through
  exactly from the heights that are high enough**;
* `Stack.exists_breaksOffAt` — a run that does not get through breaks off at an instruction.
-/

import JvmCodegen.Proofs.Stack.Height

set_option relaxedAutoImplicit false
set_option autoImplicit false

namespace JvmCodegen.Stack

/-! ### Runs -/

/-- The height after the instructions, from a height on. There is none if one of them pops more slots
than the stack holds. -/
def runHeight : Nat → List SymbolicInstruction → Option Nat
  | height, [] => some height
  | height, i :: code =>
      if i.slotEffect.popped ≤ height then
        runHeight (height - i.slotEffect.popped + i.slotEffect.pushed) code
      else none

/-- The least height from which no instruction pops more slots than the stack holds. What an
instruction pushes is there for those after it. -/
def neededHeight : List SymbolicInstruction → Nat
  | [] => 0
  | i :: code => i.slotEffect.popped + (neededHeight code - i.slotEffect.pushed)

variable {height last : Nat} {i : SymbolicInstruction} {code : List SymbolicInstruction}

@[simp] theorem runHeight_nil (height : Nat) : runHeight height [] = some height := rfl

theorem runHeight_cons_of_le (h : i.slotEffect.popped ≤ height) :
    runHeight height (i :: code) =
      runHeight (height - i.slotEffect.popped + i.slotEffect.pushed) code := by
  rw [runHeight, if_pos h]

theorem runHeight_cons_of_lt (h : height < i.slotEffect.popped) :
    runHeight height (i :: code) = none := by
  rw [runHeight, if_neg (by omega)]

@[simp] theorem neededHeight_nil : neededHeight [] = 0 := rfl

@[simp] theorem neededHeight_cons (i : SymbolicInstruction) (code : List SymbolicInstruction) :
    neededHeight (i :: code) = i.slotEffect.popped + (neededHeight code - i.slotEffect.pushed) := rfl

/-- The second list is run from where the first one ends. -/
theorem runHeight_append (height : Nat) (a b : List SymbolicInstruction) :
    runHeight height (a ++ b) = (runHeight height a).bind fun height => runHeight height b := by
  induction a generalizing height with
  | nil => simp
  | cons i a ih =>
      by_cases h : i.slotEffect.popped ≤ height
      · rw [List.cons_append, runHeight_cons_of_le h, runHeight_cons_of_le h, ih]
      · rw [List.cons_append, runHeight_cons_of_lt (by omega), runHeight_cons_of_lt (by omega)]
        rfl

/-- A run that gets through ends where the sum of the instructions says. -/
theorem eq_netHeight_of_runHeight (h : runHeight height code = some last) :
    (last : Int) = height + netHeight code := by
  induction code generalizing height with
  | nil =>
      cases h
      simp
  | cons i code ih =>
      by_cases hi : i.slotEffect.popped ≤ height
      · rw [runHeight_cons_of_le hi] at h
        have hrest := ih h
        simp only [netHeight_cons, SlotEffect.net]
        omega
      · rw [runHeight_cons_of_lt (by omega)] at h
        cases h

/-! ### How high the stack has to be -/

/-- A run from a height that is high enough gets through. -/
theorem exists_runHeight_of_neededHeight_le (h : neededHeight code ≤ height) :
    ∃ last, runHeight height code = some last := by
  induction code generalizing height with
  | nil => exact ⟨height, rfl⟩
  | cons i code ih =>
      rw [neededHeight_cons] at h
      rw [runHeight_cons_of_le (by omega)]
      exact ih (by omega)

/-- **A run from a height that is high enough gets through**, and ends where the sum says. -/
theorem runHeight_of_neededHeight_le (h : neededHeight code ≤ height) :
    runHeight height code = some (height + netHeight code).toNat := by
  obtain ⟨last, hlast⟩ := exists_runHeight_of_neededHeight_le h
  have hnet := eq_netHeight_of_runHeight hlast
  rw [hlast, ← hnet, Int.toNat_natCast]

/-- **A run from any other height breaks off.** -/
theorem runHeight_of_lt_neededHeight (h : height < neededHeight code) :
    runHeight height code = none := by
  induction code generalizing height with
  | nil => simp at h
  | cons i code ih =>
      rw [neededHeight_cons] at h
      by_cases hi : i.slotEffect.popped ≤ height
      · rw [runHeight_cons_of_le hi]
        exact ih (by omega)
      · exact runHeight_cons_of_lt (by omega)

/-! ### Where a run breaks off -/

/-- The instruction pops more slots than the stack holds at that point, after those before it. -/
structure BreaksOffAt (height : Nat) (code before : List SymbolicInstruction)
    (i : SymbolicInstruction) : Prop where
  isPrefix : before ++ [i] <+: code
  underflow : ∃ there, runHeight height before = some there ∧ there < i.slotEffect.popped

/-- A run that does not get through breaks off at one of the instructions. -/
theorem exists_breaksOffAt (h : runHeight height code = none) :
    ∃ before i, BreaksOffAt height code before i := by
  induction code generalizing height with
  | nil => cases h
  | cons i code ih =>
      by_cases hi : i.slotEffect.popped ≤ height
      · rw [runHeight_cons_of_le hi] at h
        obtain ⟨before, j, hbefore, there, hthere, hlt⟩ := ih h
        refine ⟨i :: before, j, ?_, there, ?_, hlt⟩
        · exact List.cons_prefix_cons.2 ⟨rfl, hbefore⟩
        · rw [runHeight_cons_of_le hi, hthere]
      · exact ⟨[], i, by simp, height, rfl, by omega⟩

/-- Where a run breaks off, it does not get through. -/
theorem BreaksOffAt.runHeight_eq_none {before : List SymbolicInstruction}
    (h : BreaksOffAt height code before i) : runHeight height code = none := by
  obtain ⟨⟨after, rfl⟩, there, hthere, hlt⟩ := h
  rw [runHeight_append, runHeight_append, hthere, Option.bind_some, runHeight_cons_of_lt hlt]
  rfl

end JvmCodegen.Stack
