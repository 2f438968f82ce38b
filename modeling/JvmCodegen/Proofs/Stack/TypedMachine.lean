/-
**The typed operand stack.**

The virtual machine checks code by running it on the types of values in place of the values.  Truth
values, characters and the small numbers are one type there, and a reference has the type that it is
known to have.  An instruction demands certain values on top of the stack and replaces them by others;
where they are not there, the code is not well typed.

Running code on types says more than counting slots: what lies below the values that an instruction
demands plays no part, and the height of the stack changes as it does when slots are counted.

Main definitions:

* `Stack.StackType`, `Stack.StackType.fits` — the types of values on the stack, and where they can be
  used;
* `Stack.Demand`, `Instruction.demands`, `Instruction.results` — what an instruction takes and leaves;
* `Stack.TypedMachine.step`, `Stack.TypedMachine.run` — running code on types.

Main results:

* `Stack.StackType.fits_ofType` — a value of a type can be used where the type is expected;
* `Stack.TypedMachine.step_frame`, `Stack.TypedMachine.run_frame` — **code does not touch what lies
  below**;
* `Stack.TypedMachine.slots_step`, `Stack.TypedMachine.slots_run` — **the height changes as counted**.
-/

import JvmCodegen.ClassGraph.Subtyping
import JvmCodegen.Proofs.Stack.Height
import JvmCodegen.Stack.Emission

set_option relaxedAutoImplicit false
set_option autoImplicit false

namespace JvmCodegen

/-! ### Subtyping is reflexive -/

namespace ClassGraph

theorem isSubclass_refl (g : ClassGraph) (c : Class) : g.isSubclass c c = true := by
  unfold isSubclass
  split
  · rfl
  · rw [search, if_pos rfl]

theorem isSubtype_refl (g : ClassGraph) (r : RefType Class) : g.isSubtype r r = true := by
  cases r with
  | object c => exact g.isSubclass_refl c
  | objectArray n c => simp [isSubtype, g.isSubclass_refl c]
  | primitiveArray n p => simp [isSubtype]

end ClassGraph

namespace Stack

/-! ### The types of values -/

/-- The type of a value on the operand stack. Truth values, characters and the small numbers are
`int`s. -/
inductive StackType
  | int
  | long
  | float
  | double
  | null
  | ref (type : RefType Class)
deriving DecidableEq

namespace StackType

/-- The type that a value of a type has on the stack. -/
def ofType : ValueType → StackType
  | .primitive .long => long
  | .primitive .float => float
  | .primitive .double => double
  | .primitive _ => int
  | .reference r => ref r

/-- The kind of a value. -/
def kind : StackType → ValueKind
  | int => .int
  | long => .long
  | float => .float
  | double => .double
  | null | ref _ => .reference

/-- The number of slots of a value. -/
def slots (v : StackType) : Nat := v.kind.slots

/-- Every value takes some room. -/
theorem slots_pos (v : StackType) : 0 < v.slots := by cases v <;> exact Nat.zero_lt_succ _

/-- The value is an array of references, or it is null. -/
def isReferenceArray : StackType → Bool
  | null | ref (.objectArray _ _) | ref (.primitiveArray (_ + 1) _) => true
  | _ => false

/-- The value can be used where a value of the type is expected. -/
def fits (g : ClassGraph) : StackType → ValueType → Bool
  | ref r, .reference target => g.isSubtype r target
  | null, .reference _ => true
  | v, t => v == ofType t

@[simp] theorem kind_ofType (t : ValueType) : (ofType t).kind = ValueKind.ofType t := by
  cases t with
  | primitive p => cases p <;> rfl
  | reference r => rfl

@[simp] theorem slots_ofType (t : ValueType) : (ofType t).slots = t.slots := by
  rw [slots, kind_ofType, ValueKind.slots_ofType]

theorem slots_of_kind_eq {v : StackType} {kind : ValueKind} (h : (v.kind == kind) = true) :
    v.slots = kind.slots := by rw [slots, beq_iff_eq.1 h]

/-- A value of a type can be used where the type is expected. -/
@[simp] theorem fits_ofType (g : ClassGraph) (t : ValueType) : (ofType t).fits g t = true := by
  cases t with
  | primitive p => cases p <;> rfl
  | reference r => exact g.isSubtype_refl r

/-- A value that can be used takes the room of the type. -/
theorem slots_of_fits {g : ClassGraph} {v : StackType} {t : ValueType} (h : v.fits g t = true) :
    v.slots = t.slots := by
  unfold fits at h
  split at h
  · rfl
  · rfl
  · rw [beq_iff_eq.1 h, slots_ofType]

end StackType

/-- The number of slots of all values together. -/
def stackSlots : List StackType → Nat
  | [] => 0
  | v :: stack => v.slots + stackSlots stack

@[simp] theorem stackSlots_nil : stackSlots [] = 0 := rfl

@[simp] theorem stackSlots_cons (v : StackType) (stack : List StackType) :
    stackSlots (v :: stack) = v.slots + stackSlots stack := rfl

@[simp] theorem stackSlots_append (a b : List StackType) :
    stackSlots (a ++ b) = stackSlots a + stackSlots b := by
  induction a with
  | nil => simp
  | cons v a ih => rw [List.cons_append, stackSlots_cons, stackSlots_cons, ih, Nat.add_assoc]

/-! ### Demands -/

/-- What an instruction demands of one value. -/
inductive Demand
  /-- A value that can be used where the type is expected. -/
  | type (t : ValueType)
  /-- Any reference. -/
  | reference
  /-- An array of references. -/
  | referenceArray
  /-- An array of truth values or of small numbers of one byte. -/
  | byteArray
deriving DecidableEq

namespace Demand

/-- The demand is met by a value. -/
def isMetBy (g : ClassGraph) : Demand → StackType → Bool
  | type t, v => v.fits g t
  | reference, v => v.kind == .reference
  | referenceArray, v => v.kind == .reference && v.isReferenceArray
  | byteArray, v =>
      v.fits g (.array (.primitive .byte)) || v.fits g (.array (.primitive .boolean))

/-- The room of a value that meets the demand. -/
def slots : Demand → Nat
  | type t => t.slots
  | _ => 1

theorem slots_of_isMetBy {g : ClassGraph} {d : Demand} {v : StackType} (h : d.isMetBy g v = true) :
    v.slots = d.slots := by
  cases d with
  | type t => exact StackType.slots_of_fits h
  | reference => exact StackType.slots_of_kind_eq h
  | referenceArray =>
      rw [isMetBy, Bool.and_eq_true] at h
      exact StackType.slots_of_kind_eq h.1
  | byteArray =>
      rw [isMetBy, Bool.or_eq_true] at h
      rcases h with h | h
      · exact StackType.slots_of_fits h
      · exact StackType.slots_of_fits h

/-- The room of values that meet all the demands. -/
def totalSlots : List Demand → Nat
  | [] => 0
  | d :: demands => d.slots + totalSlots demands

@[simp] theorem totalSlots_nil : totalSlots [] = 0 := rfl

@[simp] theorem totalSlots_cons (d : Demand) (demands : List Demand) :
    totalSlots (d :: demands) = d.slots + totalSlots demands := rfl

@[simp] theorem totalSlots_append (a b : List Demand) :
    totalSlots (a ++ b) = totalSlots a + totalSlots b := by
  induction a with
  | nil => simp
  | cons d a ih => rw [List.cons_append, totalSlots_cons, totalSlots_cons, ih, Nat.add_assoc]

@[simp] theorem totalSlots_reverse (demands : List Demand) :
    totalSlots demands.reverse = totalSlots demands := by
  induction demands with
  | nil => rfl
  | cons d demands ih =>
      rw [List.reverse_cons, totalSlots_append, ih, totalSlots_cons, Nat.add_comm]
      rfl

theorem totalSlots_types (types : List ValueType) :
    totalSlots (types.map .type) = (types.map FieldType.slots).foldr (· + ·) 0 := by
  induction types with
  | nil => rfl
  | cons t types ih => rw [List.map_cons, totalSlots_cons, ih, List.map_cons, List.foldr_cons, slots]

end Demand

end Stack

open Stack

/-! ### The types of an instruction -/

/-- The type of a literal. The class of method handles is not among those of the library: they are only
known to be objects. -/
def Literal.stackType : Literal → StackType
  | .text _ => .ref (.object Java.string)
  | .type _ => .ref (.object Java.classClass)
  | .int _ => .int
  | .long _ => .long
  | .float _ => .float
  | .double _ => .double
  | .methodHandle _ => .ref (.object Java.object)

namespace BareOp

/-- What an instruction without operands demands, the topmost value first. -/
def demands : BareOp → List Demand
  | iastore => [.type (.primitive .int), .type (.primitive .int), .type (.array (.primitive .int))]
  | lastore => [.type (.primitive .long), .type (.primitive .int), .type (.array (.primitive .long))]
  | fastore => [.type (.primitive .float), .type (.primitive .int), .type (.array (.primitive .float))]
  | dastore =>
      [.type (.primitive .double), .type (.primitive .int), .type (.array (.primitive .double))]
  | castore => [.type (.primitive .char), .type (.primitive .int), .type (.array (.primitive .char))]
  | sastore => [.type (.primitive .short), .type (.primitive .int), .type (.array (.primitive .short))]
  | bastore => [.type (.primitive .byte), .type (.primitive .int), .byteArray]
  | aastore => [.reference, .type (.primitive .int), .referenceArray]
  | i2l | i2f | i2d | ireturn => [.type (.primitive .int)]
  | l2f | l2d | lreturn => [.type (.primitive .long)]
  | f2d | freturn => [.type (.primitive .float)]
  | dreturn => [.type (.primitive .double)]
  | areturn => [.reference]
  | _ => []

/-- The types of the values that an instruction without operands pushes. -/
def results : BareOp → List StackType
  | aconstNull => [.null]
  | iconstM1 | iconst0 | iconst1 | iconst2 | iconst3 | iconst4 | iconst5 => [.int]
  | lconst0 | lconst1 | i2l => [.long]
  | fconst0 | fconst1 | fconst2 | i2f | l2f => [.float]
  | dconst0 | dconst1 | i2d | l2d | f2d => [.double]
  | _ => []

end BareOp

namespace FieldOp

/-- What reading or writing a field demands, the topmost value first. -/
def demands (f : Field) : FieldOp → List Demand
  | getStatic => []
  | putStatic => [.type f.type]
  | getField => [.type (.object f.owner)]
  | putField => [.type f.type, .type (.object f.owner)]

/-- The type of the value that is read. -/
def results (f : Field) : FieldOp → List StackType
  | getStatic | getField => [.ofType f.type]
  | putStatic | putField => []

end FieldOp

namespace Instruction

/-- The instructions that only move values: how many slots at the top of the stack they are about, and how
many copies of what is there they leave. -/
def copies? : SymbolicInstruction → Option (Nat × Nat)
  | .bare .pop => some (1, 0)
  | .bare .pop2 => some (2, 0)
  | .bare .dup => some (1, 2)
  | .bare .dup2 => some (2, 2)
  | _ => none

/-- The instruction and its operand belong together: what is invoked has a receiver if that is called
for, a field is one of the class or of an instance, and a literal has the room that it is given. -/
def isApt : SymbolicInstruction → Bool
  | .invoke kind m => kind.hasReceiver == !m.isStatic
  | .access op f => op.isStatic == f.isStatic
  | .ldc literal => !literal.isWide
  | .ldc2 literal => literal.isWide
  | _ => true

/-- What an instruction demands, the topmost value first. -/
def demands : SymbolicInstruction → List Demand
  | .bare op => op.demands
  | .access op f => op.demands f
  | .invoke kind m =>
      (m.descriptor.parameters.map Demand.type).reverse ++
        if kind.hasReceiver then [.type (.object m.owner)] else []
  | .newArray _ | .newRefArray _ => [.type (.primitive .int)]
  | .checkCast _ => [.reference]
  | _ => []

/-- The types of the values that an instruction pushes. -/
def results : SymbolicInstruction → List StackType
  | .bare op => op.results
  | .bipush _ | .sipush _ => [.int]
  | .ldc literal | .ldc2 literal => [literal.stackType]
  | .access op f => op.results f
  | .invoke _ m => (m.descriptor.returns.map StackType.ofType).toList
  | .newArray element => [.ofType (.array (.primitive element))]
  | .newRefArray element => [.ofType (.array (.reference element))]
  | .checkCast target => [.ref target]
  | .load _ _ => []

end Instruction

/-! ### The machine -/

namespace Stack.TypedMachine

/-- The types of local variables, by the slots where they begin. -/
abbrev Frame := UInt16 → Option StackType

/-- The stack without the values that meet the demands. -/
def take (g : ClassGraph) : List Demand → List StackType → Option (List StackType)
  | [], stack => some stack
  | d :: demands, v :: stack => if d.isMetBy g v then take g demands stack else none
  | _ :: _, [] => none

/-- The topmost values that have so many slots together, and what lies below them. A value of two slots
cannot be split. -/
def split : Nat → List StackType → Option (List StackType × List StackType)
  | 0, stack => some ([], stack)
  | _ + 1, [] => none
  | n + 1, v :: stack =>
      if v.slots ≤ n + 1 then
        (split (n + 1 - v.slots) stack).map fun (top, rest) => (v :: top, rest)
      else none

/-- The values that an instruction pushes, if it fits its operand. -/
def pushes (frame : Frame) : SymbolicInstruction → Option (List StackType)
  | .load kind slot => ((frame slot).filter (·.kind == kind)).map fun v => [v]
  | i => if i.isApt then some i.results else none

/-- **One instruction**, on the types of the values on the stack. -/
def step (g : ClassGraph) (frame : Frame) (i : SymbolicInstruction) (stack : List StackType) :
    Option (List StackType) :=
  match i.copies? with
  | some (n, copies) =>
      (split n stack).map fun (top, rest) => (List.replicate copies top).flatten ++ rest
  | none => (pushes frame i).bind fun pushed => (take g i.demands stack).map (pushed ++ ·)

/-- **The instructions of a list**, one after the other. -/
def run (g : ClassGraph) (frame : Frame) : List SymbolicInstruction → List StackType →
    Option (List StackType)
  | [], stack => some stack
  | i :: code, stack => (step g frame i stack).bind (run g frame code)

variable {g : ClassGraph} {frame : Frame}

theorem run_singleton (i : SymbolicInstruction) (stack : List StackType) :
    run g frame [i] stack = step g frame i stack := by
  rw [run]
  cases step g frame i stack <;> rfl

theorem run_append (code more : List SymbolicInstruction) (stack : List StackType) :
    run g frame (code ++ more) stack = (run g frame code stack).bind (run g frame more) := by
  induction code generalizing stack with
  | nil => rfl
  | cons i code ih =>
      rw [List.cons_append, run, run]
      cases step g frame i stack with
      | none => rfl
      | some stack' => exact ih stack'

/-! ### What lies below -/

theorem take_frame {demands : List Demand} {stack stack' : List StackType}
    (h : take g demands stack = some stack') (rest : List StackType) :
    take g demands (stack ++ rest) = some (stack' ++ rest) := by
  induction demands generalizing stack with
  | nil =>
      cases h
      rfl
  | cons d demands ih =>
      cases stack with
      | nil => cases h
      | cons v stack =>
          rw [take] at h
          rw [List.cons_append, take]
          split at h
          case isTrue hmet =>
              rw [if_pos hmet]
              exact ih h
          case isFalse => cases h

@[simp] theorem split_zero (stack : List StackType) : split 0 stack = some ([], stack) := by
  rw [split]

/-- Types on top of the stack are those in as many slots as they have together. -/
theorem split_append (types rest : List StackType) :
    split (stackSlots types) (types ++ rest) = some (types, rest) := by
  induction types with
  | nil => exact split_zero rest
  | cons v types ih =>
      obtain ⟨n, hn⟩ := Nat.exists_eq_add_of_lt v.slots_pos
      have hroom : stackSlots (v :: types) = n + stackSlots types + 1 := by
        rw [stackSlots_cons, hn]
        omega
      have hrest : n + stackSlots types + 1 - v.slots = stackSlots types := by omega
      rw [hroom, List.cons_append, split, if_pos (by omega), hrest, ih]
      rfl

theorem split_frame {n : Nat} {stack top below : List StackType}
    (h : split n stack = some (top, below)) (rest : List StackType) :
    split n (stack ++ rest) = some (top, below ++ rest) := by
  -- on the stack, with the number of slots that are still to be taken
  induction stack generalizing n top with
  | nil =>
      cases n with
      | zero =>
          cases h
          rw [split_zero, List.nil_append]
      | succ n => cases h
  | cons v stack ih =>
      cases n with
      | zero =>
          cases h
          rw [split_zero]
      | succ n =>
          rw [split] at h
          rw [List.cons_append, split]
          split at h
          case isTrue hroom =>
              obtain ⟨⟨top', below'⟩, hsplit, heq⟩ := Option.map_eq_some_iff.1 h
              cases heq
              rw [if_pos hroom, ih hsplit]
              rfl
          case isFalse => cases h

/-- **What an instruction can do.** It leaves copies of what is on top, or takes what it demands and
pushes its results. -/
theorem step_cases {i : SymbolicInstruction} {stack stack' : List StackType}
    (h : step g frame i stack = some stack') :
    (∃ n copies top rest, i.copies? = some (n, copies) ∧ split n stack = some (top, rest) ∧
      stack' = (List.replicate copies top).flatten ++ rest) ∨
    i.copies? = none ∧ ∃ pushed rest, pushes frame i = some pushed ∧
      take g i.demands stack = some rest ∧ stack' = pushed ++ rest := by
  unfold step at h
  cases hcopies : i.copies? with
  | some room =>
      rw [hcopies] at h
      obtain ⟨⟨top, rest⟩, hsplit, rfl⟩ := Option.map_eq_some_iff.1 h
      exact .inl ⟨room.1, room.2, top, rest, rfl, hsplit, rfl⟩
  | none =>
      rw [hcopies] at h
      obtain ⟨pushed, hpushes, htake⟩ := Option.bind_eq_some_iff.1 h
      obtain ⟨rest, hrest, rfl⟩ := Option.map_eq_some_iff.1 htake
      exact .inr ⟨rfl, pushed, rest, hpushes, hrest, rfl⟩

theorem step_of_split {i : SymbolicInstruction} {n copies : Nat} (hcopies : i.copies? = some (n, copies))
    {stack top rest : List StackType} (hsplit : split n stack = some (top, rest)) :
    step g frame i stack = some ((List.replicate copies top).flatten ++ rest) := by
  simp only [step, hcopies, hsplit, Option.map_some]

theorem step_of_take {i : SymbolicInstruction} (hcopies : i.copies? = none)
    {stack pushed rest : List StackType} (hpushes : pushes frame i = some pushed)
    (htake : take g i.demands stack = some rest) :
    step g frame i stack = some (pushed ++ rest) := by
  simp only [step, hcopies, hpushes, htake, Option.bind_some, Option.map_some]

/-- **An instruction does not touch what lies below the values that it demands.** -/
theorem step_frame {i : SymbolicInstruction} {stack stack' : List StackType}
    (h : step g frame i stack = some stack') (rest : List StackType) :
    step g frame i (stack ++ rest) = some (stack' ++ rest) := by
  rcases step_cases h with ⟨n, copies, top, below, hcopies, hsplit, rfl⟩ |
    ⟨hcopies, pushed, below, hpushes, htake, rfl⟩
  · rw [step_of_split hcopies (split_frame hsplit rest), List.append_assoc]
  · rw [step_of_take hcopies hpushes (take_frame htake rest), List.append_assoc]

/-- **Code does not touch what lies below.** -/
theorem run_frame {code : List SymbolicInstruction} {stack stack' : List StackType}
    (h : run g frame code stack = some stack') (rest : List StackType) :
    run g frame code (stack ++ rest) = some (stack' ++ rest) := by
  induction code generalizing stack with
  | nil =>
      cases h
      rfl
  | cons i code ih =>
      rw [run, Option.bind_eq_some_iff] at h
      obtain ⟨next, hstep, hrun⟩ := h
      rw [run, step_frame hstep rest]
      exact ih hrun

/-! ### The height of the stack -/

theorem slots_take {demands : List Demand} {stack rest : List StackType}
    (h : take g demands stack = some rest) :
    stackSlots stack = Demand.totalSlots demands + stackSlots rest := by
  induction demands generalizing stack with
  | nil =>
      cases h
      simp
  | cons d demands ih =>
      cases stack with
      | nil => cases h
      | cons v stack =>
          rw [take] at h
          split at h
          case isTrue hmet =>
              have hslots := Demand.slots_of_isMetBy hmet
              have htail := ih h
              simp only [stackSlots_cons, Demand.totalSlots_cons]
              omega
          case isFalse => cases h

theorem slots_split {n : Nat} {stack top rest : List StackType}
    (h : split n stack = some (top, rest)) : stackSlots top = n ∧ stack = top ++ rest := by
  induction stack generalizing n top with
  | nil =>
      cases n with
      | zero =>
          cases h
          exact ⟨rfl, rfl⟩
      | succ n => cases h
  | cons v stack ih =>
      cases n with
      | zero =>
          cases h
          exact ⟨rfl, rfl⟩
      | succ n =>
          rw [split] at h
          split at h
          case isTrue hroom =>
              obtain ⟨⟨top', rest'⟩, hsplit, heq⟩ := Option.map_eq_some_iff.1 h
              cases heq
              obtain ⟨hslots, rfl⟩ := ih hsplit
              refine ⟨?_, rfl⟩
              rw [stackSlots_cons, hslots]
              omega
          case isFalse => cases h

/-- What an instruction demands takes the room that it pops. -/
theorem slots_demands {i : SymbolicInstruction} (h : i.copies? = none) :
    Demand.totalSlots i.demands = i.slotEffect.popped := by
  cases i with
  | bare op => cases op <;> first | rfl | cases h
  | bipush | sipush | ldc | ldc2 | load | newArray | newRefArray | checkCast => rfl
  | access op f =>
      cases op with
      | getStatic => rfl
      | putStatic => exact Nat.add_zero _
      | getField => rfl
      | putField => exact Nat.add_comm _ _
  | invoke kind m =>
      -- the last parameter is on top, but the room does not depend on the order
      rw [Instruction.demands, Demand.totalSlots_append, Demand.totalSlots_reverse,
        Demand.totalSlots_types, Instruction.slotEffect, MethodDescriptor.parameterSlots]
      cases kind.hasReceiver with
      | true => exact Nat.add_comm _ _
      | false => exact (Nat.zero_add _).symm

/-- What an instruction leaves takes the room that it pushes. -/
theorem slots_pushes {i : SymbolicInstruction} (h : i.copies? = none) {pushed : List StackType}
    (hpushes : pushes frame i = some pushed) : stackSlots pushed = i.slotEffect.pushed := by
  cases i with
  | load kind slot =>
      obtain ⟨v, hv, rfl⟩ := Option.map_eq_some_iff.1 hpushes
      obtain ⟨-, hkind⟩ := Option.filter_eq_some_iff.1 hv
      rw [stackSlots_cons, StackType.slots_of_kind_eq hkind]
      rfl
  | bare op =>
      cases hpushes
      cases op <;> first | rfl | cases h
  | bipush | sipush | newArray | newRefArray | checkCast =>
      cases hpushes
      rfl
  | ldc literal | ldc2 literal =>
      obtain ⟨hwide, rfl⟩ := Option.ite_some_none_eq_some.1 hpushes
      cases literal <;> first | rfl | cases hwide
  | access op f =>
      obtain ⟨-, rfl⟩ := Option.ite_some_none_eq_some.1 hpushes
      cases op <;> simp [Instruction.results, FieldOp.results, Instruction.slotEffect, FieldOp.slotEffect]
  | invoke kind m =>
      obtain ⟨-, rfl⟩ := Option.ite_some_none_eq_some.1 hpushes
      rw [Instruction.results, Instruction.slotEffect]
      cases m.descriptor.returns with
      | none => rfl
      | some t => simp [SlotCount.ofResult]

theorem slots_flatten (copies : Nat) (top : List StackType) :
    stackSlots (List.replicate copies top).flatten = copies * stackSlots top := by
  induction copies with
  | zero => simp
  | succ copies ih =>
      rw [List.replicate_succ, List.flatten_cons, stackSlots_append, ih, Nat.succ_mul, Nat.add_comm]

/-- The instructions that move values change the height by whole copies. -/
theorem net_of_copies {i : SymbolicInstruction} {n copies : Nat} (h : i.copies? = some (n, copies)) :
    i.slotEffect.net = copies * n - n := by
  unfold Instruction.copies? at h
  split at h <;> cases h <;> rfl

/-- **An instruction changes the height of the stack as counted.** -/
theorem slots_step {i : SymbolicInstruction} {stack stack' : List StackType}
    (h : step g frame i stack = some stack') :
    (stackSlots stack' : Int) = stackSlots stack + i.slotEffect.net := by
  rcases step_cases h with ⟨n, copies, top, rest, hcopies, hsplit, rfl⟩ |
    ⟨hcopies, pushed, rest, hpushes, htake, rfl⟩
  · obtain ⟨hroom, rfl⟩ := slots_split hsplit
    rw [stackSlots_append, stackSlots_append, slots_flatten, hroom, net_of_copies hcopies]
    push_cast
    omega
  · have hpopped := slots_take htake
    rw [slots_demands hcopies] at hpopped
    rw [stackSlots_append, slots_pushes hcopies hpushes, SlotEffect.net]
    omega

/-- **Code changes the height of the stack as counted.** -/
theorem slots_run {code : List SymbolicInstruction} {stack stack' : List StackType}
    (h : run g frame code stack = some stack') :
    (stackSlots stack' : Int) = stackSlots stack + netHeight code := by
  induction code generalizing stack with
  | nil =>
      cases h
      simp
  | cons i code ih =>
      rw [run, Option.bind_eq_some_iff] at h
      obtain ⟨next, hstep, hrun⟩ := h
      rw [ih hrun, slots_step hstep, netHeight_cons]
      omega

end Stack.TypedMachine

end JvmCodegen
