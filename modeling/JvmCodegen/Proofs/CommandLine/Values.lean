/-
**The values of the command line are constants of their types.**

A type word and a literal are read as a type and an operation that pushes a constant.  The type decides
how the constant is returned, and in which field it is kept if it is cached, but it is not looked at where
the constant is pushed.  What is read is a constant of its type, for every text.

Main definitions:

* `Instruction.IsModest` — the instruction is fit for every version and every frame;
* `Stack.Operation.IsConstantOf` — the operation pushes a constant of the type;
* `ConstantMethod.IsTyped` — the value of the method is a constant of its type;
* `ConstantMethod.Pushes` — how a method comes by its value: it computes the value, or it reads the field
  of the cached constant, which may be a new one;
* `Stack.Registration.IsConstant` — the field of a cached constant has the type of the constant.

Main results:

* `CommandLine.isTyped_of_readValue` — **what is read is a constant of its type**;
* `CommandLine.of_readValue_eq_error` — a text that is refused leaves the class graph alone;
* `CommandLine.emit_constantBody` — **the body of the method pushes the value and returns it**;
* `ConstantMethod.Pushes.step`, `Stack.Registration.IsConstant.emit_initializer` — the value has the
  type, and computing it into its field leaves the stack as it was.
-/

import JvmCodegen.CommandLine
import JvmCodegen.Proofs.Stack.Initialization
import JvmCodegen.Proofs.Stack.NumberInstructions
import JvmCodegen.Proofs.Stack.TypedMachine

set_option relaxedAutoImplicit false
set_option autoImplicit false

namespace JvmCodegen

open Stack Stack.ConstantCache Stack.TypedMachine

/-! ### Constants -/

/-- The instruction loads no method handle, which not all versions know, and reaches for no local
variable. -/
structure Instruction.IsModest (i : SymbolicInstruction) : Prop where
  noHandle : ClassDraft.loadsMethodHandle i = false
  noLocal : i.local? = none

/-- The instruction for a number pushes it on what lies below, and is fit for every version and every
frame. -/
theorem Stack.PushesNumber.pushes {type : Primitive} {i : SymbolicInstruction} (h : PushesNumber type i) :
    i.IsModest ∧ ∀ (g : ClassGraph) (frame : Frame) (stack : List StackType),
      step g frame i stack = some (StackType.ofType (.primitive type) :: stack) := by
  cases h with
  | @short type op h => cases op <;> cases h <;> exact ⟨⟨rfl, rfl⟩, fun g frame stack => rfl⟩
  | _ => exact ⟨⟨rfl, rfl⟩, fun g frame stack => rfl⟩

namespace Stack.Operation

/-- The operation pushes a constant of the type. A number of a type that lives on the stack as `int` is in
the range of the type. -/
inductive IsConstantOf : Operation → ValueType → Prop
  | int {p : Primitive} {least greatest : Int} (range : p.intRange? = some (least, greatest))
      {value : Int32} (fits : least ≤ value.toInt ∧ value.toInt ≤ greatest) :
      IsConstantOf (.int value) (.primitive p)
  | long (value : Int64) : IsConstantOf (.long value) (.primitive .long)
  | float (bits : UInt32) : IsConstantOf (.float bits) (.primitive .float)
  | double (bits : UInt64) : IsConstantOf (.double bits) (.primitive .double)
  | text (value : String) : IsConstantOf (.text value) (.object Java.string)
  | classOf (type : ValueType) : IsConstantOf (.classOf (some type)) (.object Java.classClass)

variable {o : Operation} {type : ValueType}

/-- A type that has a range lives on the stack as `int`, and an `int` has room for the range. -/
theorem of_intRange? {p : Primitive} {least greatest : Int}
    (h : p.intRange? = some (least, greatest)) :
    StackType.ofType (.primitive p) = .int ∧ -2147483648 ≤ least ∧ greatest ≤ 2147483647 := by
  cases p <;> cases h <;> exact ⟨rfl, by decide, by decide⟩

namespace IsConstantOf

/-- A constant takes the room of its type. -/
theorem effect_eq (h : o.IsConstantOf type) : o.effect = Effect.pushing type.slots := by
  cases h with
  | @int p least greatest hrange value hfits =>
      have hslots := congrArg StackType.slots (of_intRange? hrange).1
      rw [StackType.slots_ofType] at hslots
      rw [hslots]
      rfl
  | long | float | double | text => rfl
  | classOf type => rcases type with p | r <;> rfl

/-- **The instruction for a constant pushes a value of the type** on what lies below, and is fit for every
version and every frame. -/
theorem pushes (h : o.IsConstantOf type) : o.instruction.IsModest ∧
    ∀ (g : ClassGraph) (frame : Frame) (stack : List StackType),
      step g frame o.instruction stack = some (StackType.ofType type :: stack) := by
  cases h with
  | @int p least greatest hrange value hfits =>
      rw [(of_intRange? hrange).1]
      exact (pushesNumber_intInstruction value).pushes
  | long value => exact (pushesNumber_longInstruction value).pushes
  | float bits => exact (pushesNumber_floatInstruction bits).pushes
  | double bits => exact (pushesNumber_doubleInstruction bits).pushes
  | text value => exact ⟨⟨rfl, rfl⟩, fun g frame stack => rfl⟩
  | classOf type =>
      rcases type with p | r
      · cases p <;> exact ⟨⟨rfl, rfl⟩, fun g frame stack => rfl⟩
      · exact ⟨⟨rfl, rfl⟩, fun g frame stack => rfl⟩

end IsConstantOf

end Stack.Operation

/-- The value of the method is a constant of its type. -/
def ConstantMethod.IsTyped (m : ConstantMethod) : Prop :=
  ∃ o : Operation, m.value = .op o ∧ o.IsConstantOf m.type

/-! ### Reading values -/

namespace CommandLine

variable {graph graph' : ClassGraph} {text : String} {m : ConstantMethod} {α β : Type}

/-- The failure says what is wrong with a text. -/
def IsTextFault : Error → Prop
  | .settings _ | .outOfRange _ _ => True
  | _ => False

/-- What is read has the property, or it is refused for what is wrong with the text, and then the class
graph stays as it was. -/
def Reads (graph : ClassGraph) (property : α → Prop) : Except Error α × ClassGraph → Prop
  | (.ok a, _) => property a
  | (.error reason, graph') => IsTextFault reason ∧ graph' = graph

theorem Reads.map {property : α → Prop} {property' : β → Prop} {outcome : Except Error α × ClassGraph}
    (h : Reads graph property outcome) {f : α → β} (hf : ∀ a, property a → property' (f a)) :
    Reads graph property' (outcome.1.map f, outcome.2) := by
  rcases outcome with ⟨reason | a, graph'⟩
  · exact h
  · exact hf a h

/-- A number that is in the range of a type is a constant of the type. -/
theorem reads_ofPrimitive (value : Int) (p : Primitive) (graph : ClassGraph) :
    Reads graph (·.IsConstantOf (.primitive p)) (Operation.ofPrimitive value p, graph) := by
  unfold Operation.ofPrimitive
  split
  · exact ⟨trivial, rfl⟩
  · rename_i least greatest hrange
    split
    · exact ⟨trivial, rfl⟩
    · obtain ⟨-, hleast, hgreatest⟩ := Operation.of_intRange? hrange
      refine .int hrange ?_
      rw [Int32.toInt_ofInt_of_le (by omega) (by omega)]
      omega

theorem reads_readNumber (p : Primitive) (literal : String) (graph : ClassGraph) :
    Reads graph (·.IsConstantOf (.primitive p)) (readNumber p literal, graph) := by
  unfold readNumber
  split
  · exact ⟨trivial, rfl⟩
  · exact reads_ofPrimitive _ p graph

/-- A literal of a primitive type is read as a constant of the type. -/
theorem reads_readPrimitive (p : Primitive) (literal : String) (graph : ClassGraph) :
    Reads graph (·.IsConstantOf (.primitive p)) (readPrimitive p literal, graph) := by
  cases p with
  | boolean =>
      rw [readPrimitive]
      split
      · exact .int rfl (by decide)
      split
      · exact .int rfl (by decide)
      · exact ⟨trivial, rfl⟩
  | byte | short | int => exact reads_readNumber _ literal graph
  | char =>
      rw [readPrimitive, readCharacter]
      split
      · exact reads_ofPrimitive _ .char graph
      · exact ⟨trivial, rfl⟩
  | long =>
      rw [readPrimitive]
      split
      · exact ⟨trivial, rfl⟩
      · exact .long _
  | float =>
      rw [readPrimitive]
      split
      · exact ⟨trivial, rfl⟩
      · exact .float _
  | double =>
      rw [readPrimitive]
      split
      · exact ⟨trivial, rfl⟩
      · exact .double _

/-- A descriptor is read as the class object of a type. The classes that it mentions may be new. -/
theorem reads_readClass (graph : ClassGraph) (literal : String) :
    Reads graph (·.IsConstantOf (.object Java.classClass)) (readClass graph literal) := by
  unfold readClass
  split
  · exact ⟨trivial, rfl⟩
  · exact .classOf _

/-- **A type word and a literal are read as a type and a constant of it.** -/
theorem reads_readConstant (graph : ClassGraph) (type literal : String) :
    Reads graph (fun read => read.2.IsConstantOf read.1) (readConstant graph type literal) := by
  unfold readConstant
  split
  · exact (reads_readPrimitive _ literal graph).map fun _ ho => ho
  split
  · exact .text literal
  split
  · exact (reads_readClass graph literal).map fun _ ho => ho
  · exact ⟨trivial, rfl⟩

/-- **A text is read as a method with a constant of its type.** -/
theorem reads_readValue (graph : ClassGraph) (text : String) :
    Reads graph ConstantMethod.IsTyped (readValue graph text) := by
  unfold readValue
  split
  · exact ⟨trivial, rfl⟩
  split
  · exact ⟨trivial, rfl⟩
  · exact (reads_readConstant graph _ _).map fun read ho => ⟨read.2, rfl, ho⟩

theorem isTyped_of_readValue (h : readValue graph text = (.ok m, graph')) : m.IsTyped := by
  have hread := reads_readValue graph text
  rwa [h] at hread

/-- A text that is refused leaves the class graph alone. -/
theorem of_readValue_eq_error {reason : Error} (h : readValue graph text = (.error reason, graph')) :
    IsTextFault reason ∧ graph' = graph := by
  have hread := reads_readValue graph text
  rwa [h] at hread

end CommandLine

/-! ### Bodies that return constants -/

/-- **How a method comes by its value**: it computes the value, or it reads the field of the cached
constant, which is known or registered now. The instruction that pushes the value, and the scope
afterwards. -/
inductive ConstantMethod.Pushes (m : ConstantMethod) (s : Scope) : SymbolicInstruction → Scope → Prop
  | computed {o : Operation} (value_eq : m.value = .op o) : Pushes m s o.instruction s
  | known {f : Field} (find_eq : s.constants.find? m.value m.type = some f) :
      Pushes m s (.access .getStatic f) s
  | registered (find_eq : s.constants.find? m.value m.type = none) :
      Pushes m s (.access .getStatic (s.constants.nextField s.graph.fieldCount m.type))
        (s.register m.value m.type).2

/-- The cached constant is an operation that pushes a constant of the type of its field, and the field is
one of the class. -/
structure Stack.Registration.IsConstant (r : Registration) : Prop where
  value : ∃ o : Operation, r.value = .op o ∧ o.IsConstantOf r.type
  isStatic : r.field.isStatic = true

/-- A value that is pushed and popped again leaves the height as it was. -/
theorem Stack.Effect.push_then_pop (n : Nat) :
    (Effect.zero.andThen (Effect.pushing n)).andThen (Effect.popping n) = ⟨0, n⟩ := by
  simp only [Effect.andThen, Effect.zero, Effect.pushing, Effect.popping, Effect.mk.injEq]
  omega

/-- **Computing a constant into its field** leaves the stack as it was, and registers nothing. -/
theorem Stack.Registration.IsConstant.emit_initializer {r : Registration} (h : r.IsConstant) (s : Scope) :
    ∃ code, (initializer r).emit s = ⟨.ok ⟨0, r.type.slots⟩, code, s⟩ := by
  obtain ⟨⟨o, hvalue, ho⟩, hstatic⟩ := h
  have hemit : r.value.emit s = ⟨.ok o.effect, [o.instruction], s⟩ := by
    rw [hvalue]
    rfl
  have hstore : (Operation.field .put r.field).effect = Effect.popping r.type.slots := by
    rw [Operation.effect, Operation.fieldEffect, hstatic]
    rfl
  have heffect : (Effect.zero.andThen o.effect).andThen (Operation.field .put r.field).effect =
      ⟨0, r.type.slots⟩ := by
    rw [ho.effect_eq, hstore, Effect.push_then_pop]
  have hscope : (r.value.emit s).scope = s := by rw [hemit]
  have hok : (r.value.emit s).outcome = .ok o.effect := by rw [hemit]
  exact ⟨initializerCode s r, by rw [ConstantCache.emit_initializer hstatic hscope hok, heffect]⟩

theorem Stack.ConstantCache.isStatic_nextField (c : ConstantCache) (serial : Nat) (type : ValueType) :
    (c.nextField serial type).isStatic = true := by
  have hflags : fieldFlags.has FieldFlags.staticFlag = true := by decide
  exact hflags

/-- Reading a static field pushes a value of its type. -/
theorem Stack.TypedMachine.step_getStatic {g : ClassGraph} {frame : Frame} {f : Field}
    (h : f.isStatic = true) {stack : List StackType} :
    step g frame (.access .getStatic f) stack = some (StackType.ofType f.type :: stack) := by
  have hapt : Instruction.isApt (.access .getStatic f) = true := by
    rw [Instruction.isApt, h]
    rfl
  have hpushes : pushes frame (.access .getStatic f) = some [StackType.ofType f.type] := if_pos hapt
  exact step_of_take rfl hpushes rfl

namespace ConstantMethod.Pushes

variable {m : ConstantMethod} {s s' : Scope} {push : SymbolicInstruction}

/-- **The value has the type of the method.** -/
theorem step (h : m.Pushes s push s') (hm : m.IsTyped) (hs : s.constants.Numbered) (g : ClassGraph)
    (frame : Frame) (stack : List StackType) :
    TypedMachine.step g frame push stack = some (StackType.ofType m.type :: stack) := by
  cases h with
  | computed hvalue =>
      obtain ⟨o, hvalue', ho⟩ := hm
      rw [hvalue] at hvalue'
      cases hvalue'
      exact ho.pushes.2 g frame stack
  | known hfind =>
      rw [step_getStatic (hs.isStatic (mem_fields_of_find? hfind)), type_of_find? hfind]
  | registered hfind => exact step_getStatic (isStatic_nextField s.constants _ m.type)

/-- The value is pushed in the same way in every version and every frame. -/
theorem isModest (h : m.Pushes s push s') (hm : m.IsTyped) : push.IsModest := by
  cases h with
  | computed hvalue =>
      obtain ⟨o, hvalue', ho⟩ := hm
      rw [hvalue] at hvalue'
      cases hvalue'
      exact ho.pushes.1
  | known | registered => exact ⟨rfl, rfl⟩

/-- What is registered is the constant. -/
theorem isConstant (h : m.Pushes s push s') (hm : m.IsTyped) {r : Registration}
    (hr : r ∈ s'.constants.registrations) : r ∈ s.constants.registrations ∨ r.IsConstant := by
  cases h with
  | computed | known => exact .inl hr
  | registered hfind =>
      rcases Array.mem_push.1 hr with hr | rfl
      · exact .inl hr
      · exact .inr ⟨hm, isStatic_nextField s.constants _ m.type⟩

end ConstantMethod.Pushes

/-- **The body pushes the value and returns it.** -/
theorem CommandLine.emit_constantBody {m : ConstantMethod} (hm : m.IsTyped) (cache : Bool) (s : Scope) :
    ∃ push s', m.Pushes s push s' ∧ (constantBody m cache).emit s =
      ⟨.ok ⟨0, m.type.slots⟩, [push, .bare (returnOp (some (ValueKind.ofType m.type)))], s'⟩ := by
  obtain ⟨o, hvalue, ho⟩ := hm
  have hpossible : m.value.isPossible = true := by rw [hvalue]; rfl
  -- whichever way the value is pushed, the first part of the body is one instruction
  have hfirst : ∃ push s', m.Pushes s push s' ∧
      (if cache then Plan.cached m.value m.type else m.value).emit s =
        ⟨.ok (Effect.pushing m.type.slots), [push], s'⟩ := by
    cases cache with
    | false =>
        refine ⟨o.instruction, s, .computed hvalue, ?_⟩
        rw [if_neg Bool.false_ne_true, hvalue, Plan.emit, ho.effect_eq]
    | true =>
        rw [if_pos rfl, Plan.emit, Plan.emitCached]
        cases hfind : s.constants.find? m.value m.type with
        | some f => exact ⟨_, s, .known hfind, by rw [Scope.cache_of_find? hpossible hfind]⟩
        | none =>
            have hnested : s.cacheEach m.value.outerCached = (.ok (), s) := by
              rw [hvalue, Plan.outerCached_op]
              rfl
            exact ⟨_, _, .registered hfind,
              by rw [Scope.cache_of_find?_eq_none hpossible hfind hnested]⟩
  obtain ⟨push, s', hpush, hemit⟩ := hfirst
  refine ⟨push, s', hpush, ?_⟩
  have hreturn : (Operation.returning (some m.type)).effect = Effect.popping m.type.slots :=
    congrArg Effect.popping (ValueKind.slots_ofType m.type)
  rw [constantBody, Plan.emit, Plan.emitEach, hemit]
  simp only [Plan.emitEach, Plan.emit, Emitted.andThen, Emitted.after, hreturn, Effect.push_then_pop]
  rfl

end JvmCodegen
