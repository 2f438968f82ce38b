/-
**Operations of one instruction.**

Most changes of the stack come down to one instruction whose effect is known beforehand:
pushing a constant, reading or writing a field, loading a variable, invoking a method, returning,
converting the value on top.

Main definitions:

* `FloatBits.canonicalSingle`, `FloatBits.canonicalDouble` — bit patterns with all the values that
  are not numbers made one;
* `Stack.Widening`, `Stack.Operation` — the operations;
* `Stack.Operation.instruction`, `Stack.Operation.effect` — the instruction, and its effect;
* `Stack.Operation.same` — equality, which takes all values that are not numbers for one.
-/

import JvmCodegen.ClassGraph.JavaLibrary
import JvmCodegen.Error
import JvmCodegen.Stack.Effect

set_option relaxedAutoImplicit false
set_option autoImplicit false

namespace JvmCodegen

/-! ### Bit patterns of floating-point values -/

namespace FloatBits

/-- The pattern of single precision is not a number. -/
def isNaNSingle (bits : UInt32) : Bool := bits &&& 0x7FFFFFFF > 0x7F800000

/-- The pattern of double precision is not a number. -/
def isNaNDouble (bits : UInt64) : Bool := bits &&& 0x7FFFFFFFFFFFFFFF > 0x7FF0000000000000

/-- The pattern, or one fixed pattern for all that are not numbers. -/
def canonicalSingle (bits : UInt32) : UInt32 := if isNaNSingle bits then 0x7FC00000 else bits

/-- The pattern, or one fixed pattern for all that are not numbers. -/
def canonicalDouble (bits : UInt64) : UInt64 :=
  if isNaNDouble bits then 0x7FF8000000000000 else bits

end FloatBits

/-! ### Ranges of the small integer types -/

/-- The least and the greatest value of a type that lives on the stack as `int`. -/
def Primitive.intRange? : Primitive → Option (Int × Int)
  | boolean => some (0, 1)
  | byte => some (-128, 127)
  | short => some (-32768, 32767)
  | char => some (0, 65535)
  | int => some (-2147483648, 2147483647)
  | long | float | double => none

namespace Stack

/-! ### Operations -/

/-- The widening conversions between primitive types that take an instruction. -/
inductive Widening
  | intToLong
  | intToFloat
  | intToDouble
  | longToFloat
  | longToDouble
  | floatToDouble
deriving DecidableEq

/-- Whether a field is read or written. -/
inductive Access
  | get
  | put
deriving DecidableEq

/-- A change of the stack by one instruction. -/
inductive Operation
  | int (value : Int32)
  | long (value : Int64)
  | float (bits : UInt32)
  | double (bits : UInt64)
  | text (value : String)
  | null
  /-- Push the class object of a reference type. -/
  | typeObject (type : RefType Class)
  /-- Push the class object of a primitive type, or of `void`. -/
  | primitiveObject (type : Option Primitive)
  | methodHandle (target : Method)
  | field (access : Access) (field : Field)
  | load (kind : ValueKind) (slot : UInt16)
  | invoke (kind : InvokeKind) (method : Method)
  /-- Return the value on top, or nothing. -/
  | ret (kind : Option ValueKind)
  | widen (conversion : Widening)
  | cast (target : RefType Class)
  | box (type : Primitive)
  | unbox (type : Primitive)
  /-- Discard a value of two slots, or else of one. -/
  | pop (wide : Bool)
  /-- Push a second copy of a value of two slots, or else of one. -/
  | dup (wide : Bool)
deriving DecidableEq

/-- The field that holds the class object of a primitive type, or of `void`. -/
def classObjectField : Option Primitive → Field
  | none => Java.voidClassObject
  | some p => Java.classObject p

/-! ### Instructions -/

/-- The instruction that pushes an `int`: the shortest one that has room for the value. -/
def intInstruction (value : Int32) : SymbolicInstruction :=
  match value.toInt with
  | -1 => .bare .iconstM1
  | 0 => .bare .iconst0
  | 1 => .bare .iconst1
  | 2 => .bare .iconst2
  | 3 => .bare .iconst3
  | 4 => .bare .iconst4
  | 5 => .bare .iconst5
  | n =>
      if -128 ≤ n ∧ n ≤ 127 then .bipush (Int8.ofInt n)
      else if -32768 ≤ n ∧ n ≤ 32767 then .sipush (Int16.ofInt n)
      else .ldc (.int value)

/-- The instruction that pushes a `long`. -/
def longInstruction (value : Int64) : SymbolicInstruction :=
  if value = 0 then .bare .lconst0
  else if value = 1 then .bare .lconst1
  else .ldc2 (.long value)

/-- The instruction that pushes a `float`. Zero has a short form whatever its sign. -/
def floatInstruction (bits : UInt32) : SymbolicInstruction :=
  if bits = 0 || bits = 0x80000000 then .bare .fconst0
  else if bits = 0x3F800000 then .bare .fconst1
  else if bits = 0x40000000 then .bare .fconst2
  else .ldc (.float (FloatBits.canonicalSingle bits))

/-- The instruction that pushes a `double`. Zero has a short form whatever its sign. -/
def doubleInstruction (bits : UInt64) : SymbolicInstruction :=
  if bits = 0 || bits = 0x8000000000000000 then .bare .dconst0
  else if bits = 0x3FF0000000000000 then .bare .dconst1
  else .ldc2 (.double (FloatBits.canonicalDouble bits))

/-- The instruction that reads or writes a field. -/
def fieldOp : Access → Bool → FieldOp
  | .get, true => .getStatic
  | .get, false => .getField
  | .put, true => .putStatic
  | .put, false => .putField

/-- The instruction that returns a value of a kind, or nothing. -/
def returnOp : Option ValueKind → BareOp
  | none => .voidReturn
  | some .int => .ireturn
  | some .long => .lreturn
  | some .float => .freturn
  | some .double => .dreturn
  | some .reference => .areturn

/-- The instruction of a widening conversion. -/
def Widening.op : Widening → BareOp
  | intToLong => .i2l
  | intToFloat => .i2f
  | intToDouble => .i2d
  | longToFloat => .l2f
  | longToDouble => .l2d
  | floatToDouble => .f2d

/-- The name of a widening conversion. -/
def Widening.title : Widening → String
  | intToLong => "IntToLong"
  | intToFloat => "IntToFloat"
  | intToDouble => "IntToDouble"
  | longToFloat => "LongToFloat"
  | longToDouble => "LongToDouble"
  | floatToDouble => "FloatToDouble"

/-- The effect of a widening conversion. -/
def Widening.effect : Widening → Effect
  | intToLong | intToDouble | floatToDouble => ⟨1, 1⟩
  | intToFloat | longToDouble => Effect.zero
  | longToFloat => ⟨-1, 0⟩

namespace Operation

/-- The one instruction of an operation. -/
def instruction : Operation → SymbolicInstruction
  | int value => intInstruction value
  | long value => longInstruction value
  | float bits => floatInstruction bits
  | double bits => doubleInstruction bits
  | text value => .ldc (.text value)
  | null => .bare .aconstNull
  | typeObject type => .ldc (.type type)
  | primitiveObject type => .access .getStatic (classObjectField type)
  | methodHandle target => .ldc (.methodHandle target)
  | field access f => .access (fieldOp access f.isStatic) f
  | load kind slot => .load kind slot
  | invoke kind method => .invoke kind method
  | ret kind => .bare (returnOp kind)
  | widen conversion => .bare conversion.op
  | cast target => .checkCast target
  | box type => .invoke .static (Java.valueOf type)
  | unbox type => .invoke .virtual (Java.unbox type)
  | pop wide => .bare (if wide then .pop2 else .pop)
  | dup wide => .bare (if wide then .dup2 else .dup)

/-! ### Effects -/

/-- The effect of reading or writing a field. The receiver of an instance field is consumed. -/
def fieldEffect (access : Access) (f : Field) : Effect :=
  let slots : Int := f.type.slots
  let receiver : Int := if f.isStatic then 0 else 1
  match access with
  | .get => ⟨slots - receiver, slots - receiver⟩
  | .put => ⟨-(slots + receiver), 0⟩

/-- The effect of an invocation: the arguments are consumed, and the result is pushed. -/
def invokeEffect (m : Method) : Effect :=
  let impact : Int := (SlotCount.ofResult m.descriptor.returns).slots - m.argumentSlots
  ⟨impact, max impact 0⟩

/-- The number of slots of a returned value. -/
def returnSlots : Option ValueKind → Nat
  | none => 0
  | some kind => kind.slots

/-- The effect of an operation. Boxing is counted as if the new reference were pushed before the
value is popped, and unboxing likewise. -/
def effect : Operation → Effect
  | int _ | float _ | text _ | null | typeObject _ | primitiveObject _ | methodHandle _ => ⟨1, 1⟩
  | long _ | double _ => ⟨2, 2⟩
  | field access f => fieldEffect access f
  | load kind _ => Effect.pushing kind.slots
  | invoke _ method => invokeEffect method
  | ret kind => Effect.popping (returnSlots kind)
  | widen conversion => conversion.effect
  | cast _ => Effect.zero
  | box type => (Effect.pushing 1).andThen (Effect.popping type.slots)
  | unbox type => (Effect.pushing type.slots).andThen (Effect.popping 1)
  | pop wide => Effect.popping (if wide then 2 else 1)
  | dup wide => Effect.pushing (if wide then 2 else 1)

/-! ### Equality -/

/-- The operation with all floating-point values that are not numbers made one. -/
def canonical : Operation → Operation
  | float bits => float (FloatBits.canonicalSingle bits)
  | double bits => double (FloatBits.canonicalDouble bits)
  | other => other

/-- The operations are the same, up to which value it is that is not a number. -/
def same (a b : Operation) : Bool := a.canonical == b.canonical

/-! ### Building operations -/

/-- A number of a type that lives on the stack as `int`, if it is in the range of the type. -/
def ofPrimitive (value : Int) (type : Primitive) : Except Error Operation :=
  match type.intRange? with
  | none => .error (.outOfRange value type)
  | some (least, greatest) =>
      if value < least ∨ value > greatest then .error (.outOfRange value type)
      else .ok (int (Int32.ofInt value))

/-- A truth value, as the `int` that stands for it. -/
def ofBool (value : Bool) : Operation := int (if value then 1 else 0)

/-- The class object of a type, or of `void`. -/
def classOf : Option ValueType → Operation
  | none => primitiveObject none
  | some (.primitive p) => primitiveObject (some p)
  | some (.reference r) => typeObject r

/-- The invocation of a method in the way that it calls for. -/
def invokeMethod (m : Method) : Operation := invoke m.invokeKind m

/-- The return from a method whose result has a type, or that has none. -/
def returning (type : Option ValueType) : Operation := ret (type.map ValueKind.ofType)

end Operation

end Stack

end JvmCodegen
