/-
**Pushing numbers.**

There are several ways to push a number: an opcode of its own, an operand in the code of one byte or of two,
or a constant in the pool.  Which one is taken depends on the number.  Whatever it is, reading the bytes that
are written and doing what they say gives the number back.  Two kinds of floating-point values are the
exception: negative zero loses its sign, because it compares equal to zero, and of all the patterns that are
not numbers only one is ever pushed.

Main definitions:

* `NamedInstruction.constant?`, `Stack.execute?` — the constant that an instruction pushes, and that the first
  instruction of some bytes does;
* `Stack.PushesIn` — an instruction is looked up in a pool, written and executed with a number;
* `FloatFormat.IsNaN`, `FloatFormat.pushed` — patterns that are not numbers, and what is pushed for a
  pattern;
* `Stack.Precision.IsOf` — the patterns of a precision are those of a format;
* `Primitive.Holds` — the values of the types that live on the stack as `int`.

Main results:

* `Stack.push_cases`, `Stack.pushesIn_of_role` — what pushes a constant, and that the bytes of an
  instruction push what it pushes in the machine;
* `FloatBits.isNaNSingle_iff`, `FloatBits.isNaNDouble_iff` — the patterns that are not numbers;
* `Stack.Precision.role_instruction`, `Stack.Precision.IsOf.toNat_pushed` — what is pushed for the
  patterns of a precision;
* `Stack.role_longInstruction`, `Stack.role_floatInstruction`, `Stack.role_doubleInstruction` — the
  instruction for a number pushes it;
* `Stack.numbers_are_pushed` — **numbers are pushed as they are**.
-/

import Mathlib
import JvmCodegen.Float.Format
import JvmCodegen.Proofs.ClassModel.MethodCode
import JvmCodegen.Proofs.ConstantPool.Requests
import JvmCodegen.Proofs.Stack.ArrayFilling
import JvmCodegen.Proofs.Stack.NumberInstructions

set_option relaxedAutoImplicit false
set_option autoImplicit false

namespace JvmCodegen

/-! ### Executing bytes -/

/-- The constant that an instruction pushes, if that is `null` or a number. An operand of one byte or of two is
sign-extended, and a literal has to be of the size that the instruction is for. -/
def NamedInstruction.constant? : NamedInstruction → Option Stack.Value
  | .bare op =>
      match op.role with
      | .push value => some value
      | _ => none
  | .bipush value => some (.int value.toInt32)
  | .sipush value => some (.int value.toInt32)
  | .ldc (.int value) => some (.int value)
  | .ldc (.float bits) => some (.float bits)
  | .ldc2 (.long value) => some (.long value)
  | .ldc2 (.double bits) => some (.double bits)
  | _ => none

namespace Stack

/-- The constant that the first instruction of some bytes pushes, with its operand read through a pool, and
the bytes behind it. -/
def execute? (constants : OffsetList Constant) (bytes : List UInt8) : Option (Value × List UInt8) :=
  (Instruction.decode? bytes).bind fun (i, rest) =>
    ((i.read? constants).bind NamedInstruction.constant?).map fun value => (value, rest)

/-- The value is a number. -/
def Value.IsNumber : Value → Prop
  | int _ | long _ | float _ | double _ => True
  | _ => False

/-- **What pushes a constant**: an instruction without operands, one with the number in the code, or one with
a literal of the right size. -/
theorem push_cases {i : SymbolicInstruction} {v : Value} (h : i.role = .push v) :
    (∃ op, i = .bare op ∧ op.role = .push v) ∨
    (∃ n, i = .bipush n ∧ v = .int n.toInt32) ∨
    (∃ n, i = .sipush n ∧ v = .int n.toInt32) ∨
    (∃ l, i = .ldc l ∧ l.isWide = false ∧ v = l.value) ∨
    ∃ l, i = .ldc2 l ∧ l.isWide = true ∧ v = l.value := by
  cases i with
  | bare op => exact .inl ⟨op, rfl, h⟩
  | bipush n =>
      cases h
      exact .inr (.inl ⟨n, rfl, rfl⟩)
  | sipush n =>
      cases h
      exact .inr (.inr (.inl ⟨n, rfl, rfl⟩))
  | ldc l =>
      cases hwide : l.isWide <;> simp only [Instruction.role, hwide] at h <;> cases h
      exact .inr (.inr (.inr (.inl ⟨l, rfl, hwide, rfl⟩)))
  | ldc2 l =>
      cases hwide : l.isWide <;> simp only [Instruction.role, hwide] at h <;> cases h
      exact .inr (.inr (.inr (.inr ⟨l, rfl, hwide, rfl⟩)))
  | newArray element | newRefArray element | load kind slot | checkCast target => cases h
  | access op field | invoke kind method =>
      rw [Instruction.role] at h
      split at h <;> cases h

/-- What an instruction pushes can be told from the names of its operands, if it is a number. -/
theorem constant?_named {i : SymbolicInstruction} {v : Value} (hrole : i.role = .push v)
    (hnumber : v.IsNumber) : i.named.constant? = some v := by
  rcases push_cases hrole with ⟨op, rfl, hop⟩ | ⟨n, rfl, rfl⟩ | ⟨n, rfl, rfl⟩ | ⟨l, rfl, hwide, rfl⟩ |
    ⟨l, rfl, hwide, rfl⟩
  · simp only [Instruction.named, NamedInstruction.constant?, hop]
  · rfl
  · rfl
  · cases l <;> first | rfl | exact hnumber.elim | cases hwide
  · cases l <;> first | rfl | cases hwide

end Stack

/-! ### Looking numbers up -/

namespace ConstantPool

/-- A constant that refers to no other one, and is no text, is only refused by a pool that is full. -/
theorem Refuses.full_of_parts_eq_nil {pool : ConstantPool} {o : Operand} {reason : PoolError}
    (h : pool.Refuses o reason) (hparts : o.parts = []) (htext : ∀ content, o ≠ .utf8 content) :
    ∃ c, reason = .full c pool.constants.next ∧ 65535 < pool.constants.next + width c := by
  cases h with
  | full _ _ _ hfull => exact ⟨_, rfl, hfull⟩
  | textTooLong hneeds =>
      cases hneeds with
      | self => exact absurd rfl (htext _)
      | part hpart =>
          rw [hparts] at hpart
          exact absurd hpart List.not_mem_nil

/-- A number is only refused by a pool that is full. -/
theorem full_of_literal_number {pool : ConstantPool} {l : Literal} (hnumber : l.value.IsNumber)
    {reason : PoolError} (h : (literal l pool).1 = .error reason) :
    ∃ c, reason = .full c (literal l pool).2.constants.next ∧
      65535 < (literal l pool).2.constants.next + width c := by
  have hrefuses := (adds_literal l).failure reason h
  cases l with
  | int | long | float | double => exact hrefuses.full_of_parts_eq_nil rfl nofun
  | text | type | methodHandle => exact hnumber.elim

end ConstantPool

namespace Stack

open ConstantPool

/-- **The instruction pushes the value.** Once its operand has been looked up in the pool, the bytes that are
written for it push the value, whatever is behind them and whatever the pool held before. Looking the operand
up only fails if the pool has no room for its constant. -/
structure PushesIn (pool : ConstantPool) (i : SymbolicInstruction) (v : Value) : Prop where
  executed : ∀ resolved, (i.resolve pool).1 = .ok resolved → ∀ rest,
    execute? (i.resolve pool).2.constants (resolved.encode ++ rest) = some (v, rest)
  refused : ∀ reason, (i.resolve pool).1 = .error reason →
    ∃ c, reason = .full c (i.resolve pool).2.constants.next ∧
      65535 < (i.resolve pool).2.constants.next + width c

/-- An instruction with a number as its literal is looked up as the literal is. -/
theorem full_of_resolve_literal {make : PoolIndex → ResolvedInstruction} {pool : ConstantPool} {l : Literal}
    (hnumber : l.value.IsNumber) {reason : PoolError} {resolve : PoolM ResolvedInstruction}
    (hresolve : resolve = do return make (← ConstantPool.literal l))
    (h : (resolve pool).1 = .error reason) :
    ∃ c, reason = .full c (resolve pool).2.constants.next ∧
      65535 < (resolve pool).2.constants.next + width c := by
  subst hresolve
  cases hout : literal l pool with
  | mk outcome pool' =>
      cases outcome with
      | error e =>
          have hfull := full_of_literal_number hnumber (congrArg Prod.fst hout)
          rw [bind_of_error hout] at h ⊢
          cases h
          rw [hout] at hfull
          exact hfull
      | ok index =>
          rw [bind_of_ok hout] at h
          cases h

/-- **What an instruction pushes in the machine is what its bytes push**, if it is a number. -/
theorem pushesIn_of_role {pool : ConstantPool} (hpool : pool.Faithful) {i : SymbolicInstruction}
    {v : Value} (hrole : i.role = .push v) (hnumber : v.IsNumber) : PushesIn pool i v := by
  constructor
  case executed =>
      intro resolved hresolved rest
      have hread := (Instruction.yields_resolve hpool i).result resolved hresolved
      simp only [execute?, Instruction.decode?_encode, Option.bind_some, hread, constant?_named hrole hnumber,
        Option.map_some]
  case refused =>
      intro reason hreason
      rcases push_cases hrole with ⟨op, rfl, -⟩ | ⟨n, rfl, -⟩ | ⟨n, rfl, -⟩ | ⟨l, rfl, -, rfl⟩ |
        ⟨l, rfl, -, rfl⟩
      · cases hreason
      · cases hreason
      · cases hreason
      · exact full_of_resolve_literal hnumber rfl hreason
      · exact full_of_resolve_literal hnumber rfl hreason

end Stack

/-! ### Floating-point patterns -/

namespace FloatFormat

variable (f : FloatFormat)

/-- The pattern is not a number: all bits of its exponent are set, and some bit of its fraction is. -/
def IsNaN (n : Nat) : Prop :=
  n / 2 ^ f.fractionBits % 2 ^ f.exponentBits = 2 ^ f.exponentBits - 1 ∧ n % 2 ^ f.fractionBits ≠ 0

instance (n : Nat) : Decidable (f.IsNaN n) := inferInstanceAs (Decidable (_ ∧ _))

/-- What is pushed for a pattern: zero for negative zero, one pattern for all that are not numbers, and
otherwise the pattern itself. -/
def pushed (n : Nat) : Nat :=
  if n = f.signBit then 0 else if f.IsNaN n then f.quietNaN else n

/-- Without its sign, a pattern that is not a number is greater than infinity. -/
theorem isNaN_iff (n : Nat) :
    f.IsNaN n ↔ f.infinity < n % 2 ^ (f.fractionBits + f.exponentBits) := by
  rw [IsNaN, infinity, Nat.shiftLeft_eq, Nat.shiftLeft_eq, one_mul, Nat.pow_add, Nat.mod_mul]
  have hexponent : n / 2 ^ f.fractionBits % 2 ^ f.exponentBits < 2 ^ f.exponentBits :=
    Nat.mod_lt _ (Nat.two_pow_pos _)
  have hfraction : n % 2 ^ f.fractionBits < 2 ^ f.fractionBits := Nat.mod_lt _ (Nat.two_pow_pos _)
  generalize n / 2 ^ f.fractionBits % 2 ^ f.exponentBits = exponent at *
  generalize n % 2 ^ f.fractionBits = fraction at *
  generalize 2 ^ f.fractionBits = unit at *
  by_cases hones : exponent = 2 ^ f.exponentBits - 1
  · rw [← hones, Nat.mul_comm exponent unit]
    omega
  · -- a smaller exponent is too small by a whole unit
    have hunit : unit * (exponent + 1) ≤ unit * (2 ^ f.exponentBits - 1) :=
      Nat.mul_le_mul_left unit (by omega)
    rw [Nat.mul_add, Nat.mul_one, Nat.mul_comm unit (2 ^ f.exponentBits - 1)] at hunit
    omega

/-- The bits below the sign are cut out with a mask. -/
theorem isNaN_iff_and (n : Nat) :
    f.IsNaN n ↔ f.infinity < n &&& 2 ^ (f.fractionBits + f.exponentBits) - 1 := by
  rw [isNaN_iff, Nat.and_two_pow_sub_one_eq_mod]

end FloatFormat

namespace FloatBits

open FloatFormat

theorem isNaNSingle_iff (bits : UInt32) : isNaNSingle bits = true ↔ single.IsNaN bits.toNat := by
  rw [isNaN_iff_and, isNaNSingle, decide_eq_true_iff, gt_iff_lt, UInt32.lt_iff_toNat_lt, UInt32.toNat_and]
  rfl

theorem isNaNDouble_iff (bits : UInt64) : isNaNDouble bits = true ↔ double.IsNaN bits.toNat := by
  rw [isNaN_iff_and, isNaNDouble, decide_eq_true_iff, gt_iff_lt, UInt64.lt_iff_toNat_lt, UInt64.toNat_and]
  rfl

end FloatBits

/-! ### The instructions for numbers -/

namespace Stack

theorem role_longInstruction (v : Int64) : (longInstruction v).role = .push (.long v) := by
  unfold longInstruction
  split
  case isTrue hzero => rw [hzero]; rfl
  case isFalse =>
      split
      case isTrue hone => rw [hone]; rfl
      case isFalse => rfl

namespace Precision

section

variable {β : Type} [DecidableEq β] (P : Precision β)

/-- What is pushed for a pattern: zero for negative zero, and otherwise the pattern that stands for it. -/
def pushed (bits : β) : β := if bits = P.negativeZero then P.zero else P.canonical bits

/-- **The pattern is pushed**, if the literals and the short instructions push what they stand for. -/
theorem role_instruction {value : β → Value} (hload : ∀ bits, (P.load bits).role = .push (value bits))
    (hshort : ∀ e ∈ P.short, e.2.role = .push (value (P.pushed e.1))) (bits : β) :
    (P.instruction bits).role = .push (value (P.pushed bits)) := by
  unfold instruction
  split
  case h_1 op hop => exact hshort _ (P.mem_short hop)
  case h_2 hnone =>
      have hnegative : bits ≠ P.negativeZero := by
        rintro rfl
        cases hnone.symm.trans P.lookup_negativeZero
      rw [hload, pushed, if_neg hnegative]

/-- The patterns are those of a format, as numbers. -/
structure IsOf (f : FloatFormat) (toNat : β → Nat) : Prop where
  injective : Function.Injective toNat
  zero : toNat P.zero = 0
  negativeZero : toNat P.negativeZero = f.signBit
  quietNaN : toNat P.quietNaN = f.quietNaN
  isNaN_iff : ∀ bits, P.isNaN bits = true ↔ f.IsNaN (toNat bits)

variable {P}

theorem IsOf.toNat_pushed {f : FloatFormat} {toNat : β → Nat} (h : P.IsOf f toNat) (bits : β) :
    toNat (P.pushed bits) = f.pushed (toNat bits) := by
  have hnegative : bits = P.negativeZero ↔ toNat bits = f.signBit := by
    rw [← h.negativeZero, h.injective.eq_iff]
  simp only [pushed, canonical, FloatFormat.pushed, hnegative, h.isNaN_iff]
  split_ifs
  · exact h.zero
  · exact h.quietNaN
  · rfl

end

theorem isOf_single : single.IsOf FloatFormat.single UInt32.toNat :=
  ⟨fun _ _ => UInt32.toNat_inj.1, rfl, rfl, rfl, FloatBits.isNaNSingle_iff⟩

theorem isOf_double : double.IsOf FloatFormat.double UInt64.toNat :=
  ⟨fun _ _ => UInt64.toNat_inj.1, rfl, rfl, rfl, FloatBits.isNaNDouble_iff⟩

end Precision

/-- The pattern is pushed, up to the sign of zero and to which pattern it is that is not a number. -/
theorem role_floatInstruction (bits : UInt32) :
    (floatInstruction bits).role = .push (.float (UInt32.ofNat (FloatFormat.single.pushed bits.toNat))) := by
  rw [floatInstruction_eq, ← Precision.isOf_single.toNat_pushed, UInt32.ofNat_toNat]
  exact Precision.single.role_instruction (fun _ => rfl) (by decide) bits

/-- The pattern is pushed, up to the sign of zero and to which pattern it is that is not a number. -/
theorem role_doubleInstruction (bits : UInt64) :
    (doubleInstruction bits).role =
      .push (.double (UInt64.ofNat (FloatFormat.double.pushed bits.toNat))) := by
  rw [doubleInstruction_eq, ← Precision.isOf_double.toNat_pushed, UInt64.ofNat_toNat]
  exact Precision.double.role_instruction (fun _ => rfl) (by decide) bits

end Stack

/-! ### Numbers of smaller types -/

/-- **The values of a type that live on the stack as `int`**: truth values as 0 and 1, characters as their
codes, and the numbers of up to 32 bits as themselves. The numbers of `long`, `float` and `double` live there
as values of their own, and none of them as `int`. -/
def Primitive.Holds : Primitive → Int → Prop
  | boolean, value => ∃ b : Bool, (b.toNat : Int) = value
  | byte, value => ∃ n : Int8, n.toInt = value
  | short, value => ∃ n : Int16, n.toInt = value
  | char, value => ∃ n : UInt16, (n.toNat : Int) = value
  | int, value => ∃ n : Int32, n.toInt = value
  | long, _ | float, _ | double, _ => False

namespace Primitive

/-- The values of a machine type are the numbers of a range, if all of them are in it, and each number there is
the value of what it is turned into. -/
theorem exists_value_iff {α : Type} {toInt : α → Int} {ofInt : Int → α} {least greatest : Int}
    (hbounds : ∀ n, least ≤ toInt n ∧ toInt n < greatest + 1)
    (hvalue : ∀ v, least ≤ v → v < greatest + 1 → toInt (ofInt v) = v) (value : Int) :
    (∃ n, toInt n = value) ↔ least ≤ value ∧ value ≤ greatest := by
  constructor
  · rintro ⟨n, rfl⟩
    obtain ⟨hleast, hgreatest⟩ := hbounds n
    exact ⟨hleast, Int.le_of_lt_add_one hgreatest⟩
  · rintro ⟨hleast, hgreatest⟩
    exact ⟨ofInt value, hvalue value hleast (Int.lt_add_one_of_le hgreatest)⟩

/-- The values of a type are those in its range. -/
theorem holds_iff (p : Primitive) (value : Int) :
    p.Holds value ↔ ∃ least greatest, p.intRange? = some (least, greatest) ∧
      least ≤ value ∧ value ≤ greatest := by
  have hrange : ∀ a b : Int, (∃ least greatest, some (a, b) = some (least, greatest) ∧
      least ≤ value ∧ value ≤ greatest) ↔ a ≤ value ∧ value ≤ b := by
    intro a b
    simp [and_assoc]
  cases p with
  | boolean =>
      have hbounds : ∀ b : Bool, (0 : Int) ≤ b.toNat ∧ (b.toNat : Int) < 1 + 1 := by decide
      have hvalue : ∀ v : Int, 0 ≤ v → v < 1 + 1 → ((v != 0).toNat : Int) = v := by
        intro v hleast hgreatest
        obtain rfl | rfl : v = 0 ∨ v = 1 := by omega
        · rfl
        · rfl
      exact (exists_value_iff hbounds hvalue value).trans (hrange 0 1).symm
  | byte =>
      have hbounds : ∀ n : Int8, -128 ≤ n.toInt ∧ n.toInt < 127 + 1 := fun n => ⟨n.le_toInt, n.toInt_lt⟩
      exact (exists_value_iff hbounds (fun _ => Int8.toInt_ofInt_of_le) value).trans (hrange _ _).symm
  | short =>
      have hbounds : ∀ n : Int16, -32768 ≤ n.toInt ∧ n.toInt < 32767 + 1 :=
        fun n => ⟨n.le_toInt, n.toInt_lt⟩
      exact (exists_value_iff hbounds (fun _ => Int16.toInt_ofInt_of_le) value).trans (hrange _ _).symm
  | int =>
      have hbounds : ∀ n : Int32, -2147483648 ≤ n.toInt ∧ n.toInt < 2147483647 + 1 :=
        fun n => ⟨n.le_toInt, n.toInt_lt⟩
      exact (exists_value_iff hbounds (fun _ => Int32.toInt_ofInt_of_le) value).trans (hrange _ _).symm
  | char =>
      have hbounds : ∀ n : UInt16, (0 : Int) ≤ n.toNat ∧ (n.toNat : Int) < 65535 + 1 := by
        intro n
        have hlt := n.toNat_lt
        omega
      have hvalue : ∀ v : Int, 0 ≤ v → v < 65535 + 1 → ((UInt16.ofNat v.toNat).toNat : Int) = v := by
        intro v hleast hgreatest
        rw [UInt16.toNat_ofNat_of_lt' ((Int.toNat_lt hleast).2 hgreatest)]
        exact Int.toNat_of_nonneg hleast
      exact (exists_value_iff hbounds hvalue value).trans (hrange _ _).symm
  | long | float | double => simp [Holds, intRange?]

/-- Every one of these values is one of `int`. -/
theorem Holds.exists_int {p : Primitive} {value : Int} (h : p.Holds value) :
    ∃ n : Int32, n.toInt = value := by
  obtain ⟨least, greatest, hrange, hleast, hgreatest⟩ := (holds_iff p value).1 h
  refine (holds_iff int value).2 ⟨_, _, rfl, ?_⟩
  cases p <;> cases hrange <;> omega

end Primitive

namespace Stack

open ConstantPool

/-- A value of the type is kept. -/
theorem ofPrimitive_of_holds {type : Primitive} {n : Int32} (h : type.Holds n.toInt) :
    Operation.ofPrimitive n.toInt type = .ok (.int n) := by
  obtain ⟨least, greatest, hrange, hleast, hgreatest⟩ := (type.holds_iff n.toInt).1 h
  simp only [Operation.ofPrimitive, hrange]
  rw [if_neg (by omega), Int32.ofInt_toInt]

/-- Everything else is refused. -/
theorem ofPrimitive_of_not_holds {type : Primitive} {value : Int} (h : ¬ type.Holds value) :
    Operation.ofPrimitive value type = .error (.outOfRange value type) := by
  rw [Primitive.holds_iff] at h
  unfold Operation.ofPrimitive
  split
  case h_1 => rfl
  case h_2 least greatest hrange =>
      refine if_pos ?_
      by_contra hin
      exact h ⟨least, greatest, hrange, by omega⟩

/-- **Numbers are pushed as they are**, by the bytes that are written for them, in every pool that some
requests lead to, if it has room for them. An `int` and a `long` are pushed as they are, and so is a
floating-point value but for the sign of zero and for the patterns that are not numbers. A truth value is
pushed as 0 or 1. A number that is given together with a type is pushed as it is if it is one of the values
of the type that live on the stack as `int`, and is refused otherwise; so all are refused for `long`, `float`
and `double`, which have constants of their own. -/
theorem numbers_are_pushed (requests : List Request) :
    (∀ n : Int32, PushesIn (after requests) (Operation.int n).instruction (.int n)) ∧
    (∀ n : Int64, PushesIn (after requests) (Operation.long n).instruction (.long n)) ∧
    (∀ bits : UInt32, PushesIn (after requests) (Operation.float bits).instruction
      (.float (UInt32.ofNat (FloatFormat.single.pushed bits.toNat)))) ∧
    (∀ bits : UInt64, PushesIn (after requests) (Operation.double bits).instruction
      (.double (UInt64.ofNat (FloatFormat.double.pushed bits.toNat)))) ∧
    (∀ b : Bool, PushesIn (after requests) (Operation.ofBool b).instruction (.int (if b then 1 else 0))) ∧
    ∀ (value : Int) (type : Primitive),
      (type.Holds value → ∃ n : Int32, n.toInt = value ∧
        Operation.ofPrimitive value type = .ok (.int n) ∧
        PushesIn (after requests) (Operation.int n).instruction (.int n)) ∧
      (¬ type.Holds value → Operation.ofPrimitive value type = .error (.outOfRange value type)) := by
  have hpool : (after requests).Faithful := (grows_after requests).faithful faithful_empty
  have hint : ∀ n : Int32, PushesIn (after requests) (Operation.int n).instruction (.int n) :=
    fun n => pushesIn_of_role hpool (role_intInstruction n) trivial
  refine ⟨hint, ?_, ?_, ?_, fun b => hint _, fun value type => ⟨fun h => ?_, ofPrimitive_of_not_holds⟩⟩
  · intro n
    exact pushesIn_of_role hpool (role_longInstruction n) trivial
  · intro bits
    exact pushesIn_of_role hpool (role_floatInstruction bits) trivial
  · intro bits
    exact pushesIn_of_role hpool (role_doubleInstruction bits) trivial
  · obtain ⟨n, rfl⟩ := h.exists_int
    exact ⟨n, rfl, ofPrimitive_of_holds h, hint n⟩

/-- The first negative number that does not fit in a byte, as a `short`; and a negative pattern that is not a
number, with its constant in the pool and more bytes behind it. -/
theorem numbers_are_pushed_edges :
    let nan := (Operation.float 0xFF800001).instruction
    Operation.ofPrimitive (-129) .short = .ok (.int (-129)) ∧
    execute? ConstantPool.empty.constants [0x11, 0xFF, 0x7F] = some (.int (-129), []) ∧
    ∃ i, (nan.resolve ConstantPool.empty).1 = .ok (.ldc i) ∧
      execute? (nan.resolve ConstantPool.empty).2.constants [0x12, 0x01, 0x57] =
        some (.float 0x7FC00000, [0x57]) := by
  intro nan
  obtain ⟨-, -, hfloat, -, -, hprimitive⟩ := numbers_are_pushed []
  have hshort : Primitive.Holds .short (-129) := ⟨-129, rfl⟩
  obtain ⟨n, hn, hok, hpushes⟩ := (hprimitive (-129) .short).1 hshort
  obtain rfl : n = -129 := Int32.toInt_inj.1 hn
  have hsipush := hpushes.executed (.sipush (-129)) rfl []
  have hldc : ((Operation.float 0xFF800001).instruction.resolve ConstantPool.empty).1 = .ok (.ldc ⟨1⟩) := by
    cbv
  have hnan := (hfloat 0xFF800001).executed (.ldc ⟨1⟩) hldc [0x57]
  exact ⟨hok, hsipush, ⟨1⟩, hldc, hnan⟩

end Stack

end JvmCodegen
