/-
**Names of instructions.**

Instructions without operands, accesses to fields and loads each have a name of one word, in which
every part begins with a capital letter.  The names are not the opcodes' own: forms that differ only
in the width of an operand share one.

Main definitions:

* `BareOp.all`, `FieldOp.all`, `ValueKind.all` — the instructions of each family;
* `BareOp.title`, `FieldOp.title`, `ValueKind.loadTitle` — their names;
* `ValueKind.title` — the name of a kind of values.

Main result: `BareOp.title_injective` — no two instructions without operands share a name.
-/

import JvmCodegen.Instruction

set_option relaxedAutoImplicit false
set_option autoImplicit false

namespace JvmCodegen

/-! ### Instructions without operands -/

namespace BareOp

/-- The instructions without operands, in the order of their declaration. -/
def all : List BareOp :=
  [aconstNull, iconstM1, iconst0, iconst1, iconst2, iconst3, iconst4, iconst5, lconst0, lconst1,
    fconst0, fconst1, fconst2, dconst0, dconst1, iastore, lastore, fastore, dastore, aastore,
    bastore, castore, sastore, pop, pop2, dup, dup2, i2l, i2f, i2d, l2f, l2d, f2d, ireturn,
    lreturn, freturn, dreturn, areturn, voidReturn]

theorem mem_all (op : BareOp) : op ∈ all := by cases op <;> decide

/-- The name of an instruction without operands. -/
def title : BareOp → String
  | aconstNull => "AConstNull"
  | iconstM1 => "IConstM1"
  | iconst0 => "IConst0"
  | iconst1 => "IConst1"
  | iconst2 => "IConst2"
  | iconst3 => "IConst3"
  | iconst4 => "IConst4"
  | iconst5 => "IConst5"
  | lconst0 => "LConst0"
  | lconst1 => "LConst1"
  | fconst0 => "FConst0"
  | fconst1 => "FConst1"
  | fconst2 => "FConst2"
  | dconst0 => "DConst0"
  | dconst1 => "DConst1"
  | iastore => "IAStore"
  | lastore => "LAStore"
  | fastore => "FAStore"
  | dastore => "DAStore"
  | aastore => "AAStore"
  | bastore => "BAStore"
  | castore => "CAStore"
  | sastore => "SAStore"
  | pop => "Pop"
  | pop2 => "Pop2"
  | dup => "Dup"
  | dup2 => "Dup2"
  | i2l => "I2L"
  | i2f => "I2F"
  | i2d => "I2D"
  | l2f => "L2F"
  | l2d => "L2D"
  | f2d => "F2D"
  | ireturn => "IReturn"
  | lreturn => "LReturn"
  | freturn => "FReturn"
  | dreturn => "DReturn"
  | areturn => "AReturn"
  | voidReturn => "Return"

theorem title_injective {a b : BareOp} (h : a.title = b.title) : a = b := by
  have distinct : ∀ a ∈ all, ∀ b ∈ all, a.title = b.title → a = b := by
    decide +kernel
  exact distinct a (mem_all a) b (mem_all b) h

end BareOp

/-! ### Accesses to fields -/

/-- The instructions that use a field. -/
def FieldOp.all : List FieldOp := [.getStatic, .putStatic, .getField, .putField]

/-- The name of an instruction that uses a field. -/
def FieldOp.title : FieldOp → String
  | getStatic => "GetStatic"
  | putStatic => "PutStatic"
  | getField => "GetField"
  | putField => "PutField"

/-! ### Loads -/

namespace ValueKind

/-- The kinds of values. -/
def all : List ValueKind := [int, long, float, double, reference]

/-- The name of a kind of values. -/
def title : ValueKind → String
  | int => "Integer"
  | long => "Long"
  | float => "Float"
  | double => "Double"
  | reference => "Reference"

/-- The name of the instruction that loads a value of a kind. -/
def loadTitle : ValueKind → String
  | int => "ILoad"
  | long => "LLoad"
  | float => "FLoad"
  | double => "DLoad"
  | reference => "ALoad"

end ValueKind

end JvmCodegen
