/-
**Running code on values.**

The types of the values on the stack say whether code is well typed, but not what it computes.  Here code
runs on the values themselves, and on a memory.  Constants, copies of values and arrays are all that the
machine knows about; local variables, fields, methods, checked casts and arithmetic are outside of it.  Of
what is outside, two things are known: it gives back as much as the instruction says, and it cannot reach
an array that nobody refers to.

So an array stays as it is as long as nothing but the code that is about to use it has a reference to it.
This is what makes it possible to fill a new array with values that are computed while it is there already.

Main definitions:

* `Stack.Value`, `Stack.Value.isOf` — values, and whether they are of a type;
* `Stack.Memory`, `Stack.Environment` — arrays and the rest of the world, and what is outside the machine;
* `Stack.Role`, `Instruction.role` — what an instruction is to the machine;
* `Stack.ValueMachine.step`, `Stack.ValueMachine.run` — running code on values;
* `Stack.ValueMachine.IsPrivate` — nothing refers to an array.

Main results:

* `Stack.ValueMachine.step_cases` — what an instruction can do;
* `Stack.ValueMachine.run_private` — **an array that nothing refers to stays as it is**;
* `Stack.ValueMachine.slots_run` — **the height of the stack changes as counted**.
-/

import JvmCodegen.Proofs.Stack.TypedMachine

set_option relaxedAutoImplicit false
set_option autoImplicit false

namespace JvmCodegen

namespace Stack

/-! ### Values -/

/-- A value on the operand stack. Texts, class objects and method handles are known by what they stand for,
and arrays by their addresses. -/
inductive Value
  | int (value : Int32)
  | long (value : Int64)
  | float (bits : UInt32)
  | double (bits : UInt64)
  | null
  | text (value : String)
  /-- The class object of a type, or of `void`. -/
  | classObject (type : Option ValueType)
  | methodHandle (target : Method)
  | array (address : Nat) (component : ValueType)
  /-- Any other instance of a class. -/
  | object (identity : Nat) (type : Class)
deriving DecidableEq

namespace Value

/-- The type of a value on the stack. -/
def stackType : Value → StackType
  | int _ => .int
  | long _ => .long
  | float _ => .float
  | double _ => .double
  | null => .null
  | text _ => .ref (.object Java.string)
  | classObject _ => .ref (.object Java.classClass)
  | methodHandle _ => .ref (.object Java.object)
  | array _ component => .ref (.array component)
  | object _ type => .ref (.object type)

/-- The number of slots of a value. -/
def slots (v : Value) : Nat := v.stackType.slots

/-- The value is a reference to the array at an address. -/
def RefersTo (address : Nat) : Value → Prop
  | array a _ => a = address
  | _ => False

/-- The value is one of the type. A truth value, a character or a small number is in the range of its
type. -/
def isOf (g : ClassGraph) (t : ValueType) : Value → Bool
  | int v =>
      match t with
      | .primitive p =>
          p.intRange?.any fun (least, greatest) => decide (least ≤ v.toInt ∧ v.toInt ≤ greatest)
      | .reference _ => false
  | v => v.stackType.fits g t

/-- What a cell of an array holds before anything is stored. -/
def initial : ValueType → Value
  | .primitive .long => long 0
  | .primitive .float => float 0
  | .primitive .double => double 0
  | .primitive _ => int 0
  | .reference _ => null

/-- The number in a range that has the same low bits. -/
def wrap (least greatest : Int) (v : Int32) : Int32 :=
  Int32.ofInt (least + (v.toInt - least) % (greatest - least + 1))

/-- What is left of a value once it is stored into an array of components of a type, if it can be stored
there: the low bits of a number, and a reference that belongs there. -/
def stored (g : ClassGraph) (component : ValueType) : Value → Option Value
  | int v =>
      match component with
      | .primitive p => p.intRange?.map fun (least, greatest) => int (wrap least greatest v)
      | .reference _ => none
  | v => if v.stackType.fits g component then some v else none

theorem not_refersTo_initial (t : ValueType) (address : Nat) : ¬ (initial t).RefersTo address := by
  rcases t with p | r
  · cases p <;> exact id
  · exact id

theorem wrap_of_range {least greatest : Int} {v : Int32} (hleast : least ≤ v.toInt)
    (hgreatest : v.toInt ≤ greatest) : wrap least greatest v = v := by
  have hmod : (v.toInt - least) % (greatest - least + 1) = v.toInt - least :=
    Int.emod_eq_of_lt (by omega) (by omega)
  have hsum : least + (v.toInt - least) = v.toInt := by omega
  rw [wrap, hmod, hsum, Int32.ofInt_toInt]

/-- **A value of the type of the components is stored as it is.** -/
theorem stored_of_isOf {g : ClassGraph} {t : ValueType} {v : Value} (h : v.isOf g t = true) :
    v.stored g t = some v := by
  cases v with
  | int v =>
      rcases t with p | r
      · obtain ⟨⟨least, greatest⟩, hrange, hin⟩ := (Option.any_eq_true _ _).1 h
        obtain ⟨hleast, hgreatest⟩ := of_decide_eq_true hin
        simp only [stored, hrange, Option.map_some, wrap_of_range hleast hgreatest]
      · cases h
  | long | float | double | null | text | classObject | methodHandle | array | object =>
      exact if_pos h

/-- What is stored takes the room of a component, and is a reference only if it was one. -/
theorem of_stored {g : ClassGraph} {t : ValueType} {v w : Value} (h : v.stored g t = some w) :
    v.slots = t.slots ∧ ∀ address, w.RefersTo address → v.RefersTo address := by
  cases v with
  | int v =>
      rcases t with p | r
      · obtain ⟨range, hrange, rfl⟩ := Option.map_eq_some_iff.1 h
        refine ⟨?_, fun _ => id⟩
        cases p <;> first | rfl | cases hrange
      · cases h
  | long | float | double | null | text | classObject | methodHandle | array | object =>
      obtain ⟨hfits, rfl⟩ := Option.ite_some_none_eq_some.1 h
      exact ⟨StackType.slots_of_fits hfits, fun _ => id⟩

/-- A value of a type takes the room of the type. -/
theorem slots_of_isOf {g : ClassGraph} {t : ValueType} {v : Value} (h : v.isOf g t = true) :
    v.slots = t.slots := (of_stored (stored_of_isOf h)).1

end Value

/-- The number of slots of all values together. -/
def valueSlots (values : List Value) : Nat := stackSlots (values.map Value.stackType)

@[simp] theorem valueSlots_nil : valueSlots [] = 0 := rfl

@[simp] theorem valueSlots_cons (v : Value) (values : List Value) :
    valueSlots (v :: values) = v.slots + valueSlots values := rfl

@[simp] theorem valueSlots_append (a b : List Value) :
    valueSlots (a ++ b) = valueSlots a + valueSlots b := by
  rw [valueSlots, List.map_append, stackSlots_append]
  rfl

theorem valueSlots_flatten (copies : Nat) (values : List Value) :
    valueSlots (List.replicate copies values).flatten = copies * valueSlots values := by
  rw [valueSlots, List.map_flatten, List.map_replicate, TypedMachine.slots_flatten]
  rfl

/-! ### Memory -/

/-- An array: the type of its components, and what its cells hold. -/
structure ArrayObject where
  component : ValueType
  cells : List Value

/-- The arrays that there are, by their addresses, and the rest of the world. -/
structure Memory (World : Type) where
  world : World
  arrays : List ArrayObject

namespace Memory

variable {World : Type}

/-- A new array, at the next address. -/
def allocate (m : Memory World) (component : ValueType) (length : Nat) : Memory World :=
  { m with arrays := m.arrays ++ [⟨component, List.replicate length (Value.initial component)⟩] }

/-- A value stored into one cell of an array. -/
def store (m : Memory World) (address index : Nat) (v : Value) : Memory World :=
  { m with arrays := m.arrays.modify address fun a => { a with cells := a.cells.set index v } }

/-- **Nothing in the memory refers to an address**: no cell of an array does, and nothing else in the
world. -/
structure Hides (refersTo : World → Nat → Prop) (m : Memory World) (address : Nat) : Prop where
  world : ¬ refersTo m.world address
  cells : ∀ a ∈ m.arrays, ∀ v ∈ a.cells, ¬ v.RefersTo address

variable {refersTo : World → Nat → Prop} {m : Memory World} {address : Nat}

theorem getElem?_allocate (m : Memory World) (component : ValueType) (length : Nat) :
    (m.allocate component length).arrays[m.arrays.length]? =
      some ⟨component, List.replicate length (Value.initial component)⟩ := by
  simp [allocate]

theorem getElem?_allocate_of_lt (h : address < m.arrays.length) (component : ValueType) (length : Nat) :
    (m.allocate component length).arrays[address]? = m.arrays[address]? :=
  List.getElem?_append_left h

theorem getElem?_store {a : ArrayObject} (h : m.arrays[address]? = some a) (index : Nat) (v : Value) :
    (m.store address index v).arrays[address]? = some { a with cells := a.cells.set index v } := by
  simp [store, h]

theorem getElem?_store_of_ne (m : Memory World) {other : Nat} (h : other ≠ address) (index : Nat) (v : Value) :
    (m.store other index v).arrays[address]? = m.arrays[address]? := by
  simp [store, h]

/-- A new array refers to nothing. -/
theorem Hides.allocate (h : m.Hides refersTo address) (component : ValueType) (length : Nat) :
    (m.allocate component length).Hides refersTo address := by
  refine ⟨h.world, fun a ha v hv => ?_⟩
  rcases List.mem_append.1 ha with ha | ha
  · exact h.cells a ha v hv
  · rw [List.mem_singleton.1 ha] at hv
    rw [(List.mem_replicate.1 hv).2]
    exact Value.not_refersTo_initial component address

/-- Storing a value that does not refer to an array keeps it hidden. -/
theorem Hides.store (h : m.Hides refersTo address) {v : Value} (hv : ¬ v.RefersTo address)
    (other index : Nat) : (m.store other index v).Hides refersTo address := by
  refine ⟨h.world, fun a ha w hw => ?_⟩
  obtain ⟨n, hn⟩ := List.mem_iff_getElem?.1 ha
  rw [Memory.store, List.getElem?_modify] at hn
  obtain ⟨b, hb, rfl⟩ := Option.map_eq_some_iff.1 hn
  have hb := List.mem_of_getElem? hb
  split at hw
  · rcases List.mem_or_eq_of_mem_set hw with hw | rfl
    · exact h.cells b hb w hw
    · exact hv
  · exact h.cells b hb w hw

end Memory

/-- **What is outside the machine**: classes, and all that instructions do with anything but constants and
arrays. -/
structure Environment (World : Type) where
  graph : ClassGraph
  /-- The world holds a reference to the array at an address. -/
  refersTo : World → Nat → Prop
  /-- What an instruction does with the values that it takes from the stack, the topmost first. -/
  act : SymbolicInstruction → List Value → Memory World → Option (List Value × Memory World)
  /-- It gives back values of as many slots as the instruction pushes. -/
  slots_act : ∀ {i args m results m'}, act i args m = some (results, m') →
    valueSlots results = i.slotEffect.pushed
  /-- An array that it is not given, and that nothing in the memory refers to, stays as it is and stays
  hidden. -/
  act_hidden : ∀ {i args m results m' address}, act i args m = some (results, m') →
    address < m.arrays.length → m.Hides refersTo address → (∀ v ∈ args, ¬ v.RefersTo address) →
    m'.arrays[address]? = m.arrays[address]? ∧ m'.Hides refersTo address ∧
      ∀ v ∈ results, ¬ v.RefersTo address

/-! ### Instructions -/

/-- What an instruction is to the machine. -/
inductive Role
  /-- It pushes a constant. -/
  | push (v : Value)
  /-- It leaves so many copies of the values in the topmost slots. -/
  | copy (slots copies : Nat)
  /-- It creates an array. -/
  | create (component : ValueType)
  /-- It stores a value into an array. -/
  | store (op : BareOp)
  /-- It leaves the method, or its operand does not belong to it. -/
  | stop
  /-- It is about something outside. -/
  | outside
deriving DecidableEq

/-- What the role of an instruction says about its slots. -/
def Role.Suits : Role → SlotEffect → Prop
  | push v, e => e = ⟨0, v.slots⟩ ∧ ∀ address, ¬ v.RefersTo address
  | copy n copies, e => e.net = copies * n - n
  | create _, e => e.net = 0
  | store op, e => e = op.slotEffect
  | stop, _ | outside, _ => True

end Stack

open Stack

/-- The value that a literal stands for. -/
def Literal.value : Literal → Value
  | .text value => .text value
  | .type value => .classObject (some (.reference value))
  | .int value => .int value
  | .long value => .long value
  | .float bits => .float bits
  | .double bits => .double bits
  | .methodHandle target => .methodHandle target

namespace BareOp

/-- What an instruction without operands is to the machine. -/
def role : BareOp → Role
  | aconstNull => .push .null
  | iconstM1 => .push (.int (-1))
  | iconst0 => .push (.int 0)
  | iconst1 => .push (.int 1)
  | iconst2 => .push (.int 2)
  | iconst3 => .push (.int 3)
  | iconst4 => .push (.int 4)
  | iconst5 => .push (.int 5)
  | lconst0 => .push (.long 0)
  | lconst1 => .push (.long 1)
  | fconst0 => .push (.float 0)
  | fconst1 => .push (.float 0x3F800000)
  | fconst2 => .push (.float 0x40000000)
  | dconst0 => .push (.double 0)
  | dconst1 => .push (.double 0x3FF0000000000000)
  | iastore => .store iastore
  | lastore => .store lastore
  | fastore => .store fastore
  | dastore => .store dastore
  | aastore => .store aastore
  | bastore => .store bastore
  | castore => .store castore
  | sastore => .store sastore
  | pop => .copy 1 0
  | pop2 => .copy 2 0
  | dup => .copy 1 2
  | dup2 => .copy 2 2
  | i2l | i2f | i2d | l2f | l2d | f2d => .outside
  | ireturn | lreturn | freturn | dreturn | areturn | voidReturn => .stop

/-- The arrays that an instruction stores into, by the type of their components. -/
def storesInto : BareOp → ValueType → Bool
  | iastore, .primitive .int => true
  | lastore, .primitive .long => true
  | fastore, .primitive .float => true
  | dastore, .primitive .double => true
  | bastore, .primitive .byte | bastore, .primitive .boolean => true
  | castore, .primitive .char => true
  | sastore, .primitive .short => true
  | aastore, .reference _ => true
  | _, _ => false

/-- Storing takes an array, an index and a component. -/
theorem net_of_storesInto {op : BareOp} {t : ValueType} (h : op.storesInto t = true) :
    op.slotEffect.net = -(2 + t.slots) := by
  rcases t with p | r
  · cases op <;> cases p <;> first | rfl | cases h
  · cases op <;> first | rfl | cases h

end BareOp

namespace Instruction

/-- **What an instruction is to the machine.** -/
def role : SymbolicInstruction → Role
  | .bare op => op.role
  | .bipush value => .push (.int value.toInt32)
  | .sipush value => .push (.int value.toInt32)
  | .ldc literal => if literal.isWide then .stop else .push literal.value
  | .ldc2 literal => if literal.isWide then .push literal.value else .stop
  | .newArray element => .create (.primitive element)
  | .newRefArray element => .create (.reference element)
  | .access op f => if op.isStatic == f.isStatic then .outside else .stop
  | .invoke kind m => if kind.hasReceiver == !m.isStatic then .outside else .stop
  | .load _ _ | .checkCast _ => .outside

/-- What the machine does not stop at belongs together with its operand. -/
theorem isApt_of_role {i : SymbolicInstruction} (h : i.role ≠ .stop) : i.isApt = true := by
  cases i with
  | bare | bipush | sipush | load | newArray | newRefArray | checkCast => rfl
  | ldc literal | ldc2 literal => cases hwide : literal.isWide <;> simp [role, isApt, hwide] at h ⊢
  | access op f =>
      rw [role] at h
      exact Decidable.by_contra fun hne => h (if_neg hne)
  | invoke kind m =>
      rw [role] at h
      exact Decidable.by_contra fun hne => h (if_neg hne)

/-- Instructions are to the machine what their slots say, and constants refer to no array. -/
theorem suits_role (i : SymbolicInstruction) : i.role.Suits i.slotEffect := by
  cases i with
  | bare op => cases op <;> first | exact trivial | rfl | exact ⟨rfl, fun _ => id⟩
  | bipush | sipush => exact ⟨rfl, fun _ => id⟩
  | ldc literal | ldc2 literal => cases literal <;> first | exact trivial | exact ⟨rfl, fun _ => id⟩
  | newArray | newRefArray => rfl
  | load | checkCast => exact trivial
  | access | invoke =>
      rw [role]
      split <;> exact trivial

theorem suits_of_role {i : SymbolicInstruction} {role : Role} (h : i.role = role) :
    role.Suits i.slotEffect := h ▸ i.suits_role

end Instruction

/-! ### The machine -/

namespace Stack

/-- The values on the stack, and the memory. -/
structure ValueState (World : Type) where
  stack : List Value
  memory : Memory World

namespace ValueMachine

variable {World : Type}

/-- The topmost values that have so many slots together, and what lies below them. -/
def split (n : Nat) (stack : List Value) : Option (List Value × List Value) :=
  (TypedMachine.split n (stack.map Value.stackType)).map fun (top, _) => stack.splitAt top.length

/-- Replace a length on top of the stack by a new array. -/
def create (component : ValueType) : ValueState World → Option (ValueState World)
  | ⟨.int n :: stack, m⟩ =>
      if 0 ≤ n.toInt then
        some ⟨.array m.arrays.length component :: stack, m.allocate component n.toInt.toNat⟩
      else none
  | _ => none

/-- Store the value on top of the stack into the array below it, at the index between them. -/
def store (g : ClassGraph) (op : BareOp) : ValueState World → Option (ValueState World)
  | ⟨v :: .int index :: .array address _ :: stack, m⟩ =>
      m.arrays[address]?.bind fun a =>
        if op.storesInto a.component ∧ 0 ≤ index.toInt ∧ index.toInt < a.cells.length then
          (v.stored g a.component).map fun v => ⟨stack, m.store address index.toInt.toNat v⟩
        else none
  | _ => none

/-- **One instruction**, on the values on the stack. -/
def step (E : Environment World) (i : SymbolicInstruction) (st : ValueState World) :
    Option (ValueState World) :=
  match i.role with
  | .push v => some ⟨v :: st.stack, st.memory⟩
  | .copy n copies =>
      (split n st.stack).map fun (top, rest) =>
        ⟨(List.replicate copies top).flatten ++ rest, st.memory⟩
  | .create component => create component st
  | .store op => store E.graph op st
  | .stop => none
  | .outside =>
      (split i.slotEffect.popped st.stack).bind fun (args, rest) =>
        (E.act i args st.memory).map fun (results, m) => ⟨results ++ rest, m⟩

/-- **The instructions of a list**, one after the other. -/
def run (E : Environment World) : List SymbolicInstruction → ValueState World → Option (ValueState World)
  | [], st => some st
  | i :: code, st => (step E i st).bind (run E code)

variable {E : Environment World} {st st' : ValueState World}

theorem step_of_push {i : SymbolicInstruction} {v : Value} (h : i.role = .push v) (st : ValueState World) :
    step E i st = some ⟨v :: st.stack, st.memory⟩ := by
  rw [step, h]

theorem run_singleton (i : SymbolicInstruction) (st : ValueState World) :
    run E [i] st = step E i st := by
  rw [run]
  cases step E i st <;> rfl

theorem run_append (code more : List SymbolicInstruction) (st : ValueState World) :
    run E (code ++ more) st = (run E code st).bind (run E more) := by
  induction code generalizing st with
  | nil => rfl
  | cons i code ih =>
      rw [List.cons_append, run, run]
      cases step E i st with
      | none => rfl
      | some next => exact ih next

/-! ### What an instruction can do -/

/-- Values on top of the stack are those in as many slots as they have together. -/
theorem split_append (values rest : List Value) :
    split (valueSlots values) (values ++ rest) = some (values, rest) := by
  have htypes : TypedMachine.split (valueSlots values) ((values ++ rest).map Value.stackType) =
      some (values.map Value.stackType, rest.map Value.stackType) := by
    rw [List.map_append]
    exact TypedMachine.split_append _ _
  rw [split, htypes, Option.map_some]
  simp [List.splitAt_eq]

theorem step_of_copy {i : SymbolicInstruction} {n copies : Nat} (h : i.role = .copy n copies)
    (values : List Value) (hroom : valueSlots values = n) (rest : List Value) (m : Memory World) :
    step E i ⟨values ++ rest, m⟩ = some ⟨(List.replicate copies values).flatten ++ rest, m⟩ := by
  rw [step, h]
  simp only [← hroom, split_append, Option.map_some]

theorem step_of_outside {i : SymbolicInstruction} (h : i.role = .outside) (args : List Value)
    (hroom : valueSlots args = i.slotEffect.popped) (rest : List Value) (m : Memory World) :
    step E i ⟨args ++ rest, m⟩ =
      (E.act i args m).map fun (results, m) => ⟨results ++ rest, m⟩ := by
  rw [step, h]
  simp only [← hroom, split_append, Option.bind_some]

theorem of_split {n : Nat} {stack top rest : List Value} (h : split n stack = some (top, rest)) :
    valueSlots top = n ∧ stack = top ++ rest := by
  obtain ⟨⟨types, below⟩, hsplit, heq⟩ := Option.map_eq_some_iff.1 h
  obtain ⟨hslots, htypes⟩ := TypedMachine.slots_split hsplit
  simp only [List.splitAt_eq, Prod.mk.injEq] at heq
  obtain ⟨rfl, rfl⟩ := heq
  refine ⟨?_, (List.take_append_drop _ _).symm⟩
  rw [valueSlots, List.map_take, htypes, List.take_left, hslots]

theorem of_create {component : ValueType} (h : create component st = some st') :
    ∃ n stack, st.stack = .int n :: stack ∧
      st' = ⟨.array st.memory.arrays.length component :: stack,
        st.memory.allocate component n.toInt.toNat⟩ := by
  unfold create at h
  split at h
  · obtain ⟨-, rfl⟩ := Option.ite_some_none_eq_some.1 h
    exact ⟨_, _, rfl, rfl⟩
  · cases h

theorem of_store {g : ClassGraph} {op : BareOp} (h : store g op st = some st') :
    ∃ v index address type stack a w, st.stack = v :: .int index :: .array address type :: stack ∧
      st.memory.arrays[address]? = some a ∧ op.storesInto a.component = true ∧
      v.stored g a.component = some w ∧ st' = ⟨stack, st.memory.store address index.toInt.toNat w⟩ := by
  unfold store at h
  split at h
  · obtain ⟨a, ha, h⟩ := Option.bind_eq_some_iff.1 h
    split at h
    case isTrue hfits =>
        obtain ⟨w, hw, rfl⟩ := Option.map_eq_some_iff.1 h
        exact ⟨_, _, _, _, _, a, w, rfl, ha, hfits.1, hw, rfl⟩
    case isFalse => cases h
  · cases h

/-- **What an instruction can do.** -/
theorem step_cases {i : SymbolicInstruction} (h : step E i st = some st') :
    (∃ v, i.role = .push v ∧ st' = ⟨v :: st.stack, st.memory⟩) ∨
    (∃ n copies top rest, i.role = .copy n copies ∧ split n st.stack = some (top, rest) ∧
      st' = ⟨(List.replicate copies top).flatten ++ rest, st.memory⟩) ∨
    (∃ component, i.role = .create component ∧ create component st = some st') ∨
    (∃ op, i.role = .store op ∧ store E.graph op st = some st') ∨
    ∃ args rest results m, i.role = .outside ∧
      split i.slotEffect.popped st.stack = some (args, rest) ∧
      E.act i args st.memory = some (results, m) ∧ st' = ⟨results ++ rest, m⟩ := by
  unfold step at h
  cases hrole : i.role with
  | push v =>
      rw [hrole] at h
      cases h
      exact .inl ⟨v, rfl, rfl⟩
  | copy n copies =>
      rw [hrole] at h
      obtain ⟨⟨top, rest⟩, hsplit, rfl⟩ := Option.map_eq_some_iff.1 h
      exact .inr (.inl ⟨n, copies, top, rest, rfl, hsplit, rfl⟩)
  | create component =>
      rw [hrole] at h
      exact .inr (.inr (.inl ⟨component, rfl, h⟩))
  | store op =>
      rw [hrole] at h
      exact .inr (.inr (.inr (.inl ⟨op, rfl, h⟩)))
  | stop =>
      rw [hrole] at h
      cases h
  | outside =>
      rw [hrole] at h
      obtain ⟨⟨args, rest⟩, hsplit, h⟩ := Option.bind_eq_some_iff.1 h
      obtain ⟨⟨results, m⟩, hact, rfl⟩ := Option.map_eq_some_iff.1 h
      exact .inr (.inr (.inr (.inr ⟨args, rest, results, m, rfl, hsplit, hact, rfl⟩)))

theorem role_ne_stop {i : SymbolicInstruction} (h : step E i st = some st') : i.role ≠ .stop := by
  intro hrole
  rw [step, hrole] at h
  cases h

/-! ### Private arrays -/

/-- **Nothing refers to the array at an address**, neither on the stack nor in the memory. -/
structure IsPrivate (E : Environment World) (address : Nat) (st : ValueState World) : Prop where
  lt : address < st.memory.arrays.length
  hides : st.memory.Hides E.refersTo address
  stack : ∀ v ∈ st.stack, ¬ v.RefersTo address

/-- What is known of an address once code has run: the array is the same, and it is still private. -/
def Keeps (E : Environment World) (address : Nat) (st st' : ValueState World) : Prop :=
  st'.memory.arrays[address]? = st.memory.arrays[address]? ∧ IsPrivate E address st'

theorem lt_of_getElem?_eq {a b : List ArrayObject} {n : Nat} (h : b[n]? = a[n]?) (hn : n < a.length) :
    n < b.length := by
  rw [List.getElem?_eq_getElem hn] at h
  exact (List.getElem?_eq_some_iff.1 h).1

/-- **An instruction does not touch an array that nothing refers to.** -/
theorem step_private {i : SymbolicInstruction} (h : step E i st = some st') {address : Nat}
    (hst : IsPrivate E address st) : Keeps E address st st' := by
  obtain ⟨hlt, hhides, hstack⟩ := hst
  rcases step_cases h with ⟨v, hrole, rfl⟩ | ⟨n, copies, top, rest, -, hsplit, rfl⟩ |
    ⟨component, -, h⟩ | ⟨op, -, h⟩ | ⟨args, rest, results, m, -, hsplit, hact, rfl⟩
  · -- what an instruction pushes by itself refers to no array
    refine ⟨rfl, hlt, hhides, fun w hw => ?_⟩
    rcases List.mem_cons.1 hw with rfl | hw
    · exact (Instruction.suits_of_role hrole).2 address
    · exact hstack w hw
  · obtain ⟨-, hparts⟩ := of_split hsplit
    refine ⟨rfl, hlt, hhides, fun w hw => hstack w ?_⟩
    rw [hparts]
    rcases List.mem_append.1 hw with hw | hw
    · obtain ⟨l, hl, hw⟩ := List.mem_flatten.1 hw
      rw [(List.mem_replicate.1 hl).2] at hw
      exact List.mem_append_left rest hw
    · exact List.mem_append_right top hw
  · -- the new array has another address
    obtain ⟨n, stack, heq, rfl⟩ := of_create h
    have hsame := Memory.getElem?_allocate_of_lt hlt component n.toInt.toNat
    refine ⟨hsame, lt_of_getElem?_eq hsame hlt, hhides.allocate component _, fun w hw => ?_⟩
    rcases List.mem_cons.1 hw with rfl | hw
    · exact (Nat.ne_of_lt hlt).symm
    · exact hstack w (heq ▸ List.mem_cons_of_mem _ hw)
  · obtain ⟨v, index, other, type, stack, a, w, heq, -, -, hw, rfl⟩ := of_store h
    -- the reference that is stored through is on the stack, so it is to another array
    have hne : other ≠ address := hstack (.array other type) (by simp [heq])
    have hv : ¬ v.RefersTo address := hstack v (by simp [heq])
    have hsame := st.memory.getElem?_store_of_ne hne index.toInt.toNat w
    refine ⟨hsame, lt_of_getElem?_eq hsame hlt,
      hhides.store (fun h => hv ((Value.of_stored hw).2 address h)) other _, fun u hu => ?_⟩
    exact hstack u (by simp [heq, hu])
  · obtain ⟨-, hparts⟩ := of_split hsplit
    obtain ⟨hsame, hhides', hresults⟩ := E.act_hidden hact hlt hhides fun v hv =>
      hstack v (hparts ▸ List.mem_append_left rest hv)
    refine ⟨hsame, lt_of_getElem?_eq hsame hlt, hhides', fun w hw => ?_⟩
    rcases List.mem_append.1 hw with hw | hw
    · exact hresults w hw
    · exact hstack w (hparts ▸ List.mem_append_right args hw)

/-- **Code does not touch an array that nothing refers to.** -/
theorem run_private {code : List SymbolicInstruction} (h : run E code st = some st') {address : Nat}
    (hst : IsPrivate E address st) : Keeps E address st st' := by
  induction code generalizing st with
  | nil =>
      cases h
      exact ⟨rfl, hst⟩
  | cons i code ih =>
      obtain ⟨next, hstep, hrun⟩ := Option.bind_eq_some_iff.1 h
      obtain ⟨hsame, hnext⟩ := step_private hstep hst
      obtain ⟨hsame', hst'⟩ := ih hrun hnext
      exact ⟨hsame'.trans hsame, hst'⟩

/-! ### The height of the stack -/

/-- **An instruction changes the height of the stack as counted.** -/
theorem slots_step {i : SymbolicInstruction} (h : step E i st = some st') :
    (valueSlots st'.stack : Int) = valueSlots st.stack + i.slotEffect.net := by
  rcases step_cases h with ⟨v, hrole, rfl⟩ | ⟨n, copies, top, rest, hrole, hsplit, rfl⟩ |
    ⟨component, hrole, h⟩ | ⟨op, hrole, h⟩ | ⟨args, rest, results, m, -, hsplit, hact, rfl⟩
  · rw [(Instruction.suits_of_role hrole).1, valueSlots_cons, SlotEffect.net]
    push_cast
    omega
  · obtain ⟨hroom, hparts⟩ := of_split hsplit
    have hnet : i.slotEffect.net = copies * n - n := Instruction.suits_of_role hrole
    rw [hparts, valueSlots_append, valueSlots_append, valueSlots_flatten, hroom, hnet]
    push_cast
    omega
  · obtain ⟨n, stack, heq, rfl⟩ := of_create h
    have hnet : i.slotEffect.net = 0 := Instruction.suits_of_role hrole
    rw [heq, hnet]
    exact (Int.add_zero _).symm
  · obtain ⟨v, index, address, type, stack, a, w, heq, -, hinto, hw, rfl⟩ := of_store h
    have hslots := (Value.of_stored hw).1
    have hrest : valueSlots (.int index :: .array address type :: stack) = 2 + valueSlots stack := by
      rw [valueSlots_cons, valueSlots_cons, ← Nat.add_assoc]
      rfl
    have heffect : i.slotEffect = op.slotEffect := Instruction.suits_of_role hrole
    rw [heq, heffect, BareOp.net_of_storesInto hinto, valueSlots_cons, hrest, hslots]
    push_cast
    omega
  · obtain ⟨hroom, hparts⟩ := of_split hsplit
    rw [hparts, valueSlots_append, valueSlots_append, hroom, E.slots_act hact, SlotEffect.net]
    push_cast
    omega

/-- **Code changes the height of the stack as counted**, and its instructions belong together with their
operands. -/
theorem slots_run {code : List SymbolicInstruction} (h : run E code st = some st') :
    (valueSlots st'.stack : Int) = valueSlots st.stack + netHeight code ∧
      ∀ i ∈ code, i.isApt = true := by
  induction code generalizing st with
  | nil =>
      cases h
      exact ⟨by simp, fun i hi => absurd hi List.not_mem_nil⟩
  | cons i code ih =>
      obtain ⟨next, hstep, hrun⟩ := Option.bind_eq_some_iff.1 h
      obtain ⟨hslots, hapt⟩ := ih hrun
      refine ⟨?_, fun j hj => ?_⟩
      · rw [hslots, slots_step hstep, netHeight_cons]
        omega
      · rcases List.mem_cons.1 hj with rfl | hj
        · exact Instruction.isApt_of_role (role_ne_stop hstep)
        · exact hapt j hj

end ValueMachine

end Stack

end JvmCodegen
