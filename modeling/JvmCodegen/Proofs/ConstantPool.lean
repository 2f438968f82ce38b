/-
**What the constants of a pool stand for.**

A constant refers to others by index, down to texts and numbers.  Following the indices spells out
the names, the descriptor or the value that it stands for.  An index that stands for something goes on
doing so as long as every constant stays where it was.

Main definitions:

* `FieldName`, `MethodName`, `LiteralName` — fields, methods and literals as a class file names them;
* `ConstantPool.readText?`, `ConstantPool.readType?`, `ConstantPool.readField?`,
  `ConstantPool.readMethod?`, `ConstantPool.readLiteral?` — following the indices;
* `ConstantPool.Extends` — every constant is where it was;
* `ConstantPool.Faithful` — the offsets are in order, and what is on record is right;
* `ConstantPool.Yields` — a computation keeps the pool faithful, and returns what it should.

Main results:

* `ConstantPool.Extends.parts` — an entry read through its parts;
* `ConstantPool.readField?_of_extends`, `ConstantPool.readMethod?_of_extends`,
  `ConstantPool.readLiteral?_of_extends` — what is read stays the same;
* `ConstantPool.Yields.bind` — one computation after another.
-/

import JvmCodegen.ConstantPool
import JvmCodegen.Proofs.OffsetList

set_option relaxedAutoImplicit false
set_option autoImplicit false

namespace JvmCodegen

/-! ### Names -/

/-- A field as a class file names it. -/
structure FieldName where
  owner : String
  name : String
  descriptor : String
deriving DecidableEq

/-- A method as a class file names it. -/
structure MethodName where
  owner : String
  name : String
  descriptor : String
  isInterface : Bool
deriving DecidableEq

/-- A literal as a class file names it. -/
inductive LiteralName
  | text (value : String)
  | type (name : String)
  | int (value : Int32)
  | long (value : Int64)
  | float (bits : UInt32)
  | double (bits : UInt64)
  | methodHandle (kind : HandleKind) (target : MethodName)
deriving DecidableEq

/-- The name of a field. -/
def Field.fullName (f : Field) : FieldName := ⟨f.owner.name.text, f.name.text, f.type.render⟩

/-- The name of a method. -/
def Method.fullName (m : Method) : MethodName :=
  ⟨m.owner.name.text, m.name.text, m.descriptor.render, m.owner.isInterface⟩

/-- The name of a literal. -/
def Literal.fullName : Literal → LiteralName
  | text value => .text value
  | type value => .type (ConstantPool.typeName value)
  | int value => .int value
  | long value => .long value
  | float bits => .float bits
  | double bits => .double bits
  | methodHandle target => .methodHandle (ConstantPool.handleKind target) target.fullName

namespace ConstantPool

/-! ### Following the indices -/

variable {constants later : OffsetList Constant} {i : PoolIndex}

/-- The constant of an index. -/
def constantAt? (constants : OffsetList Constant) (i : PoolIndex) : Option Constant :=
  constants.get? i.val.toNat

/-- The text of an index. -/
def readText? (constants : OffsetList Constant) (i : PoolIndex) : Option String :=
  match constantAt? constants i with
  | some (.utf8 content) => some content
  | _ => none

/-- The name of the class, or the descriptor of the array type, of an index. -/
def readType? (constants : OffsetList Constant) (i : PoolIndex) : Option String :=
  match constantAt? constants i with
  | some (.type name) => readText? constants name
  | _ => none

/-- The name and the descriptor of an index. -/
def readNameAndType? (constants : OffsetList Constant) (i : PoolIndex) : Option (String × String) :=
  match constantAt? constants i with
  | some (.nameAndType name descriptor) =>
      match readText? constants name, readText? constants descriptor with
      | some name, some descriptor => some (name, descriptor)
      | _, _ => none
  | _ => none

/-- The field of an index. -/
def readField? (constants : OffsetList Constant) (i : PoolIndex) : Option FieldName :=
  match constantAt? constants i with
  | some (.field owner member) =>
      match readType? constants owner, readNameAndType? constants member with
      | some owner, some (name, descriptor) => some ⟨owner, name, descriptor⟩
      | _, _ => none
  | _ => none

/-- The method of an index. -/
def readMethod? (constants : OffsetList Constant) (i : PoolIndex) : Option MethodName :=
  match constantAt? constants i with
  | some (.method owner member isInterface) =>
      match readType? constants owner, readNameAndType? constants member with
      | some owner, some (name, descriptor) => some ⟨owner, name, descriptor, isInterface⟩
      | _, _ => none
  | _ => none

/-- The literal of an index. -/
def readLiteral? (constants : OffsetList Constant) (i : PoolIndex) : Option LiteralName :=
  match constantAt? constants i with
  | some (.text content) => (readText? constants content).map .text
  | some (.type _) => (readType? constants i).map .type
  | some (.integer value) => some (.int value)
  | some (.long value) => some (.long value)
  | some (.float bits) => some (.float bits)
  | some (.double bits) => some (.double bits)
  | some (.methodHandle kind target) => (readMethod? constants target).map (.methodHandle kind)
  | _ => none

/-! ### What an index stands for -/

theorem readText?_eq_some_iff {content : String} :
    readText? constants i = some content ↔ constantAt? constants i = some (.utf8 content) := by
  grind [readText?]

theorem readType?_eq_some_iff {name : String} :
    readType? constants i = some name ↔
      ∃ content, constantAt? constants i = some (.type content) ∧
        readText? constants content = some name := by
  grind [readType?]

theorem readNameAndType?_eq_some_iff {pair : String × String} :
    readNameAndType? constants i = some pair ↔
      ∃ name descriptor, constantAt? constants i = some (.nameAndType name descriptor) ∧
        readText? constants name = some pair.1 ∧ readText? constants descriptor = some pair.2 := by
  grind [readNameAndType?]

theorem readField?_eq_some_iff {f : FieldName} :
    readField? constants i = some f ↔
      ∃ owner member, constantAt? constants i = some (.field owner member) ∧
        readType? constants owner = some f.owner ∧
        readNameAndType? constants member = some (f.name, f.descriptor) := by
  grind [readField?, FieldName]

theorem readMethod?_eq_some_iff {m : MethodName} :
    readMethod? constants i = some m ↔
      ∃ owner member, constantAt? constants i = some (.method owner member m.isInterface) ∧
        readType? constants owner = some m.owner ∧
        readNameAndType? constants member = some (m.name, m.descriptor) := by
  grind [readMethod?, MethodName]

/-! ### Growth -/

/-- Every constant is where it was. -/
def Extends (constants later : OffsetList Constant) : Prop :=
  ∀ i c, constantAt? constants i = some c → constantAt? later i = some c

theorem Extends.refl (constants : OffsetList Constant) : Extends constants constants :=
  fun _ _ h => h

theorem Extends.trans {last : OffsetList Constant} (h : Extends constants later)
    (h' : Extends later last) : Extends constants last :=
  fun i c hc => h' i c (h i c hc)

/-- **An entry read through its parts.** If an entry holds two indices, and each of them goes on standing
for what it stands for, then so does the entry. -/
theorem Extends.parts {α β : Type} (h : Extends constants later)
    {entry : PoolIndex → PoolIndex → Constant} {first : OffsetList Constant → PoolIndex → Option α}
    {second : OffsetList Constant → PoolIndex → Option β} {a : α} {b : β}
    (hfirst : ∀ {j}, first constants j = some a → first later j = some a)
    (hsecond : ∀ {k}, second constants k = some b → second later k = some b)
    (hread : ∃ j k, constantAt? constants i = some (entry j k) ∧ first constants j = some a ∧
      second constants k = some b) :
    ∃ j k, constantAt? later i = some (entry j k) ∧ first later j = some a ∧
      second later k = some b := by
  obtain ⟨j, k, hentry, ha, hb⟩ := hread
  exact ⟨j, k, h i _ hentry, hfirst ha, hsecond hb⟩

theorem readText?_of_extends (h : Extends constants later) {content : String}
    (hread : readText? constants i = some content) : readText? later i = some content :=
  readText?_eq_some_iff.2 (h i _ (readText?_eq_some_iff.1 hread))

theorem readType?_of_extends (h : Extends constants later) {name : String}
    (hread : readType? constants i = some name) : readType? later i = some name := by
  obtain ⟨content, hentry, hcontent⟩ := readType?_eq_some_iff.1 hread
  exact readType?_eq_some_iff.2 ⟨content, h i _ hentry, readText?_of_extends h hcontent⟩

theorem readNameAndType?_of_extends (h : Extends constants later) {pair : String × String}
    (hread : readNameAndType? constants i = some pair) : readNameAndType? later i = some pair :=
  readNameAndType?_eq_some_iff.2 (h.parts (readText?_of_extends h) (readText?_of_extends h)
    (readNameAndType?_eq_some_iff.1 hread))

theorem readField?_of_extends (h : Extends constants later) {f : FieldName}
    (hread : readField? constants i = some f) : readField? later i = some f :=
  readField?_eq_some_iff.2 (h.parts (readType?_of_extends h) (readNameAndType?_of_extends h)
    (readField?_eq_some_iff.1 hread))

theorem readMethod?_of_extends (h : Extends constants later) {m : MethodName}
    (hread : readMethod? constants i = some m) : readMethod? later i = some m :=
  readMethod?_eq_some_iff.2 (h.parts (readType?_of_extends h) (readNameAndType?_of_extends h)
    (readMethod?_eq_some_iff.1 hread))

theorem readLiteral?_of_extends (h : Extends constants later) {l : LiteralName}
    (hread : readLiteral? constants i = some l) : readLiteral? later i = some l := by
  unfold readLiteral? at hread ⊢
  split at hread
  case h_8 => cases hread
  case h_1 content hentry =>
      rw [h i _ hentry]
      obtain ⟨value, hvalue, rfl⟩ := Option.map_eq_some_iff.1 hread
      simp only [readText?_of_extends h hvalue, Option.map_some]
  case h_2 name hentry =>
      rw [h i _ hentry]
      obtain ⟨value, hvalue, rfl⟩ := Option.map_eq_some_iff.1 hread
      simp only [readType?_of_extends h hvalue, Option.map_some]
  case h_7 kind target hentry =>
      rw [h i _ hentry]
      obtain ⟨value, hvalue, rfl⟩ := Option.map_eq_some_iff.1 hread
      simp only [readMethod?_of_extends h hvalue, Option.map_some]
  all_goals
    rename_i hentry
    rw [h i _ hentry]
    exact hread

/-! ### Faithful pools -/

/-- What an index on record for a key has to stand for. -/
def Denotes (constants : OffsetList Constant) (i : PoolIndex) : PoolKey → Prop
  | .utf8 content => readText? constants i = some content
  | .text content => constantAt? constants i = some (.text content)
  | .integer value => constantAt? constants i = some (.integer value)
  | .float bits => constantAt? constants i = some (.float bits)
  | .long value => constantAt? constants i = some (.long value)
  | .double bits => constantAt? constants i = some (.double bits)
  | .type value => readType? constants i = some (typeName value)
  | .nameAndType name descriptor => constantAt? constants i = some (.nameAndType name descriptor)
  | .field value => readField? constants i = some value.fullName
  | .method value => readMethod? constants i = some value.fullName
  | .methodHandle kind target => constantAt? constants i = some (.methodHandle kind target)

theorem Denotes.mono {key : PoolKey} (h : Denotes constants i key) (hlater : Extends constants later) :
    Denotes later i key := by
  cases key with
  | utf8 => exact readText?_of_extends hlater h
  | type => exact readType?_of_extends hlater h
  | field => exact readField?_of_extends hlater h
  | method => exact readMethod?_of_extends hlater h
  | _ => exact hlater i _ h

/-- There is a constant under an index that stands for something. -/
theorem Denotes.exists_constantAt? {key : PoolKey} (h : Denotes constants i key) :
    ∃ c, constantAt? constants i = some c := by
  cases key with
  | utf8 => exact ⟨_, readText?_eq_some_iff.1 h⟩
  | type =>
      obtain ⟨name, hentry, -⟩ := readType?_eq_some_iff.1 h
      exact ⟨_, hentry⟩
  | field =>
      obtain ⟨owner, member, hentry, -⟩ := readField?_eq_some_iff.1 h
      exact ⟨_, hentry⟩
  | method =>
      obtain ⟨owner, member, hentry, -⟩ := readMethod?_eq_some_iff.1 h
      exact ⟨_, hentry⟩
  | _ => exact ⟨_, h⟩

/-- The offsets of the constants are in order and within bounds, and what is on record is right. -/
structure Faithful (pool : ConstantPool) : Prop where
  ordered : pool.constants.Ordered
  next_le : pool.constants.next ≤ 65535
  known : ∀ (key : PoolKey) (i : PoolIndex), pool.known[key]? = some i →
    Denotes pool.constants i key

theorem faithful_empty : empty.Faithful := by
  refine ⟨OffsetList.ordered_startingAt 1, by decide, fun key i h => ?_⟩
  rw [empty, Std.HashMap.getElem?_empty] at h
  cases h

/-! ### Computations -/

section Bind

variable {ε α β : Type} {pool : ConstantPool} {f : ExceptT ε (StateM ConstantPool) α}
  {next : α → ExceptT ε (StateM ConstantPool) β} {pool' : ConstantPool}

theorem bind_of_ok {a : α} (h : f pool = (.ok a, pool')) : (f >>= next) pool = next a pool' := by
  show ExceptT.bindCont next (f pool).1 (f pool).2 = _
  rw [h]
  rfl

theorem bind_of_error {e : ε} (h : f pool = (.error e, pool')) :
    (f >>= next) pool = (.error e, pool') := by
  show ExceptT.bindCont next (f pool).1 (f pool).2 = _
  rw [h]
  rfl

end Bind

/-- A computation has kept the pool faithful and all constants where they were, and unless it has
failed, its result is as it should be in the new pool. -/
structure Yields {ε α : Type} (pool : ConstantPool) (outcome : Except ε α × ConstantPool)
    (post : OffsetList Constant → α → Prop) : Prop where
  faithful : outcome.2.Faithful
  extends_ : Extends pool.constants outcome.2.constants
  result : ∀ a, outcome.1 = .ok a → post outcome.2.constants a

namespace Yields

variable {ε α β : Type} {pool : ConstantPool} {P : OffsetList Constant → α → Prop}
  {Q : OffsetList Constant → β → Prop}

theorem pure {a : α} (hpool : pool.Faithful) (h : P pool.constants a) :
    Yields pool ((Pure.pure a : ExceptT ε (StateM ConstantPool) α) pool) P :=
  ⟨hpool, .refl _, fun b hb => by cases hb; exact h⟩

theorem throw (hpool : pool.Faithful) (reason : ε) :
    Yields pool ((MonadExcept.throw reason : ExceptT ε (StateM ConstantPool) α) pool) P :=
  ⟨hpool, .refl _, fun b hb => by cases hb⟩

/-- **One computation after another.** What the first one returns may be used by the second one, in
the pool that the first one leaves. -/
theorem bind {m : ExceptT ε (StateM ConstantPool) α} {next : α → ExceptT ε (StateM ConstantPool) β}
    (hm : Yields pool (m pool) P)
    (hnext : ∀ a pool', pool'.Faithful → Extends pool.constants pool'.constants →
      P pool'.constants a → Yields pool' (next a pool') Q) :
    Yields pool ((m >>= next) pool) Q := by
  obtain ⟨hfaithful, hextends, hresult⟩ := hm
  cases hout : m pool with
  | mk outcome pool' =>
      rw [hout] at hfaithful hextends hresult
      cases outcome with
      | error reason =>
          rw [bind_of_error hout]
          exact ⟨hfaithful, hextends, nofun⟩
      | ok a =>
          have hrest := hnext a pool' hfaithful hextends (hresult a rfl)
          rw [bind_of_ok hout]
          exact ⟨hrest.faithful, hextends.trans hrest.extends_, hrest.result⟩

/-- What is made of the result, without asking the pool again. -/
theorem map {m : ExceptT ε (StateM ConstantPool) α} {f : α → β} (hm : Yields pool (m pool) P)
    (h : ∀ constants a, P constants a → Q constants (f a)) :
    Yields pool ((m >>= fun a => Pure.pure (f a)) pool) Q :=
  hm.bind fun a pool' hpool' _ ha => .pure hpool' (h pool'.constants a ha)

theorem mono {P' : OffsetList Constant → α → Prop} {outcome : Except ε α × ConstantPool}
    (h : Yields pool outcome P)
    (hP : ∀ constants a, Extends pool.constants constants → P constants a → P' constants a) :
    Yields pool outcome P' :=
  ⟨h.faithful, h.extends_, fun a ha => hP _ a h.extends_ (h.result a ha)⟩

theorem forget {outcome : Except ε α × ConstantPool} (h : Yields pool outcome P) :
    Yields pool outcome fun _ _ => True :=
  h.mono fun _ _ _ _ => trivial

end Yields

end ConstantPool

end JvmCodegen
