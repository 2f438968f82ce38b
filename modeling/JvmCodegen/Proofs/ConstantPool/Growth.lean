/-
**How a constant pool grows.**

A pool only ever grows at its end, one constant at a time.  Each constant is added for something that
is not on record, is built from indices that are, and has room.  Whatever a request does to a pool,
and whether it succeeds or not, comes down to such steps; so what holds of the empty pool and is kept
by one step holds of every pool.

Main definitions:

* `ConstantPool.Operand` — what a constant can stand for, without indices;
* `ConstantPool.index?` — the index on record for an operand;
* `ConstantPool.Builds` — the key and the constant that are made for an operand;
* `ConstantPool.Grows` — a pool after some constants have been added;
* `ConstantPool.Refuses` — why a request for an operand fails;
* `ConstantPool.Adds` — what a computation does to a pool, whether it succeeds or fails.

Main results:

* `ConstantPool.adds_intern` — **a constant is added for a key once**;
* `ConstantPool.adds_type`, `ConstantPool.adds_field`, `ConstantPool.adds_method`,
  `ConstantPool.adds_literal` — the requests.
-/

import JvmCodegen.Proofs.ConstantPool

set_option relaxedAutoImplicit false
set_option autoImplicit false

namespace JvmCodegen

/-- How deep the references of the constants for a key go. -/
def PoolKey.level : PoolKey → Nat
  | utf8 _ | integer _ | float _ | long _ | double _ => 0
  | text _ | type _ | nameAndType _ _ => 1
  | field _ | method _ => 2
  | methodHandle _ _ => 3

namespace ConstantPool

/-! ### Operands -/

/-- What a constant can stand for. -/
inductive Operand
  | utf8 (content : String)
  /-- A text that is loaded as a literal. -/
  | text (content : String)
  | integer (value : Int32)
  | float (bits : UInt32)
  | long (value : Int64)
  | double (bits : UInt64)
  | type (value : RefType Class)
  | nameAndType (name descriptor : String)
  | field (value : Field)
  | method (value : Method)
  | methodHandle (target : Method)

namespace Operand

/-- How deep the references of the constant for an operand go. -/
def level : Operand → Nat
  | utf8 _ | integer _ | float _ | long _ | double _ => 0
  | text _ | type _ | nameAndType _ _ => 1
  | field _ | method _ => 2
  | methodHandle _ => 3

theorem level_lt (o : Operand) : o.level < 4 := by
  cases o <;> simp [level]

/-- The operands whose constants the constant for an operand refers to. -/
def parts : Operand → List Operand
  | text content => [utf8 content]
  | type value => [utf8 (typeName value)]
  | nameAndType name descriptor => [utf8 name, utf8 descriptor]
  | field f => [type (.object f.owner), nameAndType f.name.text f.type.render]
  | method m => [type (.object m.owner), nameAndType m.name.text m.descriptor.render]
  | methodHandle target => [method target]
  | utf8 _ | integer _ | float _ | long _ | double _ => []

/-- The second operand needs to have a constant for the first one to have one. -/
inductive Needs : Operand → Operand → Prop
  | self (o : Operand) : Needs o o
  | part {o part p : Operand} (hpart : part ∈ o.parts) (hneeds : Needs part p) : Needs o p

/-- The constant of an index stands for the operand. -/
def IsReadAt (constants : OffsetList Constant) (i : PoolIndex) : Operand → Prop
  | utf8 content => readText? constants i = some content
  | text content => readLiteral? constants i = some (.text content)
  | integer value => readLiteral? constants i = some (.int value)
  | float bits => readLiteral? constants i = some (.float bits)
  | long value => readLiteral? constants i = some (.long value)
  | double bits => readLiteral? constants i = some (.double bits)
  | type value => readType? constants i = some (typeName value)
  | nameAndType name descriptor => readNameAndType? constants i = some (name, descriptor)
  | field value => readField? constants i = some value.fullName
  | method value => readMethod? constants i = some value.fullName
  | methodHandle target =>
      readLiteral? constants i = some (.methodHandle (handleKind target) target.fullName)

end Operand

/-- The key under which an operand is on record, if what it refers to is on record. -/
def key? (pool : ConstantPool) : Operand → Option PoolKey
  | .utf8 content => some (.utf8 content)
  | .text content => pool.known[PoolKey.utf8 content]?.map .text
  | .integer value => some (.integer value)
  | .float bits => some (.float bits)
  | .long value => some (.long value)
  | .double bits => some (.double bits)
  | .type value => some (.type value)
  | .nameAndType name descriptor =>
      pool.known[PoolKey.utf8 name]?.bind fun name =>
        pool.known[PoolKey.utf8 descriptor]?.map (.nameAndType name)
  | .field value => some (.field value)
  | .method value => some (.method value)
  | .methodHandle target =>
      pool.known[PoolKey.method target]?.map (.methodHandle (handleKind target))

/-- The index on record for an operand. -/
def index? (pool : ConstantPool) (o : Operand) : Option PoolIndex :=
  (pool.key? o).bind fun key => pool.known[key]?

/-- The key and the constant that are made for an operand, with the indices on record of its
parts. -/
inductive Builds (pool : ConstantPool) : Operand → PoolKey → Constant → Prop
  | utf8 {content : String} (hlength : ModifiedUtf8.length content ≤ 65535) :
      Builds pool (.utf8 content) (.utf8 content) (.utf8 content)
  | text {content : String} {i : PoolIndex} (hcontent : pool.index? (.utf8 content) = some i) :
      Builds pool (.text content) (.text i) (.text i)
  | integer (value : Int32) : Builds pool (.integer value) (.integer value) (.integer value)
  | float (bits : UInt32) : Builds pool (.float bits) (.float bits) (.float bits)
  | long (value : Int64) : Builds pool (.long value) (.long value) (.long value)
  | double (bits : UInt64) : Builds pool (.double bits) (.double bits) (.double bits)
  | type {t : RefType Class} {name : PoolIndex}
      (hname : pool.index? (.utf8 (typeName t)) = some name) :
      Builds pool (.type t) (.type t) (.type name)
  | nameAndType {name descriptor : String} {i j : PoolIndex}
      (hname : pool.index? (.utf8 name) = some i)
      (hdescriptor : pool.index? (.utf8 descriptor) = some j) :
      Builds pool (.nameAndType name descriptor) (.nameAndType i j) (.nameAndType i j)
  | field {f : Field} {owner member : PoolIndex}
      (howner : pool.index? (.type (.object f.owner)) = some owner)
      (hmember : pool.index? (.nameAndType f.name.text f.type.render) = some member) :
      Builds pool (.field f) (.field f) (.field owner member)
  | method {m : Method} {owner member : PoolIndex}
      (howner : pool.index? (.type (.object m.owner)) = some owner)
      (hmember : pool.index? (.nameAndType m.name.text m.descriptor.render) = some member) :
      Builds pool (.method m) (.method m) (.method owner member m.owner.isInterface)
  | methodHandle {target : Method} {i : PoolIndex} (htarget : pool.index? (.method target) = some i) :
      Builds pool (.methodHandle target) (.methodHandle (handleKind target) i)
        (.methodHandle (handleKind target) i)

variable {pool first : ConstantPool} {o : Operand} {key : PoolKey} {c : Constant}

theorem Builds.level_eq (h : pool.Builds o key c) : key.level = o.level := by
  cases h <;> rfl

/-- The parts of an operand are on record if its constant can be built. -/
theorem Builds.key?_eq (h : pool.Builds o key c) : pool.key? o = some key := by
  cases h with
  | text hcontent =>
      rw [index?, key?, Option.bind_some] at hcontent
      rw [key?, hcontent, Option.map_some]
  | nameAndType hname hdescriptor =>
      rw [index?, key?, Option.bind_some] at hname hdescriptor
      rw [key?, hname, hdescriptor, Option.bind_some, Option.map_some]
  | methodHandle htarget =>
      rw [index?, key?, Option.bind_some] at htarget
      rw [key?, htarget, Option.map_some]
  | _ => rfl

theorem Builds.index?_eq (h : pool.Builds o key c) : pool.index? o = pool.known[key]? := by
  rw [index?, h.key?_eq, Option.bind_some]

/-! ### Adding one constant -/

/-- The pool with one more constant, which is on record for a key. -/
def withConstant (pool : ConstantPool) (key : PoolKey) (c : Constant) : ConstantPool :=
  ⟨pool.constants.push c, pool.known.insert key ⟨UInt16.ofNat pool.constants.next⟩⟩

@[simp] theorem constants_withConstant (pool : ConstantPool) (key : PoolKey) (c : Constant) :
    (pool.withConstant key c).constants = pool.constants.push c := rfl

theorem known_withConstant (pool : ConstantPool) (key key' : PoolKey) (c : Constant) :
    (pool.withConstant key c).known[key']? =
      if key = key' then some ⟨UInt16.ofNat pool.constants.next⟩ else pool.known[key']? := by
  rw [withConstant, Std.HashMap.getElem?_insert]
  by_cases h : key = key'
  · rw [if_pos h, if_pos (beq_iff_eq.2 h)]
  · rw [if_neg h, if_neg fun hbeq => h (beq_iff_eq.1 hbeq)]

/-- An offset that a constant has room at is not cut off when it is made an index. -/
theorem toNat_ofNat_next (hroom : pool.constants.next + width c ≤ 65535) :
    (UInt16.ofNat pool.constants.next).toNat = pool.constants.next := by
  have := c.width_pos
  rw [UInt16.toNat_ofNat']
  exact Nat.mod_eq_of_lt (by omega)

theorem Faithful.extends_push (h : pool.Faithful) (c : Constant) :
    Extends pool.constants (pool.constants.push c) :=
  fun _ _ hd => OffsetList.get?_push_of_get? h.ordered (c.width_pos) hd

/-- A constant that is added is found under its index. -/
theorem Faithful.constantAt?_push (h : pool.Faithful)
    (hroom : pool.constants.next + width c ≤ 65535) :
    constantAt? (pool.constants.push c) ⟨UInt16.ofNat pool.constants.next⟩ = some c := by
  rw [constantAt?, toNat_ofNat_next hroom]
  exact OffsetList.get?_push_next h.ordered (c.width_pos)

/-- What is on record for an operand stands for it. -/
theorem Faithful.isReadAt (h : pool.Faithful) {i : PoolIndex} (hindex : pool.index? o = some i) :
    o.IsReadAt pool.constants i := by
  obtain ⟨key, hkey, hi⟩ := Option.bind_eq_some_iff.1 hindex
  have hdenotes := h.known key i hi
  cases o with
  | utf8 | type | field | method =>
      cases hkey
      exact hdenotes
  | integer | float | long | double =>
      cases hkey
      rw [Denotes] at hdenotes
      rw [Operand.IsReadAt, readLiteral?, hdenotes]
  | text content =>
      -- here the key has the index of another constant, which is read by its own key
      obtain ⟨j, hj, rfl⟩ := Option.map_eq_some_iff.1 hkey
      have hcontent : readText? pool.constants j = some content := h.known _ j hj
      rw [Denotes] at hdenotes
      simp only [Operand.IsReadAt, readLiteral?, hdenotes, hcontent, Option.map_some]
  | nameAndType name descriptor =>
      obtain ⟨j, hj, hkey⟩ := Option.bind_eq_some_iff.1 hkey
      obtain ⟨k, hk, rfl⟩ := Option.map_eq_some_iff.1 hkey
      have hname : readText? pool.constants j = some name := h.known _ j hj
      have hdescriptor : readText? pool.constants k = some descriptor := h.known _ k hk
      rw [Denotes] at hdenotes
      simp only [Operand.IsReadAt, readNameAndType?, hdenotes, hname, hdescriptor]
  | methodHandle target =>
      obtain ⟨j, hj, rfl⟩ := Option.map_eq_some_iff.1 hkey
      have htarget : readMethod? pool.constants j = some target.fullName := h.known _ j hj
      rw [Denotes] at hdenotes
      simp only [Operand.IsReadAt, readLiteral?, hdenotes, htarget, Option.map_some]

/-- A constant that is built for an operand stands for it. -/
theorem Builds.denotes (hbuilds : pool.Builds o key c) (h : pool.Faithful)
    {later : OffsetList Constant} (hlater : Extends pool.constants later) {i : PoolIndex}
    (hi : constantAt? later i = some c) : Denotes later i key := by
  cases hbuilds with
  | utf8 => rw [Denotes, readText?, hi]
  | type hname =>
      rw [Denotes, readType?, hi]
      exact readText?_of_extends hlater (h.isReadAt hname)
  | field howner hmember | method howner hmember =>
      have howner := readType?_of_extends hlater (h.isReadAt howner)
      have hmember := readNameAndType?_of_extends hlater (h.isReadAt hmember)
      simp only [Denotes, readField?, readMethod?, hi, howner, hmember]
      rfl
  | _ => exact hi

/-- **Adding a constant keeps a pool faithful.** -/
theorem Faithful.withConstant (h : pool.Faithful) (hbuilds : pool.Builds o key c)
    (hroom : pool.constants.next + width c ≤ 65535) : (pool.withConstant key c).Faithful := by
  have hextends := h.extends_push c
  refine ⟨h.ordered.push (c.width_pos), hroom, fun key' i hi => ?_⟩
  rw [known_withConstant] at hi
  split at hi
  case isTrue heq =>
      cases hi
      cases heq
      exact hbuilds.denotes h hextends (h.constantAt?_push hroom)
  case isFalse => exact (h.known key' i hi).mono hextends

/-! ### Growth -/

/-- The second pool comes out of the first by adding constants for operands below a level. None of
them was on record, and all of them have room. -/
inductive Grows (n : Nat) : ConstantPool → ConstantPool → Prop
  | refl (pool : ConstantPool) : Grows n pool pool
  | add {first pool : ConstantPool} {o : Operand} {key : PoolKey} {c : Constant}
      (h : Grows n first pool) (hlevel : o.level < n) (hbuilds : pool.Builds o key c)
      (hnew : pool.known[key]? = none) (hroom : pool.constants.next + width c ≤ 65535) :
      Grows n first (pool.withConstant key c)

namespace Grows

variable {last : ConstantPool} {n m : Nat}

theorem trans (h : Grows n first pool) (h' : Grows n pool last) : Grows n first last := by
  induction h' with
  | refl => exact h
  | add _ hlevel hbuilds hnew hroom ih => exact .add ih hlevel hbuilds hnew hroom

theorem mono (h : Grows n first pool) (hle : n ≤ m) : Grows m first pool := by
  induction h with
  | refl => exact .refl _
  | add _ hlevel hbuilds hnew hroom ih =>
      exact .add ih (Nat.lt_of_lt_of_le hlevel hle) hbuilds hnew hroom

/-- What is on record stays on record. -/
theorem known_eq_some (h : Grows n first pool) {i : PoolIndex}
    (hknown : first.known[key]? = some i) : pool.known[key]? = some i := by
  induction h with
  | refl => exact hknown
  | @add pool o key' c _ _ _ hnew _ ih =>
      -- a constant is only added for a key without one, so no entry is overwritten
      have hother : key' ≠ key := by
        rintro rfl
        rw [ih] at hnew
        cases hnew
      rw [known_withConstant, if_neg hother]
      exact ih

/-- Nothing is put on record above the level. -/
theorem known_eq_none (h : Grows n first pool) (hlevel : n ≤ key.level)
    (hknown : first.known[key]? = none) : pool.known[key]? = none := by
  induction h with
  | refl => exact hknown
  | @add pool o key' c _ hless hbuilds _ _ ih =>
      have hother : key' ≠ key := by
        rintro rfl
        rw [hbuilds.level_eq] at hlevel
        omega
      rw [known_withConstant, if_neg hother]
      exact ih

/-- The key of an operand stays the same. -/
theorem key?_eq_some (h : Grows n first pool) (hkey : first.key? o = some key) :
    pool.key? o = some key := by
  cases o with
  | text content | methodHandle target =>
      obtain ⟨j, hj, rfl⟩ := Option.map_eq_some_iff.1 hkey
      rw [key?, h.known_eq_some hj, Option.map_some]
  | nameAndType name descriptor =>
      obtain ⟨j, hj, hkey⟩ := Option.bind_eq_some_iff.1 hkey
      obtain ⟨k, hk, rfl⟩ := Option.map_eq_some_iff.1 hkey
      rw [key?, h.known_eq_some hj, Option.bind_some, h.known_eq_some hk, Option.map_some]
  | _ => exact hkey

/-- The index on record for an operand stays the same. -/
theorem index?_eq_some (h : Grows n first pool) {i : PoolIndex} (hindex : first.index? o = some i) :
    pool.index? o = some i := by
  obtain ⟨key, hkey, hi⟩ := Option.bind_eq_some_iff.1 hindex
  exact Option.bind_eq_some_iff.2 ⟨key, h.key?_eq_some hkey, h.known_eq_some hi⟩

/-- The constants of the first pool come first. -/
theorem isPrefix (h : Grows n first pool) : first.constants.toList <+: pool.constants.toList := by
  induction h with
  | refl => exact List.prefix_refl _
  | add _ _ _ _ _ ih =>
      rw [constants_withConstant, OffsetList.toList_push]
      exact ih.trans (List.prefix_append _ _)

/-- **A pool stays faithful.** -/
theorem faithful (h : Grows n first pool) (hfirst : first.Faithful) : pool.Faithful := by
  induction h with
  | refl => exact hfirst
  | add _ _ hbuilds _ hroom ih => exact ih.withConstant hbuilds hroom

/-- Every constant stays where it was. -/
theorem extends_ (h : Grows n first pool) (hfirst : first.Faithful) :
    Extends first.constants pool.constants := by
  induction h with
  | refl => exact .refl _
  | add h _ _ _ _ ih => exact ih.trans ((h.faithful hfirst).extends_push _)

end Grows

/-! ### What a computation does -/

/-- Why a request for an operand fails in a pool: something that it needs is not on record, and
either there is no room for its constant, or it is a text that is too long to be written. -/
inductive Refuses (pool : ConstantPool) (o : Operand) : PoolError → Prop
  | full {p : Operand} {key : PoolKey} {c : Constant} (hneeds : o.Needs p)
      (hnew : pool.index? p = none) (hbuilds : pool.Builds p key c)
      (hfull : 65535 < pool.constants.next + width c) :
      Refuses pool o (.full c pool.constants.next)
  | textTooLong {content : String} (hneeds : o.Needs (.utf8 content))
      (hnew : pool.index? (.utf8 content) = none) (hlong : 65535 < ModifiedUtf8.length content) :
      Refuses pool o (.textTooLong (ModifiedUtf8.length content))

/-- What is needed for a part is needed for the whole. -/
theorem Refuses.of_part {part : Operand} {e : PoolError} (h : pool.Refuses part e)
    (hpart : part ∈ o.parts) : pool.Refuses o e := by
  cases h with
  | full hneeds hnew hbuilds hfull => exact .full (.part hpart hneeds) hnew hbuilds hfull
  | textTooLong hneeds hnew hlong => exact .textTooLong (.part hpart hneeds) hnew hlong

/-- A computation adds constants below a level. If it succeeds, its result is as it should be in the
pool that it leaves, and if it fails, there is a reason for it in that pool. -/
structure Adds {ε α : Type} (n : Nat) (pool : ConstantPool) (outcome : Except ε α × ConstantPool)
    (post : ConstantPool → α → Prop) (reason : ConstantPool → ε → Prop) : Prop where
  grows : Grows n pool outcome.2
  result : ∀ a, outcome.1 = .ok a → post outcome.2 a
  failure : ∀ e, outcome.1 = .error e → reason outcome.2 e

namespace Adds

variable {ε α β : Type} {n m : Nat} {P : ConstantPool → α → Prop} {Q : ConstantPool → β → Prop}
  {R R' : ConstantPool → ε → Prop}

theorem pure {a : α} (h : P pool a) :
    Adds n pool ((Pure.pure a : ExceptT ε (StateM ConstantPool) α) pool) P R :=
  ⟨.refl _, fun b hb => by cases hb; exact h, nofun⟩

theorem throw {e : ε} (h : R pool e) :
    Adds n pool ((MonadExcept.throw e : ExceptT ε (StateM ConstantPool) α) pool) P R :=
  ⟨.refl _, nofun, fun e' he => by cases he; exact h⟩

/-- **One computation after another.** -/
theorem bind {f : ExceptT ε (StateM ConstantPool) α} {next : α → ExceptT ε (StateM ConstantPool) β}
    (hf : Adds n pool (f pool) P R)
    (hnext : ∀ a pool', Grows n pool pool' → P pool' a → Adds n pool' (next a pool') Q R) :
    Adds n pool ((f >>= next) pool) Q R := by
  obtain ⟨hgrows, hresult, hfailure⟩ := hf
  cases hout : f pool with
  | mk outcome pool' =>
      rw [hout] at hgrows hresult hfailure
      cases outcome with
      | error e =>
          rw [bind_of_error hout]
          exact ⟨hgrows, nofun, fun e' he => hfailure e' (by cases he; rfl)⟩
      | ok a =>
          have hrest := hnext a pool' hgrows (hresult a rfl)
          rw [bind_of_ok hout]
          exact ⟨hgrows.trans hrest.grows, hrest.result, hrest.failure⟩

theorem mono {P' : ConstantPool → α → Prop} {outcome : Except ε α × ConstantPool}
    (h : Adds n pool outcome P R) (hle : n ≤ m) (hP : ∀ pool' a, P pool' a → P' pool' a)
    (hR : ∀ pool' e, R pool' e → R' pool' e) : Adds m pool outcome P' R' :=
  ⟨h.grows.mono hle, fun a ha => hP _ a (h.result a ha), fun e he => hR _ e (h.failure e he)⟩

end Adds

/-- The index that is returned is on record for an operand, and a failure has a reason. -/
abbrev Finds (o : Operand) (pool : ConstantPool) (outcome : Except PoolError PoolIndex × ConstantPool) :
    Prop :=
  Adds (o.level + 1) pool outcome (fun pool' i => pool'.index? o = some i)
    fun pool' e => pool'.Refuses o e

/-- Finding a part of an operand, on the way to the operand. -/
theorem Finds.part {part : Operand} {n : Nat} {outcome : Except PoolError PoolIndex × ConstantPool}
    (h : Finds part pool outcome) (hpart : part ∈ o.parts) (hle : part.level + 1 ≤ n) :
    Adds n pool outcome (fun pool' i => pool'.index? part = some i) fun pool' e => pool'.Refuses o e :=
  h.mono hle (fun _ _ hi => hi) fun _ _ he => he.of_part hpart

/-- A computation adds constants below a level, whatever goes wrong on the way. -/
abbrev OnlyAdds {ε α : Type} (n : Nat) (m : ExceptT ε (StateM ConstantPool) α)
    (P : ConstantPool → α → Prop) : Prop :=
  ∀ pool : ConstantPool, Adds n pool (m pool) P fun _ _ => True

/-- Finding an index only adds constants. -/
theorem Finds.onlyAdds {n : Nat} {request : PoolM PoolIndex} (hlevel : o.level < n)
    (h : ∀ pool, Finds o pool (request pool)) :
    OnlyAdds n request fun pool' i => pool'.index? o = some i :=
  fun pool => (h pool).mono hlevel (fun _ _ hi => hi) fun _ _ _ => trivial

/-! ### Interning -/

theorem intern_of_known {i : PoolIndex} (h : pool.known[key]? = some i) (build : PoolM Constant) :
    intern key build pool = (.ok i, pool) := by
  rw [intern, h]

theorem intern_of_unknown (h : pool.known[key]? = none) (build : PoolM Constant) :
    intern key build pool =
      match build pool with
      | (.error e, pool) => (.error e, pool)
      | (.ok c, pool) =>
          if pool.constants.next + width c ≤ 65535 then
            (.ok ⟨UInt16.ofNat pool.constants.next⟩, pool.withConstant key c)
          else (.error (.full c pool.constants.next), pool) := by
  rw [intern, h]
  cases hout : build pool with
  | mk outcome pool' =>
      cases outcome with
      | error e => exact bind_of_error hout
      | ok c =>
          refine (bind_of_ok hout).trans ?_
          by_cases hroom : pool'.constants.next + width c ≤ 65535
          · have hadd : add c pool' = (.ok ⟨UInt16.ofNat pool'.constants.next⟩,
                { pool' with constants := pool'.constants.push c }) := by
              simp only [add, if_pos hroom]
            simp only [if_pos hroom]
            exact bind_of_ok hadd
          · have hadd : add c pool' = (.error (.full c pool'.constants.next), pool') := by
              simp only [add, if_neg hroom]
            simp only [if_neg hroom]
            exact bind_of_error hadd

/-- **A constant is added for a key once.** If there is none, `build` has to build the constant for
the operand, and adds only constants of a lower level. -/
theorem adds_intern {build : PoolM Constant} {n : Nat} (hkey : pool.index? o = pool.known[key]?)
    (hlevel : n ≤ o.level) (hbuild : pool.index? o = none →
      Adds n pool (build pool) (fun pool' c => pool'.Builds o key c) fun pool' e => pool'.Refuses o e) :
    Finds o pool (intern key build pool) := by
  cases hknown : pool.known[key]? with
  | some i =>
      rw [intern_of_known hknown]
      refine ⟨.refl _, fun j hj => ?_, nofun⟩
      cases hj
      rw [hkey, hknown]
  | none =>
      rw [intern_of_unknown hknown]
      obtain ⟨hgrows, hresult, hfailure⟩ := hbuild (hkey.trans hknown)
      have hgrows' := hgrows.mono (Nat.le_succ_of_le hlevel)
      cases hout : build pool with
      | mk outcome pool₁ =>
          rw [hout] at hgrows hresult hfailure hgrows'
          cases outcome with
          | error e =>
              exact ⟨hgrows', nofun, fun e' he => hfailure e' (by cases he; rfl)⟩
          | ok c =>
              have hbuilds := hresult c rfl
              -- what was built on the way is of a lower level, so the key is still unknown
              have hnew : pool₁.known[key]? = none :=
                hgrows.known_eq_none (hbuilds.level_eq ▸ hlevel) hknown
              by_cases hroom : pool₁.constants.next + width c ≤ 65535
              · have hadd : Grows (o.level + 1) pool₁ (pool₁.withConstant key c) :=
                  .add (.refl pool₁) (Nat.lt_succ_self _) hbuilds hnew hroom
                simp only [if_pos hroom]
                refine ⟨hgrows'.trans hadd, fun i hi => ?_, nofun⟩
                cases hi
                refine Option.bind_eq_some_iff.2 ⟨key, hadd.key?_eq_some hbuilds.key?_eq, ?_⟩
                rw [known_withConstant, if_pos rfl]
              · simp only [if_neg hroom]
                refine ⟨hgrows', nofun, fun e he => ?_⟩
                cases he
                have hindex := hbuilds.index?_eq.trans hnew
                exact .full (.self o) hindex hbuilds (Nat.lt_of_not_le hroom)

/-! ### Requests -/

theorem adds_utf8 (content : String) : Finds (.utf8 content) pool (utf8 content pool) := by
  refine adds_intern (n := 0) rfl (Nat.le_refl 0) fun hnew => ?_
  dsimp only
  split
  case isTrue hlong =>
      have hrefuses : pool.Refuses (.utf8 content) (.textTooLong (ModifiedUtf8.length content)) :=
        .textTooLong (.self _) hnew hlong
      exact (Adds.throw (P := fun _ _ => False) hrefuses).bind fun _ _ _ h => h.elim
  case isFalse hshort => exact .pure (.utf8 (Nat.le_of_not_lt hshort))

theorem adds_type (t : RefType Class) : Finds (.type t) pool (type t pool) := by
  refine adds_intern (n := 1) rfl (Nat.le_refl 1) fun _ => ?_
  refine ((adds_utf8 (typeName t)).part List.mem_cons_self (Nat.le_refl 1)).bind
    fun name pool' _ hname => ?_
  exact .pure (.type hname)

theorem adds_nameAndType (name descriptor : String) :
    Finds (.nameAndType name descriptor) pool (nameAndType name descriptor pool) := by
  refine ((adds_utf8 name).part List.mem_cons_self (Nat.le_succ 1)).bind fun i pool₁ _ hname => ?_
  refine ((adds_utf8 descriptor).part (List.mem_cons_of_mem _ List.mem_cons_self)
    (Nat.le_succ 1)).bind fun j pool₂ hgrows hdescriptor => ?_
  have hbuilds : pool₂.Builds (.nameAndType name descriptor) (.nameAndType i j) (.nameAndType i j) :=
    .nameAndType (hgrows.index?_eq_some hname) hdescriptor
  exact adds_intern (n := 1) hbuilds.index?_eq (Nat.le_refl 1) fun _ => .pure hbuilds

theorem adds_field (f : Field) : Finds (.field f) pool (field f pool) := by
  refine adds_intern (n := 2) rfl (Nat.le_refl 2) fun _ => ?_
  refine ((adds_type (.object f.owner)).part List.mem_cons_self (Nat.le_refl 2)).bind
    fun owner pool₁ _ howner => ?_
  refine ((adds_nameAndType _ _).part (List.mem_cons_of_mem _ List.mem_cons_self)
    (Nat.le_refl 2)).bind fun member pool₂ hgrows hmember => ?_
  exact .pure (.field (hgrows.index?_eq_some howner) hmember)

theorem adds_method (m : Method) : Finds (.method m) pool (method m pool) := by
  refine adds_intern (n := 2) rfl (Nat.le_refl 2) fun _ => ?_
  refine ((adds_type (.object m.owner)).part List.mem_cons_self (Nat.le_refl 2)).bind
    fun owner pool₁ _ howner => ?_
  refine ((adds_nameAndType _ _).part (List.mem_cons_of_mem _ List.mem_cons_self)
    (Nat.le_refl 2)).bind fun member pool₂ hgrows hmember => ?_
  exact .pure (.method (hgrows.index?_eq_some howner) hmember)

/-- What a literal asks the pool for. -/
def literalOperand : Literal → Operand
  | .text value => .text value
  | .type value => .type value
  | .int value => .integer value
  | .long value => .long value
  | .float bits => .float bits
  | .double bits => .double bits
  | .methodHandle target => .methodHandle target

theorem adds_literal (l : Literal) : Finds (literalOperand l) pool (literal l pool) := by
  cases l with
  | text value =>
      refine ((adds_utf8 value).part List.mem_cons_self (Nat.le_succ 1)).bind
        fun i pool' _ hcontent => ?_
      have hbuilds : pool'.Builds (.text value) (.text i) (.text i) := .text hcontent
      exact adds_intern (n := 0) hbuilds.index?_eq (Nat.zero_le 1) fun _ => .pure hbuilds
  | type value => exact adds_type value
  | methodHandle target =>
      refine ((adds_method target).part List.mem_cons_self (Nat.le_succ 3)).bind
        fun i pool' _ htarget => ?_
      have hbuilds : pool'.Builds (.methodHandle target) (.methodHandle (handleKind target) i)
          (.methodHandle (handleKind target) i) := .methodHandle htarget
      exact adds_intern (n := 0) hbuilds.index?_eq (Nat.zero_le 3) fun _ => .pure hbuilds
  | int value => exact adds_intern (n := 0) rfl (Nat.le_refl 0) fun _ => .pure (.integer value)
  | long value => exact adds_intern (n := 0) rfl (Nat.le_refl 0) fun _ => .pure (.long value)
  | float bits => exact adds_intern (n := 0) rfl (Nat.le_refl 0) fun _ => .pure (.float bits)
  | double bits => exact adds_intern (n := 0) rfl (Nat.le_refl 0) fun _ => .pure (.double bits)

/-! ### What the requests yield -/

/-- An index that is found stands for the operand, in a pool that is faithful. -/
theorem Finds.yields {outcome : Except PoolError PoolIndex × ConstantPool} (h : Finds o pool outcome)
    (hpool : pool.Faithful) : Yields pool outcome fun constants i => o.IsReadAt constants i :=
  ⟨h.grows.faithful hpool, h.grows.extends_ hpool,
    fun i hi => (h.grows.faithful hpool).isReadAt (h.result i hi)⟩

theorem yields_utf8 (hpool : pool.Faithful) (content : String) :
    Yields pool (utf8 content pool) fun constants i => readText? constants i = some content :=
  (adds_utf8 content).yields hpool

theorem yields_type (hpool : pool.Faithful) (t : RefType Class) :
    Yields pool (type t pool) fun constants i => readType? constants i = some (typeName t) :=
  (adds_type t).yields hpool

theorem yields_field (hpool : pool.Faithful) (f : Field) :
    Yields pool (field f pool) fun constants i => readField? constants i = some f.fullName :=
  (adds_field f).yields hpool

theorem yields_method (hpool : pool.Faithful) (m : Method) :
    Yields pool (method m pool) fun constants i => readMethod? constants i = some m.fullName :=
  (adds_method m).yields hpool

theorem yields_literal (hpool : pool.Faithful) (l : Literal) :
    Yields pool (literal l pool) fun constants i => readLiteral? constants i = some l.fullName := by
  refine ((adds_literal l).yields hpool).mono fun constants i _ hread => ?_
  cases l with
  | type value =>
      obtain ⟨name, hentry, -⟩ := readType?_eq_some_iff.1 hread
      have hname : readType? constants i = some (typeName value) := hread
      simp only [readLiteral?, hentry, hname, Option.map_some, Literal.fullName]
  | _ => exact hread

end ConstantPool

end JvmCodegen
