/-
**Building a class file.**

A class file is built by one computation after another over a growing constant pool.  Whatever is
built only adds constants, and what it puts into the class file fits: no attribute is too long for
its length, and the index of the superclass is that of a constant.  The constants that are added refer
to one another no deeper than the literals of the code demand.

Main definitions:

* `MethodBody.LoadsBelow` — how deep the references of the literals of a body go;
* `MethodBody.IsEncodedIn`, `MethodModel.IsBuiltAs` — what the entry of a method holds;
* `ClassModel.IsBuiltAs` — what a class file holds.

Main results:

* `ConstantPool.OnlyAdds.mapM` — one computation for each element of a list;
* `MethodBody.onlyAdds_toAttribute`, `MethodModel.onlyAdds_toInfo` — the parts of a class file;
* `ClassModel.onlyAdds_build`, `ClassModel.toClassFile_eq_ok`, `ClassModel.toClassFile_below` — **a
  class file, and its pool**.
-/

import Mathlib.Data.List.Forall2
import JvmCodegen.ClassModel
import JvmCodegen.Proofs.ClassFile.Decoding
import JvmCodegen.Proofs.ConstantPool.Layout

set_option relaxedAutoImplicit false
set_option autoImplicit false

namespace JvmCodegen

open ConstantPool

/-- Every element on the left has one on the right, at its place. -/
theorem exists_getElem?_of_forall₂ {α β : Type} {post : α → β → Prop} {xs : List α} {ys : List β}
    (h : List.Forall₂ post xs ys) {n : Nat} {x : α} (hx : xs[n]? = some x) :
    ∃ y, ys[n]? = some y ∧ post x y := by
  induction h generalizing n with
  | nil => cases hx
  | cons hhead _ ih =>
      cases n with
      | zero =>
          cases hx
          exact ⟨_, rfl, hhead⟩
      | succ n => exact ih hx

/-- Every element on the right has one on the left, at its place. -/
theorem exists_getElem?_of_forall₂_right {α β : Type} {post : α → β → Prop} {xs : List α}
    {ys : List β} (h : List.Forall₂ post xs ys) {n : Nat} {y : β} (hy : ys[n]? = some y) :
    ∃ x, xs[n]? = some x ∧ post x y :=
  exists_getElem?_of_forall₂ (List.Forall₂.flip (R := flip post) h) hy

/-- Every element on the right belongs to one on the left. -/
theorem exists_mem_of_forall₂_right {α β : Type} {post : α → β → Prop} {xs : List α} {ys : List β}
    (h : List.Forall₂ post xs ys) {y : β} (hy : y ∈ ys) : ∃ x ∈ xs, post x y := by
  obtain ⟨n, hn⟩ := List.mem_iff_getElem?.1 hy
  obtain ⟨x, hx, hpost⟩ := exists_getElem?_of_forall₂_right h hn
  exact ⟨x, List.mem_of_getElem? hx, hpost⟩

/-! ### Computations -/

namespace ConstantPool

section OnlyAdds

variable {n : Nat} {ε α β : Type} {f : ExceptT ε (StateM ConstantPool) α}
  {P : ConstantPool → α → Prop}

/-- What a computation returns is what it returned. -/
theorem OnlyAdds.self (h : OnlyAdds n f P) (pool : ConstantPool) :
    Adds n pool (f pool) (fun pool' a => P pool' a ∧ (f pool).1 = .ok a) fun _ _ => True :=
  ⟨(h pool).grows, fun a ha => ⟨(h pool).result a ha, ha⟩, fun _ _ => trivial⟩

/-- What is made of the result. -/
theorem OnlyAdds.map {g : α → β} {Q : ConstantPool → β → Prop} (h : OnlyAdds n f P)
    (hQ : ∀ pool a, P pool a → Q pool (g a)) : OnlyAdds n (g <$> f) Q := by
  intro pool
  rw [map_eq_pure_bind]
  exact (h pool).bind fun a pool' _ ha => .pure (hQ pool' a ha)

theorem OnlyAdds.toClassFileM {request : PoolM α} (h : OnlyAdds n request P) :
    OnlyAdds n request.toClassFileM P :=
  fun pool => (h pool).toClassFileM fun _ _ _ => trivial

/-- **One computation for each element of a list.** What holds of a result goes on to hold while the
pool grows for the others. -/
theorem OnlyAdds.mapM {f : α → ExceptT ε (StateM ConstantPool) β}
    (post : ConstantPool → α → β → Prop)
    (hmono : ∀ x y pool later, post pool x y → Grows n pool later → post later x y) (xs : List α)
    (h : ∀ x ∈ xs, OnlyAdds n (f x) fun pool y => post pool x y) :
    OnlyAdds n (xs.mapM f) fun pool ys => List.Forall₂ (post pool) xs ys := by
  induction xs with
  | nil =>
      intro pool
      rw [List.mapM_nil]
      exact .pure .nil
  | cons x xs ih =>
      intro pool
      rw [List.mapM_cons]
      refine (h x List.mem_cons_self pool).bind fun y pool₁ _ hy => ?_
      have hrest := ih (fun x' hx' => h x' (List.mem_cons_of_mem x hx')) pool₁
      exact hrest.bind fun ys pool₂ hgrows hys => .pure (.cons (hmono x y _ _ hy hgrows) hys)

end OnlyAdds

section Requests

variable {n : Nat} (hn : 3 ≤ n)

include hn

theorem onlyAdds_utf8 (content : String) :
    OnlyAdds n (utf8 content) fun pool i => pool.index? (.utf8 content) = some i :=
  Finds.onlyAdds (Nat.lt_of_lt_of_le (by decide : 0 < 3) hn) fun _ => adds_utf8 content

theorem onlyAdds_type (t : RefType Class) :
    OnlyAdds n (type t) fun pool i => pool.index? (.type t) = some i :=
  Finds.onlyAdds (Nat.lt_of_lt_of_le (by decide : 1 < 3) hn) fun _ => adds_type t

theorem onlyAdds_field (f : Field) :
    OnlyAdds n (field f) fun pool i => pool.index? (.field f) = some i :=
  Finds.onlyAdds (Nat.lt_of_lt_of_le (by decide : 2 < 3) hn) fun _ => adds_field f

theorem onlyAdds_method (m : Method) :
    OnlyAdds n (method m) fun pool i => pool.index? (.method m) = some i :=
  Finds.onlyAdds (Nat.lt_of_lt_of_le (by decide : 2 < 3) hn) fun _ => adds_method m

end Requests

theorem onlyAdds_literal {n : Nat} {l : Literal} (hl : (literalOperand l).level < n) :
    OnlyAdds n (literal l) fun pool i => pool.index? (literalOperand l) = some i :=
  Finds.onlyAdds hl fun _ => adds_literal l

end ConstantPool

/-! ### Method bodies -/

/-- The literal that an instruction loads. -/
def Instruction.literal? : SymbolicInstruction → Option Literal
  | .ldc l | .ldc2 l => some l
  | _ => none

/-- The references of the constants for the literals of a body stay below a level. -/
def MethodBody.LoadsBelow (n : Nat) (b : MethodBody) : Prop :=
  ∀ i ∈ b.instructions, ∀ l ∈ i.literal?, (literalOperand l).level < n

/-- There is nothing that goes deeper than method handles. -/
theorem MethodBody.loadsBelow_four (b : MethodBody) : b.LoadsBelow 4 :=
  fun _ _ l _ => (literalOperand l).level_lt

variable {n : Nat}

theorem Instruction.onlyAdds_resolve (hn : 3 ≤ n) {i : SymbolicInstruction}
    (hi : ∀ l ∈ i.literal?, (literalOperand l).level < n) : OnlyAdds n i.resolve fun _ _ => True := by
  intro pool
  cases i with
  | ldc l | ldc2 l =>
      exact (onlyAdds_literal (hi l rfl) pool).bind fun _ _ _ _ => .pure trivial
  | access op f => exact (onlyAdds_field hn f pool).bind fun _ _ _ _ => .pure trivial
  | invoke kind m => exact (onlyAdds_method hn m pool).bind fun _ _ _ _ => .pure trivial
  | newRefArray t | checkCast t =>
      exact (onlyAdds_type hn t pool).bind fun _ _ _ _ => .pure trivial
  | _ => exact .pure trivial

theorem Instruction.onlyAdds_resolveEach (hn : 3 ≤ n) {instructions : List SymbolicInstruction}
    (h : ∀ i ∈ instructions, ∀ l ∈ i.literal?, (literalOperand l).level < n)
    (done : List ResolvedInstruction) : OnlyAdds n (resolveEach done instructions) fun _ _ => True := by
  induction instructions generalizing done with
  | nil => exact fun pool => ⟨.refl pool, fun _ _ => trivial, fun _ _ => trivial⟩
  | cons i rest ih =>
      intro pool
      have hi := onlyAdds_resolve hn (h i List.mem_cons_self) pool
      rw [resolveEach]
      cases hout : i.resolve pool with
      | mk outcome pool₁ =>
          rw [hout] at hi
          cases outcome with
          | error reason => exact ⟨hi.grows, fun _ _ => trivial, fun _ _ => trivial⟩
          | ok resolved =>
              have hrest := ih (fun i hi => h i (List.mem_cons_of_mem _ hi)) (resolved :: done) pool₁
              exact ⟨hi.grows.trans hrest.grows, fun _ _ => trivial, fun _ _ => trivial⟩

/-- The contents of the `Code` attribute of a body. -/
theorem MethodBody.onlyAdds_toAttribute (hn : 3 ≤ n) {b : MethodBody} (hb : b.LoadsBelow n) :
    OnlyAdds n b.toAttribute fun _ contents =>
      contents.attributes = [] ∧ contents.code.length ≤ 65535 ∧
      contents.maxStack = b.maxStack ∧ contents.maxLocals = b.maxLocals := by
  intro pool
  have hloads : ∀ i ∈ b.instructions.toList, ∀ l ∈ i.literal?, (literalOperand l).level < n :=
    fun i hi => hb i (Array.mem_toList_iff.1 hi)
  have hresolve := (Instruction.onlyAdds_resolveEach hn hloads []).toClassFileM
  refine (hresolve pool).bind fun code pool₁ _ _ => ?_
  dsimp only
  split
  case isTrue =>
      exact (Adds.throw (P := fun _ _ => False) trivial).bind fun _ _ _ h => h.elim
  case isFalse hlength => exact .pure ⟨rfl, Nat.le_of_not_lt hlength, rfl, rfl⟩

/-- The contents of the `Code` attribute were made of the body, and written. -/
def MethodBody.IsEncodedIn (b : MethodBody) (a : Attribute) : Prop :=
  ∃ (pool : ConstantPool) (contents : CodeAttribute),
    (b.toAttribute pool).1 = .ok contents ∧ contents.encode = .ok a.info

theorem MethodBody.IsEncodedIn.exists_contents {b : MethodBody} {a : Attribute} (h : b.IsEncodedIn a) :
    ∃ contents : CodeAttribute, contents.encode = .ok a.info ∧ contents.attributes = [] ∧
      contents.code.length ≤ 65535 ∧ contents.maxStack = b.maxStack ∧
      contents.maxLocals = b.maxLocals := by
  obtain ⟨pool, contents, hcontents, hwritten⟩ := h
  have hbody := MethodBody.onlyAdds_toAttribute (by decide) b.loadsBelow_four pool
  exact ⟨contents, hwritten, hbody.result contents hcontents⟩

/-- A body is never too long for the length of its attribute. -/
theorem MethodBody.IsEncodedIn.fits {b : MethodBody} {a : Attribute} (h : b.IsEncodedIn a) :
    a.Fits := by
  obtain ⟨contents, hwritten, hattributes, hlength, -, -⟩ := h.exists_contents
  rcases contents with ⟨maxStack, maxLocals, code, attributes⟩
  simp only at hattributes hlength
  subst hattributes
  have hinfo := congrArg List.length (Except.ok.inj hwritten)
  have hlt : code.length + 12 < 2 ^ 32 :=
    Nat.lt_of_le_of_lt (Nat.add_le_add_right hlength 12) (by decide)
  unfold Attribute.Fits
  simp [Bytes.u16, Bytes.u32] at hinfo
  omega

/-! ### Attributes and members -/

/-- An attribute has the index of its name, and the body that was written. -/
theorem onlyAdds_namedAttribute (hn : 3 ≤ n) (name : String)
    (body : Except EncodingError (List UInt8)) :
    OnlyAdds n (namedAttribute name body) fun pool a =>
      pool.index? (.utf8 name) = some a.name ∧ body = .ok a.info := by
  intro pool
  refine ((onlyAdds_utf8 hn name).toClassFileM pool).bind fun i pool₁ _ hi => ?_
  cases body with
  | error reason => exact .throw trivial
  | ok info => exact .pure ⟨hi, rfl⟩

/-- The attribute has a name that is on record. -/
def Attribute.IsNamedIn (pool : ConstantPool) (a : Attribute) : Prop :=
  ∃ name, pool.index? (.utf8 name) = some a.name

theorem Attribute.IsNamedIn.mono {a : Attribute} {pool later : ConstantPool} (h : a.IsNamedIn pool)
    (hgrows : Grows n pool later) : a.IsNamedIn later := by
  obtain ⟨name, hname⟩ := h
  exact ⟨name, hgrows.index?_eq_some hname⟩

/-- An attribute with nothing in it is never too long. -/
theorem Attribute.fits_of_info_eq_nil {a : Attribute} (h : a.info = []) : a.Fits := by
  rw [Fits, h]
  decide

/-- The mark of a synthetic member has nothing in it. -/
theorem onlyAdds_syntheticAttributes (hn : 3 ≤ n) (isSynthetic : Bool) :
    OnlyAdds n (syntheticAttributes isSynthetic) fun pool attributes =>
      ∀ a ∈ attributes, a.info = [] ∧ a.IsNamedIn pool := by
  unfold syntheticAttributes
  split
  · refine (onlyAdds_namedAttribute hn syntheticAttributeName (.ok [])).map fun _ mark hmark a ha => ?_
    obtain rfl := List.mem_singleton.1 ha
    exact ⟨(Except.ok.inj hmark.2).symm, _, hmark.1⟩
  · exact fun pool => .pure fun a ha => absurd ha List.not_mem_nil

/-- A body has one attribute that holds it. -/
theorem onlyAdds_bodyAttributes (hn : 3 ≤ n) (body : Option MethodBody)
    (hbody : ∀ b ∈ body, b.LoadsBelow n) :
    OnlyAdds n (bodyAttributes body) fun pool attributes =>
      (∀ a ∈ attributes, a.Fits ∧ a.IsNamedIn pool) ∧ attributes.tail = [] ∧ ∀ b, body = some b →
        ∃ a, attributes = [a] ∧ pool.index? (.utf8 CodeAttribute.name) = some a.name ∧
          b.IsEncodedIn a := by
  intro pool
  cases body with
  | none => exact .pure ⟨fun a ha => absurd ha List.not_mem_nil, rfl, fun b hb => by cases hb⟩
  | some body =>
      have hcode := (MethodBody.onlyAdds_toAttribute hn (hbody body rfl)).self pool
      refine hcode.bind fun contents pool₁ _ ⟨_, hcontents⟩ => ?_
      refine (onlyAdds_namedAttribute hn _ _ pool₁).bind fun a pool₂ _ ⟨hname, hinfo⟩ => .pure ?_
      have hencoded : body.IsEncodedIn a := ⟨pool, contents, hcontents, hinfo⟩
      refine ⟨fun a' ha' => ?_, rfl, fun b hb => ?_⟩
      · obtain rfl := List.mem_singleton.1 ha'
        exact ⟨hencoded.fits, _, hname⟩
      · cases hb
        exact ⟨a, rfl, hname, hencoded⟩

/-- The entry was built for the field. -/
structure Field.IsBuiltAs (pool : ConstantPool) (f : Field) (info : MemberInfo .field) : Prop where
  flags : info.flags = f.flags
  name : pool.index? (.utf8 f.name.text) = some info.name
  descriptor : pool.index? (.utf8 f.type.render) = some info.descriptor
  named : ∀ a ∈ info.attributes, a.IsNamedIn pool
  empty : ∀ a ∈ info.attributes, a.info = []

theorem Field.IsBuiltAs.mono {f : Field} {info : MemberInfo .field} {pool later : ConstantPool}
    (h : f.IsBuiltAs pool info) (hgrows : Grows n pool later) : f.IsBuiltAs later info :=
  ⟨h.flags, hgrows.index?_eq_some h.name, hgrows.index?_eq_some h.descriptor,
    fun a ha => (h.named a ha).mono hgrows, h.empty⟩

theorem Field.onlyAdds_toInfo (hn : 3 ≤ n) (f : Field) :
    OnlyAdds n f.toInfo fun pool info => f.IsBuiltAs pool info := by
  intro pool
  refine ((onlyAdds_utf8 hn _).toClassFileM pool).bind fun name pool₁ _ hname => ?_
  refine ((onlyAdds_utf8 hn _).toClassFileM pool₁).bind fun descriptor pool₂ h₁₂ hdescriptor => ?_
  refine (onlyAdds_syntheticAttributes hn _ pool₂).bind fun mark pool₃ h₂₃ hmark => .pure ?_
  exact ⟨rfl, (h₁₂.trans h₂₃).index?_eq_some hname, h₂₃.index?_eq_some hdescriptor,
    fun a ha => (hmark a ha).2, fun a ha => (hmark a ha).1⟩

/-- The entry was built for the method. Its attributes begin with its body, and there is nothing in the
others. -/
structure MethodModel.IsBuiltAs (pool : ConstantPool) (m : MethodModel) (info : MemberInfo .method) :
    Prop where
  flags : info.flags = m.method.flags
  name : pool.index? (.utf8 m.method.name.text) = some info.name
  descriptor : pool.index? (.utf8 m.method.descriptor.render) = some info.descriptor
  fits : ∀ a ∈ info.attributes, a.Fits
  named : ∀ a ∈ info.attributes, a.IsNamedIn pool
  empty : ∀ a ∈ info.attributes.tail, a.info = []
  body : ∀ b, m.body = some b → ∃ a rest, info.attributes = a :: rest ∧
    pool.index? (.utf8 CodeAttribute.name) = some a.name ∧ b.IsEncodedIn a

theorem MethodModel.IsBuiltAs.mono {m : MethodModel} {info : MemberInfo .method}
    {pool later : ConstantPool} (h : m.IsBuiltAs pool info) (hgrows : Grows n pool later) :
    m.IsBuiltAs later info := by
  refine ⟨h.flags, hgrows.index?_eq_some h.name, hgrows.index?_eq_some h.descriptor, h.fits,
    fun a ha => (h.named a ha).mono hgrows, h.empty, fun b hb => ?_⟩
  obtain ⟨a, rest, hattributes, hname, hencoded⟩ := h.body b hb
  exact ⟨a, rest, hattributes, hgrows.index?_eq_some hname, hencoded⟩

theorem MethodModel.onlyAdds_toInfo (hn : 3 ≤ n) (m : MethodModel)
    (hbody : ∀ b ∈ m.body, b.LoadsBelow n) :
    OnlyAdds n m.toInfo fun pool info => m.IsBuiltAs pool info := by
  intro pool
  refine ((onlyAdds_utf8 hn _).toClassFileM pool).bind fun name pool₁ _ hname => ?_
  refine ((onlyAdds_utf8 hn _).toClassFileM pool₁).bind fun descriptor pool₂ h₁₂ hdescriptor => ?_
  refine (onlyAdds_bodyAttributes hn m.body hbody pool₂).bind
    fun attributes pool₃ h₂₃ ⟨hfits, htail, hcode⟩ => ?_
  refine (onlyAdds_syntheticAttributes hn _ pool₃).bind fun mark pool₄ h₃₄ hmark => .pure ?_
  have h₂₄ := h₂₃.trans h₃₄
  have hall : ∀ a ∈ attributes ++ mark, a.Fits ∧ a.IsNamedIn pool₄ := by
    intro a ha
    rcases List.mem_append.1 ha with ha | ha
    · exact ⟨(hfits a ha).1, (hfits a ha).2.mono h₃₄⟩
    · exact ⟨Attribute.fits_of_info_eq_nil (hmark a ha).1, (hmark a ha).2⟩
  -- whatever comes after the first attribute is a mark
  have hempty : ∀ a ∈ (attributes ++ mark).tail, a.info = [] := by
    intro a ha
    cases attributes with
    | nil => exact (hmark a (List.mem_of_mem_tail ha)).1
    | cons first rest =>
        rw [List.cons_append, List.tail_cons, show rest = [] from htail] at ha
        exact (hmark a ha).1
  refine ⟨rfl, (h₁₂.trans h₂₄).index?_eq_some hname, h₂₄.index?_eq_some hdescriptor,
    fun a ha => (hall a ha).1, fun a ha => (hall a ha).2, hempty, fun b hb => ?_⟩
  obtain ⟨a, rfl, hcode, hencoded⟩ := hcode b hb
  exact ⟨a, mark, rfl, h₃₄.index?_eq_some hcode, hencoded⟩

/-! ### Class files -/

namespace ClassModel

/-- The index is on record for the class. -/
def IsClassIndex (pool : ConstantPool) (c : Class) (i : PoolIndex) : Prop :=
  pool.index? (.type (.object c)) = some i

/-- The class file was built over the pool, for the class with the superclass and the interfaces. -/
structure IsBuiltAs (m : ClassModel) (superclass : Option Class) (interfaces : List Class)
    (version : Version) (pool : ConstantPool) (file : ClassFile) : Prop where
  version : file.version = version
  constants : file.constants = pool.constants
  flags : file.flags = m.declared.flags
  thisClass : IsClassIndex pool m.declared file.thisClass
  superClass : ∀ i, file.superClass = some i → ∃ c, superclass = some c ∧ IsClassIndex pool c i
  interfaces : List.Forall₂ (IsClassIndex pool) interfaces file.interfaces
  fields : List.Forall₂ (Field.IsBuiltAs pool) m.fields.toList file.fields
  methods : List.Forall₂ (MethodModel.IsBuiltAs pool) m.methods.toList file.methods
  attributes : file.attributes = []

theorem onlyAdds_superclassIndex (hn : 3 ≤ n) (superclass : Option Class) :
    OnlyAdds n (superclassIndex superclass) fun pool found =>
      ∀ i, found = some i → ∃ c, superclass = some c ∧ IsClassIndex pool c i := by
  cases superclass with
  | none => exact fun pool => .pure nofun
  | some c =>
      refine (onlyAdds_type hn (.object c)).map fun pool i hi j hj => ?_
      cases hj
      exact ⟨c, rfl, hi⟩

/-- **Building a class file** only adds constants. -/
theorem onlyAdds_build (hn : 3 ≤ n) {m : ClassModel}
    (hm : ∀ method ∈ m.methods, ∀ b ∈ method.body, b.LoadsBelow n) (superclass : Option Class)
    (interfaces : List Class) (version : Version) :
    OnlyAdds n (m.build superclass interfaces version) fun pool file =>
      m.IsBuiltAs superclass interfaces version pool (file pool.constants) := by
  intro pool
  have hinterfaces : OnlyAdds n (classIndices interfaces) fun pool indices =>
      List.Forall₂ (IsClassIndex pool) interfaces indices :=
    OnlyAdds.mapM IsClassIndex (fun _ _ _ _ hi hgrows => hgrows.index?_eq_some hi) interfaces
      fun c _ => onlyAdds_type hn (.object c)
  have hfields := OnlyAdds.mapM Field.IsBuiltAs (fun _ _ _ _ hf => hf.mono) m.fields.toList
    fun f _ => f.onlyAdds_toInfo hn
  have hmethods := OnlyAdds.mapM MethodModel.IsBuiltAs (fun _ _ _ _ hm => hm.mono) m.methods.toList
    fun method hmethod => method.onlyAdds_toInfo hn (hm method (Array.mem_toList_iff.1 hmethod))
  refine ((onlyAdds_type hn (.object m.declared)).toClassFileM pool).bind fun this pool₁ _ hthis => ?_
  refine ((onlyAdds_superclassIndex hn superclass).toClassFileM pool₁).bind
    fun super pool₂ h₁₂ hsuper => ?_
  refine (hinterfaces.toClassFileM pool₂).bind fun indices pool₃ h₂₃ hindices => ?_
  refine (hfields pool₃).bind fun fields pool₄ h₃₄ hfields => ?_
  refine (hmethods pool₄).bind fun methods pool₅ h₄₅ hmethods => .pure ?_
  -- each part was right in the pool that it left, and the pool has only grown since
  have h₃₅ := h₃₄.trans h₄₅
  have h₂₅ := h₂₃.trans h₃₅
  refine ⟨rfl, rfl, rfl, (h₁₂.trans h₂₅).index?_eq_some hthis, fun i hi => ?_,
    hindices.imp fun _ _ hi => h₃₅.index?_eq_some hi, hfields.imp fun _ _ hf => hf.mono h₄₅,
    hmethods, rfl⟩
  obtain ⟨c, hc, hindex⟩ := hsuper i hi
  exact ⟨c, hc, h₂₅.index?_eq_some hindex⟩

/-- **A class file, and its pool**, which has grown from nothing, and only by constants whose references
stay below a level if those for the literals of the code do. -/
theorem toClassFile_below (hn : 3 ≤ n) {m : ClassModel}
    (hm : ∀ method ∈ m.methods, ∀ b ∈ method.body, b.LoadsBelow n) {graph : ClassGraph}
    {version : Version} {file : ClassFile} (h : m.toClassFile graph version = .ok file) :
    ∃ pool : ConstantPool, Grows n .empty pool ∧
      m.IsBuiltAs (graph.superclass? m.declared) (graph.interfaces m.declared) version pool file := by
  have hbuild := onlyAdds_build hn hm (graph.superclass? m.declared) (graph.interfaces m.declared)
    version .empty
  unfold toClassFile at h
  split at h
  case h_1 => cases h
  case h_2 build pool hout =>
      cases h
      rw [hout] at hbuild
      exact ⟨pool, hbuild.grows, hbuild.result build rfl⟩

/-- A class file, and its pool, whatever the literals of the code. -/
theorem toClassFile_eq_ok {m : ClassModel} {graph : ClassGraph} {version : Version}
    {file : ClassFile} (h : m.toClassFile graph version = .ok file) :
    ∃ pool : ConstantPool, Grows 4 .empty pool ∧
      m.IsBuiltAs (graph.superclass? m.declared) (graph.interfaces m.declared) version pool file :=
  toClassFile_below (by decide) (fun _ _ b _ => b.loadsBelow_four) h

end ClassModel

end JvmCodegen
