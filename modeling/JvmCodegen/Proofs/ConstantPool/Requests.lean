/-
**Asking a pool, again and again.**

A history of requests leads from the empty pool to some pool, whichever of the requests have failed
on the way.  Once a request has had an answer, its operand has an index: the constant of that index
stands for the operand forever, and the operand is never added again.

Main definitions:

* `ConstantPool.Request`, `ConstantPool.Request.ask` — everything that can be asked of a pool;
* `ConstantPool.after` — the pool after some requests;
* `ConstantPool.IsMadeFor`, `ConstantPool.HoldsOnce` — what each constant was added for.

Main results:

* `ConstantPool.Request.ask_of_index?` — a request for what is on record leaves the pool alone;
* `ConstantPool.Request.adds_ask`, `ConstantPool.grows_after` — what one request does, and what a
  history does;
* `ConstantPool.Grows.holdsOnce` — nothing is held twice;
* `ConstantPool.answers_are_kept` — **an answer is right, and is given again**.
-/

import Mathlib
import JvmCodegen.MethodBody
import JvmCodegen.Proofs.ConstantPool.Growth

set_option relaxedAutoImplicit false
set_option autoImplicit false

namespace JvmCodegen.ConstantPool

/-! ### Requests -/

/-- What can be asked of a pool. A named attribute has its name looked up, and then its body written,
which may fail. -/
inductive Request
  | utf8 (content : String)
  | type (value : RefType Class)
  | field (value : Field)
  | method (value : Method)
  | literal (value : Literal)
  | named (name : String) (body : Except EncodingError (List UInt8))

namespace Request

/-- The index that the pool answers with; for an attribute, that of its name. -/
def ask : Request → ClassFileM PoolIndex
  | utf8 content => (ConstantPool.utf8 content).toClassFileM
  | type value => (ConstantPool.type value).toClassFileM
  | field value => (ConstantPool.field value).toClassFileM
  | method value => (ConstantPool.method value).toClassFileM
  | literal value => (ConstantPool.literal value).toClassFileM
  | named name body => Attribute.name <$> namedAttribute name body

/-- What the request is for. -/
def operand : Request → Operand
  | utf8 content => .utf8 content
  | type value => .type value
  | field value => .field value
  | method value => .method value
  | literal value => literalOperand value
  | named name _ => .utf8 name

/-- The answer to a request whose operand has the index: the index, unless an attribute has no
written form. -/
def answer (i : PoolIndex) : Request → Except ClassFileError PoolIndex
  | named _ (.error reason) => .error (.encoding reason)
  | _ => .ok i

end Request

/-- **The pool after some requests**, whether they succeeded or not. -/
def after (requests : List Request) : ConstantPool :=
  requests.foldl (fun pool r => (r.ask pool).2) empty

theorem after_concat (requests : List Request) (r : Request) :
    after (requests ++ [r]) = (r.ask (after requests)).2 := by
  rw [after, List.foldl_append]
  rfl

/-! ### What is on record -/

variable {pool first : ConstantPool} {i : PoolIndex}

theorem utf8_of_index? {content : String} (h : pool.index? (.utf8 content) = some i) :
    utf8 content pool = (.ok i, pool) :=
  intern_of_known h _

theorem type_of_index? {t : RefType Class} (h : pool.index? (.type t) = some i) :
    type t pool = (.ok i, pool) :=
  intern_of_known h _

theorem field_of_index? {f : Field} (h : pool.index? (.field f) = some i) :
    field f pool = (.ok i, pool) :=
  intern_of_known h _

theorem method_of_index? {m : Method} (h : pool.index? (.method m) = some i) :
    method m pool = (.ok i, pool) :=
  intern_of_known h _

/-- A literal that refers to another constant has it looked up first. -/
theorem literal_of_index? {l : Literal} (h : pool.index? (literalOperand l) = some i) :
    literal l pool = (.ok i, pool) := by
  cases l with
  | text value =>
      obtain ⟨key, hkey, hi⟩ := Option.bind_eq_some_iff.1 h
      obtain ⟨j, hj, rfl⟩ := Option.map_eq_some_iff.1 hkey
      have hcontent : utf8 value pool = (.ok j, pool) := utf8_of_index? hj
      exact (bind_of_ok hcontent).trans (intern_of_known hi _)
  | type value => exact type_of_index? h
  | methodHandle target =>
      obtain ⟨key, hkey, hi⟩ := Option.bind_eq_some_iff.1 h
      obtain ⟨j, hj, rfl⟩ := Option.map_eq_some_iff.1 hkey
      have htarget : method target pool = (.ok j, pool) := method_of_index? hj
      exact (bind_of_ok htarget).trans (intern_of_known hi _)
  | _ => exact intern_of_known h _

theorem toClassFileM_of_ok {α : Type} {request : PoolM α} {a : α} {pool' : ConstantPool}
    (h : request pool = (.ok a, pool')) : request.toClassFileM pool = (.ok a, pool') := by
  rw [PoolM.toClassFileM, h]

/-- **A request for what is on record** has its answer, and leaves the pool alone. -/
theorem Request.ask_of_index? {r : Request} (h : pool.index? r.operand = some i) :
    r.ask pool = (r.answer i, pool) := by
  cases r with
  | utf8 content => exact toClassFileM_of_ok (utf8_of_index? h)
  | type value => exact toClassFileM_of_ok (type_of_index? h)
  | field value => exact toClassFileM_of_ok (field_of_index? h)
  | method value => exact toClassFileM_of_ok (method_of_index? h)
  | literal value => exact toClassFileM_of_ok (literal_of_index? h)
  | named name body =>
      have hname : (ConstantPool.utf8 name).toClassFileM pool = (.ok i, pool) :=
        toClassFileM_of_ok (utf8_of_index? h)
      rw [ask, map_eq_pure_bind]
      cases body with
      | ok info =>
          have hwritten : namedAttribute name (.ok info) pool = (.ok ⟨i, info⟩, pool) :=
            bind_of_ok hname
          exact bind_of_ok hwritten
      | error reason =>
          have hfails : namedAttribute name (.error reason) pool = (.error (.encoding reason), pool) :=
            bind_of_ok hname
          exact bind_of_error hfails

/-! ### What a request does -/

/-- Why a request fails: its operand is refused, or an attribute has no written form. -/
inductive Request.Fails (pool : ConstantPool) : Request → ClassFileError → Prop
  | pool {r : Request} {reason : PoolError} (h : pool.Refuses r.operand reason) :
      Fails pool r (.pool reason)
  | encoding (name : String) (reason : EncodingError) :
      Fails pool (.named name (.error reason)) (.encoding reason)

/-- A request to the pool does the same as part of building a class file. -/
theorem Adds.toClassFileM {α : Type} {n : Nat} {request : PoolM α} {P : ConstantPool → α → Prop}
    {R : ConstantPool → PoolError → Prop} {R' : ConstantPool → ClassFileError → Prop}
    (h : Adds n pool (request pool) P R) (hR : ∀ pool' e, R pool' e → R' pool' (.pool e)) :
    Adds n pool (request.toClassFileM pool) P R' := by
  obtain ⟨hgrows, hresult, hfailure⟩ := h
  rw [PoolM.toClassFileM]
  cases hout : request pool with
  | mk outcome pool' =>
      rw [hout] at hgrows hresult hfailure
      cases outcome with
      | ok a => exact ⟨hgrows, fun b hb => hresult b (by cases hb; rfl), nofun⟩
      | error e =>
          refine ⟨hgrows, nofun, fun e' he => ?_⟩
          cases he
          exact hR pool' e (hfailure e rfl)

/-- What a request for an index does. -/
theorem Finds.adds_ask {r : Request} {request : PoolM PoolIndex}
    (h : Finds r.operand pool (request pool)) :
    Adds 4 pool (request.toClassFileM pool) (fun pool' i => pool'.index? r.operand = some i)
      fun pool' e => r.Fails pool' e :=
  (h.mono r.operand.level_lt (fun _ _ hi => hi) fun _ _ he => he).toClassFileM fun _ _ => .pool

/-- **What a request does**: the pool grows, the index that is returned is on record, and a failure
has a reason. -/
theorem Request.adds_ask (r : Request) (pool : ConstantPool) :
    Adds 4 pool (r.ask pool) (fun pool' i => pool'.index? r.operand = some i)
      fun pool' e => r.Fails pool' e := by
  cases r with
  | utf8 content => exact (adds_utf8 content).adds_ask (r := .utf8 content)
  | type value => exact (adds_type value).adds_ask (r := .type value)
  | field value => exact (adds_field value).adds_ask (r := .field value)
  | method value => exact (adds_method value).adds_ask (r := .method value)
  | literal value => exact (adds_literal value).adds_ask (r := .literal value)
  | named name body =>
      have hfinds : Finds (.utf8 name) pool (ConstantPool.utf8 name pool) := adds_utf8 name
      have hname := hfinds.adds_ask (r := .named name body)
      rw [ask, map_eq_pure_bind]
      have hattribute : Adds 4 pool (namedAttribute name body pool)
          (fun pool' a => pool'.index? (.utf8 name) = some a.name)
          fun pool' e => (Request.named name body).Fails pool' e := by
        refine hname.bind fun i pool' _ hi => ?_
        cases body with
        | ok info => exact .pure hi
        | error reason => exact .throw (.encoding name reason)
      exact hattribute.bind fun a pool' _ (ha : pool'.index? (.utf8 name) = some a.name) => .pure ha

/-- More requests let the pool grow. -/
theorem grows_after_append (requests later : List Request) :
    Grows 4 (after requests) (after (requests ++ later)) := by
  induction later generalizing requests with
  | nil =>
      rw [List.append_nil]
      exact .refl _
  | cons r later ih =>
      have hrest := ih (requests ++ [r])
      rw [List.append_assoc, after_concat] at hrest
      exact (r.adds_ask (after requests)).grows.trans hrest

/-- Every history lets the pool grow from nothing. -/
theorem grows_after (requests : List Request) : Grows 4 empty (after requests) :=
  grows_after_append [] requests

/-- What a request has returned is on record from then on. -/
theorem index?_after {before : List Request} {r : Request} (h : (r.ask (after before)).1 = .ok i)
    (later : List Request) :
    (after (before ++ r :: later)).index? r.operand = some i := by
  have hfound := (r.adds_ask (after before)).result i h
  have hgrows := grows_after_append (before ++ [r]) later
  rw [List.append_assoc, after_concat] at hgrows
  exact hgrows.index?_eq_some hfound

/-! ### What the constants were added for -/

/-- The key that a constant tells by itself. The constant of a class, a field or a method does not
tell whose it is: two declarations of one name have a constant each. -/
def ownKey? : Constant → Option PoolKey
  | .utf8 content => some (.utf8 content)
  | .text content => some (.text content)
  | .integer value => some (.integer value)
  | .float bits => some (.float bits)
  | .long value => some (.long value)
  | .double bits => some (.double bits)
  | .nameAndType name descriptor => some (.nameAndType name descriptor)
  | .methodHandle kind target => some (.methodHandle kind target)
  | .type _ | .field _ _ | .method _ _ _ => none

/-- The constant is the one on record for the key, and is as it should be. -/
def IsMadeFor (pool : ConstantPool) (entry : Nat × Constant) (key : PoolKey) : Prop :=
  pool.known[key]? = some ⟨UInt16.ofNat entry.1⟩ ∧
    Denotes pool.constants ⟨UInt16.ofNat entry.1⟩ key

/-- Nothing is held twice. -/
structure HoldsOnce (pool : ConstantPool) : Prop where
  /-- Every constant was made for something. -/
  made : ∀ entry ∈ pool.constants.toList, ∃ key, pool.IsMadeFor entry key
  /-- No two constants were made for the same class, array type, field, method or anything else. -/
  once : pool.constants.toList.Pairwise fun entry later =>
    ∀ key, pool.IsMadeFor entry key → ¬ pool.IsMadeFor later key
  /-- No two constants are equal, classes, fields and methods apart. -/
  distinct : pool.constants.toList.Pairwise fun entry later =>
    (ownKey? entry.2).isSome → entry.2 ≠ later.2

/-- The offset of a constant is not cut off when it is made an index. -/
theorem Faithful.toNat_ofNat_of_mem (h : pool.Faithful) {entry : Nat × Constant}
    (hmem : entry ∈ pool.constants.toList) : (UInt16.ofNat entry.1).toNat = entry.1 := by
  have hlt := h.ordered.below entry hmem
  have hle := h.next_le
  rw [UInt16.toNat_ofNat']
  exact Nat.mod_eq_of_lt (by omega)

/-- A constant is found at the offset where it begins. -/
theorem Faithful.constantAt?_of_mem (h : pool.Faithful) {entry : Nat × Constant}
    (hmem : entry ∈ pool.constants.toList) :
    constantAt? pool.constants ⟨UInt16.ofNat entry.1⟩ = some entry.2 := by
  rw [constantAt?, h.toNat_ofNat_of_mem hmem]
  exact (OffsetList.get?_eq_some_iff h.ordered).2 hmem

/-- A constant that tells a key by itself is made for no other key. -/
theorem Denotes.eq_of_ownKey? {constants : OffsetList Constant} {key own : PoolKey} {c : Constant}
    (h : Denotes constants i key) (hi : constantAt? constants i = some c)
    (hown : ownKey? c = some own) : key = own := by
  cases key with
  | utf8 content =>
      rw [Denotes, readText?, hi] at h
      cases c <;> cases h
      cases hown
      rfl
  | type value =>
      rw [Denotes, readType?, hi] at h
      cases c with
      | type => cases hown
      | _ => cases h
  | field value =>
      rw [Denotes, readField?, hi] at h
      cases c with
      | field => cases hown
      | _ => cases h
  | method value =>
      rw [Denotes, readMethod?, hi] at h
      cases c with
      | method => cases hown
      | _ => cases h
  | _ =>
      rw [Denotes, hi] at h
      cases h
      cases hown
      rfl

/-- Every constant of a pool that has grown from nothing was made for something. -/
theorem Grows.exists_isMadeFor {n : Nat} (h : Grows n empty pool) :
    ∀ entry ∈ pool.constants.toList, ∃ key, pool.IsMadeFor entry key := by
  induction h with
  | refl => exact fun entry hentry => absurd hentry List.not_mem_nil
  | @add pool o key c h hlevel hbuilds hnew hroom ih =>
      have hpool := h.faithful faithful_empty
      have hlast := hpool.withConstant hbuilds hroom
      have hadd : Grows n pool (pool.withConstant key c) := .add (.refl pool) hlevel hbuilds hnew hroom
      -- what is on record for a key stands for it, so only the record has to be looked at
      suffices hknown : ∀ entry ∈ (pool.withConstant key c).constants.toList,
          ∃ key', (pool.withConstant key c).known[key']? = some (PoolIndex.mk (UInt16.ofNat entry.1)) by
        intro entry hentry
        obtain ⟨key', hkey'⟩ := hknown entry hentry
        exact ⟨key', hkey', hlast.known key' _ hkey'⟩
      intro entry hentry
      rw [constants_withConstant, OffsetList.toList_push] at hentry
      rcases List.mem_append.1 hentry with hold | hlatest
      · obtain ⟨key', hmade, -⟩ := ih entry hold
        exact ⟨key', hadd.known_eq_some hmade⟩
      · cases List.mem_singleton.1 hlatest
        exact ⟨key, by rw [known_withConstant, if_pos rfl]⟩

/-- **Nothing is held twice** by a pool that has grown from nothing. -/
theorem Grows.holdsOnce {n : Nat} (h : Grows n empty pool) : pool.HoldsOnce := by
  have hpool := h.faithful faithful_empty
  have hmade := h.exists_isMadeFor
  have honce : pool.constants.toList.Pairwise fun entry later =>
      ∀ key, pool.IsMadeFor entry key → ¬ pool.IsMadeFor later key := by
    refine hpool.ordered.pairwise.imp_of_mem fun hentry hlater hlt key hmade hmade' => ?_
    -- the record has one index for the key, but the offsets differ
    have hindex := Option.some.inj (hmade.1.symm.trans hmade'.1)
    have hoffset := congrArg (fun i => i.val.toNat) hindex
    simp only [hpool.toNat_ofNat_of_mem hentry, hpool.toNat_ofNat_of_mem hlater] at hoffset
    exact absurd hoffset (Nat.ne_of_lt hlt)
  refine ⟨hmade, honce, honce.imp_of_mem fun {entry later} hentry hlater hother hsome heq => ?_⟩
  obtain ⟨own, hown⟩ := Option.isSome_iff_exists.1 hsome
  obtain ⟨key, hkey⟩ := hmade entry hentry
  obtain ⟨key', hkey'⟩ := hmade later hlater
  obtain rfl := hkey.2.eq_of_ownKey? (hpool.constantAt?_of_mem hentry) hown
  obtain rfl := hkey'.2.eq_of_ownKey? (hpool.constantAt?_of_mem hlater) (heq ▸ hown)
  exact hother _ hkey hkey'

/-- **An answer is right, and is given again.** After any history of requests, some of which may have
failed, the pool holds nothing twice. If a request of that history was answered with an index, then
the constant of that index stands for its operand, and whatever asks for that operand is answered
with that index and leaves the pool alone, whether there is room in it or not. -/
theorem answers_are_kept (requests : List Request) :
    (after requests).HoldsOnce ∧
    ∀ (before later : List Request) (r : Request) (i : PoolIndex),
      requests = before ++ r :: later → (r.ask (after before)).1 = .ok i →
      r.operand.IsReadAt (after requests).constants i ∧
      ∀ r' : Request, r'.operand = r.operand →
        r'.ask (after requests) = (r'.answer i, after requests) := by
  have hgrows := grows_after requests
  refine ⟨hgrows.holdsOnce, ?_⟩
  rintro before later r i rfl hi
  have hindex := index?_after hi later
  refine ⟨(hgrows.faithful faithful_empty).isReadAt hindex, fun r' hr' => ?_⟩
  rw [← hr'] at hindex
  exact Request.ask_of_index? hindex

/-- A history in which an attribute fails after its name was added. -/
def interrupted : List Request :=
  [.utf8 "hi", .named "Code" (.error (.textTooLong 65536)), .literal (.text "hi"), .utf8 "Code"]

/-- The text that was loaded is known from then on, as is the name of the failed attribute. -/
theorem answers_are_kept_interrupted :
    readLiteral? (after interrupted).constants ⟨3⟩ = some (.text "hi") ∧
    (Request.literal (.text "hi")).ask (after interrupted) = (.ok ⟨3⟩, after interrupted) ∧
    (Request.named "Code" (.ok [])).ask (after interrupted) = (.ok ⟨2⟩, after interrupted) := by
  obtain ⟨-, hkept⟩ := answers_are_kept interrupted
  have htext : ((Request.literal (.text "hi")).ask (after (interrupted.take 2))).1 = .ok ⟨3⟩ := by cbv
  have hname : ((Request.utf8 "Code").ask (after (interrupted.take 3))).1 = .ok ⟨2⟩ := by cbv
  obtain ⟨hread, htext⟩ := hkept _ [.utf8 "Code"] _ _ rfl htext
  obtain ⟨-, hname⟩ := hkept _ [] _ _ rfl hname
  exact ⟨hread, htext _ rfl, hname _ rfl⟩

end JvmCodegen.ConstantPool
