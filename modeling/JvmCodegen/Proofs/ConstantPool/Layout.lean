/-
**The layout of a constant pool.**

The constants of a pool begin one right after the other, from the index 1 on, and stop below the
index 65535, because the count of a pool has 16 bits.  A constant refers only to constants that
begin before it, each of the kind that its place calls for.  All of this holds whatever was asked
of the pool, and also after requests that found no room and left behind what they had added.

Main definitions:

* `ConstantKind`, `Constant.kind`, `Constant.references` — the indices inside a constant, and the
  kinds of constants they have to lead to;
* `ConstantPool.LeadsTo`, `ConstantPool.Operand.kind` — an index leads to a constant of a kind, and the
  kind of the constant for an operand;
* `ConstantPool.IsLaidOut` — the layout.

Main results:

* `ConstantPool.Faithful.leadsTo` — what is on record leads to a constant of the right kind;
* `ConstantPool.IsLaidOut.withConstant`, `ConstantPool.Grows.isLaidOut` — adding one constant keeps
  the layout, so it is kept by all requests;
* `ConstantPool.layout_after` — **every pool is laid out**, and is full only when it has to be.
-/

import JvmCodegen.Proofs.ConstantPool.Requests

set_option relaxedAutoImplicit false
set_option autoImplicit false

namespace JvmCodegen

/-! ### Kinds and references -/

/-- The kinds of constants. -/
inductive ConstantKind
  | type
  | field
  | method
  | text
  | integer
  | float
  | long
  | double
  | nameAndType
  | utf8
  | methodHandle
deriving DecidableEq

/-- The kind of a constant. -/
def Constant.kind : Constant → ConstantKind
  | type _ => .type
  | field _ _ => .field
  | method _ _ _ => .method
  | text _ => .text
  | integer _ => .integer
  | float _ => .float
  | long _ => .long
  | double _ => .double
  | nameAndType _ _ => .nameAndType
  | utf8 _ => .utf8
  | methodHandle _ _ => .methodHandle

/-- The indices inside a constant, each with the kind of the constant that has to be there. -/
def Constant.references : Constant → List (ConstantKind × PoolIndex)
  | type name => [(.utf8, name)]
  | text content => [(.utf8, content)]
  | nameAndType name descriptor => [(.utf8, name), (.utf8, descriptor)]
  | field owner member => [(.type, owner), (.nameAndType, member)]
  | method owner member _ => [(.type, owner), (.nameAndType, member)]
  | methodHandle _ target => [(.method, target)]
  | integer _ | float _ | long _ | double _ | utf8 _ => []

/-- The kind of the constant for a literal. -/
def LiteralName.kind : LiteralName → ConstantKind
  | text _ => .text
  | type _ => .type
  | int _ => .integer
  | long _ => .long
  | float _ => .float
  | double _ => .double
  | methodHandle _ _ => .methodHandle

namespace ConstantPool

/-- The kind of the constant for an operand. -/
def Operand.kind : Operand → ConstantKind
  | utf8 _ => .utf8
  | text _ => .text
  | integer _ => .integer
  | float _ => .float
  | long _ => .long
  | double _ => .double
  | type _ => .type
  | nameAndType _ _ => .nameAndType
  | field _ => .field
  | method _ => .method
  | methodHandle _ => .methodHandle

/-- The index leads to a constant of the kind. -/
def LeadsTo (constants : OffsetList Constant) (reference : ConstantKind × PoolIndex) : Prop :=
  ∃ c, constantAt? constants reference.2 = some c ∧ c.kind = reference.1

theorem LeadsTo.of_readLiteral? {constants : OffsetList Constant} {i : PoolIndex} {l : LiteralName}
    (h : readLiteral? constants i = some l) : LeadsTo constants (l.kind, i) := by
  unfold readLiteral? at h
  split at h
  case h_8 => cases h
  case h_1 | h_2 | h_7 =>
      rename_i hentry
      obtain ⟨value, -, rfl⟩ := Option.map_eq_some_iff.1 h
      exact ⟨_, hentry, rfl⟩
  all_goals
    rename_i hentry
    cases h
    exact ⟨_, hentry, rfl⟩

theorem Operand.IsReadAt.leadsTo {constants : OffsetList Constant} {i : PoolIndex} {o : Operand}
    (h : o.IsReadAt constants i) : LeadsTo constants (o.kind, i) := by
  cases o with
  | utf8 content => exact ⟨_, readText?_eq_some_iff.1 h, rfl⟩
  | type value =>
      obtain ⟨name, hentry, -⟩ := readType?_eq_some_iff.1 h
      exact ⟨_, hentry, rfl⟩
  | nameAndType name descriptor =>
      obtain ⟨name, descriptor, hentry, -⟩ := readNameAndType?_eq_some_iff.1 h
      exact ⟨_, hentry, rfl⟩
  | field value =>
      obtain ⟨owner, member, hentry, -⟩ := readField?_eq_some_iff.1 h
      exact ⟨_, hentry, rfl⟩
  | method value =>
      obtain ⟨owner, member, hentry, -⟩ := readMethod?_eq_some_iff.1 h
      exact ⟨_, hentry, rfl⟩
  | _ => exact .of_readLiteral? h

variable {pool : ConstantPool} {o : Operand} {key : PoolKey} {c : Constant}

/-- What is on record leads to a constant of the right kind. -/
theorem Faithful.leadsTo (h : pool.Faithful) {i : PoolIndex} (hindex : pool.index? o = some i) :
    LeadsTo pool.constants (o.kind, i) :=
  (h.isReadAt hindex).leadsTo

/-- The constants are where they should be. -/
structure IsLaidOut (pool : ConstantPool) : Prop where
  /-- The first constant begins at 1, each other one right after the places of the one before it. -/
  consecutive : OffsetList.Consecutive 1 pool.constants.toList pool.constants.next
  next_le : pool.constants.next ≤ 65535
  /-- An index inside a constant leads to an earlier constant of the right kind. -/
  backward : ∀ before entry later, pool.constants.toList = before ++ entry :: later →
    ∀ reference ∈ entry.2.references, ∃ earlier ∈ before,
      earlier.1 = reference.2.val.toNat ∧ earlier.2.kind = reference.1

theorem isLaidOut_empty : empty.IsLaidOut :=
  ⟨rfl, by decide, fun _ _ _ hempty => absurd hempty.symm (List.append_ne_nil_of_right_ne_nil _ nofun)⟩

/-! ### Keeping the layout -/

/-- The indices inside a constant that is built are those of constants of the right kinds. -/
theorem Builds.leadsTo_reference (h : pool.Builds o key c) (hpool : pool.Faithful)
    {reference : ConstantKind × PoolIndex} (hreference : reference ∈ c.references) :
    LeadsTo pool.constants reference := by
  cases h with
  | text hcontent =>
      obtain rfl := List.mem_singleton.1 hreference
      exact hpool.leadsTo hcontent
  | type hname =>
      obtain rfl := List.mem_singleton.1 hreference
      exact hpool.leadsTo hname
  | nameAndType hname hdescriptor =>
      rcases List.mem_cons.1 hreference with rfl | hreference
      · exact hpool.leadsTo hname
      · obtain rfl := List.mem_singleton.1 hreference
        exact hpool.leadsTo hdescriptor
  | field howner hmember | method howner hmember =>
      rcases List.mem_cons.1 hreference with rfl | hreference
      · exact hpool.leadsTo howner
      · obtain rfl := List.mem_singleton.1 hreference
        exact hpool.leadsTo hmember
  | methodHandle htarget =>
      obtain rfl := List.mem_singleton.1 hreference
      exact hpool.leadsTo htarget
  | _ => exact absurd hreference List.not_mem_nil

/-- **Adding a constant keeps the layout.** -/
theorem IsLaidOut.withConstant (h : pool.IsLaidOut) (hpool : pool.Faithful)
    (hbuilds : pool.Builds o key c) (hroom : pool.constants.next + width c ≤ 65535) :
    (pool.withConstant key c).IsLaidOut := by
  refine ⟨h.consecutive.push c, hroom, fun before entry later heq reference hreference => ?_⟩
  rw [constants_withConstant, OffsetList.toList_push] at heq
  rcases List.eq_nil_or_concat later with rfl | ⟨later, last, rfl⟩
  · -- the constant that was added
    obtain ⟨rfl, hentry⟩ := List.append_inj' heq rfl
    cases hentry
    obtain ⟨c', hc', hkind⟩ := hbuilds.leadsTo_reference hpool hreference
    exact ⟨_, (OffsetList.get?_eq_some_iff hpool.ordered).1 hc', rfl, hkind⟩
  · -- a constant that was there before
    rw [List.concat_eq_append, ← List.cons_append, ← List.append_assoc] at heq
    exact h.backward before entry later (List.append_inj' heq rfl).1 reference hreference

/-- **A pool stays laid out.** -/
theorem Grows.isLaidOut {first : ConstantPool} {n : Nat} (h : Grows n first pool)
    (hfirst : first.IsLaidOut) (hfaithful : first.Faithful) : pool.IsLaidOut := by
  induction h with
  | refl => exact hfirst
  | add h _ hbuilds _ hroom ih => exact ih.withConstant (h.faithful hfaithful) hbuilds hroom

theorem isLaidOut_after (requests : List Request) : (after requests).IsLaidOut :=
  (grows_after requests).isLaidOut isLaidOut_empty faithful_empty

/-- Every place of a constant is an index that 16 bits can say, the last one excepted. -/
theorem IsLaidOut.place_bounds (h : pool.IsLaidOut) {entry : Nat × Constant}
    (hmem : entry ∈ pool.constants.toList) {place : Nat} (hlow : entry.1 ≤ place)
    (hhigh : place < entry.1 + width entry.2) : 1 ≤ place ∧ place ≤ 65534 := by
  obtain ⟨hstart, hstop⟩ := h.consecutive.bounds hmem
  have hnext := h.next_le
  omega

/-- What is on record is the index of a constant. -/
theorem Faithful.mem_of_index? (h : pool.Faithful) {i : PoolIndex} (hi : pool.index? o = some i) :
    ∃ c, (i.val.toNat, c) ∈ pool.constants.toList := by
  obtain ⟨key, -, hknown⟩ := Option.bind_eq_some_iff.1 hi
  obtain ⟨c, hc⟩ := (h.known key i hknown).exists_constantAt?
  exact ⟨c, (OffsetList.get?_eq_some_iff h.ordered).1 hc⟩

/-- The constants of the first pool are where they were, and what was on record is on record. -/
structure Keeps (pool later : ConstantPool) : Prop where
  isPrefix : pool.constants.toList <+: later.constants.toList
  known : ∀ (key : PoolKey) (i : PoolIndex), pool.known[key]? = some i → later.known[key]? = some i

/-- The indices inside the constants of a pool lead to constants of the right kinds. -/
theorem IsLaidOut.leadsTo_reference (h : pool.IsLaidOut) (hpool : pool.Faithful)
    {entry : Nat × Constant} (hentry : entry ∈ pool.constants.toList)
    {reference : ConstantKind × PoolIndex} (hreference : reference ∈ entry.2.references) :
    LeadsTo pool.constants reference := by
  obtain ⟨before, later, heq⟩ := List.append_of_mem hentry
  obtain ⟨⟨place, c⟩, hearlier, hplace, hkind⟩ :=
    h.backward before entry later heq reference hreference
  have hmem : (place, c) ∈ pool.constants.toList := by
    rw [heq]
    exact List.mem_append_left _ hearlier
  rw [show place = reference.2.val.toNat from hplace] at hmem
  exact ⟨c, (OffsetList.get?_eq_some_iff hpool.ordered).2 hmem, hkind⟩

/-- **Every pool is laid out, and is full only when it has to be.** After any history of requests,
the constants begin one right after the other, from 1 on, with an exact count and all their places
below it, and refer to earlier constants of the right kinds. The next request leaves all of them
where they are, even if it fails. If it succeeds, it returns the index of a constant; if the pool is
full, then the constant that did not fit is one that was needed and missing. -/
theorem layout_after (requests : List Request) (r : Request) :
    (after requests).IsLaidOut ∧
    (UInt16.ofNat (after requests).constants.next).toNat = (after requests).constants.next ∧
    (∀ entry ∈ (after requests).constants.toList, ∀ place, entry.1 ≤ place →
      place < entry.1 + width entry.2 → 1 ≤ place ∧ place ≤ 65534) ∧
    (after requests).Keeps (after (requests ++ [r])) ∧
    (∀ i, (r.ask (after requests)).1 = .ok i → 1 ≤ i.val.toNat ∧ i.val.toNat ≤ 65534 ∧
      ∃ c, (i.val.toNat, c) ∈ (after (requests ++ [r])).constants.toList) ∧
    ∀ c offset, (r.ask (after requests)).1 = .error (.pool (.full c offset)) →
      offset = (after (requests ++ [r])).constants.next ∧ 65535 < offset + width c ∧
      ∃ needed key, r.operand.Needs needed ∧ (after (requests ++ [r])).index? needed = none ∧
        (after (requests ++ [r])).Builds needed key c := by
  have hlaid := isLaidOut_after requests
  have hlater := isLaidOut_after (requests ++ [r])
  have hfaithful := (grows_after (requests ++ [r])).faithful faithful_empty
  have hgrows := grows_after_append requests [r]
  have hadds := r.adds_ask (after requests)
  rw [after_concat] at hlater hfaithful hgrows ⊢
  have hcount :
      (UInt16.ofNat (after requests).constants.next).toNat = (after requests).constants.next := by
    have hnext := hlaid.next_le
    rw [UInt16.toNat_ofNat']
    exact Nat.mod_eq_of_lt (by omega)
  refine ⟨hlaid, hcount, fun entry hmem place => hlaid.place_bounds hmem,
    ⟨hgrows.isPrefix, fun key i => hgrows.known_eq_some⟩, fun i hi => ?_, fun c offset hfull => ?_⟩
  · obtain ⟨c, hmem⟩ := hfaithful.mem_of_index? (hadds.result i hi)
    obtain ⟨hlow, hhigh⟩ := hlater.place_bounds hmem (Nat.le_refl _)
      (Nat.lt_add_of_pos_right c.width_pos)
    exact ⟨hlow, hhigh, c, hmem⟩
  · cases hadds.failure _ hfull with
    | pool hrefuses =>
        cases hrefuses with
        | full hneeds hnew hbuilds hroom => exact ⟨rfl, hroom, _, _, hneeds, hnew, hbuilds⟩

/-! ### A full pool -/

/-- Requests for the numbers below `n`, each of which takes up two places. -/
def longs (n : Nat) : List Request :=
  (List.range n).map fun k => .literal (.long (Int64.ofNat k))

/-- A number that is not on record is added, if there is room. -/
theorem ask_long {value : Int64} (hnew : pool.known[PoolKey.long value]? = none)
    (hroom : pool.constants.next + 2 ≤ 65535) :
    ((Request.literal (.long value)).ask pool).2 = pool.withConstant (.long value) (.long value) := by
  have hlong : literal (.long value) pool =
      (.ok ⟨UInt16.ofNat pool.constants.next⟩, pool.withConstant (.long value) (.long value)) :=
    (intern_of_unknown hnew _).trans (if_pos hroom)
  rw [Request.ask, toClassFileM_of_ok hlong]

theorem long_ne_of_lt {j k : Nat} (hlt : j < k) (hk : k ≤ 32767) : Int64.ofNat j ≠ Int64.ofNat k := by
  intro heq
  have hint := congrArg Int64.toInt heq
  rw [Int64.toInt_ofNat_of_lt (by omega), Int64.toInt_ofNat_of_lt (by omega)] at hint
  omega

/-- The numbers take up all places from 1 on, and nothing else is on record. -/
theorem after_longs {n : Nat} (hn : n ≤ 32767) :
    (after (longs n)).constants.next = 2 * n + 1 ∧
    ∀ key : PoolKey, (∀ k < n, key ≠ .long (Int64.ofNat k)) →
      (after (longs n)).known[key]? = none := by
  induction n with
  | zero => exact ⟨rfl, fun key _ => Std.HashMap.getElem?_empty⟩
  | succ n ih =>
      obtain ⟨hnext, hnew⟩ := ih (Nat.le_of_succ_le hn)
      have hlongs : longs (n + 1) = longs n ++ [.literal (.long (Int64.ofNat n))] := by
        rw [longs, List.range_succ, List.map_append]
        rfl
      -- the next number is none of those before it
      have hunknown : (after (longs n)).known[PoolKey.long (Int64.ofNat n)]? = none :=
        hnew _ fun k hk heq => long_ne_of_lt hk (Nat.le_of_succ_le hn) (PoolKey.long.inj heq).symm
      rw [hlongs, after_concat, ask_long hunknown (by omega)]
      refine ⟨?_, fun key hkey => ?_⟩
      · rw [constants_withConstant, OffsetList.next_push, hnext]
        show 2 * n + 1 + 2 = _
        omega
      · rw [known_withConstant, if_neg fun heq => hkey n (Nat.lt_succ_self n) heq.symm]
        exact hnew key fun k hk => hkey k (Nat.lt_succ_of_lt hk)

/-- There is no room for a number at the end of a full pool. -/
theorem ask_int_of_full {value : Int32} (hnew : pool.known[PoolKey.integer value]? = none)
    (hnext : pool.constants.next = 65535) :
    ((Request.literal (.int value)).ask pool).1 =
      .error (.pool (.full (.integer value) 65535)) := by
  have hnoRoom : ¬ pool.constants.next + width (Constant.integer value) ≤ 65535 := by
    rw [hnext]
    exact Nat.not_succ_le_self 65535
  have hint : literal (.int value) pool =
      (.error (.full (.integer value) pool.constants.next), pool) :=
    (intern_of_unknown hnew _).trans (if_neg hnoRoom)
  rw [Request.ask, PoolM.toClassFileM, hint, hnext]

/-- After as many numbers of two places as fit, there is no room for a number of one place. -/
theorem layout_after_longs :
    ((Request.literal (.int 7)).ask (after (longs 32767))).1 =
      .error (.pool (.full (.integer 7) 65535)) ∧
    ∃ needed key, (Operand.integer 7).Needs needed ∧
      (after (longs 32767 ++ [.literal (.int 7)])).Builds needed key (.integer 7) := by
  obtain ⟨hnext, hnew⟩ := after_longs (Nat.le_refl 32767)
  have hfull := ask_int_of_full (hnew (.integer 7) nofun) hnext
  obtain ⟨-, -, -, -, -, hreason⟩ := layout_after (longs 32767) (.literal (.int 7))
  obtain ⟨-, -, needed, key, hneeds, -, hbuilds⟩ := hreason _ _ hfull
  exact ⟨hfull, needed, key, hneeds, hbuilds⟩

end ConstantPool

end JvmCodegen
