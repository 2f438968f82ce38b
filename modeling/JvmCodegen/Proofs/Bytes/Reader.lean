/-
**Readers.**

A reader takes a value off the front of some bytes.  It reads a value from given bytes if it takes
exactly those bytes, whatever follows; readers of this kind can be put one after another.

Main definitions:

* `Reader` — readers, with those for numbers, for bytes and for counted sequences;
* `Reader.run?` — reading all of some bytes;
* `Reader.Reads` — a reader reads a value from some bytes.

Main results:

* `Reader.Reads.bind`, `Reader.Reads.map` — one reader after another;
* `Reader.reads_each`, `Reader.reads_counted` — **sequences that were written are read**.
-/

import Mathlib.Algebra.Group.Nat.Defs
import JvmCodegen.Proofs.Bytes

set_option relaxedAutoImplicit false
set_option autoImplicit false

namespace JvmCodegen

/-- What takes a value off the front of some bytes. -/
abbrev Reader := StateT (List UInt8) Option

namespace Reader

variable {α β : Type}

/-! ### Readers -/

def u8 : Reader UInt8 := Bytes.readU8?

def u16 : Reader UInt16 := Bytes.readU16?

def u32 : Reader UInt32 := Bytes.readU32?

def u64 : Reader UInt64 := fun input =>
  (Bytes.readNat? 8 input).map fun (n, rest) => (UInt64.ofNat n, rest)

/-- As many bytes as are asked for. -/
def bytes (n : Nat) : Reader (List UInt8) := fun input =>
  if n ≤ input.length then some (input.take n, input.drop n) else none

/-- A value that was found without reading, if it was found. -/
def ofOption (a : Option α) : Reader α := fun input => a.map fun a => (a, input)

/-- The condition holds. -/
def check (p : Prop) [Decidable p] : Reader Unit := ofOption (if p then some () else none)

/-- As many values as are asked for. -/
def each (r : Reader α) : Nat → Reader (List α)
  | 0 => pure []
  | n + 1 => do
      let x ← r
      let xs ← each r n
      return x :: xs

/-- A sequence that begins with its count. -/
def counted (r : Reader α) : Reader (List α) := do
  let n ← u16
  each r n.toNat

/-- The value that all of some bytes are read as. -/
def run? (r : Reader α) (input : List UInt8) : Option α :=
  match r input with
  | some (a, []) => some a
  | _ => none

/-! ### What is read -/

/-- The reader takes the value from exactly these bytes, whatever follows. -/
def Reads (r : Reader α) (input : List UInt8) (a : α) : Prop :=
  ∀ rest, r (input ++ rest) = some (a, rest)

/-- Nothing is left of the bytes that a value is read from. -/
theorem Reads.run?_eq {r : Reader α} {input : List UInt8} {a : α} (h : Reads r input a) :
    r.run? input = some a := by
  have hall := h []
  rw [List.append_nil] at hall
  rw [run?, hall]

namespace Reads

variable {r : Reader α} {next : α → Reader β} {first second : List UInt8} {a : α} {b : β}

theorem pure (a : α) : Reads (Pure.pure a) [] a := fun _ => rfl

/-- **One reader after another.** -/
theorem bind (h : Reads r first a) (h' : Reads (next a) second b) :
    Reads (r >>= next) (first ++ second) b := by
  intro rest
  show (r (first ++ second ++ rest)).bind (fun (a, rest) => next a rest) = some (b, rest)
  rw [List.append_assoc, h, Option.bind_some]
  exact h' rest

/-- A step that takes no bytes comes last. -/
theorem before_none (h : Reads r first a) (h' : Reads (next a) [] b) : Reads (r >>= next) first b := by
  have hboth := h.bind h'
  rw [List.append_nil] at hboth
  exact hboth

/-- What is made of the value that was read. -/
theorem map {f : α → β} (h : Reads r first a) :
    Reads (r >>= fun a => Pure.pure (f a)) first (f a) :=
  h.before_none (.pure (f a))

/-- A step that takes no bytes comes first. -/
theorem after_none (h : Reads r [] a) (h' : Reads (next a) second b) :
    Reads (r >>= next) second b :=
  h.bind h'

end Reads

theorem reads_u8 (n : UInt8) : Reads u8 [n] n := fun _ => rfl

theorem reads_u16 (n : UInt16) : Reads u16 (Bytes.u16 n) n := Bytes.readU16?_u16 n

theorem reads_u32 (n : UInt32) : Reads u32 (Bytes.u32 n) n := Bytes.readU32?_u32 n

theorem reads_u64 (n : UInt64) : Reads u64 (Bytes.u64 n) n := by
  intro rest
  have hlt : n.toNat < 256 ^ 8 := n.toNat_lt
  simp only [u64, Bytes.u64, Bytes.readNat?_bigEndian hlt, Option.map_some, UInt64.ofNat_toNat]

theorem reads_bytes (info : List UInt8) : Reads (bytes info.length) info info := by
  intro rest
  have hle : info.length ≤ (info ++ rest).length := by
    rw [List.length_append]
    exact Nat.le_add_right _ _
  rw [bytes, if_pos hle, List.take_left, List.drop_left]

theorem reads_ofOption {found : Option α} {a : α} (h : found = some a) :
    Reads (ofOption found) [] a := by
  intro rest
  rw [h]
  rfl

theorem reads_check {p : Prop} [Decidable p] (h : p) : Reads (check p) [] () :=
  reads_ofOption (if_pos h)

/-! ### Sequences -/

section Each

variable {encode : α → Except EncodingError (List UInt8)}

/-- What was written before comes before the rest. -/
theorem encodeEach_eq_map (acc : List (List UInt8)) (xs : List α) :
    Bytes.encodeEach encode acc xs =
      (Bytes.encodeEach encode [] xs).map (acc.reverse.flatten ++ ·) := by
  induction xs generalizing acc with
  | nil => simp [Bytes.encodeEach, Except.map]
  | cons x xs ih =>
      simp only [Bytes.encodeEach]
      cases encode x with
      | error e => rfl
      | ok written =>
          dsimp only
          rw [ih (written :: acc), ih [written]]
          cases Bytes.encodeEach encode [] xs with
          | error e => rfl
          | ok rest => simp [Except.map]

/-- The first element is written, and then the others. -/
theorem encodeEach_cons_eq_ok {x : α} {xs : List α} {written : List UInt8} :
    Bytes.encodeEach encode [] (x :: xs) = .ok written ↔
      ∃ head rest, encode x = .ok head ∧ Bytes.encodeEach encode [] xs = .ok rest ∧
        written = head ++ rest := by
  rw [Bytes.encodeEach]
  cases encode x with
  | error e => simp
  | ok head =>
      dsimp only
      rw [encodeEach_eq_map]
      cases Bytes.encodeEach encode [] xs with
      | error e => simp [Except.map]
      | ok rest => simp [Except.map, eq_comm]

/-- A sequence has a written form if all of its elements have one. -/
theorem exists_encodeEach {xs : List α} (h : ∀ x ∈ xs, ∃ head, encode x = .ok head) :
    ∃ written, Bytes.encodeEach encode [] xs = .ok written := by
  induction xs with
  | nil => exact ⟨[], rfl⟩
  | cons x xs ih =>
      obtain ⟨head, hhead⟩ := h x List.mem_cons_self
      obtain ⟨rest, hrest⟩ := ih fun y hy => h y (List.mem_cons_of_mem x hy)
      exact ⟨head ++ rest, encodeEach_cons_eq_ok.2 ⟨head, rest, hhead, hrest, rfl⟩⟩

end Each

/-- **Values that were written one after the other are read.** -/
theorem reads_each {r : Reader α} {encode : α → List UInt8} {xs : List α}
    (h : ∀ x ∈ xs, Reads r (encode x) x) : Reads (each r xs.length) (xs.flatMap encode) xs := by
  induction xs with
  | nil => exact .pure []
  | cons x xs ih =>
      have hrest := ih fun y hy => h y (List.mem_cons_of_mem x hy)
      rw [List.flatMap_cons]
      exact (h x List.mem_cons_self).bind hrest.map

/-- Elements that may have no written form are read, if they have one. -/
theorem reads_eachM {r : Reader α} {encode : α → Except EncodingError (List UInt8)} {xs : List α}
    {written : List UInt8} (hwritten : Bytes.encodeEach encode [] xs = .ok written)
    (h : ∀ x ∈ xs, ∀ head, encode x = .ok head → Reads r head x) :
    Reads (each r xs.length) written xs := by
  induction xs generalizing written with
  | nil =>
      cases hwritten
      exact .pure []
  | cons x xs ih =>
      obtain ⟨head, rest, hhead, hrest, rfl⟩ := encodeEach_cons_eq_ok.1 hwritten
      have hothers := ih hrest fun y hy => h y (List.mem_cons_of_mem x hy)
      exact (h x List.mem_cons_self head hhead).bind hothers.map

/-- The count that a sequence is written with is its length. -/
theorem count_eq_ok {n : Nat} {written : List UInt8} (h : Bytes.count n = .ok written) :
    written = Bytes.u16 (UInt16.ofNat n) ∧ (UInt16.ofNat n).toNat = n := by
  unfold Bytes.count at h
  split at h
  case isFalse => cases h
  case isTrue hle =>
      cases h
      rw [UInt16.toNat_ofNat']
      exact ⟨rfl, Nat.mod_eq_of_lt (Nat.lt_succ_of_le hle)⟩

/-- **A sequence that was written with its count is read.** -/
theorem reads_counted {r : Reader α} {encode : α → List UInt8} {xs : List α} {written : List UInt8}
    (hwritten : Bytes.counted encode xs = .ok written) (h : ∀ x ∈ xs, Reads r (encode x) x) :
    Reads (counted r) written xs := by
  unfold Bytes.counted at hwritten
  split at hwritten
  case h_1 => cases hwritten
  case h_2 n hcount =>
      cases hwritten
      obtain ⟨rfl, hn⟩ := count_eq_ok hcount
      have heach : Reads (each r (UInt16.ofNat xs.length).toNat) (xs.flatMap encode) xs := by
        rw [hn]
        exact reads_each h
      exact (reads_u16 _).bind heach

/-- A sequence of elements that may have no written form is read, if it has one. -/
theorem reads_countedM {r : Reader α} {encode : α → Except EncodingError (List UInt8)} {xs : List α}
    {written : List UInt8} (hwritten : Bytes.countedM encode xs = .ok written)
    (h : ∀ x ∈ xs, ∀ head, encode x = .ok head → Reads r head x) : Reads (counted r) written xs := by
  unfold Bytes.countedM at hwritten
  split at hwritten
  case h_1 => cases hwritten
  case h_2 n hcount =>
      split at hwritten
      case h_1 => cases hwritten
      case h_2 body hbody =>
          cases hwritten
          obtain ⟨rfl, hn⟩ := count_eq_ok hcount
          refine (reads_u16 _).bind ?_
          rw [hn]
          exact reads_eachM hbody h

end Reader

end JvmCodegen
