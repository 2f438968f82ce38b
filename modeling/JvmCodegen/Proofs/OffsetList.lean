/-
**Finding elements by offset.**

The offsets of an offset list increase, as long as no element is without width.  So the search by
halving finds exactly the elements that were pushed, and a push disturbs none of them.

Main definitions:

* `OffsetList.Ordered` — the offsets increase, and stay below the next one;
* `OffsetList.Consecutive` — the elements begin one right after the other;
* `OffsetList.totalWidth` — the places that elements take up together.

Main results:

* `OffsetList.get?_eq_some_iff` — the search finds what is there, and nothing else;
* `OffsetList.get?_push_of_get?`, `OffsetList.get?_push_next` — **what a push does to the search**;
* `OffsetList.Consecutive.push`, `OffsetList.Consecutive.bounds` — elements that are pushed are
  consecutive, and each has its places between the first offset and the next one;
* `OffsetList.Consecutive.foldl_push` — consecutive elements are told by their widths alone;
* `OffsetList.get?_eq_none_iff` — the places at which nothing is found;
* `OffsetList.get?_eq_some_iff_of_addEach`, `OffsetList.get?_eq_none_iff_of_addEach` — the search after
  a history of pushes, by the offsets that the pushes have answered with;
* `OffsetList.pushes_are_found` — **a history of pushes**: where its elements are found, and where
  nothing is.
-/

import JvmCodegen.Constant
import JvmCodegen.OffsetList

set_option relaxedAutoImplicit false
set_option autoImplicit false

namespace JvmCodegen.OffsetList

variable {α : Type}

/-- The offsets increase, and stay below the next one. -/
structure Ordered (xs : OffsetList α) : Prop where
  increasing : ∀ (i j : Nat) (x y : Nat × α), i < j → xs.entries[i]? = some x →
    xs.entries[j]? = some y → x.1 < y.1
  below : ∀ x ∈ xs.toList, x.1 < xs.next

theorem ordered_startingAt (offset : Nat) : (startingAt offset : OffsetList α).Ordered :=
  ⟨fun i _ _ _ _ h _ => by simp [startingAt] at h, fun _ h => absurd h List.not_mem_nil⟩

/-- Pushing an element that has a width keeps the order. -/
theorem Ordered.push [HasWidth α] {xs : OffsetList α} (h : xs.Ordered) {x : α} (hwidth : 1 ≤ width x) :
    (xs.push x).Ordered := by
  refine ⟨fun i j a b hlt ha hb => ?_, fun a ha => ?_⟩
  · simp only [OffsetList.push, Array.getElem?_push] at ha hb
    split at hb
    case isTrue hj =>
        cases hb
        rw [if_neg (by omega)] at ha
        exact h.below a (Array.mem_toList_iff.2 (Array.mem_of_getElem? ha))
    case isFalse hj =>
        have hj := (Array.getElem?_eq_some_iff.1 hb).1
        rw [if_neg (by omega)] at ha
        exact h.increasing i j a b hlt ha hb
  · rw [next_push]
    rw [toList_push] at ha
    rcases List.mem_append.1 ha with ha | ha
    · have := h.below a ha
      omega
    · cases List.mem_singleton.1 ha
      exact Nat.lt_add_of_pos_right hwidth

/-- Elements stand in the order of their offsets. -/
theorem Ordered.lt_iff_lt {xs : OffsetList α} (h : xs.Ordered) {i j : Nat} {x y : Nat × α}
    (hx : xs.entries[i]? = some x) (hy : xs.entries[j]? = some y) : i < j ↔ x.1 < y.1 := by
  rcases Nat.lt_trichotomy i j with hlt | rfl | hgt
  · exact iff_of_true hlt (h.increasing i j x y hlt hx hy)
  · rw [hx] at hy
    cases hy
    exact iff_of_false (Nat.lt_irrefl i) (Nat.lt_irrefl x.1)
  · have hless := h.increasing j i y x hgt hy hx
    exact iff_of_false (Nat.not_lt_of_gt hgt) (Nat.not_lt_of_gt hless)

theorem Ordered.pairwise {xs : OffsetList α} (h : xs.Ordered) :
    xs.toList.Pairwise fun x y => x.1 < y.1 := by
  have hget : ∀ (n : Nat) (hn : n < xs.toList.length), xs.entries[n]? = some xs.toList[n] := by
    intro n hn
    rw [← Array.getElem?_toList]
    exact List.getElem?_eq_getElem hn
  rw [List.pairwise_iff_getElem]
  exact fun i j hi hj hlt => h.increasing i j _ _ hlt (hget i hi) (hget j hj)

/-! ### Searching -/

/-- What is found is there. -/
theorem search_sound {entries : Array (Nat × α)} {offset lo hi : Nat} {x : α}
    (h : search entries offset lo hi = some x) : ∃ i : Nat, entries[i]? = some (offset, x) := by
  fun_induction search entries offset lo hi with
  | case1 lo hi hlt mid hnone => cases h
  | case2 lo hi hlt mid y hget =>
      cases h
      exact ⟨mid, hget⟩
  | case3 lo hi hlt mid here y hget hne hless ih => exact ih h
  | case4 lo hi hlt mid here y hget hne hless ih => exact ih h
  | case5 => cases h

/-- What is there is found. -/
theorem Ordered.search_complete {xs : OffsetList α} (hxs : xs.Ordered) {offset lo hi k : Nat} {x : α}
    (hget : xs.entries[k]? = some (offset, x)) (hlo : lo ≤ k) (hhi : k < hi)
    (hsize : hi ≤ xs.entries.size) : search xs.entries offset lo hi = some x := by
  fun_induction search xs.entries offset lo hi with
  | case1 lo hi hlt mid hnone =>
      have hmid := Array.getElem?_eq_none_iff.1 hnone
      omega
  | case2 lo hi hlt mid y hmid =>
      -- two entries of one offset are the same entry
      have hafter := hxs.lt_iff_lt hmid hget
      have hbefore := hxs.lt_iff_lt hget hmid
      obtain rfl : mid = k := by
        simp only [Nat.lt_irrefl, iff_false] at hafter hbefore
        omega
      rw [hget] at hmid
      cases hmid
      rfl
  | case3 lo hi hlt mid here y hmid hne hless ih =>
      have hafter : mid < k := (hxs.lt_iff_lt hmid hget).2 hless
      exact ih hafter hhi hsize
  | case4 lo hi hlt mid here y hmid hne hless ih =>
      have hbefore : k < mid := (hxs.lt_iff_lt hget hmid).2 (by omega)
      exact ih hlo hbefore (by omega)
  | case5 lo hi hge => omega

/-- **The search finds what is there**, and nothing else. -/
theorem get?_eq_some_iff {xs : OffsetList α} (hxs : xs.Ordered) {offset : Nat} {x : α} :
    xs.get? offset = some x ↔ (offset, x) ∈ xs.toList := by
  constructor
  · intro h
    obtain ⟨i, hi⟩ := search_sound h
    exact Array.mem_toList_iff.2 (Array.mem_of_getElem? hi)
  · intro h
    obtain ⟨i, hi⟩ := Array.mem_iff_getElem?.1 (Array.mem_toList_iff.1 h)
    exact hxs.search_complete hi (Nat.zero_le i) (Array.getElem?_eq_some_iff.1 hi).1 (Nat.le_refl _)

section Push

variable [HasWidth α] {xs : OffsetList α} {x : α}

/-- A push disturbs nothing. -/
theorem get?_push_of_get? (hxs : xs.Ordered) (hwidth : 1 ≤ width x) {offset : Nat} {y : α}
    (h : xs.get? offset = some y) : (xs.push x).get? offset = some y := by
  rw [get?_eq_some_iff (hxs.push hwidth), toList_push]
  exact List.mem_append_left _ ((get?_eq_some_iff hxs).1 h)

/-- What is pushed is found at the offset where it begins. -/
theorem get?_push_next (hxs : xs.Ordered) (hwidth : 1 ≤ width x) :
    (xs.push x).get? xs.next = some x := by
  rw [get?_eq_some_iff (hxs.push hwidth), toList_push]
  exact List.mem_append_right _ (List.mem_singleton.2 rfl)

end Push

/-! ### Consecutive elements -/

section Consecutive

variable [HasWidth α]

/-- The elements begin one right after the other, the first of them at `start`, and `stop` comes
after the last one. -/
def Consecutive : Nat → List (Nat × α) → Nat → Prop
  | start, [], stop => start = stop
  | start, (offset, x) :: rest, stop => offset = start ∧ Consecutive (start + width x) rest stop

variable {start stop : Nat} {entries : List (Nat × α)}

/-- One more element at the end. -/
theorem Consecutive.concat (h : Consecutive start entries stop) (x : α) :
    Consecutive start (entries ++ [(stop, x)]) (stop + width x) := by
  induction entries generalizing start with
  | nil =>
      cases h
      exact ⟨rfl, rfl⟩
  | cons entry entries ih => exact ⟨h.1, ih h.2⟩

theorem Consecutive.push {xs : OffsetList α} (h : Consecutive start xs.toList xs.next) (x : α) :
    Consecutive start (xs.push x).toList (xs.push x).next := by
  rw [toList_push]
  exact h.concat x

theorem Consecutive.start_le (h : Consecutive start entries stop) : start ≤ stop := by
  induction entries generalizing start with
  | nil => exact Nat.le_of_eq h
  | cons entry entries ih => exact Nat.le_trans (Nat.le_add_right _ _) (ih h.2)

/-- Every element has its places between the first offset and the next one. -/
theorem Consecutive.bounds (h : Consecutive start entries stop) {offset : Nat} {x : α}
    (hmem : (offset, x) ∈ entries) : start ≤ offset ∧ offset + width x ≤ stop := by
  induction entries generalizing start with
  | nil => exact absurd hmem List.not_mem_nil
  | cons entry entries ih =>
      obtain ⟨rfl, hrest⟩ := h
      rcases List.mem_cons.1 hmem with rfl | hmem
      · exact ⟨Nat.le_refl _, hrest.start_le⟩
      · obtain ⟨hlow, hhigh⟩ := ih hrest hmem
        exact ⟨Nat.le_trans (Nat.le_add_right _ _) hlow, hhigh⟩

/-- Pushing consecutive elements without their offsets gives them the offsets again. -/
theorem Consecutive.foldl_push {xs : OffsetList α} (h : Consecutive xs.next entries stop) :
    (entries.map Prod.snd).foldl OffsetList.push xs = ⟨xs.entries ++ entries.toArray, stop⟩ := by
  induction entries generalizing xs with
  | nil =>
      cases h
      simp
  | cons entry entries ih =>
      obtain ⟨offset, x⟩ := entry
      obtain ⟨rfl, hrest⟩ := h
      rw [List.map_cons, List.foldl_cons, ih hrest]
      simp [OffsetList.push]

/-- No element begins within another one. -/
theorem Consecutive.apart (h : Consecutive start entries stop) {offset other : Nat} {x y : α}
    (hx : (offset, x) ∈ entries) (hy : (other, y) ∈ entries) :
    other ≤ offset ∨ offset + width x ≤ other := by
  induction entries generalizing start with
  | nil => exact absurd hx List.not_mem_nil
  | cons entry entries ih =>
      obtain ⟨rfl, hrest⟩ := h
      rcases List.mem_cons.1 hx with hfirst | hx'
      · cases hfirst
        rcases List.mem_cons.1 hy with hfirst | hy'
        · cases hfirst
          exact .inl (Nat.le_refl _)
        · exact .inr (hrest.bounds hy').1
      · rcases List.mem_cons.1 hy with hfirst | hy'
        · cases hfirst
          exact .inl (Nat.le_trans (Nat.le_add_right _ _) (hrest.bounds hx').1)
        · exact ih hrest hx' hy'

/-- There are no gaps between the elements. -/
theorem Consecutive.exists_mem (h : Consecutive start entries stop) {place : Nat}
    (hlow : start ≤ place) (hhigh : place < stop) :
    ∃ offset x, (offset, x) ∈ entries ∧ offset ≤ place ∧ place < offset + width x := by
  induction entries generalizing start with
  | nil =>
      cases h
      omega
  | cons entry entries ih =>
      obtain ⟨offset, x⟩ := entry
      obtain ⟨rfl, hrest⟩ := h
      by_cases hplace : place < offset + width x
      · exact ⟨offset, x, List.mem_cons_self, hlow, hplace⟩
      · obtain ⟨other, y, hmem, hbounds⟩ := ih hrest (by omega)
        exact ⟨other, y, List.mem_cons_of_mem _ hmem, hbounds⟩

/-- **Nothing is found** before the first element, behind the last one, and within an element. -/
theorem get?_eq_none_iff {list : OffsetList α} (hordered : list.Ordered)
    (h : Consecutive start list.toList list.next) {place : Nat} :
    list.get? place = none ↔ place < start ∨ list.next ≤ place ∨
      ∃ (offset : Nat) (x : α), (offset, x) ∈ list.toList ∧ offset < place ∧
        place < offset + width x := by
  have hnone : list.get? place = none ↔ ∀ x, (place, x) ∉ list.toList := by
    simp only [Option.eq_none_iff_forall_ne_some, ne_eq, get?_eq_some_iff hordered]
  rw [hnone]
  constructor
  · intro hmissing
    by_cases hlow : place < start
    · exact .inl hlow
    by_cases hhigh : list.next ≤ place
    · exact .inr (.inl hhigh)
    obtain ⟨offset, x, hmem, hle, hlt⟩ := h.exists_mem (Nat.le_of_not_lt hlow) (Nat.lt_of_not_le hhigh)
    have hne : offset ≠ place := fun heq => hmissing x (heq ▸ hmem)
    exact .inr (.inr ⟨offset, x, hmem, Nat.lt_of_le_of_ne hle hne, hlt⟩)
  · rintro (hlow | hhigh | ⟨offset, x, hmem, hlt, hwithin⟩) y hy
    · have := (h.bounds hy).1
      omega
    · have := hordered.below (place, y) hy
      omega
    · rcases h.apart hmem hy with hbefore | hafter
      · omega
      · omega

end Consecutive

/-! ### Histories of pushes -/

section Histories

variable [HasWidth α]

/-- The number of places that the elements of a list take up together. -/
def totalWidth (elements : List α) : Nat := (elements.map width).foldr (· + ·) 0

theorem totalWidth_cons (x : α) (elements : List α) :
    totalWidth (x :: elements) = width x + totalWidth elements := rfl

theorem addEach_cons (xs : OffsetList α) (x : α) (elements : List α) :
    xs.addEach (x :: elements) =
      (xs.next :: ((xs.push x).addEach elements).1, ((xs.push x).addEach elements).2) := rfl

/-- **The offset that a push answers with** comes after the widths of all earlier elements. -/
theorem getElem?_addEach (xs : OffsetList α) {elements : List α} {i : Nat} {x : α}
    (hx : elements[i]? = some x) :
    (xs.addEach elements).1[i]? = some (xs.next + totalWidth (elements.take i)) := by
  induction elements generalizing xs i with
  | nil => cases hx
  | cons y elements ih =>
      rw [addEach_cons]
      cases i with
      | zero => rfl
      | succ i =>
          rw [List.getElem?_cons_succ] at hx ⊢
          rw [ih (xs.push y) hx, List.take_succ_cons, totalWidth_cons, next_push, Nat.add_assoc]

theorem length_addEach (xs : OffsetList α) (elements : List α) :
    (xs.addEach elements).1.length = elements.length := by
  induction elements generalizing xs with
  | nil => rfl
  | cons x elements ih => rw [addEach_cons, List.length_cons, List.length_cons, ih]

/-- The elements stand in the order in which they were pushed, with the offsets that were answered. -/
theorem toList_addEach (xs : OffsetList α) (elements : List α) :
    (xs.addEach elements).2.toList = xs.toList ++ (xs.addEach elements).1.zip elements := by
  induction elements generalizing xs with
  | nil => exact (List.append_nil _).symm
  | cons x elements ih =>
      rw [addEach_cons, List.zip_cons_cons]
      simp only [ih, toList_push, List.append_assoc, List.singleton_append]

/-- What every push keeps, a history of pushes keeps. -/
theorem addEach_induction {P : OffsetList α → Prop} (hpush : ∀ xs x, P xs → P (xs.push x))
    {xs : OffsetList α} (h : P xs) (elements : List α) : P (xs.addEach elements).2 := by
  induction elements generalizing xs with
  | nil => exact h
  | cons x elements ih => exact ih (hpush xs x h)

theorem next_addEach (xs : OffsetList α) (elements : List α) :
    (xs.addEach elements).2.next = xs.next + totalWidth elements := by
  induction elements generalizing xs with
  | nil => rfl
  | cons x elements ih =>
      rw [addEach_cons, totalWidth_cons, ← Nat.add_assoc, ← next_push]
      exact ih (xs.push x)

theorem ordered_addEach (hwidth : ∀ x : α, 1 ≤ width x) (start : Nat) (elements : List α) :
    ((startingAt start).addEach elements).2.Ordered :=
  addEach_induction (fun _ x h => h.push (hwidth x)) (ordered_startingAt start) elements

theorem consecutive_addEach (start : Nat) (elements : List α) :
    Consecutive start ((startingAt start).addEach elements).2.toList
      ((startingAt start).addEach elements).2.next := by
  have hempty : Consecutive start (startingAt start : OffsetList α).toList start := rfl
  exact addEach_induction (P := fun xs => Consecutive start xs.toList xs.next)
    (fun _ x h => h.push x) hempty elements

section FirstPushes

variable {start : Nat} {elements : List α} {offsets : List Nat} {list : OffsetList α}

/-- An element is listed with the offset that its push has answered with. -/
theorem mem_toList_of_addEach (hadd : (startingAt start).addEach elements = (offsets, list))
    {place : Nat} {x : α} :
    (place, x) ∈ list.toList ↔ ∃ i : Nat, offsets[i]? = some place ∧ elements[i]? = some x := by
  have hlist := toList_addEach (startingAt start) elements
  rw [hadd, toList_startingAt, List.nil_append] at hlist
  rw [hlist, List.mem_iff_getElem?]
  simp only [List.getElem?_zip_eq_some]

/-- What is found at a place is the element whose push has answered with that place. -/
theorem get?_eq_some_iff_of_addEach (hwidth : ∀ x : α, 1 ≤ width x)
    (hadd : (startingAt start).addEach elements = (offsets, list)) {place : Nat} {x : α} :
    list.get? place = some x ↔
      ∃ i : Nat, offsets[i]? = some place ∧ elements[i]? = some x := by
  have hordered := ordered_addEach hwidth start elements
  rw [hadd] at hordered
  exact (get?_eq_some_iff hordered).trans (mem_toList_of_addEach hadd)

/-- Nothing is found at a place that no push has answered with. -/
theorem get?_eq_none_iff_of_addEach (hwidth : ∀ x : α, 1 ≤ width x)
    (hadd : (startingAt start).addEach elements = (offsets, list)) {place : Nat} :
    list.get? place = none ↔ place ∉ offsets := by
  have hlength := length_addEach (startingAt start) elements
  rw [hadd] at hlength
  rw [Option.eq_none_iff_forall_ne_some, List.mem_iff_getElem?]
  constructor
  · rintro hnone ⟨i, hi⟩
    have hlt : i < elements.length := hlength ▸ (List.getElem?_eq_some_iff.1 hi).1
    have hfound := (get?_eq_some_iff_of_addEach hwidth hadd).2 ⟨i, hi, List.getElem?_eq_getElem hlt⟩
    exact hnone elements[i] hfound
  · intro hnot x hx
    obtain ⟨i, hi, -⟩ := (get?_eq_some_iff_of_addEach hwidth hadd).1 hx
    exact hnot ⟨i, hi⟩

end FirstPushes

/-- **Elements are found where they were pushed, and nowhere else.** Whatever is pushed onto an empty
list, each push answers with the first offset plus the widths of all elements before, the elements are
listed in their order with these offsets, and the element found at a place is the one whose push has
answered with that place. Nothing is found at the other places: those before the first offset, those
behind the last element, and those within an element of a greater width. -/
theorem pushes_are_found (hwidth : ∀ x : α, 1 ≤ width x) (start : Nat) (elements : List α)
    {offsets : List Nat} {list : OffsetList α}
    (hadd : (startingAt start).addEach elements = (offsets, list)) :
    offsets.length = elements.length ∧
    (∀ (i : Nat) (x : α), elements[i]? = some x →
      offsets[i]? = some (start + totalWidth (elements.take i))) ∧
    list.toList = offsets.zip elements ∧
    (∀ (place : Nat) (x : α), list.get? place = some x ↔
      ∃ i : Nat, offsets[i]? = some place ∧ elements[i]? = some x) ∧
    ∀ place : Nat, (list.get? place = none ↔ place ∉ offsets) ∧
      (list.get? place = none ↔ place < start ∨ start + totalWidth elements ≤ place ∨
        ∃ (i offset : Nat) (x : α), offsets[i]? = some offset ∧ elements[i]? = some x ∧
          offset < place ∧ place < offset + width x) := by
  have hlist := toList_addEach (startingAt start) elements
  have hnext := next_addEach (startingAt start) elements
  have hlength := length_addEach (startingAt start) elements
  have hordered := ordered_addEach hwidth start elements
  have hconsecutive := consecutive_addEach start elements
  have hoffset : ∀ (i : Nat) (x : α), elements[i]? = some x →
      ((startingAt start).addEach elements).1[i]? = some (start + totalWidth (elements.take i)) :=
    fun i x hx => getElem?_addEach (startingAt start) hx
  simp only [hadd, toList_startingAt, next_startingAt, List.nil_append]
    at hlist hnext hlength hordered hconsecutive hoffset
  refine ⟨hlength, hoffset, hlist, fun place x => get?_eq_some_iff_of_addEach hwidth hadd,
    fun place => ⟨get?_eq_none_iff_of_addEach hwidth hadd, ?_⟩⟩
  rw [get?_eq_none_iff hordered hconsecutive, hnext]
  have hwithin : (∃ (offset : Nat) (x : α), (offset, x) ∈ list.toList ∧ offset < place ∧
      place < offset + width x) ↔ ∃ (i offset : Nat) (x : α), offsets[i]? = some offset ∧
        elements[i]? = some x ∧ offset < place ∧ place < offset + width x := by
    simp only [mem_toList_of_addEach hadd]
    constructor
    · rintro ⟨offset, x, ⟨i, hi, hx⟩, hbounds⟩
      exact ⟨i, offset, x, hi, hx, hbounds⟩
    · rintro ⟨i, offset, x, hi, hx, hbounds⟩
      exact ⟨offset, x, ⟨i, hi, hx⟩, hbounds⟩
  rw [hwithin]

/-- Constants of one place and of two. -/
def mixedConstants : List Constant := [.integer 7, .long 8, .utf8 "nine", .double 10]

/-- A number of eight bytes is found at its first place, and nothing is found at its second one, before
all constants and behind them. -/
theorem pushes_are_found_mixedConstants :
    ∃ list : OffsetList Constant, (∀ c : Constant, 1 ≤ width c) ∧
      (startingAt 1).addEach mixedConstants = ([1, 2, 4, 5], list) ∧
      list.toList = [(1, .integer 7), (2, .long 8), (4, .utf8 "nine"), (5, .double 10)] ∧
      list.get? 2 = some (.long 8) ∧ list.get? 3 = none ∧ list.get? 0 = none ∧ list.get? 7 = none := by
  have hwidth : ∀ c : Constant, 1 ≤ width c := Constant.width_pos
  obtain ⟨-, -, hlist, hfound, hnothing⟩ := pushes_are_found hwidth 1 mixedConstants rfl
  refine ⟨_, hwidth, rfl, hlist, (hfound 2 (.long 8)).2 ⟨1, rfl, rfl⟩, (hnothing 3).1.2 ?_,
    (hnothing 0).1.2 ?_, (hnothing 7).1.2 ?_⟩
  all_goals decide

end Histories

end JvmCodegen.OffsetList
