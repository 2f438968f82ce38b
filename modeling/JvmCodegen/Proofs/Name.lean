/-
**Names that stay valid.**

A name is checked when it is read from a text; longer names are made of checked ones without another
check.  A valid name of a member is plain, without punctuation and angle brackets in it, or one of the
two special ones, and a valid name of a class has plain names between its slashes.  So putting valid
names together gives valid names, unless a special one becomes a part of the result.

Main definitions:

* `UnqualifiedName.IsValid`, `BinaryName.IsValid` — the names whose texts pass the check;
* `IsPlainText`, `UnqualifiedName.IsSpecial` — the two sorts of valid names of members;
* `BinaryName.parts` — what stands between the slashes of a text.

Main results:

* `UnqualifiedName.isValid_iff`, `BinaryName.isValid_iff` — what the check says;
* `UnqualifiedName.isValid_append_iff`, `BinaryName.isValid_append_iff`,
  `BinaryName.isValid_child_iff` — **two valid names give a valid name exactly if no special name
  goes into it**;
* `BinaryName.isValid_join_iff` — names of classes always do.
-/

import Mathlib.Data.List.Basic
import JvmCodegen.Name

set_option relaxedAutoImplicit false
set_option autoImplicit false

namespace JvmCodegen

/-! ### Plain and special names -/

/-- The text is not empty, and no character of it is kept for another purpose. -/
def IsPlainText (cs : List Char) : Prop :=
  cs ≠ [] ∧ ∀ c ∈ cs, isPunctuation c = false ∧ isAngleBracket c = false

-- the characters of the text are tested, and not all characters that there are
instance (cs : List Char) : Decidable (IsPlainText cs) :=
  @instDecidableAnd _ _ _ (List.decidableBAll _ cs)

theorem IsPlainText.append {cs ds : List Char} (hcs : IsPlainText cs) (hds : IsPlainText ds) :
    IsPlainText (cs ++ ds) := by
  refine ⟨List.append_ne_nil_of_left_ne_nil hcs.1 ds, fun c hc => ?_⟩
  rcases List.mem_append.1 hc with hc | hc
  · exact hcs.2 c hc
  · exact hds.2 c hc

namespace UnqualifiedName

variable {a b : UnqualifiedName}

/-- The text of the name passes the check. -/
def IsValid (a : UnqualifiedName) : Prop := fault? a.text = none

instance (a : UnqualifiedName) : Decidable a.IsValid := inferInstanceAs (Decidable (_ = _))

/-- The name of all constructors, or that of the type initializer. -/
def IsSpecial (a : UnqualifiedName) : Prop := a = constructor ∨ a = typeInitializer

instance (a : UnqualifiedName) : Decidable a.IsSpecial := inferInstanceAs (Decidable (_ ∨ _))

/-- **A valid name of a member** is a plain one or a special one. -/
theorem isValid_iff : a.IsValid ↔ IsPlainText a.text.toList ∨ a.IsSpecial := by
  obtain ⟨s⟩ := a
  unfold IsValid fault?
  constructor
  · intro h
    split at h
    · cases h
    rename_i hpunctuation
    split at h
    · cases h
    rename_i hbracket
    split at h
    · cases h
    rename_i hempty
    by_cases hspecial : s = "<init>" ∨ s = "<clinit>"
    · refine .inr (hspecial.imp ?_ ?_) <;> rintro rfl <;> rfl
    · refine .inl ⟨by simpa using hempty, fun c hc => ?_⟩
      simp only [not_or] at hspecial
      simp only [List.any_eq_true, Bool.and_eq_true, bne_iff_ne, ne_eq, hspecial, not_false_eq_true,
        and_true, not_exists, not_and, Bool.not_eq_true] at hpunctuation hbracket
      exact ⟨hpunctuation c hc, hbracket c hc⟩
  · rintro (⟨hempty, hplain⟩ | hspecial | hspecial)
    · have hpunctuation : s.toList.any isPunctuation = false := by
        simpa using fun c hc => (hplain c hc).1
      have hbracket : s.toList.any isAngleBracket = false := by
        simpa using fun c hc => (hplain c hc).2
      have hnonempty : s ≠ "" := by simpa using hempty
      simp [hpunctuation, hbracket, hnonempty]
    · cases hspecial
      rfl
    · cases hspecial
      rfl

/-- A special name has an angle bracket in it. -/
theorem IsSpecial.exists_angleBracket (h : a.IsSpecial) :
    ∃ c ∈ a.text.toList, isAngleBracket c = true := by
  rcases h with rfl | rfl <;> exact ⟨'<', by decide, rfl⟩

/-- A name without angle brackets is not special. -/
theorem not_isSpecial_of_forall (h : ∀ c ∈ a.text.toList, isAngleBracket c = false) : ¬a.IsSpecial := by
  intro hspecial
  obtain ⟨c, hc, hbracket⟩ := hspecial.exists_angleBracket
  rw [h c hc] at hbracket
  cases hbracket

theorem IsSpecial.not_isPlainText (h : a.IsSpecial) : ¬IsPlainText a.text.toList :=
  fun hplain => not_isSpecial_of_forall (fun c hc => (hplain.2 c hc).2) h

theorem IsValid.ne_nil (h : a.IsValid) : a.text.toList ≠ [] := by
  rcases isValid_iff.1 h with hplain | rfl | rfl
  · exact hplain.1
  · decide
  · decide

/-- No special name is the beginning of another one, and none is the end of another one. -/
theorem IsSpecial.eq_of_affix (ha : a.IsSpecial) (hb : b.IsSpecial)
    (h : a.text.toList <+: b.text.toList ∨ a.text.toList <:+ b.text.toList) : a = b := by
  rcases ha with rfl | rfl <;> rcases hb with rfl | rfl <;> first | rfl | exact absurd h (by decide)

/-- **A name made of two valid names is valid exactly if neither of them is special.** -/
theorem isValid_append_iff (ha : a.IsValid) (hb : b.IsValid) :
    (a.append b).IsValid ↔ ¬a.IsSpecial ∧ ¬b.IsSpecial := by
  have htext : (a.append b).text.toList = a.text.toList ++ b.text.toList := String.toList_append
  constructor
  · intro h
    rw [isValid_iff, htext] at h
    rcases h with hplain | hspecial
    · exact ⟨not_isSpecial_of_forall fun c hc => (hplain.2 c (List.mem_append_left _ hc)).2,
        not_isSpecial_of_forall fun c hc => (hplain.2 c (List.mem_append_right _ hc)).2⟩
    · -- a special name is longer than each of its parts, and so it cannot have another one in it
      refine ⟨fun hfirst => ?_, fun hlast => ?_⟩
      · have heq := hfirst.eq_of_affix hspecial (.inl (htext ▸ List.prefix_append _ _))
        rw [← heq] at htext
        exact hb.ne_nil (List.self_eq_append_right.1 htext)
      · have heq := hlast.eq_of_affix hspecial (.inr (htext ▸ List.suffix_append _ _))
        rw [← heq] at htext
        exact ha.ne_nil (List.self_eq_append_left.1 htext)
  · rintro ⟨hna, hnb⟩
    rw [isValid_iff, htext]
    exact .inl (((isValid_iff.1 ha).resolve_right hna).append ((isValid_iff.1 hb).resolve_right hnb))

/-- A decimal number is a plain name. -/
theorem isPlainText_ofNat (n : Nat) : IsPlainText (ofNat n).text.toList := by
  have htext : (ofNat n).text.toList = Nat.toDigits 10 n := Nat.toList_repr
  rw [htext]
  refine ⟨Nat.toDigits_ne_nil, fun c hc => ?_⟩
  have hdigit := Nat.isDigit_of_mem_toDigits (by decide) (by decide) hc
  simp only [isPunctuation, isAngleBracket, Bool.or_eq_false_iff, decide_eq_false_iff_not]
  refine ⟨⟨⟨⟨?_, ?_⟩, ?_⟩, ?_⟩, ?_, ?_⟩ <;>
    · rintro rfl
      exact absurd hdigit (by decide)

end UnqualifiedName

/-! ### Names of classes -/

namespace BinaryName

variable {a a' : BinaryName} {b : UnqualifiedName}

/-- The text of the name passes the check. -/
def IsValid (a : BinaryName) : Prop := fault? a.text = none

instance (a : BinaryName) : Decidable a.IsValid := inferInstanceAs (Decidable (_ = _))

/-- What stands between the slashes of a text, from left to right. -/
def parts (cs : List Char) : List (List Char) := (splitSlashes cs).1 :: (splitSlashes cs).2

@[simp] theorem parts_nil : parts [] = [[]] := rfl

theorem parts_cons_slash (cs : List Char) : parts ('/' :: cs) = [] :: parts cs := rfl

/-- A character that is not a slash belongs to the first part. -/
theorem parts_cons_of_ne {c : Char} (hc : c ≠ '/') {cs first : List Char} {others : List (List Char)}
    (h : parts cs = first :: others) : parts (c :: cs) = (c :: first) :: others := by
  obtain ⟨hfirst, hothers⟩ := List.cons.inj h
  rw [parts, splitSlashes_cons, if_neg hc, hfirst, hothers]

theorem segments_eq (s : String) : segments s = (parts s.toList).map String.ofList := rfl

theorem mem_of_mem_parts {cs part : List Char} {c : Char} (hpart : part ∈ parts cs) (hc : c ∈ part) :
    c ∈ cs := by
  induction cs generalizing part with
  | nil =>
      rw [parts_nil, List.mem_singleton] at hpart
      rwa [hpart] at hc
  | cons d cs ih =>
      by_cases hd : d = '/'
      · subst hd
        rw [parts_cons_slash] at hpart
        rcases List.mem_cons.1 hpart with rfl | hpart
        · cases hc
        · exact List.mem_cons_of_mem _ (ih hpart hc)
      · rw [parts_cons_of_ne hd rfl] at hpart
        rcases List.mem_cons.1 hpart with rfl | hpart
        · rcases List.mem_cons.1 hc with rfl | hc
          · exact List.mem_cons_self
          · exact List.mem_cons_of_mem _ (ih List.mem_cons_self hc)
        · exact List.mem_cons_of_mem _ (ih (List.mem_cons_of_mem _ hpart) hc)

/-- Every character of a text but the slashes is in one of the parts between the slashes. -/
theorem exists_mem_parts {cs : List Char} {c : Char} (hc : c ∈ cs) (hslash : c ≠ '/') :
    ∃ part ∈ parts cs, c ∈ part := by
  induction cs with
  | nil => cases hc
  | cons d cs ih =>
      rcases List.mem_cons.1 hc with rfl | hc
      · rw [parts_cons_of_ne hslash rfl]
        exact ⟨_, List.mem_cons_self, List.mem_cons_self⟩
      · obtain ⟨part, hpart, hmem⟩ := ih hc
        by_cases hd : d = '/'
        · subst hd
          exact ⟨part, List.mem_cons_of_mem _ hpart, hmem⟩
        · rw [parts_cons_of_ne hd rfl]
          rcases List.mem_cons.1 hpart with rfl | hpart
          · exact ⟨_, List.mem_cons_self, List.mem_cons_of_mem _ hmem⟩
          · exact ⟨part, List.mem_cons_of_mem _ hpart, hmem⟩

/-- The parts of two texts with a slash in between are those of the one and those of the other. -/
theorem parts_append_slash (cs ds : List Char) :
    parts (cs ++ '/' :: ds) = parts cs ++ parts ds := by
  induction cs with
  | nil => rfl
  | cons c cs ih =>
      by_cases hc : c = '/'
      · subst hc
        rw [List.cons_append, parts_cons_slash, ih, parts_cons_slash, List.cons_append]
      · have hparts : parts (cs ++ '/' :: ds) =
            (splitSlashes cs).1 :: ((splitSlashes cs).2 ++ parts ds) := ih
        rw [List.cons_append, parts_cons_of_ne hc hparts, parts_cons_of_ne hc rfl, List.cons_append]

/-- A text without slashes goes on with the last part of the text before it. -/
theorem exists_parts_append (cs : List Char) {ds : List Char} (hds : parts ds = [ds]) :
    ∃ earlier last, parts cs = earlier ++ [last] ∧ parts (cs ++ ds) = earlier ++ [last ++ ds] := by
  induction cs with
  | nil => exact ⟨[], [], rfl, hds⟩
  | cons c cs ih =>
      obtain ⟨earlier, last, hcs, happend⟩ := ih
      by_cases hc : c = '/'
      · subst hc
        refine ⟨[] :: earlier, last, ?_, ?_⟩
        · rw [parts_cons_slash, hcs, List.cons_append]
        · rw [List.cons_append, parts_cons_slash, happend, List.cons_append]
      · cases earlier with
        | nil => exact ⟨[], c :: last, parts_cons_of_ne hc hcs, parts_cons_of_ne hc happend⟩
        | cons first earlier =>
            exact ⟨(c :: first) :: earlier, last, parts_cons_of_ne hc hcs, parts_cons_of_ne hc happend⟩

/-- A plain text is its own only part. -/
theorem parts_of_isPlainText {cs : List Char} (h : IsPlainText cs) : parts cs = [cs] := by
  obtain ⟨-, hplain⟩ := h
  induction cs with
  | nil => rfl
  | cons c cs ih =>
      have hc : c ≠ '/' := by
        rintro rfl
        exact absurd (hplain '/' List.mem_cons_self).1 (by decide)
      exact parts_cons_of_ne hc (ih fun d hd => hplain d (List.mem_cons_of_mem c hd))

/-- **A valid name of a class** has plain names between its slashes. -/
theorem isValid_iff : a.IsValid ↔ ∀ part ∈ parts a.text.toList, IsPlainText part := by
  obtain ⟨s⟩ := a
  have hsegments : (segments s).findSome? UnqualifiedName.fault? = none ↔
      ∀ part ∈ parts s.toList, (UnqualifiedName.mk (String.ofList part)).IsValid := by
    rw [segments_eq, List.findSome?_eq_none_iff, List.forall_mem_map]
    rfl
  unfold IsValid fault?
  constructor
  · intro h part hpart
    split at h
    · cases h
    split at h
    · cases h
    rename_i hbracket
    rcases UnqualifiedName.isValid_iff.1 (hsegments.1 h part hpart) with hplain | hspecial
    · simpa using hplain
    · obtain ⟨c, hc, hangle⟩ := hspecial.exists_angleBracket
      refine absurd (List.any_eq_true.2 ⟨c, mem_of_mem_parts hpart ?_, hangle⟩) hbracket
      simpa using hc
  · intro hplain
    have hnonempty : s ≠ "" := by
      rintro rfl
      exact (hplain [] List.mem_cons_self).1 rfl
    have hbracket : ¬s.toList.any isAngleBracket = true := by
      intro h
      obtain ⟨c, hc, hangle⟩ := List.any_eq_true.1 h
      have hslash : c ≠ '/' := by
        rintro rfl
        exact absurd hangle (by decide)
      obtain ⟨part, hpart, hmem⟩ := exists_mem_parts hc hslash
      rw [((hplain part hpart).2 c hmem).2] at hangle
      cases hangle
    rw [if_neg hnonempty, if_neg hbracket, hsegments]
    intro part hpart
    refine UnqualifiedName.isValid_iff.2 (.inl ?_)
    simpa using hplain part hpart

/-- A valid name of a class has no punctuation in it but slashes, and no angle brackets. -/
theorem IsValid.of_mem (h : a.IsValid) {c : Char} (hc : c ∈ a.text.toList) :
    (c ≠ '/' → isPunctuation c = false) ∧ isAngleBracket c = false := by
  by_cases hslash : c = '/'
  · subst hslash
    exact ⟨fun hne => absurd rfl hne, by decide⟩
  · obtain ⟨part, hpart, hmem⟩ := exists_mem_parts hc hslash
    obtain ⟨hpunctuation, hbracket⟩ := (isValid_iff.1 h part hpart).2 c hmem
    exact ⟨fun _ => hpunctuation, hbracket⟩

/-- **A text at the end of a name of a class** keeps it valid exactly if it is not a special name. -/
theorem isValid_append_iff (ha : a.IsValid) (hb : b.IsValid) :
    (a.append b).IsValid ↔ ¬b.IsSpecial := by
  have htext : (a.append b).text.toList = a.text.toList ++ b.text.toList := String.toList_append
  constructor
  · intro h
    exact UnqualifiedName.not_isSpecial_of_forall fun c hc =>
      (h.of_mem (htext ▸ List.mem_append_right _ hc)).2
  · intro hnot
    have hplain := (UnqualifiedName.isValid_iff.1 hb).resolve_right hnot
    obtain ⟨earlier, last, hparts, happend⟩ :=
      exists_parts_append a.text.toList (parts_of_isPlainText hplain)
    rw [isValid_iff] at ha ⊢
    rw [hparts] at ha
    rw [htext, happend]
    intro part hpart
    rcases List.mem_append.1 hpart with hpart | hpart
    · exact ha part (List.mem_append_left _ hpart)
    · rw [List.mem_singleton] at hpart
      subst hpart
      exact (ha last (by simp)).append hplain

/-- **Names of classes joined by a slash** are valid exactly if both are. -/
theorem isValid_join_iff : (a.join a').IsValid ↔ a.IsValid ∧ a'.IsValid := by
  have htext : (a.join a').text.toList = a.text.toList ++ '/' :: a'.text.toList := by
    simp [join, String.toList_append]
  rw [isValid_iff, isValid_iff, isValid_iff, htext, parts_append_slash, List.forall_mem_append]

/-- **A name one step below a name of a class** is valid exactly if it does not end in a special
name. -/
theorem isValid_child_iff (ha : a.IsValid) (hb : b.IsValid) : (a.child b).IsValid ↔ ¬b.IsSpecial := by
  have htext : a.child b = a.join ⟨b.text⟩ := rfl
  rw [htext, isValid_join_iff]
  constructor
  · rintro ⟨-, h⟩
    exact UnqualifiedName.not_isSpecial_of_forall fun c hc => (h.of_mem hc).2
  · intro hnot
    have hplain := (UnqualifiedName.isValid_iff.1 hb).resolve_right hnot
    refine ⟨ha, isValid_iff.2 ?_⟩
    rw [parts_of_isPlainText hplain, List.forall_mem_singleton]
    exact hplain

end BinaryName

end JvmCodegen
