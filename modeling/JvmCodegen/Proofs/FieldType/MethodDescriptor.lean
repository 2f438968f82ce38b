/-
**Descriptors tell types apart.**

The descriptor of a type ends where it says, without looking at what follows.  So a method descriptor,
which writes the types of the parameters one after the other, can be taken apart in one way only, and
two methods with the same text have the same types, with the same names of classes in them.  A text
does not say which class of a name is meant: where a class graph has several classes of one name, types
over different classes can look the same.

Main definitions:

* `MethodDescriptor.types`, `MethodDescriptor.classes` — the types of a method, and the classes that
  they mention;
* `BinaryName.HasNoSemicolon`, `MethodDescriptor.HasNoSemicolon` — the semicolons of a descriptor are
  those at the ends of its names;
* `MethodDescriptor.IsNamed` — the classes that a descriptor over names mentions have valid names;
* `MethodDescriptor.MentionNamesakes` — two descriptors mention different classes of one name.

Main results:

* `FieldType.eq_of_chars_append` — **a descriptor is not the beginning of another one**;
* `FieldType.eq_of_flatMap_chars_eq` — descriptors one after the other are split in one way only;
* `MethodDescriptor.eq_of_chars_eq` — method descriptors over names;
* `MethodDescriptor.types_are_read_off_text` — **types over valid names are a prefix code**, and so
  lists of types and method descriptors are known by their texts;
* `MethodDescriptor.eq_or_mentionNamesakes_of_render_eq` — **method descriptors over classes**: equal
  texts are of one descriptor, or of two that mention different classes of one name.
-/

import JvmCodegen.Proofs.FieldType.Descriptor
import JvmCodegen.Member

set_option relaxedAutoImplicit false
set_option autoImplicit false

namespace JvmCodegen

/-! ### Names without semicolons -/

/-- The name has no semicolon in it, so that a descriptor can say where it ends. -/
def BinaryName.HasNoSemicolon (name : BinaryName) : Prop := ';' ∉ name.text.toList

/-- A name that is read from a text has no semicolon in it. -/
theorem BinaryName.hasNoSemicolon_of_ofString? {s : String} {name : BinaryName}
    (h : ofString? s = .ok name) : name.HasNoSemicolon := by
  intro hmem
  have hpunctuation := isPunctuation_of_fault?_eq_none (ofString?_eq_ok_iff.1 h).1 hmem (by decide)
  exact absurd hpunctuation (by decide)

/-- A class mentioned in the type has a name without semicolons. -/
def FieldType.HasNoSemicolon (t : FieldType BinaryName) : Prop := ∀ c ∈ t.class?, c.HasNoSemicolon

theorem FieldType.IsNamed.hasNoSemicolon {t : FieldType BinaryName} (h : t.IsNamed) :
    t.HasNoSemicolon :=
  fun c hc => BinaryName.hasNoSemicolon_of_ofString? (BinaryName.ofString?_of_valid (h c hc))

/-! ### One type after another -/

namespace FieldType

/-- What stands before the first semicolon, and what stands behind it. -/
theorem eq_of_append_semicolon {xs ys a b : List Char} (hx : ';' ∉ xs) (hy : ';' ∉ ys)
    (h : xs ++ ';' :: a = ys ++ ';' :: b) : xs = ys ∧ a = b := by
  induction xs generalizing ys with
  | nil =>
      cases ys with
      | nil => exact ⟨rfl, (List.cons.inj h).2⟩
      | cons y ys => exact absurd (List.mem_cons.2 (.inl (List.cons.inj h).1)) hy
  | cons x xs ih =>
      cases ys with
      | nil => exact absurd (List.mem_cons.2 (.inl (List.cons.inj h).1.symm)) hx
      | cons y ys =>
          obtain ⟨hfirst, hrest⟩ := List.cons.inj h
          obtain ⟨hsame, hlast⟩ := ih (fun hmem => hx (List.mem_cons_of_mem x hmem))
            (fun hmem => hy (List.mem_cons_of_mem y hmem)) hrest
          exact ⟨by rw [hfirst, hsame], hlast⟩

theorem IsElement.eq_primitive_or_object {C : Type} {t : FieldType C} (h : t.IsElement) :
    (∃ p, t = .primitive p) ∨ ∃ c, t = .object c := by
  rcases t with p | (c | ⟨n, c⟩ | ⟨n, p⟩)
  · exact .inl ⟨p, rfl⟩
  · exact .inr ⟨c, rfl⟩
  · cases h
  · cases h

/-- A type that is not an array ends with its letter, or with the first semicolon. -/
theorem eq_of_chars_append_of_isElement {t u : FieldType BinaryName} (ht : t.IsElement)
    (hu : u.IsElement) (htname : t.HasNoSemicolon) (huname : u.HasNoSemicolon) {a b : List Char}
    (h : t.chars ++ a = u.chars ++ b) : t = u ∧ a = b := by
  have hletter : ∀ p : Primitive, p.letter ≠ 'L' := by
    intro p
    cases p <;> decide
  rcases ht.eq_primitive_or_object with ⟨p, rfl⟩ | ⟨c, rfl⟩ <;>
    rcases hu.eq_primitive_or_object with ⟨q, rfl⟩ | ⟨d, rfl⟩
  · obtain ⟨hpq, rfl⟩ := List.cons.inj h
    have heq : p = q := Option.some.inj (by rw [← p.ofLetter?_letter, hpq, q.ofLetter?_letter])
    exact ⟨congrArg primitive heq, rfl⟩
  · exact absurd (List.cons.inj h).1 (hletter p)
  · exact absurd (List.cons.inj h).1.symm (hletter q)
  · have hnames : c.text.toList ++ ';' :: a = d.text.toList ++ ';' :: b := by
      simpa [object, chars, RefType.chars] using h
    obtain ⟨hname, rfl⟩ := eq_of_append_semicolon (htname c rfl) (huname d rfl) hnames
    have heq : c = d := congrArg BinaryName.mk (String.toList_inj.1 hname)
    exact ⟨by rw [heq], rfl⟩

/-- **The descriptor of a type is not the beginning of another one.** -/
theorem eq_of_chars_append {t u : FieldType BinaryName} (ht : t.HasNoSemicolon)
    (hu : u.HasNoSemicolon) {a b : List Char} (h : t.chars ++ a = u.chars ++ b) : t = u ∧ a = b := by
  obtain ⟨e, helement, heq⟩ := t.exists_nestArray
  obtain ⟨f, felement, feq⟩ := u.exists_nestArray
  generalize t.dimensions = n at heq
  generalize u.dimensions = m at feq
  subst heq feq
  simp only [HasNoSemicolon, class?_nestArray] at ht hu
  obtain ⟨c, cs, hc, hbracket⟩ := head?_chars_of_isElement helement
  obtain ⟨d, ds, hd, hbracket'⟩ := head?_chars_of_isElement felement
  rw [chars_nestArray, chars_nestArray] at h
  -- the brackets match one by one, because neither element type starts with one
  induction n generalizing m with
  | zero =>
      cases m with
      | zero =>
          obtain ⟨rfl, rfl⟩ := eq_of_chars_append_of_isElement helement felement ht hu h
          exact ⟨rfl, rfl⟩
      | succ m =>
          rw [hc] at h
          exact absurd (List.cons.inj h).1 hbracket
  | succ n ih =>
      cases m with
      | zero =>
          rw [hd] at h
          exact absurd (List.cons.inj h).1.symm hbracket'
      | succ m =>
          obtain ⟨heq, hrest⟩ := ih m (List.cons.inj h).2
          refine ⟨?_, hrest⟩
          rw [nestArray_succ, nestArray_succ, heq]

/-- No type starts like the end of the parameters, or like the result of a method that returns
nothing. -/
theorem head_chars (t : FieldType BinaryName) : ∃ c cs, t.chars = c :: cs ∧ c ≠ ')' ∧ c ≠ 'V' := by
  rcases t with p | (c | ⟨n, c⟩ | ⟨n, p⟩)
  · exact ⟨p.letter, [], rfl, by cases p <;> decide, by cases p <;> decide⟩
  · exact ⟨'L', _, rfl, by decide, by decide⟩
  · exact ⟨'[', _, rfl, by decide, by decide⟩
  · exact ⟨'[', _, rfl, by decide, by decide⟩

/-- The types of a list are read off one after the other, up to the parenthesis behind them. -/
theorem eq_of_flatMap_chars_append {ts us : List (FieldType BinaryName)}
    (ht : ∀ t ∈ ts, t.HasNoSemicolon) (hu : ∀ u ∈ us, u.HasNoSemicolon) {a b : List Char}
    (h : ts.flatMap chars ++ ')' :: a = us.flatMap chars ++ ')' :: b) : ts = us ∧ a = b := by
  induction ts generalizing us with
  | nil =>
      cases us with
      | nil => exact ⟨rfl, (List.cons.inj h).2⟩
      | cons u us =>
          obtain ⟨c, cs, hc, hend, -⟩ := u.head_chars
          rw [List.flatMap_cons, hc] at h
          exact absurd (List.cons.inj h).1.symm hend
  | cons t ts ih =>
      cases us with
      | nil =>
          obtain ⟨c, cs, hc, hend, -⟩ := t.head_chars
          rw [List.flatMap_cons, hc] at h
          exact absurd (List.cons.inj h).1 hend
      | cons u us =>
          rw [List.flatMap_cons, List.flatMap_cons, List.append_assoc, List.append_assoc] at h
          obtain ⟨rfl, hrest⟩ :=
            eq_of_chars_append (ht t List.mem_cons_self) (hu u List.mem_cons_self) h
          obtain ⟨rfl, hlast⟩ := ih (fun t ht' => ht t (List.mem_cons_of_mem _ ht'))
            (fun u hu' => hu u (List.mem_cons_of_mem _ hu')) hrest
          exact ⟨rfl, hlast⟩

/-- **Descriptors one after the other are split in one way only.** -/
theorem eq_of_flatMap_chars_eq {ts us : List (FieldType BinaryName)}
    (ht : ∀ t ∈ ts, t.HasNoSemicolon) (hu : ∀ u ∈ us, u.HasNoSemicolon)
    (h : ts.flatMap chars = us.flatMap chars) : ts = us :=
  (eq_of_flatMap_chars_append ht hu (congrArg (· ++ [')']) h)).1

end FieldType

/-! ### Method descriptors over names -/

namespace MethodDescriptor

variable {C D : Type}

/-- The types of the parameters, and that of the result if there is one. -/
def types (d : MethodDescriptor C) : List (FieldType C) := d.parameters ++ d.returns.toList

/-- The classes that the descriptor mentions. -/
def classes (d : MethodDescriptor C) : List C := d.types.filterMap FieldType.class?

/-- **A method descriptor over names is known by its text.** -/
theorem eq_of_chars_eq {d d' : MethodDescriptor BinaryName} (hd : ∀ t ∈ d.types, t.HasNoSemicolon)
    (hd' : ∀ t ∈ d'.types, t.HasNoSemicolon) (h : d.chars = d'.chars) : d = d' := by
  obtain ⟨parameters, returns⟩ := d
  obtain ⟨parameters', returns'⟩ := d'
  obtain ⟨rfl, hreturns⟩ := FieldType.eq_of_flatMap_chars_append
    (fun t ht => hd t (List.mem_append_left _ ht)) (fun t ht => hd' t (List.mem_append_left _ ht))
    (List.cons.inj h).2
  -- no type begins with the letter that stands for no value
  have hsame : returns = returns' := by
    cases returns with
    | none =>
        cases returns' with
        | none => rfl
        | some u =>
            obtain ⟨c, cs, hc, -, hvoid⟩ := u.head_chars
            simp only [hc] at hreturns
            exact absurd (List.cons.inj hreturns).1.symm hvoid
    | some t =>
        cases returns' with
        | none =>
            obtain ⟨c, cs, hc, -, hvoid⟩ := t.head_chars
            simp only [hc] at hreturns
            exact absurd (List.cons.inj hreturns).1 hvoid
        | some u =>
            have ht := hd t (List.mem_append_right _ (List.mem_singleton_self t))
            have hu := hd' u (List.mem_append_right _ (List.mem_singleton_self u))
            have hchars : t.chars ++ [] = u.chars ++ [] := by simpa using hreturns
            rw [(FieldType.eq_of_chars_append ht hu hchars).1]
  rw [hsame]

theorem mem_classes {d : MethodDescriptor C} {c : C} :
    c ∈ d.classes ↔ ∃ t ∈ d.types, t.class? = some c := List.mem_filterMap

/-- The classes that the descriptor mentions have valid names. -/
def IsNamed (d : MethodDescriptor BinaryName) : Prop := ∀ c ∈ d.classes, c.IsValid

theorem isNamed_iff {d : MethodDescriptor BinaryName} : d.IsNamed ↔ ∀ t ∈ d.types, t.IsNamed := by
  constructor
  · intro h t ht c hc
    exact h c (mem_classes.2 ⟨t, ht, hc⟩)
  · intro h c hc
    obtain ⟨t, ht, hmem⟩ := mem_classes.1 hc
    exact h t ht c hmem

/-- **Types over valid names are a prefix code**: no descriptor is the beginning of another one.  So
the descriptors of several types are split in one way only, however many they are, and two method
descriptors with one text are the same. -/
theorem types_are_read_off_text :
    (∀ t u : FieldType BinaryName, t.IsNamed → u.IsNamed →
      t.descriptor.toList <+: u.descriptor.toList → t = u) ∧
    (∀ ts us : List (FieldType BinaryName), (∀ t ∈ ts, t.IsNamed) → (∀ u ∈ us, u.IsNamed) →
      ts.flatMap (·.descriptor.toList) = us.flatMap (·.descriptor.toList) → ts = us) ∧
    (∀ d d' : MethodDescriptor BinaryName, d.IsNamed → d'.IsNamed →
      d.descriptor = d'.descriptor → d = d') := by
  refine ⟨?prefixCode, ?lists, ?methods⟩
  case prefixCode =>
    rintro t u ht hu ⟨rest, hrest⟩
    simp only [FieldType.descriptor, String.toList_ofList] at hrest
    have happend : t.chars ++ rest = u.chars ++ [] := by rw [hrest, List.append_nil]
    exact (FieldType.eq_of_chars_append ht.hasNoSemicolon hu.hasNoSemicolon happend).1
  case lists =>
    intro ts us ht hu h
    simp only [FieldType.descriptor, String.toList_ofList] at h
    exact FieldType.eq_of_flatMap_chars_eq (fun t hmem => (ht t hmem).hasNoSemicolon)
      (fun u hmem => (hu u hmem).hasNoSemicolon) h
  case methods =>
    intro d d' hd hd' h
    exact eq_of_chars_eq (fun t ht => (isNamed_iff.1 hd t ht).hasNoSemicolon)
      (fun t ht => (isNamed_iff.1 hd' t ht).hasNoSemicolon) (String.ofList_injective h)

/-- Arrays of `a/b` and longs, with the name of the class written out on the one side and joined on
the other. -/
theorem types_are_read_off_text_joinedName :
    let written : FieldType BinaryName := .array (.object ⟨"a/b"⟩)
    let joined : FieldType BinaryName := .reference (.objectArray 0 (.join ⟨"a"⟩ ⟨"b"⟩))
    let long : FieldType BinaryName := .primitive .long
    (written.IsNamed ∧ joined.IsNamed ∧ long.IsNamed) ∧
      written = joined ∧ [long, written, long] = [long, joined, long] ∧
      (⟨[written, long], some joined⟩ : MethodDescriptor BinaryName) =
        ⟨[joined, long], some written⟩ := by
  intro written joined long
  have hwritten : written.IsNamed := by
    rintro c ⟨⟩
    decide
  have hjoined : joined.IsNamed := by
    rintro c ⟨⟩
    decide
  have hlong : long.IsNamed := by
    rintro c ⟨⟩
  obtain ⟨hfirst, hlists, hmethods⟩ := types_are_read_off_text
  refine ⟨⟨hwritten, hjoined, hlong⟩, hfirst written joined hwritten hjoined (by decide),
    hlists _ _ ?_ ?_ (by decide), hmethods _ _ (isNamed_iff.2 ?_) (isNamed_iff.2 ?_) (by decide)⟩
  all_goals simp [types, hwritten, hjoined, hlong]

end MethodDescriptor

/-! ### Method descriptors over classes -/

namespace FieldType

variable {C D : Type} {f : C → D}

@[simp] theorem class?_map (t : FieldType C) : (t.map f).class? = t.class?.map f := by
  rcases t with p | (c | ⟨n, c⟩ | ⟨n, p⟩) <;> rfl

/-- The same type over other classes comes from one type, unless two classes become one. -/
theorem eq_of_map_eq {t u : FieldType C}
    (hf : ∀ c ∈ t.class?, ∀ c' ∈ u.class?, f c = f c' → c = c') (h : t.map f = u.map f) : t = u := by
  rcases t with p | (c | ⟨n, c⟩ | ⟨n, p⟩) <;> rcases u with q | (d | ⟨m, d⟩ | ⟨m, q⟩) <;>
    simp [map, RefType.map] at h ⊢
  · exact h
  · exact hf c rfl d rfl h
  · exact ⟨h.1, hf c rfl d rfl h.2⟩
  · exact h

end FieldType

namespace MethodDescriptor

variable {C D : Type} {f : C → D}

theorem types_map (d : MethodDescriptor C) : (d.map f).types = d.types.map (·.map f) := by
  rcases d with ⟨parameters, _ | t⟩ <;> simp [types, map]

/-- A descriptor is put together from its types, and from whether there is a result. -/
theorem eq_of_types_eq {d d' : MethodDescriptor C} (h : d.types = d'.types)
    (hreturns : d.returns.isSome = d'.returns.isSome) : d = d' := by
  rcases d with ⟨parameters, _ | t⟩ <;> rcases d' with ⟨parameters', _ | t'⟩ <;>
    simp_all [types]

/-- The same descriptor over other classes comes from one descriptor, unless two classes become one. -/
theorem eq_of_map_eq {d d' : MethodDescriptor C}
    (hf : ∀ c ∈ d.classes, ∀ c' ∈ d'.classes, f c = f c' → c = c') (h : d.map f = d'.map f) :
    d = d' := by
  have htypes : d.types.map (·.map f) = d'.types.map (·.map f) := by
    rw [← types_map, ← types_map, h]
  have hreturns : d.returns.isSome = d'.returns.isSome := by
    simpa [map] using congrArg (fun d => d.returns.isSome) h
  refine eq_of_types_eq ?_ hreturns
  refine List.ext_getElem? fun n => ?_
  have hn := congrArg (fun types => types[n]?) htypes
  simp only [List.getElem?_map] at hn
  cases ht : d.types[n]? with
  | none =>
      rw [ht] at hn
      simpa using hn.symm
  | some t =>
      rw [ht] at hn
      obtain ⟨u, hu, heq⟩ := Option.map_eq_some_iff.1 hn.symm
      rw [hu]
      refine congrArg some (FieldType.eq_of_map_eq (fun c hc c' hc' => ?_) heq.symm)
      exact hf c (mem_classes.2 ⟨t, List.mem_of_getElem? ht, hc⟩) c'
        (mem_classes.2 ⟨u, List.mem_of_getElem? hu, hc'⟩)

/-- All classes that the descriptor mentions have names without semicolons. -/
def HasNoSemicolon (d : MethodDescriptor Class) : Prop := ∀ c ∈ d.classes, c.name.HasNoSemicolon

theorem HasNoSemicolon.map_name {d : MethodDescriptor Class} (h : d.HasNoSemicolon) :
    ∀ t ∈ (d.map Class.name).types, t.HasNoSemicolon := by
  intro t ht name hname
  rw [types_map] at ht
  obtain ⟨u, hu, rfl⟩ := List.mem_map.1 ht
  rw [FieldType.class?_map] at hname
  obtain ⟨c, hc, rfl⟩ := Option.map_eq_some_iff.1 hname
  exact h c (mem_classes.2 ⟨u, hu, hc⟩)

/-- The descriptors mention two different classes of one name. -/
def MentionNamesakes (d d' : MethodDescriptor Class) : Prop :=
  ∃ c ∈ d.classes, ∃ c' ∈ d'.classes, c ≠ c' ∧ c.name = c'.name

/-- **Method descriptors over classes with equal texts** are the same, or they mention different
classes of one name. -/
theorem eq_or_mentionNamesakes_of_render_eq {d d' : MethodDescriptor Class} (hd : d.HasNoSemicolon)
    (hd' : d'.HasNoSemicolon) (h : d.render = d'.render) : d = d' ∨ d.MentionNamesakes d' := by
  have hchars : (d.map Class.name).chars = (d'.map Class.name).chars := String.ofList_injective h
  have hmap := eq_of_chars_eq hd.map_name hd'.map_name hchars
  by_cases hsame : ∀ c ∈ d.classes, ∀ c' ∈ d'.classes, c.name = c'.name → c = c'
  · exact .inl (eq_of_map_eq hsame hmap)
  · push Not at hsame
    obtain ⟨c, hc, c', hc', hname, hne⟩ := hsame
    exact .inr ⟨c, hc, c', hc', hne, hname⟩

end MethodDescriptor

end JvmCodegen
