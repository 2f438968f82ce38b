/-
**The names of the fields of cached constants.**

The field of a cached constant is named by a text that the settings choose, a dollar sign and its
number.  The settings accept every valid name of a member for the text.  So the field has a valid name
as well, unless the settings were given one of the two special names.

Main definitions:

* `Stack.ConstantCache.NamesFields` — the names of the fields of a cache, and which of them are valid.

Main results:

* `Stack.ConstantCache.isValid_fieldName_iff` — the name of one field;
* `ClassDraft.Session.Invariant.grows_made` — the cache and the fields of a class that is made;
* `ClassDraft.Session.names_stay_valid_but_special` — **names stay valid where no special name is put
  together with another one**: for two names, and for the fields of all caches and classes;
* `ClassDraft.Session.special_namePart_is_accepted` — the exception can happen.
-/

import JvmCodegen.Proofs.ClassDraft.Frames
import JvmCodegen.Proofs.Name

set_option relaxedAutoImplicit false
set_option autoImplicit false

namespace JvmCodegen

open Stack Stack.ConstantCache

/-! ### The settings -/

/-- The settings accept what is a valid name of a member. -/
theorem Settings.withCachedNamePart_eq_ok_iff {s s' : Settings} {name : String} :
    s.withCachedNamePart name = .ok s' ↔
      (UnqualifiedName.mk name).IsValid ∧ s' = { s with cachedNamePart := ⟨name⟩ } := by
  unfold withCachedNamePart
  cases hfault : UnqualifiedName.fault? name with
  | some fault =>
      rw [UnqualifiedName.ofString?_of_fault hfault]
      refine ⟨nofun, fun ⟨hvalid, _⟩ => ?_⟩
      rw [UnqualifiedName.IsValid, hfault] at hvalid
      cases hvalid
  | none =>
      rw [UnqualifiedName.ofString?_of_valid hfault]
      constructor
      · rintro ⟨⟩
        exact ⟨hfault, rfl⟩
      · rintro ⟨-, rfl⟩
        rfl

/-! ### The fields of a cache -/

namespace Stack.ConstantCache

theorem text_fieldName (c : ConstantCache) (n : Nat) :
    (c.fieldName n).text = c.namePart.text ++ "$" ++ n.repr := rfl

/-- **The name of a field** is valid exactly if its first part is not a special name. -/
theorem isValid_fieldName_iff {c : ConstantCache} (h : c.namePart.IsValid) (n : Nat) :
    (c.fieldName n).IsValid ↔ ¬c.namePart.IsSpecial := by
  have hassoc : c.fieldName n = c.namePart.append (UnqualifiedName.append ⟨"$"⟩ (.ofNat n)) :=
    congrArg UnqualifiedName.mk String.append_assoc
  have hplain : IsPlainText (UnqualifiedName.append ⟨"$"⟩ (.ofNat n)).text.toList := by
    rw [UnqualifiedName.append, String.toList_append]
    exact IsPlainText.append (by decide) (UnqualifiedName.isPlainText_ofNat n)
  rw [hassoc, UnqualifiedName.isValid_append_iff h (UnqualifiedName.isValid_iff.2 (.inl hplain))]
  exact and_iff_left fun hspecial => hspecial.not_isPlainText hplain

/-- The fields of the cache are named by the text and their numbers, and the names are valid exactly if
the text is not special. -/
def NamesFields (c : ConstantCache) (namePart : UnqualifiedName) : Prop :=
  ∀ (n : Nat) (f : Field), c.fields[n]? = some f →
    f.name.text = namePart.text ++ "$" ++ n.repr ∧ (f.name.IsValid ↔ ¬namePart.IsSpecial)

/-- **Every cache that grows out of an empty one** names its fields in this way. -/
theorem namesFields_of_grows {p : Plan → Prop} {owner : Class} {namePart : UnqualifiedName}
    {c : ConstantCache} (h : Grows p (new owner namePart) c) (hvalid : namePart.IsValid) :
    c.NamesFields namePart := by
  intro n f hf
  have hpart : c.namePart = namePart := h.namePart_eq
  have hname : f.name = c.fieldName n := (h.numbered (numbered_new owner namePart) n f hf).name
  rw [hname, text_fieldName, hpart]
  subst hpart
  exact ⟨rfl, isValid_fieldName_iff hvalid n⟩

end Stack.ConstantCache

namespace ClassDraft.Session

variable {s : Session} {declared : Class} {settings : Settings}

/-- A class that is made has a cache that has grown out of an empty one, and declares its fields. -/
theorem Invariant.grows_made (h : s.Invariant declared settings) {made : ClassDraft}
    {graph : ClassGraph} (hmade : s.draft.withInitializer s.graph = (.ok made, graph)) :
    Grows (Plan.ComesFrom s.bodies) (ConstantCache.new declared settings.cachedNamePart)
        made.constants ∧
      made.finalModel.fields.toList = made.constants.fields := by
  refine ⟨?_, toList_fields_finalModel (h.made_keeps hmade).2.2⟩
  rcases h.made_cases hmade with ⟨rfl, -, -⟩ | ⟨method, body, graph₁, hbody, -, hcompile, -⟩
  · exact h.grows
  · obtain ⟨code, bodyEffect, effect, -, hgrows, -⟩ :=
      h.compileInitializer (hbody.comesFrom_outerCached h.accepted) hcompile
    exact h.grows.trans hgrows

/-- **Names stay valid where no special name is put together with another one.** Two valid names make
a valid name exactly if no special name goes into it, and names of classes always do. The fields of
cached constants are named by the text that the settings accepted, a dollar sign and the number of the
constant, in every cache that can be reached and in every class that is made; the names are valid
exactly if the text is not special. -/
theorem names_stay_valid_but_special {a b : UnqualifiedName} {p q : BinaryName}
    {before accepted settings : Settings} {name : String} (ha : a.IsValid) (hb : b.IsValid)
    (hp : p.IsValid) (hq : q.IsValid) (haccepted : before.withCachedNamePart name = .ok accepted)
    (hsettings : settings.cachedNamePart = accepted.cachedNamePart) :
    ((a.append b).IsValid ↔ ¬a.IsSpecial ∧ ¬b.IsSpecial) ∧
    ((p.append b).IsValid ↔ ¬b.IsSpecial) ∧ ((p.child b).IsValid ↔ ¬b.IsSpecial) ∧
    (p.join q).IsValid ∧
    (∀ owner plans c, Reached owner settings.cachedNamePart plans c → c.NamesFields ⟨name⟩) ∧
    ∀ graph₀ draft graph₁ calls s, ClassDraft.new settings graph₀ = .ok (draft, graph₁) →
      (start draft graph₁).run calls = s →
      s.draft.constants.NamesFields ⟨name⟩ ∧
      ∀ made graph, s.draft.withInitializer s.graph = (.ok made, graph) →
        made.finalModel.fields.toList = made.constants.fields ∧
        made.constants.NamesFields ⟨name⟩ := by
  obtain ⟨hvalid, rfl⟩ := Settings.withCachedNamePart_eq_ok_iff.1 haccepted
  refine ⟨UnqualifiedName.isValid_append_iff ha hb, BinaryName.isValid_append_iff hp hb,
    BinaryName.isValid_child_iff hp hb, BinaryName.isValid_join_iff.2 ⟨hp, hq⟩, ?caches, ?classes⟩
  case caches =>
    intro owner plans c hreached
    rw [hsettings] at hreached
    exact namesFields_of_grows hreached.grows hvalid
  case classes =>
    intro graph₀ draft graph₁ calls s hnew hrun
    have hinv : s.Invariant draft.declared settings := hrun ▸ (invariant_start hnew).run calls
    refine ⟨namesFields_of_grows (hsettings ▸ hinv.grows) hvalid, fun made graph hmade => ?_⟩
    obtain ⟨hgrows, hfields⟩ := hinv.grows_made hmade
    exact ⟨hfields, namesFields_of_grows (hsettings ▸ hgrows) hvalid⟩

/-- The cache with one constant, a number. -/
def numberCache (namePart : UnqualifiedName) : ConstantCache :=
  (Scope.cache ⟨.empty, .new classA namePart⟩ (.op (.int 7)) (.primitive .int)).2.constants

/-- Plain names are put together, and the constants of caches for `k` have valid names. -/
theorem names_stay_valid_but_special_twoConstants :
    (UnqualifiedName.append ⟨"get"⟩ ⟨"$1"⟩).IsValid ∧ (BinaryName.append ⟨"a/B"⟩ ⟨"$1"⟩).IsValid ∧
      (BinaryName.child ⟨"a/B"⟩ ⟨"$1"⟩).IsValid ∧ (BinaryName.join ⟨"a/B"⟩ ⟨"c/D"⟩).IsValid ∧
      (∀ (n : Nat) (f : Field), (numberCache ⟨"k"⟩).fields[n]? = some f →
        f.name.text = "k" ++ "$" ++ n.repr ∧ f.name.IsValid) ∧
      ∀ (n : Nat) (f : Field), sessionA.draft.constants.fields[n]? = some f → f.name.IsValid := by
  have hget : (UnqualifiedName.mk "get").IsValid := by decide
  have hone : (UnqualifiedName.mk "$1").IsValid := by decide
  have hclass : (BinaryName.mk "a/B").IsValid := by decide
  have hother : (BinaryName.mk "c/D").IsValid := by decide
  have haccepted : settingsA.withCachedNamePart "k" = .ok settingsA := rfl
  have hnew : ClassDraft.new settingsA .empty = .ok (draftA, graphA) := rfl
  have hsame : settingsA.cachedNamePart = settingsA.cachedNamePart := rfl
  obtain ⟨happend, hlonger, hchild, hjoin, hcaches, hclasses⟩ :=
    names_stay_valid_but_special hget hone hclass hother haccepted hsame
  obtain ⟨hsession, -⟩ := hclasses .empty draftA graphA _ sessionA hnew rfl
  have hplain : ¬(UnqualifiedName.mk "k").IsSpecial := by decide
  refine ⟨happend.2 ⟨by decide, by decide⟩, hlonger.2 (by decide), hchild.2 (by decide), hjoin,
    fun n f hf => ?_, fun n f hf => ?_⟩
  · obtain ⟨htext, hvalid⟩ := hcaches _ _ _ (.cache .new .empty (.op (.int 7)) (.primitive .int)) n f hf
    exact ⟨htext, hvalid.2 hplain⟩
  · exact (hsession n f hf).2.2 hplain

/-- **The exception can happen**: the settings accept the name of all constructors, and then the field of
the first constant has a name that no member can have. Appending a special name to a name of a class, or
going one step below, gives no name of a class either. -/
theorem special_namePart_is_accepted :
    (∃ accepted : Settings, settingsA.withCachedNamePart "<init>" = .ok accepted ∧
      Reached classA accepted.cachedNamePart [.op (.int 7)] (numberCache accepted.cachedNamePart) ∧
      (numberCache accepted.cachedNamePart).fields.map (·.name) = [⟨"<init>$0"⟩]) ∧
    UnqualifiedName.fault? "<init>$0" = some (.angleBracket "<init>$0") ∧
    (BinaryName.mk "a").IsValid ∧ UnqualifiedName.constructor.IsValid ∧
    ¬(BinaryName.append ⟨"a"⟩ UnqualifiedName.constructor).IsValid ∧
    ¬(BinaryName.child ⟨"a"⟩ UnqualifiedName.constructor).IsValid := by
  refine ⟨⟨{ settingsA with cachedNamePart := UnqualifiedName.constructor }, rfl, ?_, by cbv⟩,
    by decide, by decide, by decide, by decide, by decide⟩
  exact .cache .new .empty (.op (.int 7)) (.primitive .int)

end ClassDraft.Session

end JvmCodegen
