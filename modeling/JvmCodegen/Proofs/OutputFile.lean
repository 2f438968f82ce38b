/-
**Where classes are saved.**

The path of a class file is made of the name of the class, and the name comes from outside.  A name
that passes the check has plain names between its slashes: none of them is empty, none is a point or
two points, and the first one is not empty either, so that the path does not begin with a slash.  From
whatever directory the path starts, every piece of it leads one step further down, to a place that no
other name leads to.

Main definitions:

* `Path.IsBelow` — a place that is reached from another one by going down.

Main results:

* `Path.intercalate_pieces` — a path is its pieces with slashes in between;
* `Path.components_opened_append` — a path goes on from the place of the directory;
* `Path.foldl_descend`, `Path.isBelow_of_mem_places` — names lead down, step by step;
* `BinaryName.exists_pieces_path` — the pieces of the path of a class file;
* `GeneratedClass.saved_below_directory` — **saved classes stay inside the directory**.
-/

import JvmCodegen.ClassDraft
import JvmCodegen.Proofs.Name

set_option relaxedAutoImplicit false
set_option autoImplicit false

namespace JvmCodegen

/-! ### Paths and their pieces -/

namespace Path

variable {above below : Place} {piece : List Char}

theorem pieces_eq (cs : List Char) : pieces cs = BinaryName.parts cs := rfl

/-- One character more in front of the first piece. -/
theorem intercalate_cons_cons (c : Char) (first : List Char) (others : List (List Char)) :
    List.intercalate ['/'] ((c :: first) :: others) = c :: List.intercalate ['/'] (first :: others) := by
  cases others with
  | nil => rfl
  | cons next others => rfl

/-- **A path is its pieces** with slashes in between. -/
theorem intercalate_pieces (cs : List Char) : List.intercalate ['/'] (pieces cs) = cs := by
  induction cs with
  | nil => rfl
  | cons c cs ih =>
      by_cases hc : c = '/'
      · subst hc
        have hslash : List.intercalate ['/'] ([] :: pieces cs) =
            '/' :: List.intercalate ['/'] (pieces cs) := rfl
        rw [pieces_eq, BinaryName.parts_cons_slash, ← pieces_eq, hslash, ih]
      · rw [pieces_eq, BinaryName.parts_cons_of_ne hc rfl, intercalate_cons_cons]
        exact congrArg (c :: ·) ih

/-- Different paths have different pieces. -/
theorem eq_of_pieces_eq {cs ds : List Char} (h : pieces cs = pieces ds) : cs = ds := by
  rw [← intercalate_pieces cs, h, intercalate_pieces]

/-! ### Going down -/

/-- The place is reached from the other one by going down. -/
def IsBelow (above below : Place) : Prop :=
  ∃ names : List (List Char), names ≠ [] ∧ below = names ++ above

/-- A place below a place below another one. -/
theorem IsBelow.cons (h : IsBelow (piece :: above) below) : IsBelow above below := by
  obtain ⟨names, -, rfl⟩ := h
  exact ⟨names ++ [piece], List.append_ne_nil_of_right_ne_nil names (List.cons_ne_nil piece []),
    (List.append_cons names piece above)⟩

theorem isName_iff : isName piece = true ↔ piece ≠ [] ∧ piece ≠ ['.'] ∧ piece ≠ ['.', '.'] := by
  simp [isName, isIdle, and_assoc]

/-- A name leads one step down. -/
theorem descend_of_isName (h : isName piece = true) : descend above piece = piece :: above := by
  have hidle : isIdle piece = false := by
    obtain ⟨hempty, hpoint, -⟩ := isName_iff.1 h
    simp [isIdle, hempty, hpoint]
  rw [descend, if_neg (by rw [hidle]; exact Bool.false_ne_true), if_pos h]

/-- **Names lead down**, one step each. -/
theorem foldl_descend {names : List (List Char)} (h : ∀ piece ∈ names, isName piece = true)
    (above : Place) : names.foldl descend above = names.reverse ++ above := by
  induction names generalizing above with
  | nil => rfl
  | cons piece names ih =>
      rw [List.foldl_cons, descend_of_isName (h piece List.mem_cons_self),
        ih fun other hother => h other (List.mem_cons_of_mem _ hother), List.reverse_cons,
        List.append_assoc, List.singleton_append]

/-- **Every place on the way is below the first one**, where only names lead. -/
theorem isBelow_of_mem_places {names : List (List Char)} (h : ∀ piece ∈ names, isName piece = true)
    (hplace : below ∈ places above names) : IsBelow above below := by
  induction names generalizing above with
  | nil => cases hplace
  | cons piece names ih =>
      rw [places, descend_of_isName (h piece List.mem_cons_self)] at hplace
      rcases List.mem_cons.1 hplace with rfl | hplace
      · exact ⟨[piece], List.cons_ne_nil piece [], rfl⟩
      · exact (ih (fun other hother => h other (List.mem_cons_of_mem _ hother)) hplace).cons

/-! ### Paths below a directory -/

theorem foldl_descend_append_slash (cs ds : List Char) (above : Place) :
    (pieces (cs ++ '/' :: ds)).foldl descend above =
      (pieces ds).foldl descend ((pieces cs).foldl descend above) := by
  rw [pieces_eq, BinaryName.parts_append_slash, List.foldl_append]
  rfl

/-- A path goes on from the place of the directory, whether a slash is to be put in between or not. -/
theorem place_opened_append (directory path : String) :
    place (opened directory ++ path) = (pieces path.toList).foldl descend (place directory) := by
  unfold opened
  split
  case h_1 hnone =>
      obtain rfl : directory = "" := by simpa using hnone
      rw [String.empty_append]
      rfl
  case h_2 c hlast =>
      obtain ⟨front, hfront⟩ := List.getLast?_eq_some_iff.1 hlast
      split
      case isTrue hslash =>
          -- the piece behind the slash is empty and leads nowhere
          subst hslash
          have hplace : place directory = (pieces front).foldl descend [] := by
            rw [place, hfront, foldl_descend_append_slash]
            rfl
          rw [hplace, ← foldl_descend_append_slash, place, String.toList_append, hfront,
            List.append_assoc, List.singleton_append]
      case isFalse =>
          rw [place, place, ← foldl_descend_append_slash, String.toList_append, String.toList_append,
            List.append_assoc]
          rfl

/-- **The components of a path below a directory** whose pieces are names: those of the directory, and
then the names. -/
theorem components_opened_append {directory path : String}
    (h : ∀ piece ∈ pieces path.toList, isName piece = true) :
    components (opened directory ++ path) = components directory ++ pieces path.toList := by
  rw [components, place_opened_append, foldl_descend h, List.reverse_append, List.reverse_reverse]
  rfl

end Path

/-! ### Names of classes as paths -/

/-- A plain text is the name of a file or a directory. -/
theorem IsPlainText.isName {cs : List Char} (h : IsPlainText cs) : Path.isName cs = true := by
  have hpoint : '.' ∉ cs := fun hmem => absurd (h.2 '.' hmem).1 (by decide)
  refine Path.isName_iff.2 ⟨h.1, ?_, ?_⟩
  · rintro rfl
    exact hpoint List.mem_cons_self
  · rintro rfl
    exact hpoint List.mem_cons_self

/-- So is every text with the ending of class files. -/
theorem Path.isName_append (cs : List Char) : Path.isName (cs ++ ".class".toList) = true := by
  have hlong : 2 < (cs ++ ".class".toList).length := by
    have hending : ".class".toList.length = 6 := rfl
    rw [List.length_append, hending]
    omega
  refine Path.isName_iff.2 ⟨?_, ?_, ?_⟩ <;>
    · intro heq
      rw [heq] at hlong
      exact absurd hlong (by decide)

namespace BinaryName

/-- **The pieces of the path of a class file** are the segments of the name of the class, the last one
with an ending, and all of them are names. -/
theorem exists_pieces_path {a : BinaryName} (h : a.IsValid) :
    ∃ (packages : List String) (simple : String), segments a.text = packages ++ [simple] ∧
      Path.pieces (a.text ++ ".class").toList = (packages ++ [simple ++ ".class"]).map String.toList ∧
      ∀ piece ∈ Path.pieces (a.text ++ ".class").toList, Path.isName piece = true := by
  have hending : parts ".class".toList = [".class".toList] := rfl
  obtain ⟨earlier, last, hparts, happend⟩ := exists_parts_append a.text.toList hending
  have hplain := isValid_iff.1 h
  rw [hparts] at hplain
  have hpieces : Path.pieces (a.text ++ ".class").toList = earlier ++ [last ++ ".class".toList] := by
    rw [Path.pieces_eq, String.toList_append, happend]
  refine ⟨earlier.map String.ofList, String.ofList last, ?_, ?_, ?_⟩
  · rw [segments_eq, hparts, List.map_append]
    rfl
  · rw [hpieces]
    simp
  · rw [hpieces]
    intro piece hpiece
    rcases List.mem_append.1 hpiece with hpiece | hpiece
    · exact (hplain piece (List.mem_append_left _ hpiece)).isName
    · rw [List.mem_singleton.1 hpiece]
      exact Path.isName_append last

/-- A segment of a valid name is the name of a file or a directory, without slashes. -/
theorem IsValid.of_mem_segments {a : BinaryName} (h : a.IsValid) {segment : String}
    (hmem : segment ∈ segments a.text) :
    segment ≠ "" ∧ segment ≠ "." ∧ segment ≠ ".." ∧ '/' ∉ segment.toList := by
  rw [segments_eq] at hmem
  obtain ⟨part, hpart, rfl⟩ := List.mem_map.1 hmem
  have hplain := isValid_iff.1 h part hpart
  obtain ⟨hempty, hpoint, hpoints⟩ := Path.isName_iff.1 hplain.isName
  have hslash : '/' ∉ part := fun hmem => absurd (hplain.2 '/' hmem).1 (by decide)
  simpa [← String.toList_inj] using And.intro hempty ⟨hpoint, hpoints, hslash⟩

end BinaryName

/-! ### Saving -/

theorem Settings.new_eq_ok_iff {className : String} {settings : Settings} :
    Settings.new className = .ok settings ↔ (BinaryName.mk className).IsValid ∧
      settings = ⟨⟨className⟩, Version.java8, Stack.ConstantCache.defaultNamePart⟩ := by
  unfold Settings.new BinaryName.ofString? BinaryName.IsValid
  cases BinaryName.fault? className <;> simp [eq_comm]

/-- What is saved is what was to be saved, where it was to be saved. -/
theorem OutputFile.save_eq_ok {path : String} {bytes : List UInt8} {createDirectories : Bool}
    {file : OutputFile} (h : OutputFile.save path bytes createDirectories = .ok file) :
    file = ⟨path, bytes⟩ := by
  unfold OutputFile.save at h
  dsimp only at h
  generalize (if createDirectories then Path.parents path else []) = created at h
  split at h
  · cases h
  split at h
  · cases h
  split at h
  · cases h
  · cases h
    rfl

namespace GeneratedClass

variable {t t' : GeneratedClass}

/-- The path of a class with a valid name does not begin with a slash: its first piece is a name. -/
theorem isAbsolute_path (h : t.name.IsValid) : Path.isAbsolute t.path = false := by
  obtain ⟨-, -, -, -, hnames⟩ := BinaryName.exists_pieces_path h
  rw [Path.isAbsolute, decide_eq_false_iff_not]
  intro hslash
  obtain ⟨rest, hrest⟩ := List.head?_eq_some_iff.1 hslash
  rw [path] at hrest
  rw [hrest, Path.pieces_eq, BinaryName.parts_cons_slash] at hnames
  exact absurd (hnames [] List.mem_cons_self) (by decide)

/-- **Where the path of a class leads** from a directory. -/
theorem components_join_path (h : t.name.IsValid) (directory : String) :
    Path.components (Path.join directory t.path) =
      Path.components directory ++ Path.pieces t.path.toList := by
  obtain ⟨-, -, -, -, hnames⟩ := BinaryName.exists_pieces_path h
  rw [Path.join, if_neg (by rw [isAbsolute_path h]; exact Bool.false_ne_true)]
  exact Path.components_opened_append hnames

/-- Classes with different names are saved at different places. -/
theorem name_eq_of_components_eq (h : t.name.IsValid) (h' : t'.name.IsValid) {directory : String}
    (heq : Path.components (Path.join directory t.path) =
      Path.components (Path.join directory t'.path)) : t.name = t'.name := by
  rw [components_join_path h, components_join_path h'] at heq
  have hpath : t.path.toList = t'.path.toList := Path.eq_of_pieces_eq (List.append_cancel_left heq)
  rw [path, path, String.toList_append, String.toList_append] at hpath
  have htext := String.toList_inj.1 (List.append_cancel_right hpath)
  cases hname : t.name
  cases hname' : t'.name
  rw [hname, hname'] at htext
  exact congrArg BinaryName.mk htext

/-- **Saved classes stay inside the directory.** The name of a class that settings have been made for
is cut at its slashes into segments, of which none is empty, a point or two points. The class is saved
under the path that puts these segments, the last one with an ending, behind the directory, with slashes
in between. From whatever place this leads on, it leads down, and every step on the way does. The
components of the path are those of the directory and then the segments. And classes with different names
have different paths, which lead to different places. -/
theorem saved_below_directory {className : String} {settings : Settings}
    (hsettings : Settings.new className = .ok settings) (hname : t.name = settings.className)
    (directory : String) :
    ∃ (packages : List String) (simple : String),
      BinaryName.segments className = packages ++ [simple] ∧
      (∀ segment ∈ BinaryName.segments className,
        segment ≠ "" ∧ segment ≠ "." ∧ segment ≠ ".." ∧ '/' ∉ segment.toList) ∧
      (∀ file : OutputFile, t.save directory = .ok file →
        file = ⟨Path.join directory t.path, t.bytes⟩) ∧
      Path.isAbsolute t.path = false ∧
      Path.join directory t.path =
        Path.opened directory ++ "/".intercalate (packages ++ [simple ++ ".class"]) ∧
      (∀ above below : Path.Place, below ∈ Path.places above (Path.pieces t.path.toList) →
        Path.IsBelow above below) ∧
      Path.components (Path.join directory t.path) =
        Path.components directory ++ (packages ++ [simple ++ ".class"]).map String.toList ∧
      ∀ (otherName : String) (other : Settings) (t' : GeneratedClass),
        Settings.new otherName = .ok other → t'.name = other.className →
          (Path.join directory t.path = Path.join directory t'.path ↔ className = otherName) ∧
          (Path.components (Path.join directory t.path) =
            Path.components (Path.join directory t'.path) ↔ className = otherName) := by
  obtain ⟨hvalid, rfl⟩ := Settings.new_eq_ok_iff.1 hsettings
  have hclass : t.name.IsValid := hname ▸ hvalid
  have htext : t.name.text = className := congrArg BinaryName.text hname
  -- the pieces of the path are the segments of the name, the last one with the extension
  obtain ⟨packages, simple, hsegments, hpieces, hnames⟩ := BinaryName.exists_pieces_path hvalid
  have hpath : t.path = className ++ ".class" := by rw [path, htext]
  have hintercalate : t.path = "/".intercalate (packages ++ [simple ++ ".class"]) := by
    rw [← String.toList_inj, String.toList_intercalate, ← hpieces, ← hpath]
    exact (Path.intercalate_pieces _).symm
  have hrelative := isAbsolute_path hclass
  refine ⟨packages, simple, hsegments, fun segment => hvalid.of_mem_segments,
    fun file => OutputFile.save_eq_ok, hrelative, ?_, ?_, ?_, ?_⟩
  · rw [Path.join, if_neg (by rw [hrelative]; exact Bool.false_ne_true), ← hintercalate]
  · intro above below hbelow
    refine Path.isBelow_of_mem_places ?_ hbelow
    rw [hpath]
    exact hnames
  · rw [components_join_path hclass, hpath]
    exact congrArg _ hpieces
  · intro otherName other t' hother hname'
    obtain ⟨hvalid', rfl⟩ := Settings.new_eq_ok_iff.1 hother
    have hclass' : t'.name.IsValid := hname' ▸ hvalid'
    -- the name tells the path, and the components of the path tell the name
    have hsame : className = otherName → t.path = t'.path := by
      rintro rfl
      rw [path, path, hname, hname']
    have hdifferent : Path.components (Path.join directory t.path) =
        Path.components (Path.join directory t'.path) → className = otherName := by
      intro heq
      have hnameEq := name_eq_of_components_eq hclass hclass' heq
      rw [hname, hname'] at hnameEq
      exact congrArg BinaryName.text hnameEq
    exact ⟨⟨fun h => hdifferent (congrArg Path.components h), fun h => by rw [hsame h]⟩,
      ⟨hdifferent, fun h => by rw [hsame h]⟩⟩

/-- A class in a package. -/
def exampleA : GeneratedClass := ⟨⟨"me/example/A"⟩, [0xCA, 0xFE, 0xBA, 0xBE]⟩

/-- A class whose name is that of the package. -/
def examplePackage : GeneratedClass := ⟨⟨"me/example"⟩, []⟩

/-- A class in a package is saved two directories below the directory, and the class with the name of the
package beside one of them. -/
theorem saved_below_directory_exampleA :
    ∃ settings other : Settings, Settings.new "me/example/A" = .ok settings ∧
      exampleA.name = settings.className ∧ Settings.new "me/example" = .ok other ∧
      examplePackage.name = other.className ∧
      exampleA.save "out" = .ok ⟨"out/me/example/A.class", exampleA.bytes⟩ ∧
      Path.components (Path.join "out" exampleA.path) =
        ["out", "me", "example", "A.class"].map String.toList ∧
      Path.join "out" exampleA.path ≠ Path.join "out" examplePackage.path := by
  have hsettings : Settings.new "me/example/A" = .ok ⟨⟨"me/example/A"⟩, _, _⟩ := rfl
  have hother : Settings.new "me/example" = .ok ⟨⟨"me/example"⟩, _, _⟩ := rfl
  have hsaved : exampleA.save "out" = .ok ⟨"out/me/example/A.class", exampleA.bytes⟩ := rfl
  have hname : exampleA.name = ⟨"me/example/A"⟩ := rfl
  obtain ⟨packages, simple, hsegments, -, -, -, -, -, hcomponents, hdifferent⟩ :=
    saved_below_directory hsettings hname "out"
  have hcut : ["me", "example"] ++ ["A"] = packages ++ [simple] := hsegments
  obtain ⟨rfl, hsimple⟩ := List.append_inj' hcut rfl
  cases hsimple
  refine ⟨_, _, hsettings, hname, hother, rfl, hsaved, hcomponents, fun heq => ?_⟩
  exact absurd ((hdifferent "me/example" _ examplePackage hother rfl).1.1 heq) (by decide)

end GeneratedClass

end JvmCodegen
