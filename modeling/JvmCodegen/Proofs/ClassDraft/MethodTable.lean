/-
**The methods of a finished class.**

A class may have only one method of a name and a descriptor.  The entries of a finished class come from
different places: from bodies that were handed in, each for a method that somebody declared, and from
the type initializer that the class gets for its constants.  But every one of these methods is listed by
the class graph, which tells methods apart by their names, their descriptors and whether they are
static.  So two entries that look the same differ in being static, or their descriptors are over
different classes that have one name.  Either can happen.

Main definitions:

* `ClassDraft.Session.Allows`, `ClassDraft.Session.AllowsEach` — calls with what the class graph has
  handed out;
* `ClassDraft.Session.ListsMethods` — what is true of the class graph at all times.

Main results:

* `ClassDraft.Session.growsTo_step` — every call only adds to the class graph;
* `ClassDraft.Session.ListsMethods.step`, `ClassDraft.Session.ListsMethods.run` — **the class lists all
  methods that were given bodies, and none twice**, call by call and over a whole session;
* `ClassDraft.Session.finish_distinguishes_methods` — **the entries of a finished class**;
* `ClassDraft.Session.finish_with_equal_entries` — a class with entries that look the same.
-/

import JvmCodegen.Proofs.ClassDraft.Acceptance
import JvmCodegen.Proofs.ClassDraft.References
import JvmCodegen.Proofs.ClassGraph.Methods

set_option relaxedAutoImplicit false
set_option autoImplicit false

namespace JvmCodegen

open Stack ConstantPool

/-- Applying a plan adds fields to the class graph, and nothing else. -/
theorem Stack.Plan.growsTo_graph_emit (plan : Plan) (s : Scope) :
    s.graph.GrowsTo (plan.emit s).scope.graph := by
  refine scope_emit_rule (R := fun s t => s.graph.GrowsTo t.graph) ?_ ?_ ?_ plan s
  · exact fun _ => .refl
  · exact fun h h' => h.trans h'
  · exact fun s value type => ClassGraph.GrowsTo.refl.addField _ _ _ _

namespace MethodModel

theorem getElem?_methods (entries : Array MethodModel) (n : Nat) :
    (methods entries)[n]? = entries[n]?.map method := by
  rw [methods, List.getElem?_map, Array.getElem?_toList]

/-- The entries at different places are those of different methods. -/
theorem ne_of_nodup {entries : Array MethodModel} (h : (methods entries).Nodup) {n n' : Nat}
    {m m' : MethodModel} (hm : entries[n]? = some m) (hm' : entries[n']? = some m') (hne : n ≠ n') :
    m.method ≠ m'.method := by
  intro heq
  have hget : (methods entries)[n]? = some m.method := by rw [getElem?_methods, hm]; rfl
  have hget' : (methods entries)[n']? = some m'.method := by rw [getElem?_methods, hm']; rfl
  have hlt := (List.getElem?_eq_some_iff.1 hget).1
  exact hne ((List.getElem?_inj hlt h).1 (hget.trans (heq ▸ hget'.symm)))

end MethodModel

/-- The class has entries at two places for methods of one name with descriptors of one text. -/
def ClassFile.HasEqualEntries (file : ClassFile) (n n' : Nat) (name descriptor : String)
    (flags flags' : MethodFlags) : Prop :=
  ∃ info info' : MemberInfo .method, file.methods[n]? = some info ∧ file.methods[n']? = some info' ∧
    info.flags = flags ∧ info'.flags = flags' ∧
    readText? file.constants info.name = some name ∧
    readText? file.constants info'.name = some name ∧
    readText? file.constants info.descriptor = some descriptor ∧
    readText? file.constants info'.descriptor = some descriptor

namespace ClassDraft.Session

variable {s : Session} {declared : Class} {settings : Settings}

/-! ### Calls -/

/-- **What a call may be about.** The classes in the descriptor of a declared method have names without
semicolons, as all names have that are read from a text; a body is handed in for a method that its owner
lists; and the class graph only grows. -/
def Allows (s : Session) : Call → Prop
  | .declare _ descriptor _ => descriptor.HasNoSemicolon
  | .implement method _ => method ∈ s.graph.methods method.owner
  | .elsewhere graph => s.graph.GrowsTo graph

/-- The calls of a list may be made, one after the other. -/
def AllowsEach (s : Session) : List Call → Prop
  | [] => True
  | call :: calls => s.Allows call ∧ (s.step call).AllowsEach calls

/-- Every call only adds to the class graph. -/
theorem growsTo_step {call : Call} (h : s.Allows call) : s.graph.GrowsTo (s.step call).graph := by
  cases call with
  | declare name descriptor flags => exact ClassGraph.GrowsTo.refl.addMethod _ name descriptor flags h
  | elsewhere graph => exact h
  | implement method body =>
      have hemit := body.growsTo_graph_emit ⟨s.graph, s.draft.constants⟩
      rcases implement_cases s.draft s.graph method body with
        ⟨reason, heq⟩ | ⟨-, heq⟩ | ⟨r, rfl, ⟨reason, heq⟩ | ⟨-, effect, compiled, -, -, heq⟩⟩
      · rw [step, heq]
        exact .refl
      · rw [step, heq]
        exact .refl
      · rw [step, heq]
        exact hemit
      · rw [step, heq]
        exact hemit

/-- Methods that are listed may be given bodies, one after the other. -/
theorem allowsEach_implement {methods : List Method} {body : Plan}
    (h : ∀ m ∈ methods, m ∈ s.graph.methods m.owner) :
    s.AllowsEach (methods.map fun m => .implement m body) := by
  induction methods generalizing s with
  | nil => trivial
  | cons m methods ih =>
      have hfirst : s.Allows (.implement m body) := h m List.mem_cons_self
      exact ⟨hfirst, ih fun k hk =>
        (growsTo_step hfirst).mem_methods (h k (List.mem_cons_of_mem m hk))⟩

/-! ### The list of the class -/

/-- What is true at all times: the class lists its methods under different keys, and among them are all
methods that were given bodies. -/
structure ListsMethods (declared : Class) (s : Session) : Prop where
  table : s.graph.ListsOnce declared
  accepted : ∀ given ∈ s.accepted, given.1 ∈ s.graph.methods declared

/-- A new class has no methods. -/
theorem listsMethods_start {graph graph' : ClassGraph} {draft : ClassDraft}
    (h : ClassDraft.new settings graph = .ok (draft, graph')) :
    (start draft graph').ListsMethods draft.declared := by
  unfold ClassDraft.new at h
  split at h
  · cases h
  · cases h
    have hnone := graph.methods_addClass_self settings.className (some Java.object)
      ClassFlags.publicClass
    refine ⟨⟨graph.isSome_entry?_addClass_self _ _ _, ?_, ?_⟩, fun _ h => absurd h List.not_mem_nil⟩
    · intro m hm
      exact absurd (hnone ▸ hm) List.not_mem_nil
    · intro m hm
      exact absurd (hnone ▸ hm) List.not_mem_nil

namespace ListsMethods

/-- **Every call keeps the list.** A body that is accepted is one for a method of the class. -/
theorem step (h : s.ListsMethods declared) (hdeclared : s.draft.declared = declared) {call : Call}
    (hallowed : s.Allows call) : (s.step call).ListsMethods declared := by
  have hgrows := growsTo_step hallowed
  refine ⟨hgrows.listsOnce h.table, fun given hgiven => hgrows.mem_methods ?_⟩
  cases call with
  | declare name descriptor flags => exact h.accepted given hgiven
  | elsewhere graph => exact h.accepted given hgiven
  | implement method body =>
      rcases hcall : s.draft.implement s.graph method body with ⟨reason | ⟨⟩, draft, graph⟩
      · rw [Session.step, hcall] at hgiven
        exact h.accepted given hgiven
      · rw [Session.step, hcall] at hgiven
        rcases List.mem_cons.1 hgiven with rfl | hgiven
        · have howner := (fault?_eq_none_iff.1 (implement_eq_ok rfl hcall).1).1
          rw [hdeclared] at howner
          rw [← howner]
          exact hallowed
        · exact h.accepted given hgiven

/-- **The list is kept over a whole session.** -/
theorem run (h : s.ListsMethods declared) (hinv : s.Invariant declared settings) {calls : List Call}
    (hallowed : s.AllowsEach calls) : (s.run calls).ListsMethods declared := by
  induction calls generalizing s with
  | nil => exact h
  | cons call calls ih =>
      exact ih (h.step hinv.declared_eq hallowed.1) (hinv.step call) hallowed.2

/-- The methods of a class that is made are listed too, in the class graph with the type initializer that
the class may get. -/
theorem exists_listsOnce (h : s.ListsMethods declared) (hinv : s.Invariant declared settings)
    (hnodup : (MethodModel.methods s.draft.model.methods).Nodup) {made : ClassDraft}
    {graph : ClassGraph} (hmade : s.draft.withInitializer s.graph = (.ok made, graph)) :
    ∃ g : ClassGraph, g.ListsOnce declared ∧
      ∀ m ∈ made.finalModel.methods, m.method ∈ g.methods declared := by
  have hvoid : (⟨[], none⟩ : MethodDescriptor Class).HasNoSemicolon :=
    fun c hc => absurd hc List.not_mem_nil
  rcases hown : s.draft.declare s.graph UnqualifiedName.typeInitializer ⟨[], none⟩
    MethodFlags.staticFlag with ⟨own, g⟩
  rw [ClassDraft.declare, hinv.declared_eq] at hown
  have hgrows : s.graph.GrowsTo g := by
    have hadd := (ClassGraph.GrowsTo.refl (g := s.graph)).addMethod declared
      UnqualifiedName.typeInitializer _ MethodFlags.staticFlag hvoid
    rwa [hown] at hadd
  obtain ⟨-, -, horigin⟩ := hinv.methods_made hnodup hmade
  refine ⟨g, hgrows.listsOnce h.table, fun m hm => ?_⟩
  rcases horigin m hm with ⟨-, body, hgiven⟩ | ⟨body, hsupplied⟩ | ⟨-, -, heq⟩
  · exact hgrows.mem_methods (h.accepted _ hgiven)
  · exact hgrows.mem_methods (h.accepted _ (List.mem_of_find?_eq_some hsupplied))
  · rw [ClassDraft.declare, hinv.declared_eq, hown] at heq
    rw [heq]
    exact s.graph.mem_methods_addMethod h.table.present hown

end ListsMethods

/-! ### The entries of a class file -/

/-- **The entries of a finished class.** A session of calls that are about what the class graph has
handed out is finished, and the bytes are read as a class file. Whatever the order of the calls and the
flags in them, two different entries for methods of one name with descriptors of one text differ in
being static, or their descriptors mention two different classes of one name. -/
theorem finish_distinguishes_methods {graph₀ graph₁ graph : ClassGraph} {draft : ClassDraft}
    (hnew : ClassDraft.new settings graph₀ = .ok (draft, graph₁)) {calls : List Call}
    (hallowed : (start draft graph₁).AllowsEach calls) (hrun : (start draft graph₁).run calls = s)
    {generated : GeneratedClass} (hfinish : s.draft.finish s.graph = (.ok generated, graph)) :
    ∃ (made : ClassDraft) (file : ClassFile),
      s.draft.withInitializer s.graph = (.ok made, graph) ∧
      ClassFile.decode? generated.bytes = some file ∧
      file.methods.length = made.finalModel.methods.size ∧
      ∀ (n n' : Nat) info info', n ≠ n' → file.methods[n]? = some info →
        file.methods[n']? = some info' → ∃ m m', made.finalModel.methods[n]? = some m ∧
          made.finalModel.methods[n']? = some m' ∧ m.IsStoredIn file.constants info ∧
          m'.IsStoredIn file.constants info' ∧
          (readText? file.constants info.name = readText? file.constants info'.name →
            readText? file.constants info.descriptor = readText? file.constants info'.descriptor →
            info.flags.has MethodFlags.staticFlag ≠ info'.flags.has MethodFlags.staticFlag ∨
              m.method.descriptor.MentionNamesakes m'.method.descriptor) := by
  have hstart := invariant_start hnew
  have hinv : s.Invariant draft.declared settings := hrun ▸ hstart.run calls
  have hlists : s.ListsMethods draft.declared :=
    hrun ▸ (listsMethods_start hnew).run hstart hallowed
  have hnodup : (MethodModel.methods s.draft.model.methods).Nodup :=
    hrun ▸ nodup_run_start hnew calls
  obtain ⟨made, file, hmade, hfile, hread⟩ := hinv.file_of_finish hfinish
  obtain ⟨g, hg, hlisted⟩ := hlists.exists_listsOnce hinv hnodup hmade
  have hdistinct := (hinv.methods_made hnodup hmade).1
  refine ⟨made, file, hmade, hread, ClassModel.length_methods_of_toClassFile hfile,
    fun n n' info info' hne hinfo hinfo' => ?_⟩
  obtain ⟨m, hm, hstored⟩ := ClassModel.isStoredIn_of_toClassFile hfile hinfo
  obtain ⟨m', hm', hstored'⟩ := ClassModel.isStoredIn_of_toClassFile hfile hinfo'
  refine ⟨m, m', hm, hm', hstored, hstored', fun hname hdescriptor => ?_⟩
  have hmem := hlisted m (Array.mem_of_getElem? hm)
  have hmem' := hlisted m' (Array.mem_of_getElem? hm')
  rw [hstored.name, hstored'.name, Option.some.injEq] at hname
  rw [hstored.descriptor, hstored'.descriptor, Option.some.injEq] at hdescriptor
  rw [hstored.flags, hstored'.flags]
  rcases MethodDescriptor.eq_or_mentionNamesakes_of_render_eq (hg.named _ hmem) (hg.named _ hmem')
    hdescriptor with hsame | hnamesakes
  · refine .inl fun hstatic => ?_
    -- the class graph would list both under one key, but they are different methods
    have hkey : m.method.key = m'.method.key := by
      have hname : m.method.name = m'.method.name := congrArg UnqualifiedName.mk hname
      rw [Method.key, Method.key, hname, hsame, Method.isStatic, hstatic]
      rfl
    exact MethodModel.ne_of_nodup hdistinct hm hm' hne (hg.distinct _ hmem _ hmem' hkey)
  · exact .inr hnamesakes

/-! ### Entries that look the same -/

/-- Each method of a finished class has an entry, at its place. -/
theorem Invariant.exists_entry (h : s.Invariant declared settings) {generated : GeneratedClass}
    {graph : ClassGraph} (hfinish : s.draft.finish s.graph = (.ok generated, graph)) :
    ∃ (made : ClassDraft) (file : ClassFile),
      s.draft.withInitializer s.graph = (.ok made, graph) ∧
      ClassFile.decode? generated.bytes = some file ∧
      ∀ (n : Nat) method, (MethodModel.methods made.finalModel.methods)[n]? = some method →
        ∃ info, file.methods[n]? = some info ∧ info.flags = method.flags ∧
          readText? file.constants info.name = some method.name.text ∧
          readText? file.constants info.descriptor = some method.descriptor.render := by
  obtain ⟨made, file, hmade, hfile, hread⟩ := h.file_of_finish hfinish
  refine ⟨made, file, hmade, hread, fun n method hmethod => ?_⟩
  rw [MethodModel.getElem?_methods] at hmethod
  obtain ⟨m, hm, rfl⟩ := Option.map_eq_some_iff.1 hmethod
  have hlt : n < file.methods.length := by
    rw [ClassModel.length_methods_of_toClassFile hfile]
    exact (Array.getElem?_eq_some_iff.1 hm).1
  obtain ⟨m', hm', hstored⟩ :=
    ClassModel.isStoredIn_of_toClassFile hfile (List.getElem?_eq_getElem hlt)
  cases hm.symm.trans hm'
  exact ⟨_, List.getElem?_eq_getElem hlt, hstored.flags, hstored.name, hstored.descriptor⟩

/-- Two classes of one name, beside the class that is written. -/
def graphWithNamesakes : ClassGraph :=
  ((graphA.addClass ⟨"a"⟩ (some Java.object) ClassFlags.publicClass).2.addClass ⟨"a"⟩
    (some Java.object) ClassFlags.publicClass).2

/-- The descriptor of a method that takes an instance of one of the two classes. -/
def takingNamesake (n : Nat) : MethodDescriptor Class :=
  ⟨[.object ⟨n, ⟨"a"⟩, ClassFlags.publicClass⟩], none⟩

/-- A static method, an instance method of the same descriptor, and a static method that takes the other
class. -/
def lookalikes : List Method :=
  [⟨0, classA, ⟨"m"⟩, takingNamesake 1, MethodFlags.staticFlag⟩,
    ⟨1, classA, ⟨"m"⟩, takingNamesake 1, MethodFlags.publicFlag⟩,
    ⟨2, classA, ⟨"m"⟩, takingNamesake 2, MethodFlags.staticFlag⟩]

/-- The methods are declared, and given bodies. -/
def lookalikeCalls : List Call :=
  .elsewhere graphWithNamesakes ::
    (lookalikes.map (fun m => .declare m.name m.descriptor m.flags) ++
      lookalikes.map fun m => .implement m (.op (.ret none)))

/-- The class with these methods. -/
def lookalikeSession : Session := (start draftA graphA).run lookalikeCalls

theorem finish_lookalikeSession : ∃ generated graph,
    lookalikeSession.draft.finish lookalikeSession.graph = (.ok generated, graph) :=
  exists_finish_of_toBool (by cbv)

theorem methods_lookalikeSession {made : ClassDraft} {graph : ClassGraph}
    (h : lookalikeSession.draft.withInitializer lookalikeSession.graph = (.ok made, graph)) :
    MethodModel.methods made.finalModel.methods = lookalikes :=
  eq_of_withInitializer (fun made => MethodModel.methods made.finalModel.methods) (by cbv) h

theorem allowsEach_lookalikeCalls : (start draftA graphA).AllowsEach lookalikeCalls := by
  have hnames : ∀ n, (takingNamesake n).HasNoSemicolon := by
    intro n c hc
    cases List.mem_singleton.1 hc
    exact BinaryName.hasNoSemicolon_of_ofString? (s := "a") (by cbv)
  have hlisted : ((start draftA graphA).run (lookalikeCalls.take 4)).graph.methods classA =
      lookalikes := by cbv
  refine ⟨(ClassGraph.GrowsTo.refl.addClass _ _ _).addClass _ _ _, hnames 1, hnames 1, hnames 2,
    allowsEach_implement fun m hm => ?_⟩
  have howner : m.owner = classA := by
    simp only [lookalikes, List.mem_cons, List.not_mem_nil, or_false] at hm
    rcases hm with rfl | rfl | rfl <;> rfl
  rw [howner]
  exact hlisted.symm ▸ hm

/-- The class has the three methods, in this order. The first two differ in being static, and the others
mention the two classes of one name. -/
theorem finish_distinguishes_methods_lookalikeSession :
    ClassDraft.new settingsA .empty = .ok (draftA, graphA) ∧
    (start draftA graphA).AllowsEach lookalikeCalls ∧
    ∃ (generated : GeneratedClass) (graph : ClassGraph) (file : ClassFile),
      lookalikeSession.draft.finish lookalikeSession.graph = (.ok generated, graph) ∧
      ClassFile.decode? generated.bytes = some file ∧
      file.methods.length = 3 ∧
      ∀ info info', file.methods[0]? = some info → file.methods[1]? = some info' →
        readText? file.constants info.name = readText? file.constants info'.name →
        readText? file.constants info.descriptor = readText? file.constants info'.descriptor →
        info.flags.has MethodFlags.staticFlag ≠ info'.flags.has MethodFlags.staticFlag := by
  obtain ⟨generated, graph, hfinish⟩ := finish_lookalikeSession
  have hnew : ClassDraft.new settingsA .empty = .ok (draftA, graphA) := rfl
  obtain ⟨made, file, hmade, hread, hlength, hdistinct⟩ :=
    finish_distinguishes_methods hnew allowsEach_lookalikeCalls rfl hfinish
  have hmethods := methods_lookalikeSession hmade
  have hsize : made.finalModel.methods.size = 3 := by
    simpa [MethodModel.methods, lookalikes] using congrArg List.length hmethods
  refine ⟨hnew, allowsEach_lookalikeCalls, generated, graph, file, hfinish, hread,
    hlength.trans hsize, fun info info' hinfo hinfo' hname hdescriptor => ?_⟩
  obtain ⟨m, m', hm, hm', -, -, hdiffer⟩ := hdistinct 0 1 info info' (by decide) hinfo hinfo'
  rcases hdiffer hname hdescriptor with hstatic | ⟨c, hc, c', hc', hne, -⟩
  · exact hstatic
  · -- both take the same class, so there is no other class of its name
    have hget := MethodModel.getElem?_methods made.finalModel.methods
    rw [hmethods] at hget
    have hfirst : m.method = lookalikes[0] := Option.some.inj ((hget 0).trans (by rw [hm]; rfl)).symm
    have hsecond : m'.method = lookalikes[1] :=
      Option.some.inj ((hget 1).trans (by rw [hm']; rfl)).symm
    rw [hfirst] at hc
    rw [hsecond] at hc'
    cases List.mem_singleton.1 hc
    cases List.mem_singleton.1 hc'
    exact absurd rfl hne

/-- **A finished class can have methods that look the same.** Two of its three methods differ in being
static only, and two take different classes of one name. -/
theorem finish_with_equal_entries :
    ClassDraft.new settingsA .empty = .ok (draftA, graphA) ∧
    (start draftA graphA).run lookalikeCalls = lookalikeSession ∧
    ∃ (generated : GeneratedClass) (graph : ClassGraph) (file : ClassFile),
      lookalikeSession.draft.finish lookalikeSession.graph = (.ok generated, graph) ∧
      ClassFile.decode? generated.bytes = some file ∧
      file.HasEqualEntries 0 1 "m" "(La;)V" MethodFlags.staticFlag MethodFlags.publicFlag ∧
      file.HasEqualEntries 0 2 "m" "(La;)V" MethodFlags.staticFlag MethodFlags.staticFlag := by
  obtain ⟨generated, graph, hfinish⟩ := finish_lookalikeSession
  have hnew : ClassDraft.new settingsA .empty = .ok (draftA, graphA) := rfl
  obtain ⟨made, file, hmade, hread, hentries⟩ :=
    ((invariant_start hnew).run lookalikeCalls).exists_entry hfinish
  rw [methods_lookalikeSession hmade] at hentries
  obtain ⟨first, hfirst, hflags, hname, hdescriptor⟩ := hentries 0 _ rfl
  obtain ⟨second, hsecond, hflags', hname', hdescriptor'⟩ := hentries 1 _ rfl
  obtain ⟨third, hthird, hflags'', hname'', hdescriptor''⟩ := hentries 2 _ rfl
  have hone : (takingNamesake 1).render = "(La;)V" := by cbv
  have htwo : (takingNamesake 2).render = "(La;)V" := by cbv
  refine ⟨hnew, rfl, generated, graph, file, hfinish, hread, ?_, ?_⟩
  · exact ⟨first, second, hfirst, hsecond, hflags, hflags', hname, hname',
      hdescriptor.trans (congrArg some hone), hdescriptor'.trans (congrArg some hone)⟩
  · exact ⟨first, third, hfirst, hthird, hflags, hflags'', hname, hname'',
      hdescriptor.trans (congrArg some hone), hdescriptor''.trans (congrArg some htwo)⟩

end ClassDraft.Session

end JvmCodegen
