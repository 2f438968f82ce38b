/-
**A class graph and its history.**

A class graph starts empty and is asked for declarations: new classes, classes that may be known
already, fields, and methods that may be known already.  Every request is answered with a
declaration, and the graph only grows.  So all that it knows can be told from the answers that it has
given: a name stands for the first class that was answered under it, and a class lists the fields and
the methods that were answered for it, each of them once and in the order of the first answers.

Main definitions:

* `ClassGraph.Request`, `ClassGraph.Declaration` — what can be asked of a graph, and what it
  answers;
* `ClassGraph.askEach`, `ClassGraph.AllowsEach` — a history of requests;
* `ClassGraph.Records` — what a graph knows of its history, and what keeps declarations apart.

Main results:

* `ClassGraph.Records.ask`, `ClassGraph.Records.askEach` — **nothing is forgotten**, request by request
  and over a whole history;
* `ClassGraph.graph_follows_history` — **what a graph finds and lists** is told by its history.
-/

import JvmCodegen.Proofs.ClassGraph.Methods

set_option relaxedAutoImplicit false
set_option autoImplicit false

namespace JvmCodegen

/-! ### One more element -/

section Concat

theorem filter_concat {α : Type} (p : α → Bool) (l : List α) (a : α) :
    (l ++ [a]).filter p = if p a then l.filter p ++ [a] else l.filter p := by
  rw [List.filter_append, List.filter_singleton]
  cases p a <;> simp

variable {α : Type} [DecidableEq α]

/-- One more element counts if it is new. -/
theorem eraseDups_concat (l : List α) (a : α) :
    (l ++ [a]).eraseDups = if a ∈ l then l.eraseDups else l.eraseDups ++ [a] := by
  rw [List.eraseDups_append]
  split
  case isTrue h => simp [List.removeAll, h]
  case isFalse h =>
      have hnew : [a].removeAll l = [a] := by simp [List.removeAll, h]
      rw [hnew]
      rfl

/-- Repetitions do not matter for the first element of a kind. -/
theorem find?_eraseDups (p : α → Bool) (l : List α) : l.eraseDups.find? p = l.find? p := by
  induction l using List.reverseRecOn with
  | nil => rfl
  | append_singleton l a ih =>
      rw [eraseDups_concat, List.find?_append]
      split
      case isTrue hmem =>
          rw [ih]
          cases hfind : l.find? p with
          | some b => rfl
          | none =>
              have hnot := List.find?_eq_none.1 hfind a hmem
              simp [hnot]
      case isFalse => rw [List.find?_append, ih]

end Concat

namespace ClassGraph

/-! ### Requests and answers -/

/-- What can be asked of a class graph. -/
inductive Request
  | addClass (name : BinaryName) (superclass : Option Class) (flags : ClassFlags)
  | findOrAdd (name : BinaryName) (superclass : Class)
  | addField (owner : Class) (name : UnqualifiedName) (type : ValueType) (flags : FieldFlags)
  | addMethod (owner : Class) (name : UnqualifiedName) (descriptor : MethodDescriptor Class)
      (flags : MethodFlags)

/-- What a request is answered with. -/
inductive Declaration
  | ofClass (c : Class)
  | ofField (f : Field)
  | ofMethod (m : Method)

namespace Declaration

@[simp]
def class? : Declaration → Option Class
  | ofClass c => some c
  | _ => none

@[simp]
def field? : Declaration → Option Field
  | ofField f => some f
  | _ => none

@[simp]
def method? : Declaration → Option Method
  | ofMethod m => some m
  | _ => none

end Declaration

/-- The classes among some answers, in order. -/
def classesIn (answers : List Declaration) : List Class := answers.filterMap Declaration.class?

/-- The fields among some answers, in order. -/
def fieldsIn (answers : List Declaration) : List Field := answers.filterMap Declaration.field?

/-- The methods among some answers, in order. -/
def methodsIn (answers : List Declaration) : List Method := answers.filterMap Declaration.method?

open Declaration

/-- The answer to a request, and the graph afterwards. -/
def Request.ask (g : ClassGraph) : Request → Declaration × ClassGraph
  | addClass name superclass flags =>
      let (c, g) := g.addClass name superclass flags
      (ofClass c, g)
  | findOrAdd name superclass =>
      let (c, g) := g.findOrAdd name superclass
      (ofClass c, g)
  | addField owner name type flags =>
      let (f, g) := g.addField owner name type flags
      (ofField f, g)
  | addMethod owner name descriptor flags =>
      let (m, g) := g.addMethod owner name descriptor flags
      (ofMethod m, g)

/-- **The answers to some requests**, made one after the other, and the graph afterwards. -/
def askEach (g : ClassGraph) : List Request → List Declaration × ClassGraph
  | [] => ([], g)
  | r :: requests =>
      let (answer, g) := r.ask g
      let (answers, g) := g.askEach requests
      (answer :: answers, g)

/-- Members are added to classes of the graph. -/
def Request.IsAllowed (g : ClassGraph) : Request → Prop
  | addField owner _ _ _ => owner ∈ g.classes
  | addMethod owner _ _ _ => owner ∈ g.classes
  | _ => True

/-- The requests of a list may be made, one after the other. -/
def AllowsEach (g : ClassGraph) : List Request → Prop
  | [] => True
  | r :: requests => r.IsAllowed g ∧ (r.ask g).2.AllowsEach requests

/-- The answer is a declaration of the kind that was asked for. A method that is known already may
have been asked for with other flags. -/
def Request.IsFor : Request → Declaration → Prop
  | addClass name _ flags, ofClass c => c.name = name ∧ c.flags = flags
  | findOrAdd name _, ofClass c => c.name = name
  | addField owner name type flags, ofField f =>
      f.owner = owner ∧ f.name = name ∧ f.type = type ∧ f.flags = flags
  | addMethod owner name descriptor flags, ofMethod m =>
      m.owner = owner ∧ m.key = (name, descriptor, flags.has MethodFlags.staticFlag)
  | _, _ => False

section Answers

variable (answers : List Declaration) (d : Declaration)

@[simp]
theorem classesIn_concat : classesIn (answers ++ [d]) = classesIn answers ++ d.class?.toList := by
  cases d <;> simp [classesIn, Declaration.class?]

@[simp]
theorem fieldsIn_concat : fieldsIn (answers ++ [d]) = fieldsIn answers ++ d.field?.toList := by
  cases d <;> simp [fieldsIn, Declaration.field?]

@[simp]
theorem methodsIn_concat : methodsIn (answers ++ [d]) = methodsIn answers ++ d.method?.toList := by
  cases d <;> simp [methodsIn, Declaration.method?]

end Answers

/-! ### The fields of a class -/

/-- The graph with one more field at the end of its owner's list. -/
def withField (g : ClassGraph) (f : Field) : ClassGraph :=
  { g.modifyEntry f.owner.serial fun e => { e with fields := e.fields.push f } with
    fieldCount := g.fieldCount + 1 }

section Steps

variable (g : ClassGraph)

theorem fields_withMethod (m : Method) (c : Class) : (g.withMethod m).fields c = g.fields c :=
  reads_fields.modifyEntry (g := g) c fun _ => rfl

theorem fields_withField (f : Field) (c : Class) :
    (g.withField f).fields c =
      if f.owner.serial = c.serial ∧ (g.entry? c).isSome then g.fields c ++ [f]
      else g.fields c :=
  reads_fields.modifyEntry_push (g := g) (fun _ => rfl) c

theorem methods_withField (f : Field) (c : Class) : (g.withField f).methods c = g.methods c :=
  reads_methods.modifyEntry (g := g) c fun _ => rfl

theorem classes_withField (f : Field) : (g.withField f).classes = g.classes :=
  classes_modifyEntry (g := g) fun _ => rfl

theorem classes_withMethod (m : Method) : (g.withMethod m).classes = g.classes :=
  classes_modifyEntry (g := g) fun _ => rfl

/-- The class that is found or added under a name is found under it. -/
theorem find?_findOrAdd (name : BinaryName) (superclass : Class) :
    (g.findOrAdd name superclass).2.find? name = some (g.findOrAdd name superclass).1 := by
  unfold findOrAdd
  cases hfind : g.find? name with
  | some c => exact hfind
  | none =>
      have hnone : (g.entries.find? fun e => e.declared.name == name) = none :=
        Option.map_eq_none_iff.1 hfind
      simp [ClassGraph.addClass, ClassGraph.find?, Array.find?_push, hnone]

theorem findOrAdd_of_find? {name : BinaryName} {c : Class} (h : g.find? name = some c)
    (superclass : Class) : g.findOrAdd name superclass = (c, g) := by
  rw [findOrAdd, h]

end Steps

/-- A class of the graph stands where the serial number of another one points only if they are one. -/
theorem IsNumbered.is_owner_iff {g : ClassGraph} (h : g.IsNumbered) {owner c : Class}
    (howner : owner ∈ g.classes) (hc : c ∈ g.classes) :
    owner.serial = c.serial ∧ (g.entry? c).isSome ↔ owner = c := by
  constructor
  · exact fun hsame => h.eq_of_serial howner hc hsame.1
  · rintro rfl
    exact ⟨rfl, h.isSome_entry? hc⟩

/-! ### What a graph knows -/

/-- **What a graph knows of its history**, the answers that it has given. Its classes are the answered
ones, at the places of their serial numbers; each of them lists the fields and the methods that were
answered for it. Serial numbers are handed out once, fields are answered once, and no class lists two
methods under one key. -/
structure Records (g : ClassGraph) (answers : List Declaration) : Prop where
  classes_eq : g.classes = (classesIn answers).eraseDups
  numbered : g.IsNumbered
  fields_eq : ∀ c ∈ g.classes, g.fields c = (fieldsIn answers).filter fun f => f.owner = c
  methods_eq : ∀ c ∈ g.classes,
    g.methods c = ((methodsIn answers).filter fun m => m.owner = c).eraseDups
  field_known : ∀ f ∈ fieldsIn answers, f.owner ∈ g.classes ∧ f.serial < g.fieldCount
  method_known : ∀ m ∈ methodsIn answers, m.owner ∈ g.classes ∧ m.serial < g.methodCount
  nodup_fields : (fieldsIn answers).Nodup
  nodup_keys : ∀ c ∈ g.classes, ((g.methods c).map Method.key).Nodup

theorem records_empty : empty.Records [] where
  classes_eq := rfl
  numbered _ _ h := by cases h
  fields_eq _ h := by cases h
  methods_eq _ h := by cases h
  field_known _ h := by cases h
  method_known _ h := by cases h
  nodup_fields := List.nodup_nil
  nodup_keys _ h := by cases h

namespace Records

variable {g : ClassGraph} {answers : List Declaration}

/-- The classes of the graph are those that were answered. -/
theorem mem_classes_iff (h : g.Records answers) {c : Class} :
    c ∈ g.classes ↔ c ∈ classesIn answers := by
  rw [h.classes_eq, List.mem_eraseDups]

/-- **A name is looked up** to the first class that was answered under it. -/
theorem find?_eq (h : g.Records answers) (name : BinaryName) :
    g.find? name = (classesIn answers).find? fun c => c.name = name := by
  have hclasses : g.find? name = g.classes.find? fun c => c.name = name := by
    rw [ClassGraph.find?, ← Array.find?_toList, ClassGraph.classes, List.find?_map]
    rfl
  rw [hclasses, h.classes_eq, find?_eraseDups]

/-- A method is listed by a class if it was answered for it. -/
theorem mem_methods_iff (h : g.Records answers) {c : Class} (hc : c ∈ g.classes) {m : Method} :
    m ∈ g.methods c ↔ m ∈ methodsIn answers ∧ m.owner = c := by
  rw [h.methods_eq c hc, List.mem_eraseDups, List.mem_filter, decide_eq_true_eq]

/-! ### What a request does -/

/-- A class that is known is answered again. -/
theorem known_class (h : g.Records answers) {c : Class} (hc : c ∈ g.classes) :
    g.Records (answers ++ [ofClass c]) where
  classes_eq := by
    rw [classesIn_concat, class?, Option.toList_some, eraseDups_concat,
      if_pos (h.mem_classes_iff.1 hc)]
    exact h.classes_eq
  numbered := h.numbered
  fields_eq := by simpa using h.fields_eq
  methods_eq := by simpa using h.methods_eq
  field_known := by simpa using h.field_known
  method_known := by simpa using h.method_known
  nodup_fields := by simpa using h.nodup_fields
  nodup_keys := h.nodup_keys

/-- A method that is known is answered again. -/
theorem known_method (h : g.Records answers) {owner : Class} (howner : owner ∈ g.classes)
    {m : Method} (hm : m ∈ g.methods owner) : g.Records (answers ++ [ofMethod m]) where
  classes_eq := by simpa using h.classes_eq
  numbered := h.numbered
  fields_eq := by simpa using h.fields_eq
  methods_eq c hc := by
    have hmem : m ∈ methodsIn answers := ((h.mem_methods_iff howner).1 hm).1
    rw [h.methods_eq c hc, methodsIn_concat, method?, Option.toList_some, filter_concat]
    split
    · rename_i hown
      rw [eraseDups_concat, if_pos (List.mem_filter.2 ⟨hmem, hown⟩)]
    · rfl
  field_known := by simpa using h.field_known
  method_known k hk := by
    rw [methodsIn_concat] at hk
    rcases List.mem_append.1 hk with hk | hk
    · exact h.method_known k hk
    · obtain rfl := List.mem_singleton.1 hk
      exact h.method_known k ((h.mem_methods_iff howner).1 hm).1
  nodup_fields := by simpa using h.nodup_fields
  nodup_keys := h.nodup_keys

/-- A new class is not yet in the graph. -/
theorem new_class_not_mem (h : g.Records answers) (name : BinaryName) (flags : ClassFlags) :
    ⟨g.entries.size, name, flags⟩ ∉ g.classes :=
  fun hmem => Nat.lt_irrefl _ (h.numbered.serial_lt hmem)

/-- No field was answered for a class that is not in the graph. -/
theorem filter_fieldsIn_eq_nil (h : g.Records answers) {c : Class} (hc : c ∉ g.classes) :
    ((fieldsIn answers).filter fun f => f.owner = c) = [] := by
  refine List.filter_eq_nil_iff.2 fun f hf hown => hc ?_
  exact of_decide_eq_true hown ▸ (h.field_known f hf).1

/-- No method was answered for a class that is not in the graph. -/
theorem filter_methodsIn_eq_nil (h : g.Records answers) {c : Class} (hc : c ∉ g.classes) :
    ((methodsIn answers).filter fun m => m.owner = c) = [] := by
  refine List.filter_eq_nil_iff.2 fun m hm hown => hc ?_
  exact of_decide_eq_true hown ▸ (h.method_known m hm).1

/-- **A new class** has a serial number of its own and no members. -/
theorem addClass (h : g.Records answers) (name : BinaryName) (superclass : Option Class)
    (flags : ClassFlags) :
    (g.addClass name superclass flags).2.Records
      (answers ++ [ofClass ⟨g.entries.size, name, flags⟩]) := by
  have hnew := h.new_class_not_mem name flags
  have hmem : ∀ c ∈ (g.addClass name superclass flags).2.classes,
      c ∈ g.classes ∨ c = ⟨g.entries.size, name, flags⟩ := by
    intro c hc
    rw [classes_addClass] at hc
    simpa using hc
  have hold : ∀ c ∈ g.classes, c ∈ (g.addClass name superclass flags).2.classes := by
    intro c hc
    rw [classes_addClass]
    exact List.mem_append_left _ hc
  constructor
  case classes_eq =>
    rw [classes_addClass, classesIn_concat, class?, Option.toList_some, eraseDups_concat,
      if_neg (mt h.mem_classes_iff.2 hnew), h.classes_eq]
  case numbered => exact h.numbered.addClass name superclass flags
  case fields_eq =>
    intro c hc
    simp only [reads_fields.addClass fun _ => rfl, fieldsIn_concat, field?, Option.toList_none, List.append_nil]
    rcases hmem c hc with hc | rfl
    · exact h.fields_eq c hc
    · rw [reads_fields.eq_nil_of_size_le (Nat.le_refl _), h.filter_fieldsIn_eq_nil hnew]
  case methods_eq =>
    intro c hc
    simp only [reads_methods.addClass fun _ => rfl, methodsIn_concat, method?, Option.toList_none, List.append_nil]
    rcases hmem c hc with hc | rfl
    · exact h.methods_eq c hc
    · rw [reads_methods.eq_nil_of_size_le (Nat.le_refl _), h.filter_methodsIn_eq_nil hnew, List.eraseDups_nil]
  case field_known =>
    intro f hf
    have hknown := h.field_known f (by simpa using hf)
    exact ⟨hold _ hknown.1, hknown.2⟩
  case method_known =>
    intro m hm
    have hknown := h.method_known m (by simpa using hm)
    exact ⟨hold _ hknown.1, hknown.2⟩
  case nodup_fields => simpa using h.nodup_fields
  case nodup_keys =>
    intro c hc
    rw [reads_methods.addClass fun _ => rfl]
    rcases hmem c hc with hc | rfl
    · exact h.nodup_keys c hc
    · rw [reads_methods.eq_nil_of_size_le (Nat.le_refl _)]
      exact List.nodup_nil

/-- **A new field** is listed last by its owner, and by no other class. -/
theorem withField (h : g.Records answers) {f : Field} (howner : f.owner ∈ g.classes)
    (hserial : f.serial = g.fieldCount) : (g.withField f).Records (answers ++ [ofField f]) := by
  constructor
  case classes_eq => simpa [classes_withField] using h.classes_eq
  case numbered =>
    rw [IsNumbered, classes_withField]
    exact h.numbered
  case fields_eq =>
    intro c hc
    rw [classes_withField] at hc
    rw [fields_withField, fieldsIn_concat, field?, Option.toList_some, filter_concat,
      h.fields_eq c hc]
    simp only [h.numbered.is_owner_iff howner hc, decide_eq_true_eq]
  case methods_eq =>
    intro c hc
    rw [classes_withField] at hc
    rw [methods_withField]
    simpa using h.methods_eq c hc
  case field_known =>
    rw [fieldsIn_concat, classes_withField]
    refine List.forall_mem_append.2 ⟨fun k hk => ?_, List.forall_mem_singleton.2 ⟨howner, ?_⟩⟩
    · exact ⟨(h.field_known k hk).1, Nat.lt_succ_of_lt (h.field_known k hk).2⟩
    · exact Nat.lt_succ_of_le hserial.le
  case method_known =>
    intro m hm
    rw [classes_withField]
    exact h.method_known m (by simpa using hm)
  case nodup_fields =>
    rw [fieldsIn_concat]
    refine List.nodup_append'.2 ⟨h.nodup_fields, List.nodup_singleton f, ?_⟩
    exact List.disjoint_singleton.2 fun hmem => (h.field_known f hmem).2.ne hserial
  case nodup_keys =>
    intro c hc
    rw [classes_withField] at hc
    rw [methods_withField]
    exact h.nodup_keys c hc

/-- **A new method** is listed last by its owner, and by no other class. -/
theorem withMethod (h : g.Records answers) {m : Method} (howner : m.owner ∈ g.classes)
    (hserial : m.serial = g.methodCount) (hfresh : ∀ k ∈ g.methods m.owner, k.key ≠ m.key) :
    (g.withMethod m).Records (answers ++ [ofMethod m]) := by
  have hnew : m ∉ methodsIn answers := fun hmem => (h.method_known m hmem).2.ne hserial
  constructor
  case classes_eq => simpa [classes_withMethod] using h.classes_eq
  case numbered =>
    rw [IsNumbered, classes_withMethod]
    exact h.numbered
  case fields_eq =>
    intro c hc
    rw [classes_withMethod] at hc
    rw [fields_withMethod]
    simpa using h.fields_eq c hc
  case methods_eq =>
    intro c hc
    rw [classes_withMethod] at hc
    rw [methods_withMethod, methodsIn_concat, method?, Option.toList_some, filter_concat,
      h.methods_eq c hc]
    simp only [h.numbered.is_owner_iff howner hc, decide_eq_true_eq]
    split
    · rw [eraseDups_concat, if_neg]
      exact fun hmem => hnew (List.mem_of_mem_filter hmem)
    · rfl
  case field_known =>
    intro f hf
    rw [classes_withMethod]
    exact h.field_known f (by simpa using hf)
  case method_known =>
    rw [methodsIn_concat, classes_withMethod]
    refine List.forall_mem_append.2 ⟨fun k hk => ?_, List.forall_mem_singleton.2 ⟨howner, ?_⟩⟩
    · exact ⟨(h.method_known k hk).1, Nat.lt_succ_of_lt (h.method_known k hk).2⟩
    · exact Nat.lt_succ_of_le hserial.le
  case nodup_fields => simpa using h.nodup_fields
  case nodup_keys =>
    intro c hc
    rw [classes_withMethod] at hc
    rw [methods_withMethod]
    simp only [h.numbered.is_owner_iff howner hc]
    split
    · rename_i howns
      rw [List.map_append, List.map_singleton]
      refine List.nodup_append'.2 ⟨h.nodup_keys c hc, List.nodup_singleton m.key, ?_⟩
      refine List.disjoint_singleton.2 fun hmem => ?_
      obtain ⟨k, hk, hkey⟩ := List.mem_map.1 hmem
      exact hfresh k (howns ▸ hk) hkey
    · exact h.nodup_keys c hc

/-- **A request** is answered with what was asked for, and the graph remembers the answer. -/
theorem ask (h : g.Records answers) {r : Request} (hallowed : r.IsAllowed g) :
    r.IsFor (r.ask g).1 ∧ (r.ask g).2.Records (answers ++ [(r.ask g).1]) := by
  cases r with
  | addClass name superclass flags =>
      exact ⟨⟨rfl, rfl⟩, h.addClass name superclass flags⟩
  | findOrAdd name superclass =>
      simp only [Request.ask, ClassGraph.findOrAdd]
      cases hfind : g.find? name with
      | none => exact ⟨rfl, h.addClass name superclass _⟩
      | some c =>
          rw [h.find?_eq] at hfind
          have hmem : c ∈ g.classes := h.mem_classes_iff.2 (List.mem_of_find?_eq_some hfind)
          have htest := List.find?_some hfind
          have hname : c.name = name := of_decide_eq_true htest
          exact ⟨hname, h.known_class hmem⟩
  | addField owner name type flags =>
      have howner : (g.addField owner name type flags).1.owner ∈ g.classes := hallowed
      exact ⟨⟨rfl, rfl, rfl, rfl⟩, h.withField howner rfl⟩
  | addMethod owner name descriptor flags =>
      simp only [Request.ask]
      rcases g.addMethod_cases owner name descriptor flags with
        ⟨m, hm, hkey, heq⟩ | ⟨m, rfl, hfresh, heq⟩
      · rw [heq]
        exact ⟨⟨((h.mem_methods_iff hallowed).1 hm).2, hkey⟩, h.known_method hallowed hm⟩
      · rw [heq]
        exact ⟨⟨rfl, rfl⟩, h.withMethod hallowed rfl hfresh⟩

/-- **Nothing is forgotten** over a whole history. -/
theorem askEach (h : g.Records answers) {requests : List Request} (hallowed : g.AllowsEach requests) :
    List.Forall₂ Request.IsFor requests (g.askEach requests).1 ∧
      (g.askEach requests).2.Records (answers ++ (g.askEach requests).1) := by
  induction requests generalizing g answers with
  | nil => exact ⟨.nil, by simpa [ClassGraph.askEach] using h⟩
  | cons r requests ih =>
      obtain ⟨hfor, hrecords⟩ := h.ask hallowed.1
      obtain ⟨hfors, hrecords⟩ := ih hrecords hallowed.2
      refine ⟨.cons hfor hfors, ?_⟩
      rw [List.append_assoc] at hrecords
      exact hrecords

/-! ### Asking again -/

/-- What a name stands for never changes. -/
theorem find?_later {g' : ClassGraph} {answers' : List Declaration} (h : g.Records answers)
    (h' : g'.Records (answers ++ answers')) {name : BinaryName} {c : Class}
    (hfind : g.find? name = some c) : g'.find? name = some c := by
  rw [h.find?_eq] at hfind
  rw [h'.find?_eq, classesIn, List.filterMap_append, List.find?_append]
  change ((classesIn answers).find? _).or _ = some c
  rw [hfind, Option.some_or]

/-- The class that was found or added under a name is what the name stands for from then on. -/
theorem find?_of_findOrAdd (h : g.Records answers) {requests : List Request}
    (hallowed : g.AllowsEach requests) {name : BinaryName} {superclass c : Class}
    (hasked : (Request.findOrAdd name superclass, ofClass c) ∈
      requests.zip (g.askEach requests).1) :
    (g.askEach requests).2.find? name = some c := by
  induction requests generalizing g answers with
  | nil => cases hasked
  | cons r requests ih =>
      have hnext := (h.ask hallowed.1).2
      rcases List.mem_cons.1 hasked with hfirst | hrest
      · obtain ⟨rfl, hanswer⟩ := Prod.mk.inj hfirst
        cases hanswer
        exact hnext.find?_later (hnext.askEach hallowed.2).2 (g.find?_findOrAdd name superclass)
      · exact ih hnext hallowed.2 hrest

/-- **A method that was answered before is answered again**, whatever other flags are asked for. -/
theorem addMethod_again (h : g.Records answers) {m : Method} (hm : m ∈ methodsIn answers)
    {name : UnqualifiedName} {descriptor : MethodDescriptor Class} {flags : MethodFlags}
    (hkey : m.key = (name, descriptor, flags.has MethodFlags.staticFlag)) :
    g.addMethod m.owner name descriptor flags = (m, g) := by
  have howner := (h.method_known m hm).1
  have hlisted := (h.mem_methods_iff howner).2 ⟨hm, rfl⟩
  rcases g.addMethod_cases m.owner name descriptor flags with
    ⟨k, hk, hkey', heq⟩ | ⟨k, rfl, hfresh, -⟩
  · have hone := List.inj_on_of_nodup_map (h.nodup_keys _ howner) hk hlisted (hkey'.trans hkey.symm)
    rw [heq, hone]
  · exact absurd hkey (hfresh m hlisted)

section AddMethod

variable {owner : Class} (howner : owner ∈ g.classes) (name : UnqualifiedName)
  (descriptor : MethodDescriptor Class) (flags : MethodFlags)

include howner

/-- A method is answered that was answered before, or else a new one with the flags asked for. -/
theorem addMethod_known_or_new (h : g.Records answers) :
    (∃ m ∈ methodsIn answers, m.owner = owner ∧
      m.key = (name, descriptor, flags.has MethodFlags.staticFlag) ∧
      g.addMethod owner name descriptor flags = (m, g)) ∨
    (g.addMethod owner name descriptor flags).1 ∉ methodsIn answers ∧
      (g.addMethod owner name descriptor flags).1.flags = flags := by
  rcases g.addMethod_cases owner name descriptor flags with
    ⟨m, hm, hkey, heq⟩ | ⟨m, rfl, -, heq⟩
  · obtain ⟨hm, hown⟩ := (h.mem_methods_iff howner).1 hm
    exact .inl ⟨m, hm, hown, hkey, heq⟩
  · rw [heq]
    exact .inr ⟨fun hmem => Nat.lt_irrefl _ (h.method_known _ hmem).2, rfl⟩

/-- **When a known method is answered.** -/
theorem addMethod_mem_iff (h : g.Records answers) :
    (g.addMethod owner name descriptor flags).1 ∈ methodsIn answers ↔
      ∃ m ∈ methodsIn answers, m.owner = owner ∧
        m.key = (name, descriptor, flags.has MethodFlags.staticFlag) := by
  constructor
  · intro hmem
    rcases h.addMethod_known_or_new howner name descriptor flags with
      ⟨m, hm, hown, hkey, -⟩ | ⟨hnew, -⟩
    · exact ⟨m, hm, hown, hkey⟩
    · exact absurd hmem hnew
  · rintro ⟨m, hm, rfl, hkey⟩
    rw [h.addMethod_again hm hkey]
    exact hm

/-- A new method has the flags asked for. -/
theorem flags_addMethod (h : g.Records answers)
    (hnew : (g.addMethod owner name descriptor flags).1 ∉ methodsIn answers) :
    (g.addMethod owner name descriptor flags).1.flags = flags := by
  rcases h.addMethod_known_or_new howner name descriptor flags with ⟨m, hm, -, -, heq⟩ | ⟨-, hflags⟩
  · rw [heq] at hnew
    exact absurd hm hnew
  · exact hflags

end AddMethod

end Records

/-! ### What a graph finds and lists -/

/-- **A class graph follows its history.** Whatever is asked of a graph that starts empty, with
members only for classes of the graph: the answers are what was asked for. A name is looked up to the
first class that was answered under it, then and ever after, and who finds or adds it once more gets
that class and changes nothing, whereas an added class is always a new one. Every class lists the
fields and the methods that were answered for it, in the order of their first answers, and no two
methods under one key. Asking for a method answers a known one if and only if one of its owner and its
key was answered before, which leaves the graph as it was; otherwise the method has the flags that
were asked for. -/
theorem graph_follows_history {earlier later : List Request} {answers answers' : List Declaration}
    {g g' : ClassGraph} (hearlier : empty.AllowsEach earlier)
    (hanswers : empty.askEach earlier = (answers, g)) (hlater : g.AllowsEach later)
    (hanswers' : g.askEach later = (answers', g')) :
    List.Forall₂ Request.IsFor earlier answers ∧
    (∀ name, g.find? name = (classesIn answers).find? fun c => c.name = name) ∧
    (∀ name c, g.find? name = some c → g'.find? name = some c) ∧
    (∀ name superclass c, (Request.findOrAdd name superclass, ofClass c) ∈ earlier.zip answers →
      ∀ other, g.findOrAdd name other = (c, g)) ∧
    (∀ name superclass flags, (g.addClass name superclass flags).1 ∉ classesIn answers) ∧
    (∀ c ∈ classesIn answers,
      g.fields c = ((fieldsIn answers).filter fun f => f.owner = c) ∧
      g.methods c = ((methodsIn answers).filter fun m => m.owner = c).eraseDups ∧
      ((g.methods c).map Method.key).Nodup) ∧
    (fieldsIn answers).Nodup ∧
    ∀ owner ∈ classesIn answers, ∀ name descriptor flags,
      ((g.addMethod owner name descriptor flags).1 ∈ methodsIn answers ↔
        ∃ m ∈ methodsIn answers, m.owner = owner ∧
          m.key = (name, descriptor, flags.has MethodFlags.staticFlag)) ∧
      (∀ m ∈ methodsIn answers, m.owner = owner →
        m.key = (name, descriptor, flags.has MethodFlags.staticFlag) →
        g.addMethod owner name descriptor flags = (m, g)) ∧
      ((g.addMethod owner name descriptor flags).1 ∉ methodsIn answers →
        (g.addMethod owner name descriptor flags).1.flags = flags) := by
  -- what is on record after the first requests is still on record after the later ones
  obtain ⟨hfor, hrecords⟩ := records_empty.askEach hearlier
  rw [hanswers, List.nil_append] at hrecords
  rw [hanswers] at hfor
  have hlast := (hrecords.askEach hlater).2
  rw [hanswers'] at hlast
  refine ⟨hfor, hrecords.find?_eq, fun name c => hrecords.find?_later hlast, ?_, ?_, ?_,
    hrecords.nodup_fields, ?_⟩
  · intro name superclass c hasked other
    have hasked : (Request.findOrAdd name superclass, ofClass c) ∈
        earlier.zip (empty.askEach earlier).1 := by rwa [hanswers]
    have hfind := records_empty.find?_of_findOrAdd hearlier hasked
    rw [hanswers] at hfind
    exact g.findOrAdd_of_find? hfind other
  · intro name superclass flags hmem
    exact hrecords.new_class_not_mem name flags (hrecords.mem_classes_iff.2 hmem)
  · intro c hc
    have hc := hrecords.mem_classes_iff.2 hc
    exact ⟨hrecords.fields_eq c hc, hrecords.methods_eq c hc, hrecords.nodup_keys c hc⟩
  · intro owner howner name descriptor flags
    have howner := hrecords.mem_classes_iff.2 howner
    refine ⟨hrecords.addMethod_mem_iff howner name descriptor flags, ?_,
      hrecords.flags_addMethod howner name descriptor flags⟩
    rintro m hm rfl hkey
    exact hrecords.addMethod_again hm hkey

/-- A class and one more class of its name. -/
def namesakeA (n : Nat) : Class := ⟨n, ⟨"me/example/A"⟩, ClassFlags.publicClass⟩

/-- The descriptor of a method that takes an instance of one of the two classes. -/
def takingNamesakeA (n : Nat) : MethodDescriptor Class := ⟨[.object (namesakeA n)], none⟩

/-- The class is found twice, on both sides of its namesake. It gets a field and a method, a method
that takes the namesake instead, the first method once more with another flag, and a static one. -/
def namesakeRequests : List Request :=
  [.addClass Java.object.name none ClassFlags.publicClass,
    .findOrAdd ⟨"me/example/A"⟩ Java.object,
    .addClass ⟨"me/example/A"⟩ (some Java.object) ClassFlags.publicClass,
    .findOrAdd ⟨"me/example/A"⟩ Java.object,
    .addField (namesakeA 1) ⟨"f"⟩ (.primitive .int) FieldFlags.publicFlag,
    .addMethod (namesakeA 1) ⟨"m"⟩ (takingNamesakeA 1) MethodFlags.publicFlag,
    .addMethod (namesakeA 1) ⟨"m"⟩ (takingNamesakeA 2) MethodFlags.publicFlag,
    .addMethod (namesakeA 1) ⟨"m"⟩ (takingNamesakeA 1) MethodFlags.privateFlag,
    .addMethod (namesakeA 1) ⟨"m"⟩ (takingNamesakeA 1) MethodFlags.staticFlag]

/-- Another class of the same name, and a member of the second one. -/
def laterRequests : List Request :=
  [.addClass ⟨"me/example/A"⟩ (some Java.object) ClassFlags.publicClass,
    .addField (namesakeA 2) ⟨"f"⟩ (.primitive .int) FieldFlags.publicFlag]

/-- The three methods of the class. -/
def namesakeMethods : List Method :=
  [⟨0, namesakeA 1, ⟨"m"⟩, takingNamesakeA 1, MethodFlags.publicFlag⟩,
    ⟨1, namesakeA 1, ⟨"m"⟩, takingNamesakeA 2, MethodFlags.publicFlag⟩,
    ⟨2, namesakeA 1, ⟨"m"⟩, takingNamesakeA 1, MethodFlags.staticFlag⟩]

/-- The name stays with the first of the two classes, and so do the methods; the first method keeps its
flag when it is asked for with another one. -/
theorem graph_follows_history_namesakes :
    ∃ answers g answers' g', empty.AllowsEach namesakeRequests ∧
      empty.askEach namesakeRequests = (answers, g) ∧ g.AllowsEach laterRequests ∧
      g.askEach laterRequests = (answers', g') ∧
      g.find? ⟨"me/example/A"⟩ = some (namesakeA 1) ∧
      g'.find? ⟨"me/example/A"⟩ = some (namesakeA 1) ∧
      g.findOrAdd ⟨"me/example/A"⟩ (namesakeA 2) = (namesakeA 1, g) ∧
      g.methods (namesakeA 1) = namesakeMethods ∧ g.methods (namesakeA 2) = [] ∧
      g.addMethod (namesakeA 1) ⟨"m"⟩ (takingNamesakeA 1) MethodFlags.privateFlag =
        (⟨0, namesakeA 1, ⟨"m"⟩, takingNamesakeA 1, MethodFlags.publicFlag⟩, g) := by
  have hearlier : empty.AllowsEach namesakeRequests := by
    refine ⟨trivial, trivial, trivial, trivial, ?_, ?_, ?_, ?_, ?_, trivial⟩
    all_goals exact .tail _ (.head _)
  have hlater : (empty.askEach namesakeRequests).2.AllowsEach laterRequests :=
    ⟨trivial, .tail _ (.tail _ (.head _)), trivial⟩
  have hfirst : namesakeA 1 ∈ classesIn (empty.askEach namesakeRequests).1 := .tail _ (.head _)
  have hsecond : namesakeA 2 ∈ classesIn (empty.askEach namesakeRequests).1 :=
    .tail _ (.tail _ (.head _))
  obtain ⟨-, hfind, hkept, hagain, -, hlisted, -, hknown⟩ :=
    graph_follows_history hearlier rfl hlater rfl
  have hname := hfind ⟨"me/example/A"⟩
  refine ⟨_, _, _, _, hearlier, rfl, hlater, rfl, hname, hkept _ _ hname, ?_, ?_, ?_, ?_⟩
  · exact hagain ⟨"me/example/A"⟩ Java.object (namesakeA 1) (.tail _ (.head _)) (namesakeA 2)
  · exact (hlisted _ hfirst).2.1.trans (by decide)
  · exact (hlisted _ hsecond).2.1.trans (by decide)
  · exact (hknown _ hfirst _ _ _).2.1 _ (.head _) rfl rfl

end ClassGraph

end JvmCodegen
