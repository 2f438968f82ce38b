/-
**Drafting a class.**

A draft turns method bodies, given as plans, into one class file.  A body is compiled when it is
handed in, except that of the type initializer: it has to come after the initializers of the
cached constants, which are only known when every other body has been compiled.

Main definitions:

* `Settings` — the name, the version and the names of cached constants of the class to write;
* `ClassDraft`, `ClassDraft.new` — the class that is being written;
* `ClassDraft.declare`, `ClassDraft.implement` — declaring a method, and giving it a body;
* `ClassDraft.finish` — the class file, with the type initializer added if one is needed;
* `GeneratedClass.path`, `GeneratedClass.save` — the place of the class file below the directory that
  holds the packages, and saving it there.
-/

import JvmCodegen.ClassModel
import JvmCodegen.OutputFile
import JvmCodegen.Stack.Arguments
import JvmCodegen.Stack.Emission

set_option relaxedAutoImplicit false
set_option autoImplicit false

namespace JvmCodegen

open Stack

/-! ### Settings -/

/-- What can be chosen about a class. -/
structure Settings where
  className : BinaryName
  version : Version
  /-- What the names of the fields of cached constants begin with. -/
  cachedNamePart : UnqualifiedName

namespace Settings

/-- The settings for a class of a name. -/
def new (className : String) : Except Error Settings :=
  match BinaryName.ofString? className with
  | .error fault => .error (.settings (.name fault))
  | .ok name => .ok ⟨name, Version.java8, ConstantCache.defaultNamePart⟩

/-- The settings for a release of the platform. -/
def withRelease (s : Settings) (release : UInt16) : Except Error Settings :=
  match Version.ofRelease? release with
  | none => .error (.settings (.unsupportedRelease release))
  | some version => .ok { s with version := version }

/-- The settings with another beginning of the names of cached constants. -/
def withCachedNamePart (s : Settings) (name : String) : Except Error Settings :=
  match UnqualifiedName.ofString? name with
  | .error fault => .error (.settings (.name fault))
  | .ok name => .ok { s with cachedNamePart := name }

end Settings

/-! ### Drafts -/

/-- A class that is being written. -/
structure ClassDraft where
  settings : Settings
  model : ClassModel
  constants : ConstantCache
  /-- The type initializer and its body, which are kept until the class is made. -/
  pending : Option (Method × Plan)

/-- A finished class. -/
structure GeneratedClass where
  name : BinaryName
  bytes : List UInt8

/-- The place of the class file, relative to the directory that holds the packages. -/
def GeneratedClass.path (t : GeneratedClass) : String := t.name.text ++ ".class"

/-- **Save a class** below the directory that holds the packages. The directories of its package are
created. -/
def GeneratedClass.save (t : GeneratedClass) (directory : String) : Except SaveFault OutputFile :=
  OutputFile.save (Path.join directory t.path) t.bytes true

namespace ClassDraft

/-- The draft of a new public class. Its name has to be new to the graph. -/
def new (settings : Settings) (graph : ClassGraph) : Except Error (ClassDraft × ClassGraph) :=
  match graph.find? settings.className with
  | some _ => .error (.settings (.classExists settings.className))
  | none =>
      let (declared, graph) :=
        graph.addClass settings.className (some Java.object) ClassFlags.publicClass
      let constants := ConstantCache.new declared settings.cachedNamePart
      .ok (⟨settings, ClassModel.new declared, constants, none⟩, graph)

/-- The class that is being written. -/
def declared (draft : ClassDraft) : Class := draft.model.declared

/-- Declare a method of the class. -/
def declare (draft : ClassDraft) (graph : ClassGraph) (name : UnqualifiedName)
    (descriptor : MethodDescriptor Class) (flags : MethodFlags) : Method × ClassGraph :=
  graph.addMethod draft.declared name descriptor flags

/-- The method already has a body. -/
def isImplemented (draft : ClassDraft) (method : Method) : Bool :=
  draft.model.methods.any (·.method == method)
    || (match draft.pending with | some (known, _) => known == method | none => false)

/-- The reason to refuse a body before it is looked into, if there is one. -/
def fault? (draft : ClassDraft) (method : Method) (body : Plan) : Option BodyFault :=
  if method.owner ≠ draft.declared then some (.foreign draft.declared)
  else if draft.isImplemented method then some .alreadyImplemented
  else if !body.isPossible then some .invalid
  else none

/-- The instruction loads a method handle. -/
def loadsMethodHandle : SymbolicInstruction → Bool
  | .ldc (.methodHandle _) => true
  | _ => false

/-- The method with its compiled body. The body has to leave the stack as it found it, and may load
method handles only if the version of the class knows them. -/
def compiled (settings : Settings) (code : BodyDraft) (effect : Effect) :
    Except Error MethodModel :=
  if effect.impact ≠ 0 then .error (.unbalanced code.method effect.impact)
  else if code.instructions.any loadsMethodHandle && !settings.version.knowsMethodHandles then
    .error (.body code.method (.methodHandle settings.version))
  else match code.finish effect.peak.toNat with
    | .error reason => .error (.classFile reason)
    | .ok body => .ok ⟨code.method, some body⟩

/-- The draft with one more compiled method, if it is fit to be written. -/
def addCompiled (draft : ClassDraft) (code : BodyDraft) (effect : Effect) :
    Except Error Unit × ClassDraft :=
  match compiled draft.settings code effect with
  | .error reason => (.error reason, draft)
  | .ok method => (.ok (), { draft with model := { draft.model with
      methods := draft.model.methods.push method } })

/-- **Give a method its body.** The body is compiled at once, unless the method is a type
initializer: that one waits, and takes the place of another that waits already. -/
def implement (draft : ClassDraft) (graph : ClassGraph) (method : Method) (body : Plan) :
    Except Error Unit × ClassDraft × ClassGraph :=
  match draft.fault? method body with
  | some fault => (.error (.body method fault), draft, graph)
  | none =>
      if method.isTypeInitializer then
        (.ok (), { draft with pending := some (method, body) }, graph)
      else
        let (outcome, emission) :=
          body.apply (⟨BodyDraft.new method, ⟨graph, draft.constants⟩⟩ : Emission BodyDraft)
        let draft := { draft with constants := emission.scope.constants }
        match outcome with
        | .error reason => (.error reason, draft, emission.scope.graph)
        | .ok effect =>
            let (outcome, draft) := draft.addCompiled emission.code effect
            (outcome, draft, emission.scope.graph)

/-! ### The type initializer -/

/-- Compute the cached constants from the `n`-th on into their fields, up to the last one that is
registered by then. Constants are looked up anew each time, because an initializer could register
more; `fuel` bounds how many are computed. -/
def initializeFrom (fuel n : Nat) (effect : Effect) (e : Emission BodyDraft) :
    Except Error Effect × Emission BodyDraft :=
  match fuel with
  | 0 => (.ok effect, e)
  | fuel + 1 =>
      match e.scope.constants.initializer? n with
      | none => (.ok effect, e)
      | some initializer =>
          match initializer.apply e with
          | (.error reason, e) => (.error reason, e)
          | (.ok step, e) => initializeFrom fuel (n + 1) (effect.andThen step) e

/-- The type initializer to write and its body: the one that waits, or else one that only returns,
or none if there is nothing to initialize. -/
def initializerToWrite (draft : ClassDraft) (graph : ClassGraph) :
    Option (Method × Plan) × ClassGraph :=
  match draft.pending with
  | some supplied => (some supplied, graph)
  | none =>
      if draft.constants.size = 0 then (none, graph)
      else
        let (method, graph) :=
          draft.declare graph UnqualifiedName.typeInitializer ⟨[], none⟩ MethodFlags.staticFlag
        (some (method, .op (.ret none)), graph)

/-- Compile a type initializer: the cached constants first, and then the body. The body is applied
beforehand, into an array of its own, so that the constants it caches are known. -/
def compileInitializer (draft : ClassDraft) (graph : ClassGraph) (method : Method)
    (body : Plan) : Except Error ClassDraft × ClassGraph :=
  match body.apply (⟨#[], ⟨graph, draft.constants⟩⟩ : Emission (Array SymbolicInstruction)) with
  | (.error reason, applied) => (.error reason, applied.scope.graph)
  | (.ok bodyEffect, applied) =>
      match initializeFrom applied.scope.constants.size 0 Effect.zero
          ⟨BodyDraft.new method, applied.scope⟩ with
      | (.error reason, e) => (.error reason, e.scope.graph)
      | (.ok effect, e) =>
          let code := applied.code.toList.foldl BodyDraft.append e.code
          match ({ draft with constants := e.scope.constants }).addCompiled code
              (effect.andThen bodyEffect) with
          | (.error reason, _) => (.error reason, e.scope.graph)
          | (.ok (), draft) => (.ok draft, e.scope.graph)

/-- The draft with its type initializer, if it needs one. -/
def withInitializer (draft : ClassDraft) (graph : ClassGraph) :
    Except Error ClassDraft × ClassGraph :=
  match draft.initializerToWrite graph with
  | (none, graph) => (.ok draft, graph)
  | (some (method, body), graph) => draft.compileInitializer graph method body

/-! ### The class file -/

/-- The class with the fields of its cached constants. -/
def finalModel (draft : ClassDraft) : ClassModel :=
  { draft.model with fields := draft.model.fields ++ draft.constants.fields }

/-- **Finish the class.** -/
def finish (draft : ClassDraft) (graph : ClassGraph) : Except Error GeneratedClass × ClassGraph :=
  match draft.withInitializer graph with
  | (.error reason, graph) => (.error reason, graph)
  | (.ok draft, graph) =>
      match draft.finalModel.encode graph draft.settings.version with
      | .error reason => (.error (.classFile reason), graph)
      | .ok bytes => (.ok ⟨draft.declared.name, bytes⟩, graph)

end ClassDraft

end JvmCodegen
