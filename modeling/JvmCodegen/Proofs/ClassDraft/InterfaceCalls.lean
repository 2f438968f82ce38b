/-
**The counts of interface invocations.**

An interface invocation says once more how many slots its arguments take, although the descriptor of the
method says so too.  The count is one byte.  A descriptor is meant to take at most 255 slots, and then the
count is what the invocation consumes; but no method is refused because its descriptor takes more, and of
such a number the count keeps the low eight bits only.

Main definitions:

* `Method.IsInterfaceCall` — the method is called through the interface that declares it;
* `Instruction.CountsSlots` — an interface invocation counts the slots of its arguments.

Main results:

* `Method.invokeKind_eq_interface_iff`, `Method.toNat_count_eq_iff` — when a count is given, and **when
  it is right**;
* `Stack.Operation.countsSlots`, `Stack.Plan.Emits.countsSlots` — all that operations and plans emit;
* `ClassDraft.Session.interface_calls_count_slots` — **the invocation of a method, its bytes, and all
  invocations of a finished class**;
* `ClassDraft.Session.count_of_long_parameter_list` — a count that is too small.
-/

import JvmCodegen.Proofs.ClassDraft.References

set_option relaxedAutoImplicit false
set_option autoImplicit false

namespace JvmCodegen

open Stack Stack.ConstantCache

/-! ### Methods of interfaces -/

namespace Method

variable {m : Method} {count : UInt8}

/-- The method is called through the interface that declares it: it is an instance method of one, and
not a private one. -/
structure IsInterfaceCall (m : Method) : Prop where
  isInterface : m.owner.isInterface = true
  isInstance : m.isStatic = false
  notConstructor : m.isConstructor = false
  notPrivate : m.flags.has MethodFlags.privateFlag = false

/-- **A count is given** to the methods that are called through an interface, and to no others. -/
theorem invokeKind_eq_interface_iff :
    m.invokeKind = .interface count ↔ m.IsInterfaceCall ∧ count = UInt8.ofNat m.argumentSlots := by
  unfold invokeKind argumentSlots
  constructor
  · intro h
    split at h
    · cases h
    rename_i hstatic
    split at h
    · cases h
    rename_i hdirect
    split at h
    · rename_i howner
      simp only [Bool.not_eq_true] at hstatic
      simp only [Bool.or_eq_true, not_or, Bool.not_eq_true] at hdirect
      cases h
      rw [hstatic]
      exact ⟨⟨howner, hstatic, hdirect.1, hdirect.2⟩, rfl⟩
    · cases h
  · rintro ⟨⟨howner, hstatic, hconstructor, hprivate⟩, rfl⟩
    simp [howner, hstatic, hconstructor, hprivate]

/-- **The count is right exactly if it has room for the slots.** -/
theorem toNat_count_eq_iff (m : Method) :
    (UInt8.ofNat m.argumentSlots).toNat = m.argumentSlots ↔ m.argumentSlots ≤ 255 := by
  rw [UInt8.toNat_ofNat']
  omega

/-- The slots of an instance method are those of its parameters, and one for the receiver. -/
theorem argumentSlots_of_isInstance (h : m.isStatic = false) :
    m.argumentSlots = 1 + (m.descriptor.parameters.map FieldType.slots).sum := by
  rw [argumentSlots, h]
  rfl

end Method

/-! ### What operations and plans emit -/

/-- An interface invocation is one of a method that is called through its interface, and its count is the
number of slots of the arguments, as far as one byte has room for it. -/
def Instruction.CountsSlots : SymbolicInstruction → Prop
  | .invoke (.interface count) m => m.IsInterfaceCall ∧ count = UInt8.ofNat m.argumentSlots
  | _ => True

/-- **In the bytes of an interface invocation** the count stands behind the index of the method, and a
zero behind the count. -/
theorem Instruction.exists_encode_of_resolve_interface {count : UInt8} {m : Method}
    {pool pool' : ConstantPool} {r : ResolvedInstruction}
    (h : Instruction.resolve (.invoke (.interface count) m) pool = (.ok r, pool')) :
    ∃ index : PoolIndex, r.encode = 0xB9 :: (index.encode ++ [count, 0]) := by
  rw [resolve] at h
  rcases hout : ConstantPool.method m pool with ⟨reason | index, pool₁⟩
  · rw [ConstantPool.bind_of_error hout] at h
    cases h
  · rw [ConstantPool.bind_of_ok hout] at h
    cases h
    exact ⟨index, rfl⟩

namespace Stack

open Instruction

/-- An invocation in the way that the method calls for counts its slots. -/
theorem countsSlots_invokeKind (m : Method) : CountsSlots (.invoke m.invokeKind m) := by
  cases hkind : m.invokeKind with
  | interface count => exact Method.invokeKind_eq_interface_iff.1 hkind
  | static | special | virtual => exact trivial

theorem ArrangesArray.countsSlots {i : SymbolicInstruction} (h : ArrangesArray i) :
    CountsSlots i := by
  cases h <;> exact trivial

theorem PushesNumber.countsSlots {type : Primitive} {i : SymbolicInstruction} (h : PushesNumber type i) :
    CountsSlots i := by
  cases h <;> exact trivial

/-- **The interface invocations that operations stand for** count their slots. -/
theorem Operation.countsSlots {o : Operation} (h : o.IsOffered) : CountsSlots o.instruction := by
  cases o with
  | int value => exact (pushesNumber_intInstruction value).countsSlots
  | long value => exact (pushesNumber_longInstruction value).countsSlots
  | float bits => exact (pushesNumber_floatInstruction bits).countsSlots
  | double bits => exact (pushesNumber_doubleInstruction bits).countsSlots
  | invoke kind m =>
      rcases h with rfl | rfl
      · exact countsSlots_invokeKind m
      · exact trivial
  | _ => exact trivial

/-- **The interface invocations that a plan emits** count their slots. -/
theorem Plan.Emits.countsSlots {plan : Plan} {c : ConstantCache} {i : SymbolicInstruction}
    (h : plan.Emits c i) (hplan : plan.IsOffered) : CountsSlots i := by
  cases h with
  | op ho => exact Operation.countsSlots (hplan _ (op_mem_subplans ho))
  | array hi => exact hi.countsSlots
  | cached hn hfind => exact trivial
  | classOf type =>
      refine Operation.countsSlots ?_
      rcases type with _ | p | r <;> exact trivial
  | text value => exact trivial
  | lookup method => exact trivial

end Stack

namespace ClassDraft.Session

variable {s : Session} {i : SymbolicInstruction} {c : ConstantCache}

theorem Writes.countsSlots (h : s.Writes c i) (hoffered : ∀ body ∈ s.bodies, body.IsOffered) :
    i.CountsSlots := by
  cases h with
  | emitted hplan hi => exact hi.countsSlots (hplan.isOffered hoffered)
  | store hf => exact trivial
  | ret => exact trivial

/-- **The counts of interface invocations.** Invoking a method that is called through its interface comes
to one instruction with a count, which stands behind the index of the method in the bytes; the
invocation consumes the slots of the receiver and of all parameters, and the count is that number exactly
if it is at most 255. The same is true of every interface invocation in the code of a class, whatever its
bodies are, as long as their invocations are put together as the library offers them. -/
theorem interface_calls_count_slots :
    (∀ m : Method, m.IsInterfaceCall → ∃ count : UInt8,
      (∀ {σ : Type} [CodeCollector σ] (e : Emission σ), (Plan.op (.invokeMethod m)).apply e =
        (.ok (Operation.invokeEffect m),
          ⟨CodeCollector.append e.code (.invoke (.interface count) m), e.scope⟩)) ∧
      (∀ (pool pool' : ConstantPool) (r : ResolvedInstruction),
        Instruction.resolve (.invoke (.interface count) m) pool = (.ok r, pool') →
        ∃ index : PoolIndex, r.encode = 0xB9 :: (index.encode ++ [count, 0])) ∧
      m.argumentSlots = 1 + (m.descriptor.parameters.map FieldType.slots).sum ∧
      (Operation.invokeEffect m).impact =
        (SlotCount.ofResult m.descriptor.returns).slots - (m.argumentSlots : Int) ∧
      (Instruction.slotEffect (.invoke (.interface count) m)).popped = m.argumentSlots ∧
      (count.toNat = m.argumentSlots ↔ m.argumentSlots ≤ 255)) ∧
    (∀ (settings : Settings) (graph₀ graph₁ graph : ClassGraph) (draft made : ClassDraft)
      (calls : List Call) (s : Session), ClassDraft.new settings graph₀ = .ok (draft, graph₁) →
      (start draft graph₁).run calls = s → (∀ body ∈ s.bodies, body.IsOffered) →
      s.draft.withInitializer s.graph = (.ok made, graph) →
      ∀ entry ∈ made.finalModel.methods, ∃ code, entry.body = some code ∧
        ∀ count m, .invoke (.interface count) m ∈ code.instructions →
          m.IsInterfaceCall ∧ (count.toNat = m.argumentSlots ↔ m.argumentSlots ≤ 255)) := by
  refine ⟨fun m hm => ?_, fun settings graph₀ graph₁ graph draft made calls s hnew hrun hoffered hmade
    entry hentry => ?_⟩
  · have hkind : m.invokeKind = .interface (UInt8.ofNat m.argumentSlots) :=
      Method.invokeKind_eq_interface_iff.2 ⟨hm, rfl⟩
    have hreceiver : m.argumentSlots = m.descriptor.parameterSlots true := by
      rw [Method.argumentSlots, hm.isInstance]
      rfl
    refine ⟨UInt8.ofNat m.argumentSlots, fun e => ?_, fun pool pool' r hr => ?_,
      Method.argumentSlots_of_isInstance hm.isInstance, rfl, hreceiver.symm, m.toNat_count_eq_iff⟩
    · rw [Operation.invokeMethod, hkind]
      rfl
    · exact Instruction.exists_encode_of_resolve_interface hr
  · have hinv : s.Invariant draft.declared settings := hrun ▸ (invariant_start hnew).run calls
    obtain ⟨-, hwrites⟩ := hinv.writes_made hmade
    obtain ⟨code, hcode, hcomes⟩ := hwrites entry hentry
    refine ⟨code, hcode, fun count m hmem => ?_⟩
    obtain ⟨hm, rfl⟩ := (hcomes _ hmem).countsSlots hoffered
    exact ⟨hm, m.toNat_count_eq_iff⟩

/-! ### A small interface -/

/-- The platform with a public interface that is called `I`. -/
def graphWithInterface : Class × ClassGraph :=
  ClassGraph.withJavaLibrary.addClass ⟨"I"⟩ (some Java.object)
    (ClassFlags.publicFlag ||| ClassFlags.interfaceFlag ||| ClassFlags.abstractFlag)

/-- A method of the interface that takes some values of one type, and returns nothing. -/
def interfaceMethod (n : Nat) (type : ValueType) : Method :=
  (graphWithInterface.2.addMethod graphWithInterface.1 ⟨"f"⟩ ⟨List.replicate n type, none⟩
    MethodFlags.publicFlag).1

theorem isInterfaceCall_interfaceMethod (n : Nat) (type : ValueType) :
    (interfaceMethod n type).IsInterfaceCall := by
  have heq : interfaceMethod n type = ⟨graphWithInterface.2.methodCount, graphWithInterface.1, ⟨"f"⟩,
      ⟨List.replicate n type, none⟩, MethodFlags.publicFlag⟩ := rfl
  have howner : graphWithInterface.1.isInterface = true := by decide
  have hstatic : MethodFlags.publicFlag.has MethodFlags.staticFlag = false := by decide
  have hprivate : MethodFlags.publicFlag.has MethodFlags.privateFlag = false := by decide
  rw [heq]
  exact ⟨howner, hstatic, rfl, hprivate⟩

/-- Call the method of the interface that takes nothing, on no object at all. -/
def callingBody : Plan :=
  .sequence [.op .null, .op (.invokeMethod (interfaceMethod 0 (.primitive .int))), .op (.ret none)]

/-- The type initializer is given the body. -/
def callingSession : Session := (start draftA graphA).run [.implement initializerA callingBody]

/-- A method with the greatest parameter list that is allowed, 127 long numbers, and a class that calls one
with the smallest. -/
theorem interface_calls_count_slots_longNumbers :
    (interfaceMethod 127 (.primitive .long)).IsInterfaceCall ∧
    (∃ count : UInt8,
      (∀ e : Emission (Array SymbolicInstruction),
        (Plan.op (.invokeMethod (interfaceMethod 127 (.primitive .long)))).apply e =
          (.ok (Operation.invokeEffect (interfaceMethod 127 (.primitive .long))),
            ⟨CodeCollector.append e.code
              (.invoke (.interface count) (interfaceMethod 127 (.primitive .long))), e.scope⟩)) ∧
      count.toNat = 255 ∧
      (Operation.invokeEffect (interfaceMethod 127 (.primitive .long))).impact = -255) ∧
    ∃ made graph, callingSession.draft.withInitializer callingSession.graph = (.ok made, graph) ∧
      ∀ entry ∈ made.finalModel.methods, ∃ code, entry.body = some code ∧
        ∀ count m, .invoke (.interface count) m ∈ code.instructions →
          (count.toNat = m.argumentSlots ↔ m.argumentSlots ≤ 255) := by
  obtain ⟨hcall, hclass⟩ := interface_calls_count_slots
  have hmethod := isInterfaceCall_interfaceMethod 127 (.primitive .long)
  have hslots : (interfaceMethod 127 (.primitive .long)).argumentSlots = 255 := by decide +kernel
  refine ⟨hmethod, ?_, ?_⟩
  · obtain ⟨count, happly, -, -, himpact, -, hcount⟩ := hcall _ hmethod
    rw [hslots] at himpact hcount
    exact ⟨count, fun e => happly e, hcount.2 (Nat.le_refl _), himpact⟩
  · have hnew : ClassDraft.new settingsA .empty = .ok (draftA, graphA) := rfl
    have hoffered : ∀ body ∈ callingSession.bodies, body.IsOffered := by
      intro body hbody o ho
      have hcases : o = .null ∨ o = .invokeMethod (interfaceMethod 0 (.primitive .int)) ∨
          o = .ret none := by
        have hbodies : callingSession.bodies = [callingBody] := by cbv
        rw [hbodies, List.mem_singleton] at hbody
        subst hbody
        simpa [callingBody, Plan.subplans, Plan.subplansEach] using ho
      rcases hcases with rfl | rfl | rfl
      · exact trivial
      · exact .inl rfl
      · exact trivial
    have hmade : (callingSession.draft.withInitializer callingSession.graph).1.toBool = true := by cbv
    rcases hout : callingSession.draft.withInitializer callingSession.graph with ⟨reason | made, graph⟩
    · rw [hout] at hmade
      cases hmade
    · refine ⟨made, graph, rfl, fun entry hentry => ?_⟩
      obtain ⟨code, hcode, hcounts⟩ :=
        hclass settingsA .empty graphA graph draftA made _ callingSession hnew rfl hoffered hout entry hentry
      exact ⟨code, hcode, fun count m hmem => (hcounts count m hmem).2⟩

/-- **A count that is too small**: the class graph takes a method of an interface with 255 parameters,
invoking it consumes 256 slots, and the count is zero. -/
theorem count_of_long_parameter_list :
    (interfaceMethod 255 (.primitive .int)).IsInterfaceCall ∧
      (interfaceMethod 255 (.primitive .int)).invokeKind = .interface 0 ∧
      (interfaceMethod 255 (.primitive .int)).argumentSlots = 256 ∧
      (Operation.invokeEffect (interfaceMethod 255 (.primitive .int))).impact = -256 := by
  have hslots : (interfaceMethod 255 (.primitive .int)).argumentSlots = 256 := by decide +kernel
  have hmethod := isInterfaceCall_interfaceMethod 255 (.primitive .int)
  refine ⟨hmethod, Method.invokeKind_eq_interface_iff.2 ⟨hmethod, ?_⟩, hslots, ?_⟩
  · rw [hslots]
    rfl
  · rw [Operation.invokeEffect, hslots]
    rfl

end ClassDraft.Session

end JvmCodegen
