import JvmCodegen.AccessFlags
import JvmCodegen.Bytes
import JvmCodegen.ClassDraft
import JvmCodegen.ClassFile
import JvmCodegen.ClassGraph
import JvmCodegen.ClassGraph.JavaLibrary
import JvmCodegen.ClassGraph.Subtyping
import JvmCodegen.ClassModel
import JvmCodegen.CommandLine
import JvmCodegen.CommandLine.Arguments
import JvmCodegen.CommandLine.Value
import JvmCodegen.Constant
import JvmCodegen.ConstantPool
import JvmCodegen.Error
import JvmCodegen.FieldType
import JvmCodegen.FieldType.Parser
import JvmCodegen.Float.Format
import JvmCodegen.Float.Reader
import JvmCodegen.Float.Shortest
import JvmCodegen.Instruction
import JvmCodegen.Instruction.Encoding
import JvmCodegen.Instruction.Title
import JvmCodegen.Literal
import JvmCodegen.Main
import JvmCodegen.Member
import JvmCodegen.MethodBody
import JvmCodegen.Name
import JvmCodegen.OffsetList
import JvmCodegen.OutputFile
import JvmCodegen.Primitive
import JvmCodegen.Proofs.Bytes
import JvmCodegen.Proofs.Bytes.Reader
import JvmCodegen.Proofs.ClassDraft.Acceptance
import JvmCodegen.Proofs.ClassDraft.Balance
import JvmCodegen.Proofs.ClassDraft.FieldNames
import JvmCodegen.Proofs.ClassDraft.Frames
import JvmCodegen.Proofs.ClassDraft.InterfaceCalls
import JvmCodegen.Proofs.ClassDraft.MethodHandles
import JvmCodegen.Proofs.ClassDraft.MethodTable
import JvmCodegen.Proofs.ClassDraft.Refusal
import JvmCodegen.Proofs.ClassDraft.Session
import JvmCodegen.Proofs.ClassDraft.TypeInitializer
import JvmCodegen.Proofs.ClassFile.Decoding
import JvmCodegen.Proofs.ClassGraph.History
import JvmCodegen.Proofs.ClassGraph.Methods
import JvmCodegen.Proofs.ClassGraph.Subtyping
import JvmCodegen.Proofs.ClassModel.Building
import JvmCodegen.Proofs.ClassModel.Decodable
import JvmCodegen.Proofs.ClassModel.MethodCode
import JvmCodegen.Proofs.CommandLine.Generation
import JvmCodegen.Proofs.CommandLine.Values
import JvmCodegen.Proofs.ConstantPool
import JvmCodegen.Proofs.ConstantPool.Growth
import JvmCodegen.Proofs.ConstantPool.Layout
import JvmCodegen.Proofs.ConstantPool.Requests
import JvmCodegen.Proofs.FieldType.Descriptor
import JvmCodegen.Proofs.FieldType.MethodDescriptor
import JvmCodegen.Proofs.Instruction.Decoding
import JvmCodegen.Proofs.Name
import JvmCodegen.Proofs.OffsetList
import JvmCodegen.Proofs.OutputFile
import JvmCodegen.Proofs.Stack.Accounting
import JvmCodegen.Proofs.Stack.Applicability
import JvmCodegen.Proofs.Stack.ArgumentLoading
import JvmCodegen.Proofs.Stack.ArrayFilling
import JvmCodegen.Proofs.Stack.Bridging
import JvmCodegen.Proofs.Stack.CacheFields
import JvmCodegen.Proofs.Stack.Caching
import JvmCodegen.Proofs.Stack.ConstantSearch
import JvmCodegen.Proofs.Stack.Conversion
import JvmCodegen.Proofs.Stack.Counting
import JvmCodegen.Proofs.Stack.DynamicTyping
import JvmCodegen.Proofs.Stack.Emitted
import JvmCodegen.Proofs.Stack.Flattening
import JvmCodegen.Proofs.Stack.Height
import JvmCodegen.Proofs.Stack.Initialization
import JvmCodegen.Proofs.Stack.Nesting
import JvmCodegen.Proofs.Stack.NumberInstructions
import JvmCodegen.Proofs.Stack.NumericConstants
import JvmCodegen.Proofs.Stack.Reapplication
import JvmCodegen.Proofs.Stack.RegistrationOrder
import JvmCodegen.Proofs.Stack.Sharing
import JvmCodegen.Proofs.Stack.Underflow
import JvmCodegen.Proofs.Stack.ValueMachine
import JvmCodegen.Proofs.Text.ModifiedUtf8
import JvmCodegen.Report
import JvmCodegen.Stack.Arguments
import JvmCodegen.Stack.ConstantCache
import JvmCodegen.Stack.Conversion
import JvmCodegen.Stack.Effect
import JvmCodegen.Stack.Emission
import JvmCodegen.Stack.Operation
import JvmCodegen.Stack.Plan
import JvmCodegen.Stack.Size
import JvmCodegen.Text.ModifiedUtf8
import JvmCodegen.Text.Numeral
import JvmCodegen.Text.Printable
import JvmCodegen.Text.Quoted
import JvmCodegen.ValueKind
import JvmCodegen.Version
