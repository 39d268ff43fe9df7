import CallProbe.Fault
import CallProbe.Ancestry.Hierarchy
import CallProbe.Bytes.BigEndian
import CallProbe.Bytes.Cursor
import CallProbe.Catalog.Candidate
import CallProbe.Catalog.Provider
import CallProbe.Catalog.Registry
import CallProbe.Catalog.Standard
import CallProbe.Instruction.Basic
import CallProbe.Instruction.Decode
import CallProbe.Instruction.Emission
import CallProbe.MethodBody.Codec
import CallProbe.MethodBody.Relocation
import CallProbe.Pool.Codec
import CallProbe.Ancestry.Standard
import CallProbe.CallSite.Position
import CallProbe.CallSite.Selection
import CallProbe.CallSite.Weaving
import CallProbe.Objective.Store
import CallProbe.Instrumentation.Access
import CallProbe.Instrumentation.Class
import CallProbe.Proofs.Bytes.Discipline
import CallProbe.Proofs.Bytes.Passage
import CallProbe.Proofs.Bytes.Pattern
import CallProbe.Proofs.CallSite.Folding
import CallProbe.Proofs.CallSite.Selection
import CallProbe.Proofs.CallSite.Templates
import CallProbe.Proofs.CallSite.Weaving
import CallProbe.Proofs.Catalog.Lookup
import CallProbe.Proofs.Instruction.Faults
import CallProbe.Proofs.Instruction.Form
import CallProbe.Proofs.Instruction.Growing
import CallProbe.Proofs.Instruction.Placement
import CallProbe.Proofs.Instruction.ReadBack
import CallProbe.Proofs.Instruction.Reading
import CallProbe.Proofs.Instruction.RoundTrip
import CallProbe.Proofs.Instruction.Tiling
import CallProbe.Proofs.Instruction.Writing
import CallProbe.Proofs.Instrumentation.Limits
import CallProbe.Proofs.Instrumentation.Simulation
import CallProbe.Proofs.Instrumentation.Untouched
import CallProbe.Proofs.MethodBody.Covering
import CallProbe.Proofs.MethodBody.Growth
import CallProbe.Proofs.MethodBody.Moving
import CallProbe.Proofs.MethodBody.Relaying
import CallProbe.Proofs.MethodBody.Storage
import CallProbe.Proofs.Objective.Identifier
import CallProbe.Proofs.Objective.Registration
import CallProbe.Proofs.Outcome
import CallProbe.Proofs.Pool.Growth
import CallProbe.Proofs.Pool.Symbols
import CallProbe.Proofs.StackMap.Growth
import CallProbe.Proofs.StackMap.Moving
import CallProbe.Proofs.StackMap.Storage
import CallProbe.Proofs.Pool.Storage
import CallProbe.Proofs.Pool.Representation
import CallProbe.Proofs.MethodBody.Compaction
import CallProbe.Proofs.MethodBody.Ranges
import CallProbe.Proofs.Instrumentation.Ranges
import CallProbe.Proofs.StackMap.Relocated
import CallProbe.Proofs.Instrumentation.Sequence
import CallProbe.Proofs.Instrumentation.SourceLines
import CallProbe.Proofs.Instrumentation.Idempotence
import CallProbe.Proofs.Objective.History
import CallProbe.Proofs.Instrumentation.Neighbours
import CallProbe.Proofs.CallSite.Interleaving
import CallProbe.Proofs.Descriptor.Grammar
import CallProbe.Proofs.Catalog.Balance
import CallProbe.Proofs.CallSite.OperandStack
import CallProbe.Proofs.Text.ShortestForm
import CallProbe.Proofs.Ancestry.Assignability
import CallProbe.Proofs.Ancestry.Distance
import CallProbe.Proofs.MethodBody.Relocated
import CallProbe.Proofs.Instruction.Labelling
import CallProbe.Proofs.Instruction.Representable
import CallProbe.Proofs.Pool.Recall
import CallProbe.Proofs.CallSite.Repetition
import CallProbe.Proofs.Instruction.Reencoding
import CallProbe.Proofs.Objective.Order
import CallProbe.Proofs.Instruction.Passes
import CallProbe.Proofs.CallSite.Muting
