import ScriptCore.Analysis.Globals
import ScriptCore.Analysis.Variables
import ScriptCore.Builtin.Callee
import ScriptCore.Builtin.FastFunction
import ScriptCore.Bytecode.Instruction
import ScriptCore.Compile.Lowering
import ScriptCore.Compile.Options
import ScriptCore.Compile.Toml
import ScriptCore.Heap.Arena
import ScriptCore.Heap.Basic
import ScriptCore.Heap.Collector
import ScriptCore.Heap.Env
import ScriptCore.Heap.Table
import ScriptCore.Library.Base64
import ScriptCore.Library.Bit32
import ScriptCore.Library.Standard
import ScriptCore.Machine.Call
import ScriptCore.Machine.Closure
import ScriptCore.Machine.Error
import ScriptCore.Machine.Operators
import ScriptCore.Machine.Program
import ScriptCore.Machine.Registry
import ScriptCore.Machine.Run
import ScriptCore.Machine.Slots
import ScriptCore.Machine.Stack
import ScriptCore.Machine.State
import ScriptCore.Numeral.Binary64
import ScriptCore.Numeral.Reading
import ScriptCore.Numeral.Shortest
import ScriptCore.Proofs.Binding
import ScriptCore.Proofs.Denotation
import ScriptCore.Proofs.Emission
import ScriptCore.Proofs.FastPathOverlay
import ScriptCore.Proofs.ParsedNames
import ScriptCore.Proofs.Placement
import ScriptCore.Proofs.Renaming
import ScriptCore.Proofs.Scoping
import ScriptCore.Proofs.Tracking
import ScriptCore.Proofs.Traversal
import ScriptCore.Source.Lexer
import ScriptCore.Source.Node
import ScriptCore.Source.Outline
import ScriptCore.Source.ParseError
import ScriptCore.Source.Parser
import ScriptCore.Source.Position
import ScriptCore.Source.Scope
import ScriptCore.Source.Token
import ScriptCore.Source.Tree
import ScriptCore.Text.Blank
import ScriptCore.Text.Utf8
import ScriptCore.Value
import ScriptCore.Proofs.Renaming
import ScriptCore.Proofs.ParsedNames
import ScriptCore.Proofs.Tracking
import ScriptCore.Proofs.Collection
import ScriptCore.Proofs.Interning
import ScriptCore.Proofs.Isolation
import ScriptCore.Proofs.Entries
import ScriptCore.Proofs.HandleSafety
import ScriptCore.Proofs.SafeActions
import ScriptCore.Proofs.SafeCalls
import ScriptCore.Proofs.SafeRuns
import ScriptCore.Proofs.ErrorBoundaries
import ScriptCore.Proofs.OperatorForms
import ScriptCore.Proofs.Correspondence
import ScriptCore.Proofs.CorrespondingActions
import ScriptCore.Proofs.CorrespondingCalls
import ScriptCore.Proofs.CorrespondingCollections
import ScriptCore.Proofs.CorrespondingOperators
import ScriptCore.Proofs.InvisibleCollections
import ScriptCore.Proofs.Contents
import ScriptCore.Proofs.FaithfulParsing
import ScriptCore.Proofs.PrintedPrograms
import ScriptCore.Proofs.PrintedTokens
import ScriptCore.Proofs.Base64Calls
import ScriptCore.Proofs.Base64Library
import ScriptCore.Proofs.Addresses
import ScriptCore.Proofs.CompiledCalls
import ScriptCore.Proofs.CompilerReuse
import ScriptCore.Proofs.Base64Decoding
import ScriptCore.Proofs.Base64RoundTrip
import ScriptCore.Proofs.EnvironmentFrames
import ScriptCore.Proofs.EnvironmentRuns
import ScriptCore.Proofs.AddressedWalks
import ScriptCore.Proofs.CallLayout
import ScriptCore.Proofs.CallRegisters
import ScriptCore.Proofs.OpenCalls
import ScriptCore.Proofs.ParserLevels
import ScriptCore.Proofs.Precedence
import ScriptCore.Proofs.LibraryTables
import ScriptCore.Proofs.LibraryPaths
import ScriptCore.Proofs.LibraryRuns
import ScriptCore.Proofs.TreeParts
import ScriptCore.Proofs.GlobalStates
import ScriptCore.Proofs.LocalFacts
import ScriptCore.Proofs.AliasChains
import ScriptCore.Proofs.ReturnedResults
import ScriptCore.Proofs.OperatorEffects
import ScriptCore.Proofs.StackLimits
import ScriptCore.Proofs.OperatorDispatch
import ScriptCore.Proofs.HeapRuns
import ScriptCore.Proofs.StringOrder
import ScriptCore.Proofs.NumeralTexts
import ScriptCore.Proofs.NameConflicts
import ScriptCore.Proofs.RecordedTables
import ScriptCore.Proofs.LibraryOpenings
import ScriptCore.Proofs.StandardLibraries
import ScriptCore.Proofs.BuiltinNames
import ScriptCore.Proofs.TableWrites
import ScriptCore.Proofs.SourceTiling
import ScriptCore.Proofs.SinglePass
import ScriptCore.Proofs.PassRuns
import ScriptCore.Proofs.PassExpressions
import ScriptCore.Proofs.PassStatements
import ScriptCore.Proofs.FrontEnd
import ScriptCore.Proofs.Shifts
import ScriptCore.Proofs.BinaryValues
import ScriptCore.Proofs.RoundedSums
import ScriptCore.Proofs.UnsignedOperands
import ScriptCore.Proofs.LiteralNumbers
import ScriptCore.Proofs.LocalDeclarations
import ScriptCore.Proofs.IndexReuse
import ScriptCore.Proofs.Boxing
import ScriptCore.Proofs.TableBorders
import ScriptCore.Proofs.EventNames
