import HookDispatch.DispatchLoop.Basic
import HookDispatch.DispatchLoop.OfProgram
import HookDispatch.DispatchLoop.Printer
import HookDispatch.DispatchLoop.Run
import HookDispatch.Error
import HookDispatch.Event
import HookDispatch.Expansion.Basic
import HookDispatch.Expansion.Description
import HookDispatch.Expansion.Error
import HookDispatch.Expansion.Options
import HookDispatch.Generation.Framework
import HookDispatch.Generation.Generator
import HookDispatch.Hooks.Collection
import HookDispatch.Hooks.Eligibility
import HookDispatch.Hooks.Registry
import HookDispatch.Machine.Behaviour
import HookDispatch.Machine.Body
import HookDispatch.Machine.Dispatcher
import HookDispatch.Machine.Frame
import HookDispatch.Machine.Run
import HookDispatch.Method.Basic
import HookDispatch.Method.Flags
import HookDispatch.Method.Signature
import HookDispatch.Object.Basic
import HookDispatch.Object.Value
import HookDispatch.Program.Basic
import HookDispatch.Program.Compile
import HookDispatch.Program.Emission
import HookDispatch.Program.Jump
import HookDispatch.Program.Label
import HookDispatch.Program.Operation
import HookDispatch.Sample.Plugins
import HookDispatch.Sample.Scenario
import HookDispatch.Sample.Script
import HookDispatch.Source.AttributeReader
import HookDispatch.Source.Comment
import HookDispatch.Source.Escape
import HookDispatch.Source.ExprReader
import HookDispatch.Source.GenericsReader
import HookDispatch.Source.Grammar
import HookDispatch.Source.ImplBlock
import HookDispatch.Source.ImplSource
import HookDispatch.Source.ItemReader
import HookDispatch.Source.Lexer
import HookDispatch.Source.Numeral
import HookDispatch.Source.PatternReader
import HookDispatch.Source.Precedence
import HookDispatch.Source.Reader
import HookDispatch.Source.SignatureReader
import HookDispatch.Source.SourceText
import HookDispatch.Source.StatementReader
import HookDispatch.Source.TokenTree
import HookDispatch.Source.TypeExpr
import HookDispatch.Source.TypeReader
import HookDispatch.Text.Blank
import HookDispatch.Text.Boundaries
import HookDispatch.Text.IdentChar
import HookDispatch.Text.Literal
import HookDispatch.Text.Printable
import HookDispatch.Text.Quoted
import HookDispatch.Text.Utf8
import HookDispatch.Text.WordChar
import HookDispatch.Trie.Basic
import HookDispatch.Trie.Edges
import HookDispatch.Trie.Node
import HookDispatch.Trie.NodeStore
import HookDispatch.Trie.OfRegistry
import HookDispatch.TypeName.Basic
import HookDispatch.TypeName.Canonical
import HookDispatch.TypeName.Piece
import HookDispatch.TypeName.Token
import HookDispatch.Proofs.Text.RoundTrip
import HookDispatch.Proofs.Trie.Growth
import HookDispatch.Proofs.Trie.Sound
import HookDispatch.Proofs.Trie.Aliases
import HookDispatch.Proofs.Trie.Lookup
import HookDispatch.Proofs.Program.Emitted
import HookDispatch.Proofs.Trie.SoleLeaf
import HookDispatch.Proofs.Program.Targets
import HookDispatch.Proofs.Program.Patching
import HookDispatch.Proofs.Program.Layout
import HookDispatch.Proofs.Program.Temporaries
import HookDispatch.Proofs.Program.WholeCall
import HookDispatch.Proofs.Machine.Trace
import HookDispatch.Proofs.Machine.Effects
import HookDispatch.Proofs.Machine.Scan
import HookDispatch.Proofs.Machine.Answer
import HookDispatch.Proofs.Machine.Binding
import HookDispatch.Proofs.Trie.Hooks
import HookDispatch.Proofs.Dispatch
import HookDispatch.Proofs.Collapse
import HookDispatch.Proofs.Specimen
import HookDispatch.Proofs.Machine.Cells
import HookDispatch.Proofs.Machine.Marshal
import HookDispatch.Proofs.CallEffect
import HookDispatch.Proofs.Program.Leaders
import HookDispatch.Proofs.DispatchLoop.Advance
import HookDispatch.Proofs.DispatchLoop.Arms
import HookDispatch.Proofs.DispatchLoop.Mirror
import HookDispatch.Proofs.DispatchLoop.Reading
import HookDispatch.Proofs.DispatchLoop.Storing
import HookDispatch.Proofs.DispatchLoop.Calling
import HookDispatch.Proofs.LoopDispatch
import HookDispatch.Proofs.Trie.Places
import HookDispatch.Proofs.Trie.Regular
import HookDispatch.Proofs.NodeArena
import HookDispatch.Proofs.KeyLanguage
import HookDispatch.Proofs.CompileOutcome
import HookDispatch.Proofs.Machine.Faithful
import HookDispatch.Proofs.Backends
import HookDispatch.Proofs.FirstWins
import HookDispatch.Proofs.Trie.Stored
import HookDispatch.Proofs.CanonicalTypes
import HookDispatch.Proofs.LoopFree
import HookDispatch.Proofs.OverloadKeys
import HookDispatch.Proofs.CallOrder
import HookDispatch.Proofs.Recompilation
import HookDispatch.Proofs.Resolution
import HookDispatch.Proofs.DeclarationOrder
import HookDispatch.Proofs.AddedMethod
import HookDispatch.Proofs.Installation
import HookDispatch.Proofs.FrameCells
import HookDispatch.Proofs.Program.Sites
import HookDispatch.Proofs.Machine.Stages
import HookDispatch.Proofs.Machine.Counters
import HookDispatch.Proofs.Cursor
import HookDispatch.Proofs.MatchingEffort
import HookDispatch.Proofs.JumpQueue
import HookDispatch.Proofs.CollectedHooks
import HookDispatch.Proofs.TypeName.Cuts
import HookDispatch.Proofs.TypeName.Printed
import HookDispatch.Proofs.Spacing
import HookDispatch.Proofs.TypeName.Slots
import HookDispatch.Proofs.Lifetimes
import HookDispatch.Proofs.NormalForm
import HookDispatch.Proofs.Storage
import HookDispatch.Proofs.TypeName.Endings
import HookDispatch.Proofs.ErasedObject
import HookDispatch.Proofs.DescribedMethods
import HookDispatch.Proofs.CatchAll
import HookDispatch.Proofs.Navigation
import HookDispatch.Proofs.WrittenBorrows
import HookDispatch.Proofs.DispatchLoop.Unboxing
import HookDispatch.Proofs.AnonymousTypes
import HookDispatch.Proofs.WrittenTypes
import HookDispatch.Proofs.StraightBlocks
import HookDispatch.Proofs.SoleTerminal
import HookDispatch.Proofs.StoredTrie
import HookDispatch.Proofs.OwnTemporaries
