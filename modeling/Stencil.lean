import Stencil.Text.Blank
import Stencil.Text.Search
import Stencil.Text.Position
import Stencil.Text.Alphabetic
import Stencil.Text.Numeric
import Stencil.Assoc
import Stencil.Double
import Stencil.Decimal.Notation
import Stencil.Value.Basic
import Stencil.Value.Text
import Stencil.Html
import Stencil.Address
import Stencil.Scope
import Stencil.Markup.Tag
import Stencil.Markup.Tree
import Stencil.Formula.Token
import Stencil.Formula.Parse
import Stencil.Formula.Meaning
import Stencil.Engine
import Stencil.Script.Step
import Stencil.Script.Run
import Stencil.Store.Memory
import Stencil.Store.Disk
import Stencil.Assembly.Compiler
import Stencil.Proofs.ResolvedAddress
import Stencil.Proofs.JobContract
import Stencil.Proofs.Confinement
import Stencil.Proofs.Cycles
import Stencil.Proofs.Coalescing
import Stencil.Proofs.Interpreter
import Stencil.Proofs.Meaning
import Stencil.Proofs.Printer
import Stencil.Proofs.Cutting
import Stencil.Proofs.PrintedTags
import Stencil.Proofs.PrintedArguments
import Stencil.Proofs.RoundTrip
import Stencil.Proofs.Grammar
import Stencil.Proofs.PrecedenceClimbing
import Stencil.Proofs.TokenDepth
import Stencil.Proofs.TreeDepth
import Stencil.Proofs.TemplateGrammar
import Stencil.Proofs.TagMeaning
import Stencil.Proofs.TemplateParsing
import Stencil.Proofs.Compilable
import Stencil.Proofs.RunContract
import Stencil.Proofs.Undisturbed
import Stencil.Proofs.Hermetic
import Stencil.Proofs.EscapedOutput
import Stencil.Proofs.Uncached
import Stencil.Proofs.LoadedOnce
import Stencil.Proofs.IncludeBase
import Stencil.Proofs.GuardedText
import Stencil.Proofs.Renumbering
import Stencil.Proofs.Moments
import Stencil.Proofs.TableEntries
import Stencil.Proofs.NamedBindings
import Stencil.Proofs.Shifted
import Stencil.Proofs.Modularity
import Stencil.Proofs.FaultyTemplate
import Stencil.Proofs.LastDefinition
import Stencil.Proofs.LoadedOnly
import Stencil.Proofs.SortedNames
import Stencil.Proofs.DirectoryTree
import Stencil.Proofs.DiskAndMemory
import Stencil.Proofs.ListedTemplates
import Stencil.Proofs.Descent
import Stencil.Proofs.Slices
import Stencil.Proofs.SlicedTags
import Stencil.Proofs.SlicedArguments
import Stencil.Proofs.SlicedParser
import Stencil.Proofs.LocatedFaults
import Stencil.Proofs.SlicedTokens
import Stencil.Proofs.ClampedWalk
import Stencil.Proofs.MergedSteps
import Stencil.Proofs.VerbatimSections
import Stencil.Proofs.NextToken
import Stencil.Proofs.OffendingToken
import Stencil.Proofs.Delimiters
import Stencil.Proofs.BlankOutput
import Stencil.Proofs.ExpressionSources
import Stencil.Proofs.WrittenArguments
import Stencil.Proofs.WrittenTokens
import Stencil.Proofs.WholeDoubles
import Stencil.Proofs.WholeArithmetic
import Stencil.Proofs.ExactValue
import Stencil.Proofs.IntegerText
import Stencil.Proofs.ScopeHistory
import Stencil.Proofs.Entities
import Stencil.Proofs.LineAndColumn
import Stencil.Proofs.NormalTrees
import Stencil.Proofs.OpenScopes
import Stencil.Proofs.CollectedNodes
