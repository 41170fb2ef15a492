import SnippetLint.Analysis.Result
import SnippetLint.Analysis.Snippet
import SnippetLint.Command.Arguments
import SnippetLint.Command.Check
import SnippetLint.Command.Run
import SnippetLint.Diagnostic
import SnippetLint.Files.Collect
import SnippetLint.Files.Tree
import SnippetLint.Glob.Match
import SnippetLint.Glob.Pattern
import SnippetLint.Json.Conversion
import SnippetLint.Json.Value
import SnippetLint.Language
import SnippetLint.Main
import SnippetLint.ParseTree.Basic
import SnippetLint.ParseTree.Issue
import SnippetLint.ParseTree.Outline
import SnippetLint.Pass.Brackets
import SnippetLint.Pass.CDialect
import SnippetLint.Pass.Semicolon
import SnippetLint.Pass.Smell
import SnippetLint.Pass.Spelling
import SnippetLint.Pass.UndefinedName
import SnippetLint.Proofs.Analysis.Checks
import SnippetLint.Proofs.Analysis.LineEnds
import SnippetLint.Proofs.Analysis.Pipeline
import SnippetLint.Proofs.Analysis.Result
import SnippetLint.Proofs.Analysis.SecondGrammar
import SnippetLint.Proofs.Analysis.Strictness
import SnippetLint.Proofs.Analysis.Validity
import SnippetLint.Proofs.Command.Check
import SnippetLint.Proofs.Command.Inputs
import SnippetLint.Proofs.Diagnostic.Repetition
import SnippetLint.Proofs.Files.Collected
import SnippetLint.Proofs.Files.Path
import SnippetLint.Proofs.Files.Walk
import SnippetLint.Proofs.Json.Arrangement
import SnippetLint.Proofs.Json.RoundTrip
import SnippetLint.Proofs.ParseTree.Comments
import SnippetLint.Proofs.ParseTree.Issues
import SnippetLint.Proofs.ParseTree.KeptNodes
import SnippetLint.Proofs.ParseTree.Nodes
import SnippetLint.Proofs.ParseTree.Outline
import SnippetLint.Proofs.ParseTree.Places
import SnippetLint.Proofs.ParseTree.Sites
import SnippetLint.Proofs.Pass.Blocks
import SnippetLint.Proofs.Pass.BracketRepair
import SnippetLint.Proofs.Pass.DeclaredNames
import SnippetLint.Proofs.Pass.IncludeGuard
import SnippetLint.Proofs.Pass.LateDeclarations
import SnippetLint.Proofs.Pass.LineComments
import SnippetLint.Proofs.Pass.LineEnds
import SnippetLint.Proofs.Pass.MainBody
import SnippetLint.Proofs.Pass.NewDeclaration
import SnippetLint.Proofs.Pass.Prototypes
import SnippetLint.Proofs.Pass.RealPosition
import SnippetLint.Proofs.Pass.ScriptSemicolonRepair
import SnippetLint.Proofs.Pass.SemicolonRepair
import SnippetLint.Proofs.Pass.WordReports
import SnippetLint.Proofs.Report.Summary
import SnippetLint.Proofs.Source.CodeWord
import SnippetLint.Proofs.Source.Continuation
import SnippetLint.Proofs.Source.Insertion
import SnippetLint.Proofs.Source.LineBreak
import SnippetLint.Proofs.Source.LineComment
import SnippetLint.Proofs.Source.LineEnds
import SnippetLint.Proofs.Source.Masking
import SnippetLint.Proofs.Source.PlainLine
import SnippetLint.Proofs.Source.Remasking
import SnippetLint.Proofs.Source.Token
import SnippetLint.Proofs.Source.Uncommented
import SnippetLint.Proofs.SyntaxTree.Counting
import SnippetLint.Proofs.Text.LineIndex
import SnippetLint.Proofs.Text.Lines
import SnippetLint.Proofs.Text.Offsets
import SnippetLint.Proofs.Text.PaddedSearch
import SnippetLint.Proofs.Text.Place
import SnippetLint.Proofs.Text.Readers
import SnippetLint.Proofs.Text.RealPosition
import SnippetLint.Proofs.Text.Runs
import SnippetLint.Proofs.Text.Trimming
import SnippetLint.Proofs.Text.WordRun
import SnippetLint.Proofs.TypeScript.CommentedCheck
import SnippetLint.Proofs.TypeScript.Comments
import SnippetLint.Proofs.TypeScript.Execution
import SnippetLint.Proofs.TypeScript.JumpFree
import SnippetLint.Proofs.TypeScript.JumpSearch
import SnippetLint.Proofs.TypeScript.Labels
import SnippetLint.Proofs.TypeScript.NestedFunctions
import SnippetLint.Proofs.TypeScript.NeverCompletes
import SnippetLint.Proofs.TypeScript.ParameterNames
import SnippetLint.Proofs.TypeScript.References
import SnippetLint.Proofs.TypeScript.ReturnPaths
import SnippetLint.Proofs.TypeScript.Sorting
import SnippetLint.Proofs.TypeScript.Strictness
import SnippetLint.Proofs.TypeScript.UnreadNames
import SnippetLint.Proofs.TypeScript.UntypedParameters
import SnippetLint.Report
import SnippetLint.Settings.Basic
import SnippetLint.Settings.Reader
import SnippetLint.Settings.Template
import SnippetLint.Source.Mask
import SnippetLint.SyntaxTree
import SnippetLint.Text.Identifier
import SnippetLint.Text.Position
import SnippetLint.Text.Quoted
import SnippetLint.Text.Search
import SnippetLint.Text.WordChar
import SnippetLint.TypeScript.Check
import SnippetLint.TypeScript.Completion
import SnippetLint.TypeScript.Finding
import SnippetLint.TypeScript.Parameter
import SnippetLint.Yaml.Document
import SnippetLint.Yaml.Node.Reader
import SnippetLint.Yaml.Scalar.Block
import SnippetLint.Yaml.Scalar.Plain
import SnippetLint.Yaml.Scalar.Quoted
import SnippetLint.Yaml.Spot
import SnippetLint.Yaml.Tag
import SnippetLint.Yaml.Token.Lexer
import SnippetLint.Proofs.Pass.Heads
