import Sugiru.Token
import Sugiru.Token.Lexer
import Sugiru.Syntax
import Sugiru.Syntax.Outline
import Sugiru.Syntax.Issue
import Sugiru.Syntax.Parser
import Sugiru.Value
import Sugiru.Store
import Sugiru.Eval.Fault
import Sugiru.Eval
import Sugiru.Text.Blank
import Sugiru.Text.Unicode
import Sugiru.Text.Template
import Sugiru.Chunk
import Sugiru.Report
import Sugiru.Session
import Sugiru.Shell
import Sugiru.Script
import Sugiru.Cli
import Sugiru.Main
import Sugiru.Proofs.Grammar
import Sugiru.Proofs.ParserSteps
import Sugiru.Proofs.ParserComplete
import Sugiru.Proofs.ParserSound
import Sugiru.Proofs.Precedence
import Sugiru.Proofs.Returns
import Sugiru.Proofs.Reference
import Sugiru.Proofs.Braces
import Sugiru.Proofs.Acceptance
import Sugiru.Proofs.Lexemes
import Sugiru.Proofs.WellFormed
import Sugiru.Proofs.RoundTrip
import Sugiru.Proofs.SessionLaws
import Sugiru.Proofs.Scopes
import Sugiru.Proofs.FrontEnds
import Sugiru.Proofs.Arithmetic
import Sugiru.Proofs.ScriptOutcome
import Sugiru.Proofs.ScopeWrites
import Sugiru.Proofs.ShellState
import Sugiru.Proofs.Templates
import Sugiru.Proofs.ChunkRuns
import Sugiru.Proofs.CallDepth
import Sugiru.Proofs.CommandLine
