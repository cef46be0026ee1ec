import RobotScript.CharClass.Alphabetic
import RobotScript.CharClass.Basic
import RobotScript.CharClass.Blank
import RobotScript.CharClass.Name
import RobotScript.CharClass.Numeric
import RobotScript.Diagnostic.Basic
import RobotScript.Diagnostic.Problem
import RobotScript.Execution.Basic
import RobotScript.Execution.Event
import RobotScript.Execution.Step
import RobotScript.Interpreter
import RobotScript.Json.Basic
import RobotScript.Json.Diagnostic
import RobotScript.Json.Execution
import RobotScript.Json.Form
import RobotScript.Json.Program
import RobotScript.Lesson
import RobotScript.Program.Basic
import RobotScript.Program.Parser
import RobotScript.Program.Tree
import RobotScript.Scope
import RobotScript.Source
import RobotScript.Span
import RobotScript.Token.Basic
import RobotScript.Token.Lexer
import RobotScript.Value
import RobotScript.Proofs.ArenaShape
import RobotScript.Proofs.Grammar
import RobotScript.Proofs.ParserCorrectness
import RobotScript.Proofs.FrameStack
import RobotScript.Proofs.TreeWalk
import RobotScript.Proofs.Course
import RobotScript.Proofs.WalkSimulation
import RobotScript.Proofs.GasLimit
import RobotScript.Proofs.Session
import RobotScript.Proofs.Lexemes
import RobotScript.Proofs.WrittenTokens
import RobotScript.Proofs.SourceRoundTrip
import RobotScript.Proofs.JsonRoundTrip
import RobotScript.Proofs.LifeCycle
import RobotScript.Proofs.Pausing
import RobotScript.Proofs.Concatenation
import RobotScript.Proofs.UnknownKeys
import RobotScript.Proofs.KeywordBoundaries
import RobotScript.Proofs.BraceMatching
import RobotScript.Proofs.BraceComplaints
import RobotScript.Proofs.ReportLimit
import RobotScript.Proofs.Exhaustion
import RobotScript.Proofs.GasCost
import RobotScript.Proofs.Termination
import RobotScript.Proofs.GasBound
import RobotScript.Proofs.NamePlaces
import RobotScript.Proofs.ComplaintOrder
import RobotScript.Proofs.QuotedLines
import RobotScript.Proofs.ConditionReading
import RobotScript.Proofs.FinalOutcomes
import RobotScript.Proofs.Relexing
import RobotScript.Proofs.SpanOrder
import RobotScript.Proofs.TreeSpans
import RobotScript.Proofs.LogReplay
import RobotScript.Proofs.ParserProgress
import RobotScript.Proofs.SpanMerging
