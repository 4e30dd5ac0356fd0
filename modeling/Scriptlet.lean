import Scriptlet.Parse.Cursor
import Scriptlet.Tree.Alike
import Scriptlet.Main
import Scriptlet.Proofs.Parse.Acceptance
import Scriptlet.Proofs.Session.Safety
import Scriptlet.Proofs.Parse.Calls
import Scriptlet.Proofs.Lexer.MaximalMunch
import Scriptlet.Proofs.Lexer.WrittenOut
import Scriptlet.Proofs.Lexer.Lines
import Scriptlet.Proofs.Run.ScopeDiscipline
import Scriptlet.Proofs.Run.ForLoop
import Scriptlet.Proofs.Session.Pieces
import Scriptlet.Proofs.Session.Steps
import Scriptlet.Proofs.Tree.Likeness
import Scriptlet.Proofs.Run.Renaming
import Scriptlet.Proofs.Run.Independence
import Scriptlet.Proofs.Parse.Likeness
import Scriptlet.Proofs.Session.Layout
import Scriptlet.Proofs.Session.Lines
import Scriptlet.Proofs.Session.Dumps
import Scriptlet.Proofs.Parse.Complaints
import Scriptlet.Proofs.Parse.Damage
import Scriptlet.Proofs.Session.Places
import Scriptlet.Proofs.Report.Codes
import Scriptlet.Proofs.Session.Colors
import Scriptlet.Proofs.Command.FileMode
import Scriptlet.Proofs.Parse.Resumption
import Scriptlet.Proofs.Parse.LaterText
import Scriptlet.Proofs.Run.Context
import Scriptlet.Proofs.Run.Shadowing
import Scriptlet.Proofs.Run.Resolution
import Scriptlet.Proofs.Grammar.Gaps
import Scriptlet.Proofs.Grammar.Spans
import Scriptlet.Proofs.Parse.Parenthesised
import Scriptlet.Proofs.Run.Causes
import Scriptlet.Proofs.Session.Files
import Scriptlet.Proofs.Session.DumpsReadBack
import Scriptlet.Proofs.Number.Doubles
import Scriptlet.Proofs.Number.Rounding
import Scriptlet.Proofs.Lexer.NumberLiterals
import Scriptlet.Proofs.Lexer.PrintedNumbers
import Scriptlet.Proofs.Lexer.AnyUse
import Scriptlet.Proofs.Tree.Outline
import Scriptlet.Proofs.Parse.KindsDecide
