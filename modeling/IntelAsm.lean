import IntelAsm.Main
import IntelAsm.Proofs.Emission.Runs
import IntelAsm.Proofs.Expression.Descent
import IntelAsm.Proofs.Expression.Stacks
import IntelAsm.Proofs.FrontEnd
import IntelAsm.Proofs.Grammar.Completeness
import IntelAsm.Proofs.Grammar.Line
import IntelAsm.Proofs.Grammar.Rules
import IntelAsm.Proofs.Grammar.Soundness
import IntelAsm.Proofs.Grammar.ValidPrefix
import IntelAsm.Proofs.Grammar.Viable
import IntelAsm.Proofs.Lexer.Faults
import IntelAsm.Proofs.Lexer.LetterCase
import IntelAsm.Proofs.Lexer.Lexeme
import IntelAsm.Proofs.Lexer.Lines
import IntelAsm.Proofs.Lexer.Partition
import IntelAsm.Proofs.Lexer.Place
import IntelAsm.Proofs.Lexer.Scan
import IntelAsm.Proofs.Numeral.Exact
import IntelAsm.Proofs.Numeral.Reading
import IntelAsm.Proofs.Parser.EndMarker
import IntelAsm.Proofs.Parser.Item
import IntelAsm.Proofs.Parser.LabelPlaces
import IntelAsm.Proofs.Parser.Labels
import IntelAsm.Proofs.Parser.Lines
import IntelAsm.Proofs.Parser.Lockstep
import IntelAsm.Proofs.Parser.Origin
import IntelAsm.Proofs.Parser.WellFormed
import IntelAsm.Proofs.Respelling.Basic
import IntelAsm.Proofs.Respelling.LetterCase
import IntelAsm.Proofs.Respelling.Operand
import IntelAsm.Proofs.Respelling.Program
import IntelAsm.Proofs.RoundTrip.Canonical
import IntelAsm.Proofs.RoundTrip.Lines
import IntelAsm.Proofs.RoundTrip.Losses
import IntelAsm.Proofs.RoundTrip.ParsePrint
import IntelAsm.Proofs.RoundTrip.Parsed
import IntelAsm.Proofs.RoundTrip.Reading
import IntelAsm.Proofs.RoundTrip.Source
import IntelAsm.Proofs.RoundTrip.Words
import IntelAsm.Proofs.Text.Case
import IntelAsm.Proofs.Text.LetterCase
import IntelAsm.Proofs.Layout
import IntelAsm.Proofs.Json.Grammar
import IntelAsm.Proofs.LineEnds
import IntelAsm.Proofs.Json.Writing
import IntelAsm.Proofs.Json.Trees
import IntelAsm.Proofs.CommandLine.Directory
import IntelAsm.Proofs.CommandLine.Messages
import IntelAsm.Proofs.Rendering
import IntelAsm.Proofs.Rendering.Lines
import IntelAsm.Proofs.Rendering.Quotes
import IntelAsm.Proofs.CommandLine.Run
import IntelAsm.Proofs.Address.Denotation
import IntelAsm.Proofs.Places.Source
import IntelAsm.Proofs.Lexer.Speculation
import IntelAsm.Proofs.Lexer.Consistency
import IntelAsm.Proofs.Parser.Calls
import IntelAsm.Proofs.Tree.Equality
import IntelAsm.Proofs.Lexer.LeadIn
import IntelAsm.Proofs.Emission.Causes
