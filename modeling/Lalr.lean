import Lalr.Parser.Basic
import Lalr.Table.Build
import Lalr.Table.Report
import Lalr.Tree.Semantics
import Lalr.Template.Eval
import Lalr.Proofs.Parser.Completeness
import Lalr.Proofs.Parser.Prefix
import Lalr.Proofs.Parser.Calls
import Lalr.Proofs.Table.Resolution
import Lalr.Proofs.Operators.Expression
import Lalr.Proofs.Operators.Grammar
import Lalr.Proofs.Operators.Layout
import Lalr.Proofs.Operators.Cells
import Lalr.Proofs.Operators.Parsing
import Lalr.Proofs.Operators.RoundTrip
import Lalr.Proofs.Parser.Isolation
import Lalr.Proofs.Parser.Places
import Lalr.Proofs.Parser.Acceptance
import Lalr.Proofs.Parser.Requests
import Lalr.Proofs.Grammar.First
import Lalr.Proofs.Automaton.Canonical
import Lalr.Proofs.Grammar.Alike
import Lalr.Proofs.Grammar.Fallbacks
import Lalr.Proofs.Table.Alike
import Lalr.Proofs.Table.Fallbacks
import Lalr.Proofs.Table.Precedence
import Lalr.Proofs.Parser.Alike
import Lalr.Proofs.Parser.Fallbacks
import Lalr.Proofs.Parser.Precedence
import Lalr.Proofs.Parser.Ties
import Lalr.Proofs.Template.Uses
import Lalr.Proofs.Template.Display
import Lalr.Proofs.Table.Construction
import Lalr.Proofs.Table.Dropped
import Lalr.Proofs.Grammar.Representation
import Lalr.Proofs.Table.Policy
import Lalr.Proofs.Grammar.Bands
