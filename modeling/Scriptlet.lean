/-
A small scripting language: integers, strings, truth values, closures.

- Token, Token.Scan: the vocabulary, and cutting a text into tokens.
- Operator, Expr, Expr.Source: programs as trees, and as source text.
- Diagnostic, Expr.Read, Expr.Read.Progress: reading statements from
  tokens, what can be wrong with them, and why reading ends.
- Program.Segment, Program: whole programs, malformed statements
  included.
- Word, Value, Value.Operate, Heap: what programs compute with.
- Eval, Eval.Limit, Program.Run: running them.
- Outline: programs and outcomes shown node by node.
- Text.Blank, Text.Lines, Text.Quoted: lines and strings as text.
- Session, Main: the interactive session and its command line.

# Theory

- Proofs.Token.Spelling: the texts that are cut into given tokens.
- Proofs.Read.Grammar, Proofs.Read.Unbounded, Proofs.Read.Language: the
  grammar, the reading functions without a bound, and that they read
  exactly the programs of the grammar.
- Proofs.Expr.Written, Proofs.Program.RoundTrip: the tokens of a program
  in source form, and that it is read back from them.
- Proofs.Read.Fence, Proofs.Program.Isolation: what reading does not look
  at, and how a semicolon keeps errors apart.
- Proofs.Read.Continuation, Proofs.Program.Recovery: what becomes of a
  reading when the text goes on, and when a keyword is where reading
  starts again.
- Proofs.Program.Lines: programs on lines of their own.
- Proofs.Program.Leaves: all names and literals of a program were cut out
  of its source.
- Proofs.Expr.Distinct, Proofs.Program.Faithful: programs that differ
  are written with different tokens, and as different texts.
- Proofs.Read.Front, Proofs.Program.Boundaries: what a phrase may stand
  before, and how many diagnostics a text can have.
- Proofs.Read.Lookahead, Proofs.Read.Completion,
  Proofs.Program.FirstFault: reading looks one token ahead, does not go
  on into a dead end, and blames the earliest token that it can.
- Proofs.Read.Tracker, Proofs.Program.Outermost: reading with a count of
  open braces, and that no statement of a program comes out of a block.
- Proofs.Read.Recursion, Proofs.Program.Account: reading never comes back
  to where it is, and every token is accounted for.
- Proofs.Eval.Trace, Proofs.Eval.Invariant: evaluation with its events,
  and one induction for all that evaluation keeps.
- Proofs.Eval.Signals, Proofs.Eval.ShortCircuit, Proofs.Eval.Frame:
  signals do not become data and go straight out, and evaluation writes
  to its own scope only.
- Proofs.Eval.Reach, Proofs.Eval.Scoping: which names are found from a
  scope, and that a program whose names pass a check misses none.
- Proofs.Eval.Matching, Proofs.Eval.Parallel: two runs side by side, and
  what is alike in both.
- Proofs.Eval.Calls, Proofs.Program.Wrapping: what a call depends on,
  that it can be repeated, and that a program is the body of a function.
- Proofs.Eval.Arithmetic, Proofs.Eval.Division: whole-number expressions
  are exact up to wrapping, and quotients are rounded down.
- Proofs.Eval.Bindings, Proofs.Eval.Visits, Proofs.Eval.Functionless:
  what holds of all that is bound, an evaluation as a tree, and that
  without functions it is no deeper than the program.
- Proofs.Eval.History: what a name is bound to, told from all bindings
  that were ever made.
- Proofs.Eval.Unmentioned: names that are not mentioned do not matter.
- Proofs.Eval.Objects, Proofs.Eval.Mirror, Proofs.Eval.Identity:
  evaluation with the objects behind the values, that it is the same
  evaluation, and what programs see when they compare addresses.
- Proofs.Session.OneProgram: a session as one program.
-/
import Scriptlet.Eval.Limit
import Scriptlet.Main
import Scriptlet.Outline
import Scriptlet.Session
import Scriptlet.Proofs.Token.Spelling
import Scriptlet.Proofs.Read.Language
import Scriptlet.Proofs.Program.RoundTrip
import Scriptlet.Proofs.Program.Isolation
import Scriptlet.Proofs.Program.Recovery
import Scriptlet.Proofs.Program.Lines
import Scriptlet.Proofs.Program.Leaves
import Scriptlet.Proofs.Program.Faithful
import Scriptlet.Proofs.Program.Boundaries
import Scriptlet.Proofs.Program.FirstFault
import Scriptlet.Proofs.Program.Outermost
import Scriptlet.Proofs.Read.Recursion
import Scriptlet.Proofs.Program.Account
import Scriptlet.Proofs.Eval.Signals
import Scriptlet.Proofs.Eval.ShortCircuit
import Scriptlet.Proofs.Eval.Frame
import Scriptlet.Proofs.Eval.Scoping
import Scriptlet.Proofs.Eval.Matching
import Scriptlet.Proofs.Eval.Parallel
import Scriptlet.Proofs.Eval.Calls
import Scriptlet.Proofs.Program.Wrapping
import Scriptlet.Proofs.Eval.Arithmetic
import Scriptlet.Proofs.Eval.Division
import Scriptlet.Proofs.Eval.Bindings
import Scriptlet.Proofs.Eval.Visits
import Scriptlet.Proofs.Eval.Functionless
import Scriptlet.Proofs.Eval.History
import Scriptlet.Proofs.Eval.Unmentioned
import Scriptlet.Proofs.Eval.Identity
import Scriptlet.Proofs.Session.OneProgram
