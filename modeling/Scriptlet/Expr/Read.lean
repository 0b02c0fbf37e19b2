/-
Reading expressions and statements from tokens.

A reading function takes the tokens that lie ahead and gives what it read
together with the tokens behind it. Expressions are read by precedence
climbing: `readOperand` reads what an expression starts with, and
`readTail` extends it by the operators and call suffixes that follow, as
long as they bind tighter than the level asked for.

# Failures

A `Failure` carries its cause and the tokens behind the last one that was
looked at as part of the statement. The two kinds of failure differ here.
A token that is missing (`expect`, `expectName`) is found missing before
it is taken, so the offending token is still ahead; a token that cannot
start an operand, or a literal that is too large, has been taken. The
difference decides where reading goes on after a malformed statement.

# Shape of the recursion

The mutual functions are structural on a bound for the depth of their
calls, so that the kernel can run them. Between two tokens at most four
calls are made (block, statement, expression, operand), hence
`depthBound`, four calls for each token ahead and four more, is always
enough: a bound that runs out is reported as a missing operand, which no
token list ever shows.
-/
import Scriptlet.Expr
import Scriptlet.Diagnostic
import Scriptlet.Word

namespace Scriptlet

-- =========================================================== failures

/-- Why a statement could not be read, and the tokens not yet taken. -/
structure Failure where
  cause : Diagnostic
  rest : List Token
  deriving DecidableEq

/-- The result of reading: mostly what was read together with the tokens
behind it, or a failure. -/
abbrev Reading := Except Failure

/-- Fails for want of an operand. The offending token is taken. -/
def missingOperand {α : Type} (ts : List Token) : Reading α :=
  .error ⟨.noOperand ts.head?, ts.tail⟩

/-- Fails for want of something else than the next token, which is not
taken. -/
def missing {α : Type} (wanted : Wanted) (ts : List Token) : Reading α :=
  .error ⟨.expected wanted ts.head?, ts⟩

/-- Takes one given symbol. -/
def expect (s : Symbol) : List Token → Reading (List Token)
  | .symbol found :: rest =>
      if found = s then .ok rest
      else missing (.symbol s) (.symbol found :: rest)
  | ts => missing (.symbol s) ts

/-- Takes a name. -/
def expectName : List Token → Reading (String × List Token)
  | .ident name :: rest => .ok (name, rest)
  | ts => missing .name ts

-- =================================================== pieces without depth

/-- Takes the optional semicolon behind a statement. -/
def skipSemicolon : List Token → List Token
  | .symbol .semicolon :: rest => rest
  | ts => ts

/-- Whether a `return` standing before these tokens has no value: it is
followed by `;`, by a closing brace or by nothing. -/
def endsReturn : List Token → Bool
  | [] => true
  | .symbol .semicolon :: _ => true
  | .symbol .closeBrace :: _ => true
  | _ => false

/-- Reads the parameters behind the first one, and the parenthesis. -/
def readMoreParams : List Token → Reading (List String × List Token)
  | .symbol .comma :: .ident name :: rest => do
      let (names, rest) ← readMoreParams rest
      return (name :: names, rest)
  | .symbol .comma :: rest => missing .name rest
  | ts => do
      let rest ← expect .closeParen ts
      return ([], rest)

/-- Reads a parameter list whose opening parenthesis has been taken. -/
def readParams : List Token → Reading (List String × List Token)
  | .symbol .closeParen :: rest => .ok ([], rest)
  | ts => do
      let (name, rest) ← expectName ts
      let (names, rest) ← readMoreParams rest
      return (name :: names, rest)

-- ============================================== expressions, statements

mutual

/-- Reads an expression with the operators whose level is above
`level`. -/
def readExpr : Nat → Nat → List Token → Reading (Expr × List Token)
  | 0, _, ts => missingOperand ts
  | n + 1, level, ts => do
      let (operand, rest) ← readOperand n ts
      readTail n level operand rest

/-- Reads what an expression starts with. -/
def readOperand : Nat → List Token → Reading (Expr × List Token)
  | 0, ts => missingOperand ts
  | n + 1, ts =>
      match ts with
      | .ident name :: rest => .ok (.ident name, rest)
      | .int digits :: rest =>
          match Word.ofDigits? digits with
          | some value => .ok (.int value, rest)
          | none => .error ⟨.tooLarge digits, rest⟩
      | .str body :: rest => .ok (.str body, rest)
      | .keyword .trueWord :: rest => .ok (.bool true, rest)
      | .keyword .falseWord :: rest => .ok (.bool false, rest)
      | .symbol .minus :: rest => do
          let (operand, rest) ← readExpr n unaryLevel rest
          return (.unary .neg operand, rest)
      | .symbol .bang :: rest => do
          let (operand, rest) ← readExpr n unaryLevel rest
          return (.unary .not operand, rest)
      | .symbol .openParen :: rest => do
          let (inner, rest) ← readExpr n lowestLevel rest
          let rest ← expect .closeParen rest
          return (inner, rest)
      | .keyword .ifWord :: rest => do
          let rest ← expect .openParen rest
          let (test, rest) ← readExpr n lowestLevel rest
          let rest ← expect .closeParen rest
          let rest ← expect .openBrace rest
          let (yes, rest) ← readBlock n rest
          let (no, rest) ← readElse n rest
          return (.cond test yes no, rest)
      | .keyword .fnWord :: rest => do
          let rest ← expect .openParen rest
          let (params, rest) ← readParams rest
          let rest ← expect .openBrace rest
          let (body, rest) ← readBlock n rest
          return (.fn params body, rest)
      | _ => missingOperand ts

/-- Extends an expression by the operators above `level` and the call
suffixes that follow it. -/
def readTail : Nat → Nat → Expr → List Token → Reading (Expr × List Token)
  | 0, _, _, ts => missingOperand ts
  | n + 1, level, left, ts =>
      match ts with
      | .symbol s :: rest =>
          match BinaryOp.ofSymbol? s with
          | some op =>
              if level < op.level then do
                let (right, rest) ← readExpr n op.level rest
                readTail n level (.binary op left right) rest
              else
                .ok (left, .symbol s :: rest)
          | none =>
              if s = .openParen then do
                let (args, rest) ← readArgs n rest
                readTail n level (.call left args) rest
              else
                .ok (left, .symbol s :: rest)
      | _ => .ok (left, ts)

/-- Reads an argument list whose opening parenthesis has been taken. -/
def readArgs : Nat → List Token → Reading (List Expr × List Token)
  | 0, ts => missingOperand ts
  | n + 1, ts =>
      match ts with
      | .symbol .closeParen :: rest => .ok ([], rest)
      | _ => do
          let (arg, rest) ← readExpr n lowestLevel ts
          let (args, rest) ← readMoreArgs n rest
          return (arg :: args, rest)

/-- Reads the arguments behind the first one, and the parenthesis. -/
def readMoreArgs : Nat → List Token → Reading (List Expr × List Token)
  | 0, ts => missingOperand ts
  | n + 1, ts =>
      match ts with
      | .symbol .comma :: rest => do
          let (arg, rest) ← readExpr n lowestLevel rest
          let (args, rest) ← readMoreArgs n rest
          return (arg :: args, rest)
      | _ => do
          let rest ← expect .closeParen ts
          return ([], rest)

/-- Reads the optional `else` branch of a conditional. -/
def readElse : Nat → List Token → Reading (Option Block × List Token)
  | 0, ts => missingOperand ts
  | n + 1, ts =>
      match ts with
      | .keyword .elseWord :: rest => do
          let rest ← expect .openBrace rest
          let (no, rest) ← readBlock n rest
          return (some no, rest)
      | _ => .ok (none, ts)

/-- Reads the statements of a block and its closing brace; the opening
one has been taken. -/
def readBlock : Nat → List Token → Reading (Block × List Token)
  | 0, ts => missingOperand ts
  | n + 1, ts =>
      match ts with
      | [] => missing (.symbol .closeBrace) []
      | .symbol .closeBrace :: rest => .ok ([], rest)
      | _ => do
          let (stmt, rest) ← readStmtWithin n ts
          let (stmts, rest) ← readBlock n rest
          return (stmt :: stmts, rest)

/-- Reads one statement and the semicolon behind it, if there is one. -/
def readStmtWithin : Nat → List Token → Reading (Stmt × List Token)
  | 0, ts => missingOperand ts
  | n + 1, ts =>
      match ts with
      | .keyword .letWord :: rest => do
          let (name, rest) ← expectName rest
          let rest ← expect .assign rest
          let (value, rest) ← readExpr n lowestLevel rest
          return (.bind name value, skipSemicolon rest)
      | .keyword .returnWord :: rest =>
          if endsReturn rest then
            .ok (.ret none, skipSemicolon rest)
          else do
            let (value, rest) ← readExpr n lowestLevel rest
            return (.ret (some value), skipSemicolon rest)
      | _ => do
          let (value, rest) ← readExpr n lowestLevel ts
          return (.expr value, skipSemicolon rest)

end

/-- A depth of calls that no reading of these tokens exceeds. -/
def depthBound (ts : List Token) : Nat :=
  4 * ts.length + 4

/-- Reads the statement that starts the token list. -/
def readStmt (ts : List Token) : Reading (Stmt × List Token) :=
  readStmtWithin (depthBound ts) ts

end Scriptlet
