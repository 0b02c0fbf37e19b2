/-
The grammar of the language, over tokens.

`Derives x ts rest` says that the tokens `ts` begin with the phrase `x`
and that `rest` is what follows it. A phrase names a rule of the grammar
together with the tree it stands for, so a derivation is a parse tree
and its conclusion shows the abstract tree.

    Program    = Statement*
    Statement  = `let` name `=` Exp [`;`] | `return` [Exp] [`;`]
               | Exp [`;`]
    Exp        = Equality
    Equality   = Equality (`==` | `!=`) Comparison | Comparison
    Comparison = Comparison (`<` | `>`) Sum | Sum
    Sum        = Sum (`+` | `-`) Product | Product
    Product    = Product (`*` | `/`) Unary | Unary
    Unary      = (`!` | `-`) Unary | Call
    Call       = Call `(` [Exp {`,` Exp}] `)` | Operand
    Operand    = name | int | string | `true` | `false` | `(` Exp `)`
               | `if` `(` Exp `)` Block [`else` Block]
               | `fn` `(` [name {`,` name}] `)` Block
    Block      = `{` Statement* `}`

The rules are left recursive where operators group to the left. Nothing
here is shaped like a reader: there are no levels to compare, and no
rule says which alternative to try first.

# Longest match

The rules alone leave some token lists with two trees: without a
semicolon, `a` and `(b)` may be two statements or one call. Three side
conditions settle that, and they are the only places where a rule looks
at what follows. A statement written without its semicolon is not
followed by an operator or an opening parenthesis (`Ends`), a `return`
without a value is followed by a semicolon, a closing brace or the end
(`LeavesBare`), and a conditional without an `else` branch is not
followed by `else`.
-/
import Mathlib.Algebra.Group.Nat.Defs
import Scriptlet.Expr
import Scriptlet.Word

namespace Scriptlet

-- ============================================================== strata

/-- The strata of expressions, loosest first. -/
inductive Stratum where
  | equality
  | comparison
  | sum
  | product
  | unary
  | call
  deriving DecidableEq

/-- The next stratum, whose expressions are the operands of this one;
nothing is tighter than a call. -/
def Stratum.tighter : Stratum → Stratum
  | equality => comparison
  | comparison => sum
  | sum => product
  | product => unary
  | unary => call
  | call => call

/-- The stratum an operator belongs to. -/
def BinaryOp.stratum : BinaryOp → Stratum
  | equal => .equality
  | notEqual => .equality
  | less => .comparison
  | greater => .comparison
  | add => .sum
  | sub => .sum
  | mul => .product
  | div => .product

-- ===================================================== side conditions

/-- The next token would carry an expression on: it is an operator or
opens an argument list. -/
def CarriesOn (rest : List Token) : Prop :=
  (∃ op : BinaryOp, rest.head? = some (.symbol op.symbol))
    ∨ rest.head? = some (.symbol .openParen)

/-- The optional semicolon of a statement: it stands there, or else what
follows does not carry the statement on. -/
inductive Ends : List Token → List Token → Prop where
  | semicolon (rest : List Token) : Ends (.symbol .semicolon :: rest) rest
  | bare {rest : List Token} (stops : ¬ CarriesOn rest) : Ends rest rest

/-- What may stand behind a `return` without a value. -/
def LeavesBare (rest : List Token) : Prop :=
  rest.head? = none ∨ rest.head? = some (.symbol .semicolon)
    ∨ rest.head? = some (.symbol .closeBrace)

-- ============================================================= phrases

/-- The number a run of decimal digits denotes. -/
def decimal (digits : String) : Nat :=
  Nat.ofDigitChars 10 digits.toList 0

/-- Parameter names with a comma before each. -/
def moreParamTokens (names : List String) : List Token :=
  names.flatMap fun name => [.symbol .comma, .ident name]

/-- Parameter names with the commas between them. -/
def paramTokens : List String → List Token
  | [] => []
  | name :: names => .ident name :: moreParamTokens names

/-- A rule of the grammar and the tree a phrase of it stands for. -/
inductive Phrase where
  | expr (stratum : Stratum) (e : Expr)
  /-- Arguments with the commas between them. -/
  | args (es : List Expr)
  /-- Arguments with a comma before each. -/
  | moreArgs (es : List Expr)
  | stmt (s : Stmt)
  | stmts (ss : List Stmt)

/-- The tokens in front are a phrase, and the others follow it. -/
inductive Derives : Phrase → List Token → List Token → Prop where
  -- operands
  | ident (name : String) (rest : List Token) :
      Derives (.expr .call (.ident name)) (.ident name :: rest) rest
  | int {digits : String} {w : Int64} (rest : List Token)
      (fits : decimal digits ≤ 2 ^ 63 - 1) (value : w.toInt = decimal digits) :
      Derives (.expr .call (.int w)) (.int digits :: rest) rest
  | str (body : String) (rest : List Token) :
      Derives (.expr .call (.str body)) (.str body :: rest) rest
  | trueWord (rest : List Token) :
      Derives (.expr .call (.bool true)) (.keyword .trueWord :: rest) rest
  | falseWord (rest : List Token) :
      Derives (.expr .call (.bool false)) (.keyword .falseWord :: rest) rest
  | group {e : Expr} {ts rest : List Token}
      (inner : Derives (.expr .equality e) ts (.symbol .closeParen :: rest)) :
      Derives (.expr .call e) (.symbol .openParen :: ts) rest
  | cond {test : Expr} {yes : Block} {ts mid rest : List Token}
      (test_ok : Derives (.expr .equality test) ts
        (.symbol .closeParen :: .symbol .openBrace :: mid))
      (yes_ok : Derives (.stmts yes) mid (.symbol .closeBrace :: rest))
      (no_else : rest.head? ≠ some (.keyword .elseWord)) :
      Derives (.expr .call (.cond test yes none))
        (.keyword .ifWord :: .symbol .openParen :: ts) rest
  | condElse {test : Expr} {yes no : Block} {ts mid mid' rest : List Token}
      (test_ok : Derives (.expr .equality test) ts
        (.symbol .closeParen :: .symbol .openBrace :: mid))
      (yes_ok : Derives (.stmts yes) mid
        (.symbol .closeBrace :: .keyword .elseWord
          :: .symbol .openBrace :: mid'))
      (no_ok : Derives (.stmts no) mid' (.symbol .closeBrace :: rest)) :
      Derives (.expr .call (.cond test yes (some no)))
        (.keyword .ifWord :: .symbol .openParen :: ts) rest
  | fn {params : List String} {body : Block} {mid rest : List Token}
      (body_ok : Derives (.stmts body) mid (.symbol .closeBrace :: rest)) :
      Derives (.expr .call (.fn params body))
        (.keyword .fnWord :: .symbol .openParen ::
          (paramTokens params ++ .symbol .closeParen
            :: .symbol .openBrace :: mid)) rest
  -- calls and operators
  | call {callee : Expr} {args : List Expr} {ts mid rest : List Token}
      (callee_ok : Derives (.expr .call callee) ts (.symbol .openParen :: mid))
      (args_ok : Derives (.args args) mid (.symbol .closeParen :: rest)) :
      Derives (.expr .call (.call callee args)) ts rest
  | unary {op : UnaryOp} {e : Expr} {ts rest : List Token}
      (operand : Derives (.expr .unary e) ts rest) :
      Derives (.expr .unary (.unary op e)) (.symbol op.symbol :: ts) rest
  | binary {op : BinaryOp} {left right : Expr} {ts mid rest : List Token}
      (left_ok : Derives (.expr op.stratum left) ts (.symbol op.symbol :: mid))
      (right_ok : Derives (.expr op.stratum.tighter right) mid rest) :
      Derives (.expr op.stratum (.binary op left right)) ts rest
  | tighter {s : Stratum} {e : Expr} {ts rest : List Token}
      (inner : Derives (.expr s.tighter e) ts rest) : Derives
      (.expr s e) ts rest
  -- arguments
  | noArgs (rest : List Token) : Derives (.args []) rest rest
  | firstArg {e : Expr} {es : List Expr} {ts mid rest : List Token}
      (first : Derives (.expr .equality e) ts mid)
      (others : Derives (.moreArgs es) mid rest) :
      Derives (.args (e :: es)) ts rest
  | noMoreArgs (rest : List Token) : Derives (.moreArgs []) rest rest
  | nextArg {e : Expr} {es : List Expr} {ts mid rest : List Token}
      (next : Derives (.expr .equality e) ts mid)
      (others : Derives (.moreArgs es) mid rest) :
      Derives (.moreArgs (e :: es)) (.symbol .comma :: ts) rest
  -- statements
  | bind {name : String} {e : Expr} {ts mid rest : List Token}
      (value : Derives (.expr .equality e) ts mid) (ends : Ends mid rest) :
      Derives (.stmt (.bind name e))
        (.keyword .letWord :: .ident name :: .symbol .assign :: ts) rest
  | retBare {ts rest : List Token} (bare : LeavesBare ts)
      (ends : Ends ts rest) : Derives (.stmt (.ret none))
      (.keyword .returnWord :: ts) rest
  | ret {e : Expr} {ts mid rest : List Token}
      (value : Derives (.expr .equality e) ts mid) (ends : Ends mid rest) :
      Derives (.stmt (.ret (some e))) (.keyword .returnWord :: ts) rest
  | expr {e : Expr} {ts mid rest : List Token}
      (value : Derives (.expr .equality e) ts mid) (ends : Ends mid rest) :
      Derives (.stmt (.expr e)) ts rest
  | noStmts (rest : List Token) : Derives (.stmts []) rest rest
  | stmts {s : Stmt} {ss : List Stmt} {ts mid rest : List Token}
      (first : Derives (.stmt s) ts mid)
      (others : Derives (.stmts ss) mid rest) :
      Derives (.stmts (s :: ss)) ts rest

/-- The tokens are a program, and this is its tree. -/
def IsProgram (ts : List Token) (p : Program) : Prop :=
  Derives (.stmts p) ts []

end Scriptlet
