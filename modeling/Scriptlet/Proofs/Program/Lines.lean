/-
Programs on lines of their own.

A program whose last token is a semicolon can be followed by a line end
and any other text: what is read from the whole is what is read from the
program and then from the text (`Listing.ofSource_append_line`), and so
for any number of such programs (`Listing.ofSource_intercalate`).

Three things come together. Scanning goes on behind the line end as if
the text began there: only a string that was broken off would take the
line end in, and then the string would be the last token
(`tokens_append_line`). A phrase of the grammar closes the braces that
it opens (`Derives.braceDepth_eq`), so the semicolon at the end of a
program stands outside all braces. And there it cuts what is read in two
(`ofTokens_append_of_cut`).
-/
import Scriptlet.Proofs.Expr.Written
import Scriptlet.Proofs.Program.Isolation
import Scriptlet.Proofs.Read.Language

namespace Scriptlet

-- ============================================================ scanning

section Scanning

variable {p : Char → Bool} {x rest : List Char} {t : Token}

/-- A line end behind the text makes no run longer that has no line ends in
it. -/
private theorem EndsRun.append_line (ends : EndsRun p rest)
    (outside : p '\n' = false) (more : List Char) :
    EndsRun p (rest ++ '\n' :: more) := by
  intro c first
  cases rest with
  | nil =>
      cases first
      exact outside
  | cons d tail => exact ends c first

/-- A line end behind the text changes no token of it, except a string
that has no end in the text. -/
private theorem Token.Spelled.append_line (spelled : t.Spelled x rest)
    (closed : rest = [] → ∀ body, t ≠ .str body) (more : List Char) :
    t.Spelled x (rest ++ '\n' :: more) := by
  cases spelled with
  | symbol s alone =>
      refine .symbol s fun narrow next => ?_
      cases rest with
      | nil => cases next
      | cons c tail => exact alone narrow next
  | keyword k ends => exact .keyword k (ends.append_line rfl more)
  | ident word free ends => exact .ident word free (ends.append_line rfl more)
  | int some_digits only_digits ends =>
      exact .int some_digits only_digits (ends.append_line rfl more)
  | str _ no_quote => exact .str _ no_quote
  | brokenStr no_quote => exact absurd rfl (closed rfl _)
  | illegal _ not_blank starts_none => exact .illegal _ not_blank starts_none

/-- Blanks in front give no token. -/
private theorem tokens_blanks_append {w : List Char}
    (blank : ∀ c ∈ w, isBlank c = true) :
    tokens (w ++ rest) = tokens rest := by
  rw [tokens_eq, tokens_eq rest, Token.next?, Token.next?,
    List.dropWhile_append_of_pos blank]

/-- A text on the next line adds its tokens, and changes none of those
before it. -/
theorem Spells.append_line {text : List Char} {ts : List Token}
    (spells : Spells text ts) (closed : ∀ body, ts.getLast? ≠ some (.str body))
    (more : List Char) :
    tokens (text ++ '\n' :: more) = ts ++ tokens more := by
  induction spells with
  | blanks blank =>
      rw [tokens_blanks_append blank, tokens_blank rfl, List.nil_append]
  | @token w x rest t ts blank first others ih =>
      cases others with
      | blanks rest_blank =>
          -- the last token, which is no string
          have spelled :=
            first.append_line (fun _ body same =>
              closed body (by rw [same]; rfl)) more
          rw [List.append_assoc, tokens_spelled blank spelled,
            tokens_blanks_append rest_blank, tokens_blank rfl,
            List.singleton_append]
      | @token w' x' rest' t' ts' blank' first' others' =>
          obtain ⟨c, tail, rfl, -⟩ := first'.lexeme_eq
          have spelled := first.append_line
              (fun nil => absurd nil (by simp)) more
          rw [List.getLast?_cons_cons] at closed
          rw [List.append_assoc, tokens_spelled blank spelled, ih closed]
          rfl

/-- The tokens of two lines are those of the first and those of the
second, unless the first one ends with a string. -/
private theorem tokens_append_line {text : List Char}
    (closed : ∀ body, (tokens text).getLast? ≠ some (.str body))
    (more : List Char) :
    tokens (text ++ '\n' :: more) = tokens text ++ tokens more :=
  (spells_tokens text).append_line closed more

end Scanning

-- ============================================================== braces

section Braces

variable {depth : Nat} {ts rest : List Token}

/-- The count goes on from each token to the next. -/
private theorem braceDepth_cons (t : Token) :
    braceDepth depth (t :: ts) = braceDepth (t.depthAfter depth) ts :=
  rfl

/-- No operator is a brace. -/
private theorem UnaryOp.depthAfter_symbol (op : UnaryOp) :
    (Token.symbol op.symbol).depthAfter depth = depth := by
  cases op <;> rfl

private theorem BinaryOp.depthAfter_symbol (op : BinaryOp) :
    (Token.symbol op.symbol).depthAfter depth = depth := by
  cases op <;> rfl

/-- A parameter list has no braces. -/
private theorem braceDepth_moreParamTokens (names : List String) :
    braceDepth depth (moreParamTokens names ++ ts) = braceDepth depth ts := by
  induction names with
  | nil => rfl
  | cons name names ih => exact ih

/-- The same from its first name on. -/
private theorem braceDepth_paramTokens (names : List String) :
    braceDepth depth (paramTokens names ++ ts) = braceDepth depth ts := by
  cases names with
  | nil => rfl
  | cons name names => exact braceDepth_moreParamTokens names

/-- The end of a statement is no brace. -/
private theorem Ends.braceDepth_eq (ends : Ends ts rest) :
    braceDepth depth ts = braceDepth depth rest := by
  cases ends <;> rfl

/-- A phrase closes the braces that it opens, and no others. -/
theorem Derives.braceDepth_eq {x : Phrase} (derives : Derives x ts rest)
    (depth : Nat) :
    braceDepth depth ts = braceDepth depth rest := by
  induction derives generalizing depth with
  | ident | int | str | trueWord | falseWord | noArgs | noMoreArgs | noStmts =>
      rfl
  | group _ ih => exact ih depth
  | cond _ _ _ test yes => exact (test depth).trans (yes (depth + 1))
  | condElse _ _ _ test yes no =>
      exact ((test depth).trans (yes (depth + 1))).trans (no (depth + 1))
  | fn _ body => exact (braceDepth_paramTokens _).trans (body (depth + 1))
  | call _ _ callee args => exact (callee depth).trans (args depth)
  | @unary op _ _ _ _ ih => rw [braceDepth_cons, op.depthAfter_symbol, ih]
  | @binary op _ _ _ _ _ _ _ left right =>
      rw [left, braceDepth_cons, op.depthAfter_symbol, right]
  | tighter _ ih => exact ih depth
  | firstArg _ _ first others | stmts _ _ first others =>
      exact (first depth).trans (others depth)
  | nextArg _ _ next others => exact (next depth).trans (others depth)
  | bind _ ends value | ret _ ends value | expr _ ends value =>
      exact (value depth).trans ends.braceDepth_eq
  | retBare _ ends => exact ends.braceDepth_eq

end Braces

-- ============================================================= reading

/-- A program whose last token is a semicolon. -/
structure Terminated (source : String) : Prop where
  clean : (Listing.ofSource source).diagnostics = []
  last : (tokenize source).getLast? = some (.symbol .semicolon)

/-- The semicolon stands outside all braces. -/
private theorem Terminated.cut {source : String} (done : Terminated source) :
    Cut (tokenize source) :=
  .inr ⟨done.last, (isProgram_of_clean _ done.clean).braceDepth_eq 0⟩

/-- The line break keeps the tokens apart, since the last one is a semicolon
and no open string. -/
private theorem Terminated.tokenize_append_line {source : String}
    (done : Terminated source) (more : String) :
    tokenize (source ++ "\n" ++ more) = tokenize source ++ tokenize more := by
  have closed (body : String) : (tokens source.toList).getLast?
      ≠ some (.str body) := by
    rw [show (tokens source.toList).getLast? = _ from done.last]
    exact fun same => by cases same
  have lines : (source ++ "\n" ++ more).toList
      = source.toList ++ '\n' :: more.toList := by
    simp [String.toList_append]
  rw [tokenize, lines]
  exact tokens_append_line closed more.toList

/-- A source that ends its last statement says nothing about the next line,
so the listings are joined. -/
theorem Listing.ofSource_append_line {source : String}
    (done : Terminated source) (more : String) :
    ofSource (source ++ "\n" ++ more) =
      ⟨(ofSource source).program ++ (ofSource more).program,
        (ofSource more).diagnostics⟩ := by
  have clean : (ofTokens (tokenize source)).diagnostics = [] := done.clean
  rw [ofSource, done.tokenize_append_line, ofTokens_append_of_cut done.cut,
    clean, List.nil_append]
  rfl

/-- Programs on lines of their own are one program. -/
theorem Listing.ofSource_intercalate {sources : List String}
    (done : ∀ source ∈ sources, Terminated source) :
    ofSource ("\n".intercalate sources) =
      ⟨sources.flatMap fun source => (ofSource source).program, []⟩ := by
  induction sources with
  | nil => rfl
  | cons source sources ih =>
      rw [List.forall_mem_cons] at done
      cases sources with
      | nil =>
          rw [String.intercalate_singleton, List.flatMap_singleton,
            ← done.1.clean]
      | cons second sources =>
          rw [String.intercalate_cons_cons,
            ofSource_append_line done.1, ih done.2]
          rfl

end Scriptlet
