/-
Interactive sessions.

A session reads one program from each line and replies to it. All lines
run in one scope, so what a line binds is there for the later ones; a
line that cannot be read as a program changes nothing.

`reply` is one step, `replies` a whole session in terms of lines and
replies, and `Transcript` a session as it looks on the screen, from the
bytes that come in to the text that goes out. A line whose bytes are no
text ends the session.
-/
import Scriptlet.Program
import Scriptlet.Program.Run
import Scriptlet.Text.Blank
import Scriptlet.Text.Lines

namespace Scriptlet

-- ============================================================= replies

/-- What a session replies to a line. -/
inductive Reply where
  /-- The line is no program, for these reasons. -/
  | rejected (diagnostics : List Diagnostic)
  /-- The line was run and ended in this outcome. -/
  | answered (outcome : Outcome)

/-- A reply as shown on the screen. -/
def Reply.text : Reply → String
  | rejected diagnostics =>
      "parser errors:\n"
        ++ String.join (diagnostics.map fun d => "\t" ++ d.message ++ "\n")
  | answered outcome => outcome.text ++ "\n"

namespace Session

/-- Replies to one line. White space at its end does not count. -/
def reply (limit : Nat) (scope : ScopeId) (line : String) (h : Heap) :
    Option (Reply × Heap) :=
  let listing := Listing.ofSource (Text.trimEnd line)
  if listing.diagnostics.isEmpty then do
    let (outcome, h) ← listing.program.run limit scope h
    return (.answered outcome, h)
  else
    return (.rejected listing.diagnostics, h)

/-- Replies to line after line. -/
def replies (limit : Nat) (scope : ScopeId) :
    List String → Heap → Option (List Reply × Heap)
  | [], h => some ([], h)
  | line :: lines, h => do
      let (first, h) ← reply limit scope line h
      let (rest, h) ← replies limit scope lines h
      return (first :: rest, h)

end Session

-- ========================================================= transcripts

/-- A session on the screen. -/
structure Transcript where
  /-- All that was written. -/
  output : String
  /-- Whether the session ended at a line that is no text. -/
  unreadable : Bool

namespace Transcript

/-- What is written before each line is read. -/
def prompt : String := ">> "

/-- What is written before a session that is started from the command
line. -/
def banner : String := "Feel free to type in commands\n"

/-- What a session that ended at an unreadable line says. -/
def unreadableMessage : String := "stream did not contain valid UTF-8"

/-- What a session with these replies looks like. The prompt is also
written before the end is found. -/
def screen (replies : List Reply) : String :=
  String.join (replies.map fun reply => prompt ++ reply.text) ++ prompt

/-- The transcript of a session over lines, where `none` is a line that
is no text: the lines before it are replied to. -/
def ofLines (limit : Nat) (scope : ScopeId) (lines : List (Option String))
    (h : Heap) :
    Option Transcript := do
  let (replies, _) ← Session.replies limit scope
      ((lines.takeWhile Option.isSome).filterMap id) h
  return ⟨screen replies, lines.any Option.isNone⟩

/-- The transcript of a session over a byte stream, in a new scope. -/
def ofBytes (limit : Nat) (bytes : List UInt8) : Option Transcript :=
  let (scope, h) := Heap.empty.newScope none
  ofLines limit scope ((Text.splitLines bytes).map Text.decode?) h

/-- The exit status of a command that ran this session. -/
def exitCode (t : Transcript) : Nat :=
  if t.unreadable then 1 else 0

end Transcript

end Scriptlet
