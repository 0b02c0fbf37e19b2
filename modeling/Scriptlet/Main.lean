/-
The command line: an interactive session on standard input and output.

This is the only module that does input and output. It moves lines and
replies; what a reply is, `Session.reply` says.
-/
import Scriptlet.Session

namespace Scriptlet.Main

/-- Reads the bytes of one line, without its line feed; `none` at the end
of the input. -/
partial def readLine (input : IO.FS.Stream) (taken : List UInt8) :
    IO (Option (List UInt8)) := do
  let chunk ← input.read 1
  match chunk.toList with
  | [] => return if taken.isEmpty then none else some taken.reverse
  | b :: _ =>
      if b = Text.lineFeed then return some taken.reverse
      else readLine input (b :: taken)

/-- Replies to the lines of the input until it ends; gives the exit
status. -/
partial def converse (input output : IO.FS.Stream) (scope : ScopeId)
    (h : Heap) : IO UInt32 := do
  output.putStr Transcript.prompt
  output.flush
  match ← readLine input [] with
  | none => return 0
  | some bytes =>
      match Text.decode? bytes with
      | none =>
          IO.eprintln ("Error: " ++ Transcript.unreadableMessage)
          return 1
      | some line =>
          match Session.reply callLimit scope line h with
          | none =>
              IO.eprintln "Error: calls nested too deep"
              return 1
          | some (reply, h) =>
              output.putStr reply.text
              converse input output scope h

end Scriptlet.Main

/-- Greets, and then answers line by line in one global scope until the
input ends. -/
def main : IO UInt32 := do
  let output ← IO.getStdout
  output.putStr Scriptlet.Transcript.banner
  let (scope, h) := Scriptlet.Heap.empty.newScope none
  Scriptlet.Main.converse (← IO.getStdin) output scope h
