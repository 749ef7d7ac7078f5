import LineShell.Invocation
import LineShell.Programs.Standard
/-!
The shell as a program.

It runs on a standard machine of its own, in the directory `/tmp`. What is given on the input is
typed into it; what lands on its screen is printed when it ends.
-/

set_option autoImplicit false

namespace LineShell

/-- A standard machine with some input that programs share. -/
def standardMachine (input : Bytes) : Machine :=
  let m := { Machine.boot Standard.files with keys := ⟨input, none, true⟩ }
  (m.enter (bytesOf "/tmp")).toOption.getD m

/-- All bytes of an input. -/
partial def readInput (stream : IO.FS.Stream) (found : ByteArray) : IO ByteArray := do
  let chunk ← stream.read 4096
  if chunk.isEmpty then return found else readInput stream (found ++ chunk)

end LineShell

open LineShell in
/-- Runs the shell. -/
def main (arguments : List String) : IO UInt32 := do
  let input ← readInput (← IO.getStdin) .empty
  let vars := [("PATH", "/usr/bin:/bin"), ("HOME", "/tmp")].map fun (name, value) =>
    (bytesOf name, bytesOf value)
  let world : Invocation.World :=
    ⟨standardMachine input.data.toList, Standard.host, vars, "session-0-1"⟩
  let (machine, status) := Invocation.run world arguments
  (← IO.getStdout).write ⟨machine.screen.contents.toArray⟩
  (← IO.getStderr).write ⟨machine.errors.toArray⟩
  return UInt32.ofNat status
