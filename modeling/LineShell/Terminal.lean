import LineShell.Cause
/-!
The two ends of a terminal: the screen that output goes to, and the source that keys come from.

Output is held back until it is flushed; what another program prints goes to the same screen at
once. A screen may take a limited number of bytes, and be flushed a limited number of times; a key
source may break down after some keys. So every failure that a reader or writer can meet is a value
of these types.
-/

set_option autoImplicit false

namespace LineShell

/-! ## Screen -/

/-- Where output goes. -/
structure Screen where
  /-- What has arrived, in order. -/
  landed : Bytes
  /-- What has been written and not flushed. -/
  pending : Bytes
  /-- How many bytes it still takes; `none` if there is no limit. -/
  room : Option Nat
  /-- How many more times it can be flushed; `none` if there is no limit. -/
  flushes : Option Nat
deriving DecidableEq, Repr

namespace Screen

/-- A screen on which nothing has been written, and that can always be flushed or never. -/
def blank (room : Option Nat) (flushFails : Bool) : Screen :=
  ⟨[], [], room, if flushFails then some 0 else none⟩

/-- A screen that never fails. -/
def unlimited : Screen := blank none false

/-- The part of some bytes that the screen takes. -/
def accepted (screen : Screen) (bytes : Bytes) : Bytes :=
  match screen.room with
  | none => bytes
  | some n => bytes.take n

/-- The screen after it has taken what it takes of some bytes. -/
def accept (screen : Screen) (bytes : Bytes) : Screen :=
  { screen with
    pending := screen.pending ++ screen.accepted bytes
    room := screen.room.map (· - bytes.length) }

/-- The screen after it was flushed: nothing is held back any more. -/
def settled (screen : Screen) : Screen :=
  { screen with
    landed := screen.landed ++ screen.pending
    pending := []
    flushes := screen.flushes.map (· - 1) }

/-- The screen after another program has printed on it. -/
def land (screen : Screen) (bytes : Bytes) : Screen :=
  { screen with landed := screen.landed ++ bytes }

/-- All that was written, what is held back included. -/
def contents (screen : Screen) : Bytes := screen.landed ++ screen.pending

end Screen

/-! ## Keys -/

/-- Where keys come from. -/
structure KeySource where
  /-- The bytes that have not been read, in order. -/
  unread : Bytes
  /-- After how many more reads it breaks down; `none` if it does not. -/
  failsAfter : Option Nat
  /-- Whether the programs that are run read from it too. -/
  shared : Bool
deriving DecidableEq, Repr

namespace KeySource

/-- A source with some bytes that only the shell reads and that does not break down. -/
def ofBytes (bytes : Bytes) : KeySource := ⟨bytes, none, false⟩

/-- The next byte, `none` at the end of the input, and the source after it. -/
def next (keys : KeySource) : Except Cause (Option UInt8 × KeySource) :=
  match keys.failsAfter with
  | some 0 => .error .keyFailure
  | reads =>
    let later := { keys with unread := keys.unread.tail, failsAfter := reads.map (· - 1) }
    .ok (keys.unread.head?, later)

/-- What a program that is run finds on its input. -/
def offered (keys : KeySource) : Bytes := if keys.shared then keys.unread else []

/-- The source after a program has read some bytes of what it was offered. -/
def consumed (keys : KeySource) (count : Nat) : KeySource :=
  if keys.shared then { keys with unread := keys.unread.drop count } else keys

end KeySource

end LineShell
