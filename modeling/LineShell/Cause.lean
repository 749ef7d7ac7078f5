import LineShell.Text.Utf8
/-!
Why an operation on files or on the terminal fails, and why a session ends early.

A failure is a value that names its cause; the wording is in one function for each type.
-/

set_option autoImplicit false

namespace LineShell

/-- Why an operation on files or on the terminal failed. -/
inductive Cause where
  /-- Nothing has the given path. -/
  | missing
  /-- A directory or a file does not allow it. -/
  | denied
  /-- Something has the path that was to be made. -/
  | alreadyThere
  /-- A path goes on below something that is no directory. -/
  | notDirectory
  /-- A directory stands where a file is wanted. -/
  | isDirectory
  /-- The operation makes no sense for what stands there. -/
  | invalid
  /-- What is to be changed is in use. -/
  | busy
  /-- What is written is taken by no store. -/
  | noSpace
  /-- A name, or a whole path, is longer than a file tree takes. -/
  | nameTooLong
  /-- A directory that was to be removed has entries. -/
  | notEmpty
  /-- Following a path met too many links. -/
  | tooManyLinks
  /-- A descriptor is not connected, or not for this. -/
  | badDescriptor
  /-- A file that was to be run is neither a program nor a script. -/
  | badFormat
  /-- A path holds a NUL byte. -/
  | nulInPath
  /-- A file that was to be text is not UTF-8. -/
  | invalidText
  /-- The terminal takes no more bytes. -/
  | screenFull
  /-- The terminal did not take what was held back for it. -/
  | flushFailed
  /-- The key source broke down. -/
  | keyFailure
deriving DecidableEq, Repr

/-- The text of a cause. -/
def Cause.message : Cause → String
  | .missing => "No such file or directory (os error 2)"
  | .denied => "Permission denied (os error 13)"
  | .alreadyThere => "File exists (os error 17)"
  | .notDirectory => "Not a directory (os error 20)"
  | .isDirectory => "Is a directory (os error 21)"
  | .invalid => "Invalid argument (os error 22)"
  | .busy => "Device or resource busy (os error 16)"
  | .noSpace => "No space left on device (os error 28)"
  | .nameTooLong => "File name too long (os error 36)"
  | .notEmpty => "Directory not empty (os error 39)"
  | .tooManyLinks => "Too many levels of symbolic links (os error 40)"
  | .badDescriptor => "Bad file descriptor (os error 9)"
  | .badFormat => "Exec format error (os error 8)"
  | .nulInPath => "file name contained an unexpected NUL byte"
  | .invalidText => "stream did not contain valid UTF-8"
  | .screenFull => "screen full"
  | .flushFailed => "flush failed"
  | .keyFailure => "key failure"

/-- What ends a session early. -/
inductive SessionError where
  /-- A history log could not be opened or read. -/
  | historyLog (path : Bytes) (cause : Cause)
  /-- The terminal failed. -/
  | terminal (cause : Cause)
deriving DecidableEq, Repr

/-- The text of an error, from the outermost fact to the cause. -/
def SessionError.message : SessionError → String
  | .historyLog path cause => "history file " ++ stringOf path ++ ": " ++ cause.message
  | .terminal cause => "terminal: " ++ cause.message

end LineShell
