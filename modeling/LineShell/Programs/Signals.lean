/-!
Signals: their names, what they say of a process that they end, and which of them end one.
-/

set_option autoImplicit false

namespace LineShell

namespace Signal

/-- The signals with names, by number: the name, and what is said of a process that it ended. -/
def table : List (Nat × String × String) :=
  [(1, "HUP", "Hangup"), (2, "INT", "Interrupt"), (3, "QUIT", "Quit"),
   (4, "ILL", "Illegal instruction"), (5, "TRAP", "Trace/breakpoint trap"), (6, "ABRT", "Aborted"),
   (7, "BUS", "Bus error"), (8, "FPE", "Floating point exception"), (9, "KILL", "Killed"),
   (10, "USR1", "User defined signal 1"), (11, "SEGV", "Segmentation fault"),
   (12, "USR2", "User defined signal 2"), (13, "PIPE", "Broken pipe"), (14, "ALRM", "Alarm clock"),
   (15, "TERM", "Terminated"), (16, "16", "Stack fault"), (17, "CHLD", "Child exited"),
   (18, "CONT", "Continued"), (19, "STOP", "Stopped (signal)"), (20, "TSTP", "Stopped"),
   (21, "TTIN", "Stopped (tty input)"), (22, "TTOU", "Stopped (tty output)"),
   (23, "URG", "Urgent I/O condition"), (24, "XCPU", "CPU time limit exceeded"),
   (25, "XFSZ", "File size limit exceeded"), (26, "VTALRM", "Virtual timer expired"),
   (27, "PROF", "Profiling timer expired"), (28, "WINCH", "Window changed"),
   (29, "IO", "I/O possible"), (30, "PWR", "Power failure"), (31, "SYS", "Bad system call")]

/-- The numbers of the signals without names of their own that count from the lowest one up. -/
def lowest : Nat := 34

/-- The number of the last signal. -/
def highest : Nat := 64

/-- Whether there is a signal of a number. -/
def exists? (n : Nat) : Bool := 1 ≤ n && n ≤ highest

/-- The name of a signal. -/
def nameOf (n : Nat) : String :=
  match table.lookup n with
  | some (name, _) => name
  | none =>
    if n = lowest then "RTMIN"
    else if n = highest then "RTMAX"
    else if lowest < n && n ≤ 49 then "RTMIN+" ++ toString (n - lowest)
    else if 49 < n && n < highest then "RTMAX-" ++ toString (highest - n)
    else toString n

/-- What is said of a process that a signal ended. -/
def textOf (n : Nat) : String :=
  match table.lookup n with
  | some (_, text) => text
  | none =>
    if lowest ≤ n && n ≤ highest then "Real-time signal " ++ toString (n - lowest)
    else "Unknown signal " ++ toString n

/-- The signal that a name or a number stands for; zero stands for none. -/
def read? (text : String) : Option Nat :=
  if !text.isEmpty && text.toList.all Char.isDigit then
    let n := text.toList.foldl (fun n c => 10 * n + (c.toNat - '0'.toNat)) 0
    if n ≤ highest then some n else none
  else
    let upper := text.map Char.toUpper
    if upper = "EXIT" then some 0
    else (List.range (highest + 1)).find? fun n => 0 < n && nameOf n == upper

/-- The signals that end no process. -/
def spared : List Nat := [17, 18, 19, 20, 21, 22, 23, 28]

/-- Whether a signal ends a process that does not care about it. -/
def ends (n : Nat) : Bool := exists? n && !spared.contains n

/-- Whether nothing can be done about a signal. -/
def isFinal (n : Nat) : Bool := n == 9 || n == 19

end Signal

end LineShell
