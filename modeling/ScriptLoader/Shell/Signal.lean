import ScriptLoader.Process.Raw

/-!
# Signals

Signals have numbers and names. One that arrives ends a process, unless it is of no matter by itself. `number?_name` says that the name
of a signal leads back to it.
-/

namespace ScriptLoader.Shell

namespace Signal

/-- The signals with names of their own, with what is reported when one has ended a process. The first is no signal, but the end of a
shell by itself. -/
def table : List (String × String) :=
  [("EXIT", ""), ("HUP", "Hangup"), ("INT", "Interrupt"), ("QUIT", "Quit"), ("ILL", "Illegal instruction"),
   ("TRAP", "Trace/breakpoint trap"), ("ABRT", "Aborted"), ("BUS", "Bus error"), ("FPE", "Floating point exception"), ("KILL", "Killed"),
   ("USR1", "User defined signal 1"), ("SEGV", "Segmentation fault"), ("USR2", "User defined signal 2"), ("PIPE", "Broken pipe"),
   ("ALRM", "Alarm clock"), ("TERM", "Terminated"), ("16", "Stack fault"), ("CHLD", "Child exited"), ("CONT", "Continued"),
   ("STOP", "Stopped (signal)"), ("TSTP", "Stopped"), ("TTIN", "Stopped (tty input)"), ("TTOU", "Stopped (tty output)"),
   ("URG", "Urgent I/O condition"), ("XCPU", "CPU time limit exceeded"), ("XFSZ", "File size limit exceeded"),
   ("VTALRM", "Virtual timer expired"), ("PROF", "Profiling timer expired"), ("WINCH", "Window changed"), ("IO", "I/O possible"),
   ("PWR", "Power failure"), ("SYS", "Bad system call"), ("32", "Unknown signal 32"), ("33", "Unknown signal 33")]

/-- The number of the first signal without a use of its own, and of the last one. -/
def firstFree : Nat := 34

/-- The number of the last signal. -/
def last : Nat := 64

/-- The name of a signal; those without a use of their own are counted from the nearer end. -/
def name (n : Nat) : Raw :=
  match table[n]? with
  | some (text, _) => text
  | none =>
    if n = firstFree then "RTMIN"
    else if n = last then "RTMAX"
    else if n ≤ 49 then "RTMIN+" ++ Raw.ofNat (n - firstFree)
    else "RTMAX-" ++ Raw.ofNat (last - n)

/-- What is reported when a signal has ended a process. -/
def report (n : Nat) : Raw :=
  match table[n]? with
  | some (_, text) => text
  | none => "Real-time signal " ++ Raw.ofNat (n - firstFree)

/-- The signals up to the last one, without those below `least`. -/
def all (least : Nat) : List Nat := (List.range (last + 1)).drop least

/-- The number of a signal that a text counts, or names from the one with the number `least` on. -/
def number? (least : Nat) (text : Raw) : Option Nat :=
  match Raw.decimal? text with
  | some n => if n ≤ last then some n else none
  | none => (all least).find? fun n => name n = text.map Char.toUpper

/-- A signal that does nothing to a process by itself. -/
def isIdle (n : Nat) : Bool := [0, 17, 18, 23, 28].contains n

/-- A signal that stops a process, which does not go on by itself. -/
def isHalt (n : Nat) : Bool := 19 ≤ n && n ≤ 22

/-- The number of the signal that tells of the end of a process. -/
def ofChild : Nat := 17

/-- A signal whose arrival ends a process without a report. -/
def isSilent (n : Nat) : Bool := n = 2 || n = 13

/-- A signal that cannot be caught. -/
def isFinal (n : Nat) : Bool := n = 9 || n = 19

/-- The name of every signal leads back to it. -/
theorem number?_name : ∀ n ∈ all 0, number? 0 (name n) = some n := by decide +kernel

end Signal

end ScriptLoader.Shell
