import ScriptLoader.Files.Walk
import ScriptLoader.Process.Raw

/-!
# Machines

What all programs of a run share: the files, the pipes between them, the files that are open, and the time that has passed. An open
file has a place in its target; every process that was handed the same open file reads and writes on from there. Programs run one after
the other. One that runs beside its caller runs before it goes on, and what it puts into a pipe comes out at the time when it was put in.
-/

namespace ScriptLoader

open Files

/-- What an open file reads from and writes to. -/
inductive Target where
  | pipe (number : Nat)
  | file (loc : Location)
  | directory
  | null
  deriving DecidableEq, Repr

/-- An open file: what may be done with it, and the place of the next byte. One that appends writes at the end. -/
structure OpenFile where
  target : Target
  readable : Bool
  writable : Bool
  append : Bool
  place : Nat
  deriving DecidableEq, Repr

/-- How a file is opened: to read it, to write it from scratch, to write at its end, to read and write it, or to make it new. -/
inductive Opening where
  | read
  | write
  | append
  | update
  | new
  deriving DecidableEq, Repr

namespace Opening

/-- The file can be read. -/
def reads : Opening → Bool
  | read | update => true
  | _ => false

/-- The file can be written. -/
def writes : Opening → Bool
  | read => false
  | _ => true

end Opening

/-- What is in a pipe: what comes out next, and what was put in behind it, the last byte first. -/
structure Pipe where
  front : Raw
  back : Raw
  deriving DecidableEq, Repr

namespace Pipe

/-- What is in the pipe, in order. -/
def content (p : Pipe) : Raw := p.front ++ p.back.reverse

/-- The pipe with more in it. -/
def put (p : Pipe) (cs : Raw) : Pipe := { p with back := cs.reverse ++ p.back }

/-- What comes out when so many bytes are asked for, and what stays. -/
def take (p : Pipe) (n : Nat) : Raw × Pipe :=
  if p.back.isEmpty then (p.front.take n, ⟨p.front.drop n, []⟩) else (p.content.take n, ⟨p.content.drop n, []⟩)

theorem content_put (p : Pipe) (cs : Raw) : (p.put cs).content = p.content ++ cs := by simp [put, content]

theorem take_content (p : Pipe) (n : Nat) : (p.take n).1 ++ (p.take n).2.content = p.content := by
  unfold take
  split
  · rename_i h
    simp [content, List.isEmpty_iff.1 h]
  · simp [content]

end Pipe

/-- What a program that runs beside its caller puts into a pipe, and when. -/
structure Late where
  time : Int
  process : Nat
  pipe : Nat
  text : Raw
  deriving DecidableEq, Repr

/-- A process that can write to a pipe up to a time. -/
structure Holder where
  process : Nat
  pipe : Nat
  time : Int
  deriving DecidableEq, Repr

/-- A program that runs beside its caller: its number, and how many pipes there were when it began. -/
structure Beside where
  process : Nat
  pipes : Nat
  deriving DecidableEq, Repr

/-- A machine. `elapsed` is the time, in milliseconds, of what runs now, which may run beside others; `late` is what has not come out of
pipes yet, and `holders` are the processes for whose end a reader of a pipe waits. Processes are numbered; `signals` are those that were
sent and have not arrived, each with the number of its process. -/
structure Machine where
  files : FileSystem
  pipes : Array Pipe
  opened : Array OpenFile
  elapsed : Int
  beside : Option Beside
  late : List Late
  holders : List Holder
  nextProcess : Nat
  signals : List (Nat × Nat)

namespace Machine

/-- The number of the first process. -/
def firstProcess : Nat := 1000

/-- A machine on which nothing runs yet. -/
def start (files : FileSystem) : Machine := ⟨files, #[], #[], 0, none, [], [], firstProcess, []⟩

/-- Opens a file that is there; the result is its number. -/
def add (m : Machine) (f : OpenFile) : Nat × Machine := (m.opened.size, { m with opened := m.opened.push f })

/-- A new pipe with something in it: the number of the end that is read, and of the end that is written. -/
def addPipe (m : Machine) (cs : Raw) : Nat × Nat × Machine :=
  let target := Target.pipe m.pipes.size
  let m := { m with pipes := m.pipes.push ⟨cs, []⟩ }
  let (front, m) := m.add ⟨target, true, false, false, 0⟩
  let (back, m) := m.add ⟨target, false, true, false, 0⟩
  (front, back, m)

/-- What a pipe holds. -/
def pipeContent (m : Machine) (number : Nat) : Raw :=
  match m.pipes[number]? with
  | some p => p.content
  | none => []

/-- The content of the file at a location. -/
def content (m : Machine) (loc : Location) : Bytes := (m.files.content? loc).getD []

/-- Changes what is known of an open file. -/
def setOpened (m : Machine) (id : Nat) (f : OpenFile) : Machine := { m with opened := m.opened.setIfInBounds id f }

/-- Puts something into a pipe. -/
def put (m : Machine) (pipe : Nat) (cs : Raw) : Machine := { m with pipes := m.pipes.modify pipe (·.put cs) }

/-- Brings what is late and chosen into its pipes, in the order of time. -/
def deliver (m : Machine) (chosen : Late → Bool) : Machine :=
  let (now, later) := m.late.partition chosen
  (now.mergeSort fun a b => a.time ≤ b.time).foldl (fun m l => m.put l.pipe l.text) { m with late := later }

/-- The machine at that time, unless it has passed. -/
def advance (m : Machine) (time : Int) : Machine :=
  let m := { m with elapsed := max m.elapsed time }
  if m.beside.isSome then m else m.deliver fun l => l.time ≤ m.elapsed

/-- The time when the last writer of a pipe ends. -/
def closing (m : Machine) (pipe : Nat) : Int :=
  m.holders.foldl (fun t h => if h.pipe = pipe then max t h.time else t) m.elapsed

/-- The machine when the writers of a pipe have ended. -/
def awaitWriters (m : Machine) (pipe : Nat) : Machine :=
  let m := m.deliver fun l => l.pipe = pipe
  let time := m.closing pipe
  if m.elapsed < time then m.advance time else m

/-- The pipes that can be written through descriptors. -/
def writablePipes (m : Machine) (descriptors : List (Nat × Nat)) : List Nat :=
  descriptors.filterMap fun (_, id) =>
    match m.opened[id]? with
    | some ⟨.pipe number, _, true, _, _⟩ => some number
    | _ => none

/-- The machine with a process that could write through its descriptors up to a time. -/
def hold (m : Machine) (process : Nat) (descriptors : List (Nat × Nat)) (time : Int) : Machine :=
  { m with holders := (m.writablePipes descriptors).map (⟨process, ·, time⟩) ++ m.holders }

/-- The machine when a process has come to its end before its time. -/
def release (m : Machine) (process : Nat) : Machine :=
  { m with
    late := m.late.filter fun l => l.process ≠ process || l.time ≤ m.elapsed
    holders := m.holders.map fun h => if h.process = process then { h with time := min h.time m.elapsed } else h }

/-- Reads at most `n` bytes; nothing is read only at the end. -/
def read (m : Machine) (id n : Nat) : Except Fault (Raw × Machine) :=
  match m.opened[id]? with
  | none => .error .badDescriptor
  | some f =>
    if !f.readable then .error .badDescriptor
    else
      match f.target with
      | .null => .ok ([], m)
      | .directory => .error .isDirectory
      | .file loc =>
        let cs := ((m.content loc).drop f.place).take n
        .ok (Raw.ofBytes cs, m.setOpened id { f with place := f.place + cs.length })
      | .pipe number =>
        let m := m.awaitWriters number
        match m.pipes[number]? with
        | none => .ok ([], m)
        | some p =>
          let (cs, p) := p.take n
          .ok (cs, { m with pipes := m.pipes.setIfInBounds number p })

/-- How many bytes can be read from an open file before its end. -/
def remaining (m : Machine) (id : Nat) : Nat :=
  match m.opened[id]? with
  | none => 0
  | some f =>
    match f.target with
    | .file loc => (m.content loc).length - f.place
    | .pipe number => ((m.awaitWriters number).pipeContent number).length
    | _ => 0

/-- The bytes `cs` in the place of those from `place` on; a gap before them is filled with zeros. -/
def overwrite (content : Bytes) (place : Nat) (cs : Bytes) : Bytes :=
  content.take place ++ List.replicate (place - content.length) 0 ++ cs ++ content.drop (place + cs.length)

/-- Writes bytes. -/
def write (m : Machine) (id : Nat) (cs : Raw) : Except Fault Machine :=
  match m.opened[id]? with
  | none => .error .badDescriptor
  | some f =>
    if !f.writable then .error .badDescriptor
    else
      match f.target with
      | .null => .ok m
      | .directory => .error .isDirectory
      | .file loc =>
        let old := m.content loc
        let place := if f.append then old.length else f.place
        let m := { m with files := m.files.set loc (.file (overwrite old place (Raw.toBytes cs))) }
        .ok (m.setOpened id { f with place := place + cs.length })
      | .pipe number =>
        match m.beside with
        | some b => .ok (if number < b.pipes then { m with late := m.late ++ [⟨m.elapsed, b.process, number, cs⟩] } else m.put number cs)
        | none => .ok (m.put number cs)

/-- Where a name leads; a name that ends in a slash must be the name of a directory. -/
def locate (m : Machine) (cwd : Location) (name : Raw) : Except Fault Location :=
  let s := Raw.string name
  if name.isEmpty then .error .notFound
  else if maxPath < name.length then .error .nameTooLong
  else m.files.walk true maxLinks (targetStart s cwd) (targetNames s)

/-- What a name leads to. -/
def node? (m : Machine) (cwd : Location) (name : Raw) : Except Fault Node := do
  match m.files.node? (← m.locate cwd name) with
  | some n => .ok n
  | none => .error .notFound

/-- The number of the descriptor that a name stands for. -/
def descriptorOf? (name : Raw) : Option Nat :=
  match ["/dev/fd/".toList, "/proc/self/fd/".toList].find? (·.isPrefixOf name) with
  | some front => Raw.decimal? (name.drop front.length)
  | none => ["/dev/stdin".toList, "/dev/stdout".toList, "/dev/stderr".toList].idxOf? name

/-- Opens a file at a location. -/
def openAt (m : Machine) (how : Opening) (loc : Location) : Except Fault (Nat × Machine) :=
  let opened (target : Target) : OpenFile := ⟨target, how.reads, how.writes, how = .append, 0⟩
  match how, m.files.node? loc with
  | .read, none => .error .notFound
  | .read, some .directory => .ok (m.add (opened .directory))
  | _, some .directory => .error .isDirectory
  | .new, some _ => .error .alreadyExists
  | .write, _ | .new, none => .ok ({ m with files := m.files.set loc (.file []) }.add (opened (.file loc)))
  | _, some _ => .ok (m.add (opened (.file loc)))
  | _, none => .ok ({ m with files := m.files.set loc (.file []) }.add (opened (.file loc)))

/-- Why no file can be made that has a slash behind its name. -/
def refusalOfSlash (m : Machine) (cwd : Location) (name : Raw) : Fault :=
  let s := Raw.string name
  match m.files.walk true maxLinks (targetStart s cwd) ((targetNames s).dropLast.dropLast ++ ["."]) with
  | .ok _ => .isDirectory
  | .error f => f

/-- Opens the file of a name for a process with these descriptors; the result is the number of the open file. -/
def openNamed (m : Machine) (cwd : Location) (descriptors : List (Nat × Nat)) (how : Opening) (name : Raw) :
    Except Fault (Nat × Machine) :=
  if name = "/dev/null".toList then .ok (m.add ⟨.null, how.reads, how.writes, false, 0⟩)
  else
    match descriptorOf? name with
    | none =>
      if how.writes && name.getLast? = some '/' then .error (m.refusalOfSlash cwd name)
      else (m.locate cwd name).bind (m.openAt how)
    | some d =>
      match (descriptors.lookup d).bind fun id => m.opened[id]? with
      | none => .error .notFound
      | some f =>
        match f.target with
        | .file loc => m.openAt (if how = .new then .write else how) loc
        | target => .ok (m.add ⟨target, how.reads, how.writes, false, 0⟩)

end Machine

end ScriptLoader
