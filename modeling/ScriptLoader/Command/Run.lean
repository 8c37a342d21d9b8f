import ScriptLoader.Shell.Invocation
import ScriptLoader.World

/-!
# Runs of commands

A command runs as a process of its own, with an input and with pipes for its output and its errors. It is over when nothing can write to
them any more.
-/

namespace ScriptLoader.Command

open Files Shell

/-- The variables that a command finds. -/
def environment : List (Raw × Raw) :=
  [("HOME", "/root"), ("LANG", "C.UTF-8"),
   ("PATH", "/usr/local/bin:/usr/local/sbin:/usr/local/bin:/usr/sbin:/usr/bin:/sbin:/bin")].map fun (x, v) =>
    (Raw.ofString x, Raw.ofString v)

/-- The directories that every system has. -/
def systemDirectories : List Location :=
  [["bin"], ["dev"], ["etc"], ["home"], ["lib"], ["media"], ["mnt"], ["opt"], ["proc"], ["root"], ["run"], ["sbin"], ["srv"],
   ["sys"], ["tmp"], ["usr"], ["usr", "bin"], ["usr", "lib"], ["usr", "local"], ["usr", "local", "bin"], ["usr", "local", "sbin"],
   ["usr", "sbin"], ["usr", "share"], ["var"], ["var", "tmp"]]

/-- The files together with the directories that every system has. -/
def withSystem (files : FileSystem) : FileSystem :=
  systemDirectories.foldl (fun fs dir => if (fs.node? dir).isSome then fs else fs.set dir .directory) files

/-- A process with an input, and the ends from which its output and its errors are read. -/
def newProcess (files : FileSystem) (cwd : Location) (input : Bytes) : Process × Nat × Nat :=
  let (stdin, _, m) := (Machine.start (withSystem files)).addPipe (Raw.ofBytes input)
  let (out, stdout, m) := m.addPipe []
  let (err, stderr, m) := m.addPipe []
  let number := m.nextProcess
  let machine := { m with nextProcess := number + 1 }
  let process : Process :=
    { machine, cwd, descriptors := [(0, stdin), (1, stdout), (2, stderr)], environment, number, caller := number - 1
      ignored := [] }
  (process, out, err)

/-- Where the program of a name is, or why it cannot be run. -/
def locate (p : Process) (name : Raw) : Except Fault String :=
  let path := if name.contains '/' then some name else
    ((directories ((p.environment.lookup "PATH".toList).getD [])).map fun dir => dir ++ '/' :: name).find? fun path =>
      (programAt? path).isSome
  match path with
  | none => .error .notFound
  | some path =>
    match programAt? path with
    | some program => .ok program
    | none => .error (refusal p path)

/-- What is read from a pipe when all is over. -/
def outputOf (m : Machine) (id : Nat) : Bytes :=
  match m.read id (m.remaining id) with
  | .ok (cs, _) => Raw.toBytes cs
  | .error _ => []

/-- The machine when all that can write to its pipes is over. -/
def settled (m : Machine) : Machine :=
  { m with elapsed := (List.range m.pipes.size).foldl (fun t pipe => max t (m.closing pipe)) m.elapsed }

/-- Runs the words of a command on an input, for so many milliseconds if there is a limit. The result is what came of it, and the files
behind it. -/
def run (files : FileSystem) (cwd : Location) (words : List String) (input : Bytes) (limit : Option Int) : Outcome × FileSystem :=
  match words with
  | [] => (.unavailable "no command", files)
  | name :: _ =>
    if words.any (·.toList.contains '\x00') then (.invalid nulReport, files)
    else
      let (p, out, err) := newProcess files cwd input
      let words := words.map Raw.ofString
      match locate p (words.head?.getD []) with
      | .error f => (.unavailable (f.report name), files)
      | .ok program =>
        let routine : Routine Ending := match tools.lookup program with
          | some tool => tool words
          | none => (Engine.ofDepth Engine.maxDepth).shell words
        let (ending, p) := routine.run p
        let m := settled p.machine
        let late := ending = .endless || limit.any (· ≤ m.elapsed)
        if late then
          (.unavailable ("Command '" ++ name ++ "' timed out after " ++ toString (limit.getD 0) ++ " milliseconds"), m.files)
        else
          let status : Int := match ending with
            | .exited n => n % 256
            | .killed signal => -(signal : Int)
            | .endless => 0
          (.finished status (outputOf m out) (outputOf m err), m.files)

end ScriptLoader.Command
