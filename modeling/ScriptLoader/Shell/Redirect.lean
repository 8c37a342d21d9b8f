import ScriptLoader.Shell.Expansion
import ScriptLoader.Shell.Token

/-!
# Redirections

A redirection gives a descriptor another open file, or takes it away. All names are expanded before the first file is opened, and what one
redirection has done is seen by the next.
-/

namespace ScriptLoader.Shell

open Files

/-- A redirection whose name is expanded: a file, a descriptor that is copied or closed, or a document. -/
inductive Redirected where
  | file (descriptor : Nat) (how : Opening) (name : Raw)
  | copy (descriptor source : Nat)
  | closed (descriptor : Nat)
  | document (descriptor number : Nat) (expanded : Bool)
  deriving DecidableEq, Repr

/-- The descriptor that a redirection changes. -/
def Redirected.descriptor : Redirected → Nat
  | .file d _ _ | .copy d _ | .closed d | .document d _ _ => d

/-- What is wrong with a file that is opened, or made. -/
def openingReport (opened : Bool) (name : Raw) (f : Fault) : Raw :=
  let missing := f = .notFound || f = .notDirectory
  let verb : Raw := if opened then "cannot open " else "cannot create "
  let reason : Raw := if !missing then f.words else if opened then "No such file" else "Directory nonexistent"
  verb ++ name ++ [':', ' '] ++ reason

/-- Descriptors with another open file for one of them. -/
def withDescriptor (ds : List (Nat × Nat)) (d id : Nat) : List (Nat × Nat) := (d, id) :: ds.filter (·.1 ≠ d)

/-- Descriptors without one of them. -/
def withoutDescriptor (ds : List (Nat × Nat)) (d : Nat) : List (Nat × Nat) := ds.filter (·.1 ≠ d)

theorem lookup_withDescriptor (ds : List (Nat × Nat)) (d id : Nat) : (withDescriptor ds d id).lookup d = some id := by
  simp [withDescriptor]

/-- Descriptors as they are now, but as they were before for those that have been changed. -/
def restored (changed : List Nat) (before now : List (Nat × Nat)) : List (Nat × Nat) :=
  before.filter (changed.contains ·.1) ++ now.filter (!changed.contains ·.1)

theorem lookup_filter_fst (p : Nat → Bool) (ds : List (Nat × Nat)) (d : Nat) :
    (ds.filter (p ·.1)).lookup d = if p d then ds.lookup d else none := by
  induction ds with
  | nil => simp
  | cons e ds ih =>
    rcases e with ⟨c, id⟩
    by_cases h : d = c
    · subst h
      by_cases hp : p d <;> simp [hp, ih]
    · have hc : (d == c) = false := by simp [h]
      by_cases hp : p c <;> simp [hp, List.lookup_cons, hc, ih]

/-- What has been changed is as it was before, and all else is as it is. -/
theorem lookup_restored (changed : List Nat) (before now : List (Nat × Nat)) (d : Nat) :
    (restored changed before now).lookup d = if changed.contains d then before.lookup d else now.lookup d := by
  rw [restored, List.lookup_append, lookup_filter_fst (changed.contains ·), lookup_filter_fst (!changed.contains ·)]
  by_cases h : d ∈ changed <;> simp [h]

namespace Act

/-- Changes the descriptors. -/
def changeDescriptors (f : List (Nat × Nat) → List (Nat × Nat)) : Act Unit :=
  modify fun s => { s with process := { s.process with descriptors := f s.process.descriptors } }

/-- Complains about the script as it is read so far. -/
def refuseScript {α : Type} (f : SyntaxFault) : Act α := do
  modify fun s => { s with line := s.lineRead }
  fail ("Syntax error: " ++ f.message)

/-- A redirection with its name expanded. -/
def expandRedirection (substitute : Tree → Act Raw) (r : Redirection) : Act Redirected := do
  match r with
  | .file d how mayReplace name =>
    let name ← Expansion.text substitute Style.single name
    return .file d (if how = .write && !mayReplace && (← get).has 'C' then .new else how) name
  | .duplicate d source =>
    match ← Expansion.text substitute Style.single source with
    | ['-'] => return .closed d
    | [c] => if c.isDigit then return .copy d (c.toNat - 48) else refuseScript .descriptor
    | _ => refuseScript .descriptor
  | .document d number expanded => return .document d number expanded

/-- The text of a document. -/
def documentText (substitute : Tree → Act Raw) (number : Nat) (expanded : Bool) : Act Raw := do
  let parts := ((← get).documents.lookup number).getD []
  if expanded then Expansion.text substitute Style.document parts else return textOf parts

/-- Opens what a redirection names, and gives it to its descriptor. -/
def openRedirected (substitute : Tree → Act Raw) (r : Redirected) : Act Unit := do
  match r with
  | .file d how name =>
    match ← routine (Routine.openNamed how name) with
    | .ok id => changeDescriptors (withDescriptor · d id)
    | .error f =>
      -- What must be new and is there is opened, if it is no file.
      let p := (← get).process
      let isThere := how = .new && f = .isDirectory && (p.machine.node? p.cwd name).toBool
      fail (openingReport (how = .read || isThere) name f)
  | .copy d source =>
    match (← get).process.descriptors.lookup source with
    | some id => changeDescriptors (withDescriptor · d id)
    | none =>
      -- The descriptor is put aside before the other one is looked for, and nothing can be said without that for complaints.
      if d = Routine.errors then changeDescriptors (withoutDescriptor · d)
      fail (Raw.ofNat source ++ [':', ' '] ++ Raw.ofString Fault.badDescriptor.words)
  | .closed d => changeDescriptors (withoutDescriptor · d)
  | .document d number expanded =>
    let text ← documentText substitute number expanded
    let s ← get
    let (front, _, machine) := s.process.machine.addPipe text
    set { s with process := { s.process with machine } }
    changeDescriptors (withDescriptor · d front)

/-- Expands redirections. One of a descriptor to itself does nothing, whether there is such a descriptor or not. -/
def expandRedirections (substitute : Tree → Act Raw) (rs : List Redirection) : Act (List Redirected) := do
  return (← rs.mapM (expandRedirection substitute)).filter fun r =>
    match r with
    | .copy d source => d ≠ source
    | _ => true

/-- Opens what redirections name, in their order. -/
def openAll (substitute : Tree → Act Raw) (rs : List Redirected) : Act Unit := rs.forM (openRedirected substitute)

/-- Takes redirections back: what they changed is as it was in `before`. -/
def takeBack (before : List (Nat × Nat)) (rs : List Redirected) : Act Unit :=
  changeDescriptors (restored (rs.map (·.descriptor)) before)

/-- Does something behind redirections, which is told whether they failed, and takes them back, unless they are to stay. They are taken
back too when the shell stops; a process that has ended needs no descriptors. -/
def behind {α : Type} (substitute : Tree → Act Raw) (rs : List Redirected) (stay : Bool) (act : Bool → Act α) : Act α := do
  let before := (← get).process.descriptors
  let whole : Act (α × Bool) := do
    let failed ← tryCatch (do openAll substitute rs; return false) fun stop =>
      if stop matches .failed then return true else throw stop
    return (← act failed, failed)
  let (a, failed) ← tryCatch whole fun stop => do
    if !(stop matches .ended _) then takeBack before rs
    throw stop
  if !stay || failed then takeBack before rs
  return a

end Act

end ScriptLoader.Shell
