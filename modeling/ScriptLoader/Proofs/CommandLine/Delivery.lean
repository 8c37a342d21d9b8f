import ScriptLoader.CommandLine.Run
import ScriptLoader.Proofs.Loader.Making

/-!
# What a run delivers

A run of the command line compiles one source and delivers the code: to the output, or to a file, with the directories above it
(`written`). A file that has been delivered holds the bytes of the code (`read_of_written`), and no text is lost by it
(`keepsTexts_written`). How a run ends is a function of what comes of the delivery (`seen_start`).
-/

namespace ScriptLoader.CommandLine

open Action Cache Files FileSystem Text

/-! ## Writing the code -/

/-- What comes of writing a file with the directories above it: a failure, if there is one, and the files. -/
def written (h : Host) (p : Path) (bs : Bytes) : Except Failure Unit × FileSystem :=
  match h.files.ensureDirectories h.cwd p.parent with
  | (fs, some f) => (.error (Failure.ofPath p.parent f), fs)
  | (fs, none) =>
    match fs.write h.cwd p bs with
    | .ok fs' => (.ok (), fs')
    | .error f => (.error (Failure.ofPath p f), fs)

theorem exec_writeOutput (p : Path) (bs : Bytes) (w : World) :
    exec (writeOutput p bs) w =
      ((written w.host p bs).1, { w with host := { w.host with files := (written w.host p bs).2 } }) := by
  unfold writeOutput written
  simp only [exec_bind, exec_host, exec_setFiles]
  generalize w.host.files.ensureDirectories w.host.cwd p.parent = made
  rcases made with ⟨fs, _ | f⟩
  · simp only [exec_bind, exec_ofExcept]
    cases fs.write w.host.cwd p bs with
    | ok fs' => rfl
    | error f => rfl
  · rfl

variable {h : Host} {p : Path} {bs : Bytes} {fs : FileSystem}

theorem start_outputPath (h : Host) (o : Options) (input : String) : (outputPath h o input).start h.cwd = [] := start_absolute h _

/-- What is written takes the place of a file or of nothing, below directories that have been made where they were missing. -/
theorem written_cases (hp : p.start h.cwd = []) :
    (∃ f, (written h p bs).1 = .error f ∧ Grows h.files (written h p bs).2) ∨
      ∃ made l, (written h p bs).1 = .ok () ∧ Grows h.files made ∧ made.locate true h.cwd p = .ok l ∧ Loose (made.node? l) ∧
        Holds made l bs (written h p bs).2 := by
  have hgrows := grows_ensureDirectories h.files h.cwd p.parent
  unfold written
  generalize h.files.ensureDirectories h.cwd p.parent = result at hgrows
  rcases result with ⟨made, _ | f⟩
  · simp only
    cases hwrite : made.write h.cwd p bs with
    | error f => exact .inl ⟨_, rfl, hgrows⟩
    | ok fs' =>
      obtain ⟨l, hl, hdirectory, rfl⟩ := write_eq_ok_iff.mp hwrite
      have hlink := (hp ▸ (locate_eq_ok_iff.mp hl).2 : made.Walks true maxLinks [] p.names l).noLink
      have hroot : l ≠ [] := by
        rintro rfl
        exact hdirectory rfl
      exact .inr ⟨made, l, rfl, hgrows, hl, ⟨hdirectory, hlink⟩, holds_set hroot bs⟩
  · exact .inl ⟨_, rfl, hgrows⟩

theorem keepsTexts_written (hp : p.start h.cwd = []) (htext : IsText bs) : KeepsTexts h.files (written h p bs).2 := by
  rcases written_cases hp with ⟨f, -, hgrows⟩ | ⟨made, l, -, hgrows, -, hloose, hholds⟩
  · exact .of_grows hgrows
  · exact (KeepsTexts.of_grows hgrows).trans (.of_holds hholds hloose htext)

/-- What has been written is read. -/
theorem read_of_written (hp : p.start h.cwd = []) (hok : (written h p bs).1 = .ok ()) :
    (written h p bs).2.read h.cwd p = .ok bs := by
  rcases written_cases hp with ⟨f, hf, -⟩ | ⟨made, l, -, -, hl, hloose, hholds⟩
  · exact absurd (hf.symm.trans hok) (by simp)
  · exact read_eq_ok_iff.mpr ⟨l, locate_of_keepsWays hl (hholds.sameWays hloose).keepsWays, hholds.node?⟩

/-! ## Delivering the code -/

/-- What comes of delivering code: what goes to the output and is reported, or a failure, and the files. -/
def delivered (h : Host) (o : Options) (input code : String) : Except Failure (String × String) × FileSystem :=
  if o.output = some "-" then (.ok (code, ""), h.files)
  else
    match encodeText "utf-8" code with
    | .error f => (.error f, h.files)
    | .ok bs =>
      let p := outputPath h o input
      let (result, files) := written h p bs
      (result.map fun _ => ("", green "--- Compilation Successful ---" ++ "\nJavaScript written to " ++ p.text ++ "\n"), files)

/-- A run compiles its input and delivers the code, if there is one. -/
theorem exec_deliver {l : Loader} (hencoding : l.config.encoding = "utf-8") (o : Options) (input : String) (w : World) :
    (exec (deliver l o input) w).1 =
        (exec (l.compile input) w).1.bind (fun code => (delivered (exec (l.compile input) w).2.host o input code).1) ∧
      (exec (deliver l o input) w).2.host =
        match (exec (l.compile input) w).1 with
        | .ok code => { (exec (l.compile input) w).2.host with files := (delivered (exec (l.compile input) w).2.host o input code).2 }
        | .error _ => (exec (l.compile input) w).2.host := by
  unfold deliver
  rw [exec_bind]
  rcases exec (l.compile input) w with ⟨f | code, w'⟩
  · exact ⟨rfl, rfl⟩
  · simp only [Except.bind, delivered, hencoding]
    by_cases houtput : o.output = some "-"
    · simp [houtput]
    · simp only [houtput, if_false, exec_bind, exec_host, exec_ofExcept]
      cases encodeText "utf-8" code with
      | error f => exact ⟨rfl, rfl⟩
      | ok bs =>
        simp only [mapError_id, exec_writeOutput]
        cases (written w'.host (outputPath w'.host o input) bs).1 with
        | error f => exact ⟨rfl, rfl⟩
        | ok _ => exact ⟨rfl, rfl⟩

/-! ## The end of a run -/

/-- What is seen of the end of a run, its reports apart: the status and what goes to the output, unless the arguments cannot be read. -/
def Ending.seen : Ending → Option (Nat × String)
  | usage => none
  | finished status output _ => some (status, output)

/-- How a run ends after a delivery. -/
def concluded : Except Failure (String × String) → Except Failure (Option (Nat × String))
  | .ok (output, _) => .ok (some (0, output))
  | .error f => if (failureReport? f).isSome then .ok (some (1, "")) else .error f

theorem exec_attempt (l : Loader) (o : Options) (input : String) (w : World) :
    (exec (attempt l o input) w).1.map (fun r => some (r.1, r.2.1)) = concluded (exec (deliver l o input) w).1 ∧
      (exec (attempt l o input) w).2.host = (exec (deliver l o input) w).2.host := by
  unfold attempt
  rw [exec_tryCatch, exec_bind]
  rcases exec (deliver l o input) w with ⟨f | ⟨output, report⟩, w'⟩
  · simp only [concluded]
    cases hreport : failureReport? f with
    | none => simp [Except.map]
    | some report => simp [Except.map]
  · exact ⟨rfl, rfl⟩

/-- A run whose arguments and whose command can be read ends as its delivery does. -/
theorem seen_run {arguments : List String} {o : Options} {c : Compiler} (duration : String) (w : World)
    (ho : options? arguments = some o) (hc : compilerOf o = .ok c) :
    (exec (run duration arguments) w).1.map Ending.seen = concluded (exec (deliver (loaderOf w.host o c) o (o.input.getD "")) w).1 ∧
      (exec (run duration arguments) w).2.host = (exec (deliver (loaderOf w.host o c) o (o.input.getD "")) w).2.host := by
  obtain ⟨hresult, hhost⟩ := exec_attempt (loaderOf w.host o c) o (o.input.getD "") w
  rw [← hresult, ← hhost]
  unfold run
  simp only [ho, exec_bind, exec_host, hc, exec_ofExcept, mapError_ok, exec_get]
  rcases exec (attempt (loaderOf w.host o c) o (o.input.getD "")) w with ⟨f | ⟨status, output, report⟩, w'⟩
  · exact ⟨rfl, rfl⟩
  · simp [Except.map, Ending.seen]

end ScriptLoader.CommandLine
