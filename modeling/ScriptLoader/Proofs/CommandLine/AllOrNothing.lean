import ScriptLoader.Proofs.CommandLine.Runs
import ScriptLoader.Proofs.Loader.Refusals

/-!
# All or nothing

A run of the command line either ends with status 0 and has delivered the code of its input, or no file is another one afterwards
(`result_all_or_nothing`). What its cache writes lies in the directory of the cache, and what it delivers in one place. Apart from that, a
run makes at most directories where nothing was (`ChangesAt`).
-/

namespace ScriptLoader

open Action Cache Files FileSystem Text

/-! ## Where files change -/

namespace Files.FileSystem

variable {fs fs' fs'' : FileSystem} {places others : Location → Prop}

/-- Whatever has changed has changed at one of the places, but for directories that have been made where nothing was. -/
def ChangesAt (fs fs' : FileSystem) (places : Location → Prop) : Prop :=
  ∀ l, places l ∨ fs'.node? l = fs.node? l ∨ (fs.node? l = none ∧ fs'.node? l = some .directory)

theorem ChangesAt.refl (fs : FileSystem) (places : Location → Prop) : ChangesAt fs fs places := fun _ => .inr (.inl rfl)

theorem ChangesAt.of_grows (h : Grows fs fs') : ChangesAt fs fs' places := fun l => .inr (h l)

theorem ChangesAt.mono (h : ChangesAt fs fs' places) (hplaces : ∀ l, places l → others l) : ChangesAt fs fs' others :=
  fun l => (h l).imp_left (hplaces l)

theorem ChangesAt.trans (h : ChangesAt fs fs' places) (h' : ChangesAt fs' fs'' places) : ChangesAt fs fs'' places := by
  intro l
  rcases h l with hplace | hsame | ⟨hnone, hdir⟩
  · exact .inl hplace
  · exact (h' l).imp_right fun hlater => by rwa [hsame] at hlater
  · refine (h' l).imp_right fun hlater => .inr ⟨hnone, ?_⟩
    rcases hlater with hsame | ⟨hmissing, -⟩
    · rw [hsame, hdir]
    · cases hdir.symm.trans hmissing

end Files.FileSystem

/-! ## What a compilation changes -/

/-- The place lies in the directory of the cache. -/
def CodeCache.Holds (c : CodeCache) (h : Host) (l : Location) : Prop :=
  ∃ d loc n, c = .disk d ∧ h.files.Leads (d.start h.cwd) d.names loc ∧ l = loc ++ [n]

namespace CodeCache

variable {c : CodeCache} {fine : Bytes → Prop} {h h' : Host}

/-- What a cache has altered lies in its directory. -/
theorem Alters.changesAt (halters : c.Alters fine h h') : ChangesAt h.files h'.files (c.Holds h) := by
  cases c with
  | disk d =>
    intro l
    cases halters.2 l with
    | same same => exact .inr (.inl same)
    | made missing made => exact .inr (.inr ⟨missing, made⟩)
    | written _ _ _ leads child => exact .inl ⟨d, _, _, rfl, leads, child⟩
  | _ =>
    obtain rfl : h' = h := halters
    exact .refl _ _

theorem alters_put (c : CodeCache) (s : Source) (code : String) (w : World) :
    c.Alters (fun _ => True) w.host (exec (c.put s code) w).2.host := by
  cases c with
  | disk d =>
    rw [exec_put_disk]
    exact ⟨rfl, (Changes.refl d w.host.cwd _ w.host.files).put rfl trivial (putResult_diskPut w.host d s code)⟩
  | _ => rfl

end CodeCache

/-- To compile a name alters at most what the cache writes, if the command of the compiler leaves the files as they are. -/
theorem Loader.alters_compile (l : Loader) (n : String) (w : World) (hfiles : l.compiler.LeavesFiles w.host) :
    l.cache.Alters (fun _ => True) w.host (exec (l.compile n) w).2.host := by
  have hsame {w' : World} (hframe : l.compiler.Frame l.resolver w w') : w'.host = w.host := by
    rcases hframe.host with hsame | ⟨words, timeout, encoding, input, hcommand, hleft⟩
    · exact hsame
    · rw [hleft, hfiles words timeout encoding hcommand input]
  rcases l.frame_or_stored n w with hframe | ⟨s, code, w₁, hframe, -, hexec⟩
  · rw [hsame hframe]
    exact .refl _ _ _
  · obtain ⟨es, hstore⟩ := exec_tolerate ("Could not cache compiled code for " ++ s.uri) () (l.cache.put s code) w₁
    rw [hexec, Loader.store, hstore, ← hsame hframe]
    exact l.cache.alters_put s code w₁

namespace CommandLine

/-! ## What a delivery changes -/

/-- What comes of delivering code: the system refuses, when at most directories have been made, or the code goes to the output, or into the
file that the path leads to. -/
inductive Delivery (h : Host) (o : Options) (input code : String) : Except Failure (String × String) × FileSystem → Prop where
  | refused {f : Failure} {fs : FileSystem} (grows : Grows h.files fs) : Delivery h o input code (.error f, fs)
  | shown (output : o.output = some "-") : Delivery h o input code (.ok (code, ""), h.files)
  | stored {report : String} {fs : FileSystem} {l : Location} {bs : Bytes} (output : o.output ≠ some "-")
      (bytes : encodeText "utf-8" code = .ok bs) (leads : fs.locate true h.cwd (outputPath h o input) = .ok l)
      (holds : fs.node? l = some (.file bs)) (others : ChangesAt h.files fs (· = l)) : Delivery h o input code (.ok ("", report), fs)

theorem delivery_delivered (h : Host) (o : Options) (input code : String) : Delivery h o input code (delivered h o input code) := by
  unfold delivered
  by_cases houtput : o.output = some "-"
  · rw [if_pos houtput]
    exact .shown houtput
  rw [if_neg houtput]
  cases hbytes : encodeText "utf-8" code with
  | error f => exact .refused (.refl _)
  | ok bs =>
    simp only
    have hcases := @written_cases h (outputPath h o input) bs (start_outputPath h o input)
    generalize written h (outputPath h o input) bs = result at hcases ⊢
    obtain ⟨outcome, fs⟩ := result
    rcases hcases with ⟨f, rfl, hgrows⟩ | ⟨made, l, rfl, hgrows, hl, hloose, hholds⟩
    · exact .refused hgrows
    · refine .stored houtput hbytes (locate_of_keepsWays hl (hholds.sameWays hloose).keepsWays) hholds.node? ?_
      refine ChangesAt.trans (.of_grows hgrows) fun x => ?_
      rw [hholds x]
      by_cases hx : x = l
      · exact .inl hx
      · exact .inr (.inl (if_neg hx))

/-! ## The end of a run -/

/-- A run is seen to end with a status just when its delivery comes to that. -/
theorem concluded_cases {r : Except Failure (String × String)} {status : Nat} {output : String}
    (hend : concluded r = .ok (some (status, output))) :
    (∃ report, r = .ok (output, report) ∧ status = 0) ∨ ∃ f, r = .error f ∧ status = 1 ∧ output = "" := by
  unfold concluded at hend
  split at hend
  · cases hend
    exact .inl ⟨_, rfl, rfl⟩
  · split at hend
    · cases hend
      exact .inr ⟨_, rfl, rfl, rfl⟩
    · cases hend

theorem finished_of_seen {x : Except Failure Ending} {status : Nat} {output : String}
    (hseen : x.map Ending.seen = .ok (some (status, output))) : ∃ errors, x = .ok (.finished status output errors) := by
  rcases x with f | _ | ⟨status', output', errors⟩
  · cases hseen
  · cases hseen
  · obtain ⟨rfl, rfl⟩ := Prod.mk.inj (Option.some.inj (Except.ok.inj hseen))
    exact ⟨errors, rfl⟩

namespace Invocation

variable {i : Invocation} {h : Host} {o : Options} {c : Compiler}

/-- A place in the directory of the cache that a run uses, as its path leads there at the start. -/
def Caches (i : Invocation) (h : Host) (l : Location) : Prop :=
  ∃ o directory loc n, i.options? = some o ∧ chosen o.cacheDirectory = some directory ∧
    h.files.Leads ((Path.ofText directory).start h.cwd) (Path.ofText directory).names loc ∧ l = loc ++ [n]

theorem caches_of_holds (ho : i.options? = some o) {l : Location} (hl : (loaderOf h o c).cache.Holds h l) : i.Caches h l := by
  obtain ⟨d, loc, n, hd, hleads, hchild⟩ := hl
  unfold loaderOf at hd
  simp only at hd
  split at hd
  · rename_i directory hdirectory
    obtain rfl := CodeCache.disk.inj hd
    exact ⟨o, directory, loc, n, ho, hdirectory, hleads, hchild⟩
  · cases hd

/-- A run whose arguments or whose command cannot be read does not come to an end with a status. -/
theorem result_of_compiler?_eq_none (hno : i.compiler? = none) (status : Nat) (output errors : String) :
    (i.result h).1 ≠ .ok (.finished status output errors) := by
  unfold compiler? at hno
  unfold result run
  cases ho : CommandLine.options? i.arguments with
  | none => nofun
  | some o =>
    rw [show i.options? = some o from ho, Option.bind_some] at hno
    cases hc : compilerOf o with
    | ok c =>
      rw [hc] at hno
      cases hno
    | error f =>
      simp only [exec_bind, exec_host, hc, exec_ofExcept, mapError_error]
      nofun

/-- A run ends as its delivery does: the compiled code is delivered on the files that the compilation has left. -/
theorem result_cases (ho : i.options? = some o) (hc : compilerOf o = .ok c) (hcommand : c.LeavesFiles h) :
    ∃ (r : Except Failure (String × String)) (made : FileSystem),
      (i.result h).1.map Ending.seen = concluded r ∧ ChangesAt h.files made (i.Caches h) ∧
        ((∃ f, r = .error f ∧ (i.after h).files = made) ∨
          ∃ code, (exec ((loaderOf h o c).compile o.inputName) (.fresh h)).1 = .ok code ∧
            Delivery { h with files := made } o o.inputName code (r, (i.after h).files)) := by
  obtain ⟨hseen, hhost⟩ := seen_run (w := .fresh h) i.duration ho hc
  obtain ⟨hdeliver, hfiles⟩ := exec_deliver (l := loaderOf h o c) rfl o o.inputName (.fresh h)
  have halters := (loaderOf h o c).alters_compile o.inputName (.fresh h) hcommand
  replace hseen : (i.result h).1.map Ending.seen = concluded (exec (deliver (loaderOf h o c) o o.inputName) (.fresh h)).1 := hseen
  replace hhost : i.after h = (exec (deliver (loaderOf h o c) o o.inputName) (.fresh h)).2.host := hhost
  generalize exec ((loaderOf h o c).compile o.inputName) (.fresh h) = p at hdeliver hfiles halters ⊢
  obtain ⟨x, w⟩ := p
  refine ⟨_, w.host.files, hseen, halters.changesAt.mono fun l => caches_of_holds ho, ?_⟩
  rw [hhost, hfiles, hdeliver]
  cases x with
  | error f => exact .inl ⟨f, rfl, rfl⟩
  | ok code =>
    refine .inr ⟨code, rfl, ?_⟩
    have hdelivery := delivery_delivered w.host o o.inputName code
    rw [halters.host] at hdelivery ⊢
    exact hdelivery

/-- A run is all or nothing, if its command leaves the files as they are. If it ends with status 0, the code that its input is compiled to
has gone to the output or, as UTF-8, into the file that the path of the output leads to, and no other file outside the directory of the
cache has changed. Otherwise nothing goes to the output, and no file outside the directory of the cache has changed. -/
theorem result_all_or_nothing (i : Invocation) (h : Host) (hcommand : ∀ c, i.compiler? = some c → c.LeavesFiles h) :
    (∀ output errors, (i.result h).1 = .ok (.finished 0 output errors) →
      ∃ o c code, i.options? = some o ∧ compilerOf o = .ok c ∧
        (exec ((loaderOf h o c).compile o.inputName) (.fresh h)).1 = .ok code ∧
        ((o.output = some "-" ∧ output = code ∧ ChangesAt h.files (i.after h).files (i.Caches h)) ∨
          (o.output ≠ some "-" ∧ output = "" ∧ ∃ bs l, encodeText "utf-8" code = .ok bs ∧
            (i.after h).files.locate true h.cwd (outputPath h o o.inputName) = .ok l ∧
            (i.after h).files.node? l = some (.file bs) ∧
            ChangesAt h.files (i.after h).files fun x => x = l ∨ i.Caches h x))) ∧
      ((∀ output errors, (i.result h).1 ≠ .ok (.finished 0 output errors)) →
        (∀ status output errors, (i.result h).1 = .ok (.finished status output errors) → output = "") ∧
          ChangesAt h.files (i.after h).files (i.Caches h)) := by
  cases hcompiler : i.compiler? with
  | none =>
    have hno := result_of_compiler?_eq_none (h := h) hcompiler
    refine ⟨fun output errors hend => absurd hend (hno 0 output errors), fun _ => ⟨fun status output errors hend => ?_, ?_⟩⟩
    · exact absurd hend (hno status output errors)
    · rw [after_of_compiler?_eq_none hcompiler]
      exact .refl _ _
  | some c =>
    obtain ⟨o, ho, hc⟩ := Option.bind_eq_some_iff.mp hcompiler
    replace hc := toOption_eq_some_iff.mp hc
    obtain ⟨r, made, hseen, hmade, hcases⟩ := result_cases ho hc (hcommand c hcompiler)
    have hconcluded {status : Nat} {output errors : String} (hend : (i.result h).1 = .ok (.finished status output errors)) :
        concluded r = .ok (some (status, output)) := by
      rw [← hseen, hend]
      rfl
    refine ⟨fun output errors hend => ?_, fun hnot => ?_⟩
    · rcases concluded_cases (hconcluded hend) with ⟨report, rfl, -⟩ | ⟨f, -, hstatus, -⟩
      · rcases hcases with ⟨f, hf, -⟩ | ⟨code, hcode, hdelivery⟩
        · cases hf
        refine ⟨o, c, code, ho, hc, hcode, ?_⟩
        generalize (i.after h).files = fs at hdelivery ⊢
        cases hdelivery with
        | shown houtput => exact .inl ⟨houtput, rfl, hmade⟩
        | stored houtput hbytes hleads hholds hothers =>
          refine .inr ⟨houtput, rfl, _, _, hbytes, hleads, hholds, ?_⟩
          exact (hmade.mono fun _ => .inr).trans (hothers.mono fun _ => .inl)
      · cases hstatus
    · rcases r with f | ⟨output, report⟩
      · refine ⟨fun status output errors hend => ?_, ?_⟩
        · rcases concluded_cases (hconcluded hend) with ⟨_, hok, -⟩ | ⟨-, -, -, houtput⟩
          · cases hok
          · exact houtput
        · rcases hcases with ⟨-, -, hfiles⟩ | ⟨code, -, hdelivery⟩
          · rwa [hfiles]
          · generalize (i.after h).files = fs at hdelivery ⊢
            cases hdelivery with
            | refused hgrows => exact hmade.trans (.of_grows hgrows)
      · obtain ⟨errors, hend⟩ := finished_of_seen hseen
        exact absurd hend (hnot output errors)

theorem finished_of_product {p : Product} (hproduct : i.product h = .ok (some p)) :
    ∃ errors, (i.result h).1 = .ok (.finished p.status p.output errors) ∧ i.codeFile h p.status = p.code := by
  unfold product at hproduct
  cases hresult : (i.result h).1 with
  | error f =>
    rw [hresult] at hproduct
    cases hproduct
  | ok ending =>
    rw [hresult] at hproduct
    cases ending with
    | usage => nomatch Except.ok.inj hproduct
    | finished status output errors =>
      obtain rfl := Option.some.inj (Except.ok.inj hproduct)
      exact ⟨errors, rfl, rfl⟩

/-- The code of a module is written; with a cache in the place of the code it is not, and nothing outside the cache has changed. -/
theorem result_all_or_nothing_code :
    let h := Shared.host false
    (∃ errors l, (Shared.toCacheUncached.result h).1 = .ok (.finished 0 "" errors) ∧
        (Shared.toCacheUncached.after h).files.node? l = some (.file (Utf8.encode "import './b';".toList)) ∧
        ChangesAt h.files (Shared.toCacheUncached.after h).files fun x => x = l ∨ Shared.toCacheUncached.Caches h x) ∧
      ∃ errors, (Shared.toCache.result h).1 = .ok (.finished 1 "" errors) ∧
        ChangesAt h.files (Shared.toCache.after h).files (Shared.toCache.Caches h) := by
  intro h
  have hcommand {i : Invocation} {o : Options} (ho : i.options? = some o) (hc : compilerOf o = .ok (.eraser .standard false)) :
      ∀ c, i.compiler? = some c → c.LeavesFiles h := by
    intro c hc' words timeout encoding heq
    rw [compiler?_eq ho hc, heq] at hc'
    cases hc'
  have hchecks := Shared.compilerOf_options "cache" false
  constructor
  · obtain ⟨errors, hend, hfile⟩ := finished_of_product Shared.product_toCacheUncached
    obtain ⟨o, c, code, ho, -, -, hdone⟩ := (result_all_or_nothing Shared.toCacheUncached h
      (hcommand Shared.options?_toCacheUncached hchecks)).1 _ _ hend
    obtain rfl := Option.some.inj (Shared.options?_toCacheUncached.symm.trans ho)
    rcases hdone with ⟨houtput, -⟩ | ⟨-, -, bs, l, -, hl, hnode, hchanges⟩
    · exact absurd houtput (by decide)
    · refine ⟨errors, l, hend, ?_, hchanges⟩
      rw [codeFile, ho] at hfile
      simp only [true_and] at hfile
      rw [if_pos (by decide), read_eq_ok_iff.mpr ⟨l, hl, hnode⟩] at hfile
      rw [hnode, Option.some.inj hfile]
  · obtain ⟨errors, hend, -⟩ := finished_of_product Shared.product_toCache
    refine ⟨errors, hend, ?_⟩
    refine ((result_all_or_nothing Shared.toCache h (hcommand Shared.options?_toCache hchecks)).2 fun output errors' hwell => ?_).2
    cases hend.symm.trans hwell

end Invocation

end CommandLine

end ScriptLoader
