import ScriptLoader.Proofs.Cache.Mirror
import ScriptLoader.Proofs.CommandLine.Delivery
import ScriptLoader.Proofs.Loader.History

/-!
# Runs that share a cache

Runs of the command line, one after the other, keep their code in one directory. Each of them brings about what it would bring about without
the cache, on the files as they are at its start (`product_of_setting`), as long as no run is served by one that makes more
(`Compiler.Serves`): a run that checks imports must not find what a run without checks has left. It would pass where it should fail
(`product_not_of_checks`).

One invariant carries this from run to run (`Setting.step`): the compiler of every later run makes, on the files as they are now, the code
of every entry in the directory. A run changes files, but it loses no text, so that what has been made once can be made again.
-/

namespace ScriptLoader.CommandLine

open Action Cache Files FileSystem Text

/-! ## Compiling on a host -/

section Compiling

variable {l : Loader} {h : Host} {d : Path} {n : String} {roots : List String}

/-- Without a cache a name is compiled, and nothing else is done. -/
theorem exec_compile_nowhere (hcache : l.cache = .nowhere) (hfiles : l.compiler.LeavesFiles h) :
    (exec (l.compile n) (.fresh h)).1 = (Dialogue.compile l.compiler n).run (l.resolver.replies (.fresh h)) ∧
      (exec (l.compile n) (.fresh h)).2.host = h := by
  have hnul : ¬l.HasNulDirectory h := by
    rintro ⟨d, hd, -⟩
    exact absurd (hcache.symm.trans hd) (by simp)
  have hcompiled := Loader.compiled (w := .fresh h) n hnul hfiles
  generalize exec (l.compile n) (.fresh h) = p at hcompiled
  cases hcompiled with
  | failed fails learns => exact ⟨fails.symm, learns.host⟩
  | found _ _ hit =>
    have hget := Loader.code_of_cached hit
    rw [hcache] at hget
    cases hget
  | @stored s code w₁ _ made learns =>
    obtain ⟨es, hexec⟩ := Loader.exec_tolerate ("Could not cache compiled code for " ++ s.uri) () (l.cache.put s code) w₁
    refine ⟨made.symm, ?_⟩
    show (exec (l.store s code) w₁).2.host = h
    rw [Loader.store, hexec, hcache]
    exact learns.host

/-- With a cache in a directory, where every entry that fits is what the compiler makes, a name is compiled all the same. At most, what has
been made is kept in the directory. -/
theorem exec_compile_disk (hcache : l.cache = .disk d) (hresolver : l.resolver = ⟨.search roots, "utf-8"⟩)
    (hnul : ¬l.HasNulDirectory h) (hstandard : l.compiler.IsStandard) (hfiles : l.compiler.LeavesFiles h)
    (hkeeps : ∀ loc, h.files.Leads (d.start h.cwd) d.names loc →
      Keeping (fun e => ∀ s, l.resolver.findOn h n = .ok s → e.fits s = true → l.compiler.Makes h s e.code) loc (.fresh h)) :
    (exec (l.compile n) (.fresh h)).1 = (Dialogue.compile l.compiler n).run (l.resolver.replies (.fresh h)) ∧
      ((exec (l.compile n) (.fresh h)).2.host = h ∨
        ∃ s code, l.resolver.findOn h n = .ok s ∧ l.compiler.Makes h s code ∧
          (exec (l.compile n) (.fresh h)).2.host = { h with files := (diskPut h d s code).1 }) := by
  have hmakes {s : Source} {code : String} (hs : l.resolver.findOn h n = .ok s) :
      (Dialogue.compile l.compiler n).run (l.resolver.replies (.fresh h)) = .ok code ↔ l.compiler.Makes h s code := by
    rw [hresolver] at hs ⊢
    exact Compiler.run_compile_eq_ok_iff hstandard hs
  have hcompiled := Loader.compiled (w := .fresh h) n hnul hfiles
  generalize exec (l.compile n) (.fresh h) = p at hcompiled
  cases hcompiled with
  | failed fails learns => exact ⟨fails.symm, .inl learns.host⟩
  | @found s code w₁ w' source learns hit =>
    have hget := Loader.diskGet_of_cached hcache hit
    rw [learns.host] at hget
    obtain ⟨bs, e, hread, -⟩ := read_of_diskGet hget
    obtain ⟨place, hplace, -⟩ := read_eq_ok_iff.mp hread
    obtain ⟨loc, hinto, -⟩ := locate_entry hplace
    have hleads := (locate_eq_ok_iff.mp hinto.1).2.leads
    have hgood := (hkeeps loc hleads).diskGet hleads hget s source (by simp [Entry.fits])
    have hhost : w'.host = w₁.host := (Learning.of_exec (Loader.learning_cached (r := l.resolver) l s) hit).host
    exact ⟨((hmakes source).mpr hgood).symm, .inl (hhost.trans learns.host)⟩
  | @stored s code w₁ source made learns =>
    obtain ⟨es, hstore⟩ := Loader.exec_store_disk hcache s code w₁
    refine ⟨made.symm, .inr ⟨s, code, source, (hmakes source).mp made, ?_⟩⟩
    show (exec (l.store s code) w₁).2.host = _
    rw [hstore, learns.host]
    rfl

/-- Where the cache has code for a source, a name of the source is compiled to it. -/
theorem exec_compile_of_found {s : Source} {code : String} (hcache : l.cache = .disk d) (hs : l.resolver.findOn h n = .ok s)
    (hget : diskGet h d s = .ok (.code code)) :
    ∃ w, exec (l.compile n) (.fresh h) = (.ok code, w) ∧ w.host = h := by
  obtain ⟨hresolve, hlearns⟩ := l.resolver.follows_resolve n none (.fresh h)
  replace hresolve : (exec (l.resolve n none) (.fresh h)).1 = .ok s := hresolve.trans hs
  replace hlearns : Learns l.resolver (.fresh h) (exec (l.resolve n none) (.fresh h)).2 := hlearns
  unfold Loader.compile
  rw [exec_bind]
  generalize exec (l.resolve n none) (.fresh h) = p at hresolve hlearns ⊢
  obtain ⟨found, w₁⟩ := p
  simp only at hresolve hlearns
  subst hresolve
  replace hget : diskGet w₁.host d s = .ok (.code code) := by
    rw [hlearns.host]
    exact hget
  obtain ⟨w₂, hcached, hhost⟩ := Loader.exec_cached_disk hcache hget
  simp only [exec_bind, hcached, Found.code?, exec_pure]
  exact ⟨_, rfl, hhost.trans hlearns.host⟩

end Compiling

/-! ## Single runs -/

/-- A run of the command line: the time that it takes, and its arguments. -/
structure Invocation where
  duration : String
  arguments : List String

/-- What a run brings about for those who use it: its status, what goes to the output, and what is in the file of its code, if there is
one. -/
structure Product where
  status : Nat
  output : String
  code : Option Bytes
  deriving DecidableEq, Repr

namespace Options

/-- The options without a cache. -/
def uncached (o : Options) : Options := { o with cacheDirectory := .none }

/-- The name of the input. -/
def inputName (o : Options) : String := o.input.getD ""

/-- How the names of a run are resolved. -/
def resolver (o : Options) (h : Host) : Resolver := ⟨.search (h.here.text :: o.searchPath), "utf-8"⟩

/-- The code is not written to the output but to a file. -/
def toFile (o : Options) : Bool := o.output ≠ some "-"

end Options

namespace Invocation

/-- The options that a run asks for. -/
def options? (i : Invocation) : Option Options := CommandLine.options? i.arguments

/-- The compiler that a run asks for. -/
def compiler? (i : Invocation) : Option Compiler := i.options?.bind fun o => (compilerOf o).toOption

/-- What comes of a run on a host. -/
def result (i : Invocation) (h : Host) : Except Failure Ending × World := exec (run i.duration i.arguments) (.fresh h)

/-- The host behind a run. -/
def after (i : Invocation) (h : Host) : Host := (i.result h).2.host

/-- What is in the file of the code behind a run that has ended well. -/
def codeFile (i : Invocation) (h : Host) (status : Nat) : Option Bytes :=
  match i.options? with
  | some o =>
    if status = 0 ∧ o.toFile then ((i.after h).files.read h.cwd (outputPath h o o.inputName)).toOption else none
  | none => none

/-- What a run brings about, by what is seen of its end. -/
def productOf (i : Invocation) (h : Host) (seen : Nat × String) : Product := ⟨seen.1, seen.2, i.codeFile h seen.1⟩

/-- What a run brings about on a host. -/
def product (i : Invocation) (h : Host) : Except Failure (Option Product) :=
  (i.result h).1.map fun ending => ending.seen.map (i.productOf h)

end Invocation

variable {h : Host} {d : Path} {i : Invocation} {o : Options} {c : Compiler}

theorem compiler?_eq (ho : i.options? = some o) (hc : compilerOf o = .ok c) : i.compiler? = some c := by
  simp only [Invocation.compiler?, ho, Option.bind_some, hc]
  rfl

theorem isStandard_of_compilerOf (hc : compilerOf o = .ok c) : c.IsStandard := by
  intro config checks heq
  subst heq
  unfold compilerOf at hc
  split at hc
  · rename_i command _
    cases hwords : Command.words command with
    | error f =>
      rw [hwords] at hc
      cases hc
    | ok words =>
      rw [hwords] at hc
      cases hc
  · exact (Compiler.eraser.inj (Except.ok.inj hc)).1.symm

theorem loaderOf_cached (h : Host) (c : Compiler) (hd : (chosen o.cacheDirectory).map Path.ofText = some d) :
    loaderOf h o c = ⟨.standard, .search (h.here.text :: o.searchPath), c, .disk d⟩ := by
  unfold loaderOf
  obtain ⟨directory, hdirectory, rfl⟩ := Option.map_eq_some_iff.mp hd
  simp only [hdirectory]

/-- The bytes of code that has been delivered are read in its file. -/
theorem read_of_delivered {input code : String} {r : String × String} (hok : (delivered h o input code).1 = .ok r)
    (hfile : o.toFile = true) :
    ((delivered h o input code).2.read h.cwd (outputPath h o input)).toOption = (encodeText "utf-8" code).toOption := by
  have houtput : o.output ≠ some "-" := by simpa [Options.toFile] using hfile
  rw [delivered, if_neg houtput] at hok ⊢
  cases hbytes : encodeText "utf-8" code with
  | error f =>
    rw [hbytes] at hok
    cases hok
  | ok bs =>
    simp only [hbytes] at hok ⊢
    have hwritten : (written h (outputPath h o input) bs).1 = .ok () := by
      cases hresult : (written h (outputPath h o input) bs).1 with
      | error f => simp [hresult, Except.map] at hok
      | ok u => rfl
    rw [read_of_written (start_outputPath h o input) hwritten]
    rfl

/-- What a run brings about by a delivery: what goes to the output and to the file. -/
def Product.ofDelivery : Except Failure (String × Option Bytes) → Except Failure (Option Product)
  | .ok r => .ok (some ⟨0, r.1, r.2⟩)
  | .error f => if (failureReport? f).isSome then .ok (some ⟨1, "", none⟩) else .error f

/-- What a run brings about is a function of what is compiled and delivered. -/
theorem product_eq {x : Except Failure String} {w : World} (ho : i.options? = some o) (hc : compilerOf o = .ok c)
    (hcompile : exec ((loaderOf h o c).compile o.inputName) (.fresh h) = (x, w)) (hcwd : w.host.cwd = h.cwd) :
    i.product h = Product.ofDelivery (x.bind fun code => (delivered w.host o o.inputName code).1.map fun r =>
      (r.1, if o.toFile then (encodeText "utf-8" code).toOption else none)) := by
  obtain ⟨hseen, hhost⟩ := seen_run (w := .fresh h) i.duration ho hc
  obtain ⟨hdeliver, hfiles⟩ := exec_deliver (l := loaderOf h o c) rfl o o.inputName (.fresh h)
  rw [hcompile] at hdeliver hfiles
  replace hseen : (i.result h).1.map Ending.seen = concluded (exec (deliver (loaderOf h o c) o o.inputName) (.fresh h)).1 := hseen
  have hproduct : i.product h = (concluded (exec (deliver (loaderOf h o c) o o.inputName) (.fresh h)).1).map
      fun seen => seen.map (i.productOf h) := by
    rw [← hseen, Invocation.product]
    cases (i.result h).1 <;> rfl
  have hafter : i.after h = (exec (deliver (loaderOf h o c) o o.inputName) (.fresh h)).2.host := hhost
  -- a run that fails leaves no file that counts
  have hfails (f : Failure) : (concluded (.error f)).map (fun seen => seen.map (i.productOf h)) = Product.ofDelivery (.error f) := by
    have hfile : i.codeFile h 1 = none := by simp [Invocation.codeFile, ho]
    rw [concluded, Product.ofDelivery]
    by_cases hreport : (failureReport? f).isSome = true
    · rw [if_pos hreport, if_pos hreport, Except.map, Option.map_some, Invocation.productOf, hfile]
    · rw [if_neg hreport, if_neg hreport]
      rfl
  rw [hproduct, hdeliver]
  cases x with
  | error f => exact hfails f
  | ok code =>
    simp only [Except.bind]
    simp only at hfiles
    cases hresult : (delivered w.host o o.inputName code).1 with
    | error f => exact hfails f
    | ok r =>
      have hpath : outputPath h o o.inputName = outputPath w.host o o.inputName := by
        rw [outputPath, outputPath, Host.here, Host.here, hcwd]
      have hfile : i.codeFile h 0 = if o.toFile then (encodeText "utf-8" code).toOption else none := by
        simp only [Invocation.codeFile, ho, true_and]
        by_cases hto : o.toFile = true
        · rw [if_pos hto, if_pos hto, ← read_of_delivered hresult hto, hafter, hfiles, hpath, hcwd]
        · rw [if_neg hto, if_neg hto]
      simp only [Except.map, concluded, Option.map_some, Invocation.productOf, hfile, Product.ofDelivery]

/-- The host behind a run is the one that its delivery leaves. -/
theorem after_eq {x : Except Failure String} {w : World} (ho : i.options? = some o) (hc : compilerOf o = .ok c)
    (hcompile : exec ((loaderOf h o c).compile o.inputName) (.fresh h) = (x, w)) :
    i.after h = w.host ∨ ∃ code, i.after h = { w.host with files := (delivered w.host o o.inputName code).2 } := by
  obtain ⟨-, hhost⟩ := seen_run (w := .fresh h) i.duration ho hc
  obtain ⟨-, hfiles⟩ := exec_deliver (l := loaderOf h o c) rfl o o.inputName (.fresh h)
  rw [hcompile] at hfiles
  replace hhost : i.after h = (exec (deliver (loaderOf h o c) o o.inputName) (.fresh h)).2.host := hhost
  rw [hhost, hfiles]
  cases x with
  | error f => exact .inl rfl
  | ok code => exact .inr ⟨code, rfl⟩

/-- The files behind a delivery are those before it, or a text has been written. -/
theorem files_of_delivered (h : Host) (o : Options) (input code : String) :
    (delivered h o input code).2 = h.files ∨
      o.toFile = true ∧ ∃ bs, IsText bs ∧ (delivered h o input code).2 = (written h (outputPath h o input) bs).2 := by
  unfold delivered
  by_cases houtput : o.output = some "-"
  · rw [if_pos houtput]
    exact .inl rfl
  · rw [if_neg houtput]
    cases hbytes : encodeText "utf-8" code with
    | error f => exact .inl rfl
    | ok bs => exact .inr ⟨by simpa [Options.toFile] using houtput, bs, isText_of_encodeText hbytes, rfl⟩

/-- A run whose arguments or whose command cannot be read does nothing. -/
theorem after_of_compiler?_eq_none (hno : i.compiler? = none) : i.after h = h := by
  unfold Invocation.compiler? Invocation.options? at hno
  unfold Invocation.after Invocation.result run
  cases ho : CommandLine.options? i.arguments with
  | none => rfl
  | some o =>
    rw [ho, Option.bind_some] at hno
    cases hc : compilerOf o with
    | ok c =>
      rw [hc] at hno
      cases hno
    | error f =>
      simp only [exec_bind, exec_host, hc, exec_ofExcept, mapError_error]
      rfl

/-- A run whose command cannot be read fails, with a cache or without one. -/
theorem product_of_error {f : Command.WordFault} (ho : i.options? = some o) (hc : compilerOf o = .error f) :
    i.product h = .error (.invalid f.message) := by
  unfold Invocation.product Invocation.result run
  replace ho : CommandLine.options? i.arguments = some o := ho
  simp only [ho, exec_bind, exec_host, hc, exec_ofExcept, mapError_error]
  rfl

/-! ## Runs one after the other -/

/-- The runs, each with the host that it finds. -/
def starts : Host → List Invocation → List (Host × Invocation)
  | _, [] => []
  | h, i :: runs => (h, i) :: starts (i.after h) runs

/-- What a cache in the directory writes makes no difference to whether a file can be written, and the file is not in the directory. -/
structure Apart (d : Path) (h : Host) (p : Path) : Prop where
  result : ∀ fs, Changes d h.cwd (fun _ => True) h.files fs → ∀ bs, (written { h with files := fs } p bs).1 = (written h p bs).1
  spares : ∀ fs, Changes d h.cwd (fun _ => True) h.files fs → ∀ bs loc n, h.files.Leads (d.start h.cwd) d.names loc →
    (written { h with files := fs } p bs).2.node? (loc ++ [n]) = fs.node? (loc ++ [n])

/-- Runs that share a cache in the directory `d`: none of them is served by another one that makes more, commands are functions of their
input, the code is written apart from the cache, and the sources are among some whose contents their fingerprints tell apart. -/
structure Setting (d : Path) (among : Source → Prop) (h : Host) (runs : List Invocation) : Prop where
  shared : ∀ i ∈ runs, ∀ o, i.options? = some o → (chosen o.cacheDirectory).map Path.ofText = some d
  nul : NulFree (h.here.join d).names
  serves : runs.Pairwise fun i j => ∀ c c', i.compiler? = some c → j.compiler? = some c' → c.Serves c'
  function : ∀ i ∈ runs, ∀ c, i.compiler? = some c → c.IsFunction h
  apart : ∀ start ∈ starts h runs, ∀ o, start.2.options? = some o → o.toFile = true →
    Apart d start.1 (outputPath start.1 o o.inputName)
  sources : ∀ start ∈ starts h runs, ∀ o s, start.2.options? = some o →
    (o.resolver start.1).findOn start.1 o.inputName = .ok s → among s
  distinct : ∀ s t, among s → among t → s.fingerprint = t.fingerprint → s.content = t.content

/-- The compiler of each of the runs makes the code of the entry of every source that the entry fits. -/
def Good (among : Source → Prop) (h : Host) (runs : List Invocation) (e : Entry) : Prop :=
  ∀ i ∈ runs, ∀ c, i.compiler? = some c → ∀ s, among s → e.fits s = true → c.Makes h s e.code

/-- All entries in the directory are good for the runs. -/
def Kept (d : Path) (among : Source → Prop) (h : Host) (runs : List Invocation) : Prop :=
  ∀ loc, h.files.Leads (d.start h.cwd) d.names loc → Keeping (Good among h runs) loc (.fresh h)

/-- What a run may do to a host: the files change, but no text is lost, and the entries stay good. -/
structure Passes (d : Path) (among : Source → Prop) (h h' : Host) (later : List Invocation) : Prop where
  host : h' = { h with files := h'.files }
  texts : KeepsTexts h.files h'.files
  kept : Kept d among h' later

section Steps

variable {among : Source → Prop} {later : List Invocation}

/-- What is good now is good later, where no text is lost. -/
theorem Good.of_keepsTexts {h' : Host} {e : Entry} (hgood : Good among h later e)
    (hfunction : ∀ i ∈ later, ∀ c, i.compiler? = some c → c.IsFunction h) (hkeeps : KeepsTexts h.files h'.files)
    (hhost : h' = { h with files := h'.files }) : Good among h' later e := by
  intro j hj c hc s hs hfits
  have hstandard : c.IsStandard := by
    obtain ⟨o, -, ho⟩ := Option.bind_eq_some_iff.mp hc
    exact isStandard_of_compilerOf (toOption_eq_some_iff.mp ho)
  exact (hgood j hj c hc s hs hfits).of_keepsTexts hstandard (hfunction j hj c hc) hkeeps hhost

theorem Passes.trans {h' h'' : Host} (hpasses : Passes d among h h' later) (hhost : h'' = { h' with files := h''.files })
    (htexts : KeepsTexts h'.files h''.files) (hkept : Kept d among h'' later) : Passes d among h h'' later := by
  refine ⟨?_, hpasses.texts.trans htexts, hkept⟩
  rw [hhost, hpasses.host]

/-- An entry for a source is good for the runs that are served by the compiler that made it. -/
theorem good_ofSource {s : Source} {code : String}
    (hdistinct : ∀ s t, among s → among t → s.fingerprint = t.fingerprint → s.content = t.content) (hs : among s)
    (hmakes : c.Makes h s code) (hserves : ∀ j ∈ later, ∀ c', j.compiler? = some c' → c.Serves c') :
    Good among h later (.ofSource s code) := by
  intro j hj c' hc' t ht hfits
  obtain ⟨huri, hfingerprint⟩ := (Entry.fits_ofSource_iff s t code).mp hfits
  have hcontent := hdistinct s t hs ht hfingerprint
  obtain rfl : s = t := by
    cases s
    cases t
    simp_all
  exact hmakes.serves (hserves j hj c' hc')

/-- Code that is kept in the directory keeps the entries good. -/
theorem passes_diskPut {s : Source} {code : String} (hkept : Kept d among h later) (hgood : Good among h later (.ofSource s code))
    (hfunction : ∀ i ∈ later, ∀ c, i.compiler? = some c → c.IsFunction h) :
    Passes d among h { h with files := (diskPut h d s code).1 } later := by
  have hput := putResult_diskPut h d s code
  have htexts : KeepsTexts h.files (diskPut h d s code).1 := .of_put hput fun loc n target hleads => (hkept loc hleads).plain n target
  refine ⟨rfl, htexts, fun loc hleads => ?_⟩
  have hbefore : h.files.Leads (d.start h.cwd) d.names loc := Leads.of_sameLinks hleads htexts.ways.links.symm
  obtain ⟨hkeeps, -⟩ := (hkept loc hbefore).diskPut hbefore hgood hput
  exact hkeeps.mono fun e he => he.of_keepsTexts hfunction htexts rfl

/-- A file that is written apart from the cache keeps the entries good. -/
theorem passes_written {p : Path} {bs : Bytes} (hkept : Kept d among h later) (hp : p.start h.cwd = []) (htext : IsText bs)
    (hspares : ∀ loc n, h.files.Leads (d.start h.cwd) d.names loc → (written h p bs).2.node? (loc ++ [n]) = h.files.node? (loc ++ [n]))
    (hfunction : ∀ i ∈ later, ∀ c, i.compiler? = some c → c.IsFunction h) :
    Passes d among h { h with files := (written h p bs).2 } later := by
  have htexts := keepsTexts_written hp htext
  refine ⟨rfl, htexts, fun loc hleads => ?_⟩
  have hbefore : h.files.Leads (d.start h.cwd) d.names loc := Leads.of_sameLinks hleads htexts.ways.links.symm
  have hkeeps : Keeping (Good among h later) loc (.fresh { h with files := (written h p bs).2 }) :=
    (hkept loc hbefore).congr (fun n => hspares loc n hbefore) rfl
  exact hkeeps.mono fun e he => he.of_keepsTexts hfunction htexts rfl

/-! ## What carries over from run to run -/

variable {runs : List Invocation}

/-- The code that a run compiles is the one that it would compile without the cache. -/
theorem compile_of_setting (hset : Setting d among h (i :: later)) (hkept : Kept d among h (i :: later)) (ho : i.options? = some o)
    (hc : compilerOf o = .ok c) :
    ∃ x w w', exec ((loaderOf h o c).compile o.inputName) (.fresh h) = (x, w) ∧
      exec ((loaderOf h o.uncached c).compile o.inputName) (.fresh h) = (x, w') ∧ w'.host = h ∧
      Passes d among h w.host (i :: later) ∧ Changes d h.cwd (fun _ => True) h.files w.host.files := by
  have hi := compiler?_eq ho hc
  have hstandard := isStandard_of_compilerOf hc
  have hfunction := hset.function i List.mem_cons_self c hi
  have hnul : ¬(loaderOf h o c).HasNulDirectory h := by
    rw [loaderOf_cached h c (hset.shared i List.mem_cons_self o ho)]
    rintro ⟨d', hd', hnul⟩
    exact hnul (CodeCache.disk.inj hd' ▸ hset.nul)
  have hsource {s : Source} (hs : (o.resolver h).findOn h o.inputName = .ok s) : among s :=
    hset.sources (h, i) List.mem_cons_self o s ho hs
  have hresolver : (loaderOf h o c).resolver = ⟨.search (h.here.text :: o.searchPath), "utf-8"⟩ := rfl
  obtain ⟨hcached, hleaves⟩ := exec_compile_disk (l := loaderOf h o c) (n := o.inputName)
    (by rw [loaderOf_cached h c (hset.shared i List.mem_cons_self o ho)]) hresolver hnul hstandard hfunction.leavesFiles
    fun loc hleads => (hkept loc hleads).mono fun e he s hs hfits => he i List.mem_cons_self c hi s (hsource hs) hfits
  obtain ⟨huncached, hhost⟩ := exec_compile_nowhere (l := loaderOf h o.uncached c) (n := o.inputName) (h := h) rfl
    hfunction.leavesFiles
  generalize hexec : exec ((loaderOf h o c).compile o.inputName) (.fresh h) = p at hcached hleaves
  generalize hexec' : exec ((loaderOf h o.uncached c).compile o.inputName) (.fresh h) = p' at huncached hhost
  obtain ⟨x, w⟩ := p
  obtain ⟨x', w'⟩ := p'
  obtain rfl : x' = x := huncached.trans hcached.symm
  refine ⟨x', w, w', rfl, rfl, hhost, ?_⟩
  simp only at hleaves
  rcases hleaves with hsame | ⟨s, code, hs, hmakes, hput⟩
  · rw [hsame]
    exact ⟨⟨rfl, .refl _, hkept⟩, .refl d h.cwd _ h.files⟩
  · have hgood : Good among h (i :: later) (.ofSource s code) := by
      refine good_ofSource hset.distinct (hsource hs) hmakes fun j hj c' hc' => ?_
      rcases List.mem_cons.mp hj with rfl | hj
      · exact .inl (Option.some.inj (hi.symm.trans hc'))
      · exact (List.pairwise_cons.mp hset.serves).1 j hj c c' hi hc'
    rw [hput]
    exact ⟨passes_diskPut hkept hgood hset.function, (Changes.refl d h.cwd _ h.files).put rfl trivial (putResult_diskPut h d s code)⟩

/-- A run leaves the entries good for the runs behind it. -/
theorem passes_after (hset : Setting d among h (i :: later)) (hkept : Kept d among h (i :: later)) :
    Passes d among h (i.after h) (i :: later) := by
  have hsame (heq : i.after h = h) : Passes d among h (i.after h) (i :: later) := by
    rw [heq]
    exact ⟨rfl, .refl _, hkept⟩
  cases hi : i.compiler? with
  | none => exact hsame (after_of_compiler?_eq_none hi)
  | some c =>
    obtain ⟨o, ho, hc⟩ := Option.bind_eq_some_iff.mp hi
    replace hc := toOption_eq_some_iff.mp hc
    obtain ⟨x, w, w', hcompile, -, -, hpasses, hchanges⟩ := compile_of_setting hset hkept ho hc
    rcases after_eq ho hc hcompile with hafter | ⟨code, hafter⟩
    · rw [hafter]
      exact hpasses
    · have hcwd : w.host.cwd = h.cwd := by rw [hpasses.host]
      have hpath : outputPath w.host o o.inputName = outputPath h o o.inputName := by
        rw [outputPath, outputPath, Host.here, Host.here, hcwd]
      have hfunction (j : Invocation) (hj : j ∈ i :: later) (c : Compiler) (hc : j.compiler? = some c) : c.IsFunction w.host :=
        (hset.function j hj c hc).of_keepsWays hpasses.texts.ways hpasses.host
      rcases files_of_delivered w.host o o.inputName code with hfiles | ⟨hfile, bs, htext, hfiles⟩
      · rw [hafter, hfiles]
        exact hpasses
      · have hapart := hset.apart (h, i) List.mem_cons_self o ho hfile
        rw [hafter, hfiles]
        have hwritten := passes_written hpasses.kept (start_outputPath w.host o o.inputName) htext (fun loc n hleads => ?_)
          hfunction
        · exact hpasses.trans hwritten.host hwritten.texts hwritten.kept
        · rw [hcwd] at hleads
          have hbefore : h.files.Leads (d.start h.cwd) d.names loc := Leads.of_sameLinks hleads hpasses.texts.ways.links.symm
          have hspares := hapart.spares w.host.files hchanges bs loc n hbefore
          rw [hpath, hpasses.host]
          exact hspares

/-- The setting of the runs behind a run. -/
theorem Setting.step (hset : Setting d among h (i :: later)) (hkept : Kept d among h (i :: later)) :
    Setting d among (i.after h) later ∧ Kept d among (i.after h) later := by
  have hpasses := passes_after hset hkept
  have hcwd : (i.after h).cwd = h.cwd := by rw [hpasses.host]
  refine ⟨⟨fun j hj => hset.shared j (List.mem_cons_of_mem _ hj), ?_, (List.pairwise_cons.mp hset.serves).2,
    fun j hj c hc => (hset.function j (List.mem_cons_of_mem _ hj) c hc).of_keepsWays hpasses.texts.ways hpasses.host,
    fun start hstart => hset.apart start (List.mem_cons_of_mem _ hstart),
    fun start hstart => hset.sources start (List.mem_cons_of_mem _ hstart), hset.distinct⟩, fun loc hleads => ?_⟩
  · rw [Host.here, hcwd]
    exact hset.nul
  · exact (hpasses.kept loc hleads).mono fun e he j hj => he j (List.mem_cons_of_mem _ hj)

/-- What a run brings about is what it would bring about without the cache. -/
theorem product_of_kept {j : Invocation} (hset : Setting d among h (i :: later)) (hkept : Kept d among h (i :: later))
    (ho : i.options? = some o) (hj : j.options? = some o.uncached) : i.product h = j.product h := by
  cases hc : compilerOf o with
  | error f => rw [product_of_error ho hc, product_of_error hj (show compilerOf o.uncached = _ from hc)]
  | ok c =>
    obtain ⟨x, w, w', hcompile, huncached, hhost, hpasses, hchanges⟩ := compile_of_setting hset hkept ho hc
    have hcwd : w.host.cwd = h.cwd := by rw [hpasses.host]
    rw [product_eq ho hc hcompile hcwd, product_eq hj (show compilerOf o.uncached = _ from hc) huncached (by rw [hhost]), hhost]
    have hname : o.uncached.inputName = o.inputName := rfl
    have htoFile : o.uncached.toFile = o.toFile := rfl
    rw [hname, htoFile]
    refine congrArg Product.ofDelivery ?_
    cases x with
    | error f => simp only [Except.bind]
    | ok code =>
      have hdelivered : (delivered w.host o o.inputName code).1 = (delivered h o.uncached o.inputName code).1 := by
        unfold delivered
        by_cases houtput : o.output = some "-"
        · rw [if_pos houtput, if_pos (show o.uncached.output = some "-" from houtput)]
        · rw [if_neg houtput, if_neg (show ¬o.uncached.output = some "-" from houtput)]
          cases encodeText "utf-8" code with
          | error f => rfl
          | ok bs =>
            have hapart := hset.apart (h, i) List.mem_cons_self o ho (by simpa [Options.toFile] using houtput)
            have hresult := hapart.result w.host.files hchanges bs
            rw [← hpasses.host] at hresult
            have hpath : outputPath w.host o o.inputName = outputPath h o o.inputName := by
              rw [outputPath, outputPath, Host.here, Host.here, hcwd]
            simp only [hpath, hresult]
            rfl
      simp only [Except.bind, hdelivered]

/-- There are no entries in a directory that is empty or missing. -/
theorem kept_of_empty (hempty : ∀ loc n, h.files.Leads (d.start h.cwd) d.names loc → h.files.node? (loc ++ [n]) = none) :
    Kept d among h runs := by
  refine fun loc hleads => ⟨fun n target hlink => ?_, fun n bs e hfile => ?_, fun uri fingerprint code hlookup => by cases hlookup⟩
  · exact absurd ((hempty loc n hleads).symm.trans hlink) (by simp)
  · exact absurd ((hempty loc n hleads).symm.trans hfile) (by simp)

end Steps

/-! ## Outputs apart from the cache -/

/-- A file in a directory that is there is written apart from the cache, if there are no links in the directory of the cache, the file is
not in it, and it is there already or in none of the places of the directories above the cache. -/
theorem apart_of_locate {p : Path} {dir l : Location} (hparent : h.files.locate true h.cwd p.parent = .ok dir)
    (hdir : h.files.node? dir = some .directory) (hl : h.files.locate true h.cwd p = .ok l) (hloose : Loose (h.files.node? l))
    (hplain : ∀ loc n target, h.files.Leads (d.start h.cwd) d.names loc → h.files.node? (loc ++ [n]) ≠ some (.link target))
    (hout : ∀ loc n, h.files.Leads (d.start h.cwd) d.names loc → l ≠ loc ++ [n])
    (habove : h.files.node? l ≠ none ∨ ∀ ns, ns <+: d.names → ¬h.files.Leads (d.start h.cwd) ns l) : Apart d h p := by
  have hroot : l ≠ [] := by
    rintro rfl
    exact hloose.1 rfl
  -- the file is written to the same place whatever the cache has written
  have hwritten {fs : FileSystem} (hchanges : Changes d h.cwd (fun _ => True) h.files fs) (bs : Bytes) :
      written { h with files := fs } p bs = (.ok (), fs.set l (.file bs)) := by
    have hways := hchanges.keepsWays hplain
    have hensured : fs.ensureDirectories h.cwd p.parent = (fs, none) :=
      ensureDirectories_of_leadsToDirectory
        (leadsToDirectory_iff.mpr ⟨dir, locate_of_keepsWays hparent hways, hways.directories _ hdir⟩)
    have hfile : fs.node? l ≠ some .directory := by
      cases hchanges l with
      | same same =>
        rw [same]
        exact hloose.1
      | made missing _ part leads =>
        rcases habove with hsome | hno
        · exact absurd missing hsome
        · exact absurd leads (hno _ part)
      | written _ _ _ leads child => exact absurd child (hout _ _ leads)
    have hwrite : fs.write h.cwd p bs = .ok (fs.set l (.file bs)) :=
      write_eq_ok_iff.mpr ⟨l, locate_of_keepsWays hl hways, hfile, rfl⟩
    simp only [written, hensured, hwrite]
  refine ⟨fun fs hchanges bs => ?_, fun fs hchanges bs loc n hleads => ?_⟩
  · rw [hwritten hchanges, show written h p bs = _ from hwritten (.refl d h.cwd _ h.files) bs]
  · rw [hwritten hchanges, node?_set _ hroot, if_neg fun heq => hout loc n hleads heq.symm]

/-! ### Two runs of a module -/

namespace Shared

/-- The directory of the cache. -/
def directory : Path := ⟨.relative, ["cache"]⟩

/-- A module that imports another one, which may be there or not. -/
def host (whole : Bool) : Host := (Compiler.pagesWorld "import './b';" (if whole then "http://h/b.ts" else "http://h/c.ts")).host

/-- A run that writes the code to a file. -/
def toFile : Invocation := ⟨"0.1", ["http://h/a.ts", "-o", "out.js", "--cache-dir", "cache"]⟩

/-- A run that checks imports. -/
def checked : Invocation := ⟨"0.1", ["http://h/a.ts", "-o", "-", "--cache-dir", "cache"]⟩

/-- A run that does not check imports. -/
def unchecked : Invocation := ⟨"0.1", ["http://h/a.ts", "-o", "-", "--cache-dir", "cache", "--no-check-imports"]⟩

/-- The run that checks imports, without the cache. -/
def checkedUncached : Invocation := ⟨"0.1", ["http://h/a.ts", "-o", "-"]⟩

/-- The run that does not check imports, without the cache. -/
def uncheckedUncached : Invocation := ⟨"0.1", ["http://h/a.ts", "-o", "-", "--no-check-imports"]⟩

/-- The options of the runs. -/
def options (output : String) (checks : Bool) : Options :=
  { Options.none with input := "http://h/a.ts", output := output, cacheDirectory := "cache", checkImports := checks }

theorem options?_toFile : toFile.options? = some (options "out.js" true) := rfl

theorem options?_checked : checked.options? = some (options "-" true) := rfl

theorem options?_unchecked : unchecked.options? = some (options "-" false) := rfl

theorem options?_checkedUncached : checkedUncached.options? = some (options "-" true).uncached := rfl

theorem options?_uncheckedUncached : uncheckedUncached.options? = some (options "-" false).uncached := rfl

theorem compilerOf_options (output : String) (checks : Bool) :
    compilerOf (options output checks) = .ok (.eraser .standard checks) := rfl

theorem directory_options (output : String) (checks : Bool) :
    (chosen (options output checks).cacheDirectory).map Path.ofText = some directory := rfl

variable {whole : Bool} {h : Host}

/-- There is nothing where the cache is to be. -/
theorem empty_host (loc : Location) (n : String) : (host whole).files.node? (loc ++ [n]) = none := by
  simp [host, Compiler.pagesWorld, plainWorld, node?]

theorem leads_host {here : Location} {ns : List String} {loc : Location} (hns : ∀ n ∈ ns, Plain n)
    (hleads : (host whole).files.Leads here ns loc) : loc = here ++ ns := by
  induction ns generalizing here with
  | nil =>
    cases hleads
    exact (List.append_nil _).symm
  | cons n ns ih =>
    have hn := hns n List.mem_cons_self
    cases hleads with
    | dot hdot => exact absurd hdot hn.dot
    | back hback => exact absurd hback hn.back
    | link _ _ hlink => exact absurd (hlink.symm.trans (empty_host here n)) (by simp)
    | name _ _ _ rest => rw [ih (fun m hm => hns m (List.mem_cons_of_mem _ hm)) rest, List.append_assoc, List.singleton_append]

/-- What the name of the input stands for where the pages are the same. -/
theorem findOn_page (output : String) (checks : Bool) (hpages : h.pages = (host whole).pages) {url : String}
    (hlooks : Address.looksLike url = true) (hcheck : (Address.check url).toOption = some ())
    (hhttp : (Uri.Reference.parse "" url).toOption.map (·.scheme) = some "http") :
    ((options output checks).resolver h).findOn h url = ((options output checks).resolver h).findOn (host whole) url := by
  obtain ⟨ref, href, hscheme⟩ := Option.map_eq_some_iff.mp hhttp
  have hfile : ref.scheme ≠ "file" := by
    rw [hscheme]
    decide
  exact Resolver.findOn_page hlooks (toOption_eq_some_iff.mp hcheck) (toOption_eq_some_iff.mp href) hfile hpages

/-- The module. -/
def module : Source := ⟨"http://h/a.ts", "import './b';"⟩

/-- Where the pages and the working directory are the same, the input is the module. -/
theorem findOn_module (output : String) (checks : Bool) (hhere : h.here.text = "/") (hpages : h.pages = (host whole).pages) :
    ((options output checks).resolver h).findOn h "http://h/a.ts" = .ok module := by
  have hresolver : (options output checks).resolver h = ⟨.search ["/"], "utf-8"⟩ := by
    rw [Options.resolver, hhere]
    rfl
  rw [findOn_page _ _ hpages (by decide) rfl rfl, hresolver, ← toOption_eq_some_iff]
  cases whole <;> decide +kernel

/-- A source that a run finds for its input, where the pages are the same. -/
theorem content_of_findOn {output : String} {checks : Bool} {s : Source} (hhere : h.here.text = "/") (hpages : h.pages = (host whole).pages)
    (hs : ((options output checks).resolver h).findOn h (options output checks).inputName = .ok s) : s.content = "import './b';" :=
  congrArg Source.content (Except.ok.inj (hs.symm.trans (findOn_module output checks hhere hpages)))

theorem compiler?_of_options {output : String} {checks : Bool} {i : Invocation} (ho : i.options? = some (options output checks)) :
    i.compiler? = some (.eraser .standard checks) := compiler?_eq ho (compilerOf_options output checks)

/-- The file of the code lies apart from the cache. -/
theorem apart_out : Apart directory (host whole) (outputPath (host whole) (options "out.js" true) (options "out.js" true).inputName) := by
  have hpath : outputPath (host whole) (options "out.js" true) (options "out.js" true).inputName = ⟨.slash, ["out.js"]⟩ := by
    cases whole <;> rfl
  have hnode : (host whole).files.node? ["out.js"] = none := empty_host [] "out.js"
  have hcache {ns : List String} {loc : Location} (hns : ns <+: directory.names)
      (hleads : (host whole).files.Leads (directory.start (host whole).cwd) ns loc) : loc = ns := by
    refine leads_host (fun n hn => ?_) hleads
    obtain rfl := List.mem_singleton.mp (hns.subset hn)
    exact ⟨by decide, by decide⟩
  have hparent : (host whole).files.locate true (host whole).cwd (Path.parent ⟨.slash, ["out.js"]⟩) = .ok [] :=
    locate_eq_ok_iff.mpr ⟨⟨by decide, by decide⟩, .here⟩
  have hlink (target : String) : (host whole).files.node? ["out.js"] ≠ some (.link target) := by simp [hnode]
  have hl : (host whole).files.locate true (host whole).cwd ⟨.slash, ["out.js"]⟩ = .ok ["out.js"] :=
    locate_eq_ok_iff.mpr ⟨⟨by decide, by decide⟩, .one rfl ⟨by decide, by decide⟩ (by decide) (.inr hlink)⟩
  rw [hpath]
  refine apart_of_locate hparent rfl hl (hnode ▸ loose_none) (fun loc n target _ => by simp [empty_host])
    (fun loc n hleads heq => ?_) (.inr fun ns hns hleads => ?_)
  · rw [hcache (List.prefix_refl _) hleads] at heq
    exact absurd heq (by simp [directory])
  · rw [← hcache hns hleads] at hns
    exact absurd hns (by decide)

/-- The runs share the cache as they should, as far as each of them finds the pages and the directory that were there at the start. -/
theorem setting_of_starts {runs : List Invocation} (hruns : runs = [toFile] ∨ runs = [toFile, unchecked])
    (hstarts : ∀ start ∈ starts (host whole) runs, start = (host whole, toFile) ∨
      start.2 = unchecked ∧ start.1.here.text = "/" ∧ start.1.pages = (host whole).pages) :
    Setting directory (·.content = "import './b';") (host whole) runs := by
  have hoptions {i : Invocation} (hi : i ∈ runs) : ∃ output checks, i.options? = some (options output checks) := by
    have hmem : i = toFile ∨ i = unchecked := by
      rcases hruns with rfl | rfl
      · exact .inl (List.mem_singleton.mp hi)
      · simpa using hi
    rcases hmem with rfl | rfl
    · exact ⟨_, _, options?_toFile⟩
    · exact ⟨_, _, options?_unchecked⟩
  refine ⟨fun i hi o ho => ?_, nulFree_iff.mp (by cases whole <;> decide), ?_, fun i hi c hc words timeout encoding hcommand => ?_,
    fun start hstart o ho hto => ?_, fun start hstart o s ho hs => ?_, fun s t hs ht _ => hs.trans ht.symm⟩
  · obtain ⟨output, checks, ho'⟩ := hoptions hi
    rw [Option.some.inj (ho.symm.trans ho')]
    exact directory_options output checks
  · rcases hruns with rfl | rfl
    · exact List.pairwise_singleton _ _
    · refine List.pairwise_pair.mpr fun c c' hc hc' => .inr ⟨.standard, ?_, ?_⟩
      · exact Option.some.inj (hc.symm.trans (compiler?_of_options options?_toFile))
      · exact Option.some.inj (hc'.symm.trans (compiler?_of_options options?_unchecked))
  · obtain ⟨output, checks, ho⟩ := hoptions hi
    obtain rfl := Option.some.inj ((compiler?_of_options ho).symm.trans hc)
    cases hcommand
  · rcases hstarts start hstart with rfl | ⟨hunchecked, -⟩
    · obtain rfl := Option.some.inj (ho.symm.trans options?_toFile)
      exact apart_out
    · rw [hunchecked] at ho
      obtain rfl := Option.some.inj (ho.symm.trans options?_unchecked)
      exact absurd hto (by decide)
  · rcases hstarts start hstart with rfl | ⟨hunchecked, hhere, hpages⟩
    · obtain rfl := Option.some.inj (ho.symm.trans options?_toFile)
      exact content_of_findOn (by cases whole <;> decide) rfl hs
    · rw [hunchecked] at ho
      obtain rfl := Option.some.inj (ho.symm.trans options?_unchecked)
      exact content_of_findOn hhere hpages hs

theorem setting : Setting directory (·.content = "import './b';") (host true) [toFile, unchecked] := by
  have hone : Setting directory (·.content = "import './b';") (host true) [toFile] :=
    setting_of_starts (.inl rfl) fun start hstart => .inl (List.mem_singleton.mp hstart)
  have hkept : Kept directory (·.content = "import './b';") (host true) [toFile] := kept_of_empty fun loc n _ => empty_host loc n
  have hafter := (passes_after hone hkept).host
  refine setting_of_starts (.inr rfl) fun start hstart => ?_
  rcases List.mem_cons.mp hstart with rfl | hstart
  · exact .inl rfl
  · obtain rfl := List.mem_singleton.mp hstart
    refine .inr ⟨rfl, ?_, ?_⟩
    · rw [hafter]
      decide
    · rw [hafter]

end Shared

namespace Shared

theorem erase_module : Syntax.erase module.content = .ok ⟨"import './b';", [⟨"./b", 1⟩]⟩ := by
  rw [← toOption_eq_some_iff]
  decide +kernel

/-- The loader of a run that writes to the output. -/
def loader (h : Host) (checks : Bool) : Loader := loaderOf h (options "-" checks) (.eraser .standard checks)

theorem cache_loader (h : Host) (checks : Bool) : (loader h checks).cache = .disk directory := by
  rw [loader, loaderOf_cached _ _ (directory_options "-" checks)]

theorem noNul (checks : Bool) : ¬(loader (host false) checks).HasNulDirectory (host false) := by
  rintro ⟨d, hd, hnul⟩
  obtain rfl := CodeCache.disk.inj ((cache_loader _ checks).symm.trans hd)
  exact hnul (nulFree_iff.mp (by decide))

/-- Without checks the module is compiled, and its code is put into the cache, though it imports what is not there. -/
theorem compile_unchecked :
    ∃ w, exec ((loader (host false) false).compile "http://h/a.ts") (.fresh (host false)) = (.ok "import './b';", w) ∧
      w.host = { host false with files := (diskPut (host false) directory module "import './b';").1 } := by
  have hcompiled := Loader.compiled (l := loader (host false) false) (w := .fresh (host false)) "http://h/a.ts" (noNul false)
    fun words timeout encoding heq => by cases heq
  have hcode : ((Dialogue.compile (.eraser .standard false) "http://h/a.ts").run
      ((⟨.search ["/"], "utf-8"⟩ : Resolver).replies (.fresh (host false)))).toOption = some "import './b';" := by
    decide +kernel
  generalize exec ((loader (host false) false).compile "http://h/a.ts") (.fresh (host false)) = p at hcompiled
  have hcache := cache_loader (host false) false
  cases hcompiled with
  | failed fails => exact absurd (hcode.symm.trans (congrArg Except.toOption fails)) (by simp [Except.toOption])
  | found _ learns hit =>
    obtain ⟨bs, e, hread, -⟩ := read_of_diskGet (Loader.diskGet_of_cached hcache hit)
    obtain ⟨place, -, hnode⟩ := read_eq_ok_iff.mp hread
    rw [learns.host] at hnode
    simp [World.fresh, host, Compiler.pagesWorld, plainWorld, node?] at hnode
  | @stored s code w₁ source made learns =>
    have hs : s = module := Except.ok.inj (source.symm.trans (findOn_module "-" false (by decide) rfl))
    have hsame : code = "import './b';" := Option.some.inj ((congrArg Except.toOption made).symm.trans hcode)
    subst hs hsame
    obtain ⟨es, hstore⟩ := Loader.exec_store_disk hcache module "import './b';" w₁
    refine ⟨_, rfl, ?_⟩
    rw [hstore, learns.host]
    rfl

/-- Behind the run without checks, the code is in the cache. -/
theorem after_unchecked :
    ∃ fs, unchecked.after (host false) = { host false with files := fs } ∧
      diskGet { host false with files := fs } directory module = .ok (.code "import './b';") := by
  obtain ⟨w, hcompile, hhost⟩ := compile_unchecked
  refine ⟨(diskPut (host false) directory module "import './b';").1, ?_, ?_⟩
  · rcases after_eq options?_unchecked (compilerOf_options "-" false) hcompile with hafter | ⟨code, hafter⟩
    · rw [hafter, hhost]
    · rcases files_of_delivered w.host (options "-" false) (options "-" false).inputName code with hfiles | ⟨hfile, -⟩
      · rw [hafter, hfiles, hhost]
      · exact absurd hfile (by decide)
  · have htemp : (temporaryAt (host false) directory ".0.tmp").Fits :=
      (⟨by decide, by decide⟩ : (⟨.slash, ["cache", ".0.tmp"]⟩ : Path).Fits)
    have hput : (diskPut (host false) directory module "import './b';").2 = .ok () :=
      diskPut_ok (fun _ => rfl) (ensureDirectories_cachePath .relative) (leadsInto_cachePath .relative) (leadsInto_cachePath .slash)
        (fits_entryPath_cachePath .relative module) htemp (by decide) (loose_entry_cachePath module)
    exact diskGet_of_diskPut (fun loc target _ => by simp [entryAt, empty_host]) (fits_entryPath_cachePath .relative module) hput

/-- Without the cache the import that leads nowhere is reported. -/
theorem run_checked (hhere : h.here.text = "/") (hpages : h.pages = (host false).pages) :
    (Dialogue.compile (.eraser .standard true) "http://h/a.ts").run (((options "-" true).resolver h).replies (.fresh h)) =
      .error (.load (.compilationAt "http://h/a.ts" (.moduleNotFound "./b") (some ⟨1, 1⟩))) := by
  have hresolver : (options "-" true).resolver h = ⟨.search ["/"], "utf-8"⟩ := by
    rw [Options.resolver, hhere]
    rfl
  have hasked : ∀ q ∈ (Dialogue.compile (.eraser .standard true) "http://h/a.ts").asked
      ((⟨.search ["/"], "utf-8"⟩ : Resolver).replies (.fresh (host false))),
      q ∈ ["http://h/a.ts", "http://h/b.ts", "http://h/b.js", "http://h/b/index.ts"].map .source := by
    decide +kernel
  have hfound := findOn_module (h := host false) "-" true (by decide) rfl
  have hmissing : Compiler.missing? (host false) "utf-8" .standard "http://h/a.ts" [⟨"./b", 1⟩] = some ⟨"./b", 1⟩ := by
    decide +kernel
  have hrun := Compiler.run_erase true hfound erase_module
  rw [hresolver, Dialogue.run_congr (r := (⟨.search ["/"], "utf-8"⟩ : Resolver).replies (.fresh (host false))) fun q hq => ?_]
  · exact hrun.trans (congrArg (Compiler.verdict "http://h/a.ts" "import './b';") hmissing)
  · obtain ⟨url, hurl, rfl⟩ := List.mem_map.mp (hasked q hq)
    rw [← hresolver]
    simp only [List.mem_cons, List.not_mem_nil, or_false] at hurl
    rcases hurl with rfl | rfl | rfl | rfl <;> exact findOn_page _ _ hpages (by decide) rfl rfl

theorem product_checked (hhere : h.here.text = "/") (hpages : h.pages = (host false).pages)
    (hget : diskGet h directory module = .ok (.code "import './b';")) : checked.product h = .ok (some ⟨0, "import './b';", none⟩) := by
  have hs := findOn_module "-" true hhere hpages
  obtain ⟨w, hcompile, hhost⟩ := exec_compile_of_found (l := loader h true) (cache_loader h true) hs hget
  rw [product_eq options?_checked (compilerOf_options "-" true) hcompile (by rw [hhost])]
  rfl

theorem product_checkedUncached (hhere : h.here.text = "/") (hpages : h.pages = (host false).pages) :
    checkedUncached.product h = .ok (some ⟨1, "", none⟩) := by
  obtain ⟨hresult, hhost⟩ := exec_compile_nowhere (l := loaderOf h (options "-" true).uncached (.eraser .standard true)) (h := h)
    (n := (options "-" true).uncached.inputName) rfl fun words timeout encoding heq => by cases heq
  generalize hexec : exec (Loader.compile _ _) (.fresh h) = p at hresult hhost
  obtain ⟨x, w⟩ := p
  obtain rfl : x = .error _ := hresult.trans (run_checked hhere hpages)
  rw [product_eq options?_checkedUncached (show compilerOf (options "-" true).uncached = _ from compilerOf_options "-" true) hexec
    (by rw [hhost])]
  rfl

end Shared

namespace Shared

/-- A run that writes the code where its cache is. -/
def toCache : Invocation := ⟨"0.1", ["http://h/a.ts", "-o", "cache", "--cache-dir", "cache", "--no-check-imports"]⟩

/-- The same run without the cache. -/
def toCacheUncached : Invocation := ⟨"0.1", ["http://h/a.ts", "-o", "cache", "--no-check-imports"]⟩

theorem options?_toCache : toCache.options? = some (options "cache" false) := rfl

theorem options?_toCacheUncached : toCacheUncached.options? = some (options "cache" false).uncached := rfl

/-- Where the code of the run is written. -/
theorem outputPath_toCache (hcwd : h.cwd = []) (o : Options) (ho : o.output = some "cache") (input : String) :
    outputPath h o input = ⟨.slash, ["cache"]⟩ := by
  have hchosen : chosen (some "cache") = some "cache" := by decide
  rw [outputPath, ho, hchosen, Host.here, hcwd, Option.getD_some]
  rfl

/-- The code is written just if there is no directory in its place. -/
theorem written_toCache (hlink : ∀ target, h.files.node? ["cache"] ≠ some (.link target)) (bs : Bytes) :
    (written h ⟨.slash, ["cache"]⟩ bs).1 =
      if h.files.node? ["cache"] = some .directory then .error (.system .isDirectory "/cache") else .ok () := by
  have hparent : h.files.ensureDirectories h.cwd (Path.parent ⟨.slash, ["cache"]⟩) = (h.files, none) :=
    ensureDirectories_of_leadsToDirectory
      (leadsToDirectory_iff.mpr ⟨[], locate_eq_ok_iff.mpr ⟨⟨by decide, by decide⟩, .here⟩, rfl⟩)
  have hl : h.files.locate true h.cwd ⟨.slash, ["cache"]⟩ = .ok ["cache"] :=
    locate_eq_ok_iff.mpr ⟨⟨by decide, by decide⟩, .one rfl ⟨by decide, by decide⟩ (by decide) (.inr hlink)⟩
  have hpath : Path.text ⟨.slash, ["cache"]⟩ = "/cache" := rfl
  by_cases hdir : h.files.node? ["cache"] = some .directory
  · have hwrite : h.files.write h.cwd ⟨.slash, ["cache"]⟩ bs = .error (.system .isDirectory) := by
      rw [write, hl]
      simp only [Bind.bind, Except.bind, hdir]
    simp only [written, hparent, hwrite, if_pos hdir, Failure.ofPath, hpath]
  · have hwrite : h.files.write h.cwd ⟨.slash, ["cache"]⟩ bs = .ok (h.files.set ["cache"] (.file bs)) :=
      write_eq_ok_iff.mpr ⟨["cache"], hl, hdir, rfl⟩
    simp only [written, hparent, hwrite, if_neg hdir]

theorem encodeText_code : encodeText "utf-8" "import './b';" = .ok (Utf8.encode "import './b';".toList) := by
  rw [← toOption_eq_some_iff]
  rfl

/-- With the cache its directory is in the place of the code. -/
theorem product_toCache : toCache.product (host false) = .ok (some ⟨1, "", none⟩) := by
  obtain ⟨w, hcompile, hhost⟩ := compile_unchecked
  have hdir : w.host.files.node? ["cache"] = some .directory := by
    rw [hhost]
    exact directory_of_diskPut rfl (ensureDirectories_cachePath .relative) rfl module "import './b';"
  have hcwd : w.host.cwd = [] := by rw [hhost]; rfl
  have hwritten := written_toCache (h := w.host) (fun target hlink => by simp [hdir] at hlink) (Utf8.encode "import './b';".toList)
  rw [if_pos hdir] at hwritten
  rw [product_eq options?_toCache (compilerOf_options "cache" false) hcompile (by rw [hcwd]; rfl)]
  rw [← outputPath_toCache hcwd (options "cache" false) rfl (options "cache" false).inputName] at hwritten
  have houtput : (options "cache" false).output ≠ some "-" := by decide
  simp only [Except.bind, delivered, if_neg houtput, encodeText_code, hwritten]
  rfl

/-- Without the cache the code is written. -/
theorem product_toCacheUncached :
    toCacheUncached.product (host false) = .ok (some ⟨0, "", some (Utf8.encode "import './b';".toList)⟩) := by
  obtain ⟨hresult, hhost⟩ := exec_compile_nowhere (l := loaderOf (host false) (options "cache" false).uncached
    (.eraser .standard false)) (h := host false) (n := (options "cache" false).uncached.inputName) rfl
    fun words timeout encoding heq => by cases heq
  have hfound := findOn_module (h := host false) "cache" false (by decide) rfl
  generalize hexec : exec (Loader.compile _ _) (.fresh (host false)) = p at hresult hhost
  obtain ⟨x, w⟩ := p
  simp only at hresult hhost
  obtain rfl : x = .ok "import './b';" := hresult.trans (Compiler.run_erase false hfound erase_module)
  have hcwd : w.host.cwd = [] := by rw [hhost]; rfl
  have hnone : w.host.files.node? ["cache"] = none := by
    rw [hhost]
    exact empty_host [] "cache"
  have hwritten := written_toCache (h := w.host) (fun target hlink => by simp [hnone] at hlink) (Utf8.encode "import './b';".toList)
  rw [if_neg (by simp [hnone])] at hwritten
  rw [product_eq options?_toCacheUncached (show compilerOf (options "cache" false).uncached = _ from
    compilerOf_options "cache" false) hexec (by rw [hcwd]; rfl)]
  rw [← outputPath_toCache hcwd (options "cache" false).uncached rfl
    (options "cache" false).uncached.inputName] at hwritten
  have houtput : (options "cache" false).uncached.output ≠ some "-" := by decide
  simp only [Except.bind, delivered, if_neg houtput, encodeText_code, hwritten]
  rfl

end Shared

/-- The directory of the cache is made before the code is written. So a run whose code is to be written there fails, which it would not do
without the cache. -/
theorem product_not_of_output :
    Shared.toCache.product (Shared.host false) = .ok (some ⟨1, "", none⟩) ∧
      Shared.toCacheUncached.product (Shared.host false) = .ok (some ⟨0, "", some (Utf8.encode "import './b';".toList)⟩) :=
  ⟨Shared.product_toCache, Shared.product_toCacheUncached⟩

end ScriptLoader.CommandLine
