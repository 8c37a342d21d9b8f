import ScriptLoader.Proofs.Cache.Changes
import ScriptLoader.Proofs.Loader.Dialogue
import ScriptLoader.Proofs.Loader.Imports
import ScriptLoader.Proofs.Loader.Keeping

/-!
# What a compiler makes of a source

The code that a compiler gives for a name is made of the source that the name stands for: the name itself, the search path and the working
directory have no part in it (`Compiler.run_compile_eq_ok_iff`). The files do, since imports are checked and a command may read them. But
what has been made once is made again as long as no way is lost and no text is gone (`KeepsTexts`, `Compiler.Makes.of_keepsTexts`), and
neither a cache nor the delivery of code does such a thing.
-/

namespace ScriptLoader

open Action Cache Files FileSystem Text

/-! ## Files that stay texts -/

/-- The bytes are a text. -/
def IsText (bs : Bytes) : Prop := ∃ s, decodeText "utf-8" bs = .ok s

theorem isText_of_decode {bs : Bytes} {cs : List Char} (h : Utf8.decode bs = some cs) : IsText bs := by
  have hencoding : Encoding.named? "utf-8" = some .utf8 := by decide
  refine ⟨String.ofList cs, ?_⟩
  rw [decodeText, hencoding]
  simp only [Encoding.decode?, h, Option.map_some]

theorem isText_of_encodeText {s : String} {bs : Bytes} (h : encodeText "utf-8" s = .ok bs) : IsText bs := by
  have hencoding : Encoding.named? "utf-8" = some .utf8 := by decide
  rw [encodeText, hencoding] at h
  rw [← Except.ok.inj h]
  exact isText_of_decode (Utf8.decode_encode _)

theorem Cache.Entry.isText_bytes (e : Entry) : IsText e.bytes := isText_of_decode (Utf8.decode_encode _)

/-- No way is lost, and a file with a text is one still, be it with another text. -/
structure KeepsTexts (fs fs' : FileSystem) : Prop where
  ways : KeepsWays fs fs'
  texts : ∀ l bs, fs.node? l = some (.file bs) → IsText bs → ∃ bs', fs'.node? l = some (.file bs') ∧ IsText bs'

namespace KeepsTexts

variable {fs fs' fs'' : FileSystem} {cwd l : Location} {bs : Bytes}

theorem refl (fs : FileSystem) : KeepsTexts fs fs := ⟨.refl fs, fun _ bs hfile htext => ⟨bs, hfile, htext⟩⟩

theorem trans (h : KeepsTexts fs fs') (h' : KeepsTexts fs' fs'') : KeepsTexts fs fs'' := by
  refine ⟨h.ways.trans h'.ways, fun l bs hfile htext => ?_⟩
  obtain ⟨bs', hfile', htext'⟩ := h.texts l bs hfile htext
  exact h'.texts l bs' hfile' htext'

theorem of_grows (h : Grows fs fs') : KeepsTexts fs fs' := by
  refine ⟨h.keepsWays, fun l bs hfile htext => ⟨bs, ?_, htext⟩⟩
  rcases h l with hsame | ⟨hnone, -⟩
  · rw [hsame, hfile]
  · exact absurd (hfile.symm.trans hnone) (by simp)

/-- A text is written where nothing or a file is. -/
theorem of_holds (h : Holds fs l bs fs') (hloose : Loose (fs.node? l)) (htext : IsText bs) : KeepsTexts fs fs' := by
  refine ⟨(h.sameWays hloose).keepsWays, fun l' bs' hfile htext' => ?_⟩
  rw [h l']
  split
  · exact ⟨bs, rfl, htext⟩
  · exact ⟨bs', hfile, htext'⟩

/-- A cache writes texts. Where its directory holds no links, they take the place of files. -/
theorem of_put {h : Host} {d : Path} {s : Source} {code : String} {r : Except Failure Unit} (hput : PutResult h d s code (fs, r))
    (hplain : ∀ loc n target, h.files.Leads (d.start h.cwd) d.names loc → h.files.node? (loc ++ [n]) ≠ some (.link target)) :
    KeepsTexts h.files fs := by
  have hgrows := grows_ensureDirectories h.files h.cwd d
  cases hput with
  | @stored made _ loc hmade hleads hfree hholds =>
    rw [hmade] at hgrows
    have hways := (of_grows hgrows).ways
    have hloc := (locate_eq_ok_iff.mp hleads.1).2.leads.of_sameLinks hways.links.symm
    have hlink (target : String) : made.node? (entryAt loc s) ≠ some (.link target) := fun hlink =>
      hplain loc _ target hloc ((hways.links _ _).mpr hlink)
    exact (of_grows hgrows).trans (of_holds hholds ⟨hfree, hlink⟩ (Entry.isText_bytes _))
  | @refused made _ _ hmade hsame =>
    refine of_grows fun l => ?_
    rw [hsame l]
    rcases hmade with rfl | rfl
    · exact .inl rfl
    · exact hgrows l

/-- A text that can be read can be read later. -/
theorem readText {h h' : Host} (hkeeps : KeepsTexts h.files h'.files) (hcwd : h'.cwd = h.cwd) {p : Path}
    (hread : ∃ text, h.readText "utf-8" p = .ok text) : ∃ text, h'.readText "utf-8" p = .ok text := by
  obtain ⟨text, hread⟩ := hread
  obtain ⟨bs, hbytes, hread⟩ := bind_eq_ok_iff.mp hread
  obtain ⟨s, hdecode, -⟩ := bind_eq_ok_iff.mp hread
  obtain ⟨l, hl, hfile⟩ := read_eq_ok_iff.mp (mapError_eq_ok_iff.mp hbytes)
  obtain ⟨bs', hfile', s', hdecode'⟩ := hkeeps.texts l bs hfile ⟨s, hdecode⟩
  have hbytes' : h'.fileBytes p = .ok bs' := by
    rw [Host.fileBytes, hcwd, read_eq_ok_iff.mpr ⟨l, locate_of_keepsWays hl hkeeps.ways, hfile'⟩]
    rfl
  exact ⟨_, bind_eq_ok_iff.mpr ⟨bs', hbytes', bind_eq_ok_iff.mpr ⟨s', hdecode', rfl⟩⟩⟩

/-- A relative name that can be read in a document can be read there later. -/
theorem reads {h h' : Host} (hkeeps : KeepsTexts h.files h'.files) (hcwd : h'.cwd = h.cwd) (hpages : h'.pages = h.pages)
    {uri name : String} (hreads : h.reads "utf-8" uri name = true) : h'.reads "utf-8" uri name = true := by
  unfold Host.reads at hreads ⊢
  split at hreads
  · rename_i url hjoin
    rw [Option.isSome_iff_exists] at hreads ⊢
    obtain ⟨s, hs⟩ := hreads
    obtain ⟨ref, href, hs⟩ := bind_eq_ok_iff.mp (toOption_eq_some_iff.mp hs)
    have hparse : (Uri.Reference.parse "" url).mapError (fun m => Failure.invalid m.message) = .ok ref := href
    split at hs
    · rename_i hfile
      obtain ⟨text, htext, -⟩ := bind_eq_ok_iff.mp hs
      obtain ⟨text', htext'⟩ := hkeeps.readText hcwd ⟨text, htext⟩
      refine ⟨⟨url, text'⟩, toOption_eq_some_iff.mpr ?_⟩
      rw [Host.sourceOfUrl, hparse]
      simp only [Bind.bind, Except.bind, if_pos hfile, htext']
      rfl
    · rename_i hpage
      have hfetch : h'.fetchText "utf-8" url = h.fetchText "utf-8" url := by
        rw [Host.fetchText, Host.fetchText, Host.fetch, Host.fetch, hpages]
      refine ⟨s, toOption_eq_some_iff.mpr ?_⟩
      rw [Host.sourceOfUrl, hparse]
      simp only [Bind.bind, Except.bind, if_neg hpage, hfetch]
      exact hs
  · cases hreads

end KeepsTexts

/-! ## The addresses of sources -/

/-- The URI of a file is an address. -/
theorem Address.check_uri {p : Path} (h : p.isAbsolute = true) : Address.check p.uri = .ok () := by
  have hlong : ¬"file".length < 2 := by decide
  have hlisted : Address.schemes.contains "file" = true := by decide
  simp only [Address.check, Path.parse_uri h, hlong, hlisted, ne_eq, not_true_eq_false, decide_false, Bool.false_and,
    Bool.not_true, Bool.false_eq_true, if_false]

/-- A source that is found by way of a search path is at an address. -/
theorem Resolver.check_uri_of_findOn {roots : List String} {label name : String} {h : Host} {s : Source}
    (hs : (⟨.search roots, label⟩ : Resolver).findOn h name = .ok s) : Address.check s.uri = .ok () := by
  obtain ⟨url, hlocate, hs⟩ := bind_eq_ok_iff.mp hs
  cases url with
  | none =>
    obtain ⟨path, hpath, hs⟩ := bind_eq_ok_iff.mp (mapError_eq_ok_iff.mp hs)
    obtain ⟨text, -, hs⟩ := bind_eq_ok_iff.mp hs
    obtain ⟨loc, rfl, -⟩ := isAbsolute_of_realPath hpath
    obtain rfl := Except.ok.inj hs
    exact Address.check_uri rfl
  | some url =>
    rw [uri_of_sourceOfUrl (mapError_eq_ok_iff.mp hs)]
    unfold locateOn at hlocate
    split at hlocate
    · rename_i hcheck
      rwa [← Option.some.inj (Except.ok.inj hlocate)]
    · simp only [Lookup.get?] at hlocate
      split at hlocate
      · obtain ⟨p, habsolute, -, rfl⟩ := Lookup.uri_of_searchFor hlocate
        exact Address.check_uri habsolute
      · cases hlocate

/-! ## What a compiler makes -/

namespace Compiler

/-- What a compiler makes of a source on a host. The eraser, if it checks imports, makes something only where all of them lead to a module;
a command makes what it writes. -/
inductive Makes (h : Host) (s : Source) (code : String) : Compiler → Prop where
  | erased {config : Config} {checks : Bool} {erased : Syntax.Erased} (erases : Syntax.erase s.content = .ok erased)
      (same : erased.code = code) (imports : checks = true → missing? h config.encoding config s.uri erased.specifiers = none) :
      Makes h s code (.eraser config checks)
  | written {words : List String} {timeout : Option Int} {encoding : String} {input : Bytes} (program : words ≠ [])
      (source : encodeText encoding s.content = .ok input)
      (outcome : Outcome.result encoding s.uri (h.run h.files h.cwd words input timeout).1 = .ok code) :
      Makes h s code (.command words timeout encoding)

/-- A compiler with the standard configuration. -/
def IsStandard (c : Compiler) : Prop := ∀ config checks, c = .eraser config checks → config = .standard

variable {h h' : Host} {c : Compiler} {s : Source} {code : String}

/-- What the eraser gives for a name, once the source has been erased. -/
theorem run_erase {roots : List String} {n : String} {erased : Syntax.Erased} (checks : Bool)
    (hs : (⟨.search roots, "utf-8"⟩ : Resolver).findOn h n = .ok s) (herased : Syntax.erase s.content = .ok erased) :
    (Dialogue.compile (.eraser .standard checks) n).run ((⟨.search roots, "utf-8"⟩ : Resolver).replies (.fresh h)) =
      if checks then verdict n erased.code (missing? h "utf-8" .standard s.uri erased.specifiers) else .ok erased.code := by
  have hexec := exec_compile (r := ⟨.search roots, "utf-8"⟩) (.eraser .standard checks) n (w := .fresh h)
    fun words timeout encoding heq => by cases heq
  have hresolve : (exec ((⟨.search roots, "utf-8"⟩ : Resolver).resolve n none) (.fresh h)).1 = .ok s :=
    (Resolver.follows_resolve _ n none (.fresh h)).1.trans hs
  have hstandard : Config.make .nothing .nothing .nothing = .ok .standard := by
    rw [← toOption_eq_some_iff]
    decide +kernel
  obtain ⟨hfree, hchecked⟩ := erase_checked hstandard rfl rfl .empty hresolve (Resolver.check_uri_of_findOn hs) herased
    (.inl (by decide))
  rw [← hexec.1]
  cases checks with
  | false => exact hfree
  | true => exact hchecked

theorem run_erase_eq_ok_iff {roots : List String} {n : String} {checks : Bool}
    (hs : (⟨.search roots, "utf-8"⟩ : Resolver).findOn h n = .ok s) :
    (Dialogue.compile (.eraser .standard checks) n).run ((⟨.search roots, "utf-8"⟩ : Resolver).replies (.fresh h)) = .ok code ↔
      (eraser .standard checks).Makes h s code := by
  cases herased : Syntax.erase s.content with
  | error refusal =>
    have hfound : (Dialogue.find n).run ((⟨.search roots, "utf-8"⟩ : Resolver).replies (.fresh h)) = .ok s := hs
    rw [Dialogue.compile, Dialogue.run_bind, hfound]
    simp only [Dialogue.forward, herased]
    constructor
    · intro heq
      cases heq
    · intro hmakes
      cases hmakes with
      | erased erases => exact absurd (herased.symm.trans erases) (by simp)
  | ok erased =>
    have hmakes : (eraser .standard checks).Makes h s code ↔
        erased.code = code ∧ (checks = true → missing? h "utf-8" .standard s.uri erased.specifiers = none) := by
      constructor
      · intro hmakes
        cases hmakes with
        | erased erases same imports =>
          obtain rfl := Except.ok.inj (herased.symm.trans erases)
          exact ⟨same, imports⟩
      · rintro ⟨hsame, himports⟩
        exact .erased herased hsame himports
    rw [run_erase checks hs herased, hmakes]
    cases checks with
    | false => simp
    | true => cases missing? h "utf-8" .standard s.uri erased.specifiers <;> simp [verdict]

/-- A name is compiled to code just if the compiler makes the code of the source that the name stands for. -/
theorem run_compile_eq_ok_iff {roots : List String} {n : String} (hstandard : c.IsStandard)
    (hs : (⟨.search roots, "utf-8"⟩ : Resolver).findOn h n = .ok s) :
    (Dialogue.compile c n).run ((⟨.search roots, "utf-8"⟩ : Resolver).replies (.fresh h)) = .ok code ↔ c.Makes h s code := by
  cases c with
  | eraser config checks =>
    obtain rfl := hstandard config checks rfl
    exact run_erase_eq_ok_iff hs
  | command words timeout encoding =>
    have hfound : (Dialogue.find n).run ((⟨.search roots, "utf-8"⟩ : Resolver).replies (.fresh h)) = .ok s := hs
    rw [Dialogue.compile, Dialogue.run_bind, hfound]
    simp only [Dialogue.forward]
    split
    · rename_i hwords
      constructor
      · intro heq
        cases heq
      · intro hmakes
        cases hmakes with
        | written program => exact absurd hwords program
    · rename_i hwords
      cases hinput : encodeText encoding s.content with
      | error f =>
        constructor
        · intro heq
          cases heq
        · intro hmakes
          cases hmakes with
          | written _ source => exact absurd (hinput.symm.trans source) (by simp)
      | ok input =>
        show Outcome.result encoding n (h.run h.files h.cwd words input timeout).1 = .ok code ↔ _
        have hname : (Outcome.result encoding n (h.run h.files h.cwd words input timeout).1).toOption =
            (Outcome.result encoding s.uri (h.run h.files h.cwd words input timeout).1).toOption := Dialogue.toOption_result encoding _
        rw [← toOption_eq_some_iff, hname, toOption_eq_some_iff]
        constructor
        · exact .written hwords hinput
        · intro hmakes
          cases hmakes with
          | written _ source outcome =>
            obtain rfl := Except.ok.inj (hinput.symm.trans source)
            exact outcome

/-- The output of a command is a function of its input, and it changes no files, on a host and on others that keep its ways. -/
def IsFunction (c : Compiler) (h : Host) : Prop :=
  ∀ words timeout encoding, c = .command words timeout encoding → ∀ fs, KeepsWays h.files fs → ∀ input,
    h.run fs h.cwd words input timeout = ((h.run h.files h.cwd words input timeout).1, fs)

/-- Hosts that differ in their files. -/
theorem IsFunction.of_keepsWays (hfunction : c.IsFunction h) (hways : KeepsWays h.files h'.files)
    (hhost : h' = { h with files := h'.files }) : c.IsFunction h' := by
  intro words timeout encoding hc fs hfs input
  have hbefore := hfunction words timeout encoding hc _ hways input
  have hafter := hfunction words timeout encoding hc fs (hways.trans hfs) input
  rw [hhost]
  show h.run fs h.cwd words input timeout = ((h.run h'.files h.cwd words input timeout).1, fs)
  rw [hbefore, hafter]

theorem IsFunction.leavesFiles (hfunction : c.IsFunction h) : c.LeavesFiles h := by
  intro words timeout encoding hc input
  rw [hfunction words timeout encoding hc h.files (.refl _) input]

/-- What is made on a host is made where no text is gone. -/
theorem Makes.of_keepsTexts (hmakes : c.Makes h s code) (hstandard : c.IsStandard) (hfunction : c.IsFunction h)
    (hkeeps : KeepsTexts h.files h'.files) (hhost : h' = { h with files := h'.files }) : c.Makes h' s code := by
  have hcwd : h'.cwd = h.cwd := by rw [hhost]
  have hpages : h'.pages = h.pages := by rw [hhost]
  cases hmakes with
  | @erased config checks erased erases same imports =>
    obtain rfl := hstandard config checks rfl
    refine .erased erases same fun hchecks => ?_
    have hnone := imports hchecks
    unfold missing? at hnone ⊢
    rw [List.find?_eq_none] at hnone ⊢
    intro t ht hmissing
    refine hnone t ht ?_
    rw [Bool.and_eq_true, Bool.not_eq_true', List.any_eq_false] at hmissing ⊢
    exact ⟨hmissing.1, fun candidate hc hreads => hmissing.2 candidate hc (hkeeps.reads hcwd hpages hreads)⟩
  | @written words timeout encoding input hwords source outcome =>
    refine .written hwords source ?_
    rw [hhost]
    show Outcome.result encoding s.uri (h.run h'.files h.cwd words input timeout).1 = _
    rw [hfunction words timeout encoding rfl _ hkeeps.ways input]
    exact outcome

/-- What one compiler makes, the other one makes too: it is the same compiler, or the eraser that does not check imports. -/
def Serves (c c' : Compiler) : Prop := c = c' ∨ ∃ config, c = .eraser config true ∧ c' = .eraser config false

theorem Makes.serves {c' : Compiler} (hmakes : c.Makes h s code) (hserves : c.Serves c') : c'.Makes h s code := by
  rcases hserves with rfl | ⟨config, rfl, rfl⟩
  · exact hmakes
  · cases hmakes with
    | erased erases same => exact .erased erases same fun hchecks => absurd hchecks (by decide)

end Compiler

end ScriptLoader
