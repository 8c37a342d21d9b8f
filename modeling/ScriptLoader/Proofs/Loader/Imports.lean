import ScriptLoader.Proofs.Config
import ScriptLoader.Proofs.Loader.Failures
import ScriptLoader.Proofs.Uri.Join

/-!
# What the import check says

The eraser checks that every relative import leads to a module. What the check says is a function of the files and the pages
(`Compiler.missing?`): it does not depend on the lookup, the search path, the working directory, or what has been resolved before
(`Compiler.erase_checked`). The reason is that a relative name in a document at an address is an address from the root
(`Resolver.nameOn_of_address`), so it never gets to the lookup. A candidate that is not relative does get there
(`Compiler.erase_checked_not_isolated`).
-/

namespace ScriptLoader

open Action Text

/-! ## Addresses from the root -/

theorem Uri.isAbsolute_unescaped {path : String} {cs : List Char} (h : path.toList = '/' :: cs) :
    (Path.ofText (Uri.unescaped path)).isAbsolute = true := by
  obtain ⟨ds, hds⟩ : ∃ ds, (Uri.unescaped path).toList = '/' :: ds := by
    have hascii : Uri.isAscii '/' = true := by decide
    rw [Uri.unescaped, h, Uri.unescapeText, if_pos hascii, Uri.unescape_cons (by decide), Utf8.decodeLossy, String.toList_ofList]
    exact ⟨_, rfl⟩
  have hroot : Root.ofChars ('/' :: ds) ≠ .relative := by
    unfold Root.ofChars
    split
    · simp
    · simp
    · simp
    · rename_i hother
      exact absurd rfl (hother ds)
  rw [Path.isAbsolute, Path.ofText, hds]
  exact decide_eq_true hroot

namespace Host

variable {h h₀ : Host} {label : String}

/-- What an absolute path leads to does not depend on the working directory. -/
theorem readText_of_isAbsolute {p : Path} (hp : p.isAbsolute = true) (hfiles : h.files = h₀.files) :
    h.readText label p = h₀.readText label p := by
  simp only [readText, fileBytes, Files.FileSystem.read, Files.FileSystem.stat, Files.FileSystem.locate, hp, if_true, hfiles]

/-- What an address from the root leads to does not depend on the working directory. -/
theorem sourceOfUrl_of_root {url : String} {r : Uri.Reference} {path : List Char} (hurl : Uri.Reference.parse "" url = .ok r)
    (hpath : r.path.toList = '/' :: path) (hfiles : h.files = h₀.files) (hpages : h.pages = h₀.pages) :
    h.sourceOfUrl label url = h₀.sourceOfUrl label url := by
  have htext : h.readText label _ = h₀.readText label _ := readText_of_isAbsolute (Uri.isAbsolute_unescaped hpath) hfiles
  simp only [sourceOfUrl, hurl, mapError_ok, Bind.bind, Except.bind, htext, fetchText, fetch, hpages]

/-- The relative name can be read in a document at the address `uri`. -/
def reads (h : Host) (label uri name : String) : Bool :=
  match Uri.join uri name with
  | .ok url => (h.sourceOfUrl label url).toOption.isSome
  | .error _ => false

end Host

/-! ## What is known -/

/-- What may be known when names have been resolved, with any lookups and in any directories, but in one encoding and with the files and
the pages of a host. -/
inductive Identities.Filled (h₀ : Host) (label : String) : Identities → Prop where
  | empty : Filled h₀ label .empty
  | call {w w' : World} {r : Resolver} (before : Filled h₀ label w.identities) (files : w.host.files = h₀.files)
      (pages : w.host.pages = h₀.pages) (encoding : r.encoding = label) (learns : Learns r w w') : Filled h₀ label w'.identities

/-- A source that is known has been found. -/
theorem Identities.Filled.found {h₀ : Host} {label : String} {m : Identities} (hm : m.Filled h₀ label) {n : String} {s : Source}
    (hs : m.get? n = some s) :
    ∃ (r : Resolver) (h : Host), r.encoding = label ∧ h.files = h₀.files ∧ h.pages = h₀.pages ∧ r.findOn h n = .ok s := by
  induction hm with
  | empty => nomatch hs
  | call _ files pages encoding learns ih =>
    rcases learns.found n s hs with hknown | hfound
    · exact ih hknown
    · exact ⟨_, _, encoding, files, pages, hfound⟩

/-- In an encoding that is not known there are only empty sources. -/
theorem Resolver.content_of_findOn {r : Resolver} {h : Host} {name : String} {s : Source}
    (hunknown : Encoding.named? r.encoding = none) (hs : r.findOn h name = .ok s) : s.content = "" := by
  have htext (p : Path) (text : String) : h.readText r.encoding p ≠ .ok text := by
    intro hread
    obtain ⟨bs, -, hread⟩ := bind_eq_ok_iff.mp hread
    obtain ⟨decoded, hdecode, -⟩ := bind_eq_ok_iff.mp hread
    rw [decodeText, hunknown] at hdecode
    cases hdecode
  obtain ⟨url, -, hs⟩ := bind_eq_ok_iff.mp hs
  cases url with
  | none =>
    obtain ⟨path, -, hs⟩ := bind_eq_ok_iff.mp (mapError_eq_ok_iff.mp hs)
    obtain ⟨text, hread, -⟩ := bind_eq_ok_iff.mp hs
    exact absurd hread (htext _ _)
  | some url =>
    obtain ⟨ref, -, hs⟩ := bind_eq_ok_iff.mp (mapError_eq_ok_iff.mp hs)
    split at hs
    · obtain ⟨text, hread, -⟩ := bind_eq_ok_iff.mp hs
      exact absurd hread (htext _ _)
    · obtain ⟨text, hfetch, hs⟩ := bind_eq_ok_iff.mp hs
      obtain ⟨bs, -, hfetch⟩ := bind_eq_ok_iff.mp hfetch
      rw [← Except.ok.inj hs]
      split at hfetch
      · exact (Except.ok.inj hfetch).symm
      · rw [decodeText, hunknown] at hfetch
        cases hfetch

/-- The world of a check: files and pages are those of `h₀`, and what is known has been found there. -/
structure Checking (h₀ : Host) (r : Resolver) (w : World) : Prop where
  files : w.host.files = h₀.files
  pages : w.host.pages = h₀.pages
  filled : w.identities.Filled h₀ r.encoding

theorem Checking.learns {h₀ : Host} {r : Resolver} {w w' : World} (hw : Checking h₀ r w) (h : Learns r w w') : Checking h₀ r w' :=
  ⟨by rw [h.host, hw.files], by rw [h.host, hw.pages], .call hw.filled hw.files hw.pages rfl h⟩

namespace Resolver

variable {h₀ : Host} {r : Resolver} {w w' : World}

theorem locateOn_of_address {url : String} (h : Host) (hlooks : Address.looksLike url = true) (hcheck : Address.check url = .ok ()) :
    r.locateOn h url = .ok (some url) := by
  rw [locateOn, hlooks, hcheck]

/-- An address from the root stands for the source that is there, whatever is known and wherever it is read. -/
theorem nameOn_of_address {url : String} {ref : Uri.Reference} {path : List Char} (hw : Checking h₀ r w)
    (hlooks : Address.looksLike url = true) (hcheck : Address.check url = .ok ()) (hurl : Uri.Reference.parse "" url = .ok ref)
    (hpath : ref.path.toList = '/' :: path) :
    r.nameOn w.host w.identities url = (h₀.sourceOfUrl r.encoding url).mapError (unresolved url) := by
  unfold nameOn
  cases hknown : w.identities.get? url with
  | some s =>
    obtain ⟨r', h, hencoding, hfiles, hpages, hfound⟩ := hw.filled.found hknown
    rw [findOn, locateOn_of_address h hlooks hcheck] at hfound
    have hread := mapError_eq_ok_iff.mp hfound
    rw [Host.sourceOfUrl_of_root hurl hpath hfiles hpages, hencoding] at hread
    exact (mapError_eq_ok_iff.mpr hread).symm
  | none =>
    show r.findOn w.host url = _
    rw [findOn, locateOn_of_address w.host hlooks hcheck]
    exact congrArg (Except.mapError (unresolved url)) (Host.sourceOfUrl_of_root hurl hpath hw.files hw.pages)

end Resolver

/-! ## The check -/

theorem Address.parse_of_check {url : String} (h : Address.check url = .ok ()) :
    ∃ ref, Uri.Reference.parse "" url = .ok ref ∧ ref.scheme ∈ Address.schemes ∧ (ref.scheme ≠ "file" → ref.authority.isEmpty = false) := by
  unfold Address.check at h
  split at h
  · nomatch h
  · rename_i ref href
    split at h
    · nomatch h
    · split at h
      · nomatch h
      · rename_i hscheme
        split at h
        · nomatch h
        · rename_i hhost
          exact ⟨ref, href, by simpa using hscheme, by simpa using hhost⟩

/-- A relative name in a document at an address is an address. -/
theorem Address.check_join {uri name : String} (huri : Address.check uri = .ok ()) (hname : Syntax.isRelative name = true) :
    ∃ url ref path, Uri.join uri name = .ok url ∧ Address.looksLike url = true ∧ Address.check url = .ok () ∧
      Uri.Reference.parse "" url = .ok ref ∧ ref.path.toList = '/' :: path := by
  obtain ⟨b, hb, hscheme, hhost⟩ := Address.parse_of_check huri
  obtain ⟨url, ref, path, hjoin, hlooks, hurl, hrscheme, hauthority, hpath⟩ := Uri.parse_join_relative hb hscheme hname
  refine ⟨url, ref, path, hjoin, hlooks, ?_, hurl, hpath⟩
  have hlong : ¬ref.scheme.length < 2 := by
    rw [hrscheme]
    simp only [Address.schemes, List.mem_cons, List.not_mem_nil, or_false] at hscheme
    rcases hscheme with hs | hs | hs <;> rw [hs] <;> decide
  have hlisted : Address.schemes.contains ref.scheme = true := by
    rw [hrscheme]
    exact List.contains_iff_mem.mpr hscheme
  have hmissing : (decide (ref.scheme ≠ "file") && ref.authority.isEmpty) = false := by
    rw [hrscheme, hauthority]
    by_cases hfile : b.scheme = "file"
    · simp [hfile]
    · simp [hhost hfile]
  simp only [Address.check, hurl, hlong, hlisted, hmissing, Bool.not_true, Bool.false_eq_true, if_false]

namespace Compiler

variable {h₀ : Host} {r : Resolver} {w : World} {config : Config} {name : String} {s : Source}

/-- The first relative specifier of a source at the address `uri` that leads to no module. -/
def missing? (h₀ : Host) (label : String) (config : Config) (uri : String) (specifiers : List Syntax.Specifier) :
    Option Syntax.Specifier :=
  specifiers.find? fun s => Syntax.isRelative s.text && !(config.candidates s.text).any (h₀.reads label uri)

/-- What a check answers for the specifier that is missing. -/
def verdict {α : Type} (name : String) (result : α) : Option Syntax.Specifier → Except Failure α
  | none => .ok result
  | some s => .error (.load (.compilationAt name (.moduleNotFound s.text) (some ⟨s.line, 1⟩)))

theorem exec_resolves {c : String} (hw : Checking h₀ r w) (hknown : ∃ e, Encoding.named? r.encoding = some e)
    (hs : w.identities.get? name = some s) (huri : Address.check s.uri = .ok ()) (hc : Syntax.isRelative c = true) :
    (exec (resolves r name c) w).1 = .ok (h₀.reads r.encoding s.uri c) := by
  obtain ⟨url, ref, path, hjoin, hlooks, hcheck, hurl, hpath⟩ := Address.check_join huri hc
  have hbase : r.nameOn w.host w.identities name = .ok s := by rw [Resolver.nameOn, hs]
  obtain ⟨es, hexec⟩ := Resolver.exec_resolveName r name w
  have hlearns := (Resolver.learning_resolveName r name).of_exec hexec
  rw [hbase] at hexec
  have hname := Resolver.nameOn_of_address (hw.learns hlearns) hlooks hcheck hurl hpath
  obtain ⟨es', hexec'⟩ := Resolver.exec_resolveName r url
    { w with events := es, identities := w.identities.learn name (r.nameOn w.host w.identities name) }
  rw [hname] at hexec'
  rw [hbase] at hexec'
  have hresolve : (exec (r.resolve c (some name)) w).1 = (h₀.sourceOfUrl r.encoding url).mapError (Resolver.unresolved url) := by
    simp only [Resolver.resolve, hc, if_true, exec_bind, hexec, exec_ofExcept, hjoin, mapError_ok, hexec']
  have hreads : h₀.reads r.encoding s.uri c = (h₀.sourceOfUrl r.encoding url).toOption.isSome := by rw [Host.reads, hjoin]
  rw [hreads, resolves, exec_tryCatch, exec_bind]
  generalize exec (r.resolve c (some name)) w = p at hresolve
  obtain ⟨found, w'⟩ := p
  simp only at hresolve
  subst hresolve
  cases hread : h₀.sourceOfUrl r.encoding url with
  | ok t => rfl
  | error f =>
    obtain ⟨cause, hcause⟩ := resolution_of_isTextFailure url (failure_of_sourceOfUrl hknown hread)
    rw [mapError_error, hcause]
    rfl

theorem exec_anyResolves {cs : List String} (hw : Checking h₀ r w) (hknown : ∃ e, Encoding.named? r.encoding = some e)
    (hs : w.identities.get? name = some s) (huri : Address.check s.uri = .ok ()) (hcs : ∀ c ∈ cs, Syntax.isRelative c = true) :
    (exec (anyResolves r name cs) w).1 = .ok (cs.any (h₀.reads r.encoding s.uri)) := by
  induction cs generalizing w with
  | nil => rfl
  | cons c cs ih =>
    have hfirst := exec_resolves hw hknown hs huri (hcs c List.mem_cons_self)
    have hlearns := learning_resolves r name c w
    rw [anyResolves_cons, exec_bind]
    generalize exec (resolves r name c) w = p at hfirst hlearns ⊢
    obtain ⟨found, w'⟩ := p
    simp only at hfirst
    subst hfirst
    rw [List.any_cons]
    cases h₀.reads r.encoding s.uri c with
    | true => rfl
    | false => exact ih (hw.learns hlearns) (hlearns.known _ _ hs) fun d hd => hcs d (List.mem_cons_of_mem _ hd)

/-- The check of the specifiers of a source at an address. -/
theorem exec_checkSpecifiers {specifiers : List Syntax.Specifier} (hw : Checking h₀ r w)
    (hknown : ∃ e, Encoding.named? r.encoding = some e) (hs : w.identities.get? name = some s)
    (huri : Address.check s.uri = .ok ())
    (hcandidates : ∀ t ∈ specifiers, Syntax.isRelative t.text = true → ∀ c ∈ config.candidates t.text, Syntax.isRelative c = true) :
    (exec (checkSpecifiers r config name specifiers) w).1 =
      verdict name () (missing? h₀ r.encoding config s.uri specifiers) := by
  induction specifiers generalizing w with
  | nil => rfl
  | cons t specifiers ih =>
    have hrest : ∀ u ∈ specifiers, Syntax.isRelative u.text = true → ∀ c ∈ config.candidates u.text, Syntax.isRelative c = true :=
      fun u hu => hcandidates u (List.mem_cons_of_mem _ hu)
    unfold checkSpecifiers
    rw [missing?, List.find?_cons]
    cases hrelative : Syntax.isRelative t.text with
    | false => exact ih hw hs hrest
    | true =>
      have hany := exec_anyResolves hw hknown hs huri (hcandidates t List.mem_cons_self hrelative)
      have hlearns := learning_anyResolves r name (config.candidates t.text) w
      rw [if_pos rfl, exec_bind]
      generalize exec (anyResolves r name (config.candidates t.text)) w = p at hany hlearns ⊢
      obtain ⟨found, w'⟩ := p
      simp only at hany
      subst hany
      cases (config.candidates t.text).any (h₀.reads r.encoding s.uri) with
      | true => exact ih (hw.learns hlearns) (hlearns.known _ _ hs) hrest
      | false => rfl

/-- The code of a source with a check of its imports is that without one, unless a relative import leads to no module: then the first
one that does not is reported. Which one that is depends on the files and the pages alone. -/
theorem erase_checked {erased : Syntax.Erased} {source compiled encoding : Config.Given}
    (hconfig : Config.make source compiled encoding = .ok config) (hfiles : w.host.files = h₀.files)
    (hpages : w.host.pages = h₀.pages) (hfilled : w.identities.Filled h₀ r.encoding)
    (hs : (exec (r.resolve name none) w).1 = .ok s) (huri : Address.check s.uri = .ok ())
    (herased : Syntax.erase s.content = .ok erased)
    (hpoint : '\u0307' ∉ config.compiledExtension.toList ∨ ∀ t ∈ erased.specifiers, '\u0130' ∉ t.text.toList) :
    (exec (erase r config false name) w).1 = .ok erased.code ∧
      (exec (erase r config true name) w).1 =
        verdict name erased.code (missing? h₀ r.encoding config s.uri erased.specifiers) := by
  have hcandidates : ∀ t ∈ erased.specifiers, Syntax.isRelative t.text = true → ∀ c ∈ config.candidates t.text,
      Syntax.isRelative c = true := fun t ht hrelative c hc =>
    Config.isRelative_of_mem_candidates (Config.noSlash_of_make hconfig) (hpoint.imp_right fun hno => hno t ht) hrelative hc
  have hw : Checking h₀ r w := ⟨hfiles, hpages, hfilled⟩
  have hlearns := r.learning_resolve name none w
  rw [erase_eq, erase_eq, exec_bind, exec_bind]
  generalize hresolve : exec (r.resolve name none) w = p at hs hlearns
  obtain ⟨found, w₁⟩ := p
  simp only at hs
  subst hs
  simp only [herased]
  refine ⟨rfl, ?_⟩
  have hcheck : (exec (checkSpecifiers r config name erased.specifiers) w₁).1 =
      verdict name () (missing? h₀ r.encoding config s.uri erased.specifiers) := by
    cases hencoding : Encoding.named? r.encoding with
    | some e => exact exec_checkSpecifiers (hw.learns hlearns) ⟨e, hencoding⟩ (Resolver.known_of_resolveName hresolve) huri hcandidates
    | none =>
      have hempty : s.content = "" := by
        obtain ⟨r', h, hencoding', -, -, hfound⟩ := (hw.learns hlearns).filled.found (Resolver.known_of_resolveName hresolve)
        exact r'.content_of_findOn (hencoding' ▸ hencoding) hfound
      have hnone : erased = ⟨"", []⟩ := by
        have herase : (Syntax.erase "").toOption = some ⟨"", []⟩ := by decide +kernel
        rw [hempty] at herased
        rw [herased] at herase
        exact Option.some.inj herase
      rw [hnone]
      rfl
  rw [finishErasure, if_pos rfl, exec_bind]
  generalize exec (checkSpecifiers r config name erased.specifiers) w₁ = p at hcheck ⊢
  obtain ⟨checked, w₂⟩ := p
  simp only at hcheck
  subst hcheck
  cases missing? h₀ r.encoding config s.uri erased.specifiers <;> rfl

/-- A world with two pages, of which the first may import other modules. -/
def pagesWorld (content other : String) : World :=
  { plainWorld [] with
    host := { (plainWorld []).host with
      pages := [("http://h/a.ts", .body (Utf8.encode content.toList)), (other, .body [])] } }

theorem erase_checked_page :
    let r : Resolver := ⟨.search ["/"], "utf-8"⟩
    let w := pagesWorld "import './b';" "http://h/b.ts"
    Config.make .nothing .nothing .nothing = .ok .standard ∧ w.identities.Filled w.host r.encoding ∧
      (exec (r.resolve "http://h/a.ts" none) w).1 = .ok ⟨"http://h/a.ts", "import './b';"⟩ ∧
      (exec (erase r .standard false "http://h/a.ts") w).1 = .ok "import './b';" ∧
      (exec (erase r .standard true "http://h/a.ts") w).1 =
        verdict "http://h/a.ts" "import './b';" (missing? w.host r.encoding .standard "http://h/a.ts" [⟨"./b", 1⟩]) := by
  intro r w
  have hconfig : Config.make .nothing .nothing .nothing = .ok .standard := by
    rw [← toOption_eq_some_iff]
    rfl
  have hs : (exec (r.resolve "http://h/a.ts" none) w).1 = .ok ⟨"http://h/a.ts", "import './b';"⟩ := by
    rw [← toOption_eq_some_iff]
    decide +kernel
  have huri : Address.check "http://h/a.ts" = .ok () := by
    rw [← toOption_eq_some_iff]
    rfl
  have herased : Syntax.erase "import './b';" = .ok ⟨"import './b';", [⟨"./b", 1⟩]⟩ := by
    rw [← toOption_eq_some_iff]
    decide +kernel
  obtain ⟨hfree, hchecked⟩ := erase_checked hconfig rfl rfl .empty hs huri herased (.inl (by decide))
  exact ⟨hconfig, .empty, hs, hfree, hchecked⟩

/-- With an extension that is the lower case form of a dotted capital I, a candidate may lose its relative prefix. It gets to the lookup,
and the check passes because of what the lookup has, though neither candidate can be read in the document. -/
theorem erase_checked_not_isolated :
    let r : Resolver := ⟨.table [("..ts", "http://h/b.ts")], "utf-8"⟩
    let w := pagesWorld "import './.\u0130';" "http://h/b.ts"
    ∃ config erased, Config.make .nothing (.text ".\u0130") .nothing = .ok config ∧ w.identities.Filled w.host r.encoding ∧
      (exec (r.resolve "http://h/a.ts" none) w).1 = .ok ⟨"http://h/a.ts", "import './.\u0130';"⟩ ∧
      Address.check "http://h/a.ts" = .ok () ∧ Syntax.erase "import './.\u0130';" = .ok erased ∧
      (exec (erase r config true "http://h/a.ts") w).1 ≠
        verdict "http://h/a.ts" erased.code (missing? w.host r.encoding config "http://h/a.ts" erased.specifiers) := by
  intro r w
  refine ⟨⟨".ts", ".i\u0307", "utf-8"⟩, ⟨"import './.\u0130';", [⟨"./.\u0130", 1⟩]⟩, ?_, .empty, ?_, ?_, ?_, ?_⟩
  case refine_5 =>
    intro hverdict
    have hpasses := congrArg Except.toOption hverdict
    revert hpasses
    decide +kernel
  all_goals
    rw [← toOption_eq_some_iff]
    decide +kernel

end Compiler

end ScriptLoader
