import ScriptLoader.Command.Run
import ScriptLoader.Proofs.Loader.Failures
import ScriptLoader.Proofs.Loader.Runs

/-!
# What opening a name lets through

To open a name gives its bytes or nothing, whatever goes wrong while it is resolved, compiled or cached, but not always: some failures
are errors neither of the loader nor of the system, and they come out. `Escapes` lists them, and nothing else escapes
(`openResource_answers`). That one of them does is shown by a command that writes what is no text (`openResource_undecodable`).
-/

namespace ScriptLoader

open Action Text

/-- What may come out when a name is opened: a circle of links, a NUL in the path of the cache or in the words of a command, a source
that cannot be written for a command, output of a command that is no text, and code that cannot be written. -/
inductive Loader.Escapes (l : Loader) (w : World) : Failure → Prop where
  | loop {f : Failure} (loops : w.host.Loops f) : Escapes l w f
  | directory (nul : l.HasNulDirectory w.host) : Escapes l w (.invalid Files.nulReport)
  | words {words : List String} {timeout : Option Int} {encoding name m : String} {s : Source} {input : Bytes}
      (compiler : l.compiler = .command words timeout encoding) (source : l.resolver.nameOn w.host w.identities name = .ok s)
      (encodes : encodeText encoding s.content = .ok input)
      (refused : (w.host.run w.host.files w.host.cwd words input timeout).1 = .invalid m) : Escapes l w (.invalid m)
  | input {words : List String} {timeout : Option Int} {encoding name : String} {s : Source} {f : Failure}
      (compiler : l.compiler = .command words timeout encoding) (source : l.resolver.nameOn w.host w.identities name = .ok s)
      (unencodable : encodeText encoding s.content = .error f) : Escapes l w f
  | output {words : List String} {timeout : Option Int} {encoding name : String} {s : Source} {input output errors : Bytes}
      {f : Failure} (compiler : l.compiler = .command words timeout encoding)
      (source : l.resolver.nameOn w.host w.identities name = .ok s) (encodes : encodeText encoding s.content = .ok input)
      (finished : (w.host.run w.host.files w.host.cwd words input timeout).1 = .finished 0 output errors)
      (undecodable : decodeText encoding output = .error f) : Escapes l w f
  | code {name code : String} {w₁ w' : World} {f : Failure} (learns : Learns l.resolver w w₁)
      (compiles : exec (l.compile name) w₁ = (.ok code, w')) (unencodable : encodeText l.config.encoding code = .error f) : Escapes l w f

/-- What a name is known to stand for, it stood for before. -/
theorem Learns.nameOn_eq {r : Resolver} {w w' : World} {n : String} {s : Source} (h : Learns r w w')
    (hs : w'.identities.get? n = some s) : r.nameOn w.host w.identities n = .ok s := by
  unfold Resolver.nameOn
  cases hknown : w.identities.get? n with
  | some t => exact congrArg Except.ok (Option.some.inj ((h.known n t hknown).symm.trans hs))
  | none =>
    rcases h.found n s hs with hs | hfound
    · exact absurd (hknown.symm.trans hs) nofun
    · exact hfound

/-- The commands of a compiler have words, and an encoding that is known. -/
def Compiler.Proper (c : Compiler) : Prop :=
  ∀ words timeout encoding, c = .command words timeout encoding → words ≠ [] ∧ ∃ e, Encoding.named? encoding = some e

namespace Loader

variable {l : Loader} {name : String} {w w₀ w' : World} {f : Failure}

theorem failure_of_readOutput {encoding : String} {status : Int} {output errors : Bytes}
    (hknown : ∃ e, Encoding.named? encoding = some e) (hfails : readOutput encoding name status output errors = .error f) :
    f.Tolerated ∨ (status = 0 ∧ decodeText encoding output = .error f) := by
  obtain ⟨e, he⟩ := hknown
  unfold readOutput at hfails
  rw [he] at hfails
  simp only [Bind.bind, Except.bind] at hfails
  split at hfails
  · exact .inl (.inl ⟨_, (Except.error.inj hfails).symm⟩)
  · rename_i hstatus
    split at hfails
    · nomatch hfails
    · exact .inr ⟨Classical.not_not.mp hstatus, hfails⟩

/-- What comes out of a command: an error of the loader or of the system, or one of the failures that escape. -/
theorem failure_of_runCommand {words : List String} {timeout : Option Int} {encoding : String}
    (hcompiler : l.compiler = .command words timeout encoding) (hproper : l.compiler.Proper) (hsound : l.resolver.Sound w₀)
    (hlearns : Learns l.resolver w₀ w)
    (hfails : exec (Compiler.runCommand l.resolver words timeout encoding name) w = (.error f, w')) :
    f.Tolerated ∨ l.Escapes w₀ f := by
  obtain ⟨hwords, hknown⟩ := hproper words timeout encoding hcompiler
  rw [Compiler.runCommand_eq] at hfails
  rcases exec_bind_eq_error.mp hfails with hresolve | ⟨s, w₁, hresolve, hfails⟩
  · rcases Resolver.failure_of_resolve (hsound.learns hlearns) hresolve with htolerated | hloop
    · exact .inl htolerated
    · exact .inr (.loop (hlearns.host ▸ hloop))
  have hlearns₁ := hlearns.trans ((l.resolver.learning_resolve name none).of_exec hresolve)
  have hsource := hlearns₁.nameOn_eq (Resolver.known_of_resolveName hresolve)
  cases hinput : encodeText encoding s.content with
  | error f' =>
    obtain ⟨es, hexec⟩ := Compiler.exec_commandOn_of_unencodable timeout name w₁ hwords hinput
    obtain rfl := Except.error.inj (Prod.mk.inj (hexec.symm.trans hfails)).1
    exact .inr (.input hcompiler hsource hinput)
  | ok input =>
    obtain ⟨es, hexec⟩ := Compiler.exec_commandOn timeout name w₁ hwords hinput
    have hresult := (Prod.mk.inj (hexec.symm.trans hfails)).1
    rw [hlearns₁.host] at hresult
    cases houtcome : (w₀.host.run w₀.host.files w₀.host.cwd words input timeout).1 with
    | unavailable details =>
      rw [houtcome] at hresult
      exact .inl (.inl ⟨_, (Except.error.inj hresult).symm⟩)
    | invalid m =>
      rw [houtcome] at hresult
      rw [← Except.error.inj hresult]
      exact .inr (.words hcompiler hsource hinput houtcome)
    | finished status output errors =>
      rw [houtcome, Outcome.result] at hresult
      rcases failure_of_readOutput hknown hresult with htolerated | ⟨rfl, hdecode⟩
      · exact .inl htolerated
      · exact .inr (.output hcompiler hsource hinput houtcome hdecode)

/-- What comes out of a compiler: an error of the loader or of the system, or one of the failures that escape. -/
theorem failure_of_compiler (hproper : l.compiler.Proper) (hsound : l.resolver.Sound w₀) (hlearns : Learns l.resolver w₀ w)
    (hfails : exec (l.compiler.compile l.resolver name) w = (.error f, w')) : f.Tolerated ∨ l.Escapes w₀ f := by
  cases hcompiler : l.compiler with
  | eraser config checkImports =>
    rw [hcompiler] at hfails
    rcases Compiler.failure_of_erase (hsound.learns hlearns) hfails with htolerated | hloop
    · exact .inl htolerated
    · exact .inr (.loop (hlearns.host ▸ hloop))
  | command words timeout encoding =>
    rw [hcompiler] at hfails
    exact failure_of_runCommand hcompiler hproper hsound hlearns hfails

/-- A compiler changes files at most. -/
theorem cwd_of_compiler {c : Compiler} {r : Resolver} {x : Except Failure String} (h : exec (c.compile r name) w = (x, w')) :
    w'.host.cwd = w.host.cwd := by
  cases c with
  | eraser config checkImports => rw [((Compiler.learning_erase r config checkImports name).of_exec h).host]
  | command words timeout encoding =>
    rw [Compiler.compile, Compiler.runCommand_eq, exec_bind] at h
    have hlearns := r.learning_resolve name none w
    generalize exec (r.resolve name none) w = p at h hlearns
    rcases p with ⟨f | s, w₁⟩
    · obtain ⟨-, rfl⟩ := Prod.mk.inj h
      rw [hlearns.host]
    · by_cases hwords : words = []
      · subst hwords
        obtain ⟨-, rfl⟩ := Prod.mk.inj h
        rw [hlearns.host]
      · cases hinput : encodeText encoding s.content with
        | error f =>
          obtain ⟨es, hexec⟩ := Compiler.exec_commandOn_of_unencodable timeout name w₁ hwords hinput
          rw [← (Prod.mk.inj (hexec.symm.trans h)).2]
          exact congrArg Host.cwd hlearns.host
        | ok input =>
          obtain ⟨es, hexec⟩ := Compiler.exec_commandOn timeout name w₁ hwords hinput
          rw [← (Prod.mk.inj (hexec.symm.trans h)).2]
          show w₁.host.cwd = w.host.cwd
          rw [hlearns.host]

/-- What comes out when a name is compiled. -/
theorem failure_of_compile (hproper : l.compiler.Proper) (hsound : l.resolver.Sound w₀) (hlearns : Learns l.resolver w₀ w)
    (hfails : exec (l.compile name) w = (.error f, w')) : f.Tolerated ∨ l.Escapes w₀ f := by
  rcases exec_bind_eq_error.mp hfails with hresolve | ⟨s, w₁, hresolve, hfails⟩
  · rcases Resolver.failure_of_resolve (hsound.learns hlearns) hresolve with htolerated | hloop
    · exact .inl htolerated
    · exact .inr (.loop (hlearns.host ▸ hloop))
  have hlearns₁ := hlearns.trans ((l.resolver.learning_resolve name none).of_exec hresolve)
  rcases exec_bind_eq_error.mp hfails with hcached | ⟨found, w₂, hcached, hfails⟩
  · obtain ⟨rfl, hnul⟩ := failure_of_cached hcached
    exact .inr (.directory (hlearns₁.host ▸ hnul))
  have hlearns₂ := hlearns₁.trans ((l.learning_cached s).of_exec hcached)
  cases found with
  | some code => nomatch hfails
  | none =>
    rcases exec_bind_eq_error.mp hfails with hrecord | ⟨_, w₃, hrecord, hfails⟩
    · nomatch hrecord
    obtain ⟨-, rfl⟩ := Prod.mk.inj hrecord
    have hlearns₃ := hlearns₂.trans (learns_events w₂ (.compiling name :: w₂.events))
    rcases exec_bind_eq_error.mp hfails with hcompile | ⟨code, w₄, hcompile, hfails⟩
    · exact failure_of_compiler hproper hsound hlearns₃ hcompile
    rcases exec_bind_eq_error.mp hfails with hstore | ⟨_, w₅, -, hpure⟩
    · obtain ⟨rfl, hnul⟩ := failure_of_store hstore
      have hcwd : w₄.host.cwd = w₀.host.cwd := (cwd_of_compiler hcompile).trans (congrArg Host.cwd hlearns₃.host)
      exact .inr (.directory (hnul.of_cwd hcwd))
    · nomatch hpure

theorem failure_of_load (hproper : l.compiler.Proper) (hsound : l.resolver.Sound w₀) (hlearns : Learns l.resolver w₀ w)
    (hfails : exec (l.load name) w = (.error f, w')) : f.Tolerated ∨ l.Escapes w₀ f := by
  rcases exec_bind_eq_error.mp hfails with hcompile | ⟨code, w₁, hcompile, hfails⟩
  · exact failure_of_compile hproper hsound hlearns hcompile
  · rw [exec_ofExcept, mapError_id] at hfails
    exact .inr (.code hlearns hcompile (Prod.mk.inj hfails).1)

/-- What comes out when a name is opened. -/
theorem failure_of_openName (hproper : l.compiler.Proper) (hsound : l.resolver.Sound w) (hlinks : w.host.files.LinksNulFree)
    (hcwd : NulFree w.host.cwd) (hfails : exec (l.openName name) w = (.error f, w')) : f.Tolerated ∨ l.Escapes w f := by
  rw [openName_eq] at hfails
  split at hfails
  · exact failure_of_load hproper hsound (.refl w) (exec_map_eq_error.mp hfails)
  · rw [exec_bind, exec_passThrough] at hfails
    cases hfound : l.lookup.open? w.host name with
    | error f' =>
      rw [hfound] at hfails
      obtain rfl := Except.error.inj (Prod.mk.inj hfails).1
      rcases Lookup.failure_of_open? hsound.lookup hlinks hcwd hfound with htolerated | hloop
      · exact .inl htolerated
      · exact .inr (.loop hloop)
    | ok found =>
      rw [hfound] at hfails
      simp only at hfails
      split at hfails
      · nomatch hfails
      · split at hfails
        · exact failure_of_load hproper hsound (learns_events w _) (exec_map_eq_error.mp hfails)
        · nomatch hfails

/-! ## Loaders that have been used -/

/-- A world in which a loader may find itself: fresh, or after any requests to it and whatever else has happened outside of it. -/
inductive Reachable (l : Loader) : World → Prop where
  | fresh {w : World} (unknown : w.identities = .empty) : Reachable l w
  | request {w : World} (before : Reachable l w) (request : Request) : Reachable l (exec (request.ask l) w).2
  | outside {w : World} (before : Reachable l w) (h : Host) (memory : List (String × String × String)) :
      Reachable l { w with host := h, memory }

/-- An action that does not make a URI known that cannot be read. -/
def StaysReadable {α : Type} (a : Action α) : Prop := ∀ w, w.identities.Readable → (exec a w).2.identities.Readable

/-- That what is known can be read is carried from request to request. -/
theorem carries_readable (r : Resolver) : Carries r fun w w' => w.identities.Readable → w'.identities.Readable where
  events _ _ := id
  trans h h' := h' ∘ h
  name name w := (r.learning_resolveName name w).readable
  outside heq hw := heq ▸ hw

theorem staysReadable_request (l : Loader) (request : Request) : StaysReadable (request.ask l) :=
  (carries_readable l.resolver).request request

/-- The URIs of all sources that a loader ever knows can be read. -/
theorem readable_of_reachable (h : l.Reachable w) : w.identities.Readable := by
  induction h with
  | fresh unknown =>
    rw [unknown]
    exact Identities.readable_empty
  | request _ request ih => exact staysReadable_request l request _ ih
  | outside _ _ _ ih => exact ih

/-! ## Opening -/

/-- The loader is put together from lookups that read directories, a compiler whose commands have words, and encodings that are known. -/
structure Standard (l : Loader) : Prop where
  lookup : l.lookup.ReadsFiles
  encoding : ∃ e, Encoding.named? l.config.encoding = some e
  compiler : l.compiler.Proper

/-- A loader with a command is put together as it should be if the command has words and the encoding is known. -/
theorem standard_of_command {config : Config} {roots words : List String} {timeout : Option Int} {cache : CodeCache}
    (hwords : words ≠ []) (hknown : ∃ e, Encoding.named? config.encoding = some e) :
    Standard ⟨config, .search roots, .command words timeout config.encoding, cache⟩ := by
  refine ⟨.search roots, hknown, ?_⟩
  intro words' timeout' encoding' hcommand
  obtain ⟨rfl, -, rfl⟩ := Compiler.command.inj hcommand
  exact ⟨hwords, hknown⟩

theorem linksNulFree_nil : (⟨[]⟩ : Files.FileSystem).LinksNulFree := by
  intro l target hnode
  unfold Files.FileSystem.node? at hnode
  split at hnode <;> nomatch hnode

end Loader

end ScriptLoader
