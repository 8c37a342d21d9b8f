import ScriptLoader.Proofs.Cache.Mirror
import ScriptLoader.Proofs.Loader.Stability
import ScriptLoader.Proofs.Loader.Stages

/-!
# Failures are not remembered

A request that fails leaves nothing behind that stands for the failure. A name that could not be resolved is not known, and at most its
base has become known (`Resolver.unknown_of_resolve`); a compilation that fails has made names known only with the sources that were found
for them, and it has kept no code (`Loader.frame_of_compile`). So a name that failed once is found as soon as its source is there
(`Loader.failures_forgotten`). Only the command of a compiler may still write where code is kept, and fail (`Loader.kept_by_command`).
-/

namespace ScriptLoader

open Action Cache Files FileSystem Text

/-- New entries stand behind the others, each for a name with the source that is found for it on a host. -/
def Identities.Adds (r : Resolver) (h : Host) (m m' : Identities) : Prop :=
  ∃ new, m'.entries = m.entries ++ new ∧ ∀ p ∈ new, r.findOn h p.1 = .ok p.2

/-- Nothing has changed but that entries have been added, and the record of events. -/
structure Gathers (r : Resolver) (w w' : World) : Prop where
  host : w'.host = w.host
  memory : w'.memory = w.memory
  adds : w.identities.Adds r w.host w'.identities

/-- The host is as it was, but for files that the command of a compiler may have changed. -/
def Compiler.MayLeave (c : Compiler) (h h' : Host) : Prop :=
  h' = h ∨ ∃ words timeout encoding input, c = .command words timeout encoding ∧
    h' = { h with files := (h.run h.files h.cwd words input timeout).2 }

/-- What a compiler leaves: new entries for names with the sources that were found for them, the memory as it was, and the files as they
were or as its command has left them. -/
structure Compiler.Frame (c : Compiler) (r : Resolver) (w w' : World) : Prop where
  adds : w.identities.Adds r w.host w'.identities
  memory : w'.memory = w.memory
  host : c.MayLeave w.host w'.host

/-! ## Names -/

namespace Identities

variable {r : Resolver} {h : Host} {m m' m'' : Identities} {name : String} {s : Source}

theorem Adds.refl (m : Identities) : m.Adds r h m := ⟨[], (List.append_nil _).symm, nofun⟩

theorem Adds.trans (hadds : m.Adds r h m') (hadds' : m'.Adds r h m'') : m.Adds r h m'' := by
  obtain ⟨new, hnew, hfound⟩ := hadds
  obtain ⟨new', hnew', hfound'⟩ := hadds'
  refine ⟨new ++ new', by rw [hnew', hnew, List.append_assoc], fun p hp => ?_⟩
  exact (List.mem_append.mp hp).elim (hfound p) (hfound' p)

/-- A source that is known was known before, or it has been found. -/
theorem Adds.found (hadds : m.Adds r h m') (hs : m'.get? name = some s) : m.get? name = some s ∨ r.findOn h name = .ok s := by
  obtain ⟨new, hnew, hfound⟩ := hadds
  replace hs : m'.entries.lookup name = some s := hs
  rw [hnew, List.lookup_append, Option.or_eq_some_iff] at hs
  rcases hs with hs | ⟨-, hs⟩
  · exact .inl hs
  · obtain ⟨before, behind, rfl, -⟩ := List.lookup_eq_some_iff.mp hs
    exact .inr (hfound (name, s) (by simp))

end Identities

namespace Resolver

variable {r : Resolver} {name : String} {base : Option String} {w w' : World} {f : Failure}

/-- To resolve a name adds nothing or the name, with the source that is found for it. -/
theorem entries_of_resolveName (r : Resolver) (name : String) (w : World) :
    (exec (r.resolveName name) w).2.identities = w.identities ∨
      ∃ s, w.identities.get? name = none ∧ r.findOn w.host name = .ok s ∧
        (exec (r.resolveName name) w).2.identities.entries = w.identities.entries ++ [(name, s)] := by
  obtain ⟨es, hexec⟩ := r.exec_resolveName name w
  rw [hexec]
  unfold nameOn Identities.learn Identities.put
  cases hknown : w.identities.get? name with
  | some t => exact .inl rfl
  | none =>
    cases hfound : r.findOn w.host name with
    | error f => exact .inl rfl
    | ok s => exact .inr ⟨s, rfl, rfl, by simp⟩

/-- What a resolver gathers is tracked. -/
theorem tracks_gathers (r : Resolver) : Tracks r (Gathers r) where
  events w es := ⟨rfl, rfl, .refl _⟩
  trans hfirst hlater := by
    refine ⟨hlater.host.trans hfirst.host, hlater.memory.trans hfirst.memory, hfirst.adds.trans ?_⟩
    rw [← hfirst.host]
    exact hlater.adds
  name name w := by
    have hlearns := r.learning_resolveName name w
    refine ⟨hlearns.host, hlearns.memory, ?_⟩
    rcases r.entries_of_resolveName name w with hsame | ⟨s, -, hfound, hentries⟩
    · rw [hsame]
      exact .refl _
    · exact ⟨[(name, s)], hentries, fun p hp => by rwa [List.mem_singleton.mp hp]⟩

/-- A name that could not be resolved is not known, and nothing has become known by it. -/
theorem unknown_of_resolveName (hfails : exec (r.resolveName name) w = (.error f, w')) :
    w'.identities = w.identities ∧ w'.identities.get? name = none := by
  obtain ⟨es, hexec⟩ := r.exec_resolveName name w
  obtain ⟨hresult, hw⟩ := Prod.mk.inj (hexec.symm.trans hfails)
  rw [← hw, hresult]
  refine ⟨rfl, ?_⟩
  show w.identities.get? name = none
  unfold nameOn at hresult
  split at hresult
  · nomatch hresult
  · assumption

/-- A name that could not be resolved is not known for what it is rewritten to. Nothing has become known by it but its base, if that has
been resolved. -/
theorem unknown_of_resolve (hfails : exec (r.resolve name base) w = (.error f, w')) :
    w'.identities.known? name base = none ∧
      (w'.identities = w.identities ∨ ∃ b s, base = some b ∧ w.identities.get? b = none ∧ r.findOn w.host b = .ok s ∧
        w'.identities.entries = w.identities.entries ++ [(b, s)]) := by
  cases base with
  | none =>
    obtain ⟨hsame, hnone⟩ := unknown_of_resolveName hfails
    exact ⟨hnone, .inl hsame⟩
  | some base =>
    by_cases hname : Syntax.isRelative name = true
    · simp only [resolve, if_pos hname] at hfails
      simp only [Identities.known?, Identities.rewritten?, if_pos hname]
      rcases exec_bind_eq_error.mp hfails with hbase | ⟨b, w₁, hbase, hfails⟩
      · obtain ⟨hsame, hnone⟩ := unknown_of_resolveName hbase
        exact ⟨by rw [hnone]; rfl, .inl hsame⟩
      -- the base has been resolved, so what has failed is to read the name against it, or to find what that gives
      have hentries := r.entries_of_resolveName base w
      rw [hbase] at hentries
      have hbefore := known_of_resolveName hbase
      have hunknown : ((w₁.identities.get? base).bind fun s => (Uri.join s.uri name).toOption).bind w₁.identities.get? = none ∧
          w'.identities = w₁.identities := by
        rcases exec_bind_eq_error.mp hfails with hjoin | ⟨url, w₂, hjoin, hfails⟩
        · rw [exec_ofExcept] at hjoin
          obtain ⟨hresult, rfl⟩ := Prod.mk.inj hjoin
          obtain ⟨m, hrefused, -⟩ := mapError_eq_error_iff.mp hresult
          simp [hbefore, hrefused, Except.toOption]
        · rw [exec_ofExcept] at hjoin
          obtain ⟨hurl, rfl⟩ := Prod.mk.inj hjoin
          obtain ⟨hsame, hnone⟩ := unknown_of_resolveName hfails
          rw [hbefore, Option.bind_some, toOption_eq_some_iff.mpr (mapError_eq_ok_iff.mp hurl), ← hsame]
          exact ⟨hnone, rfl⟩
      rw [hunknown.2]
      refine ⟨hunknown.1, hentries.imp id ?_⟩
      rintro ⟨s, hnone, hfound, hnew⟩
      exact ⟨base, s, rfl, hnone, hfound, hnew⟩
    · simp only [resolve, if_neg hname] at hfails
      simp only [Identities.known?, Identities.rewritten?, if_neg hname]
      obtain ⟨hsame, hnone⟩ := unknown_of_resolveName hfails
      exact ⟨hnone, .inl hsame⟩

end Resolver

/-! ## Compilation -/

namespace Compiler

variable {c : Compiler} {r : Resolver} {w w₁ w' : World}

theorem Frame.of_gathers (hgathers : Gathers r w w') : c.Frame r w w' := ⟨hgathers.adds, hgathers.memory, .inl hgathers.host⟩

theorem Frame.behind (hgathers : Gathers r w w₁) (hframe : c.Frame r w₁ w') : c.Frame r w w' :=
  ⟨hgathers.adds.trans (hgathers.host ▸ hframe.adds), hframe.memory.trans hgathers.memory, hgathers.host ▸ hframe.host⟩

theorem frame_of_commandOn (words : List String) (timeout : Option Int) (encoding name : String) (s : Source) (w : World) :
    (command words timeout encoding).Frame r w (exec (commandOn words timeout encoding name s) w).2 := by
  by_cases hwords : words = []
  · subst hwords
    exact ⟨.refl _, rfl, .inl rfl⟩
  · cases hinput : encodeText encoding s.content with
    | error f =>
      obtain ⟨es, hexec⟩ := exec_commandOn_of_unencodable timeout name w hwords hinput
      rw [hexec]
      exact ⟨.refl _, rfl, .inl rfl⟩
    | ok input =>
      obtain ⟨es, hexec⟩ := exec_commandOn timeout name w hwords hinput
      rw [hexec]
      exact ⟨.refl _, rfl, .inr ⟨words, timeout, encoding, input, rfl, rfl⟩⟩

/-- What a compiler leaves, whether it fails or not. -/
theorem frame_of_compiler (c : Compiler) (r : Resolver) (name : String) (w : World) : c.Frame r w (exec (c.compile r name) w).2 := by
  cases c with
  | eraser config checkImports => exact .of_gathers (r.tracks_gathers.erase config checkImports name w)
  | command words timeout encoding =>
    have hgathers := r.tracks_gathers.resolve name none w
    rw [compile, runCommand_eq, exec_bind]
    generalize exec (r.resolve name none) w = p at hgathers
    rcases p with ⟨f | s, w₁⟩
    · exact .of_gathers hgathers
    · exact (frame_of_commandOn words timeout encoding name s w₁).behind hgathers

end Compiler

namespace Loader

variable {l : Loader} {w w₁ w' : World} {n : String} {f : Failure}

/-- To compile a name comes to nothing but what the compiler leaves, until its code is given to the cache, which has been asked before. -/
theorem frame_or_stored (l : Loader) (n : String) (w : World) :
    l.compiler.Frame l.resolver w (exec (l.compile n) w).2 ∨
      ∃ s code w₁, l.compiler.Frame l.resolver w w₁ ∧ (∀ d, l.cache = .disk d → NulFree d.names) ∧
        exec (l.compile n) w = ((exec (l.store s code) w₁).1.map fun _ => code, (exec (l.store s code) w₁).2) := by
  have hresolved := l.resolver.tracks_gathers.resolve n none w
  unfold compile
  rw [exec_bind]
  change Gathers _ w (exec (l.resolve n none) w).2 at hresolved
  generalize exec (l.resolve n none) w = p at hresolved
  rcases p with ⟨f | s, w₁⟩
  · exact .inl (.of_gathers hresolved)
  have hasked : Gathers l.resolver w (exec (l.cached s) w₁).2 :=
    l.resolver.tracks_gathers.trans hresolved (l.resolver.tracks_gathers.tolerate _ _ (l.resolver.tracks_gathers.get? l.cache s) w₁)
  have hnul {d : Path} (hcache : l.cache = .disk d) (hfree : ¬NulFree d.names) := cached_of_nul hcache hfree s w₁
  simp only
  rw [exec_bind]
  generalize exec (l.cached s) w₁ = p at hasked hnul
  rcases p with ⟨f | _ | code, w₂⟩
  · exact .inl (.of_gathers hasked)
  · have hcompiled := (Compiler.frame_of_compiler l.compiler l.resolver n { w₂ with events := .compiling n :: w₂.events }).behind
      (l.resolver.tracks_gathers.trans hasked (l.resolver.tracks_gathers.events w₂ (.compiling n :: w₂.events)))
    simp only [exec_bind, exec_record]
    generalize exec (l.compiler.compile l.resolver n) _ = p at hcompiled
    rcases p with ⟨f | code, w₃⟩
    · exact .inl hcompiled
    · refine .inr ⟨s, code, w₃, hcompiled, fun d hcache => ?_, ?_⟩
      · exact Classical.byContradiction fun hfree => nomatch hnul hcache hfree
      · simp only
        generalize exec (l.store s code) w₃ = p
        rcases p with ⟨f | _, w₄⟩ <;> rfl
  · exact .inl (.of_gathers hasked)

/-- A compilation that fails leaves what the compiler leaves: no code has been kept. -/
theorem frame_of_compile (hcwd : NulFree w.host.cwd) (hfails : exec (l.compile n) w = (.error f, w')) :
    l.compiler.Frame l.resolver w w' := by
  rcases l.frame_or_stored n w with hframe | ⟨s, code, w₁, hframe, hdirectory, hexec⟩
  · rwa [hfails] at hframe
  · -- a cache that has been asked does not fail
    exfalso
    have hcwd₁ : w₁.host.cwd = w.host.cwd := by
      rcases hframe.host with hsame | ⟨_, _, _, _, _, hleft⟩
      · rw [hsame]
      · rw [hleft]
    rw [hexec] at hfails
    cases hstore : exec (l.store s code) w₁ with | mk result w₂ =>
    rw [hstore] at hfails
    cases result with
    | ok u => nomatch hfails
    | error f' =>
      obtain ⟨-, d, hd, hnul⟩ := failure_of_store hstore
      refine hnul ?_
      rw [Host.here, hcwd₁, Path.join]
      split
      · exact hdirectory d hd
      · exact hcwd.append (hdirectory d hd)

theorem identities_of_store (l : Loader) (s : Source) (code : String) (w : World) :
    (exec (l.store s code) w).2.identities = w.identities := by
  obtain ⟨es, hexec⟩ := exec_tolerate ("Could not cache compiled code for " ++ s.uri) () (l.cache.put s code) w
  rw [store, hexec]
  cases l.cache with
  | disk d => rw [exec_put_disk]
  | _ => rfl

end Loader

/-! ## Requests -/

/-- The name that is compiled for a request, and the world in which it is. -/
def Request.compiles? (l : Loader) (w : World) : Request → Option (String × World)
  | .compile name => some (name, w)
  | .resolve _ _ => none
  | .openResource name =>
    match l.target? name with
    | some n => some (n, w)
    | none =>
      match l.lookup.open? w.host name with
      | .ok none => (l.fallback? name).map fun n => (n, { w with events := .opened name :: w.events })
      | _ => none

namespace Loader

variable {l : Loader} {w w₀ w' : World} {n : String} {request : Request}

/-- To open a name that is compiled leaves what the compilation leaves, and otherwise nothing. -/
theorem exec_openResource_cases (l : Loader) (name : String) (w : World) :
    ∃ es, (exec (l.openResource name) w).2 =
      { (((Request.openResource name).compiles? l w).elim w fun (n, w₀) => (exec (l.compile n) w₀).2) with events := es } := by
  obtain ⟨es, hexec⟩ := exec_openResource l name w
  refine ⟨es, ?_⟩
  rw [hexec, openName_eq, Request.compiles?]
  cases l.target? name with
  | some n =>
    simp only
    rw [Stage.exec_load]
    rfl
  | none =>
    simp only
    rw [exec_bind, exec_passThrough]
    rcases l.lookup.open? w.host name with f | _ | bs
    · rfl
    · simp only
      cases l.fallback? name with
      | none => rfl
      | some n =>
        simp only
        rw [Stage.exec_load]
        rfl
    · rfl

/-- What is compiled for a request is compiled in the world of the request, but for the record of events. -/
theorem world_of_compiles? (hcompiles : request.compiles? l w = some (n, w₀)) : w₀ = { w with events := w₀.events } := by
  unfold Request.compiles? at hcompiles
  split at hcompiles
  · obtain ⟨-, rfl⟩ := Prod.mk.inj (Option.some.inj hcompiles)
    rfl
  · nomatch hcompiles
  · split at hcompiles
    · obtain ⟨-, rfl⟩ := Prod.mk.inj (Option.some.inj hcompiles)
      rfl
    · split at hcompiles
      · obtain ⟨_, -, heq⟩ := Option.map_eq_some_iff.mp hcompiles
        rw [← (Prod.mk.inj heq).2]
      · nomatch hcompiles

/-- A request leaves what is compiled for it, but for the record of events. -/
theorem exec_ask_of_compiles? (hcompiles : request.compiles? l w = some (n, w₀)) :
    ∃ es, (exec (request.ask l) w).2 = { (exec (l.compile n) w₀).2 with events := es } := by
  cases request with
  | compile name =>
    obtain ⟨rfl, rfl⟩ := Prod.mk.inj (Option.some.inj hcompiles)
    rw [Request.ask, exec_map]
    exact ⟨_, rfl⟩
  | resolve name base => cases hcompiles
  | openResource name =>
    obtain ⟨es, hexec⟩ := l.exec_openResource_cases name w
    rw [hcompiles] at hexec
    rw [Request.ask, exec_map, hexec]
    exact ⟨es, rfl⟩

theorem Gathers.of_events {r : Resolver} (hsame : w₀ = { w with events := w₀.events }) : Gathers r w w₀ := by
  rw [hsame]
  exact r.tracks_gathers.events w _

theorem adds_compile (l : Loader) (n : String) (w : World) :
    w.identities.Adds l.resolver w.host (exec (l.compile n) w).2.identities := by
  rcases l.frame_or_stored n w with hframe | ⟨s, code, w₁, hframe, -, hexec⟩
  · exact hframe.adds
  · rw [hexec, identities_of_store]
    exact hframe.adds

/-- A request adds entries only for names with the sources that are found for them on its host. -/
theorem adds_request (l : Loader) (request : Request) (w : World) :
    w.identities.Adds l.resolver w.host (exec (request.ask l) w).2.identities := by
  cases hcompiles : request.compiles? l w with
  | some p =>
    obtain ⟨es, hexec⟩ := exec_ask_of_compiles? hcompiles
    have hworld := Gathers.of_events (r := l.resolver) (world_of_compiles? hcompiles)
    rw [hexec]
    exact hworld.adds.trans (hworld.host ▸ l.adds_compile p.1 p.2)
  | none =>
    cases request with
    | compile name => nomatch hcompiles
    | resolve name base =>
      rw [Request.ask, exec_map]
      exact (l.resolver.tracks_gathers.resolve name base w).adds
    | openResource name =>
      obtain ⟨es, hexec⟩ := l.exec_openResource_cases name w
      rw [hcompiles] at hexec
      rw [Request.ask, exec_map, hexec]
      exact .refl _

/-- A source that is known behind a run was known before it, or it has been found in the run. -/
theorem found_of_onward {s : Source} (hrun : l.Onward w w') (hs : w'.identities.get? n = some s) :
    w.identities.get? n = some s ∨ ∃ v, l.Onward w v ∧ l.Onward v w' ∧ l.resolver.findOn v.host n = .ok s := by
  induction hrun with
  | here => exact .inl hs
  | @request w' before request ih =>
    rcases (l.adds_request request w').found hs with hknown | hfound
    · exact (ih hknown).imp id fun ⟨v, hbefore, hbehind, hv⟩ => ⟨v, hbefore, .request hbehind request, hv⟩
    · exact .inr ⟨w', before, .request .here request, hfound⟩
  | outside before h memory ih => exact (ih hs).imp id fun ⟨v, hbefore, hbehind, hv⟩ => ⟨v, hbefore, .outside hbehind h memory, hv⟩

end Loader

/-! ## What failed is found later -/

/-- The name that a source is looked for under in a world, where the base stands for what is known for it or found. -/
def Resolver.rewrittenOn (r : Resolver) (w : World) (name : String) : Option String → Option String
  | some base =>
    if Syntax.isRelative name then (r.nameOn w.host w.identities base).toOption.bind fun s => (Uri.join s.uri name).toOption
    else some name
  | none => some name

namespace Resolver

variable {r : Resolver} {name url : String} {base : Option String} {w : World} {s : Source}

/-- Where a source is found for what a name is rewritten to, the name is resolved: to that source or to the one that is known already. -/
theorem resolve_of_findOn (hurl : r.rewrittenOn w name base = some url) (hfound : r.findOn w.host url = .ok s) :
    ∃ t w', exec (r.resolve name base) w = (.ok t, w') ∧ (t = s ∨ w.identities.get? url = some t) := by
  have hone {v : World} (hgathers : Gathers r w v) :
      ∃ t v', exec (r.resolveName url) v = (.ok t, v') ∧ (t = s ∨ w.identities.get? url = some t) := by
    obtain ⟨es, hexec⟩ := r.exec_resolveName url v
    rw [nameOn, hgathers.host, hfound] at hexec
    cases hknown : v.identities.get? url with
    | none =>
      rw [hknown] at hexec
      exact ⟨s, _, hexec, .inl rfl⟩
    | some t =>
      rw [hknown] at hexec
      refine ⟨t, _, hexec, (hgathers.adds.found hknown).symm.imp_left fun ht => ?_⟩
      exact Except.ok.inj (ht.symm.trans hfound)
  cases base with
  | none =>
    obtain rfl := Option.some.inj hurl
    exact hone (r.tracks_gathers.refl w)
  | some base =>
    by_cases hname : Syntax.isRelative name = true
    · simp only [rewrittenOn, if_pos hname] at hurl
      obtain ⟨b, hb, hjoin⟩ := Option.bind_eq_some_iff.mp hurl
      have hgathers := r.tracks_gathers.name base w
      obtain ⟨es, hbase⟩ := r.exec_resolveName base w
      rw [hbase] at hgathers
      rw [toOption_eq_some_iff.mp hb] at hbase
      simp only [resolve, if_pos hname, exec_bind, hbase, exec_ofExcept, toOption_eq_some_iff.mp hjoin, mapError_ok]
      rw [toOption_eq_some_iff.mp hb] at hgathers
      exact hone hgathers
    · simp only [rewrittenOn, if_neg hname] at hurl
      obtain rfl := Option.some.inj hurl
      simp only [resolve, if_neg hname]
      exact hone (r.tracks_gathers.refl w)

/-- What a name is rewritten to by what is known, it is rewritten to. -/
theorem rewrittenOn_of_rewritten? (hurl : w.identities.rewritten? name base = some url) : r.rewrittenOn w name base = some url := by
  cases base with
  | none => exact hurl
  | some base =>
    by_cases hname : Syntax.isRelative name = true
    · simp only [Identities.rewritten?, if_pos hname] at hurl
      obtain ⟨b, hb, hjoin⟩ := Option.bind_eq_some_iff.mp hurl
      simp only [rewrittenOn, if_pos hname, nameOn, hb]
      exact hjoin
    · simp only [Identities.rewritten?, if_neg hname] at hurl
      simp only [rewrittenOn, if_neg hname]
      exact hurl

end Resolver

namespace Loader

/-- Failures are not remembered. A name that could not be resolved is not known for what it is rewritten to, and nothing but its base has
become known. A compilation that fails, also when a name is opened, has added entries only for names with the sources that were found
for them; it has kept no code in the memory, and it has changed no files but by its command. So behind every run that follows, a name
that failed is resolved as soon as a source is there for it: to that source, unless one has been found for it in the run, or was known
for it while its base was not. -/
theorem failures_forgotten (l : Loader) :
    (∀ name base w f w', exec (l.resolve name base) w = (.error f, w') →
        w'.identities.known? name base = none ∧
          (w'.identities = w.identities ∨ ∃ b s, base = some b ∧ w.identities.get? b = none ∧ l.resolver.findOn w.host b = .ok s ∧
            w'.identities.entries = w.identities.entries ++ [(b, s)])) ∧
      (∀ (request : Request) w n w₀ f w', NulFree w.host.cwd → request.compiles? l w = some (n, w₀) →
        exec (l.compile n) w₀ = (.error f, w') → l.compiler.Frame l.resolver w (exec (request.ask l) w).2) ∧
      ∀ name base w f w₁ w' url s, exec (l.resolve name base) w = (.error f, w₁) → l.Onward w₁ w' →
        l.resolver.rewrittenOn w' name base = some url → l.resolver.findOn w'.host url = .ok s →
        ∃ t w'', exec (l.resolve name base) w' = (.ok t, w'') ∧
          (t = s ∨ (∃ v, l.Onward w₁ v ∧ l.Onward v w' ∧ l.resolver.findOn v.host url = .ok t) ∨
            (w₁.identities.rewritten? name base = none ∧ w₁.identities.get? url = some t)) := by
  refine ⟨fun name base w f w' hfails => Resolver.unknown_of_resolve hfails, fun request w n w₀ f w' hcwd hcompiles hfails => ?_,
    fun name base w f w₁ w' url s hfails hrun hurl hfound => ?_⟩
  · have hworld := Gathers.of_events (r := l.resolver) (world_of_compiles? hcompiles)
    obtain ⟨es, hexec⟩ := exec_ask_of_compiles? hcompiles
    have hframe := (frame_of_compile (hworld.host ▸ hcwd) hfails).behind hworld
    rw [hexec, hfails]
    exact ⟨hframe.adds, hframe.memory, hframe.host⟩
  · obtain ⟨t, w'', hresolve, ht⟩ := Resolver.resolve_of_findOn hurl hfound
    refine ⟨t, w'', hresolve, ht.imp_right fun hknown => ?_⟩
    rcases found_of_onward hrun hknown with hbefore | hfound
    · refine .inr ⟨?_, hbefore⟩
      -- what the name was rewritten to when it failed was not known, and it is rewritten to the same still
      cases hthen : w₁.identities.rewritten? name base with
      | none => rfl
      | some url' =>
        have hlater := Identities.rewritten?_of_grown (l.resolver.carries_growth.onward hrun) hthen
        obtain rfl : url' = url := Option.some.inj ((Resolver.rewrittenOn_of_rewritten? hlater).symm.trans hurl)
        have hunknown := (Resolver.unknown_of_resolve hfails).1
        rw [Identities.known?, hthen, Option.bind_some] at hunknown
        exact absurd (hbefore.symm.trans hunknown) (Option.some_ne_none t)
    · exact .inl hfound

/-- A module that imports what is not there fails when it is opened; then the page is there, and it is found. -/
theorem failures_forgotten_page :
    let l : Loader := ⟨.standard, .search ["/"], .eraser .standard true, .memory⟩
    let w := Compiler.pagesWorld "import './c';" "http://h/b.ts"
    (∃ f w', NulFree w.host.cwd ∧ (Request.openResource "http://h/a.ts").compiles? l w = some ("http://h/a.ts", w) ∧
        exec (l.compile "http://h/a.ts") w = (.error f, w') ∧
        l.compiler.Frame l.resolver w (exec ((Request.openResource "http://h/a.ts").ask l) w).2) ∧
      ∃ f w₁ w' s t w'', exec (l.resolve "http://h/c.ts" none) w = (.error f, w₁) ∧ l.Onward w₁ w' ∧
        l.resolver.rewrittenOn w' "http://h/c.ts" none = some "http://h/c.ts" ∧
        l.resolver.findOn w'.host "http://h/c.ts" = .ok s ∧
        exec (l.resolve "http://h/c.ts" none) w' = (.ok t, w'') := by
  intro l w
  have hfails : (exec (l.compile "http://h/a.ts") w).1.toOption = none ∧ (exec (l.resolve "http://h/c.ts" none) w).1.toOption = none ∧
      (l.resolver.findOn (Compiler.pagesWorld "import './c';" "http://h/c.ts").host "http://h/c.ts").toOption = some ⟨"http://h/c.ts", ""⟩ := by
    decide +kernel
  obtain ⟨-, hcompile, hlater⟩ := l.failures_forgotten
  constructor
  · cases hexec : exec (l.compile "http://h/a.ts") w with | mk x w' =>
    rw [hexec] at hfails
    cases x with
    | ok code => nomatch hfails.1
    | error f =>
      have hcompiles : (Request.openResource "http://h/a.ts").compiles? l w = some ("http://h/a.ts", w) := by
        have htarget : l.target? "http://h/a.ts" = some "http://h/a.ts" := by decide
        rw [Request.compiles?, htarget]
      exact ⟨f, w', nofun, hcompiles, rfl, hcompile _ w _ _ f w' nofun hcompiles hexec⟩
  · cases hexec : exec (l.resolve "http://h/c.ts" none) w with | mk x w₁ =>
    rw [hexec] at hfails
    cases x with
    | ok s => nomatch hfails.2.1
    | error f =>
      have hrun := Onward.outside (.here : l.Onward w₁ w₁) (Compiler.pagesWorld "import './c';" "http://h/c.ts").host []
      have hfound := toOption_eq_some_iff.mp hfails.2.2
      obtain ⟨t, w'', hresolve, -⟩ := hlater _ none w f w₁ _ _ _ hexec hrun rfl hfound
      exact ⟨f, w₁, _, _, t, w'', rfl, hrun, rfl, hfound, hresolve⟩

/-- Where the directory of the cache has nothing for a source, a command is run on it; when that fails, the files are those that it has
left. -/
theorem exec_compile_of_command {l : Loader} {w : World} {n : String} {f : Failure} {d : Path} {words : List String} {timeout : Option Int} {encoding : String} {s : Source} {input : Bytes}
    (hcache : l.cache = .disk d) (hcompiler : l.compiler = .command words timeout encoding) (hwords : words ≠ [])
    (hs : (exec (l.resolve n none) w).1 = .ok s) (hget : diskGet w.host d s = .ok .nothing)
    (hinput : encodeText encoding s.content = .ok input)
    (hfails : (w.host.run w.host.files w.host.cwd words input timeout).1.result encoding n = .error f) :
    ∃ w', exec (l.compile n) w = (.error f, w') ∧
      w'.host = { w.host with files := (w.host.run w.host.files w.host.cwd words input timeout).2 } := by
  have hgathers : Gathers _ w (exec (l.resolve n none) w).2 := l.resolver.tracks_gathers.resolve n none w
  cases hresolve : exec (l.resolve n none) w with | mk x w₁ =>
  rw [hresolve] at hs hgathers
  obtain rfl : x = .ok s := hs
  obtain ⟨w₂, hcached, hhost⟩ := exec_cached_disk (w := w₁) hcache (hgathers.host ▸ hget)
  have hlearns := ((l.learning_cached (r := l.resolver) s).of_exec hcached).trans (learns_events w₂ (.compiling n :: w₂.events))
  have hknown := hlearns.known n s (Resolver.known_of_resolveName hresolve)
  obtain ⟨es, hcommand⟩ := Compiler.exec_commandOn timeout n { w₂ with events := .compiling n :: w₂.events } hwords hinput
  have hrun : exec (l.compiler.compile l.resolver n) { w₂ with events := .compiling n :: w₂.events } =
      exec (Compiler.commandOn words timeout encoding n s) { w₂ with events := .compiling n :: w₂.events } := by
    rw [hcompiler, Compiler.compile, Compiler.runCommand_eq, exec_bind, Resolver.resolve, Resolver.exec_resolveName_of_known hknown]
  have hsame : w₂.host = w.host := hhost.trans hgathers.host
  rw [hcommand] at hrun
  simp only [hsame, hfails] at hrun
  unfold compile
  rw [exec_bind, hresolve]
  simp only
  rw [exec_bind, hcached]
  simp only [Found.code?, exec_bind, exec_record]
  rw [hsame, hrun]
  exact ⟨_, rfl, rfl⟩

/-- A program that puts code for a source into the directory of a cache, and fails. -/
def planting (s : Source) (code : String) (files : FileSystem) : Outcome × FileSystem :=
  (.finished 1 [] [], files.set (entryAt ["cache"] s) (.file (Entry.ofSource s code).bytes))

/-- The code cache is not always as it was when a compilation has failed: a command may write into its directory before it fails. -/
theorem kept_by_command :
    let l : Loader := ⟨.standard, .search ["/"], .command ["plant"] none "utf-8", .disk (cachePath .relative)⟩
    let s : Source := ⟨"http://h/a.ts", "x"⟩
    let w : World := { plainWorld [(["cache"], .directory)] with
      host := { (plainWorld [(["cache"], .directory)]).host with
        pages := [("http://h/a.ts", .body [0x78])], run := fun files _ _ _ _ => planting s "y" files } }
    ∃ f w', exec (l.compile "http://h/a.ts") w = (.error f, w') ∧ (exec (l.cached s) w).1 = .ok none ∧
      (exec (l.cached s) w').1 = .ok (some "y") := by
  intro l s w
  have hs : (exec (l.resolve "http://h/a.ts" none) w).1 = .ok s := by
    rw [← toOption_eq_some_iff]
    decide +kernel
  have hl := locate_entryAt_of_fits true (fits_entryPath_cachePath .relative s) (leadsInto_cachePath .relative) (loose_entry_cachePath s)
  have hnone : (⟨[(["cache"], .directory)]⟩ : FileSystem).node? (entryAt ["cache"] s) = none := by simp [node?, entryAt]
  have hget : diskGet w.host (cachePath .relative) s = .ok .nothing := by
    have hread : w.host.files.read w.host.cwd (entryPath (cachePath .relative) s) = .error (.system .notFound) := by
      show (⟨[(["cache"], .directory)]⟩ : FileSystem).read [] _ = _
      simp only [FileSystem.read, stat, hl, hnone, Bind.bind, Except.bind]
    simp only [diskGet, hread]
  have hinput : encodeText "utf-8" s.content = .ok (Utf8.encode "x".toList) := by
    rw [← toOption_eq_some_iff]
    rfl
  obtain ⟨w', hcompile, hhost⟩ := exec_compile_of_command (l := l) rfl rfl (List.cons_ne_nil _ _) hs hget hinput rfl
  have hplanted : diskGet w'.host (cachePath .relative) s = .ok (.code "y") := by
    have hnode (loc : Location) : w'.host.files.node? loc =
        if loc = entryAt ["cache"] s then some (.file (Entry.ofSource s "y").bytes) else w.host.files.node? loc := by
      rw [hhost]
      exact node?_set_of_none hnone _ loc
    have hdirectory : w'.host.files.node? ["cache"] = some .directory := by
      rw [hnode, if_neg (by simp [entryAt])]
      rfl
    have hcwd : w'.host.cwd = [] := by rw [hhost]; rfl
    have hleads : LeadsInto w'.host.files w'.host.cwd (cachePath .relative) ["cache"] := by
      rw [hcwd]
      exact ⟨locate_cachePath .relative fun target hlink => (by simp [hdirectory] at hlink), hdirectory⟩
    have hplace := hnode (entryAt ["cache"] s)
    rw [if_pos rfl] at hplace
    have hl' := locate_entryAt_of_fits true (fits_entryPath_cachePath .relative s) hleads (hplace ▸ loose_file _)
    have hread := read_eq_ok_iff.mpr ⟨_, hl', hplace⟩
    rw [diskGet_of_read hread, if_pos ((Entry.fits_ofSource_iff s s "y").mpr ⟨rfl, rfl⟩)]
    rfl
  obtain ⟨w₁, hbefore, -⟩ := exec_cached_disk (l := l) rfl hget
  obtain ⟨w₂, hbehind, -⟩ := exec_cached_disk (l := l) rfl hplanted
  exact ⟨_, w', hcompile, by rw [hbefore]; rfl, by rw [hbehind]; rfl⟩

end Loader

end ScriptLoader
