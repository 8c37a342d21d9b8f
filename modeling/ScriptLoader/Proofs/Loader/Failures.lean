import ScriptLoader.Proofs.Loader.Resolution
import ScriptLoader.Proofs.Lookup
import ScriptLoader.Proofs.Uri.Join

/-!
# How resolution and erasure fail

With a lookup that reads directories and an encoding that is known, a name is resolved, or it is refused with an error of the loader or
of the system, or a circle of links is met (`failure_of_resolve`). That a relative name cannot be read against a source is not among
the reasons, because the URI of every source that is known can be read (`Identities.Readable`).
-/

namespace ScriptLoader

open Action Text

/-! ## Readable URIs -/

/-- The URIs of all sources that are known can be read. -/
def Identities.Readable (m : Identities) : Prop :=
  ∀ n s, m.get? n = some s → ∃ ref, Uri.Reference.parse "" s.uri = .ok ref

theorem Identities.readable_empty : Identities.empty.Readable := by
  intro n s h
  nomatch h

theorem parse_uri_of_sourceOfFile {h : Host} {label name : String} {s : Source} (hs : h.sourceOfFile label name = .ok s) :
    ∃ ref, Uri.Reference.parse "" s.uri = .ok ref := by
  obtain ⟨path, hpath, hs⟩ := bind_eq_ok_iff.mp hs
  obtain ⟨text, -, hs⟩ := bind_eq_ok_iff.mp hs
  obtain ⟨loc, rfl, -⟩ := isAbsolute_of_realPath hpath
  obtain rfl := Except.ok.inj hs
  exact ⟨_, Path.parse_uri rfl⟩

/-- A source that is read at a URL has the URL as its URI. -/
theorem uri_of_sourceOfUrl {h : Host} {label url : String} {s : Source} (hs : h.sourceOfUrl label url = .ok s) : s.uri = url := by
  obtain ⟨ref, -, hs⟩ := bind_eq_ok_iff.mp hs
  split at hs
  · obtain ⟨text, -, hs⟩ := bind_eq_ok_iff.mp hs
    rw [← Except.ok.inj hs]
  · obtain ⟨text, -, hs⟩ := bind_eq_ok_iff.mp hs
    rw [← Except.ok.inj hs]

theorem parse_uri_of_sourceOfUrl {h : Host} {label url : String} {s : Source} (hs : h.sourceOfUrl label url = .ok s) :
    ∃ ref, Uri.Reference.parse "" s.uri = .ok ref := by
  obtain ⟨ref, href, -⟩ := bind_eq_ok_iff.mp hs
  rw [uri_of_sourceOfUrl hs]
  exact ⟨ref, mapError_eq_ok_iff.mp href⟩

/-- The URI of a source that has been found can be read. -/
theorem Resolver.parse_uri_of_findOn {r : Resolver} {h : Host} {name : String} {s : Source} (hs : r.findOn h name = .ok s) :
    ∃ ref, Uri.Reference.parse "" s.uri = .ok ref := by
  obtain ⟨url, -, hs⟩ := bind_eq_ok_iff.mp hs
  cases url with
  | some url => exact parse_uri_of_sourceOfUrl (mapError_eq_ok_iff.mp hs)
  | none => exact parse_uri_of_sourceOfFile (mapError_eq_ok_iff.mp hs)

theorem Learns.readable {r : Resolver} {w w' : World} (h : Learns r w w') (hr : w.identities.Readable) : w'.identities.Readable := by
  intro n s hs
  rcases h.found n s hs with hknown | hfound
  · exact hr n s hknown
  · exact Resolver.parse_uri_of_findOn hfound

/-- A relative name can be read against a URI that can be read. -/
theorem join_of_isRelative {uri name : String} (hname : Syntax.isRelative name = true)
    (huri : ∃ ref, Uri.Reference.parse "" uri = .ok ref) : ∃ joined, Uri.join uri name = .ok joined := by
  obtain ⟨b, hb⟩ := huri
  obtain ⟨ref, href, -⟩ := Uri.parse_relative b.scheme hname
  unfold Uri.join
  split
  · exact ⟨_, rfl⟩
  split
  · exact ⟨_, rfl⟩
  rw [hb]
  simp only [Bind.bind, Except.bind, href]
  split <;> exact ⟨_, rfl⟩

/-! ## Reading sources -/

/-- What reading a text can fail with when its encoding is known. -/
def IsTextFailure (f : Failure) : Prop := f = .undecodable ∨ (∃ m, f = .invalid m) ∨ ∃ fault path, f = .system fault path

/-- What reading a source can fail with when its encoding is known. -/
def IsReadFailure (h : Host) (f : Failure) : Prop :=
  f = .undecodable ∨ (∃ m, f = .invalid m) ∨ (∃ fault path, f = .system fault path) ∨ h.Loops f

theorem failure_of_decodeText {label : String} {bs : Bytes} {f : Failure} (hknown : ∃ e, Encoding.named? label = some e)
    (hfails : decodeText label bs = .error f) : f = .undecodable := by
  obtain ⟨e, he⟩ := hknown
  rw [decodeText, he] at hfails
  simp only at hfails
  split at hfails
  · nomatch hfails
  · exact (Except.error.inj hfails).symm

theorem IsTextFailure.isReadFailure {f : Failure} (hf : IsTextFailure f) (h : Host) : IsReadFailure h f := by
  rcases hf with hdecode | hinvalid | hsystem
  · exact .inl hdecode
  · exact .inr (.inl hinvalid)
  · exact .inr (.inr (.inl hsystem))

theorem failure_of_readText {h : Host} {label : String} {p : Path} {f : Failure} (hknown : ∃ e, Encoding.named? label = some e)
    (hfails : h.readText label p = .error f) : IsTextFailure f := by
  rcases bind_eq_error_iff.mp hfails with hbytes | ⟨bs, -, hfails⟩
  · obtain ⟨fault, -, rfl⟩ := mapError_eq_error_iff.mp hbytes
    cases fault with
    | system fault => exact .inr (.inr ⟨_, _, rfl⟩)
    | nulCharacter => exact .inr (.inl ⟨_, rfl⟩)
  · rcases bind_eq_error_iff.mp hfails with hdecode | ⟨text, -, hpure⟩
    · exact .inl (failure_of_decodeText hknown hdecode)
    · nomatch hpure

theorem failure_of_fetchText {h : Host} {label url : String} {f : Failure} (hknown : ∃ e, Encoding.named? label = some e)
    (hfails : h.fetchText label url = .error f) : IsTextFailure f := by
  rcases bind_eq_error_iff.mp hfails with hfetch | ⟨bs, -, hfails⟩
  · unfold Host.fetch at hfetch
    split at hfetch
    · nomatch hfetch
    · split at hfetch
      · nomatch hfetch
      · exact .inr (.inl ⟨_, (Except.error.inj hfetch).symm⟩)
    · exact .inr (.inl ⟨_, (Except.error.inj hfetch).symm⟩)
  · split at hfails
    · nomatch hfails
    · exact .inl (failure_of_decodeText hknown hfails)

theorem failure_of_sourceOfFile {h : Host} {label name : String} {f : Failure} (hknown : ∃ e, Encoding.named? label = some e)
    (hfails : h.sourceOfFile label name = .error f) : IsReadFailure h f := by
  rcases bind_eq_error_iff.mp hfails with hreal | ⟨path, -, hfails⟩
  · rcases failure_of_realPath hreal with hloop | ⟨hinvalid, -⟩
    · exact .inr (.inr (.inr hloop))
    · exact .inr (.inl ⟨_, hinvalid⟩)
  · rcases bind_eq_error_iff.mp hfails with htext | ⟨text, -, hpure⟩
    · exact (failure_of_readText hknown htext).isReadFailure h
    · nomatch hpure

theorem failure_of_sourceOfUrl {h : Host} {label url : String} {f : Failure} (hknown : ∃ e, Encoding.named? label = some e)
    (hfails : h.sourceOfUrl label url = .error f) : IsTextFailure f := by
  rcases bind_eq_error_iff.mp hfails with hparse | ⟨ref, -, hfails⟩
  · obtain ⟨m, -, rfl⟩ := mapError_eq_error_iff.mp hparse
    exact .inr (.inl ⟨_, rfl⟩)
  · split at hfails
    · rcases bind_eq_error_iff.mp hfails with htext | ⟨text, -, hpure⟩
      · exact failure_of_readText hknown htext
      · nomatch hpure
    · rcases bind_eq_error_iff.mp hfails with htext | ⟨text, -, hpure⟩
      · exact failure_of_fetchText hknown htext
      · nomatch hpure

/-- The resolver makes an error of its own of every failure to read a text. -/
theorem resolution_of_isTextFailure {f : Failure} (name : String) (hf : IsTextFailure f) :
    ∃ cause, Resolver.unresolved name f = .load (.resolution name cause) := by
  rcases hf with rfl | ⟨m, rfl⟩ | ⟨fault, path, rfl⟩
  · exact ⟨_, rfl⟩
  · exact ⟨_, rfl⟩
  · cases fault <;> exact ⟨_, rfl⟩

/-- The resolver makes an error of its own of every such failure but a circle of links. -/
theorem tolerated_of_isReadFailure {h : Host} {f : Failure} (name : String) (hf : IsReadFailure h f) :
    (Resolver.unresolved name f).Tolerated ∨ h.Loops (Resolver.unresolved name f) := by
  have htext (hf : IsTextFailure f) : (Resolver.unresolved name f).Tolerated := by
    obtain ⟨cause, hcause⟩ := resolution_of_isTextFailure name hf
    exact .inl ⟨_, hcause⟩
  rcases hf with hdecode | hinvalid | hsystem | hloop
  · exact .inl (htext (.inl hdecode))
  · exact .inl (htext (.inr (.inl hinvalid)))
  · exact .inl (htext (.inr (.inr hsystem)))
  · obtain ⟨path, rfl⟩ := hloop.1
    exact .inr hloop

/-! ## Resolution -/

namespace Resolver

/-- The resolver reads directories, in an encoding that is known, and all that is known can be read. -/
structure Sound (r : Resolver) (w : World) : Prop where
  lookup : r.lookup.ReadsFiles
  encoding : ∃ e, Encoding.named? r.encoding = some e
  readable : w.identities.Readable

theorem Sound.learns {r : Resolver} {w w' : World} (h : r.Sound w) (hlearns : Learns r w w') : r.Sound w' :=
  ⟨h.lookup, h.encoding, hlearns.readable h.readable⟩

variable {r : Resolver} {w w' : World} {name : String} {f : Failure}

theorem failure_of_findOn {h : Host} (hlookup : r.lookup.ReadsFiles) (hknown : ∃ e, Encoding.named? r.encoding = some e)
    (hfails : r.findOn h name = .error f) : f.Tolerated ∨ h.Loops f := by
  rcases bind_eq_error_iff.mp hfails with hlocate | ⟨url, -, hread⟩
  · unfold locateOn at hlocate
    split at hlocate
    · nomatch hlocate
    · exact Lookup.failure_of_get? hlookup hlocate
  · cases url with
    | some url =>
      obtain ⟨f', hf', rfl⟩ := mapError_eq_error_iff.mp hread
      exact tolerated_of_isReadFailure name ((failure_of_sourceOfUrl hknown hf').isReadFailure h)
    | none =>
      obtain ⟨f', hf', rfl⟩ := mapError_eq_error_iff.mp hread
      exact tolerated_of_isReadFailure name (failure_of_sourceOfFile hknown hf')

theorem failure_of_resolveName (hsound : r.Sound w) (hfails : exec (r.resolveName name) w = (.error f, w')) :
    f.Tolerated ∨ w.host.Loops f := by
  obtain ⟨es, h⟩ := exec_resolveName r name w
  obtain ⟨hname, -⟩ := Prod.mk.inj (h.symm.trans hfails)
  unfold nameOn at hname
  split at hname
  · nomatch hname
  · exact failure_of_findOn hsound.lookup hsound.encoding hname

/-- A name that cannot be resolved is refused with an error of the loader or of the system, unless there is a circle of links. -/
theorem failure_of_resolve {base : Option String} (hsound : r.Sound w)
    (hfails : exec (r.resolve name base) w = (.error f, w')) : f.Tolerated ∨ w.host.Loops f := by
  unfold resolve at hfails
  split at hfails
  · rename_i base
    split at hfails
    · rename_i hrelative
      rcases exec_bind_eq_error.mp hfails with hbase | ⟨s, w₁, hbase, hfails⟩
      · exact failure_of_resolveName hsound hbase
      have hlearns := (learning_resolveName r base).of_exec hbase
      obtain ⟨joined, hjoined⟩ := join_of_isRelative hrelative (hlearns.readable hsound.readable _ _ (known_of_resolveName hbase))
      rcases exec_bind_eq_error.mp hfails with hjoin | ⟨joined', w₂, hjoin, hfails⟩
      · rw [exec_ofExcept, hjoined] at hjoin
        nomatch hjoin
      · obtain ⟨-, rfl⟩ := Prod.mk.inj ((exec_ofExcept _ _ _).symm.trans hjoin)
        rw [← hlearns.host]
        exact failure_of_resolveName (hsound.learns hlearns) hfails
    · exact failure_of_resolveName hsound hfails
  · exact failure_of_resolveName hsound hfails

end Resolver

/-! ## Erasure -/

namespace Compiler

variable {r : Resolver} {w w' : World} {name : String} {f : Failure}

theorem failure_of_resolves {c : String} (hsound : r.Sound w) (hfails : exec (resolves r name c) w = (.error f, w')) :
    f.Tolerated ∨ w.host.Loops f := by
  obtain ⟨f', w₁, hresolve, hhandled⟩ := exec_tryCatch_eq_error.mp hfails
  have hf : f = f' := by
    split at hhandled
    · split at hhandled
      · nomatch hhandled
      · exact (Except.error.inj (Prod.mk.inj hhandled).1).symm
    · exact (Except.error.inj (Prod.mk.inj hhandled).1).symm
  rw [hf]
  rcases exec_bind_eq_error.mp hresolve with hresolve | ⟨s, w₂, -, hpure⟩
  · exact Resolver.failure_of_resolve hsound hresolve
  · nomatch hpure

theorem failure_of_anyResolves {cs : List String} (hsound : r.Sound w) (hfails : exec (anyResolves r name cs) w = (.error f, w')) :
    f.Tolerated ∨ w.host.Loops f := by
  induction cs generalizing w with
  | nil => nomatch hfails
  | cons c cs ih =>
    rw [anyResolves_cons] at hfails
    rcases exec_bind_eq_error.mp hfails with hfirst | ⟨found, w₁, hfirst, hfails⟩
    · exact failure_of_resolves hsound hfirst
    · have hlearns := (learning_resolves r name c).of_exec hfirst
      split at hfails
      · nomatch hfails
      · rw [← hlearns.host]
        exact ih (hsound.learns hlearns) hfails

theorem failure_of_checkSpecifiers {c : Config} {ss : List Syntax.Specifier} (hsound : r.Sound w)
    (hfails : exec (checkSpecifiers r c name ss) w = (.error f, w')) : f.Tolerated ∨ w.host.Loops f := by
  induction ss generalizing w with
  | nil => nomatch hfails
  | cons s ss ih =>
    unfold checkSpecifiers at hfails
    split at hfails
    · rcases exec_bind_eq_error.mp hfails with hany | ⟨found, w₁, hany, hfails⟩
      · exact failure_of_anyResolves hsound hany
      · have hlearns := (learning_anyResolves r name _).of_exec hany
        split at hfails
        · exact .inl (.inl ⟨_, (Except.error.inj (Prod.mk.inj hfails).1).symm⟩)
        · rw [← hlearns.host]
          exact ih (hsound.learns hlearns) hfails
    · exact ih hsound hfails

theorem failure_of_finishErasure {c : Config} {checkImports : Bool} {s : Source} {erased : Syntax.Erased} (hsound : r.Sound w)
    (hfails : exec (finishErasure r c checkImports name s erased) w = (.error f, w')) : f.Tolerated ∨ w.host.Loops f := by
  unfold finishErasure at hfails
  split at hfails
  · rcases exec_bind_eq_error.mp hfails with hcheck | ⟨_, w₁, -, hfails⟩
    · exact failure_of_checkSpecifiers hsound hcheck
    · rcases exec_bind_eq_error.mp hfails with hlog | ⟨_, w₂, -, hpure⟩
      · nomatch hlog
      · nomatch hpure
  · rcases exec_bind_eq_error.mp hfails with hlog | ⟨_, w₂, -, hpure⟩
    · nomatch hlog
    · nomatch hpure

/-- The eraser fails with an error of the loader or of the system, unless there is a circle of links. -/
theorem failure_of_erase {c : Config} {checkImports : Bool} (hsound : r.Sound w)
    (hfails : exec (erase r c checkImports name) w = (.error f, w')) : f.Tolerated ∨ w.host.Loops f := by
  rw [erase_eq] at hfails
  rcases exec_bind_eq_error.mp hfails with hresolve | ⟨s, w₁, hresolve, hfails⟩
  · exact Resolver.failure_of_resolve hsound hresolve
  · have hlearns := (r.learning_resolve name none).of_exec hresolve
    split at hfails
    · exact .inl (.inl ⟨_, (Except.error.inj (Prod.mk.inj hfails).1).symm⟩)
    · rw [← hlearns.host]
      exact failure_of_finishErasure (hsound.learns hlearns) hfails

end Compiler

end ScriptLoader
