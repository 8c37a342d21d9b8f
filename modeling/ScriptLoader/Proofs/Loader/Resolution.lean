import ScriptLoader.Loader
import ScriptLoader.Proofs.Action

/-!
# What a loader learns

To resolve names, to look into a cache and to erase types changes nothing in a world but what is known about names, and what is known
about a name stays (`Learning`). A name that has been resolved is known (`known_of_resolveName`), and what the eraser gives for a name
is what it makes of the source that the name is known to stand for (`known_of_erase`).
-/

namespace ScriptLoader

open Action

/-- What is known about names when a name has been looked for. -/
def Identities.learn (m : Identities) (name : String) : Except Failure Source → Identities
  | .ok s => (m.put name s).2
  | .error _ => m

namespace Resolver

/-- The URL of a name on a host. -/
def locateOn (r : Resolver) (h : Host) (name : String) : Except Failure (Option String) :=
  match Address.looksLike name, Address.check name with
  | true, .ok () => .ok (some name)
  | _, _ => r.lookup.get? h name

/-- The source that is found for a name on a host. -/
def findOn (r : Resolver) (h : Host) (name : String) : Except Failure Source := do
  match ← r.locateOn h name with
  | some url => (h.sourceOfUrl r.encoding url).mapError (unresolved name)
  | none => (h.sourceOfFile r.encoding name).mapError (unresolved name)

/-- The source that a name stands for: the one that is known, or the one that is found. -/
def nameOn (r : Resolver) (h : Host) (m : Identities) (name : String) : Except Failure Source :=
  match m.get? name with
  | some s => .ok s
  | none => r.findOn h name

end Resolver

/-- More may be known about names: sources that a resolver finds. Nothing else has changed but the record of events. -/
structure Learns (r : Resolver) (w w' : World) : Prop where
  host : w'.host = w.host
  memory : w'.memory = w.memory
  known : ∀ n s, w.identities.get? n = some s → w'.identities.get? n = some s
  found : ∀ n s, w'.identities.get? n = some s → w.identities.get? n = some s ∨ r.findOn w.host n = .ok s

section Learns

variable {r : Resolver}

theorem Learns.refl (w : World) : Learns r w w := ⟨rfl, rfl, fun _ _ h => h, fun _ _ h => .inl h⟩

theorem Learns.trans {w w' w'' : World} (h : Learns r w w') (h' : Learns r w' w'') : Learns r w w'' := by
  refine ⟨h'.host.trans h.host, h'.memory.trans h.memory, fun n s hs => h'.known n s (h.known n s hs), fun n s hs => ?_⟩
  rcases h'.found n s hs with hknown | hfound
  · exact h.found n s hknown
  · rw [h.host] at hfound
    exact .inr hfound

theorem learns_events (w : World) (es : List Event) : Learns r w { w with events := es } :=
  ⟨rfl, rfl, fun _ _ h => h, fun _ _ h => .inl h⟩

end Learns

namespace Action

variable {α β ε : Type} {R : World → World → Prop} {r : Resolver}

/-- Whatever comes of the action, the world behind it stands in the relation to the one before it. -/
def Within (R : World → World → Prop) (a : Action α) : Prop := ∀ w, R w (a.exec w).2

theorem Within.map (g : α → β) {a : Action α} (ha : Within R a) : Within R (g <$> a) := by
  intro w
  rw [exec_map]
  exact ha w

/-- The action only learns what a resolver finds, whether it fails or not. -/
def Learning (r : Resolver) (a : Action α) : Prop := ∀ w, Learns r w (a.exec w).2

theorem Learning.of_exec {a : Action α} {w w' : World} {x : Except Failure α} (ha : Learning r a) (h : exec a w = (x, w')) :
    Learns r w w' := by
  have hlearns := ha w
  rwa [h] at hlearns

end Action

/-- A relation between worlds that holds across everything that is recorded and across every name that is resolved, and so across all that
is made up of this. -/
structure Tracks (r : Resolver) (R : World → World → Prop) : Prop where
  events : ∀ w es, R w { w with events := es }
  trans : ∀ {w w' w''}, R w w' → R w' w'' → R w w''
  name : ∀ name, Within R (r.resolveName name)

namespace Tracks

variable {α β ε : Type} {R : World → World → Prop} {r : Resolver} (h : Tracks r R)
include h

theorem refl (w : World) : R w w := h.events w w.events

theorem pure (x : α) : Within R (Pure.pure x : Action α) := h.refl

theorem throw (f : Failure) : Within R (throwThe Failure f : Action α) := h.refl

theorem get : Within R (MonadStateOf.get : Action World) := h.refl

theorem record (e : Event) : Within R (Action.record e) := fun w => h.events w _

theorem log (level : Level) (origin text : String) : Within R (Action.log level origin text) := h.record _

theorem ofExcept (failure : ε → Failure) (x : Except ε α) : Within R (Action.ofExcept failure x) := by
  intro w
  rw [exec_ofExcept]
  exact h.refl w

theorem bind {a : Action α} {k : α → Action β} (ha : Within R a) (hk : ∀ x, Within R (k x)) : Within R (a >>= k) := by
  intro w
  have hfirst := ha w
  rw [exec_bind]
  generalize exec a w = p at hfirst ⊢
  rcases p with ⟨_ | x, w'⟩
  · exact hfirst
  · exact h.trans hfirst (hk x w')

theorem tryCatch {a : Action α} {k : Failure → Action α} (ha : Within R a) (hk : ∀ f, Within R (k f)) : Within R (tryCatch a k) := by
  intro w
  have hfirst := ha w
  rw [exec_tryCatch]
  generalize exec a w = p at hfirst ⊢
  rcases p with ⟨f | _, w'⟩
  · exact h.trans hfirst (hk f w')
  · exact hfirst

theorem resolve (name : String) (base : Option String) : Within R (r.resolve name base) := by
  unfold Resolver.resolve
  split
  · split
    · exact h.bind (h.name _) fun _ => h.bind (h.ofExcept _ _) fun _ => h.name _
    · exact h.name _
  · exact h.name _

end Tracks

/-! ## Names -/

namespace Identities

theorem get?_put (m : Identities) (name : String) (s : Source) (n : String) :
    (m.put name s).2.get? n = if n = name then some ((m.get? name).getD s) else m.get? n := by
  unfold put
  cases h : m.get? name with
  | some t =>
    simp only [Option.getD_some]
    split
    · rename_i hn
      rw [hn, h]
    · rfl
  | none =>
    simp only [get?, List.lookup_append, Option.getD_none]
    by_cases hn : n = name
    · subst hn
      have hnone : List.lookup n m.entries = none := h
      simp [hnone]
    · have hb : (n == name) = false := by simp [hn]
      simp [hn, hb, List.lookup_cons]

end Identities

namespace Resolver

theorem get?_learn (r : Resolver) (h : Host) (m : Identities) (name n : String) :
    (m.learn name (r.nameOn h m name)).get? n = if n = name then (r.nameOn h m name).toOption else m.get? n := by
  cases hname : r.nameOn h m name with
  | ok s =>
    rw [Identities.learn, Identities.get?_put]
    unfold nameOn at hname
    cases hknown : m.get? name with
    | none => rfl
    | some t =>
      rw [hknown] at hname
      rw [Except.ok.inj hname]
      rfl
  | error f =>
    unfold nameOn at hname
    split
    · rename_i hn
      cases hknown : m.get? name with
      | none => rw [hn]; exact hknown
      | some t =>
        rw [hknown] at hname
        nomatch hname
    · rfl

theorem exec_locate (r : Resolver) (name : String) (w : World) :
    ∃ es, exec (r.locate name) w = (r.locateOn w.host name, { w with events := es }) := by
  have hid {α : Type} (x : Except Failure α) : x.mapError id = x := by cases x <;> rfl
  unfold locate locateOn
  cases Address.looksLike name with
  | false => exact ⟨_, by simp [exec_bind, hid]; rfl⟩
  | true =>
    cases Address.check name with
    | ok u => exact ⟨_, rfl⟩
    | error f => exact ⟨_, by simp [exec_bind, hid]; rfl⟩

theorem exec_find (r : Resolver) (name : String) (w : World) :
    ∃ es, exec (r.find name) w = (r.findOn w.host name, { w with events := es }) := by
  obtain ⟨es, h⟩ := exec_locate r name w
  refine ⟨es, ?_⟩
  unfold find findOn
  rw [exec_bind, h]
  cases r.locateOn w.host name with
  | error f => rfl
  | ok url =>
    cases url with
    | none =>
      show exec (host >>= fun h => ofExcept (unresolved name) (h.sourceOfFile r.encoding name)) { w with events := es } = _
      rw [exec_bind, exec_host]
      exact exec_ofExcept _ _ _
    | some url =>
      show exec (host >>= fun h => ofExcept (unresolved name) (h.sourceOfUrl r.encoding url)) { w with events := es } = _
      rw [exec_bind, exec_host]
      exact exec_ofExcept _ _ _

/-- A name that is known stands for its source; another one is looked for, and it is known once it has been found. -/
theorem exec_resolveName (r : Resolver) (name : String) (w : World) :
    ∃ es, exec (r.resolveName name) w = (r.nameOn w.host w.identities name,
      { w with events := es, identities := w.identities.learn name (r.nameOn w.host w.identities name) }) := by
  unfold resolveName nameOn
  rw [exec_bind, exec_get]
  cases hknown : w.identities.get? name with
  | some s => exact ⟨w.events, by simp [hknown, Identities.learn, Identities.put]⟩
  | none =>
    obtain ⟨es, h⟩ := exec_find r name w
    simp only [hknown]
    rw [exec_bind, h]
    cases r.findOn w.host name with
    | error f => exact ⟨es, rfl⟩
    | ok s =>
      refine ⟨.logged .debug origin ("Resolved '" ++ name ++ "' to " ++ s.uri) :: es, ?_⟩
      simp [exec_bind, Identities.learn, Identities.put, hknown, Except.map]

theorem learning_resolveName (r : Resolver) (name : String) : Learning r (r.resolveName name) := by
  intro w
  obtain ⟨es, h⟩ := exec_resolveName r name w
  have hget (n : String) := r.get?_learn w.host w.identities name n
  rw [h]
  refine ⟨rfl, rfl, fun n s hn => ?_, fun n s hn => ?_⟩
  · show (w.identities.learn name _).get? n = some s
    rw [hget]
    split
    · rename_i heq
      rw [← heq, nameOn, hn]
      rfl
    · exact hn
  · replace hn : (w.identities.learn name _).get? n = some s := hn
    rw [hget] at hn
    split at hn
    · rename_i heq
      cases hname : r.nameOn w.host w.identities name with
      | error f =>
        rw [hname] at hn
        nomatch hn
      | ok t =>
        rw [hname] at hn
        obtain rfl := Option.some.inj hn
        rw [nameOn] at hname
        split at hname
        · rename_i hknown
          rw [heq, hknown]
          exact .inl (congrArg some (Except.ok.inj hname))
        · exact .inr (heq ▸ hname)
    · exact .inl hn

/-- A name that has been resolved is known. -/
theorem known_of_resolveName {r : Resolver} {name : String} {w w' : World} {s : Source}
    (h : exec (r.resolveName name) w = (.ok s, w')) : w'.identities.get? name = some s := by
  obtain ⟨es, h'⟩ := exec_resolveName r name w
  obtain ⟨hs, rfl⟩ := Prod.mk.inj (h'.symm.trans h)
  show (w.identities.learn name _).get? name = some s
  rw [get?_learn, if_pos rfl, hs]
  rfl

/-- What a resolver learns is tracked. -/
theorem tracks_learns (r : Resolver) : Tracks r (Learns r) := ⟨learns_events, Learns.trans, learning_resolveName r⟩

theorem learning_resolve (r : Resolver) (name : String) (base : Option String) : Learning r (r.resolve name base) :=
  r.tracks_learns.resolve name base

end Resolver

/-! ## What is known and what is found -/

/-- All that is known is what would be found. -/
def Identities.Faithful (r : Resolver) (h : Host) (m : Identities) : Prop := ∀ n s, m.get? n = some s → r.findOn h n = .ok s

theorem Identities.faithful_empty (r : Resolver) (h : Host) : Identities.empty.Faithful r h := fun _ _ hs => nomatch hs

theorem Learns.faithful {r : Resolver} {w w' : World} (h : Learns r w w') (hw : w.identities.Faithful r w.host) :
    w'.identities.Faithful r w'.host := by
  intro n s hs
  rw [h.host]
  exact (h.found n s hs).elim (hw n s) id

/-- A name stands for what would be found for it, if that is so for all names that are known. -/
theorem Identities.Faithful.nameOn {r : Resolver} {h : Host} {m : Identities} (hm : m.Faithful r h) (name : String) :
    r.nameOn h m name = r.findOn h name := by
  unfold Resolver.nameOn
  cases hknown : m.get? name with
  | some s => exact (hm name s hknown).symm
  | none => rfl

/-- A name is resolved to what would be found for it. -/
theorem Identities.Faithful.exec_resolveName {r : Resolver} {w : World} (hw : w.identities.Faithful r w.host) (name : String) :
    (exec (r.resolveName name) w).1 = r.findOn w.host name := by
  obtain ⟨es, hexec⟩ := r.exec_resolveName name w
  rw [hexec, hw.nameOn]

/-- A relative name is resolved against the source that would be found for the name of its base. -/
theorem Identities.Faithful.exec_resolve_relative {r : Resolver} {w : World} {name base : String} {b : Source}
    (hw : w.identities.Faithful r w.host) (hname : Syntax.isRelative name = true) (hb : r.findOn w.host base = .ok b) :
    (exec (r.resolve name (some base)) w).1 =
      ((Uri.join b.uri name).mapError fun m => Failure.invalid m.message) >>= fun url => r.findOn w.host url := by
  have hlearns := r.learning_resolveName base w
  have hbase := hw.exec_resolveName base
  simp only [Resolver.resolve, hname, if_true, exec_bind]
  generalize exec (r.resolveName base) w = p at hlearns hbase
  obtain ⟨found, w'⟩ := p
  simp only at hbase
  rw [hb] at hbase
  subst hbase
  simp only [exec_ofExcept]
  cases Uri.join b.uri name with
  | error m => rfl
  | ok url =>
    have hurl := (hlearns.faithful hw).exec_resolveName url
    rw [hlearns.host] at hurl
    exact hurl

/-! ## Erasure -/

namespace Compiler

/-- A name leads to a source, for the module `name`. -/
def resolves (r : Resolver) (name c : String) : Action Bool :=
  tryCatch (do let _ ← r.resolve c (some name); return true) fun f =>
    match f with
    | .load e => if e.kind = .resolution then return false else throw f
    | _ => throw f

theorem anyResolves_cons (r : Resolver) (name c : String) (cs : List String) :
    anyResolves r name (c :: cs) = (do if ← resolves r name c then return true else anyResolves r name cs) := rfl

/-- What the eraser does when it has erased the types of a source. -/
def finishErasure (r : Resolver) (c : Config) (checkImports : Bool) (name : String) (s : Source) (erased : Syntax.Erased) :
    Action String := do
  if checkImports then checkSpecifiers r c name erased.specifiers
  Action.log .debug eraserOrigin ("Erased types from '" ++ name ++ "' (" ++ toString s.content.length ++ " -> " ++
    toString erased.code.length ++ " chars)")
  return erased.code

theorem erase_eq (r : Resolver) (c : Config) (checkImports : Bool) (name : String) :
    erase r c checkImports name =
      (do
        let s ← r.resolve name none
        match Syntax.erase s.content with
        | .error refusal => throw (.load (.ofRefusal name refusal))
        | .ok erased => finishErasure r c checkImports name s erased) := rfl

end Compiler

namespace Tracks

open Compiler

variable {R : World → World → Prop} {r : Resolver} (h : Tracks r R)
include h

theorem resolves (name c : String) : Within R (Compiler.resolves r name c) := by
  refine h.tryCatch (h.bind (h.resolve c (some name)) fun _ => h.pure _) fun f => ?_
  split
  · split
    · exact h.pure _
    · exact h.throw _
  · exact h.throw _

theorem anyResolves (name : String) (cs : List String) : Within R (Compiler.anyResolves r name cs) := by
  induction cs with
  | nil => exact h.pure _
  | cons c cs ih =>
    rw [anyResolves_cons]
    refine h.bind (h.resolves name c) fun found => ?_
    split
    · exact h.pure _
    · exact ih

theorem checkSpecifiers (c : Config) (name : String) (ss : List Syntax.Specifier) :
    Within R (Compiler.checkSpecifiers r c name ss) := by
  induction ss with
  | nil => exact h.pure _
  | cons s ss ih =>
    unfold Compiler.checkSpecifiers
    split
    · refine h.bind (h.anyResolves name _) fun found => ?_
      split
      · exact h.throw _
      · exact ih
    · exact ih

theorem finishErasure (c : Config) (checkImports : Bool) (name : String) (s : Source) (erased : Syntax.Erased) :
    Within R (Compiler.finishErasure r c checkImports name s erased) := by
  unfold Compiler.finishErasure
  split
  · exact h.bind (h.checkSpecifiers c name _) fun _ => h.bind (h.log _ _ _) fun _ => h.pure _
  · exact h.bind (h.log _ _ _) fun _ => h.pure _

theorem erase (c : Config) (checkImports : Bool) (name : String) : Within R (Compiler.erase r c checkImports name) := by
  rw [erase_eq]
  refine h.bind (h.resolve name none) fun s => ?_
  split
  · exact h.throw _
  · exact h.finishErasure c checkImports name s _

end Tracks

namespace Compiler

theorem learning_resolves (r : Resolver) (name c : String) : Learning r (resolves r name c) := r.tracks_learns.resolves name c

theorem learning_anyResolves (r : Resolver) (name : String) (cs : List String) : Learning r (anyResolves r name cs) :=
  r.tracks_learns.anyResolves name cs

theorem learning_erase (r : Resolver) (c : Config) (checkImports : Bool) (name : String) :
    Learning r (erase r c checkImports name) := r.tracks_learns.erase c checkImports name

theorem code_of_finishErasure {r : Resolver} {c : Config} {checkImports : Bool} {name code : String} {s : Source}
    {erased : Syntax.Erased} {w w' : World} (h : exec (finishErasure r c checkImports name s erased) w = (.ok code, w')) :
    erased.code = code := by
  unfold finishErasure at h
  split at h
  · obtain ⟨_, w₁, -, h⟩ := exec_bind_eq_ok.mp h
    obtain ⟨_, w₂, -, h⟩ := exec_bind_eq_ok.mp h
    exact Except.ok.inj (Prod.mk.inj h).1
  · obtain ⟨_, w₁, -, h⟩ := exec_bind_eq_ok.mp h
    exact Except.ok.inj (Prod.mk.inj h).1

/-- The code that the eraser gives for a name is what it makes of the source that the name is known to stand for. -/
theorem known_of_erase {r : Resolver} {c : Config} {checkImports : Bool} {name code : String} {w w' : World}
    (h : exec (erase r c checkImports name) w = (.ok code, w')) :
    ∃ s erased, w'.identities.get? name = some s ∧ Syntax.erase s.content = .ok erased ∧ erased.code = code := by
  rw [erase_eq] at h
  obtain ⟨s, w₁, hresolve, h⟩ := exec_bind_eq_ok.mp h
  split at h
  · simp at h
  · rename_i erased herased
    have hlater := r.tracks_learns.finishErasure c checkImports name s erased w₁
    rw [h] at hlater
    exact ⟨s, erased, hlater.known _ _ (Resolver.known_of_resolveName hresolve), herased, code_of_finishErasure h⟩

end Compiler

end ScriptLoader
