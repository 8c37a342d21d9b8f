import ScriptLoader.Proofs.Loader.Imports
import ScriptLoader.Proofs.Loader.Runs

/-!
# Names keep their sources

A name that has been resolved keeps its source for the life of a loader (`resolve_of_onward`), although a relative name is read against
its base each time, imports that are checked make names known on the way, and files and pages may change or vanish. For what is known
about names only grows, and what a name has been resolved to is what is known for the name that it is rewritten to.
-/

namespace ScriptLoader

open Action

namespace Identities

variable {m m' : Identities} {name : String} {base : Option String} {s : Source}

/-- The name that a source is looked for under: a relative name is read against what is known for its base. -/
def rewritten? (m : Identities) (name : String) : Option String → Option String
  | some base => if Syntax.isRelative name then (m.get? base).bind fun s => (Uri.join s.uri name).toOption else some name
  | none => some name

/-- The source that is known for a name that the module `base` uses. -/
def known? (m : Identities) (name : String) (base : Option String) : Option Source := (m.rewritten? name base).bind m.get?

/-- Behind other entries, new ones take nothing from a name that has a source. -/
theorem get?_of_grown (hgrows : m.entries <+: m'.entries) (hs : m.get? name = some s) : m'.get? name = some s := by
  obtain ⟨new, hnew⟩ := hgrows
  replace hs : m.entries.lookup name = some s := hs
  show m'.entries.lookup name = some s
  rw [← hnew, List.lookup_append, hs, Option.some_or]

theorem rewritten?_of_grown {n : String} (hgrows : m.entries <+: m'.entries) (hn : m.rewritten? name base = some n) :
    m'.rewritten? name base = some n := by
  cases base with
  | none => exact hn
  | some base =>
    by_cases hname : Syntax.isRelative name = true
    · simp only [rewritten?, if_pos hname] at hn ⊢
      obtain ⟨b, hb, hjoin⟩ := Option.bind_eq_some_iff.mp hn
      rw [get?_of_grown hgrows hb]
      exact hjoin
    · simp only [rewritten?, if_neg hname] at hn ⊢
      exact hn

theorem known?_of_grown (hgrows : m.entries <+: m'.entries) (hs : m.known? name base = some s) : m'.known? name base = some s := by
  obtain ⟨n, hn, hget⟩ := Option.bind_eq_some_iff.mp hs
  rw [known?, rewritten?_of_grown hgrows hn]
  exact get?_of_grown hgrows hget

theorem prefix_learn (m : Identities) (name : String) (x : Except Failure Source) : m.entries <+: (m.learn name x).entries := by
  cases x with
  | error f => exact List.prefix_refl _
  | ok s =>
    unfold learn put
    cases m.get? name with
    | some t => exact List.prefix_refl _
    | none => exact List.prefix_append _ _

end Identities

namespace Resolver

variable {r : Resolver} {name : String} {base : Option String} {w w' : World} {s : Source}

/-- Entries are only added behind the others. -/
theorem carries_growth (r : Resolver) : Carries r fun w w' => w.identities.entries <+: w'.identities.entries where
  events _ _ := List.prefix_refl _
  trans := List.IsPrefix.trans
  name name w := by
    obtain ⟨es, hexec⟩ := r.exec_resolveName name w
    rw [hexec]
    exact w.identities.prefix_learn name _
  outside heq := heq ▸ List.prefix_refl _

/-- For a name that is known nothing is looked for. -/
theorem exec_resolveName_of_known (hs : w.identities.get? name = some s) : exec (r.resolveName name) w = (.ok s, w) := by
  unfold resolveName
  rw [exec_bind, exec_get]
  simp only [hs, exec_pure]

/-- What is known for a name is what it is resolved to, and nothing changes. -/
theorem exec_resolve_of_known (hs : w.identities.known? name base = some s) : exec (r.resolve name base) w = (.ok s, w) := by
  obtain ⟨n, hn, hget⟩ := Option.bind_eq_some_iff.mp hs
  cases base with
  | none =>
    obtain rfl := Option.some.inj hn
    exact exec_resolveName_of_known hget
  | some base =>
    by_cases hname : Syntax.isRelative name = true
    · simp only [Identities.rewritten?, if_pos hname] at hn
      obtain ⟨b, hb, hjoin⟩ := Option.bind_eq_some_iff.mp hn
      simp only [resolve, if_pos hname, exec_bind, exec_resolveName_of_known hb, exec_ofExcept, toOption_eq_some_iff.mp hjoin,
        mapError_ok, exec_resolveName_of_known hget]
    · simp only [Identities.rewritten?, if_neg hname] at hn
      obtain rfl := Option.some.inj hn
      simp only [resolve, if_neg hname, exec_resolveName_of_known hget]

/-- What a name has been resolved to is known for it. -/
theorem known_of_resolve (hs : exec (r.resolve name base) w = (.ok s, w')) : w'.identities.known? name base = some s := by
  cases base with
  | none => exact known_of_resolveName hs
  | some base =>
    by_cases hname : Syntax.isRelative name = true
    · simp only [resolve, if_pos hname] at hs
      obtain ⟨b, w₁, hbase, hs⟩ := exec_bind_eq_ok.mp hs
      obtain ⟨url, w₂, hjoin, hs⟩ := exec_bind_eq_ok.mp hs
      rw [exec_ofExcept] at hjoin
      obtain ⟨hurl, rfl⟩ := Prod.mk.inj hjoin
      have hknown := ((learning_resolveName r url).of_exec hs).known base b (known_of_resolveName hbase)
      simp only [Identities.known?, Identities.rewritten?, if_pos hname, hknown, Option.bind_some,
        toOption_eq_some_iff.mpr (mapError_eq_ok_iff.mp hurl)]
      exact known_of_resolveName hs
    · simp only [resolve, if_neg hname] at hs
      simp only [Identities.known?, Identities.rewritten?, if_neg hname]
      exact known_of_resolveName hs

end Resolver

namespace Loader

/-- What is known about names only grows: in every run entries stay as they are, and new ones come behind them. What a name has been
resolved to is what is known for the name that it is rewritten to, and after every run that follows it is resolved to the same source
again, which changes nothing any more. -/
theorem resolve_of_onward (l : Loader) :
    (∀ w w', l.Onward w w' → w.identities.entries <+: w'.identities.entries) ∧
      ∀ name base w s w₁, exec (l.resolve name base) w = (.ok s, w₁) →
        w₁.identities.known? name base = some s ∧ ∀ w', l.Onward w₁ w' → exec (l.resolve name base) w' = (.ok s, w') := by
  have hgrows {w w' : World} (hrun : l.Onward w w') : w.identities.entries <+: w'.identities.entries :=
    l.resolver.carries_growth.onward hrun
  refine ⟨fun w w' => hgrows, fun name base w s w₁ hs => ?_⟩
  have hknown := Resolver.known_of_resolve hs
  exact ⟨hknown, fun w' hrun => Resolver.exec_resolve_of_known (Identities.known?_of_grown (hgrows hrun) hknown)⟩

/-- A module is resolved from its base; it keeps its source, though the base is compiled and then all pages vanish. -/
theorem resolve_of_onward_pages :
    let l : Loader := ⟨.standard, .search ["/"], .eraser .standard true, .memory⟩
    ∃ w₁ w', exec (l.resolve "./b.ts" (some "http://h/a.ts")) (Compiler.pagesWorld "import './b';" "http://h/b.ts") =
        (.ok ⟨"http://h/b.ts", ""⟩, w₁) ∧
      l.Onward w₁ w' ∧ w'.host.pages = [] ∧ exec (l.resolve "./b.ts" (some "http://h/a.ts")) w' = (.ok ⟨"http://h/b.ts", ""⟩, w') := by
  intro l
  have hfound : (exec (l.resolve "./b.ts" (some "http://h/a.ts")) (Compiler.pagesWorld "import './b';" "http://h/b.ts")).1.toOption =
      some ⟨"http://h/b.ts", ""⟩ := by
    decide +kernel
  cases hexec : exec (l.resolve "./b.ts" (some "http://h/a.ts")) (Compiler.pagesWorld "import './b';" "http://h/b.ts") with
  | mk x w₁ =>
    rw [hexec] at hfound
    obtain rfl := toOption_eq_some_iff.mp hfound
    have hrun := Onward.outside (.request (.here : l.Onward w₁ w₁) (.compile "http://h/a.ts")) (plainWorld []).host []
    exact ⟨w₁, _, rfl, hrun, rfl, ((l.resolve_of_onward).2 _ _ _ _ w₁ hexec).2 _ hrun⟩

end Loader

end ScriptLoader
