import Mathlib.Logic.Function.Basic
import Mathlib.Logic.Relation
import ScriptLoader.Proofs.Loader.Keeping
import ScriptLoader.Proofs.Loader.Stages

/-!
# Loaders that share a cache

Loaders with caches in one memory and one directory answer requests stage by stage, in any order, while everything outside the directory
may change between two stages (`System.Step`). Each entry they keep was made from a source that one of them knows, and what a
request has come to is always in keeping with what its loader knows (`Loader.InKeeping`). So code is never stale and never that of
another source: it is what the eraser makes of the source that the loader knows under the name (`code_of_reachable`).
-/

namespace ScriptLoader

open Action Cache Files FileSystem

/-- The eraser makes this code of the content of a source. -/
def Source.Erases (s : Source) (code : String) : Prop := ∃ erased, Syntax.erase s.content = .ok erased ∧ erased.code = code

/-! ## One request -/

/-- The source of `n` is compiled to answer a request. -/
def Loader.Compiles (l : Loader) (n : String) : Request → Prop
  | .compile name => n = name
  | .openResource name => l.target? name = some n ∨ (l.target? name = none ∧ l.fallback? name = some n)
  | .resolve _ _ => False

/-- What a request has come to is in keeping with what the loader knows about names, and code comes from an entry that has been
made. -/
inductive Loader.InKeeping (l : Loader) (known : Identities) (made : Entry → Prop) (request : Request) : Stage → Prop where
  | asked : InKeeping l known made request .asked
  | resolving {n : String} (hn : l.Compiles n request) : InKeeping l known made request (.resolving n)
  | looking {n : String} {s : Source} (hn : l.Compiles n request) (hs : known.get? n = some s) :
      InKeeping l known made request (.looking n s)
  | compiling {n : String} {s : Source} (hn : l.Compiles n request) (hs : known.get? n = some s) :
      InKeeping l known made request (.compiling n s)
  | storing {n : String} {s : Source} {code : String} (hn : l.Compiles n request) (hs : known.get? n = some s)
      (hmade : made (.ofSource s code)) : InKeeping l known made request (.storing n s code)
  | compiled {n : String} {s : Source} {code : String} (hn : l.Compiles n request) (hs : known.get? n = some s)
      (hmade : made (.ofSource s code)) : InKeeping l known made request (.compiled n (.ok code))
  | failed {n : String} {f : Failure} (hn : l.Compiles n request) : InKeeping l known made request (.compiled n (.error f))
  | answered {a : Except Failure Answer} (hcode : ∀ code, a ≠ .ok (.code code))
      (hopen : ∀ name, request = .openResource name → l.target? name = none) : InKeeping l known made request (.answered a)

namespace Loader.InKeeping

variable {l : Loader} {known known' : Identities} {made made' : Entry → Prop} {request : Request} {stage : Stage}

theorem mono (h : l.InKeeping known made request stage) (hknown : ∀ n s, known.get? n = some s → known'.get? n = some s)
    (hmade : ∀ e, made e → made' e) : l.InKeeping known' made' request stage := by
  cases h with
  | asked => exact .asked
  | resolving hn => exact .resolving hn
  | looking hn hs => exact .looking hn (hknown _ _ hs)
  | compiling hn hs => exact .compiling hn (hknown _ _ hs)
  | storing hn hs he => exact .storing hn (hknown _ _ hs) (hmade _ he)
  | compiled hn hs he => exact .compiled hn (hknown _ _ hs) (hmade _ he)
  | failed hn => exact .failed hn
  | answered hcode hopen => exact .answered hcode hopen

/-- The name that is compiled, and the source that its code comes from. -/
theorem of_compiled {n : String} {code : String} (h : l.InKeeping known made request (.compiled n (.ok code))) :
    l.Compiles n request ∧ ∃ s, known.get? n = some s ∧ made (.ofSource s code) := by
  cases h with
  | compiled hn hs he => exact ⟨hn, _, hs, he⟩

end Loader.InKeeping

namespace Stage

variable {l : Loader} {request : Request} {stage : Stage} {w : World}

theorem after_of_exec {α : Type} {a : Action α} {w w' : World} {r : Except Failure α} (next : Except Failure α → Stage)
    (h : exec a w = (r, w')) : after a w next = (next r, w') := by
  rw [after, h]

/-- To go on with a request is to learn, unless code is stored. -/
theorem learns_next {c : Config} {checks : Bool} (hc : l.compiler = .eraser c checks)
    (hstage : ∀ n s code, stage ≠ .storing n s code) : Learns l.resolver w (next l request stage w).2 := by
  cases stage with
  | asked =>
    cases request with
    | compile name => exact .refl w
    | resolve name base => exact l.resolver.learning_resolve name base w
    | openResource name =>
      rw [next]
      cases l.target? name with
      | some n => exact .refl w
      | none =>
        simp only [after, Loader.exec_passThrough]
        exact learns_events w _
  | resolving n => exact l.resolver.learning_resolve n none w
  | looking n s => exact l.learning_cached s w
  | compiling n s =>
    rw [next, after, exec_bind, exec_record, hc]
    exact (learns_events w _).trans (Compiler.learning_erase l.resolver c checks n _)
  | storing n s code => exact absurd rfl (hstage n s code)
  | compiled n r => exact .refl w
  | answered a => exact .refl w

/-- What has become of a request is in keeping with what the loader knows, when entries are made from known sources. -/
theorem inKeeping_next {c : Config} {checks : Bool} {made : Entry → Prop} {loc : Location} (hc : l.compiler = .eraser c checks)
    (hcache : l.cache.StandsAt w.host loc) (hkeeps : Keeping made loc w)
    (hmade : ∀ n s erased, (next l request stage w).2.identities.get? n = some s → Syntax.erase s.content = .ok erased →
      made (.ofSource s erased.code))
    (h : l.InKeeping w.identities made request stage) :
    l.InKeeping (next l request stage w).2.identities made request (next l request stage w).1 := by
  cases h with
  | asked =>
    cases request with
    | compile name => exact .resolving rfl
    | resolve name base =>
      rw [next, after]
      refine .answered (fun code => ?_) (fun name hname => Request.noConfusion hname)
      cases (exec (l.resolve name base) w).1 <;> simp [Except.map]
    | openResource name =>
      rw [next]
      cases htarget : l.target? name with
      | some n => exact .resolving (.inl htarget)
      | none =>
        have hopen (m : String) (hm : Request.openResource name = .openResource m) : l.target? m = none :=
          Request.openResource.inj hm ▸ htarget
        simp only [after]
        rcases (exec (l.passThrough name) w).1 with f | _ | bs
        · refine .answered (fun code => ?_) hopen
          cases Loader.answer (.error f) <;> simp [Except.map]
        · simp only
          cases hfallback : l.fallback? name with
          | some n => exact .resolving (.inr ⟨htarget, hfallback⟩)
          | none => exact .answered (fun code => by simp) hopen
        · exact .answered (fun code => by simp [Loader.answer, Except.map]) hopen
  | @resolving n hn =>
    rw [next]
    rcases hexec : exec (l.resolve n none) w with ⟨f | s, w'⟩
    · rw [after_of_exec _ hexec]
      exact .failed hn
    · rw [after_of_exec _ hexec]
      exact .looking hn (Resolver.known_of_resolveName hexec)
  | @looking n s hn hs =>
    rw [next]
    have hlearns : Learns l.resolver w (exec (l.cached s) w).2 := l.learning_cached s w
    rcases hexec : exec (l.cached s) w with ⟨f | found, w'⟩
    · rw [after_of_exec _ hexec]
      exact .failed hn
    · rw [hexec] at hlearns
      rw [after_of_exec _ hexec]
      cases found with
      | none => exact .compiling hn (hlearns.known _ _ hs)
      | some code => exact .compiled hn (hlearns.known _ _ hs) (hkeeps.cached hcache hexec)
  | @compiling n s hn hs =>
    have hlearns : Learns l.resolver w (next l request (.compiling n s) w).2 := learns_next hc (by simp)
    rw [next] at hmade hlearns ⊢
    rcases hexec : exec (do record (.compiling n); l.compiler.compile l.resolver n) w with ⟨f | code, w'⟩
    · rw [after_of_exec _ hexec]
      exact .failed hn
    · rw [after_of_exec _ hexec] at hmade hlearns ⊢
      rw [exec_bind, exec_record, hc] at hexec
      -- the name is resolved once more, but the loader knows its source already
      obtain ⟨t, erased, ht, herased, rfl⟩ := Compiler.known_of_erase hexec
      obtain rfl : t = s := Option.some.inj (ht.symm.trans (hlearns.known n s hs))
      exact .storing hn ht (hmade n t erased ht herased)
  | @storing n s code hn hs he =>
    have hids := (hkeeps.store hcache he).2.identities
    rw [next]
    rcases hexec : exec (l.store s code) w with ⟨f | _, w'⟩
    · rw [after_of_exec _ hexec]
      exact .failed hn
    · rw [hexec] at hids
      rw [after_of_exec _ hexec]
      exact .compiled hn (hids ▸ hs) he
  | compiled hn hs he => exact .compiled hn hs he
  | failed hn => exact .failed hn
  | answered hcode hopen => exact .answered hcode hopen

/-- To go on with a request keeps the entries good, changes no link, and forgets nothing. -/
theorem keeping_next {c : Config} {checks : Bool} {made : Entry → Prop} {loc : Location} (hc : l.compiler = .eraser c checks)
    (hcache : l.cache.StandsAt w.host loc) (hkeeps : Keeping made loc w) (h : l.InKeeping w.identities made request stage) :
    Keeping made loc (next l request stage w).2 ∧ SameLinks w.host.files (next l request stage w).2.host.files ∧
      (next l request stage w).2.host.cwd = w.host.cwd ∧
      ∀ n s, w.identities.get? n = some s → (next l request stage w).2.identities.get? n = some s := by
  by_cases hstage : ∃ n s code, stage = .storing n s code
  · obtain ⟨n, s, code, rfl⟩ := hstage
    cases h with
    | storing hn hs he =>
      obtain ⟨hstored, hstores⟩ := hkeeps.store hcache he
      refine ⟨hstored, hstores.links, hstores.cwd, fun m t hm => ?_⟩
      show (exec (l.store s code) w).2.identities.get? m = some t
      rw [hstores.identities]
      exact hm
  · have hlearns : Learns l.resolver w (next l request stage w).2 :=
      learns_next hc fun n s code heq => hstage ⟨n, s, code, heq⟩
    refine ⟨hkeeps.learns hlearns, ?_, congrArg Host.cwd hlearns.host, hlearns.known⟩
    rw [hlearns.host]
    exact .refl _

/-- A request that is answered with code compiles it. -/
theorem conclude_eq_code {r : Except Failure String} {code : String} (h : conclude l request r = .ok (.code code)) :
    r = .ok code ∧ ∀ name, request ≠ .openResource name := by
  have hmap (h : r.map Answer.code = .ok (.code code)) : r = .ok code := by
    cases r with
    | error f => nomatch h
    | ok code' => rw [Answer.code.inj (Except.ok.inj h)]
  cases request with
  | openResource name =>
    rw [conclude] at h
    cases hopened : Loader.answer ((r.bind (encodeText l.config.encoding)).map some) with
    | error f =>
      rw [hopened] at h
      nomatch h
    | ok found =>
      rw [hopened] at h
      nomatch h
  | compile name => exact ⟨hmap h, nofun⟩
  | resolve name base => exact ⟨hmap h, nofun⟩

/-- A request that is answered with bytes opens a name, and what it compiles is written as these bytes. -/
theorem conclude_eq_bytes {r : Except Failure String} {bs : Bytes} (h : conclude l request r = .ok (.bytes (some bs))) :
    ∃ name code, request = .openResource name ∧ r = .ok code ∧ encodeText l.config.encoding code = .ok bs := by
  cases request with
  | openResource name =>
    have hfailed (f : Failure) : (Loader.answer (.error f)).map Answer.bytes ≠ .ok (.bytes (some bs)) := by
      cases f <;> nofun
    rcases r with f | code
    · exact absurd h (hfailed f)
    · cases hbytes : encodeText l.config.encoding code with
      | error f =>
        simp only [conclude, Except.bind, hbytes] at h
        exact absurd h (hfailed f)
      | ok bs' =>
        simp only [conclude, Except.bind, hbytes] at h
        obtain rfl : bs' = bs := Option.some.inj (Answer.bytes.inj (Except.ok.inj h))
        exact ⟨name, code, rfl, rfl, hbytes⟩
  | compile name => cases r <;> nomatch h
  | resolve name base => cases r <;> nomatch h

/-- Only what has been compiled is answered with code. -/
theorem code_of_answer? {known : Identities} {made : Entry → Prop} {code : String} (h : l.InKeeping known made request stage)
    (hanswer : stage.answer? l request = some (.ok (.code code))) :
    ∃ n, stage = .compiled n (.ok code) ∧ request = .compile n := by
  have hcompiled {n : String} {r : Except Failure String} (hn : l.Compiles n request)
      (hanswer : conclude l request r = .ok (.code code)) : r = .ok code ∧ request = .compile n := by
    obtain ⟨hr, hopen⟩ := conclude_eq_code hanswer
    cases request with
    | openResource name => exact absurd rfl (hopen name)
    | compile name => exact ⟨hr, congrArg Request.compile hn.symm⟩
    | resolve name base => exact hn.elim
  cases h with
  | compiled hn =>
    obtain ⟨hr, hrequest⟩ := hcompiled hn (Option.some.inj hanswer)
    exact ⟨_, congrArg _ hr, hrequest⟩
  | failed hn => nomatch (hcompiled hn (Option.some.inj hanswer)).1
  | answered hcode => exact absurd (Option.some.inj hanswer) (hcode code)
  | _ => nomatch hanswer

end Stage

/-! ## Many requests to many loaders -/

/-- A request to one of several loaders, and how far it has come. -/
structure Call (ι : Type) where
  loader : ι
  request : Request
  stage : Stage

/-- The answer to a request, once it is there. -/
def Call.answer? {ι : Type} (loaders : ι → Loader) (call : Call ι) : Option (Except Failure Answer) :=
  call.stage.answer? (loaders call.loader) call.request

/-- Loaders at work side by side: what they find outside themselves, what each of them knows about names, the memory that they share, and
the requests to them. -/
structure System (ι κ : Type) where
  host : Host
  identities : ι → Identities
  memory : Memory
  calls : κ → Option (Call ι)

namespace System

variable {ι κ : Type}

/-- The world of one of the loaders. -/
def world (sys : System ι κ) (i : ι) : World := ⟨sys.host, sys.identities i, sys.memory, []⟩

/-- Nothing is known, kept or asked, and the directory is empty or missing. -/
structure Fresh (loaders : ι → Loader) (loc : Location) (sys : System ι κ) : Prop where
  identities : ∀ i n, (sys.identities i).get? n = none
  memory : sys.memory = []
  calls : ∀ k, sys.calls k = none
  directory : ∀ n, sys.host.files.node? (loc ++ [n]) = none
  stands : ∀ i, (loaders i).cache.StandsAt sys.host loc

/-- One of the loaders knows a source. -/
def Knows (sys : System ι κ) (s : Source) : Prop := ∃ i n, (sys.identities i).get? n = some s

/-- An entry with the code that the eraser makes of a source that one of the loaders knows. -/
def Made (sys : System ι κ) (e : Entry) : Prop :=
  ∃ s erased, sys.Knows s ∧ Syntax.erase s.content = .ok erased ∧ e = .ofSource s erased.code

/-- What holds at any time: all entries have been made by the loaders, and all requests are in keeping with what is known. -/
structure Safe (loaders : ι → Loader) (loc : Location) (sys : System ι κ) : Prop where
  stands : ∀ i, (loaders i).cache.StandsAt sys.host loc
  keeps : ∀ i, Keeping sys.Made loc (sys.world i)
  calls : ∀ k call, sys.calls k = some call →
    (loaders call.loader).InKeeping (sys.identities call.loader) sys.Made call.request call.stage

section Safety

variable {loaders : ι → Loader} {loc : Location} {sys sys' : System ι κ}

theorem safe_of_fresh (h : Fresh loaders loc sys) : Safe loaders loc sys := by
  refine ⟨h.stands, fun i => ⟨fun n target hlink => ?_, fun n bs e hfile => ?_, fun uri f code hlookup => ?_⟩, fun k call hcall => ?_⟩
  · exact absurd ((h.directory n).symm.trans hlink) (by simp)
  · exact absurd ((h.directory n).symm.trans hfile) (by simp)
  · replace hlookup : sys.memory.lookup uri = some (f, code) := hlookup
    rw [h.memory] at hlookup
    nomatch hlookup
  · exact absurd ((h.calls k).symm.trans hcall) (by simp)

/-- What has been made stays made while nothing that is known is forgotten. -/
theorem Made.mono {e : Entry} (h : sys.Made e)
    (hknown : ∀ i n s, (sys.identities i).get? n = some s → (sys'.identities i).get? n = some s) : sys'.Made e := by
  obtain ⟨s, erased, ⟨i, n, hs⟩, herased, rfl⟩ := h
  exact ⟨s, erased, ⟨i, n, hknown i n s hs⟩, herased, rfl⟩

/-- Sources with the same fingerprint have the same content, as far as sources are known. -/
def Distinguished (sys : System ι κ) : Prop :=
  ∀ s t, sys.Knows s → sys.Knows t → s.fingerprint = t.fingerprint → s.content = t.content

theorem erases_of_made {i : ι} {n code : String} {s : Source} (hsha : sys.Distinguished)
    (hs : (sys.identities i).get? n = some s) (hmade : sys.Made (.ofSource s code)) : s.Erases code := by
  obtain ⟨t, erased, ht, herased, heq⟩ := hmade
  obtain ⟨-, hfingerprint, rfl⟩ := Entry.mk.inj heq
  exact ⟨erased, hsha s t ⟨i, n, hs⟩ ht hfingerprint ▸ herased, rfl⟩

end Safety

variable [DecidableEq ι] [DecidableEq κ]

/-- A request goes on by one stage. -/
def advance (loaders : ι → Loader) (sys : System ι κ) (k : κ) (call : Call ι) : System ι κ :=
  let p := Stage.next (loaders call.loader) call.request call.stage (sys.world call.loader)
  { host := p.2.host
    identities := Function.update sys.identities call.loader p.2.identities
    memory := p.2.memory
    calls := Function.update sys.calls k (some { call with stage := p.1 }) }

/-- What may happen to loaders whose caches share the directory at `loc`: everything outside the directory may change, a new request may
be made, and any request may go on. -/
inductive Step (loaders : ι → Loader) (loc : Location) : System ι κ → System ι κ → Prop where
  | change {sys : System ι κ} (h : Host) (hkept : ∀ n, h.files.node? (loc ++ [n]) = sys.host.files.node? (loc ++ [n]))
      (hstands : ∀ i, (loaders i).cache.StandsAt h loc) : Step loaders loc sys { sys with host := h }
  | ask {sys : System ι κ} (k : κ) (i : ι) (request : Request) (hfree : sys.calls k = none) :
      Step loaders loc sys { sys with calls := Function.update sys.calls k (some ⟨i, request, .asked⟩) }
  | advance {sys : System ι κ} {k : κ} {call : Call ι} (hcall : sys.calls k = some call) :
      Step loaders loc sys (sys.advance loaders k call)

/-- One step after the other. -/
def Runs (loaders : ι → Loader) (loc : Location) : System ι κ → System ι κ → Prop := Relation.ReflTransGen (Step loaders loc)

section Runs

variable {loaders : ι → Loader} {loc : Location} {sys sys' : System ι κ}

/-- A request that goes on leaves everything safe. -/
theorem safe_advance {k : κ} {call : Call ι} (hloaders : ∀ i, ∃ c checks, (loaders i).compiler = .eraser c checks)
    (h : Safe loaders loc sys) (hcall : sys.calls k = some call) : Safe loaders loc (sys.advance loaders k call) := by
  obtain ⟨c, checks, hc⟩ := hloaders call.loader
  have hcache := h.stands call.loader
  obtain ⟨-, hlinks, hcwd, hknown⟩ := Stage.keeping_next hc hcache (h.keeps _) (h.calls k call hcall)
  have hids (i : ι) (n : String) (s : Source) (hs : (sys.identities i).get? n = some s) :
      ((sys.advance loaders k call).identities i).get? n = some s := by
    simp only [advance, Function.update_apply]
    split
    · rename_i hi
      exact hknown n s (hi ▸ hs)
    · exact hs
  have hmade (e : Entry) (he : sys.Made e) : (sys.advance loaders k call).Made e := he.mono hids
  -- what was safe before is so in terms of what is known now
  have hkeeps := (h.keeps call.loader).mono hmade
  have hcalls := (h.calls k call hcall).mono (fun _ _ hs => hs) hmade
  obtain ⟨hkeeps', -, -, -⟩ := Stage.keeping_next hc hcache hkeeps hcalls
  refine ⟨fun i d hd => ?_, fun i => hkeeps'.congr (fun _ => rfl) rfl, fun k' call' hcall' => ?_⟩
  · show FileSystem.Leads _ (d.start (Stage.next _ _ _ (sys.world call.loader)).2.host.cwd) _ _
    rw [hcwd]
    exact (h.stands i d hd).of_sameLinks hlinks
  · simp only [advance, Function.update_apply] at hcall'
    split at hcall'
    · obtain rfl := Option.some.inj hcall'
      have hnow := Stage.inKeeping_next hc hcache hkeeps (fun n s erased hs herased => ?_) hcalls
      · simpa only [advance, Function.update_self] using hnow
      · refine ⟨s, erased, ⟨call.loader, n, ?_⟩, herased, rfl⟩
        simpa only [advance, Function.update_self] using hs
    · exact (h.calls k' call' hcall').mono (hids call'.loader) hmade

theorem safe_step (hloaders : ∀ i, ∃ c checks, (loaders i).compiler = .eraser c checks) (h : Safe loaders loc sys)
    (hstep : Step loaders loc sys sys') : Safe loaders loc sys' := by
  cases hstep with
  | change host hkept hstands => exact ⟨hstands, fun i => (h.keeps i).congr hkept rfl, h.calls⟩
  | ask k i request hfree =>
    refine ⟨h.stands, h.keeps, fun k' call hcall => ?_⟩
    simp only [Function.update_apply] at hcall
    split at hcall
    · obtain rfl := Option.some.inj hcall
      exact .asked
    · exact h.calls k' call hcall
  | advance hcall => exact safe_advance hloaders h hcall

theorem safe_of_runs (hloaders : ∀ i, ∃ c checks, (loaders i).compiler = .eraser c checks) (hfresh : Fresh loaders loc sys)
    (hruns : Runs loaders loc sys sys') : Safe loaders loc sys' := by
  induction hruns with
  | refl => exact safe_of_fresh hfresh
  | tail _ hstep ih => exact safe_step hloaders ih hstep

/-- No code is stale or that of another source. Loaders with erasers share a memory and a directory, which are empty at first; whatever
changes outside the directory, and in whatever order their requests go on: when a source has been compiled, the code is what the eraser
makes of the content of the source that the loader knows under its name, and when a name has been opened that asks for compiled code, the
bytes are those of such code. -/
theorem erases_of_runs (hloaders : ∀ i, ∃ c checks, (loaders i).compiler = .eraser c checks) (hfresh : Fresh loaders loc sys)
    (hruns : Runs loaders loc sys sys') (hsha : sys'.Distinguished) {k : κ} {call : Call ι} (hcall : sys'.calls k = some call) :
    (∀ code, call.answer? loaders = some (.ok (.code code)) →
      ∃ name s, call.request = .compile name ∧ (sys'.identities call.loader).get? name = some s ∧ s.Erases code) ∧
    (∀ n r bs, call.stage = .compiled n r → call.answer? loaders = some (.ok (.bytes (some bs))) →
      ∃ name s code, call.request = .openResource name ∧ (loaders call.loader).Compiles n call.request ∧
        (sys'.identities call.loader).get? n = some s ∧ s.Erases code ∧
        encodeText (loaders call.loader).config.encoding code = .ok bs) ∧
    (∀ name n a, call.request = .openResource name → (loaders call.loader).target? name = some n → call.answer? loaders = some a →
      ∃ r, call.stage = .compiled n r) := by
  have hsafe := (safe_of_runs hloaders hfresh hruns).calls k call hcall
  rcases call with ⟨i, request, stage⟩
  simp only [Call.answer?] at hsafe ⊢
  refine ⟨fun code hanswer => ?_, fun n r bs hstage hanswer => ?_, fun name n a hname htarget hanswer => ?_⟩
  · obtain ⟨n, rfl, rfl⟩ := Stage.code_of_answer? hsafe hanswer
    obtain ⟨hn, s, hs, hmade⟩ := hsafe.of_compiled
    exact ⟨n, s, rfl, hs, erases_of_made hsha hs hmade⟩
  · subst hstage
    obtain ⟨name, code, rfl, rfl, hbytes⟩ := Stage.conclude_eq_bytes (Option.some.inj hanswer)
    obtain ⟨hn, s, hs, hmade⟩ := hsafe.of_compiled
    exact ⟨name, s, code, rfl, hn, hs, erases_of_made hsha hs hmade, hbytes⟩
  · subst hname
    cases hsafe with
    | compiled hn | failed hn =>
      rcases hn with hn | ⟨hnone, -⟩
      · obtain rfl := Option.some.inj (htarget.symm.trans hn)
        exact ⟨_, rfl⟩
      · exact absurd (hnone.symm.trans htarget) (by simp)
    | answered _ hopen => exact absurd ((hopen name rfl).symm.trans htarget) (by simp)
    | _ => nomatch hanswer

/-- A request goes on by so many stages, and nothing else happens. -/
def proceed (loaders : ι → Loader) (k : κ) : Nat → System ι κ → System ι κ
  | 0, sys => sys
  | n + 1, sys =>
    match sys.calls k with
    | some call => proceed loaders k n (sys.advance loaders k call)
    | none => sys

/-- A new request goes on by so many stages, and nothing else happens. -/
def serve (loaders : ι → Loader) (sys : System ι κ) (k : κ) (i : ι) (request : Request) (n : Nat) : System ι κ :=
  proceed loaders k n { sys with calls := Function.update sys.calls k (some ⟨i, request, .asked⟩) }

theorem runs_proceed (k : κ) (n : Nat) (sys : System ι κ) : Runs loaders loc sys (proceed loaders k n sys) := by
  induction n generalizing sys with
  | zero => exact .refl
  | succ n ih =>
    rw [proceed]
    cases hcall : sys.calls k with
    | some call => exact .head (.advance hcall) (ih _)
    | none => exact .refl

theorem runs_serve {k : κ} (hfree : sys.calls k = none) (i : ι) (request : Request) (n : Nat) :
    Runs loaders loc sys (sys.serve loaders k i request n) :=
  .head (.ask k i request hfree) (runs_proceed k n _)

end Runs

/-! ## A page that is edited -/

namespace Edited

/-- Two loaders that keep code in one memory. -/
def loaders : Bool → Loader := fun _ => ⟨.standard, .table [], .eraser .standard true, .memory⟩

/-- A network with one page. -/
def host (page : String) : Host :=
  { (plainWorld []).host with pages := [("http://h/a.ts", .body (Text.Utf8.encode page.toList))] }

def before : System Bool Nat := ⟨host "a!;", fun _ => .empty, [], fun _ => none⟩

/-- The first loader has compiled the page. -/
def first : System Bool Nat := before.serve loaders 0 false (.compile "http://h/a.ts") 5

/-- The page has been edited. -/
def edited : System Bool Nat := { first with host := host "b!;" }

/-- The second loader has compiled the page. -/
def second : System Bool Nat := edited.serve loaders 1 true (.compile "http://h/a.ts") 5

/-- The first loader has compiled the page again. -/
def third : System Bool Nat := second.serve loaders 2 false (.compile "http://h/a.ts") 5

theorem standsAt (h : Host) (i : Bool) : (loaders i).cache.StandsAt h [] := nofun

theorem runs_before_third : Runs loaders [] before third := by
  have hfiles : first.host.files = ⟨[]⟩ := by decide +kernel
  have hfree₁ : edited.calls 1 = none := Option.isNone_iff_eq_none.mp rfl
  have hfree₂ : second.calls 2 = none := Option.isNone_iff_eq_none.mp rfl
  have hfirst : Runs loaders [] before first := runs_serve rfl false _ 5
  have hedited : Step loaders [] first edited := by
    refine .change _ (fun n => ?_) (standsAt _)
    rw [hfiles]
    rfl
  have hsecond : Runs loaders [] edited second := runs_serve hfree₁ true _ 5
  have hthird : Runs loaders [] second third := runs_serve hfree₂ false _ 5
  exact ((hfirst.tail hedited).trans hsecond).trans hthird

theorem identities_third (i : Bool) :
    third.identities i = ⟨[("http://h/a.ts", ⟨"http://h/a.ts", if i then "b!;" else "a!;"⟩)]⟩ := by
  cases i <;> decide +kernel

theorem distinguished_third : third.Distinguished := by
  have hcontent {s : Source} (hs : third.Knows s) : s.content = "a!;" ∨ s.content = "b!;" := by
    obtain ⟨i, n, hs⟩ := hs
    rw [identities_third, Identities.get?, List.lookup_cons] at hs
    split at hs
    · obtain rfl := Option.some.inj hs
      cases i
      · exact .inl rfl
      · exact .inr rfl
    · cases hs
  have hdiffer : Digest.ofText "a!;" ≠ Digest.ofText "b!;" := by decide +kernel
  intro s t hs ht hfingerprint
  unfold Source.fingerprint at hfingerprint
  rcases hcontent hs with hs | hs <;> rcases hcontent ht with ht | ht <;> rw [hs, ht] at hfingerprint ⊢
  · exact absurd hfingerprint hdiffer
  · exact absurd hfingerprint.symm hdiffer

end Edited

/-- A page is edited between the requests of two loaders, and the first one goes on to serve the code of what it knows. -/
theorem erases_of_runs_edited :
    (∀ i, ∃ c checks, (Edited.loaders i).compiler = .eraser c checks) ∧ Fresh Edited.loaders [] Edited.before ∧
      Runs Edited.loaders [] Edited.before Edited.third ∧ Edited.third.Distinguished ∧
      ∃ call, Edited.third.calls 2 = some call ∧ call.answer? Edited.loaders = some (.ok (.code "a;")) ∧
        ∃ name s, call.request = .compile name ∧ (Edited.third.identities call.loader).get? name = some s ∧ s.Erases "a;" := by
  have hloaders (i : Bool) : ∃ c checks, (Edited.loaders i).compiler = .eraser c checks := ⟨.standard, true, rfl⟩
  have hfresh : Fresh Edited.loaders [] Edited.before :=
    ⟨fun _ _ => rfl, rfl, fun _ => rfl, fun _ => rfl, Edited.standsAt _⟩
  have hanswered : ((Edited.third.calls 2).bind fun call => (call.answer? Edited.loaders).bind Except.toOption) =
      some (.code "a;") := by
    decide +kernel
  obtain ⟨call, hcall, hcode⟩ := Option.bind_eq_some_iff.mp hanswered
  obtain ⟨result, hresult, hcode⟩ := Option.bind_eq_some_iff.mp hcode
  have hanswer : call.answer? Edited.loaders = some (.ok (.code "a;")) := by
    rw [hresult]
    cases result with
    | error f => cases hcode
    | ok a => rw [Option.some.inj hcode]
  have herases := (erases_of_runs hloaders hfresh Edited.runs_before_third Edited.distinguished_third hcall).1 _ hanswer
  exact ⟨hloaders, hfresh, Edited.runs_before_third, Edited.distinguished_third, call, hcall, hanswer, herases⟩

end System

end ScriptLoader
