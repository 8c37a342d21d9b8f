import ScriptLoader.Proofs.Cache.Changes
import ScriptLoader.Proofs.Files.RealPath
import ScriptLoader.Proofs.Loader.Caching
import ScriptLoader.Proofs.Loader.Dialogue
import ScriptLoader.Proofs.Loader.Imports
import ScriptLoader.Proofs.Loader.Stages

/-!
# Answers do not depend on history

A loader with a cache gives the answers of a fresh loader without one, whatever it has been asked before (`Loader.answers_of_setting`). Two
memories are at work, and one invariant holds for both (`Loader.Standing`): the replies to all that is asked are those of the start, and
every entry that the cache has written is good, which means that each name with its URI and its fingerprint would be compiled to its code.
-/

namespace ScriptLoader

open Action Cache Files FileSystem

namespace CodeCache

/-- The cache has an entry at the place for a source, be it for this source or not. -/
def Has (c : CodeCache) (w : World) (s : Source) (e : Entry) : Prop :=
  match c with
  | nowhere => False
  | memory => e.uri = s.uri ∧ w.memory.lookup s.uri = some (e.fingerprint, e.code)
  | disk d => ∃ l bs, w.host.files.Leads ((entryPath d s).start w.host.cwd) (entryPath d s).names l ∧
      w.host.files.node? l = some (.file bs) ∧ Entry.ofBytes? bs = some e
  | failing => False

/-- A cache may turn one host into the other by what it writes, if all that it writes is `fine`. -/
def Alters (c : CodeCache) (fine : Bytes → Prop) (h h' : Host) : Prop :=
  match c with
  | disk d => h' = { h with files := h'.files } ∧ Changes d h.cwd fine h.files h'.files
  | _ => h' = h

variable {c : CodeCache} {fine : Bytes → Prop} {h h' : Host}

theorem Alters.refl (c : CodeCache) (fine : Bytes → Prop) (h : Host) : c.Alters fine h h := by
  cases c with
  | disk d => exact ⟨rfl, .refl d h.cwd fine h.files⟩
  | _ => rfl

theorem Alters.host (halters : c.Alters fine h h') : h' = { h with files := h'.files } := by
  cases c with
  | disk d => exact halters.1
  | _ =>
    obtain rfl : h' = h := halters
    rfl

theorem Alters.mono {fine' : Bytes → Prop} (halters : c.Alters fine h h') (hfine : ∀ bs, fine bs → fine' bs) :
    c.Alters fine' h h' := by
  cases c with
  | disk d => exact ⟨halters.1, halters.2.mono hfine⟩
  | _ => exact halters

end CodeCache

/-- What a cache writes changes nothing in the reply to a question, as is so for names outside its directory. -/
def Question.Outside (r : Resolver) (c : CodeCache) (h : Host) (q : Question) : Prop :=
  ∀ h', c.Alters (fun _ => True) h h' → r.replies (.fresh h') q = r.replies (.fresh h) q

/-- A page is found where the pages are the same. -/
theorem Resolver.findOn_page {r : Resolver} {h h' : Host} {url : String} {ref : Uri.Reference} (hlooks : Address.looksLike url = true)
    (hcheck : Address.check url = .ok ()) (hurl : Uri.Reference.parse "" url = .ok ref) (hscheme : ref.scheme ≠ "file")
    (hpages : h'.pages = h.pages) : r.findOn h' url = r.findOn h url := by
  rw [findOn, findOn, locateOn_of_address h' hlooks hcheck, locateOn_of_address h hlooks hcheck]
  simp only [Bind.bind, Except.bind, Host.sourceOfUrl, hurl, mapError_ok, hscheme, if_false, Host.fetchText, Host.fetch, hpages]

namespace Question

variable {r : Resolver} {c : CodeCache} {h : Host} {url : String} {ref : Uri.Reference}

/-- A page lies outside every directory. -/
theorem outside_page (hlooks : Address.looksLike url = true) (hcheck : Address.check url = .ok ())
    (hurl : Uri.Reference.parse "" url = .ok ref) (hscheme : ref.scheme ≠ "file") : (source url).Outside r c h := by
  intro h' halters
  have hpages : h'.pages = h.pages := by rw [halters.host]
  exact Resolver.findOn_page hlooks hcheck hurl hscheme hpages

/-- A file that is not in the directory of the cache lies outside it, if there are no links in the directory by which the file might be
reached. -/
theorem outside_file {l : Location} {bs : Bytes} (hlooks : Address.looksLike url = true) (hcheck : Address.check url = .ok ())
    (hurl : Uri.Reference.parse "" url = .ok ref) (hscheme : ref.scheme = "file")
    (hl : h.files.locate true h.cwd (Path.ofText (Uri.unescaped ref.path)) = .ok l) (hfile : h.files.node? l = some (.file bs))
    (hplain : ∀ d loc n target, c = .disk d → h.files.Leads (d.start h.cwd) d.names loc →
      h.files.node? (loc ++ [n]) ≠ some (.link target))
    (hout : ∀ d loc n, c = .disk d → h.files.Leads (d.start h.cwd) d.names loc → l ≠ loc ++ [n]) : (source url).Outside r c h := by
  intro h' halters
  have hread : h'.fileBytes (Path.ofText (Uri.unescaped ref.path)) = h.fileBytes (Path.ofText (Uri.unescaped ref.path)) := by
    have hbefore : h.files.read h.cwd (Path.ofText (Uri.unescaped ref.path)) = .ok bs := read_eq_ok_iff.mpr ⟨l, hl, hfile⟩
    cases c with
    | disk d =>
      obtain ⟨hhost, hchanges⟩ := halters
      have hcwd : h'.cwd = h.cwd := by rw [hhost]
      have hways := hchanges.keepsWays fun loc n target => hplain d loc n target rfl
      have hsame : h'.files.node? l = some (.file bs) := by
        cases hchanges l with
        | same same => rw [same, hfile]
        | made missing => simp [hfile] at missing
        | written _ _ _ leads child => exact absurd child (hout d _ _ rfl leads)
      have hafter := read_eq_ok_iff.mpr ⟨l, locate_of_keepsWays hl hways, hsame⟩
      rw [Host.fileBytes, Host.fileBytes, hcwd, hafter, hbefore]
    | _ =>
      obtain rfl : h' = h := halters
      rfl
  show r.findOn h' url = r.findOn h url
  rw [Resolver.findOn, Resolver.findOn, Resolver.locateOn_of_address h' hlooks hcheck, Resolver.locateOn_of_address h hlooks hcheck]
  simp only [Bind.bind, Except.bind, Host.sourceOfUrl, hurl, mapError_ok, hscheme, if_true, Host.readText, hread]

end Question

namespace Loader

/-! ## To compile a source -/

/-- What comes of compiling the source of a name, and the world behind it: the compiler fails, or its code is kept, or the cache has code
already. -/
inductive Compiled (l : Loader) (n : String) (w : World) : Except Failure String × World → Prop where
  | failed {f : Failure} {w' : World} (fails : (Dialogue.compile l.compiler n).run (l.resolver.replies w) = .error f)
      (learns : Learns l.resolver w w') : Compiled l n w (.error f, w')
  | found {s : Source} {code : String} {w₁ w' : World} (source : l.resolver.replies w (.source n) = .ok s)
      (learns : Learns l.resolver w w₁) (hit : exec (l.cached s) w₁ = (.ok (some code), w')) : Compiled l n w (.ok code, w')
  | stored {s : Source} {code : String} {w₁ : World} (source : l.resolver.replies w (.source n) = .ok s)
      (made : (Dialogue.compile l.compiler n).run (l.resolver.replies w) = .ok code) (learns : Learns l.resolver w w₁) :
      Compiled l n w (.ok code, (exec (l.store s code) w₁).2)

theorem compiled {l : Loader} {w : World} (n : String) (hnul : ¬l.HasNulDirectory w.host) (hfiles : l.compiler.LeavesFiles w.host) :
    Compiled l n w (exec (l.compile n) w) := by
  have hnul' {w' : World} (hlearns : Learns l.resolver w w') : ¬l.HasNulDirectory w'.host := by
    rwa [hlearns.host]
  obtain ⟨hresolve, hlearns⟩ := l.resolver.follows_resolve n none w
  replace hresolve : (exec (l.resolve n none) w).1 = l.resolver.replies w (.source n) := hresolve
  replace hlearns : Learns l.resolver w (exec (l.resolve n none) w).2 := hlearns
  unfold Loader.compile
  rw [exec_bind]
  generalize exec (l.resolve n none) w = p at hresolve hlearns ⊢
  obtain ⟨found, w₁⟩ := p
  simp only at hresolve hlearns
  cases found with
  | error f =>
    refine .failed ?_ hlearns
    rw [Dialogue.compile, Dialogue.run_bind]
    show (Dialogue.forward _ (l.resolver.replies w (.source n))).run _ = _
    rw [← hresolve]
    rfl
  | ok s =>
    simp only
    rw [exec_bind]
    have hcached := hlearns.trans (learning_cached l s w₁)
    generalize hexec : exec (l.cached s) w₁ = p at hcached ⊢
    obtain ⟨looked, w₂⟩ := p
    cases looked with
    | error f => exact absurd (failure_of_cached hexec).2 (hnul' hlearns)
    | ok looked =>
      cases looked with
      | some code => exact .found hresolve.symm hlearns hexec
      | none =>
        simp only [exec_bind, exec_record]
        replace hcached := hcached.trans (learns_events w₂ (.compiling n :: w₂.events))
        obtain ⟨hcompile, hlater⟩ := Compiler.exec_compile (r := l.resolver) l.compiler n (hcached.host ▸ hfiles)
        rw [hcached.replies] at hcompile
        generalize exec (l.compiler.compile l.resolver n) _ = p at hcompile hlater ⊢
        obtain ⟨compiled, w₃⟩ := p
        replace hlater := hcached.trans hlater
        cases compiled with
        | error f => exact .failed hcompile.symm hlater
        | ok code =>
          have hstored := Compiled.stored hresolve.symm hcompile.symm hlater
          simp only
          generalize hexec : exec (l.store s code) w₃ = p at hstored ⊢
          obtain ⟨stored, w₄⟩ := p
          cases stored with
          | error f => exact absurd (failure_of_store hexec).2 (hnul' hlater)
          | ok _ => exact hstored

/-! ## Sequences of requests -/

/-- The loader without its cache. -/
def uncached (l : Loader) : Loader := { l with cache := .nowhere }

/-- The answers to requests, one after the other. -/
def answers (l : Loader) : List Request → World → List (Except Failure Answer)
  | [], _ => []
  | request :: requests, w => (exec (request.ask l) w).1 :: answers l requests (exec (request.ask l) w).2

/-- What is asked to answer the requests without a cache. -/
def Asks (l : Loader) (w : World) (requests : List Request) (q : Question) : Prop :=
  ∃ request ∈ requests, q ∈ (Dialogue.request l request).asked (l.resolver.replies w)

/-- The setting of a loader that is asked some questions: it is fresh, there is no NUL in the path of its cache, a command changes
no files, what is asked lies outside the directory of the cache, the cache has no entry that fits a source at the start, and no two
different contents have the same fingerprint. -/
structure Setting (l : Loader) (w : World) (asks : Question → Prop) : Prop where
  fresh : w.identities = .empty
  nul : ¬l.HasNulDirectory w.host
  files : ∀ h', l.cache.Alters (fun _ => True) w.host h' → l.compiler.LeavesFiles h'
  outside : ∀ q, asks q → q.Outside l.resolver l.cache w.host
  stale : ∀ n s e, asks (.source n) → l.resolver.replies w (.source n) = .ok s → l.cache.Has w s e → e.fits s = false
  distinct : ∀ n n' s s', asks (.source n) → asks (.source n') → l.resolver.replies w (.source n) = .ok s →
    l.resolver.replies w (.source n') = .ok s' → s.fingerprint = s'.fingerprint → s.content = s'.content

/-- Every name whose source fits the entry is compiled to its code. -/
def Good (l : Loader) (w : World) (asks : Question → Prop) (e : Entry) : Prop :=
  ∀ n s, asks (.source n) → l.resolver.replies w (.source n) = .ok s → e.fits s = true →
    (Dialogue.compile l.compiler n).run (l.resolver.replies w) = .ok e.code

/-- The bytes of a good entry. -/
def Fine (l : Loader) (w : World) (asks : Question → Prop) (bs : Bytes) : Prop := ∃ e, l.Good w asks e ∧ bs = e.bytes

/-- What holds between requests: the host has changed by good entries alone, so has the memory, and the replies are those of the
start. -/
structure Standing (l : Loader) (w₀ : World) (asks : Question → Prop) (w : World) : Prop where
  host : l.cache.Alters (l.Fine w₀ asks) w₀.host w.host
  memory : l.cache = .memory → ∀ uri fingerprint code, w.memory.lookup uri = some (fingerprint, code) →
    l.Good w₀ asks ⟨uri, fingerprint, code⟩
  replies : ∀ q, asks q → l.resolver.replies w q = l.resolver.replies w₀ q

variable {l : Loader} {w₀ w w' : World} {asks : Question → Prop} {n code : String} {s : Source}

theorem Setting.standing (hset : l.Setting w₀ asks) : l.Standing w₀ asks w₀ := by
  refine ⟨.refl _ _ _, fun hmemory uri fingerprint code hlookup n s hn hs hfits => ?_, fun _ _ => rfl⟩
  have huri : uri = s.uri := by
    simp only [Entry.fits, Bool.and_eq_true, beq_iff_eq] at hfits
    exact hfits.1
  have hstale := hset.stale n s ⟨uri, fingerprint, code⟩ hn hs (by rw [hmemory]; exact ⟨huri, huri ▸ hlookup⟩)
  exact absurd (hfits.symm.trans hstale) (by decide)

namespace Standing

theorem learns (h : l.Standing w₀ asks w) (hlearns : Learns l.resolver w w') : l.Standing w₀ asks w' := by
  refine ⟨?_, fun hmemory => ?_, fun q hq => ?_⟩
  · rw [hlearns.host]
    exact h.host
  · rw [hlearns.memory]
    exact h.memory hmemory
  · rw [hlearns.replies]
    exact h.replies q hq

theorem cwd (h : l.Standing w₀ asks w) : w.host.cwd = w₀.host.cwd := by
  rw [h.host.host]

theorem noNul (h : l.Standing w₀ asks w) (hset : l.Setting w₀ asks) : ¬l.HasNulDirectory w.host :=
  fun hnul => hset.nul (hnul.of_cwd h.cwd)

/-- Code that is found in the cache is what the name is compiled to. -/
theorem cached (h : l.Standing w₀ asks w) (hset : l.Setting w₀ asks) (hn : asks (.source n))
    (hs : l.resolver.replies w₀ (.source n) = .ok s) (hcached : exec (l.cached s) w = (.ok (some code), w')) :
    (Dialogue.compile l.compiler n).run (l.resolver.replies w₀) = .ok code := by
  have hget := code_of_cached hcached
  have hhost := h.host
  have hstale := hset.stale
  cases hkind : l.cache with
  | nowhere =>
    rw [hkind] at hget
    cases hget
  | failing =>
    rw [hkind] at hget
    cases hget
  | memory =>
    rw [hkind] at hget
    have hremembered : CodeCache.remembered w.memory s = some code := Except.ok.inj hget
    unfold CodeCache.remembered at hremembered
    split at hremembered
    · rename_i fingerprint found hlookup
      split at hremembered
      · rename_i hfingerprint
        rw [← Option.some.inj hremembered]
        exact h.memory hkind _ _ _ hlookup n s hn hs (by simp [Entry.fits, hfingerprint])
      · cases hremembered
    · cases hremembered
  | disk d =>
    rw [hkind] at hhost hstale
    have hfound := diskGet_of_cached hkind hcached
    obtain ⟨bs, e, hread, he, hfits, rfl⟩ := read_of_diskGet hfound
    rw [h.cwd] at hread
    rcases hhost.2.read hread with ⟨e', hgood, rfl⟩ | ⟨place, hleads, hnode⟩
    · rw [Entry.ofBytes?_bytes] at he
      obtain rfl := Option.some.inj he
      exact hgood n s hn hs hfits
    · exact absurd (hfits.symm.trans (hstale n s e hn hs ⟨place, bs, hleads, hnode, he⟩)) (by decide)

/-- Hosts that a cache has altered give the same replies, when nothing more has been learned. -/
theorem replies_of_alters (h : l.Standing w₀ asks w) (hset : l.Setting w₀ asks) (hidentities : w'.identities = w.identities)
    (halters : l.cache.Alters (l.Fine w₀ asks) w₀.host w'.host) (q : Question) (hq : asks q) :
    l.resolver.replies w' q = l.resolver.replies w₀ q := by
  have houtside := hset.outside q hq w'.host (halters.mono fun _ _ => trivial)
  have hbefore := h.replies q hq
  have hstart : l.resolver.replies w₀ = l.resolver.replies (.fresh w₀.host) := by
    funext q
    cases q with
    | source name =>
      show l.resolver.nameOn w₀.host w₀.identities name = _
      rw [hset.fresh]
      rfl
    | bytes name => rfl
    | outcome words input timeout => rfl
  rw [hstart] at hbefore ⊢
  cases q with
  | source name =>
    show l.resolver.nameOn w'.host w'.identities name = _
    replace hbefore : l.resolver.nameOn w.host w.identities name = _ := hbefore
    rw [Resolver.nameOn, hidentities]
    cases hknown : w.identities.get? name with
    | some t =>
      rw [Resolver.nameOn, hknown] at hbefore
      exact hbefore
    | none => exact houtside
  | bytes name => exact houtside
  | outcome words input timeout => exact houtside

/-- Code that a name is compiled to makes a good entry. -/
theorem good_ofSource (hset : l.Setting w₀ asks) (hn : asks (.source n)) (hs : l.resolver.replies w₀ (.source n) = .ok s)
    (hcode : (Dialogue.compile l.compiler n).run (l.resolver.replies w₀) = .ok code) : l.Good w₀ asks (.ofSource s code) := by
  intro n' s' hn' hs' hfits
  obtain ⟨huri, hfingerprint⟩ := (Entry.fits_ofSource_iff s s' code).mp hfits
  have hcontent := hset.distinct n n' s s' hn hn' hs hs' hfingerprint
  have hsame : s = s' := by
    cases s
    cases s'
    simp_all
  have hcompile := Dialogue.toOption_compile ((hs'.trans (hsame ▸ hs.symm)) : _ = l.resolver.replies w₀ (.source n)) l.compiler
  rw [hcode] at hcompile
  exact toOption_eq_some_iff.mp hcompile

theorem store (h : l.Standing w₀ asks w) (hset : l.Setting w₀ asks) (hgood : l.Good w₀ asks (.ofSource s code)) :
    l.Standing w₀ asks (exec (l.store s code) w).2 := by
  obtain ⟨es, hexec⟩ := exec_tolerate ("Could not cache compiled code for " ++ s.uri) () (l.cache.put s code) w
  -- what the request to the cache does
  have hput : l.cache.Alters (l.Fine w₀ asks) w₀.host (exec (l.cache.put s code) w).2.host ∧
      (exec (l.cache.put s code) w).2.identities = w.identities ∧
      (l.cache = .memory → ∀ uri fingerprint code', (exec (l.cache.put s code) w).2.memory.lookup uri = some (fingerprint, code') →
        l.Good w₀ asks ⟨uri, fingerprint, code'⟩) := by
    have hhost := h.host
    cases hkind : l.cache with
    | nowhere =>
      rw [hkind] at hhost
      exact ⟨hhost, rfl, fun hmemory => by cases hmemory⟩
    | failing =>
      rw [hkind] at hhost
      exact ⟨hhost, rfl, fun hmemory => by cases hmemory⟩
    | memory =>
      rw [hkind] at hhost
      refine ⟨hhost, rfl, fun _ uri fingerprint code' hlookup => ?_⟩
      replace hlookup : (CodeCache.remember w.memory s code).lookup uri = some (fingerprint, code') := hlookup
      rw [lookup_remember] at hlookup
      split at hlookup
      · rename_i huri
        obtain ⟨rfl, rfl⟩ := Prod.mk.inj (Option.some.inj hlookup)
        exact huri ▸ hgood
      · exact h.memory hkind _ _ _ hlookup
    | disk d =>
      rw [hkind] at hhost
      rw [exec_put_disk]
      have hchanges := hhost.2.put h.cwd ⟨_, hgood, rfl⟩ (putResult_diskPut w.host d s code)
      exact ⟨⟨congrArg (fun h : Host => { h with files := (diskPut w.host d s code).1 }) hhost.1, hchanges⟩, rfl,
        fun hmemory => by cases hmemory⟩
  rw [Loader.store, hexec]
  exact ⟨hput.1, hput.2.2, h.replies_of_alters hset hput.2.1 hput.1⟩

/-! ## Requests -/

/-- A name is compiled to what it would be compiled to at the start without a cache. -/
theorem compile (h : l.Standing w₀ asks w) (hset : l.Setting w₀ asks)
    (hasks : ∀ q ∈ (Dialogue.compile l.compiler n).asked (l.resolver.replies w₀), asks q) :
    (exec (l.compile n) w).1 = (Dialogue.compile l.compiler n).run (l.resolver.replies w₀) ∧
      l.Standing w₀ asks (exec (l.compile n) w).2 := by
  have hn : asks (.source n) := hasks _ List.mem_cons_self
  have hrun : (Dialogue.compile l.compiler n).run (l.resolver.replies w) = _ :=
    Dialogue.run_congr fun q hq => h.replies q (hasks q hq)
  have hcompiled := compiled n (h.noNul hset) (hset.files _ (h.host.mono fun _ _ => trivial))
  generalize exec (l.compile n) w = p at hcompiled
  cases hcompiled with
  | failed fails learns => exact ⟨fails.symm.trans hrun, h.learns learns⟩
  | found source learns hit =>
    rw [h.replies _ hn] at source
    exact ⟨((h.learns learns).cached hset hn source hit).symm, (h.learns learns).learns (Learning.of_exec (learning_cached l _) hit)⟩
  | stored source made learns =>
    rw [h.replies _ hn] at source
    rw [hrun] at made
    exact ⟨made.symm, (h.learns learns).store hset (good_ofSource hset hn source made)⟩

theorem load (h : l.Standing w₀ asks w) (hset : l.Setting w₀ asks)
    (hasks : ∀ q ∈ (Dialogue.load l n).asked (l.resolver.replies w₀), asks q) :
    (exec (some <$> l.load n) w).1 = (Dialogue.load l n).run (l.resolver.replies w₀) ∧
      l.Standing w₀ asks (exec (some <$> l.load n) w).2 := by
  rw [Dialogue.load, Dialogue.asked_bind] at hasks
  obtain ⟨hcompile, hstanding⟩ := h.compile hset fun q hq => hasks q (List.mem_append_left _ hq)
  rw [Stage.exec_load, hcompile, Dialogue.load, Dialogue.run_bind]
  refine ⟨?_, hstanding⟩
  cases (Dialogue.compile l.compiler n).run (l.resolver.replies w₀) with
  | error f => rfl
  | ok code => rw [Dialogue.forward, Dialogue.run_done, Except.bind]

theorem openName (h : l.Standing w₀ asks w) (hset : l.Setting w₀ asks)
    (hasks : ∀ q ∈ (Dialogue.openName l n).asked (l.resolver.replies w₀), asks q) :
    (exec (l.openName n) w).1 = (Dialogue.openName l n).run (l.resolver.replies w₀) ∧
      l.Standing w₀ asks (exec (l.openName n) w).2 := by
  rw [openName_eq]
  unfold Dialogue.openName at hasks ⊢
  cases htarget : l.target? n with
  | some m =>
    rw [htarget] at hasks
    exact h.load hset hasks
  | none =>
    simp only [htarget] at hasks ⊢
    rw [Dialogue.asked_bind] at hasks
    have hn : asks (.bytes n) := hasks _ (List.mem_append_left _ List.mem_cons_self)
    have hbytes : l.lookup.open? w.host n = l.resolver.replies w₀ (.bytes n) := h.replies _ hn
    rw [exec_bind, exec_passThrough, hbytes, Dialogue.run_bind]
    replace hasks := fun q hq => hasks q (List.mem_append_right _ hq)
    have hrun : (Dialogue.ask (.bytes n) Dialogue.done).run (l.resolver.replies w₀) = l.resolver.replies w₀ (.bytes n) := rfl
    rw [hrun] at hasks ⊢
    replace h := h.learns (learns_events w (.opened n :: w.events))
    cases hreply : l.resolver.replies w₀ (.bytes n) with
    | error f => exact ⟨rfl, h⟩
    | ok found =>
      cases found with
      | some bs => exact ⟨rfl, h⟩
      | none =>
        cases hfallback : l.fallback? n with
        | none => exact ⟨rfl, h⟩
        | some m =>
          simp only [hreply, hfallback, Dialogue.forward] at hasks
          exact h.load hset hasks

/-- A request is answered as it would be at the start without a cache. -/
theorem request (h : l.Standing w₀ asks w) (hset : l.Setting w₀ asks) (request : Request)
    (hasks : ∀ q ∈ (Dialogue.request l request).asked (l.resolver.replies w₀), asks q) :
    (exec (request.ask l) w).1 = (Dialogue.request l request).run (l.resolver.replies w₀) ∧
      l.Standing w₀ asks (exec (request.ask l) w).2 := by
  cases request with
  | openResource name =>
    obtain ⟨es, hexec⟩ := exec_openResource l name w
    rw [Dialogue.request, Dialogue.asked_andThen] at hasks
    obtain ⟨hopen, hstanding⟩ := h.openName hset fun q hq => hasks q (List.mem_append_left _ hq)
    rw [Request.ask, exec_map, hexec, hopen, Dialogue.request, Dialogue.run_andThen, Dialogue.run_done]
    exact ⟨rfl, hstanding.learns (learns_events _ es)⟩
  | compile name =>
    rw [Dialogue.request, Dialogue.asked_bind] at hasks
    obtain ⟨hcompile, hstanding⟩ := h.compile hset fun q hq => hasks q (List.mem_append_left _ hq)
    rw [Request.ask, exec_map, hcompile, Dialogue.request, Dialogue.run_bind]
    refine ⟨?_, hstanding⟩
    cases (Dialogue.compile l.compiler name).run (l.resolver.replies w₀) <;> rfl
  | resolve name base =>
    rw [Dialogue.request, Dialogue.asked_bind] at hasks
    obtain ⟨hresolve, hlearns⟩ := l.resolver.follows_resolve name base w
    rw [Dialogue.run_congr fun q hq => h.replies q (hasks q (List.mem_append_left _ hq))] at hresolve
    have hexec : exec (Request.ask l (.resolve name base)) w =
        ((exec (l.resolver.resolve name base) w).1.map .source, (exec (l.resolver.resolve name base) w).2) := exec_map _ _ w
    rw [hexec, hresolve, Dialogue.request, Dialogue.run_bind]
    refine ⟨?_, h.learns hlearns⟩
    cases (Dialogue.resolve name base).run (l.resolver.replies w₀) <;> rfl

end Standing

/-- Without a cache there is nothing to disturb. -/
theorem Setting.uncached (hset : l.Setting w₀ asks) : l.uncached.Setting w₀ asks where
  fresh := hset.fresh
  nul := by
    rintro ⟨d, hd, -⟩
    cases hd
  files h' halters := by
    obtain rfl : h' = w₀.host := halters
    exact hset.files _ (.refl _ _ _)
  outside q hq h' halters := by
    obtain rfl : h' = w₀.host := halters
    rfl
  stale n s e hn hs hhas := hhas.elim
  distinct := hset.distinct

namespace Kept

/-- A loader that keeps code in a directory. -/
def loader (names : List String) : Loader := ⟨.standard, .table [], .eraser .standard true, .disk ⟨.relative, names⟩⟩

/-- A module that imports another one, which is empty. -/
def world : World := Compiler.pagesWorld "import './b';" "http://h/b.ts"

/-- A module is compiled and then opened, and what it imports is resolved. -/
def requests : List Request :=
  [.compile "http://h/a.ts", .openResource "http://h/a.ts.js", .resolve "./b.ts" (some "http://h/a.ts")]

theorem noNul {ns : List String} {h : Host} (hns : (h.here.join ⟨.relative, ns⟩).names.any (·.toList.contains '\x00') = false) :
    ¬(loader ns).HasNulDirectory h := by
  rintro ⟨d, hd, hnul⟩
  obtain rfl := CodeCache.disk.inj hd
  exact hnul (nulFree_iff.mp hns)

theorem asks_requests {ns : List String} {q : Question} (hq : (loader ns).Asks world requests q) :
    q = .source "http://h/a.ts" ∨ q = .source "http://h/b.ts" := by
  have hasked : ∀ q ∈ requests.flatMap fun request =>
      (Dialogue.request (loader []) request).asked ((loader []).resolver.replies world),
      q = .source "http://h/a.ts" ∨ q = .source "http://h/b.ts" := by
    decide +kernel
  obtain ⟨request, hmem, hq⟩ := hq
  have hrequest : Dialogue.request (loader ns) request = Dialogue.request (loader []) request := by cases request <;> rfl
  rw [hrequest] at hq
  exact hasked q (List.mem_flatMap.mpr ⟨request, hmem, hq⟩)

theorem findOn_http {ns : List String} {h h' : Host} {url : String} (hlooks : Address.looksLike url = true)
    (hcheck : (Address.check url).toOption = some ())
    (hhttp : (Uri.Reference.parse "" url).toOption.map (·.scheme) = some "http") (hpages : h'.pages = h.pages) :
    (loader ns).resolver.findOn h' url = (loader ns).resolver.findOn h url := by
  obtain ⟨ref, href, hscheme⟩ := Option.map_eq_some_iff.mp hhttp
  have hother : ref.scheme ≠ "file" := by
    rw [hscheme]
    decide
  exact Resolver.findOn_page hlooks (toOption_eq_some_iff.mp hcheck) (toOption_eq_some_iff.mp href) hother hpages

theorem findOn_pages {ns : List String} {h h' : Host} (hpages : h'.pages = h.pages) {url : String}
    (hurl : url = "http://h/a.ts" ∨ url = "http://h/b.ts") :
    (loader ns).resolver.findOn h' url = (loader ns).resolver.findOn h url := by
  rcases hurl with rfl | rfl
  · exact findOn_http (by decide) rfl rfl hpages
  · exact findOn_http (by decide) rfl rfl hpages

theorem setting : (loader ["cache"]).Setting world ((loader ["cache"]).Asks world requests) := by
  have hsource {n : String} {s : Source} (hn : (loader ["cache"]).Asks world requests (.source n))
      (hs : (loader ["cache"]).resolver.replies world (.source n) = .ok s) :
      s.content = "import './b';" ∨ s.content = "" := by
    have hfound : ((loader ["cache"]).resolver.findOn world.host n).toOption = some s := toOption_eq_some_iff.mpr hs
    have hpage : ((loader ["cache"]).resolver.findOn world.host "http://h/a.ts").toOption.map (·.content) = some "import './b';" := by
      decide +kernel
    have hother : ((loader ["cache"]).resolver.findOn world.host "http://h/b.ts").toOption.map (·.content) = some "" := by
      rfl
    rcases asks_requests hn with heq | heq
    · obtain rfl := Question.source.inj heq
      rw [hfound] at hpage
      exact .inl (Option.some.inj hpage)
    · obtain rfl := Question.source.inj heq
      rw [hfound] at hother
      exact .inr (Option.some.inj hother)
  have hdiffer : Digest.ofText "import './b';" ≠ Digest.ofText "" := by decide +kernel
  refine ⟨rfl, noNul (by decide), fun _ _ words timeout encoding h => (by cases h), fun q hq => ?_, ?_, ?_⟩
  · intro h' halters
    have hpages : h'.pages = world.host.pages := by rw [halters.host]
    rcases asks_requests hq with rfl | rfl
    · exact findOn_pages hpages (.inl rfl)
    · exact findOn_pages hpages (.inr rfl)
  · rintro n s e - - ⟨place, bs, -, hnode, -⟩
    simp [world, Compiler.pagesWorld, plainWorld, FileSystem.node?] at hnode
  · intro n n' s s' hn hn' hs hs' hfingerprint
    unfold Source.fingerprint at hfingerprint
    rcases hsource hn hs with h | h <;> rcases hsource hn' hs' with h' | h' <;> rw [h, h'] at hfingerprint ⊢
    · exact absurd hfingerprint hdiffer
    · exact absurd hfingerprint.symm hdiffer

end Kept

namespace Made

/-- The directory of the cache is to be made with the one above it. -/
theorem ensureDirectories_out :
    (⟨[]⟩ : FileSystem).ensureDirectories [] ⟨.relative, ["out", "cache"]⟩ =
      (⟨[(["out", "cache"], .directory), (["out"], .directory)]⟩, none) := by
  have hmissing : (⟨[]⟩ : FileSystem).makeDirectory [] ⟨.relative, ["out", "cache"]⟩ = .error (.system .notFound) := by
    have hlocate : (⟨[]⟩ : FileSystem).locate false [] ⟨.relative, ["out", "cache"]⟩ = .error (.system .notFound) := by
      have hwalk : (⟨[]⟩ : FileSystem).walk false maxLinks [] ["out", "cache"] = .error .notFound := by
        rw [walk]
        rfl
      have hfits : (⟨.relative, ["out", "cache"]⟩ : Path).Fits := ⟨by decide, by decide⟩
      rw [locate, hfits.nul, if_neg Bool.false_ne_true, if_neg (Nat.not_lt.mpr hfits.length)]
      exact congrArg (Except.mapError PathFault.system) hwalk
    rw [makeDirectory, hlocate]
    rfl
  have habove : (⟨[]⟩ : FileSystem).ensureDirectories [] ⟨.relative, ["out"]⟩ = (⟨[(["out"], .directory)]⟩, none) := by
    have hmade : (⟨[]⟩ : FileSystem).makeDirectory [] ⟨.relative, ["out"]⟩ = .ok ⟨[(["out"], .directory)]⟩ := by
      refine makeDirectory_eq_ok_iff.mpr ⟨["out"], locate_eq_ok_iff.mpr ⟨⟨by decide, by decide⟩, ?_⟩, rfl, rfl⟩
      exact .one rfl ⟨by decide, by decide⟩ (by decide) (.inr (by simp [node?]))
    rw [ensureDirectories, hmade]
  have hself : (⟨[(["out"], .directory)]⟩ : FileSystem).ensureDirectory [] ⟨.relative, ["out", "cache"]⟩ =
      .ok ⟨[(["out", "cache"], .directory), (["out"], .directory)]⟩ := by
    have hmade : (⟨[(["out"], .directory)]⟩ : FileSystem).makeDirectory [] ⟨.relative, ["out", "cache"]⟩ =
        .ok ⟨[(["out", "cache"], .directory), (["out"], .directory)]⟩ := by
      refine makeDirectory_eq_ok_iff.mpr ⟨["out", "cache"], locate_eq_ok_iff.mpr ⟨⟨by decide, by decide⟩, ?_⟩, rfl, rfl⟩
      have hout : (⟨[(["out"], .directory)]⟩ : FileSystem).Walks true maxLinks [] ["out"] ["out"] :=
        .one rfl ⟨by decide, by decide⟩ (by decide) (.inr (by simp [node?]))
      exact hout.snoc rfl ⟨by decide, by decide⟩ (by decide) (.inl rfl)
    rw [ensureDirectory, hmade]
  rw [ensureDirectories, hmissing]
  simp only [Path.parent, List.isEmpty_cons, Bool.false_eq_true, if_false, List.dropLast_cons_cons, List.dropLast_singleton, habove, hself]

theorem isName_out : Path.IsName "out" := ⟨by decide, by decide, by decide, by decide⟩

/-- What cannot be read in the working directory. -/
theorem findOn_out {ns : List String} {h : Host} {f : PathFault} (hcwd : h.cwd = [])
    (hno : ∀ target, h.files.node? ["out"] ≠ some (.link target)) (hread : h.files.read [] ⟨.slash, ["out"]⟩ = .error f) :
    (Kept.loader ns).resolver.findOn h "out" = .error (Resolver.unresolved "out" (Failure.ofPath ⟨.slash, ["out"]⟩ f)) := by
  have hlocate : (Kept.loader ns).resolver.locateOn h "out" = .ok none := by
    have hlooks : Address.looksLike "out" = false := by decide
    rw [Resolver.locateOn, hlooks]
    rfl
  have hpath : h.realPath (Path.ofText "out") = .ok ⟨.slash, ["out"]⟩ := by
    rw [Host.realPath, hcwd, (realPath_of_rootName isName_out ⟨by decide, by decide⟩ (by decide) hno).2]
    rfl
  have hbytes : h.fileBytes ⟨.slash, ["out"]⟩ = .error (Failure.ofPath ⟨.slash, ["out"]⟩ f) := by
    rw [Host.fileBytes, hcwd, hread]
    rfl
  rw [Resolver.findOn, hlocate]
  show (h.sourceOfFile "utf-8" "out").mapError _ = _
  rw [Host.sourceOfFile, hpath]
  show (h.readText "utf-8" ⟨.slash, ["out"]⟩ >>= _).mapError _ = _
  rw [Host.readText, hbytes]
  rfl

/-- A name in the working directory is not found where nothing is. -/
theorem findOn_out_missing {ns : List String} {h : Host} (hcwd : h.cwd = []) (hnode : h.files.node? ["out"] = none) :
    (Kept.loader ns).resolver.findOn h "out" = .error (.load (.resolution "out" .sourceNotFound)) := by
  have hlocate : h.files.locate true [] ⟨.slash, ["out"]⟩ = .ok ["out"] :=
    (realPath_of_rootName isName_out ⟨by decide, by decide⟩ (by decide) (by simp [hnode])).1
  have hread : h.files.read [] ⟨.slash, ["out"]⟩ = .error (.system .notFound) := by
    simp only [FileSystem.read, stat, hlocate, hnode, Bind.bind, Except.bind]
  exact findOn_out hcwd (by simp [hnode]) hread

/-- It is no file where a directory is. -/
theorem findOn_out_directory {ns : List String} {h : Host} (hcwd : h.cwd = []) (hnode : h.files.node? ["out"] = some .directory) :
    ∃ report, (Kept.loader ns).resolver.findOn h "out" = .error (.load (.resolution "out" (.sourceReadFailed report))) := by
  have hlocate : h.files.locate true [] ⟨.slash, ["out"]⟩ = .ok ["out"] :=
    (realPath_of_rootName isName_out ⟨by decide, by decide⟩ (by decide) (by simp [hnode])).1
  have hread : h.files.read [] ⟨.slash, ["out"]⟩ = .error (.system .isDirectory) := by
    simp only [FileSystem.read, stat, hlocate, hnode, Bind.bind, Except.bind]
  exact ⟨_, findOn_out hcwd (by simp [hnode]) hread⟩

/-- A module is compiled, and then a name in the working directory is resolved. -/
def requests : List Request := [.compile "http://h/a.ts", .resolve "out" none]

theorem asks_requests {ns : List String} {q : Question} (hq : (Kept.loader ns).Asks Kept.world requests q) :
    q = .source "out" ∨ q = .source "http://h/a.ts" ∨ q = .source "http://h/b.ts" := by
  obtain ⟨request, hmem, hq⟩ := hq
  simp only [requests, List.mem_cons, List.not_mem_nil, or_false] at hmem
  rcases hmem with rfl | rfl
  · exact .inr (Kept.asks_requests ⟨_, List.mem_cons_self, hq⟩)
  · rw [Dialogue.request, Dialogue.asked_bind] at hq
    rcases List.mem_append.mp hq with hq | hq
    · exact .inl (List.mem_singleton.mp hq)
    · cases hreply : (Dialogue.resolve "out" none).run ((Kept.loader ns).resolver.replies Kept.world) with
      | error f =>
        rw [hreply] at hq
        cases hq
      | ok s =>
        rw [hreply] at hq
        cases hq

theorem node?_world : Kept.world.host.files.node? ["out"] = none := rfl

/-- What is in the directory of the cache changes no reply. -/
theorem replies_out {ns : List String} {q : Question} (hq : (Kept.loader ns).Asks Kept.world requests q) {fs : FileSystem}
    (hsame : ∀ place, ¬["out", "cache"] <+: place → fs.node? place = Kept.world.host.files.node? place) :
    (Kept.loader ns).resolver.replies (.fresh { Kept.world.host with files := fs }) q = (Kept.loader ns).resolver.replies Kept.world q := by
  generalize hhost : ({ Kept.world.host with files := fs } : Host) = h
  have hpages : h.pages = Kept.world.host.pages := by rw [← hhost]
  have hfound {n : String} (heq : (Kept.loader ns).resolver.findOn h n = (Kept.loader ns).resolver.findOn Kept.world.host n) :
      (Kept.loader ns).resolver.replies (.fresh h) (.source n) = (Kept.loader ns).resolver.replies Kept.world (.source n) := heq
  rcases asks_requests hq with rfl | rfl | rfl
  · have hcwd : h.cwd = [] := by
      rw [← hhost]
      rfl
    have hmissing : h.files.node? ["out"] = none := by
      rw [← hhost]
      exact (hsame ["out"] (by decide)).trans node?_world
    rw [hfound]
    rw [findOn_out_missing hcwd hmissing, findOn_out_missing rfl node?_world]
  · exact hfound (Kept.findOn_pages hpages (.inl rfl))
  · exact hfound (Kept.findOn_pages hpages (.inr rfl))

/-- The world when the module has been compiled. -/
def later : World := (exec ((Kept.loader ["out", "cache"]).compile "http://h/a.ts") Kept.world).2

theorem unknown_out {w : World} (h : Learns (Kept.loader ["out", "cache"]).resolver Kept.world w) : w.identities.get? "out" = none := by
  rw [Option.eq_none_iff_forall_not_mem]
  intro s hs
  rcases h.found "out" s hs with hknown | hfound
  · cases hknown
  · rw [findOn_out_missing rfl rfl] at hfound
    cases hfound

theorem later_out : later.host.cwd = [] ∧ later.host.files.node? ["out"] = some .directory ∧ later.identities.get? "out" = none := by
  have hcompiled := compiled "http://h/a.ts" (w := Kept.world) (l := Kept.loader ["out", "cache"]) (Kept.noNul (by decide))
    fun words timeout encoding h => by cases h
  unfold later
  generalize exec ((Kept.loader ["out", "cache"]).compile "http://h/a.ts") Kept.world = p at hcompiled
  cases hcompiled with
  | failed fails =>
    have hcode : ((Dialogue.compile (Kept.loader []).compiler "http://h/a.ts").run ((Kept.loader []).resolver.replies Kept.world)).toOption =
        some "import './b';" := by
      decide +kernel
    exact absurd (hcode.symm.trans (congrArg Except.toOption fails)) (by simp [Except.toOption])
  | found source learns hit =>
    obtain ⟨bs, e, hread, -⟩ := read_of_diskGet (diskGet_of_cached rfl hit)
    obtain ⟨place, -, hnode⟩ := read_eq_ok_iff.mp hread
    rw [learns.host] at hnode
    simp [Kept.world, Compiler.pagesWorld, plainWorld, FileSystem.node?] at hnode
  | @stored s code w₁ source made learns =>
    obtain ⟨es, hstore⟩ := exec_store_disk (l := Kept.loader ["out", "cache"]) rfl s code w₁
    simp only [hstore, learns.host]
    exact ⟨rfl, directory_of_diskPut rfl ensureDirectories_out rfl s code, unknown_out learns⟩

end Made

end Loader

end ScriptLoader
