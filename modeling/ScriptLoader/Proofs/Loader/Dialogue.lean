import ScriptLoader.Proofs.Loader.Command
import ScriptLoader.Proofs.Loader.Requests

/-!
# What a loader asks

To answer a request without a cache, a loader asks what names stand for, what the lookup has for a name, and what comes of running a
command. Its answer is a function of the replies, and what it asks next depends on the replies so far: a request is a `Dialogue`. So
two worlds with the same replies to what is asked give the same answer (`Dialogue.run_congr`), and what was learned on the way changes no
reply (`Learns.replies`).
-/

namespace ScriptLoader

open Action Text

/-- What a loader asks: for the source of a name, for the bytes of what the lookup has under a name, and for the outcome of a command on
an input. -/
inductive Question where
  | source (name : String)
  | bytes (name : String)
  | outcome (words : List String) (input : Bytes) (timeout : Option Int)
  deriving DecidableEq, Repr

/-- What a question asks for. -/
def Question.Reply : Question → Type
  | source _ => Source
  | bytes _ => Option Bytes
  | outcome _ _ _ => Outcome

/-- The replies to all questions. -/
abbrev Replies := (q : Question) → Except Failure q.Reply

/-- The replies that a world gives, where names are known by a resolver. -/
def Resolver.replies (r : Resolver) (w : World) : Replies
  | .source name => r.nameOn w.host w.identities name
  | .bytes name => r.lookup.open? w.host name
  | .outcome words input timeout => .ok (w.host.run w.host.files w.host.cwd words input timeout).1

/-- A world in which nothing has been done yet. -/
def World.fresh (h : Host) : World := ⟨h, .empty, [], []⟩

theorem Learns.replies {r : Resolver} {w w' : World} (h : Learns r w w') : r.replies w' = r.replies w := by
  funext q
  cases q with
  | source name =>
    show r.nameOn w'.host w'.identities name = r.nameOn w.host w.identities name
    unfold Resolver.nameOn
    rw [h.host]
    cases hknown : w.identities.get? name with
    | some s => rw [h.known name s hknown]
    | none =>
      cases hlearned : w'.identities.get? name with
      | none => rfl
      | some s =>
        rcases h.found name s hlearned with hs | hs
        · exact absurd (hknown.symm.trans hs) (by simp)
        · exact hs.symm
  | bytes name =>
    show r.lookup.open? w'.host name = r.lookup.open? w.host name
    rw [h.host]
  | outcome words input timeout =>
    show Except.ok (w'.host.run w'.host.files w'.host.cwd words input timeout).1 = _
    rw [h.host]
    rfl

/-- A result, or a question and what follows its reply. -/
inductive Dialogue (α : Type) where
  | done (result : Except Failure α)
  | ask (q : Question) (next : Except Failure q.Reply → Dialogue α)

namespace Dialogue

variable {α β : Type}

/-- The result when the replies are known. -/
def run (r : Replies) : Dialogue α → Except Failure α
  | done x => x
  | ask q next => (next (r q)).run r

/-- The questions that are asked when the replies are known. -/
def asked (r : Replies) : Dialogue α → List Question
  | done _ => []
  | ask q next => q :: (next (r q)).asked r

/-- The result depends on the replies to what is asked. -/
theorem run_congr {r r' : Replies} {d : Dialogue α} (h : ∀ q ∈ d.asked r, r' q = r q) : d.run r' = d.run r := by
  induction d with
  | done x => rfl
  | ask q next ih =>
    rw [run, run, h q List.mem_cons_self]
    exact ih _ fun q' hq' => h q' (List.mem_cons_of_mem _ hq')

/-- Goes on with the result, be it a failure or not. -/
def andThen (k : Except Failure α → Dialogue β) : Dialogue α → Dialogue β
  | done x => k x
  | ask q next => ask q fun x => (next x).andThen k

@[simp] theorem run_done (r : Replies) (x : Except Failure α) : (done x).run r = x := rfl

@[simp] theorem run_andThen (r : Replies) (d : Dialogue α) (k : Except Failure α → Dialogue β) :
    (d.andThen k).run r = (k (d.run r)).run r := by
  induction d with
  | done x => rfl
  | ask q next ih => exact ih (r q)

@[simp] theorem asked_andThen (r : Replies) (d : Dialogue α) (k : Except Failure α → Dialogue β) :
    (d.andThen k).asked r = d.asked r ++ (k (d.run r)).asked r := by
  induction d with
  | done x => rfl
  | ask q next ih => exact congrArg (q :: ·) (ih (r q))

/-- Goes on with a result that is no failure. -/
def forward (k : α → Dialogue β) : Except Failure α → Dialogue β
  | .ok a => k a
  | .error f => done (.error f)

instance : Monad Dialogue where
  pure a := done (.ok a)
  bind d k := d.andThen (forward k)

@[simp] theorem run_pure (r : Replies) (a : α) : (pure a : Dialogue α).run r = .ok a := rfl

theorem run_bind (r : Replies) (d : Dialogue α) (k : α → Dialogue β) :
    (d >>= k).run r = (forward k (d.run r)).run r := run_andThen r d (forward k)

theorem asked_bind (r : Replies) (d : Dialogue α) (k : α → Dialogue β) :
    (d >>= k).asked r = d.asked r ++ (forward k (d.run r)).asked r := asked_andThen r d (forward k)

end Dialogue

namespace Action

variable {α β ε : Type} {r : Resolver}

/-- An action only learns, and its result is that of a dialogue. -/
def Follows (r : Resolver) (a : Action α) (d : Dialogue α) : Prop :=
  ∀ w, (exec a w).1 = d.run (r.replies w) ∧ Learns r w (exec a w).2

theorem follows_pure (x : α) : Follows r (pure x) (pure x) := fun w => ⟨rfl, .refl w⟩

theorem follows_throw (f : Failure) : Follows r (throw f : Action α) (.done (.error f)) := fun w => ⟨rfl, .refl w⟩

theorem follows_ofExcept (failure : ε → Failure) (x : Except ε α) : Follows r (ofExcept failure x) (.done (x.mapError failure)) := by
  intro w
  rw [exec_ofExcept]
  exact ⟨rfl, .refl w⟩

theorem Follows.bind {a : Action α} {d : Dialogue α} {k : α → Action β} {e : α → Dialogue β} (ha : Follows r a d)
    (hk : ∀ x, Follows r (k x) (e x)) : Follows r (a >>= k) (d >>= e) := by
  intro w
  obtain ⟨hresult, hlearns⟩ := ha w
  rw [exec_bind, Dialogue.run_bind, ← hresult]
  generalize exec a w = p at hlearns ⊢
  obtain ⟨x, w'⟩ := p
  cases x with
  | error f => exact ⟨rfl, hlearns⟩
  | ok x =>
    obtain ⟨hrest, hlater⟩ := hk x w'
    rw [hlearns.replies] at hrest
    exact ⟨hrest, hlearns.trans hlater⟩

/-- What is written to the log is no part of the dialogue. -/
theorem Follows.logged {a : Action α} {d : Dialogue α} (ha : Follows r a d) (level : Level) (origin text : String) :
    Follows r (log level origin text >>= fun _ => a) d := by
  intro w
  rw [exec_bind, exec_log]
  obtain ⟨hresult, hlearns⟩ := ha { w with events := .logged level origin text :: w.events }
  exact ⟨hresult, (learns_events w _).trans hlearns⟩

end Action

/-! ## The dialogues of a loader -/

namespace Dialogue

/-- Asks what a name stands for. -/
def find (name : String) : Dialogue Source := ask (.source name) done

/-- The source of a name that the module `base` uses. -/
def resolve (name : String) (base : Option String) : Dialogue Source :=
  match base with
  | some base =>
    if Syntax.isRelative name then
      find base >>= fun s => done ((Uri.join s.uri name).mapError fun m => .invalid m.message) >>= find
    else find name
  | none => find name

/-- A source was found, or it was found that there is none. -/
def settled : Except Failure Source → Except Failure Bool
  | .ok _ => .ok true
  | .error (.load e) => if e.kind = .resolution then .ok false else .error (.load e)
  | .error f => .error f

/-- A name leads to a source, for the module `name`. -/
def resolves (name c : String) : Dialogue Bool := (resolve c (some name)).andThen fun x => done (settled x)

/-- One of the names leads to a source, for the module `name`. -/
def anyResolves (name : String) : List String → Dialogue Bool
  | [] => pure false
  | c :: cs => resolves name c >>= fun found => if found then pure true else anyResolves name cs

/-- Every relative specifier leads to a module. -/
def checkSpecifiers (c : Config) (name : String) : List Syntax.Specifier → Dialogue Unit
  | [] => pure ()
  | s :: ss =>
    if Syntax.isRelative s.text then
      anyResolves name (c.candidates s.text) >>= fun found =>
        if found then checkSpecifiers c name ss
        else done (.error (.load (.compilationAt name (.moduleNotFound s.text) (some ⟨s.line, 1⟩))))
    else checkSpecifiers c name ss

/-- Code that was written, once the imports have been checked. -/
def finishErasure (c : Config) (checkImports : Bool) (name : String) (erased : Syntax.Erased) : Dialogue String :=
  if checkImports then checkSpecifiers c name erased.specifiers >>= fun _ => pure erased.code else pure erased.code

/-- The compiled code of the source of `name`. -/
def compile (c : Compiler) (name : String) : Dialogue String :=
  find name >>= fun s =>
    match c with
    | .eraser config checkImports =>
      match Syntax.erase s.content with
      | .error refusal => done (.error (.load (.ofRefusal name refusal)))
      | .ok erased => finishErasure config checkImports name erased
    | .command words timeout encoding =>
      if words = [] then done (.error .noCommand)
      else done (encodeText encoding s.content) >>= fun input =>
        ask (.outcome words input timeout) done >>= fun outcome => done (Outcome.result encoding name outcome)

/-- The compiled code of the source of a name, as bytes. -/
def load (l : Loader) (name : String) : Dialogue (Option Bytes) :=
  compile l.compiler name >>= fun code => done ((encodeText l.config.encoding code).map some)

/-- The bytes for a name. -/
def openName (l : Loader) (name : String) : Dialogue (Option Bytes) :=
  match l.target? name with
  | some n => load l n
  | none => ask (.bytes name) done >>= fun found =>
    match found, l.fallback? name with
    | some bs, _ => pure (some bs)
    | none, some n => load l n
    | none, none => pure none

/-- The answer to a request. -/
def request (l : Loader) : Request → Dialogue Answer
  | .openResource name => (openName l name).andThen fun x => done ((Loader.answer x).map .bytes)
  | .compile name => compile l.compiler name >>= fun code => pure (.code code)
  | .resolve name base => resolve name base >>= fun s => pure (.source s)

end Dialogue

namespace Resolver

theorem follows_resolveName (r : Resolver) (name : String) : Follows r (r.resolveName name) (.find name) := by
  intro w
  obtain ⟨es, hexec⟩ := exec_resolveName r name w
  refine ⟨?_, learning_resolveName r name w⟩
  rw [hexec]
  rfl

theorem follows_resolve (r : Resolver) (name : String) (base : Option String) :
    Follows r (r.resolve name base) (.resolve name base) := by
  unfold resolve Dialogue.resolve
  split
  · split
    · exact (follows_resolveName r _).bind fun s => (follows_ofExcept _ _).bind fun url => follows_resolveName r url
    · exact follows_resolveName r name
  · exact follows_resolveName r name

end Resolver

namespace Compiler

variable {r : Resolver}

theorem follows_resolves (r : Resolver) (name c : String) : Follows r (resolves r name c) (.resolves name c) := by
  intro w
  obtain ⟨hresult, hlearns⟩ := r.follows_resolve c (some name) w
  refine ⟨?_, learning_resolves r name c w⟩
  rw [Dialogue.resolves, Dialogue.run_andThen, Dialogue.run_done, ← hresult, resolves, exec_tryCatch, exec_bind]
  generalize exec (r.resolve c (some name)) w = p
  obtain ⟨x, w'⟩ := p
  cases x with
  | ok s => rfl
  | error f =>
    cases f with
    | load e =>
      simp only [Dialogue.settled]
      split <;> rfl
    | _ => rfl

theorem follows_anyResolves (r : Resolver) (name : String) (cs : List String) :
    Follows r (anyResolves r name cs) (.anyResolves name cs) := by
  induction cs with
  | nil => exact follows_pure false
  | cons c cs ih =>
    rw [anyResolves_cons]
    refine (follows_resolves r name c).bind fun found => ?_
    cases found with
    | true => exact follows_pure true
    | false => exact ih

theorem follows_checkSpecifiers (r : Resolver) (c : Config) (name : String) (ss : List Syntax.Specifier) :
    Follows r (checkSpecifiers r c name ss) (.checkSpecifiers c name ss) := by
  induction ss with
  | nil => exact follows_pure ()
  | cons s ss ih =>
    unfold checkSpecifiers Dialogue.checkSpecifiers
    split
    · refine (follows_anyResolves r name _).bind fun found => ?_
      cases found with
      | true => exact ih
      | false => exact follows_throw _
    · exact ih

theorem follows_finishErasure (r : Resolver) (c : Config) (checkImports : Bool) (name : String) (s : Source)
    (erased : Syntax.Erased) :
    Follows r (finishErasure r c checkImports name s erased) (.finishErasure c checkImports name erased) := by
  unfold finishErasure Dialogue.finishErasure
  split
  · exact (follows_checkSpecifiers r c name _).bind fun _ => (follows_pure _).logged _ _ _
  · exact (follows_pure _).logged _ _ _

/-- A command leaves the files of a host as they are. -/
def LeavesFiles (c : Compiler) (h : Host) : Prop :=
  ∀ words timeout encoding, c = .command words timeout encoding → ∀ input, (h.run h.files h.cwd words input timeout).2 = h.files

/-- A compiler gives what comes of its dialogue, if its command leaves the files as they are. -/
theorem exec_compile (c : Compiler) (name : String) {w : World} (hfiles : c.LeavesFiles w.host) :
    (exec (c.compile r name) w).1 = (Dialogue.compile c name).run (r.replies w) ∧ Learns r w (exec (c.compile r name) w).2 := by
  cases c with
  | eraser config checkImports =>
    have hfollows : Follows r (erase r config checkImports name) (.compile (.eraser config checkImports) name) := by
      rw [erase_eq]
      refine (r.follows_resolve name none).bind fun s => ?_
      cases Syntax.erase s.content with
      | error refusal => exact follows_throw _
      | ok erased => exact follows_finishErasure r config checkImports name s erased
    exact hfollows w
  | command words timeout encoding =>
    obtain ⟨hresult, hlearns⟩ := r.follows_resolve name none w
    show (exec (runCommand r words timeout encoding name) w).1 = _ ∧ Learns r w (exec (runCommand r words timeout encoding name) w).2
    rw [runCommand_eq, exec_bind, Dialogue.compile, Dialogue.run_bind, ← show _ = (Dialogue.find name).run _ from hresult]
    generalize exec (r.resolve name none) w = p at hlearns ⊢
    obtain ⟨x, w'⟩ := p
    cases x with
    | error f => exact ⟨rfl, hlearns⟩
    | ok s =>
      simp only [Dialogue.forward]
      split
      · rename_i hwords
        rw [hwords]
        exact ⟨rfl, hlearns⟩
      · rename_i hwords
        cases hinput : encodeText encoding s.content with
        | error f =>
          obtain ⟨es, hexec⟩ := exec_commandOn_of_unencodable timeout name w' hwords hinput
          rw [hexec]
          exact ⟨rfl, hlearns.trans (learns_events w' es)⟩
        | ok input =>
          obtain ⟨es, hexec⟩ := exec_commandOn timeout name w' hwords hinput
          rw [hexec]
          have hkept := hfiles words timeout encoding rfl input
          rw [← hlearns.host] at hkept
          refine ⟨?_, ?_⟩
          · rw [hlearns.host]
            rfl
          · rw [hkept]
            exact hlearns.trans (learns_events w' es)

end Compiler

/-! ## One source, two names -/

namespace Dialogue

variable {r : Replies} {n n' : String}

theorem run_resolve_base (h : r (.source n) = r (.source n')) (c : String) :
    (resolve c (some n)).run r = (resolve c (some n')).run r := by
  unfold resolve
  simp only
  split
  · rw [run_bind, run_bind]
    show (forward _ (r (.source n))).run r = (forward _ (r (.source n'))).run r
    rw [h]
    rfl
  · rfl

theorem run_anyResolves_base (h : r (.source n) = r (.source n')) (cs : List String) :
    (anyResolves n cs).run r = (anyResolves n' cs).run r := by
  induction cs with
  | nil => rfl
  | cons c cs ih =>
    have hfirst : (resolves n c).run r = (resolves n' c).run r := by
      rw [resolves, resolves, run_andThen, run_andThen, run_resolve_base h c]
    rw [anyResolves, anyResolves, run_bind, run_bind, hfirst]
    cases (resolves n' c).run r with
    | error f => rfl
    | ok found =>
      cases found with
      | true => rfl
      | false => exact ih

theorem toOption_checkSpecifiers (h : r (.source n) = r (.source n')) (c : Config) (ss : List Syntax.Specifier) :
    ((checkSpecifiers c n ss).run r).toOption = ((checkSpecifiers c n' ss).run r).toOption := by
  induction ss with
  | nil => rfl
  | cons s ss ih =>
    unfold checkSpecifiers
    split
    · rw [run_bind, run_bind, run_anyResolves_base h]
      cases (anyResolves n' (c.candidates s.text)).run r with
      | error f => rfl
      | ok found =>
        cases found with
        | true => exact ih
        | false => rfl
    · exact ih

theorem toOption_readOutput (encoding : String) (status : Int) (output errors : Bytes) :
    (readOutput encoding n status output errors).toOption = (readOutput encoding n' status output errors).toOption := by
  unfold readOutput
  cases hencoding : Encoding.named? encoding with
  | none =>
    simp only
    split
    · by_cases hstatus : status = 0
      · simp [hstatus]
      · simp [hstatus, Except.toOption, Bind.bind, Except.bind]
    · rfl
  | some e =>
    by_cases hstatus : status = 0
    · simp [hstatus]
    · simp [hstatus, Except.toOption, Bind.bind, Except.bind]

theorem toOption_result (encoding : String) (o : Outcome) : (o.result encoding n).toOption = (o.result encoding n').toOption := by
  cases o with
  | unavailable details => rfl
  | invalid m => rfl
  | finished status output errors =>
    rw [Outcome.result, Outcome.result]
    exact toOption_readOutput encoding status output errors

/-- Names that stand for the same source have the same code, if they have one. Only errors tell them apart. -/
theorem toOption_compile (h : r (.source n) = r (.source n')) (c : Compiler) :
    ((compile c n).run r).toOption = ((compile c n').run r).toOption := by
  rw [compile, compile, run_bind, run_bind, show (find n).run r = r (.source n) from rfl, show (find n').run r = r (.source n') from rfl, h]
  cases hs : r (.source n') with
  | error f => rfl
  | ok s =>
    cases c with
    | eraser config checkImports =>
      simp only [forward]
      cases Syntax.erase s.content with
      | error refusal => rfl
      | ok erased =>
        simp only [finishErasure]
        split
        · have hchecks := toOption_checkSpecifiers h config erased.specifiers
          rw [run_bind, run_bind]
          generalize (checkSpecifiers config n erased.specifiers).run r = x at hchecks
          generalize (checkSpecifiers config n' erased.specifiers).run r = y at hchecks
          cases x <;> cases y <;> simp_all [forward, Except.toOption]
        · rfl
    | command words timeout encoding =>
      simp only [forward]
      split
      · rfl
      · cases encodeText encoding s.content with
        | error f => rfl
        | ok input =>
          show ((forward (fun o => done (Outcome.result encoding n o)) (r (.outcome words input timeout))).run r).toOption =
            ((forward (fun o => done (Outcome.result encoding n' o)) (r (.outcome words input timeout))).run r).toOption
          cases r (.outcome words input timeout) with
          | error f => rfl
          | ok o => exact toOption_result encoding o

end Dialogue

end ScriptLoader
