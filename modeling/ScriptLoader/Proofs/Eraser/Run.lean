import ScriptLoader.Syntax.Eraser

/-!
# Runs of the eraser

The walk as a chain of single steps (`Reaches`): what each step preserves holds at the end of the walk, and a walk comes out as the
walk from any state on its way.
-/

namespace ScriptLoader.Syntax.Eraser

/-- The output is the text of the tokens kept. -/
theorem toList_output (e : Eraser) : e.output.toList = sourceText e.kept.reverse := by
  rw [output]
  induction e.kept.reverse with
  | nil => rfl
  | cons t ts ih => rw [List.map_cons, String.join_cons, String.toList_append, ih, sourceText_cons]

theorem ok_of_map {ε α β : Type} {f : α → β} {x : Except ε α} {b : β} (h : x.map f = .ok b) : ∃ a, x = .ok a ∧ f a = b := by
  cases x with
  | error e => nomatch h
  | ok a => exact ⟨a, rfl, Except.ok.inj h⟩

/-! ## The walk, unfolded at its first step -/

theorem walk_of_nil {e : Eraser} (h : e.rest = []) : walk e = (finish e).mapError e.locate := by
  rw [walk]
  split
  · rfl
  · rename_i hcons
    rw [h] at hcons
    cases hcons

theorem walk_of_ok {e : Eraser} {t : Token} {ts : List Token} {e' : Next (t :: ts)} (h : e.rest = t :: ts)
    (hs : step e t ts = .ok e') : walk e = walk e'.1 := by
  rw [walk]
  split
  · rename_i hnil
    rw [h] at hnil
    cases hnil
  · rename_i t₁ ts₁ hcons
    rw [h] at hcons
    injection hcons with ht hts
    subst ht hts
    split
    · rename_i hr
      rw [hs] at hr
      cases hr
    · rename_i hr
      rw [hs] at hr
      injection hr with hr
      rw [hr]

theorem walk_of_error {e : Eraser} {t : Token} {ts : List Token} {r : Refusal} (h : e.rest = t :: ts)
    (hs : step e t ts = .error r) : walk e = .error (e.locate r) := by
  rw [walk]
  split
  · rename_i hnil
    rw [h] at hnil
    cases hnil
  · rename_i t₁ ts₁ hcons
    rw [h] at hcons
    injection hcons with ht hts
    subst ht hts
    split
    · rename_i hr
      rw [hs] at hr
      injection hr with hr
      rw [hr]
    · rename_i hr
      rw [hs] at hr
      cases hr

/-! ## Chains of steps -/

/-- The walk makes one step. -/
inductive Steps : Eraser → Eraser → Prop where
  | intro {e : Eraser} {t : Token} {ts : List Token} {e' : Next (t :: ts)} (hrest : e.rest = t :: ts)
      (hstep : step e t ts = .ok e') : Steps e e'.1

theorem Steps.of_eq {e e' : Eraser} {t : Token} {ts : List Token} {next : Next (t :: ts)} (hrest : e.rest = t :: ts)
    (hstep : step e t ts = .ok next) (hnext : next.1 = e') : Steps e e' := hnext ▸ .intro hrest hstep

/-- The walk gets from one state to another. -/
inductive Reaches : Eraser → Eraser → Prop where
  | refl (e : Eraser) : Reaches e e
  | next {e e' e'' : Eraser} (hstep : Steps e e') (hrun : Reaches e' e'') : Reaches e e''

namespace Reaches

theorem single {e e' : Eraser} (h : Steps e e') : Reaches e e' := .next h (.refl e')

theorem trans {e e' e'' : Eraser} (h : Reaches e e') (h' : Reaches e' e'') : Reaches e e'' := by
  induction h with
  | refl => exact h'
  | next hstep _ ih => exact .next hstep (ih h')

/-- What every step preserves holds wherever the walk gets. -/
theorem preserves {P : Eraser → Prop} (hP : ∀ {e e'}, P e → Steps e e' → P e') {e e' : Eraser} (h : Reaches e e') (he : P e) :
    P e' := by
  induction h with
  | refl => exact he
  | next hstep _ ih => exact ih (hP he hstep)

/-- The walk comes out as the walk from any state on its way. -/
theorem walk_eq {e e' : Eraser} (h : Reaches e e') : walk e = walk e' := by
  induction h with
  | refl => rfl
  | next hstep _ ih =>
    obtain ⟨hrest, hs⟩ := hstep
    rw [walk_of_ok hrest hs, ih]

end Reaches

/-- A walk that succeeds gets to the end of the source with no bracket open. -/
theorem reaches_of_walk {e e' : Eraser} (h : walk e = .ok e') : Reaches e e' ∧ e'.rest = [] ∧ e'.frame.bracket = none := by
  fun_induction walk e with
  | case1 e hrest =>
    unfold finish at h
    split at h
    · nomatch h
    · rename_i hnone
      injection h with h
      subst h
      exact ⟨.refl e, hrest, hnone⟩
  | case2 => nomatch h
  | case3 e t ts hrest e₁ hs _ ih =>
    obtain ⟨hrun, hend⟩ := ih h
    exact ⟨.next (.intro hrest hs) hrun, hend⟩

end ScriptLoader.Syntax.Eraser
