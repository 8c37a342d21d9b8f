import ScriptLoader.Proofs.Eraser.CopiedTokens

/-!
# Object literals

An object literal that is assigned to a variable, with any words as keys and nested to any depth. The walk can take two things in it for
something else: the key `import` where a statement may begin, and the colon behind a key where `var`, `let` or `const` stands before it in the
same object, as if it were a declaration of variables. Without these the object comes out as it is, and with one of them it does not
(`object_copied_iff`).
-/

namespace ScriptLoader.Syntax

open Eraser

/-! ## Objects -/

/-- A key of an object: any word, a string or a number. -/
structure ObjectKey where
  lexeme : Lexeme
  valid : lexeme.1 ∈ [.identifier, .string, .number]

mutual

/-- What stands behind a key: an object, a literal or a name. Of the reserved words, which name nothing, those are left out that mean
something to the walk here. -/
inductive ObjectValue where
  | leaf (atom : Atom) (named : atom.lexeme ∉ ["case", "const", "var"].map word)
  | object (members : ObjectMembers)

/-- What stands between the curly brackets of an object. -/
inductive ObjectMembers where
  | nil
  | cons (key : ObjectKey) (value : ObjectValue) (more : ObjectMembers)

end

mutual

def ObjectValue.lexemes : ObjectValue → List Lexeme
  | .leaf a _ => [a.lexeme]
  | .object members => mark "\x7b" :: (members.lexemes true ++ [mark "\x7d"])

/-- The members, behind a comma if they are not the first ones. -/
def ObjectMembers.lexemes (first : Bool) : ObjectMembers → List Lexeme
  | .nil => []
  | .cons key value more => (if first then [] else [mark ","]) ++ ([key.lexeme, mark ":"] ++ (value.lexemes ++ more.lexemes false))

end

/-- A word that begins a declaration of variables. -/
def declares (m : Lexeme) : Bool := m.1 == .identifier && declarationWords.contains m.2

/-- The value is a word that begins a declaration of variables. -/
def ObjectValue.declares : ObjectValue → Bool
  | .leaf a _ => Syntax.declares a.lexeme
  | .object _ => false

/-- Some key or value of the members is a word that begins a declaration of variables. -/
def ObjectMembers.declares : ObjectMembers → Bool
  | .nil => false
  | .cons key value more => Syntax.declares key.lexeme || value.declares || more.declares

/-- The colon behind the key does not look like that of a variable, where a declaration of variables seems to have begun or not. -/
def ObjectKey.spared (first declared : Bool) (key : ObjectKey) : Bool :=
  first || !declared || key.lexeme.1 != .identifier || key.lexeme.2 == "case"

mutual

/-- No key in the value is taken for a variable. -/
def ObjectValue.spared : ObjectValue → Bool
  | .leaf _ _ => true
  | .object members => members.spared true false

/-- No key of the members is taken for a variable, where a declaration of variables seems to have begun before them or not. -/
def ObjectMembers.spared (first declared : Bool) : ObjectMembers → Bool
  | .nil => true
  | .cons key value more =>
    key.spared first (declared || declares key.lexeme) && value.spared &&
      more.spared false (declared || declares key.lexeme || value.declares)

end

/-- The token is no word `import` where a statement may begin, and if it is a regular expression, the source can be lexed behind it. -/
structure PlainInObject (before : List Token) (t : Token) (after : List Token) : Prop where
  word : t.lexeme = word "import" → startsStatement before = false
  regex : t.kind = .regex → Lexable (sourceText after)

namespace PlainInObject

theorem sparesTrivia : SparesTrivia PlainInObject := by
  intro before t after ht
  refine ⟨fun hword => ?_, fun hregex => ?_⟩
  · rw [Token.isTrivia, (lexeme_eq_word hword).1] at ht
    cases ht
  · rw [Token.isTrivia, hregex] at ht
    cases ht

theorem of_kind {before after : List Token} {t : Token} {m : Lexeme} (ht : t.lexeme = m) (hword : m ≠ Syntax.word "import")
    (hregex : m.1 ≠ .regex) : PlainInObject before t after :=
  ⟨fun h => absurd (ht.symm.trans h) hword, fun h => absurd ((congrArg Prod.fst ht).symm.trans h) hregex⟩

theorem of_mark {x : String} (before : List Token) (t : Token) (after : List Token) (ht : t.lexeme = mark x) : PlainInObject before t after :=
  .of_kind ht (by simp) (by simp)

instance (before : List Token) (t : Token) (after : List Token) : Decidable (PlainInObject before t after) :=
  decidable_of_iff ((t.lexeme = Syntax.word "import" → startsStatement before = false) ∧ (t.kind = .regex → Lexable (sourceText after)))
    ⟨fun h => ⟨h.1, h.2⟩, fun h => ⟨h.word, h.regex⟩⟩

end PlainInObject

/-- The frame of an object. -/
def objectFrame (before : Option String) (declared : Bool) : Frame := { Frame.opening .curly before false with declaring := declared }

/-- The frame behind a key, where the word `case` waits for its colon. -/
def keyFrame (before : Option String) (declared : Bool) (key : Lexeme) : Frame :=
  { objectFrame before (declared || declares key) with caseLabels := if key = word "case" then 1 else 0 }

theorem noting_objectFrame (before : Option String) (declared : Bool) (x : String) :
    (objectFrame before declared).noting x = keyFrame before declared (word x) := by
  unfold Frame.noting keyFrame declares
  cases hx : declarationWords.contains x with
  | true =>
    have hcase : word x ≠ word "case" := by
      rintro heq
      rw [(Prod.mk.inj heq).2] at hx
      cases hx
    rw [if_pos rfl, if_neg hcase]
    simp [objectFrame, Frame.opening]
  | false =>
    by_cases hcase : x = "case"
    · simp [hcase, objectFrame, Frame.opening]
    · simp [hcase, objectFrame, Frame.opening]

section Walk

variable {p : Place} {others : List Lexeme} {before : Option String} {outer : List Frame}

/-! ## Keys -/

/-- What stands before a key. -/
def keyOpener (first : Bool) : String := if first then "\x7b" else ","

/-- A key is kept, unless it is the word `import` and a statement may begin there. -/
theorem through_key {key : ObjectKey} {first declared : Bool} {said : List Lexeme} (h : lexemes p.after = key.lexeme :: mark ":" :: others)
    (hscope : p.scope = ⟨objectFrame before declared, outer, false⟩) (hbefore : lexemes p.before = mark (keyOpener first) :: said) :
    Through PlainInObject True p [key.lexeme] (mark ":" :: others) ⟨keyFrame before declared key.lexeme, outer, false⟩ := by
  obtain ⟨⟨kind, x⟩, hvalid⟩ := key
  simp only [List.mem_cons, List.not_mem_nil, or_false] at hvalid h ⊢
  rcases hvalid with rfl | hliteral
  · have hpoint : ∀ s ∈ [".", "?."], (lexemes p.before).head?.map (·.2) ≠ some s := by
      rw [hbefore, List.head?_cons]
      cases first <;> decide
    rw [← noting_objectFrame]
    refine through_word h hscope PlainInObject.sparesTrivia (by decide) hpoint
      (fun _ hround => absurd hround Bool.false_ne_true) (by simp) fun before t after _ ht => ?_
    have hregex : t.kind ≠ .regex := by rw [(lexeme_eq_word ht).1]; decide
    refine ⟨fun ⟨_, hplain⟩ himport _ => hplain.word (ht.trans (congrArg word himport)), fun hplain => ⟨trivial, fun hword => ?_, ?_⟩⟩
    · exact hplain (Prod.mk.inj (ht.symm.trans hword)).2 (by decide)
    · exact fun hk => absurd hk hregex
  · -- a literal leaves the frame as it is
    have hother : kind ≠ .identifier ∧ kind ≠ .regex ∧ isLiteralKind kind = true := by
      rcases hliteral with rfl | rfl <;> decide
    have hsame : keyFrame before declared (kind, x) = objectFrame before declared := by
      have hcase : (kind, x) ≠ word "case" := fun heq => hother.1 (Prod.mk.inj heq).1
      have hdeclares : declares (kind, x) = false := by rw [declares, beq_false_of_ne hother.1, Bool.false_and]
      rw [keyFrame, if_neg hcase, hdeclares, Bool.or_false]
      rfl
    rw [hsame]
    exact through_literal h hscope PlainInObject.sparesTrivia hother.2.2 fun before t after ht =>
      .of_kind ht (fun heq => hother.1 (Prod.mk.inj heq).1) hother.2.1

/-- A colon behind a key has a type behind it, as the walk sees it, where the key is not spared. -/
theorem annotates_of_key {e : Eraser} {key : ObjectKey} {first declared : Bool} {said : List Lexeme}
    (hframe : e.frame = keyFrame before declared key.lexeme) (hkept : lexemes e.kept = key.lexeme :: mark (keyOpener first) :: said)
    (hshaped : ∀ t ∈ e.kept, t.Shaped ∨ t.kind = .regex) : e.annotates = !key.spared first (declared || declares key.lexeme) := by
  obtain ⟨⟨kind, x⟩, hvalid⟩ := key
  simp only [List.mem_cons, List.not_mem_nil, or_false] at hvalid
  rw [ObjectKey.spared]
  rcases hvalid with rfl | hliteral
  · rw [annotates_of_word hkept, hframe]
    have hround : (Bracket.curly == Bracket.round) = false := rfl
    by_cases hcase : x = "case" <;> cases first <;>
      simp [keyFrame, objectFrame, Frame.opening, Frame.isRound, keyOpener, declarationWords, hround, hcase]
  · have hother : kind ≠ .identifier := by rcases hliteral with rfl | rfl <;> decide
    have hnot : (kind != .identifier) = true := bne_iff_ne.mpr hother
    rw [annotates_of_literal (m := (kind, x)) (by rw [hkept]; rfl) (by simpa using hliteral) hshaped, hnot, Bool.or_true, Bool.true_or]
    rfl

/-- The colon behind a key is kept, unless it looks like that of a variable. -/
theorem through_key_colon {key : ObjectKey} {first declared : Bool} {said : List Lexeme} (h : lexemes p.after = mark ":" :: others)
    (hscope : p.scope = ⟨keyFrame before declared key.lexeme, outer, false⟩)
    (hbefore : lexemes p.before = key.lexeme :: mark (keyOpener first) :: said) :
    Through PlainInObject (key.spared first (declared || declares key.lexeme) = true) p [mark ":"] others
      ⟨objectFrame before (declared || declares key.lexeme), outer, false⟩ := by
  refine .token h PlainInObject.sparesTrivia fun q t after hafter ht hothers hsaid hscope' => ?_
  have hplain : PlainInObject q.before t after := .of_mark _ _ _ ht
  have hmark : t.kind ≠ .regex := by rw [(lexeme_eq_mark ht).1]; decide
  have hat {e : Eraser} (he : q.At e) : e.scope = ⟨keyFrame before declared key.lexeme, outer, false⟩ :=
    he.scope.trans (hscope'.trans hscope)
  have hannotates {e : Eraser} (he : q.At e) : e.annotates = !key.spared first (declared || declares key.lexeme) :=
    annotates_of_key (congrArg Scope.frame (hat he)) (by rw [he.kept, hsaid, hbefore]) (he.kept ▸ he.shaped)
  refine Decides.congr ⟨fun hspared => ?_, fun hnot e he => ?_⟩ (and_iff_left hplain)
  · refine copies_of_step hafter hmark fun e us he _ => ⟨e.onColon, ?_, rfl, rfl, rfl, ?_⟩
    · rw [step_of_colon ht, if_neg (by rw [hannotates he, hspared]; decide)]
    · have hframe : e.frame = keyFrame before declared key.lexeme := congrArg Scope.frame (hat he)
      have houter : e.outer = outer := congrArg Scope.outer (hat he)
      have hahead : e.classAhead = false := congrArg Scope.ahead (hat he)
      simp only [scope, onColon, hframe, houter, hahead, Scope.mk.injEq, and_true]
      -- the colon is the one that the word `case` waits for
      by_cases hcase : key.lexeme = word "case" <;> simp [keyFrame, objectFrame, Frame.opening, hcase]
  · obtain ⟨us, hrest, -⟩ := (hafter ▸ he.reads : Reads q.before (t :: after) e.rest).next hmark
    refine lost_of_annotates he hafter ht hrest ?_
    rw [hannotates he, eq_false_of_ne_true hnot]
    rfl

/-! ## Values and members -/

theorem Atom.behind_eq {a : Atom} (h : a.lexeme ≠ word "case") (f : Frame) :
    a.behind f = { f with declaring := f.declaring || declares a.lexeme } := by
  obtain ⟨⟨kind, x⟩, _⟩ := a
  rw [Atom.behind, declares]
  split
  · rename_i hkind
    obtain rfl : kind = .identifier := hkind
    have hcase : x ≠ "case" := fun heq => h (congrArg word heq)
    rw [Frame.noting, if_neg hcase, beq_self_eq_true, Bool.true_and]
    cases declarationWords.contains x with
    | true => rw [if_pos rfl, Bool.or_true]
    | false => rw [if_neg Bool.false_ne_true, Bool.or_false]
  · rename_i hkind
    rw [beq_false_of_ne hkind, Bool.false_and, Bool.or_false]

theorem fits_members (members : ObjectMembers) (others : List Lexeme) : Fits ":" (members.lexemes false ++ mark "\x7d" :: others) := by
  cases members with
  | nil => exact fits_mark ":" "\x7d" (by decide) (by decide) (by decide)
  | cons key value more => exact fits_mark ":" "," (by decide) (by decide) (by decide)

end Walk

mutual

/-- The walk copies a value, unless it takes a key in it for something else. -/
theorem through_value {p : Place} {others : List Lexeme} {f : Frame} {outer : List Frame} {sign : String} :
    (value : ObjectValue) → lexemes p.after = value.lexemes ++ others → p.scope = ⟨f, outer, false⟩ → Fits sign others →
    (lexemes p.before).head? = some (mark sign) →
    Through PlainInObject (value.spared = true) p value.lexemes others ⟨{ f with declaring := f.declaring || value.declares }, outer, false⟩
  | .leaf a hnamed, h, hscope, hfits, hbefore => by
    rw [ObjectValue.lexemes, ObjectValue.declares, ObjectValue.spared, ← Atom.behind_eq fun heq => hnamed (heq ▸ List.mem_cons_self)]
    refine (through_atom h hscope PlainInObject.sparesTrivia hfits hbefore fun before t after ht => ?_).congr (iff_of_true rfl trivial)
    exact ⟨PlainInObject.regex, fun hregex => ⟨fun himport => absurd (ht.symm.trans himport) a.ne_import, hregex⟩⟩
  | .object members, h, hscope, _, _ => by
    rw [ObjectValue.lexemes, ObjectValue.declares, ObjectValue.spared, Bool.or_false]
    rw [ObjectValue.lexemes, List.cons_append, List.append_assoc, List.singleton_append] at h
    have hopener := through_opener (b := .curly) h hscope PlainInObject.sparesTrivia (fun h => absurd h Bool.false_ne_true) .of_mark
    have hmembers := hopener.trans _ fun q hscope hsaid hafter =>
      through_members members hafter (fun _ => by rw [hsaid]; rfl) hscope
    have hcloser := hmembers.trans [mark "\x7d"] fun q hscope _ hafter =>
      through_closer (b := .curly) hafter hscope PlainInObject.sparesTrivia rfl .of_mark
    exact Through.congr hcloser (by rw [and_true, true_and])

/-- The walk copies the members of an object, unless it takes a key in them for something else. -/
theorem through_members {p : Place} {others : List Lexeme} {before : Option String} {outer : List Frame} {first declared : Bool} :
    (members : ObjectMembers) → lexemes p.after = members.lexemes first ++ mark "\x7d" :: others →
    (first = true → (lexemes p.before).head? = some (mark "\x7b")) → p.scope = ⟨objectFrame before declared, outer, false⟩ →
    Through PlainInObject (members.spared first declared = true) p (members.lexemes first) (mark "\x7d" :: others)
      ⟨objectFrame before (declared || members.declares), outer, false⟩
  | .nil, h, _, hscope => by
    rw [ObjectMembers.lexemes, ObjectMembers.spared, ObjectMembers.declares, Bool.or_false]
    exact (Through.nil hscope h).congr (iff_of_true rfl trivial)
  | .cons key value more, h, hbefore, hscope => by
    rw [ObjectMembers.lexemes, ObjectMembers.spared, ObjectMembers.declares]
    simp only [ObjectMembers.lexemes, List.append_assoc, List.cons_append, List.nil_append] at h
    obtain ⟨said, hfirst⟩ : ∃ said, (if first then [] else [mark ","]).reverse ++ lexemes p.before = mark (keyOpener first) :: said := by
      cases first with
      | true => exact List.head?_eq_some_iff.mp (hbefore rfl)
      | false => exact ⟨lexemes p.before, rfl⟩
    have hkey := (through_separator h hscope PlainInObject.sparesTrivia .of_mark).trans [key.lexeme] fun q hscope hsaid hafter =>
      through_key hafter hscope (hsaid.trans hfirst)
    have hcolon := hkey.trans [mark ":"] fun q hscope hsaid hafter => by
      have hopened : lexemes q.before = key.lexeme :: mark (keyOpener first) :: said := by
        rw [hsaid, List.reverse_append, ← hfirst]
        rfl
      exact through_key_colon hafter hscope hopened
    have hvalue := Through.trans (s := ⟨objectFrame before (declared || declares key.lexeme || value.declares), outer, false⟩) _ hcolon
      fun q hscope hsaid hafter => through_value value hafter hscope (fits_members more others)
        (by rw [hsaid, List.reverse_append]; rfl)
    have hmore := hvalue.trans _ fun q hscope _ hafter => through_members more hafter (fun h => absurd h Bool.false_ne_true) hscope
    rw [List.append_assoc, List.append_assoc, List.append_assoc] at hmore
    simp only [Bool.or_assoc, Bool.and_eq_true, List.cons_append, List.nil_append, true_and] at hmore ⊢
    exact hmore

end

/-! ## Whole sources -/

/-- A source that assigns an object to a variable comes out as it is, and no module is noted, exactly where no colon behind a key looks like
that of a variable, where the key `import` stands behind a comma on its line, and where the source can be lexed from its beginning and from
the end of each regular expression on. -/
theorem object_copied_iff {content : String} {ts : List Token} (members : ObjectMembers)
    (hspells : Spells content.toList ts (word "x" :: mark "=" :: ((ObjectValue.object members).lexemes ++ [mark ";"]))) :
    erase content = .ok ⟨content, []⟩ ↔
      Lexable content.toList ∧ members.spared true false = true ∧ Everywhere PlainInObject [] ts [] := by
  refine erase_eq_iff_of_through PlainInObject.sparesTrivia hspells (s := ⟨.top, [], false⟩) rfl fun p hscope hbefore hafter => ?_
  have hname := through_word (C := True) (x := "x") (n := "=") hafter hscope PlainInObject.sparesTrivia (by decide)
    (by rw [hbefore]; decide) (by simp) (by simp) fun _ _ _ _ ht => iff_of_true ⟨trivial, .of_kind ht (by decide) (by simp)⟩ (by simp)
  have hassign := hname.trans [mark "="] fun q hscope _ hafter =>
    through_mark hafter hscope PlainInObject.sparesTrivia (by decide) (by decide) .of_mark
  have hobject := hassign.trans (ObjectValue.object members).lexemes fun q hscope hsaid hafter =>
    through_value (.object members) hafter hscope (fits_mark "=" ";" (by decide) (by decide) (by decide)) (by rw [hsaid]; rfl)
  have hend := hobject.trans [mark ";"] fun q hscope _ hafter =>
    through_semicolon hafter hscope PlainInObject.sparesTrivia .of_mark
  exact hend.congr (by rw [and_true, true_and, true_and, ObjectValue.spared])

/-- Reserved words as keys, a line break in front of a key, and an object in the object. -/
theorem object_copied_iff_reserved :
    ∃ ts, Spells "x = \x7b const: 1,\n2: \x7b case: this, import: type \x7d \x7d;".toList ts
        (word "x" :: mark "=" :: ((ObjectValue.object (.cons ⟨word "const", by decide⟩ (.leaf ⟨(.number, "1"), by decide⟩ (by decide))
          (.cons ⟨(.number, "2"), by decide⟩ (.object (.cons ⟨word "case", by decide⟩ (.leaf ⟨word "this", by decide⟩ (by decide))
            (.cons ⟨word "import", by decide⟩ (.leaf ⟨word "type", by decide⟩ (by decide)) .nil))) .nil))).lexemes ++ [mark ";"])) ∧
      erase "x = \x7b const: 1,\n2: \x7b case: this, import: type \x7d \x7d;" =
        .ok ⟨"x = \x7b const: 1,\n2: \x7b case: this, import: type \x7d \x7d;", []⟩ := by
  refine (exists_spells PlainInObject true ?_).elim fun hlexable hts => hts.imp fun ts ⟨hspells, hplain⟩ =>
    ⟨hspells, (object_copied_iff _ hspells).mpr ⟨hlexable, rfl, hplain.mpr rfl⟩⟩
  cbv

/-- Behind the key `let` the value of the key that follows is taken for a type. -/
theorem object_cut_of_let :
    (∃ ts, Spells "x = \x7b let: 1, b: 2 \x7d;".toList ts
        (word "x" :: mark "=" :: ((ObjectValue.object (.cons ⟨word "let", by decide⟩ (.leaf ⟨(.number, "1"), by decide⟩ (by decide))
          (.cons ⟨word "b", by decide⟩ (.leaf ⟨(.number, "2"), by decide⟩ (by decide)) .nil))).lexemes ++ [mark ";"]))) ∧
      erase "x = \x7b let: 1, b: 2 \x7d;" = .ok ⟨"x = \x7b let: 1, b \x7d;", []⟩ := by
  refine ⟨(exists_spells PlainInObject true ?_).2.imp fun ts h => h.1, ?_⟩
  · cbv
  · cbv

end ScriptLoader.Syntax
