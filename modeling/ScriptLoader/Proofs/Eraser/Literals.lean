import Mathlib
import ScriptLoader.Proofs.Core.Keeping
import ScriptLoader.Proofs.Eraser.Growth
import ScriptLoader.Proofs.Lexer.Literals

/-!
# Literals that are kept

The declaration of a constant whose value is a literal, read from its first character to its last. The eraser keeps the literal as one
token, and the declaration with it, exactly where the lexer does not cut the literal in two and reads the whole source, in which a
regular expression is so far a row of marks, names and texts in quotes (`literal_kept_iff`).
-/

namespace ScriptLoader.Syntax

open Eraser

/-! ## The declaration -/

/-- The declaration of a constant `x` with this value. -/
def declared (value : List Char) : String := String.ofList ("const x = ".toList ++ (value ++ [';']))

theorem toList_declared (value : List Char) : (declared value).toList = "const x = ".toList ++ (value ++ [';']) := String.toList_ofList

/-- The tokens in front of the value. -/
def opening : List Token :=
  [⟨.identifier, "const", 0, ⟨1, 1⟩⟩, ⟨.blank, " ", 5, ⟨1, 6⟩⟩, ⟨.identifier, "x", 6, ⟨1, 7⟩⟩, ⟨.blank, " ", 7, ⟨1, 8⟩⟩,
   ⟨.punctuation, "=", 8, ⟨1, 9⟩⟩, ⟨.blank, " ", 9, ⟨1, 10⟩⟩]

/-- Up to the value, the lexer reads the same in every declaration. -/
theorem tokenize_declared {value : List Char} (hvalue : (value ++ [';']).head?.any isBlankChar = false) :
    tokenize (declared value).toList 0 .first = (lexFrom ⟨1, 11⟩ 10 (value ++ [';'])).map (opening ++ ·) := by
  generalize hcs : value ++ [';'] = cs at hvalue
  have h₆ : lexemeLength (" ".toList ++ cs) = some (.blank, 1) := by
    rw [lexemeLength_blank ⟨by decide, List.all_eq_true.mp rfl⟩, run_eq_zero_iff.mpr hvalue]
    rfl
  have h₁ : lexemeLength ("const".toList ++ (" x = ".toList ++ cs)) = some (.identifier, 5) := rfl
  have h₂ : lexemeLength (" ".toList ++ ("x = ".toList ++ cs)) = some (.blank, 1) := rfl
  have h₃ : lexemeLength ("x".toList ++ (" = ".toList ++ cs)) = some (.identifier, 1) := rfl
  have h₄ : lexemeLength (" ".toList ++ ("= ".toList ++ cs)) = some (.blank, 1) := rfl
  have h₅ : lexemeLength ("=".toList ++ (" ".toList ++ cs)) = some (.punctuation, 1) := rfl
  have hall := (lexFrom_append h₁ .first 0).trans (congrArg _ ((lexFrom_append h₂ ⟨1, 6⟩ 5).trans (congrArg _
    ((lexFrom_append h₃ ⟨1, 7⟩ 6).trans (congrArg _ ((lexFrom_append h₄ ⟨1, 8⟩ 7).trans (congrArg _
      ((lexFrom_append h₅ ⟨1, 9⟩ 8).trans (congrArg _ (lexFrom_append h₆ ⟨1, 10⟩ 9))))))))))
  refine (tokenize_first _).trans ((congrArg _ ((toList_declared value).trans (congrArg _ hcs))).trans (hall.trans ?_))
  show Except.map _ (Except.map _ (Except.map _ (Except.map _ (Except.map _ (Except.map _ (lexFrom ⟨1, 11⟩ 10 cs)))))) = _
  cases lexFrom ⟨1, 11⟩ 10 cs <;> rfl

/-- The walk behind some of these tokens. -/
def behind (n : Nat) (ts : List Token) : Eraser :=
  { start (opening.drop n ++ ts) with
    passed := (opening.take n).reverse, kept := (opening.take n).reverse, frame := { Frame.top with declaring := decide (0 < n) } }

/-- Nothing is asked of the value before the walk is there. -/
theorem reaches_value (ts : List Token) : Reaches (start (opening ++ ts)) (behind 6 ts) := by
  have h₁ : Steps (start (opening ++ ts)) (behind 1 ts) := .of_eq rfl rfl rfl
  have h₂ : Steps (behind 1 ts) (behind 2 ts) := .of_eq rfl rfl rfl
  have h₃ : Steps (behind 2 ts) (behind 3 ts) := .of_eq rfl rfl rfl
  have h₄ : Steps (behind 3 ts) (behind 4 ts) := .of_eq rfl rfl rfl
  have h₅ : Steps (behind 4 ts) (behind 5 ts) := .of_eq rfl rfl rfl
  have h₆ : Steps (behind 5 ts) (behind 6 ts) := .of_eq rfl rfl rfl
  exact .next h₁ (.next h₂ (.next h₃ (.next h₄ (.next h₅ (.single h₆)))))

/-! ## The value -/

/-- The value is one token for the eraser, and its declaration comes out as it was written. -/
def KeptWhole (k : TokenKind) (value : List Char) : Prop :=
  ∃ ts e, tokenize (declared value).toList 0 .first = .ok ts ∧ walk (start ts) = .ok e ∧
    lexemes e.kept.reverse = [word "const", word "x", mark "=", (k, String.ofList value), mark ";"] ∧
    erase (declared value) = .ok ⟨declared value, []⟩

/-- Behind the value, only the semicolon is left. -/
theorem keptWhole_of_reaches {k : TokenKind} {value : List Char} {ts : List Token} {e : Eraser} {t s : Token}
    (hlex : tokenize (declared value).toList 0 .first = .ok ts) (hrun : Reaches (start ts) e) (hrest : e.rest = [s])
    (hs : s.lexeme = mark ";") (hkept : e.kept = t :: opening.reverse) (ht : t.lexeme = (k, String.ofList value))
    (hk : t.isTrivia = false) (hbracket : e.frame.bracket = none) (hspecifiers : e.specifiers = []) : KeptWhole k value := by
  obtain ⟨hkind, htext⟩ := lexeme_eq_mark hs
  have hstep : step e s [] = .ok (keep { e with frame := { e.frame with declaring := false } } s []) := by
    rw [step_of_other hkind (by rw [htext]; decide), onMark, htext]
    rfl
  have hwalk : walk (start ts) = .ok (keep { e with frame := { e.frame with declaring := false } } s []).1 := by
    have hclosed : (keep { e with frame := { e.frame with declaring := false } } s []).1.frame.bracket = none := hbracket
    rw [hrun.walk_eq, walk_of_ok hrest hstep, walk_of_nil rfl, finish, hclosed]
    rfl
  have htokens : (s :: e.kept).reverse = opening ++ [t, s] := by
    rw [hkept, List.reverse_cons, List.reverse_cons, List.reverse_reverse, List.append_assoc]
    rfl
  refine ⟨ts, _, hlex, hwalk, ?_, ?_⟩
  · show lexemes (s :: e.kept).reverse = _
    have hs' : s.isTrivia = false := by rw [Token.isTrivia, hkind]; rfl
    rw [htokens, lexemes_append, lexemes_cons_of_not hk, lexemes_cons_of_not hs', ht, hs]
    rfl
  · have houtput : (keep { e with frame := { e.frame with declaring := false } } s []).1.output = declared value := by
      refine String.toList_inj.mp ((toList_output _).trans ?_)
      show sourceText (s :: e.kept).reverse = _
      have hvalue : t.text.toList = value := by
        rw [show t.text = String.ofList value from congrArg Prod.snd ht, String.toList_ofList]
      rw [htokens, sourceText_append, sourceText_cons, sourceText_cons, hvalue, htext, toList_declared]
      rfl
    rw [erase, hlex]
    simp only [hwalk, Except.map, houtput]
    show Except.ok (Erased.mk (declared value) e.specifiers.reverse) = _
    rw [hspecifiers]
    rfl

theorem lexFrom_semicolon (p : Position) (start : Nat) : lexFrom p start [';'] = .ok [⟨.punctuation, ";", start, p⟩] := by
  have h : lexemeLength ([';'] ++ []) = some (.punctuation, 1) := rfl
  have h := lexFrom_append h p start
  rw [List.append_nil] at h
  rw [h, lexFrom]
  rfl

/-- What the lexer takes first of the value. -/
def firstToken (k : TokenKind) (n : Nat) (value : List Char) : Token := ⟨k, String.ofList ((value ++ [';']).take n), 10, ⟨1, 11⟩⟩

section First

variable {k : TokenKind} {n : Nat} {value : List Char}

/-- The declaration is lexed where what stands behind the first token of the value is. -/
theorem tokenize_of_read (hread : lexemeLength (value ++ [';']) = some (k, n))
    (hvalue : (value ++ [';']).head?.any isBlankChar = false) :
    ∃ p start, tokenize (declared value).toList 0 .first =
      (lexFrom p start ((value ++ [';']).drop n)).map (opening ++ firstToken k n value :: ·) := by
  have hlen : ((value ++ [';']).take n).length = n := List.length_take_of_le (shape_of_lexemeLength hread).2.1
  have hfront : lexemeLength ((value ++ [';']).take n ++ (value ++ [';']).drop n) = some (k, ((value ++ [';']).take n).length) := by
    rw [List.take_append_drop, hlen]
    exact hread
  have hlex := lexFrom_append hfront ⟨1, 11⟩ 10
  rw [hlen, List.take_append_drop] at hlex
  refine ⟨Position.advance ⟨1, 11⟩ ((value ++ [';']).take n), 10 + n, ?_⟩
  rw [tokenize_declared hvalue, hlex]
  cases lexFrom _ (10 + n) ((value ++ [';']).drop n) <;> rfl

/-- The walk keeps it. -/
theorem reaches_behind_first (hk : isLiteralKind k = true) (us : List Token) :
    Reaches (start (opening ++ firstToken k n value :: us))
      (keep (behind 6 (firstToken k n value :: us)) (firstToken k n value) us).1 :=
  (reaches_value _).trans (.single (.intro rfl (step_of_literal hk)))

theorem firstToken_isTrivia (hk : isLiteralKind k = true) : (firstToken k n value).isTrivia = false := by
  show (k == .blank || k == .lineComment || k == .blockComment) = false
  cases k <;> first | rfl | nomatch hk

/-- A literal that the lexer reads as a whole is kept. -/
theorem keptWhole_of_read (hk : isLiteralKind k = true) (hread : lexemeLength (value ++ [';']) = some (k, value.length))
    (hvalue : (value ++ [';']).head?.any isBlankChar = false) : KeptWhole k value := by
  obtain ⟨p, first, hlex⟩ := tokenize_of_read hread hvalue
  rw [List.drop_left, lexFrom_semicolon] at hlex
  have htext : (firstToken k value.length value).lexeme = (k, String.ofList value) := by
    rw [firstToken, List.take_left]
    rfl
  exact keptWhole_of_reaches hlex (reaches_behind_first hk _) rfl rfl rfl htext (firstToken_isTrivia hk) rfl rfl

/-- A value at whose start no token can be read is not kept. -/
theorem not_keptWhole_of_unread (hread : lexemeLength (value ++ [';']) = none)
    (hvalue : (value ++ [';']).head?.any isBlankChar = false) : ¬KeptWhole k value := by
  rintro ⟨ts, e, hlex, -⟩
  rw [tokenize_declared hvalue] at hlex
  obtain ⟨us, hus, -⟩ := ok_of_map hlex
  cases value with
  | nil => nomatch hread
  | cons c cs =>
    rw [List.cons_append] at hread hus
    simp [lexFrom, hread] at hus

/-- Of a literal that is cut, the token behind the equals sign is the first part only, and it stays. -/
theorem not_keptWhole_of_short (hk : isLiteralKind k = true) (hn : n < value.length)
    (hread : lexemeLength (value ++ [';']) = some (k, n)) (hvalue : (value ++ [';']).head?.any isBlankChar = false) :
    ¬KeptWhole k value := by
  rintro ⟨ts, e, hlex, hwalk, hlexemes, -⟩
  obtain ⟨p, first, hlex'⟩ := tokenize_of_read hread hvalue
  obtain ⟨us, _, rfl⟩ := ok_of_map (hlex'.symm.trans hlex)
  have hrun : Reaches (start (opening ++ firstToken k n value :: us))
      (keep (behind 6 (firstToken k n value :: us)) (firstToken k n value) us).1 := reaches_behind_first hk us
  have hend := (reaches_of_walk (hrun.walk_eq.symm.trans hwalk)).1
  have hkept : [(firstToken k n value).lexeme, mark "=", word "x", word "const"] <:+
      lexemes (keep (behind 6 (firstToken k n value :: us)) (firstToken k n value) us).1.kept := by
    refine ⟨[], Eq.symm ?_⟩
    exact lexemes_cons_of_not (firstToken_isTrivia hk) _
  have hshape : (firstToken k n value).Shaped := by
    rw [Token.Shaped, firstToken, String.toList_ofList]
    exact (shape_of_lexemeLength hread).2.2
  have hother : (firstToken k n value).lexeme.2 ≠ "export" := by
    intro hexport
    obtain rfl : k = .identifier := hshape.kind_of_export hexport
    simp [isLiteralKind] at hk
  obtain ⟨later, hlater⟩ := suffix_of_reaches hother hend hkept
  -- the fourth lexeme that was kept is the value, and it is shorter than the value
  rw [lexemes_reverse, ← hlater, List.reverse_append] at hlexemes
  have hsame : (firstToken k n value).text = String.ofList value := by
    injection hlexemes with _ hlexemes
    injection hlexemes with _ hlexemes
    injection hlexemes with _ hlexemes
    injection hlexemes with h _
    exact congrArg Prod.snd h
  have hlength := congrArg List.length (String.ofList_injective hsame)
  rw [List.length_take_of_le (shape_of_lexemeLength hread).2.1] at hlength
  omega

end First

/-- A regular expression is kept where the lexer got through it. -/
theorem keptWhole_of_regex {value : List Char} (h : Literal .regex false value) {ts : List Token}
    (hlex : tokenize (declared value).toList 0 .first = .ok ts) : KeptWhole .regex value := by
  have hlength : regexLength (value ++ [';']) = some value.length := regexLength_of_literal h rfl
  obtain ⟨c, cs, hslash, hc⟩ : ∃ c cs, value = '/' :: c :: cs ∧ c ∉ ['/', '*'] := exists_slash_of_literal h
  have hvalue : (value ++ [';']).head?.any isBlankChar = false := by rw [hslash]; rfl
  have hread : lexemeLength (value ++ [';']) = some (.punctuation, if c = '=' then 2 else 1) := by
    rw [hslash]
    exact lexemeLength_slash hc (cs ++ [';'])
  obtain ⟨p, first, hlex'⟩ := tokenize_of_read hread hvalue
  obtain ⟨us, hus, rfl⟩ := ok_of_map (hlex'.symm.trans hlex)
  generalize hn : (if c = '=' then 2 else 1) = n at *
  have htext : (firstToken .punctuation n value).text = "/" ∨ (firstToken .punctuation n value).text = "/=" := by
    rw [firstToken, hslash, ← hn]
    by_cases heq : c = '='
    · subst heq
      exact Or.inr rfl
    · rw [if_neg heq]
      exact Or.inl rfl
  have hsource : sourceText (firstToken .punctuation n value :: us) = value ++ [';'] := by
    rw [sourceText_cons, sourceText_lexFrom hus, firstToken, String.toList_ofList, List.take_append_drop]
  obtain ⟨hw, hstep⟩ := step_of_regex (e := behind 6 (firstToken .punctuation n value :: us)) rfl htext rfl
    (by rw [hsource]; exact hlength) (by rw [hsource, List.drop_left]; exact lexFrom_semicolon _ _)
  have hlexeme : (regexToken (firstToken .punctuation n value) (sourceText (firstToken .punctuation n value :: us)) value.length).lexeme =
      (.regex, String.ofList value) := by
    rw [hsource, regexToken, List.take_left]
    rfl
  exact keptWhole_of_reaches hlex ((reaches_value _).trans (.single (.intro rfl hstep))) rfl rfl rfl hlexeme rfl rfl rfl

/-! ## Literals -/

theorem Literal.no_blank {k : TokenKind} {cut : Bool} {value : List Char} (h : Literal k cut value) (cs : List Char) :
    (value ++ cs).head?.any isBlankChar = false := by
  cases h with
  | string hq => exact of_quote hq rfl rfl
  | template => rfl
  | regex => rfl

/-- A literal is kept exactly where it is not cut, and where the source can be lexed if it is a regular expression. A regular expression
can be kept whatever it says if it is made of blanks, digits, letters and marks; in others a quote may have no partner. -/
theorem literal_kept_iff {k : TokenKind} {cut : Bool} {value : List Char} (h : Literal k cut value) :
    (KeptWhole k value ↔ cut = false ∧ (k = .regex → ∃ ts, tokenize (declared value).toList 0 .first = .ok ts)) ∧
      (k = .regex → (∀ c ∈ value, isKnown c = true) → KeptWhole k value) := by
  have hregex (hk : k = .regex) : (∃ ts, tokenize (declared value).toList 0 .first = .ok ts) → KeptWhole k value := by
    subst hk
    rintro ⟨ts, hlex⟩
    cases h with
    | regex hbody hne hstar hflags => exact keptWhole_of_regex (.regex hbody hne hstar hflags) hlex
  refine ⟨?_, fun hk hknown => hregex hk ?_⟩
  · by_cases hk : k = .regex
    · have hcut : cut = false := by
        subst hk
        cases h
        rfl
      exact ⟨fun ⟨ts, _, hlex, _⟩ => ⟨hcut, fun _ => ⟨ts, hlex⟩⟩, fun ⟨_, hlex⟩ => hregex hk (hlex hk)⟩
    · have hliteral : isLiteralKind k = true := by
        cases h with
        | string => rfl
        | template => rfl
        | regex => exact absurd rfl hk
      rcases h.read hk [';'] with ⟨hcut, hread⟩ | ⟨hcut, hread⟩
      · exact iff_of_true (keptWhole_of_read hliteral hread (h.no_blank _)) ⟨hcut, fun hk' => absurd hk' hk⟩
      · refine iff_of_false ?_ fun hwhole => by simp [hcut] at hwhole
        rcases hread with hnone | ⟨n, hn, hread⟩
        · exact not_keptWhole_of_unread hnone (h.no_blank _)
        · exact not_keptWhole_of_short hliteral hn hread (h.no_blank _)
  · rw [tokenize_first]
    refine lexFrom_of_known (fun c hc => ?_) _ _
    rw [toList_declared] at hc
    rcases List.mem_append.mp hc with hc | hc
    · exact List.all_eq_true.mp (by decide : "const x = ".toList.all isKnown = true) c hc
    · rcases List.mem_append.mp hc with hc | hc
      · exact hknown c hc
      · rw [List.mem_singleton.mp hc]
        decide

/-- A quote in the text of a template and a bracket in a string of its substitution mean nothing. -/
theorem literal_kept_iff_template :
    Literal .template false "\x60\x27$\x7b\x22\x7d\x22\x7d\x60".toList ∧
      KeptWhole .template "\x60\x27$\x7b\x22\x7d\x22\x7d\x60".toList := by
  have hbody : StringBody '\x22' false false ['\x7d'] := .char (c := '\x7d') (by decide) .nil
  have hliteral : Literal .template false "\x60\x27$\x7b\x22\x7d\x22\x7d\x60".toList :=
    .template (.char (by decide) (.substitution (.string (by decide) hbody (.nil true)) (.nil false)))
  exact ⟨hliteral, (literal_kept_iff hliteral).1.mpr ⟨rfl, nofun⟩⟩

/-- A template ends at the template in its substitution, whose text is then read as code: the cast in it is erased. -/
theorem literal_cut_of_nested :
    Literal .template true "\x60$\x7b\x60a as b\x60\x7d\x60".toList ∧
      declared "\x60$\x7b\x60a as b\x60\x7d\x60".toList = "const x = \x60$\x7b\x60a as b\x60\x7d\x60;" ∧
      erase "const x = \x60$\x7b\x60a as b\x60\x7d\x60;" = .ok ⟨"const x = \x60$\x7b\x60a\x60\x7d\x60;", []⟩ := by
  have hinside : TemplateText false false ['a', ' ', 'a', 's', ' ', 'b'] :=
    .char (by decide) (.char (by decide) (.char (by decide) (.char (by decide) (.char (by decide) (.char (by decide) (.nil false))))))
  refine ⟨.template (.substitution (.template hinside (.nil true)) (.nil false)), rfl, ?_⟩
  cbv

end ScriptLoader.Syntax
