import ScriptLoader.Proofs.Lexer.Munch

/-!
# Literals

The strings, templates and regular expressions of the language as grammars over their characters (`Literal`), and what the lexer reads
at the start of each. A string is not read where a line continuation in it is made of two characters; a template is cut short where
a substitution has a backquote in it; a regular expression is read as a slash, and the eraser puts it together later.
-/

namespace ScriptLoader.Syntax

open ScriptLoader.Text

/-! ## Strings -/

/-- What is so of both quotes is so of each. -/
@[elab_as_elim]
theorem of_quote {motive : Char → Prop} {q : Char} (hq : q ∈ ['\x22', '\x27']) (hdouble : motive '\x22') (hsingle : motive '\x27') :
    motive q := by
  simp only [List.mem_cons, List.not_mem_nil, or_false] at hq
  rcases hq with rfl | rfl
  · exact hdouble
  · exact hsingle

/-- What stands between the quotes of a string. A backslash takes the character behind it along. In front of a carriage return and a
line feed it takes both, and the string is `wrapped`; a string is `ticked` if a backquote stands in it without a backslash. -/
inductive StringBody (quote : Char) : (wrapped ticked : Bool) → List Char → Prop where
  | nil : StringBody quote false false []
  | char {wrapped ticked : Bool} {c : Char} {w : List Char} (hc : c ∉ [quote, '\\', '\n', '\r'])
      (h : StringBody quote wrapped ticked w) : StringBody quote wrapped (c == '\x60' || ticked) (c :: w)
  | escape {wrapped ticked : Bool} {w : List Char} (c : Char) (h : StringBody quote wrapped ticked w) :
      StringBody quote wrapped ticked ('\\' :: c :: w)
  | wrap {wrapped ticked : Bool} {w : List Char} (h : StringBody quote wrapped ticked w) :
      StringBody quote true ticked ('\\' :: '\r' :: '\n' :: w)

theorem quoteEnd_escape (q c : Char) (m : Bool) (cs : List Char) :
    quoteEnd q m ('\\' :: c :: cs) = (quoteEnd q m cs).map (· + 2) := by rw [quoteEnd]

/-- A string is read up to its closing quote, unless it is wrapped: the line feed stands for itself then, and the string has no end. -/
theorem quoteEnd_of_stringBody {q : Char} {wrapped ticked : Bool} {w : List Char} (hq : q ∉ ['\\', '\n'])
    (h : StringBody q wrapped ticked w) (cs : List Char) :
    quoteEnd q false (w ++ q :: cs) = if wrapped then none else some (w.length + 1) := by
  simp only [List.mem_cons, List.not_mem_nil, or_false, not_or] at hq
  induction h with
  | nil => rw [List.nil_append, quoteEnd_cons hq.1, if_pos rfl]; rfl
  | @char wrapped ticked c w hc _ ih =>
    simp only [List.mem_cons, List.not_mem_nil, or_false, not_or] at hc
    obtain ⟨hquote, hslash, hline, _⟩ := hc
    rw [List.cons_append, quoteEnd_cons hslash, if_neg hquote, decide_eq_false hline, Bool.false_and, if_neg (by nofun), ih]
    cases wrapped <;> rfl
  | @escape wrapped ticked w c _ ih =>
    rw [List.cons_append, List.cons_append, quoteEnd_escape, ih]
    cases wrapped <;> rfl
  | wrap _ _ =>
    have hstop (us : List Char) : quoteEnd q false ('\n' :: us) = none := by
      rw [quoteEnd_cons (by decide), if_neg (Ne.symm hq.2)]
      rfl
    rw [List.cons_append, List.cons_append, List.cons_append, quoteEnd_escape, hstop]
    rfl

/-! ## Templates -/

/-- How a template is read at a text: as a whole, or only up to a backquote in it. -/
def ReadInTemplate : (interrupted : Bool) → List Char → Prop
  | false, w => ∀ cs, quoteEnd '\x60' true (w ++ cs) = (quoteEnd '\x60' true cs).map (· + w.length)
  | true, w => ∃ n ≤ w.length, ∀ cs, quoteEnd '\x60' true (w ++ cs) = some n

namespace ReadInTemplate

theorem nil : ReadInTemplate false [] := fun cs => by
  rw [List.nil_append]
  cases quoteEnd '\x60' true cs <;> rfl

theorem char {c : Char} (hc : c ∉ ['\x60', '\\']) : ReadInTemplate false [c] := by
  simp only [List.mem_cons, List.not_mem_nil, or_false, not_or] at hc
  intro cs
  rw [List.cons_append, List.nil_append, quoteEnd_cons hc.2, if_neg hc.1, Bool.not_true, Bool.and_false, if_neg (by nofun)]
  rfl

theorem escape (c : Char) : ReadInTemplate false ['\\', c] := fun cs => quoteEnd_escape '\x60' c true cs

theorem backquote : ReadInTemplate true ['\x60'] :=
  ⟨1, Nat.le_refl 1, fun cs => by rw [List.cons_append, quoteEnd_cons (by decide), if_pos rfl]⟩

theorem append {a b : Bool} {w v : List Char} (hw : ReadInTemplate a w) (hv : ReadInTemplate b v) :
    ReadInTemplate (a || b) (w ++ v) := by
  cases a with
  | true =>
    obtain ⟨n, hle, hn⟩ := hw
    refine ⟨n, ?_, fun cs => ?_⟩
    · rw [List.length_append]
      omega
    · rw [List.append_assoc, hn]
  | false =>
    cases b with
    | false =>
      intro cs
      rw [List.append_assoc, hw, hv, Option.map_map, List.length_append]
      congr 1
      funext n
      show n + v.length + w.length = n + (w.length + v.length)
      omega
    | true =>
      obtain ⟨n, hle, hn⟩ := hv
      refine ⟨n + w.length, ?_, fun cs => ?_⟩
      · rw [List.length_append]
        omega
      · rw [List.append_assoc, hw, hn]
        rfl

/-- A string is interrupted by a bare backquote only. -/
theorem string {q : Char} {wrapped ticked : Bool} {w : List Char} (h : StringBody q wrapped ticked w) : ReadInTemplate ticked w := by
  induction h with
  | nil => exact nil
  | @char wrapped ticked c w hc _ ih =>
    by_cases htick : c = '\x60'
    · subst htick
      exact backquote.append ih
    · rw [beq_false_of_ne htick]
      have hslash : c ≠ '\\' := fun heq => hc (heq ▸ by simp)
      exact (char (by simp [htick, hslash])).append ih
  | escape c _ ih => exact (escape c).append ih
  | wrap _ ih => exact (escape '\r').append ((char (by decide)).append ih)

end ReadInTemplate

/-- What stands in a template: its text, or code in a substitution, where strings, templates and blocks stand as a whole. It is
`interrupted` if the code has a template in it or a string with a bare backquote. -/
inductive TemplateText : (code interrupted : Bool) → List Char → Prop where
  | nil (code : Bool) : TemplateText code false []
  | escape {code interrupted : Bool} {w : List Char} (c : Char) (h : TemplateText code interrupted w) :
      TemplateText code interrupted ('\\' :: c :: w)
  | char {interrupted : Bool} {c : Char} {w : List Char} (hc : c ∉ ['\x60', '\\', '$']) (h : TemplateText false interrupted w) :
      TemplateText false interrupted (c :: w)
  | dollar {interrupted : Bool} {w : List Char} (hw : w.head? ≠ some '\x7b') (h : TemplateText false interrupted w) :
      TemplateText false interrupted ('$' :: w)
  | substitution {inside interrupted : Bool} {code w : List Char} (hcode : TemplateText true inside code)
      (h : TemplateText false interrupted w) : TemplateText false (inside || interrupted) ('$' :: '\x7b' :: (code ++ '\x7d' :: w))
  | other {interrupted : Bool} {c : Char} {w : List Char} (hc : c ∉ ['\x60', '\\', '\x22', '\x27', '\x7b', '\x7d'])
      (h : TemplateText true interrupted w) : TemplateText true interrupted (c :: w)
  | block {inside interrupted : Bool} {code w : List Char} (hcode : TemplateText true inside code)
      (h : TemplateText true interrupted w) : TemplateText true (inside || interrupted) ('\x7b' :: (code ++ '\x7d' :: w))
  | string {wrapped ticked interrupted : Bool} {q : Char} {body w : List Char} (hq : q ∈ ['\x22', '\x27'])
      (hbody : StringBody q wrapped ticked body) (h : TemplateText true interrupted w) :
      TemplateText true (ticked || interrupted) (q :: (body ++ q :: w))
  | template {inside interrupted : Bool} {text w : List Char} (htext : TemplateText false inside text)
      (h : TemplateText true interrupted w) : TemplateText true true ('\x60' :: (text ++ '\x60' :: w))

/-- A template is read past its substitutions, unless one has a bare backquote in it. -/
theorem TemplateText.read {code interrupted : Bool} {w : List Char} (h : TemplateText code interrupted w) :
    ReadInTemplate interrupted w := by
  have hsubset {c : Char} {cs : List Char} (hc : c ∉ '\x60' :: '\\' :: cs) : c ∉ ['\x60', '\\'] := by
    intro hmem
    exact hc ((List.sublist_append_left ['\x60', '\\'] cs).mem hmem)
  have hclose : ReadInTemplate false ['\x7d'] := .char (by decide)
  induction h with
  | nil => exact .nil
  | escape c _ ih => exact (ReadInTemplate.escape c).append ih
  | char hc _ ih => exact (ReadInTemplate.char (hsubset hc)).append ih
  | dollar _ _ ih => exact (ReadInTemplate.char (by decide)).append ih
  | substitution _ _ ihcode ih =>
    exact (ReadInTemplate.char (c := '$') (by decide)).append
      ((ReadInTemplate.char (c := '\x7b') (by decide)).append (ihcode.append (hclose.append ih)))
  | other hc _ ih => exact (ReadInTemplate.char (hsubset hc)).append ih
  | block _ _ ihcode ih =>
    exact (ReadInTemplate.char (c := '\x7b') (by decide)).append (ihcode.append (hclose.append ih))
  | @string _ _ _ q _ _ hq hbody _ ih =>
    have hquote : ReadInTemplate false [q] := of_quote hq (.char (by decide)) (.char (by decide))
    exact hquote.append ((ReadInTemplate.string hbody).append (hquote.append ih))
  | template _ _ ihtext ih => exact ReadInTemplate.backquote.append (ihtext.append (ReadInTemplate.backquote.append ih))

/-! ## Regular expressions -/

/-- The characters that end a line of code. -/
def lineTerminators : List Char := ['\n', '\r', '\u2028', '\u2029']

/-- A class of characters, without its brackets. -/
inductive ClassBody : List Char → Prop where
  | nil : ClassBody []
  | char {c : Char} {w : List Char} (hc : c ∉ ']' :: '\\' :: lineTerminators) (h : ClassBody w) : ClassBody (c :: w)
  | escape {c : Char} {w : List Char} (hc : c ∉ lineTerminators) (h : ClassBody w) : ClassBody ('\\' :: c :: w)

/-- What stands between the slashes of a regular expression. -/
inductive RegexBody : List Char → Prop where
  | nil : RegexBody []
  | char {c : Char} {w : List Char} (hc : c ∉ '/' :: '\\' :: '[' :: lineTerminators) (h : RegexBody w) : RegexBody (c :: w)
  | escape {c : Char} {w : List Char} (hc : c ∉ lineTerminators) (h : RegexBody w) : RegexBody ('\\' :: c :: w)
  | charClass {inside w : List Char} (hinside : ClassBody inside) (h : RegexBody w) : RegexBody ('[' :: (inside ++ ']' :: w))

theorem classEnd_of_classBody {w : List Char} (h : ClassBody w) (cs : List Char) : classEnd (w ++ ']' :: cs) = some (w.length + 1) := by
  induction h with
  | nil => rfl
  | @char c w hc _ ih =>
    simp only [List.mem_cons, not_or, lineTerminators] at hc
    obtain ⟨hbracket, hslash, hline, _⟩ := hc
    rw [List.cons_append, classEnd, if_neg hbracket, decide_eq_false hslash, decide_eq_false hline, if_neg (by nofun), ih]
    · rfl
    · intro d ds hd _
      exact hslash hd
  | @escape c w hc _ ih =>
    simp only [List.mem_cons, not_or, lineTerminators] at hc
    rw [List.cons_append, List.cons_append, classEnd, if_neg hc.1, ih]
    rfl

theorem regexBodyEnd_of_regexBody {w : List Char} (h : RegexBody w) (cs : List Char) :
    regexBodyEnd (w ++ '/' :: cs) = some (w.length + 1) := by
  induction h with
  | nil =>
    rw [List.nil_append, regexBodyEnd.eq_def]
    rfl
  | @char c w hc _ ih =>
    simp only [List.mem_cons, not_or, lineTerminators] at hc
    obtain ⟨hend, hslash, hbracket, hline, _⟩ := hc
    rw [List.cons_append, regexBodyEnd.eq_def]
    simp only [if_neg hend, if_neg hline, if_neg hslash, if_neg hbracket, ih]
    rfl
  | @escape c w hc _ ih =>
    simp only [List.mem_cons, not_or, lineTerminators] at hc
    rw [List.cons_append, List.cons_append, regexBodyEnd.eq_def]
    simp only [Char.reduceEq, if_true, if_false, if_neg hc.1, ih]
    rfl
  | @charClass inside w hinside _ ih =>
    have hclass := classEnd_of_classBody hinside (w ++ '/' :: cs)
    rw [List.cons_append, List.append_assoc, List.cons_append, regexBodyEnd.eq_def]
    simp only [Char.reduceEq, if_true, if_false, hclass]
    have hdrop : (inside ++ ']' :: (w ++ '/' :: cs)).drop (inside.length + 1) = w ++ '/' :: cs := by
      rw [List.drop_append, List.drop_eq_nil_of_le (by omega), Nat.add_sub_cancel_left]
      rfl
    simp only [hdrop, ih, Option.map_some, List.length_cons, List.length_append, Option.some.injEq]
    omega

/-! ## All literals -/

/-- The literals of the three classes; a literal is `cut` where the lexer does not read it as a whole. -/
inductive Literal : TokenKind → (cut : Bool) → List Char → Prop where
  | string {q : Char} {wrapped ticked : Bool} {body : List Char} (hq : q ∈ ['\x22', '\x27']) (hbody : StringBody q wrapped ticked body) :
      Literal .string wrapped (q :: (body ++ [q]))
  | template {interrupted : Bool} {text : List Char} (htext : TemplateText false interrupted text) :
      Literal .template interrupted ('\x60' :: (text ++ ['\x60']))
  | regex {body flags : List Char} (hbody : RegexBody body) (hne : body ≠ []) (hstar : body.head? ≠ some '*')
      (hflags : ∀ c ∈ flags, c.isAlpha = true) : Literal .regex false ('/' :: (body ++ '/' :: flags))

/-- A quote without its partner begins no token. -/
theorem lexemeLength_unclosed {q : Char} (hq : q ∈ ['\x22', '\x27']) {cs : List Char} (hend : quoteEnd q false cs = none) :
    lexemeLength (q :: cs) = none := by
  have hstring : stringLength (q :: cs) = none := by
    rw [stringLength, hend]
    split <;> rfl
  rw [lexemeLength, hstring]
  exact of_quote hq rfl rfl

/-- A string or template that is not cut is one token. A string that is cut is none, and a template that is cut is a shorter one. -/
theorem Literal.read {k : TokenKind} {cut : Bool} {w : List Char} (h : Literal k cut w) (hk : k ≠ .regex) (cs : List Char) :
    (cut = false ∧ lexemeLength (w ++ cs) = some (k, w.length)) ∨
      cut = true ∧ (lexemeLength (w ++ cs) = none ∨ ∃ n < w.length, lexemeLength (w ++ cs) = some (k, n)) := by
  cases h with
  | regex => exact absurd rfl hk
  | @string q wrapped ticked body hq hbody =>
    have hquote : q ∉ ['\\', '\n'] := of_quote hq (by decide) (by decide)
    have hend := quoteEnd_of_stringBody hquote hbody
    cases cut with
    | false =>
      refine Or.inl ⟨rfl, lexemeLength_string ⟨q, body ++ [q], rfl, by simpa using hq, ?_⟩ cs⟩
      rw [hend, List.length_append]
      rfl
    | true =>
      refine Or.inr ⟨rfl, Or.inl ?_⟩
      rw [List.cons_append, List.append_assoc]
      exact lexemeLength_unclosed hq (hend cs)
  | @template interrupted text htext =>
    have hread := htext.read
    cases cut with
    | false =>
      refine Or.inl ⟨rfl, lexemeLength_template ⟨text ++ ['\x60'], rfl, ?_⟩ cs⟩
      rw [hread, quoteEnd_cons (by decide), if_pos rfl, List.length_append]
      exact congrArg some (Nat.add_comm 1 text.length)
    | true =>
      obtain ⟨n, hle, hn⟩ := hread
      refine Or.inr ⟨rfl, Or.inr ⟨n + 1, ?_, ?_⟩⟩
      · rw [List.length_cons, List.length_append, List.length_singleton]
        omega
      · have hlength : templateLength ('\x60' :: (text ++ '\x60' :: cs)) = some (n + 1) := by
          rw [templateLength, if_pos rfl, hn]
          rfl
        rw [List.cons_append, List.append_assoc]
        exact lexemeLength_quote (by decide) (text ++ '\x60' :: cs) (by rw [hlength]; rfl) rfl

/-- A regular expression does not begin like a comment. -/
theorem exists_slash_of_literal {cut : Bool} {w : List Char} (h : Literal .regex cut w) :
    ∃ c cs, w = '/' :: c :: cs ∧ c ∉ ['/', '*'] := by
  cases h with
  | @regex body flags hbody hne hstar =>
    cases body with
    | nil => exact absurd rfl hne
    | cons c body =>
      refine ⟨c, body ++ '/' :: flags, rfl, ?_⟩
      have hslash : c ≠ '/' := by
        rintro rfl
        cases hbody with
        | char hc => exact hc List.mem_cons_self
      have hstar' : c ≠ '*' := fun heq => hstar (congrArg some heq)
      simp [hslash, hstar']

/-- A regular expression is put together from its first slash to its last flag. -/
theorem regexLength_of_literal {cut : Bool} {w cs : List Char} (h : Literal .regex cut w) (hcs : cs.head?.any Char.isAlpha = false) :
    regexLength (w ++ cs) = some w.length := by
  cases h with
  | @regex body flags hbody hne hstar hflags =>
    have hend := regexBodyEnd_of_regexBody hbody (flags ++ cs)
    have hrun : run Char.isAlpha (flags ++ cs) = flags.length := by
      rw [run_append_of_all hflags, run_eq_zero_iff.mpr hcs, Nat.add_zero]
    have hdrop : (body ++ '/' :: (flags ++ cs)).drop (body.length + 1) = flags ++ cs := by
      rw [List.drop_append, List.drop_eq_nil_of_le (by omega), Nat.add_sub_cancel_left]
      rfl
    obtain ⟨c, cs', heq, hc⟩ := exists_slash_of_literal (.regex hbody hne hstar hflags)
    cases body with
    | nil => exact absurd rfl hne
    | cons d body =>
      obtain rfl : d = c := (List.cons.inj (List.cons.inj heq).2).1
      simp only [List.mem_cons, List.not_mem_nil, or_false, not_or] at hc
      rw [List.cons_append] at hend hdrop
      rw [List.cons_append, List.append_assoc, List.cons_append, List.cons_append, regexLength, if_neg (by simp [hc]), hend,
        Option.map_some, hdrop, hrun]
      simp only [List.length_cons, List.length_append, Option.some.injEq]
      omega

/-- The lexer reads a slash, perhaps with an equals sign, where a regular expression begins. -/
theorem lexemeLength_slash {c : Char} (hc : c ∉ ['/', '*']) (cs : List Char) :
    lexemeLength ('/' :: c :: cs) = some (.punctuation, if c = '=' then 2 else 1) := by
  simp only [List.mem_cons, List.not_mem_nil, or_false, not_or] at hc
  have hline : lineCommentLength ('/' :: c :: cs) = none := by
    rw [lineCommentLength]
    intro _ h
    injection h with _ h
    exact hc.1 (List.cons.inj h).1
  have hblock : blockCommentLength ('/' :: c :: cs) = none := by
    rw [blockCommentLength]
    intro _ h
    injection h with _ h
    exact hc.2 (List.cons.inj h).1
  have hmark : punctuationLength ('/' :: c :: cs) = some (if c = '=' then 2 else 1) := by
    by_cases heq : c = '='
    · subst heq
      rfl
    · have hnone : operators.find? (operatorAt ('/' :: c :: cs)) = none := by
        have hops : ∀ op ∈ operators, op = ['/', '='] ∨ op.head?.any (· == '/') = false := by decide
        rw [List.find?_eq_none]
        intro op hop hat
        have hprefix : op.isPrefixOf ('/' :: c :: cs) = true := (Bool.and_eq_true_iff.mp hat).1
        rcases hops op hop with rfl | hhead
        · simp [List.isPrefixOf, Ne.symm heq] at hprefix
        · cases op with
          | nil => exact absurd (operators_pos hop) (by decide)
          | cons d ds => simp_all [List.isPrefixOf]
      rw [punctuationLength, hnone, if_neg heq]
      rfl
  rw [lexemeLength, hline, hblock, hmark]
  rfl

/-! ## Texts that can be lexed -/

/-- Where a token can be read at the start of a text, the lexer goes on behind it. -/
theorem lexFrom_append {w cs : List Char} {k : TokenKind} (hread : lexemeLength (w ++ cs) = some (k, w.length)) (p : Position)
    (start : Nat) :
    lexFrom p start (w ++ cs) =
      (lexFrom (p.advance w) (start + w.length) cs).map (⟨k, String.ofList w, start, p⟩ :: ·) := by
  have hpos := (shape_of_lexemeLength hread).1
  cases w with
  | nil => exact absurd hpos (by decide)
  | cons c w =>
    rw [List.cons_append] at hread ⊢
    rw [lexFrom, hread]
    have htake : (c :: (w ++ cs)).take (max 1 (c :: w).length) = c :: w := by
      rw [Nat.max_eq_right hpos]
      exact (List.take_append_of_le_length (Nat.le_refl _)).trans List.take_length
    have hdrop : (w ++ cs).drop ((c :: w).length - 1) = cs := List.drop_left
    simp only [htake, hdrop]
    cases lexFrom (p.advance (c :: w)) (start + (c :: w).length) cs <;> rfl

/-- Blanks, digits, what begins a name, and the marks: a token can be read wherever one of these stands. -/
def isKnown (c : Char) : Bool := isBlankChar c || isDecimalDigit c || isNameStart c || marks.contains c

theorem lexemeLength_of_known {c : Char} (hc : isKnown c = true) (cs : List Char) : lexemeLength (c :: cs) ≠ none := by
  intro hnone
  simp only [lexemeLength, Option.orElse_eq_orElse, Option.orElse_eq_or, Option.or_eq_none_iff, Option.map_eq_none_iff] at hnone
  obtain ⟨_, _, _, _, hblank, hnumber, hname, hmark⟩ := hnone
  have hblank : isBlankChar c = false := (blankLength_cons cs).mp hblank
  have hdigit : isDecimalDigit c = false := by
    by_cases hpoint : c = '.'
    · subst hpoint
      decide
    · rw [numberLength_cons hpoint] at hnumber
      exact Bool.eq_false_iff.mpr fun h => by simp [h] at hnumber
  have hstart : isNameStart c = false := Bool.eq_false_iff.mpr fun h => by simp [nameLength, h] at hname
  have hmarks : c ∉ marks := by
    intro h
    unfold punctuationLength at hmark
    split at hmark
    · simp at hmark
    · simp [h] at hmark
  simp [isKnown, hblank, hdigit, hstart, hmarks] at hc

/-- A text of such characters is lexed to its end. -/
theorem lexFrom_of_known {cs : List Char} (h : ∀ c ∈ cs, isKnown c = true) (p : Position) (start : Nat) :
    ∃ ts, lexFrom p start cs = .ok ts := by
  fun_induction lexFrom p start cs with
  | case1 => exact ⟨[], rfl⟩
  | case2 p start c rest hnone => exact absurd hnone (lexemeLength_of_known (h c List.mem_cons_self) rest)
  | case3 p start c rest k n _ lexeme e hbad ih =>
    obtain ⟨ts, hts⟩ := ih fun d hd => h d (List.mem_cons_of_mem c ((List.drop_sublist _ _).mem hd))
    simp [hts] at hbad
  | case4 => exact ⟨_, rfl⟩

end ScriptLoader.Syntax
