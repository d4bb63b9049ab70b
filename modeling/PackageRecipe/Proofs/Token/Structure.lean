import PackageRecipe.Proofs.Token.Number

/-!
The characters that give a recipe its structure, and the tokens that hold them. Brackets and
separators are tokens of their own, line breaks stand in runs of them, and only strings, comments
and continued lines hold any of these characters for another reason. So a bracket is open or a line
has ended exactly where the tokens say so, and nobody has to look into their texts.
-/
namespace PackageRecipe

open Lexeme

namespace Lexeme

/-- Brackets and the separators that begin no longer sign. -/
def isPunctuation (c : Char) : Bool := c ∈ ['(', ')', '[', ']', '\x7b', '\x7d', ',', ';']

/-- What a string or a comment begins with. -/
def isMark (c : Char) : Bool := isQuote c || c = '#'

def isStructural (c : Char) : Bool := isPunctuation c || isLineBreak c || isMark c

/-- All of them, so that what a class of characters leaves out can be looked up. -/
def structuralCharacters : List Char :=
  ['(', ')', '[', ']', '\x7b', '\x7d', ',', ';', '\n', '\r', '"', '\'', '#']

variable {c : Char} {text : List Char} {kind : Token.Kind}

theorem isStructural_iff : isStructural c = true ↔ c ∈ structuralCharacters := by
  simp [isStructural, structuralCharacters, isPunctuation, isLineBreak, isMark, isQuote, or_assoc]

theorem isMark_iff : isMark c = true ↔ c = '"' ∨ c = '\'' ∨ c = '#' := by
  simp [isMark, isQuote, or_assoc]

theorem not_isPunctuation_of_isLineBreak (h : isLineBreak c = true) : isPunctuation c = false := by
  rcases isLineBreak_iff.1 h with rfl | rfl
  · rfl
  · rfl

theorem not_isPunctuation_of_isMark (h : isMark c = true) : isPunctuation c = false := by
  rcases isMark_iff.1 h with rfl | rfl | rfl
  · rfl
  · rfl
  · rfl

theorem not_isLineBreak_of_isMark (h : isMark c = true) : isLineBreak c = false := by
  rcases isMark_iff.1 h with rfl | rfl | rfl
  · rfl
  · rfl
  · rfl

theorem eq_false_of_isStructural {p : Char → Bool} (h : isStructural c = true)
    (hp : structuralCharacters.any p = false) : p c = false := by
  rw [List.any_eq_false] at hp
  simpa using hp c (isStructural_iff.1 h)

theorem not_isSpace_of_isStructural (h : isStructural c = true) : isSpace c = false :=
  eq_false_of_isStructural h (by decide)

theorem not_extendsName_of_isStructural (h : isStructural c = true) :
    Text.extendsName c = false :=
  eq_false_of_isStructural h (by decide)

theorem not_extendsNumeral_of_isStructural (h : isStructural c = true) :
    extendsNumeral c = false :=
  eq_false_of_isStructural h (by decide)

/-- A sign that holds a structural character consists of it. -/
theorem signKind?_of_isStructural (h : signKind? text = some kind) (hc : c ∈ text)
    (hs : isStructural c = true) : text = [c] ∧ kind = .delimiter ∧ isPunctuation c = true := by
  have operators : ∀ sign ∈ operatorSigns, sign.toList.any isStructural = false := by decide
  have delimiters : ∀ sign ∈ delimiterSigns, sign.toList.any isStructural = true →
      sign.toList.length = 1 ∧ sign.toList.all isPunctuation = true := by decide
  have holds : (String.ofList text).toList.any isStructural = true := by
    rw [String.toList_ofList, List.any_eq_true]
    exact ⟨c, hc, hs⟩
  unfold signKind? at h
  split at h
  · rename_i ho
    rw [operators _ ho] at holds
    cases holds
  split at h
  · rename_i hd
    obtain ⟨hl, hp⟩ := delimiters _ hd holds
    rw [String.toList_ofList] at hl hp
    obtain ⟨d, rfl⟩ := List.length_eq_one_iff.1 hl
    obtain rfl := List.mem_singleton.1 hc
    exact ⟨rfl, (Option.some.inj h).symm, List.all_eq_true.1 hp c hc⟩
  · cases h

namespace State

variable {state next last : State}

/-- In a numeral, every character of the text is one that numerals are written with. -/
def SpellsNumeral (state : State) (text : List Char) : Prop :=
  ∀ number, state = numeral number → ∀ c ∈ text, extendsNumeral c = true

theorem SpellsNumeral.step (hr : state.Reads text) (h : state.SpellsNumeral text)
    (hs : state.step c = some next) : next.SpellsNumeral (text ++ [c]) := by
  intro number hn
  subst hn
  rw [List.forall_mem_append, List.forall_mem_singleton]
  obtain ⟨kind, rfl, hc, -⟩ | ⟨before, rfl, hb⟩ := step_eq_numeral hs
  · obtain ⟨rfl, -⟩ := hr
    refine ⟨?_, extendsNumeral_of_isDigit (show NumeralPart.whole.isDigit c = true from hc)⟩
    rw [List.forall_mem_singleton]
    rfl
  · exact ⟨h before rfl, extendsNumeral_of_step hb⟩

theorem spellsNumeral_ofText? (h : ofText? text = some last) : last.SpellsNumeral text := by
  refine ofText?_invariant_of_reads SpellsNumeral ?_ SpellsNumeral.step h
  intro c state hc number hn
  subst hn
  obtain ⟨hd, -⟩ := ofChar_eq_numeral hc
  rw [List.forall_mem_singleton]
  exact extendsNumeral_of_isDigit (show NumeralPart.whole.isDigit c = true from hd)

end State
end Lexeme

namespace Token

variable {t : Token} {rest : List Char} {c : Char}

/-- White space holds a structural character only where a line is continued. -/
theorem EndsBefore.whitespace_structural (h : t.EndsBefore rest) (hk : t.kind = .whitespace)
    (hc : c ∈ t.text.toList) (hs : isStructural c = true) :
    isLineBreak c = true ∧ t.text ∈ ["\\\n", "\\\r", "\\\r\n"] := by
  obtain hb | ht := h.whitespace_text hk
  · have hn := not_isSpace_of_isStructural hs
    rw [hb c hc] at hn
    cases hn
  · have hb : c = '\\' ∨ isLineBreak c = true := by
      rw [isLineBreak_iff]
      rcases ht with ht | ht | ht
      · have hc : c = '\\' ∨ c = '\n' := by simpa [ht] using hc
        exact hc.imp_right .inl
      · have hc : c = '\\' ∨ c = '\r' := by simpa [ht] using hc
        exact hc.imp_right .inr
      · have hc : c = '\\' ∨ c = '\r' ∨ c = '\n' := by simpa [ht] using hc
        exact hc.imp_right Or.symm
    obtain rfl | hb := hb
    · cases hs
    · exact ⟨hb, by simpa using ht⟩

/-- Where a structural character stands: in a string, in a comment that does not end with it, by
itself, or in the break of a line that ends or is continued. -/
theorem EndsBefore.structural_cases (h : t.EndsBefore rest) (hc : c ∈ t.text.toList)
    (hs : isStructural c = true) :
    t.kind = .string ∨ (t.kind = .comment ∧ isLineBreak c = false) ∨
      (t = ⟨.delimiter, String.ofList [c]⟩ ∧ isPunctuation c = true) ∨
      (isLineBreak c = true ∧
        (t.kind = .newline ∨ t.kind = .whitespace ∧ t.text ∈ ["\\\n", "\\\r", "\\\r\n"])) := by
  have ⟨last, hl, hf, _⟩ := h
  have hr := State.reads_ofText? hl
  rcases hr.finish_cases hf with ⟨hk, -⟩ | ⟨hk, -⟩ | ⟨hk, rfl⟩ | ⟨hk, -⟩ | ⟨-, number, rfl, -⟩ |
    ⟨-, letters, rfl⟩ | ⟨hk, rfl⟩
  · obtain ⟨hb, ht⟩ := h.whitespace_structural hk hc hs
    exact .inr (.inr (.inr ⟨hb, .inr ⟨hk, ht⟩⟩))
  · exact .inr (.inr (.inr ⟨h.newline_text hk c hc, .inl hk⟩))
  · obtain ⟨body, ht, hb⟩ := hr
    rw [ht] at hc
    refine .inr (.inl ⟨hk, ?_⟩)
    rcases List.mem_cons.1 hc with rfl | hc
    · rfl
    · exact hb c hc
  · exact .inl hk
  · have hn := State.spellsNumeral_ofText? hl number rfl c hc
    rw [not_extendsNumeral_of_isStructural hs] at hn
    cases hn
  · obtain ⟨-, d, body, ht, ho, hb⟩ := hr
    have hn : Text.extendsName c = true := by
      rw [ht] at hc
      rcases List.mem_cons.1 hc with rfl | hc
      · exact Text.extendsName_of_opensName ho
      · exact hb c hc
    rw [not_extendsName_of_isStructural hs] at hn
    cases hn
  · obtain ⟨ht, hd, hp⟩ := signKind?_of_isStructural hr.2 hc hs
    obtain ⟨kind, text⟩ := t
    refine .inr (.inr (.inl ⟨?_, hp⟩))
    rw [← show text.toList = [c] from ht, String.ofList_toList, ← show kind = .delimiter from hd]

/-- Every structural character of the token is where tokens have it. -/
structure IsStructured (t : Token) : Prop where
  /-- A bracket or a separator outside strings and comments is a token of its own. -/
  punctuation : ∀ c ∈ t.text.toList, isPunctuation c = true → t.kind ≠ .string →
    t.kind ≠ .comment → t = ⟨.delimiter, String.ofList [c]⟩
  /-- A line break is part of a run of them, of a string, or of a continued line. -/
  lineBreak : (∃ c ∈ t.text.toList, isLineBreak c = true) →
    (t.kind = .newline ∧ ∀ c ∈ t.text.toList, isLineBreak c = true) ∨ t.kind = .string ∨
      (t.kind = .whitespace ∧ t.text ∈ ["\\\n", "\\\r", "\\\r\n"])
  /-- Quotation marks and number signs are in strings and comments only. -/
  mark : ∀ c ∈ t.text.toList, isMark c = true → t.kind = .string ∨ t.kind = .comment

theorem EndsBefore.isStructured (h : t.EndsBefore rest) : t.IsStructured := by
  constructor
  · intro c hc hp hs hn
    have structural : isStructural c = true := by
      rw [isStructural, hp, Bool.true_or, Bool.true_or]
    obtain hk | ⟨hk, -⟩ | ⟨ht, -⟩ | ⟨hb, -⟩ := h.structural_cases hc structural
    · exact absurd hk hs
    · exact absurd hk hn
    · exact ht
    · rw [not_isPunctuation_of_isLineBreak hb] at hp
      cases hp
  · intro hb
    obtain ⟨c, hc, hb⟩ := hb
    have structural : isStructural c = true := by
      rw [isStructural, hb, Bool.or_true, Bool.true_or]
    obtain hk | ⟨-, hn⟩ | ⟨-, hp⟩ | ⟨-, hk | hk⟩ := h.structural_cases hc structural
    · exact .inr (.inl hk)
    · rw [hb] at hn
      cases hn
    · rw [not_isPunctuation_of_isLineBreak hb] at hp
      cases hp
    · exact .inl ⟨hk, h.newline_text hk⟩
    · exact .inr (.inr hk)
  · intro c hc hm
    have structural : isStructural c = true := by
      rw [isStructural, hm, Bool.or_true]
    obtain hk | ⟨hk, -⟩ | ⟨-, hn⟩ | ⟨hn, -⟩ := h.structural_cases hc structural
    · exact .inl hk
    · exact .inr hk
    · rw [not_isPunctuation_of_isMark hm] at hn
      cases hn
    · rw [not_isLineBreak_of_isMark hm] at hn
      cases hn

end Token

/-- Runs of line breaks are as long as they can be. -/
theorem Lexed.isChain_newline {ts : List Token} {rest : List Char} (h : Lexed ts rest) :
    ts.IsChain fun t u => ¬ (t.isBreak = true ∧ u.isBreak = true) := by
  induction ts with
  | nil => exact .nil
  | cons t ts ih =>
    refine List.isChain_cons.2 ⟨fun u hu => ?_, ih h.2⟩
    obtain ⟨us, rfl⟩ := List.head?_eq_some_iff.1 hu
    intro hb
    obtain ⟨ht, hub⟩ := hb
    have hr := h.1.newline_rest (by simpa [Token.isBreak] using ht)
    obtain ⟨c, cs, hc⟩ := List.exists_cons_of_ne_nil h.2.1.text_ne_nil
    have head : ((sourceText (u :: us)).toList ++ rest).head? = some c := by
      rw [List.head?_append, h.2.head?_sourceText, hc]
      rfl
    have hl := h.2.1.newline_text (by simpa [Token.isBreak] using hub) c (by simp [hc])
    rw [hr c head] at hl
    cases hl

/-- Brackets, separators, line breaks, quotation marks and number signs of a source are tokens of
their own or inside a string, a comment or the break of a continued line. No line break is divided,
and a comment lasts to the end of its line. -/
theorem ofSource_structured {source : String} {ts : List Token}
    (h : Token.ofSource source = .ok ts) :
    (∀ t ∈ ts, t.IsStructured) ∧
      (ts.IsChain fun t u => ¬ (t.isBreak = true ∧ u.isBreak = true)) ∧
      ts.IsChain fun t u => t.isComment = true → u.isBreak = true := by
  obtain ⟨-, hl⟩ := Token.ofSource_eq_ok_iff.1 h
  refine ⟨fun t ht => ?_, hl.isChain_newline, hl.isChain_comment⟩
  obtain ⟨after, he⟩ := hl.exists_endsBefore t ht
  exact he.isStructured

/-- Brackets and a number sign in a string, line breaks in a string and in a continued line, a
bracket behind a number, and a comment with a quotation mark. -/
theorem ofSource_structured_mixed :
    let source := "x+=\x7b'(#',\\\r\nf\"\"\"\r]\"\"\":1.e-5\x7d;#;'\r\n\n"
    let tokens : List Token := [⟨.identifier, "x"⟩, ⟨.delimiter, "+="⟩, ⟨.delimiter, "\x7b"⟩,
      ⟨.string, "'(#'"⟩, ⟨.delimiter, ","⟩, ⟨.whitespace, "\\\r\n"⟩, ⟨.string, "f\"\"\"\r]\"\"\""⟩,
      ⟨.delimiter, ":"⟩, ⟨.number, "1.e-5"⟩, ⟨.delimiter, "\x7d"⟩, ⟨.delimiter, ";"⟩,
      ⟨.comment, "#;'"⟩, ⟨.newline, "\r\n\n"⟩]
    Token.ofSource source = .ok tokens ∧ (∀ t ∈ tokens, t.IsStructured) ∧
      (tokens.IsChain fun t u => ¬ (t.isBreak = true ∧ u.isBreak = true)) ∧
      tokens.IsChain fun t u => t.isComment = true → u.isBreak = true := by
  intro source tokens
  have h : Token.ofSource source = .ok tokens := by cbv
  exact ⟨h, ofSource_structured h⟩

end PackageRecipe
