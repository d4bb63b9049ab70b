import PackageRecipe.Proofs.Lexeme.Numeral
import PackageRecipe.Proofs.Token.Ending

/-!
Texts that are put together at a line break. A token that ends before one line break ends before any
other, with one exception: a line that is continued over a carriage return takes in a line feed that
comes to stand behind it. The line break that the feed is taken from may lose all of its text.
-/
namespace PackageRecipe

namespace Lexeme

variable {c : Char}

theorem Numeral.step_lineBreak (h : isLineBreak c = true) (number : Numeral) :
    number.step c = none := by
  cases hs : number.step c with
  | none => rfl
  | some next =>
    have hc := extendsNumeral_of_step hs
    rcases isLineBreak_iff.1 h with rfl | rfl
    · cases hc
    · cases hc

/-- No sign holds a line break. -/
theorem extendSign_lineBreak (h : isLineBreak c = true) (text : List Char) :
    extendSign text c = none := by
  have signs : ∀ sign ∈ (operatorSigns ++ delimiterSigns).map String.toList,
      (sign.any isLineBreak) = false := by decide
  have hs : signKind? (text ++ [c]) = none := by
    rw [signKind?_eq_none_iff]
    intro hm
    have hn := signs _ hm
    rw [List.any_append, List.any_cons, h, Bool.true_or, Bool.or_true] at hn
    cases hn
  have hd : c.isDigit = false := by
    rcases isLineBreak_iff.1 h with rfl | rfl <;> decide
  rw [extendSign, hs]
  simp [hd]

/-- Where the reader of a string stands after a line break, if it goes on with it. -/
def Quoted.afterLineBreak : Quoted → Option Quoted
  | shortEscape q => some (short q)
  | long q _ | longEscape q => some (long q 0)
  | opened _ | empty _ | short _ | closed => none

theorem Quoted.step_lineBreak {q : Char} {string : Quoted} (hm : string.HasMark q)
    (hq : isQuote q = true) (h : isLineBreak c = true) :
    string.step c = string.afterLineBreak := by
  have hc : isQuote c = false ∧ c ≠ '\\' := by
    rcases isLineBreak_iff.1 h with rfl | rfl <;> decide
  have hne : c ≠ q := by
    rintro rfl
    rw [hq] at hc
    cases hc.1
  cases string with
  | opened p | empty p | short p | long p marks =>
    obtain rfl : p = q := hm
    simp [Quoted.step, shortStep, afterLineBreak, hne, hc.2, h]
  | shortEscape | longEscape | closed => rfl

/-- The state after the line break `c`, if the lexeme goes on with it: a run of line breaks does, a
backslash, and a string that is long or has escaped it. -/
def State.afterLineBreak (c : Char) : State → Option State
  | lineBreak => some lineBreak
  | backslash => some (continuation (c = '\r'))
  | continuation lineFeed => if lineFeed && c = '\n' then some (continuation false) else none
  | quoted string => string.afterLineBreak.map quoted
  | space | comment | word _ | numeral _ | exclamation | sign _ _ => none

theorem State.step_lineBreak {state : State} {text : List Char} (hr : state.Reads text)
    (h : isLineBreak c = true) : state.step c = state.afterLineBreak c := by
  have hc : isQuote c = false ∧ isSpace c = false ∧ Text.extendsName c = false := by
    rcases isLineBreak_iff.1 h with rfl | rfl <;> decide
  cases state with
  | space | lineBreak | comment | backslash | word =>
    simp [State.step, afterLineBreak, hc, h]
  | continuation => rfl
  | quoted string =>
    obtain ⟨-, q, -, -, hq, hm, -⟩ := hr
    rw [State.step, Quoted.step_lineBreak hm hq h, afterLineBreak]
  | numeral number => simp [State.step, afterLineBreak, Numeral.step_lineBreak h]
  | exclamation | sign => exact extendSign_lineBreak h _

/-- Of the lexemes that may end, only a run of line breaks and a continued line go on with one. -/
theorem State.step_lineBreak_of_finish {state : State} {text : List Char} {kind : Token.Kind}
    (hr : state.Reads text) (hf : state.finish none = .ok kind) (h : isLineBreak c = true) :
    state.step c = none ∨ state = .lineBreak ∨ state = .continuation true ∧ c = '\n' := by
  rw [step_lineBreak hr h]
  cases state with
  | lineBreak => exact .inr (.inl rfl)
  | continuation lineFeed =>
    by_cases hl : lineFeed = true ∧ c = '\n'
    · obtain ⟨rfl, hc⟩ := hl
      exact .inr (.inr ⟨rfl, hc⟩)
    · exact .inl (by simpa [afterLineBreak] using hl)
  | quoted string =>
    cases string with
    | empty | closed => exact .inl rfl
    | opened | short | shortEscape | long | longEscape => cases hf
  | backslash | exclamation => cases hf
  | space | comment | word | numeral | sign => exact .inl rfl

end Lexeme

open Lexeme

/-- A line continued over a carriage return. -/
def continued : Token := ⟨.whitespace, "\\\r"⟩

/-- The same with the line feed that belongs to the break. -/
def continuedWhole : Token := ⟨.whitespace, "\\\r\n"⟩

namespace Token

variable {t : Token} {c d : Char} {cs : List Char}

theorem EndsBefore.before_break (h : t.EndsBefore (c :: cs)) (hc : isLineBreak c = true)
    (hd : isLineBreak d = true) (ds : List Char) :
    t.EndsBefore (d :: ds) ∨ t = continued ∧ d = '\n' := by
  obtain ⟨last, hl, hf, hs⟩ := h
  have hr := State.reads_ofText? hl
  obtain hn | rfl | ⟨rfl, rfl⟩ := State.step_lineBreak_of_finish hr hf hd
  · exact .inl ⟨last, hl, hf, State.stopsBefore_cons.2 hn⟩
  · have hn := State.stopsBefore_cons.1 hs
    simp [State.step, hc] at hn
  · refine .inr ⟨?_, rfl⟩
    obtain ⟨kind, text⟩ := t
    obtain rfl : Kind.whitespace = kind := Except.ok.inj hf
    obtain rfl : text = "\\\r" := String.toList_injective hr
    rfl

/-- A colon ends before every line break. -/
theorem endsBefore_colon_of_lineBreak (hd : isLineBreak d = true) (ds : List Char) :
    (⟨.delimiter, ":"⟩ : Token).EndsBefore (d :: ds) := by
  obtain h | ⟨h, -⟩ := (endsBefore_colon []).before_break (by decide) hd ds
  · exact h
  · cases h

theorem endsBefore_continuedWhole (rest : List Char) : continuedWhole.EndsBefore rest :=
  ⟨.continuation false, rfl, rfl, fun _ _ => rfl⟩

end Token

namespace Lexed

variable {ts us : List Token} {c d : Char} {cs rest : List Char}

/-- Tokens before a line break may stand before any other, unless they end with a continued line. -/
theorem before_break (h : Lexed ts (c :: cs)) (hc : isLineBreak c = true)
    (hd : isLineBreak d = true) (ds : List Char) :
    Lexed ts (d :: ds) ∨ d = '\n' ∧ ∃ before, ts = before ++ [continued] := by
  rcases List.eq_nil_or_concat ts with rfl | ⟨before, t, rfl⟩
  · exact .inl trivial
  · rw [List.concat_eq_append] at h ⊢
    obtain ⟨hbefore, ht⟩ := lexed_append.1 h
    obtain he | ⟨rfl, rfl⟩ := ht.1.before_break hc hd ds
    · refine .inl (lexed_append.2 ⟨hbefore.of_head? ?_, he, trivial⟩)
      rw [List.head?_append_of_ne_nil _ (by simpa using ht.1.text_ne_nil),
        List.head?_append_of_ne_nil _ (by simpa using ht.1.text_ne_nil)]
      exact fun c hc => hc
    · exact .inr ⟨rfl, before, rfl⟩

/-- The tokens of a text that begins with a line break, without its first character. -/
theorem tail_of_lineBreak (h : Lexed us rest) (hu : (sourceText us).toList = c :: cs)
    (hc : isLineBreak c = true) :
    ∃ b bs, us = b :: bs ∧ b.isBreak = true ∧ ∃ vs, Lexed (vs ++ bs) rest ∧
      (sourceText (vs ++ bs)).toList = cs ∧ (vs = [] ∨ ∃ v, vs = [v] ∧ v.isBreak = true) := by
  cases us with
  | nil => cases hu
  | cons b bs =>
    obtain ⟨d, ds, ht⟩ := List.exists_cons_of_ne_nil h.1.text_ne_nil
    rw [sourceText_cons, String.toList_append, ht, List.cons_append, List.cons.injEq] at hu
    obtain ⟨rfl, rfl⟩ := hu
    have hk := h.1.kind_eq_newline ⟨d, by rw [ht]; rfl, hc⟩
    have hb := h.1.newline_text hk
    refine ⟨b, bs, rfl, by simp [Token.isBreak, hk], ?_⟩
    cases ds with
    | nil => exact ⟨[], h.2, rfl, .inl rfl⟩
    | cons e es =>
      rw [ht] at hb
      have hes := (List.forall_mem_cons.1 hb).2
      have hv : (⟨.newline, String.ofList (e :: es)⟩ : Token).EndsBefore
          ((sourceText bs).toList ++ rest) := by
        refine Token.endsBefore_of_lineBreaks rfl ?_ ?_ (h.1.newline_rest hk)
        · simp
        · simpa using hes
      refine ⟨[⟨.newline, String.ofList (e :: es)⟩], ⟨hv, h.2⟩, ?_, .inr ⟨_, rfl, rfl⟩⟩
      simp [String.toList_append]

/-- Tokens that stood before a line break and tokens that begin with one, put together: the text is
read as both of them, or a line feed is moved into the continued line before it. -/
theorem splice (ht : Lexed ts (c :: cs)) (hc : isLineBreak c = true) (hu : Lexed us [])
    (hb : ∀ c ∈ (sourceText us).toList.head?, isLineBreak c = true) :
    Lexed (ts ++ us) [] ∨
      ∃ before b bs vs, ts = before ++ [continued] ∧ us = b :: bs ∧ b.isBreak = true ∧
        sourceText (before ++ continuedWhole :: (vs ++ bs)) = sourceText (ts ++ us) ∧
        Lexed (before ++ continuedWhole :: (vs ++ bs)) [] ∧
        (vs = [] ∨ ∃ v, vs = [v] ∧ v.isBreak = true) := by
  cases hs : (sourceText us).toList with
  | nil =>
    refine .inl (lexed_append.2 ⟨?_, hu⟩)
    rw [hs]
    exact ht.of_head? nofun
  | cons d ds =>
    have hd : isLineBreak d = true := hb d (by rw [hs]; rfl)
    obtain hl | ⟨rfl, before, rfl⟩ := ht.before_break hc hd ds
    · refine .inl (lexed_append.2 ⟨?_, hu⟩)
      rwa [hs, List.append_nil]
    · obtain ⟨b, bs, rfl, hbreak, vs, hv, he, hvs⟩ := hu.tail_of_lineBreak hs hd
      refine .inr ⟨before, b, bs, vs, rfl, rfl, hbreak, ?_, ?_, hvs⟩
      · apply String.toList_injective
        rw [sourceText_append, sourceText_append, sourceText_append, sourceText_cons,
          sourceText_cons, sourceText_nil]
        simp only [String.toList_append, he, hs]
        simp [continued, continuedWhole]
      · refine lexed_append.2 ⟨?_, Token.endsBefore_continuedWhole _, hv⟩
        -- the continued line begins with the same character as before
        refine (lexed_append.1 ht).1.of_head? fun e he => ?_
        rw [sourceText_cons, String.toList_append] at he
        rw [sourceText_cons, String.toList_append]
        simpa [continued, continuedWhole] using he

end Lexed
end PackageRecipe
