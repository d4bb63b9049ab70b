import PackageRecipe.Proofs.Token.Literal
import PackageRecipe.Proofs.Token.Splice

/-!
Texts with other line ends. A carriage return in front of every line feed leaves the tokens as they
are, since what reads a line feed reads the two characters as well, with one exception. A backslash
in a string of one mark takes one character with it; of two it takes the carriage return, and the
line feed then ends the line inside the string.
-/
namespace PackageRecipe

open Lexeme

namespace Text

/-- The text with a carriage return in front of every line feed. -/
def crlf (cs : List Char) : List Char := cs.flatMap fun c => if c = '\n' then ['\r', '\n'] else [c]

variable {c : Char} {cs xs ys : List Char}

@[simp] theorem crlf_nil : crlf [] = [] := rfl

@[simp] theorem crlf_lineFeed (cs : List Char) : crlf ('\n' :: cs) = '\r' :: '\n' :: crlf cs := rfl

theorem crlf_cons (h : c ≠ '\n') (cs : List Char) : crlf (c :: cs) = c :: crlf cs := by
  simp [crlf, h]

theorem crlf_append (xs ys : List Char) : crlf (xs ++ ys) = crlf xs ++ crlf ys :=
  List.flatMap_append

/-- Only a line feed makes two characters of one, so the text is cut where the other one was or
between the two. -/
theorem crlf_eq_append (h : crlf cs = xs ++ ys) :
    (∃ before after, cs = before ++ after ∧ xs = crlf before ∧ ys = crlf after) ∨
      ∃ before after, xs = before ++ ['\r'] ∧ ys = '\n' :: after := by
  induction cs generalizing xs with
  | nil =>
    obtain ⟨rfl, rfl⟩ := List.append_eq_nil_iff.1 h.symm
    exact .inl ⟨[], [], rfl, rfl, rfl⟩
  | cons c cs ih =>
    cases xs with
    | nil => exact .inl ⟨[], c :: cs, rfl, rfl, h.symm⟩
    | cons x xs =>
      by_cases hc : c = '\n'
      · subst hc
        rw [crlf_lineFeed, List.cons_append, List.cons.injEq] at h
        obtain ⟨rfl, h⟩ := h
        cases xs with
        | nil => exact .inr ⟨[], crlf cs, rfl, h.symm⟩
        | cons y xs =>
          rw [List.cons_append, List.cons.injEq] at h
          obtain ⟨rfl, h⟩ := h
          obtain ⟨before, after, rfl, rfl, rfl⟩ | ⟨before, after, rfl, rfl⟩ := ih h
          · exact .inl ⟨'\n' :: before, after, rfl, rfl, rfl⟩
          · exact .inr ⟨'\r' :: '\n' :: before, after, rfl, rfl⟩
      · rw [crlf_cons hc, List.cons_append, List.cons.injEq] at h
        obtain ⟨rfl, h⟩ := h
        obtain ⟨before, after, rfl, rfl, rfl⟩ | ⟨before, after, rfl, rfl⟩ := ih h
        · exact .inl ⟨c :: before, after, rfl, (crlf_cons hc before).symm, rfl⟩
        · exact .inr ⟨c :: before, after, rfl, rfl⟩

theorem head?_crlf (cs : List Char) :
    (crlf cs).head? = cs.head?.map fun c => if c = '\n' then '\r' else c := by
  cases cs with
  | nil => rfl
  | cons c cs =>
    by_cases hc : c = '\n'
    · subst hc
      rfl
    · simp [crlf_cons hc, hc]

end Text

namespace Lexeme.State

open Text

variable {state last : State} {taken cs text : List Char} {c : Char}

/-- A line feed alone and the two characters lead to one state, unless a backslash in a string of
one mark stands before them. -/
theorem after?_lineEnd (hr : state.Reads taken) (ht : '\r' ∉ taken) :
    state.after? ['\r', '\n'] = state.step '\n' ∨ ∃ q, state = quoted (.shortEscape q) := by
  have hreturn := step_lineBreak hr (c := '\r') (by decide)
  have hfeed := step_lineBreak hr (c := '\n') (by decide)
  rw [after?_cons, hreturn, hfeed]
  cases state with
  | lineBreak | backslash => exact .inl rfl
  | continuation lineFeed =>
    cases lineFeed with
    | true =>
      obtain rfl : taken = ['\\', '\r'] := hr
      exact absurd (by decide) ht
    | false => exact .inl rfl
  | quoted string =>
    cases string with
    | shortEscape q => exact .inr ⟨q, rfl⟩
    | long q marks | longEscape q =>
      left
      have hs := step_lineBreak (hr.step hreturn) (c := '\n') (by decide)
      rw [afterLineBreak, Quoted.afterLineBreak, Option.map_some, Option.bind_some, after?_cons, hs]
      rfl
    | opened | empty | short | closed => exact .inl rfl
  | space | comment | word | numeral | exclamation | sign => exact .inl rfl

/-- From this state the text passes over a line feed that is escaped in a string of one mark. -/
def Folds (state : State) (cs : List Char) : Prop :=
  ∃ before after q, cs = before ++ '\n' :: after ∧
    state.after? before = some (quoted (.shortEscape q))

theorem not_folds_nil (state : State) : ¬ state.Folds [] := by
  rintro ⟨before, after, q, he, -⟩
  cases before <;> cases he

theorem folds_cons :
    state.Folds (c :: cs) ↔ (c = '\n' ∧ ∃ q, state = quoted (.shortEscape q)) ∨
      ∃ next, state.step c = some next ∧ next.Folds cs := by
  constructor
  · rintro ⟨before, after, q, he, hb⟩
    cases before with
    | nil => exact .inl ⟨(List.cons.inj he).1, q, Option.some.inj hb⟩
    | cons d before =>
      obtain ⟨rfl, rfl⟩ := List.cons.inj he
      rw [after?_cons] at hb
      obtain ⟨next, hs, hb⟩ := Option.bind_eq_some_iff.1 hb
      exact .inr ⟨next, hs, before, after, q, rfl, hb⟩
  · rintro (⟨rfl, q, rfl⟩ | ⟨next, hs, before, after, q, rfl, hb⟩)
    · exact ⟨[], cs, q, rfl, rfl⟩
    · exact ⟨c :: before, after, q, rfl, by rw [after?_cons, hs]; exact hb⟩

/-- The longer text is gone through exactly if the other is and none of its line feeds is escaped in
a string of one mark. -/
theorem after?_crlf (hr : state.Reads taken) (ht : '\r' ∉ taken) (hc : '\r' ∉ cs) :
    state.after? (crlf cs) = some last ↔ state.after? cs = some last ∧ ¬ state.Folds cs := by
  induction cs generalizing state taken with
  | nil => simp [not_folds_nil]
  | cons c cs ih =>
    rw [List.mem_cons, not_or] at hc
    -- behind the line end, or the character, the texts are those of the induction
    have tail : ∀ next, state.step c = some next →
        (next.after? (crlf cs) = some last ↔ next.after? cs = some last ∧ ¬ next.Folds cs) := by
      intro next hs
      refine ih (hr.step hs) ?_ hc.2
      rw [List.mem_append, List.mem_singleton]
      exact not_or.2 ⟨ht, hc.1⟩
    by_cases hfold : c = '\n' ∧ ∃ q, state = quoted (.shortEscape q)
    · have hf : state.Folds (c :: cs) := folds_cons.2 (.inl hfold)
      obtain ⟨rfl, q, rfl⟩ := hfold
      have hn : (quoted (.shortEscape q)).after? (crlf ('\n' :: cs)) = none := rfl
      rw [hn]
      simp [hf]
    · have hcrlf : state.after? (crlf (c :: cs)) =
          (state.step c).bind fun next => next.after? (crlf cs) := by
        by_cases hn : c = '\n'
        · subst hn
          have hl := (after?_lineEnd hr ht).resolve_right fun hq => hfold ⟨rfl, hq⟩
          rw [crlf_lineFeed, ← hl]
          exact after?_append state ['\r', '\n'] (crlf cs)
        · rw [crlf_cons hn, after?_cons]
      rw [hcrlf, after?_cons, folds_cons]
      cases hs : state.step c with
      | none => simp
      | some next => simpa [hfold] using tail next hs

/-- Somewhere the text has a line feed that is escaped in a string of one mark. -/
def FoldsText (text : List Char) : Prop :=
  ∃ before after q, text = before ++ '\n' :: after ∧
    ofText? before = some (quoted (.shortEscape q))

theorem foldsText_cons : FoldsText (c :: cs) ↔ ∃ state, ofChar c = .ok state ∧ state.Folds cs := by
  constructor
  · rintro ⟨before, after, q, he, hb⟩
    cases before with
    | nil => cases hb
    | cons d before =>
      obtain ⟨rfl, rfl⟩ := List.cons.inj he
      obtain ⟨state, hc, hb⟩ := ofText?_cons_eq_some_iff.1 hb
      exact ⟨state, hc, before, after, q, rfl, hb⟩
  · rintro ⟨state, hc, before, after, q, rfl, hb⟩
    exact ⟨c :: before, after, q, rfl, ofText?_cons_eq_some_iff.2 ⟨state, hc, hb⟩⟩

theorem ofText?_crlf (ht : '\r' ∉ text) :
    ofText? (crlf text) = some last ↔ ofText? text = some last ∧ ¬ FoldsText text := by
  cases text with
  | nil => simp [ofText?]
  | cons c cs =>
    have hcrlf : ofText? (crlf (c :: cs)) = ofText? (c :: crlf cs) := by
      by_cases hn : c = '\n'
      · subst hn
        rfl
      · rw [crlf_cons hn]
    rw [List.mem_cons, not_or] at ht
    rw [hcrlf, ofText?_cons_eq_some_iff, ofText?_cons_eq_some_iff, foldsText_cons]
    cases hc : ofChar c with
    | error fault => simp
    | ok state =>
      have hr : state.after? (crlf cs) = some last ↔
          state.after? cs = some last ∧ ¬ state.Folds cs :=
        after?_crlf (reads_ofChar hc) (by simpa using ht.1) ht.2
      simpa using hr

end Lexeme.State

namespace Token

variable {t : Token} {rest : List Char}

/-- The token with the other line ends. -/
def crlf (t : Token) : Token := { t with text := String.ofList (Text.crlf t.text.toList) }

/-- A string of one mark that goes on over a line feed; it must have escaped it. -/
def isFolded (t : Token) : Bool :=
  t.kind = .string && '\n' ∈ t.text.toList && !t.isLongString

/-- A lexeme that is inside a string somewhere ends as one. -/
theorem EndsBefore.kind_eq_string (h : t.EndsBefore rest) {before after : List Char}
    (ht : t.text.toList = before ++ after) {string : Quoted}
    (hb : State.ofText? before = some (.quoted string)) : t.kind = .string := by
  obtain ⟨last, hl, hf, -⟩ := h
  have hne : before ≠ [] := by
    rintro rfl
    cases hb
  rw [ht, State.ofText?_append hne, hb, Option.bind_some] at hl
  obtain ⟨string, rfl⟩ := State.after?_quoted hl
  rw [State.finish] at hf
  split at hf
  · exact (Except.ok.inj hf).symm
  · cases hf

/-- A string begins neither with a line break nor with a backslash. -/
theorem EndsBefore.string_first (h : t.EndsBefore rest) (hk : t.kind = .string) :
    ∃ c cs, t.text.toList = c :: cs ∧ isLineBreak c = false ∧ c ≠ '\\' := by
  obtain ⟨c, cs, hc, hhead⟩ := h.string_head hk
  refine ⟨c, cs, hc, ?_, ?_⟩
  · rw [Bool.eq_false_iff]
    intro hl
    rcases isLineBreak_iff.1 hl with rfl | rfl
    all_goals
      revert hhead
      decide
  · rintro rfl
    revert hhead
    decide

/-- A string goes on over a line break only between its marks. -/
theorem EndsBefore.quoted_of_lineBreak (h : t.EndsBefore rest) (hk : t.kind = .string) {c : Char}
    (hc : isLineBreak c = true) {before after : List Char}
    (ht : t.text.toList = before ++ c :: after) :
    ∃ string : Quoted, State.ofText? before = some (.quoted string) ∧
      string.afterLineBreak ≠ none := by
  obtain ⟨d, ds, hd, hfirst⟩ := h.string_first hk
  obtain ⟨before, rfl⟩ : ∃ es, before = d :: es := by
    rw [hd] at ht
    cases before with
    | nil =>
      rw [(List.cons.inj ht).1, hc] at hfirst
      cases hfirst.1
    | cons e es => exact ⟨es, by rw [(List.cons.inj ht).1]⟩
  obtain ⟨last, hl, -, -⟩ := id h
  rw [ht, State.ofText?_append (List.cons_ne_nil _ _)] at hl
  obtain ⟨state, hb, hl⟩ := Option.bind_eq_some_iff.1 hl
  have hr := State.reads_ofText? hb
  rw [State.after?_cons, State.step_lineBreak hr hc] at hl
  obtain ⟨next, hs, -⟩ := Option.bind_eq_some_iff.1 hl
  -- the other lexemes that hold a line break begin with one or with a backslash
  cases state with
  | quoted string =>
    refine ⟨string, hb, fun hn => ?_⟩
    rw [State.afterLineBreak, hn] at hs
    cases hs
  | lineBreak =>
    rw [hr.2 d List.mem_cons_self] at hfirst
    cases hfirst.1
  | backslash => exact absurd (List.cons.inj hr).1 hfirst.2
  | continuation lineFeed =>
    cases lineFeed with
    | true => exact absurd (List.cons.inj hr).1 hfirst.2
    | false =>
      obtain hr | hr := hr
      · exact absurd (List.cons.inj hr).1 hfirst.2
      · exact absurd (List.cons.inj hr).1 hfirst.2
  | space | comment | word | numeral | exclamation | sign => cases hs

/-- The folded strings are those of one mark in which a line feed is escaped. -/
theorem EndsBefore.isFolded_iff (h : t.EndsBefore rest) :
    t.isFolded = true ↔ State.FoldsText t.text.toList := by
  constructor
  · intro hf
    obtain ⟨⟨hk, hmem⟩, hshort⟩ : (t.kind = .string ∧ '\n' ∈ t.text.toList) ∧
        t.isLongString = false := by simpa [isFolded] using hf
    obtain ⟨before, after, ht⟩ := List.append_of_mem hmem
    obtain ⟨string, hb, hn⟩ := h.quoted_of_lineBreak hk (by decide) ht
    obtain ⟨q, body, -, hread, hlong⟩ := h.isLongString_iff_reads hk ht hb
    rw [hshort] at hlong
    have short : ∀ tail, body ≠ [q, q, q] ++ tail := by
      rintro tail rfl
      rw [List.append_assoc] at hlong
      exact absurd (hlong.2 (List.prefix_append _ _)) Bool.false_ne_true
    cases string with
    | shortEscape p => exact ⟨before, after, p, ht, hb⟩
    | long p marks =>
      obtain ⟨-, -, contents, hbody, -⟩ := hread
      rw [List.append_assoc] at hbody
      exact absurd hbody (short _)
    | longEscape p =>
      obtain ⟨-, contents, marks, -, hbody, -⟩ := hread
      rw [List.append_assoc, List.append_assoc] at hbody
      exact absurd hbody (short _)
    | opened | empty | short | closed => exact absurd rfl hn
  · rintro ⟨before, after, q, ht, hb⟩
    have hk : t.kind = .string := h.kind_eq_string ht hb
    obtain ⟨p, body, hp, ⟨rfl, cs, rfl, hcs⟩, hlong⟩ := h.isLongString_iff_reads hk ht hb
    have hshort : t.isLongString = false := by
      rw [Bool.eq_false_iff, Ne, hlong, List.cons_append, List.append_assoc]
      intro hm
      have hesc := (hcs.marks_prefix (ne_backslash_of_isQuote hp) hm).2
      exact ne_backslash_of_isQuote hp (List.cons_prefix_cons.1 hesc).1
    simp [isFolded, hk, hshort, ht]

/-- Before a line feed and before a carriage return the same tokens end. -/
theorem endsBefore_crlf (ht : '\r' ∉ t.text.toList) :
    t.EndsBefore (Text.crlf rest) ↔ t.EndsBefore rest := by
  have notContinued : t ≠ continued := by
    rintro rfl
    revert ht
    decide
  cases rest with
  | nil => rfl
  | cons c cs =>
    by_cases hc : c = '\n'
    · subst hc
      constructor
      · intro h
        exact (h.before_break (by decide) (by decide) cs).resolve_right fun he => notContinued he.1
      · intro h
        exact (h.before_break (by decide) (by decide) _).resolve_right fun he => notContinued he.1
    · rw [Text.crlf_cons hc]
      constructor
      · intro h
        exact h.of_head? fun d hd => hd
      · intro h
        exact h.of_head? fun d hd => hd

/-- With the other line ends the token stands where it stood, unless it is a folded string. -/
theorem crlf_endsBefore_iff (ht : '\r' ∉ t.text.toList) :
    t.crlf.EndsBefore (Text.crlf rest) ↔ t.EndsBefore rest ∧ t.isFolded = false := by
  have htext : t.crlf.text.toList = Text.crlf t.text.toList := String.toList_ofList
  rw [← endsBefore_crlf ht]
  constructor
  · rintro ⟨last, hl, hf, hs⟩
    rw [htext, State.ofText?_crlf ht] at hl
    have h : t.EndsBefore (Text.crlf rest) := ⟨last, hl.1, hf, hs⟩
    exact ⟨h, Bool.eq_false_iff.2 fun hfold => hl.2 (h.isFolded_iff.1 hfold)⟩
  · rintro ⟨h, hfold⟩
    obtain ⟨last, hl, hf, hs⟩ := id h
    refine ⟨last, ?_, hf, hs⟩
    rw [htext, State.ofText?_crlf ht]
    refine ⟨hl, fun hfolds => ?_⟩
    rw [h.isFolded_iff.2 hfolds] at hfold
    cases hfold

/-- No token ends between the two characters of a line end. -/
theorem EndsBefore.not_inside_lineEnd {before : List Char} (ht : t.text.toList = before ++ ['\r']) :
    ¬ t.EndsBefore ('\n' :: rest) := by
  rintro ⟨last, hl, hf, hs⟩
  rw [State.stopsBefore_cons] at hs
  rw [ht] at hl
  cases before with
  | nil =>
    obtain rfl : State.lineBreak = last := Option.some.inj hl
    cases hs
  | cons c cs =>
    rw [State.ofText?_append (List.cons_ne_nil _ _)] at hl
    obtain ⟨state, hb, hl⟩ := Option.bind_eq_some_iff.1 hl
    rw [State.after?_cons, State.step_lineBreak (State.reads_ofText? hb) (by decide)] at hl
    cases state with
    | lineBreak | backslash =>
      obtain rfl := Option.some.inj hl
      cases hs
    | quoted string =>
      cases string with
      | shortEscape q | long q marks | longEscape q =>
        obtain rfl := Option.some.inj hl
        cases hf
      | opened | empty | short | closed => cases hl
    | continuation lineFeed => cases lineFeed <;> cases hl
    | space | comment | word | numeral | exclamation | sign => cases hl

end Token

section Sequence

variable {source : String} {ts us : List Token} {cs : List Char}

theorem toList_sourceText_map_crlf (ts : List Token) :
    (sourceText (ts.map Token.crlf)).toList = Text.crlf (sourceText ts).toList := by
  induction ts with
  | nil => rfl
  | cons t ts ih =>
    rw [List.map_cons, sourceText_cons, sourceText_cons, String.toList_append,
      String.toList_append, Text.crlf_append, ih]
    rw [Token.crlf, String.toList_ofList]

theorem lexed_map_crlf (ht : '\r' ∉ (sourceText ts).toList) :
    Lexed (ts.map Token.crlf) [] ↔ Lexed ts [] ∧ ∀ t ∈ ts, t.isFolded = false := by
  induction ts with
  | nil => simp
  | cons t ts ih =>
    rw [sourceText_cons, String.toList_append, List.mem_append, not_or] at ht
    rw [List.map_cons, lexed_cons, lexed_cons, ih ht.2, List.append_nil, List.append_nil,
      toList_sourceText_map_crlf, Token.crlf_endsBefore_iff ht.1, List.forall_mem_cons]
    tauto

/-- What is read from the longer text are tokens with its line ends. -/
theorem exists_map_crlf (hu : Lexed us []) (hs : (sourceText us).toList = Text.crlf cs) :
    ∃ ts, us = ts.map Token.crlf ∧ (sourceText ts).toList = cs := by
  induction us generalizing cs with
  | nil =>
    refine ⟨[], rfl, ?_⟩
    cases cs with
    | nil => rfl
    | cons c cs =>
      have hh := congrArg List.head? hs
      rw [Text.head?_crlf] at hh
      cases hh
  | cons u us ih =>
    rw [sourceText_cons, String.toList_append] at hs
    obtain ⟨before, after, rfl, hb, ha⟩ | ⟨before, after, hb, ha⟩ := Text.crlf_eq_append hs.symm
    · obtain ⟨ts, rfl, rfl⟩ := ih hu.2 ha
      refine ⟨⟨u.kind, String.ofList before⟩ :: ts, ?_, ?_⟩
      · rw [List.map_cons, Token.crlf, String.toList_ofList, ← hb, String.ofList_toList]
      · rw [sourceText_cons, String.toList_append, String.toList_ofList]
    · have he := hu.1
      rw [List.append_nil, ha] at he
      exact absurd he (Token.EndsBefore.not_inside_lineEnd hb)

/-- A text is read with a carriage return in front of every line feed exactly if it is read without
and no string of one mark goes on over an escaped line feed. The tokens are the same up to their
line ends. -/
theorem ofSource_crlf (h : '\r' ∉ source.toList) :
    Token.ofSource (String.ofList (Text.crlf source.toList)) = .ok us ↔
      ∃ ts, Token.ofSource source = .ok ts ∧ (∀ t ∈ ts, t.isFolded = false) ∧
        us = ts.map Token.crlf := by
  rw [Token.ofSource_eq_ok_iff]
  constructor
  · rintro ⟨hs, hl⟩
    have hs : (sourceText us).toList = Text.crlf source.toList := by rw [hs, String.toList_ofList]
    obtain ⟨ts, rfl, ht⟩ := exists_map_crlf hl hs
    rw [← ht] at h
    obtain ⟨hl, hf⟩ := (lexed_map_crlf h).1 hl
    exact ⟨ts, Token.ofSource_eq_ok_iff.2 ⟨String.toList_injective ht, hl⟩, hf, rfl⟩
  · rintro ⟨ts, ht, hf, rfl⟩
    obtain ⟨rfl, hl⟩ := Token.ofSource_eq_ok_iff.1 ht
    refine ⟨?_, (lexed_map_crlf h).2 ⟨hl, hf⟩⟩
    rw [← toList_sourceText_map_crlf, String.ofList_toList]

/-- A continued line, a long string that escapes a line feed, a comment and blank lines. -/
theorem ofSource_crlf_mixed :
    Token.ofSource "f(\\\r\n\"\"\"\\\r\n\"\"\") # é\r\n\r\n" = .ok
      [⟨.identifier, "f"⟩, ⟨.delimiter, "("⟩, ⟨.whitespace, "\\\r\n"⟩,
        ⟨.string, "\"\"\"\\\r\n\"\"\""⟩, ⟨.delimiter, ")"⟩, ⟨.whitespace, " "⟩, ⟨.comment, "# é"⟩,
        ⟨.newline, "\r\n\r\n"⟩] :=
  (@ofSource_crlf "f(\\\n\"\"\"\\\n\"\"\") # é\n\n" _ (by decide)).2
    ⟨[⟨.identifier, "f"⟩, ⟨.delimiter, "("⟩, ⟨.whitespace, "\\\n"⟩,
        ⟨.string, "\"\"\"\\\n\"\"\""⟩, ⟨.delimiter, ")"⟩, ⟨.whitespace, " "⟩, ⟨.comment, "# é"⟩,
        ⟨.newline, "\n\n"⟩], by cbv, by decide, rfl⟩

/-- The exception: a string of one mark that escapes its line feed is read, and with a carriage
return in front of the line feed it is not. -/
theorem ofSource_crlf_folded :
    Token.ofSource "'\\\n'" = .ok [⟨.string, "'\\\n'"⟩] ∧
      String.ofList (Text.crlf "'\\\n'".toList) = "'\\\r\n'" ∧
      Token.ofSource "'\\\r\n'" = .error ⟨.newlineInString, ⟨1, 1⟩⟩ := by
  refine ⟨by cbv, by cbv, by cbv⟩

end Sequence
end PackageRecipe
