import PackageRecipe.Proofs.Lexeme.Shape
import PackageRecipe.Proofs.Token.Sequence

/-!
What the kind of a token says about its text and about what may follow it, for tokens that reading
finds. Line breaks never stand side by side, a comment reaches to the end of its line, and white
space and strings end before every character that could not belong to them.
-/
namespace PackageRecipe

open Lexeme

namespace Token

variable {t : Token} {rest : List Char}

/-- A token that begins with a line break is a run of them. -/
theorem EndsBefore.kind_eq_newline (h : t.EndsBefore rest)
    (hc : ∃ c ∈ t.text.toList.head?, isLineBreak c = true) : t.kind = .newline := by
  obtain ⟨last, hl, hf, -⟩ := h
  obtain ⟨c, hc, hb⟩ := hc
  obtain ⟨cs, ht⟩ := List.head?_eq_some_iff.1 hc
  rw [ht, State.ofText?_cons_eq_some_iff] at hl
  obtain ⟨state, ho, ha⟩ := hl
  have hs : isSpace c = false := by
    rcases isLineBreak_iff.1 hb with rfl | rfl <;> decide
  obtain rfl : State.lineBreak = state := by simpa [State.ofChar, hs, hb] using ho
  have stays : ∀ cs : List Char, State.lineBreak.after? cs = some last → last = .lineBreak := by
    intro cs
    induction cs with
    | nil => exact fun h => (Option.some.inj h).symm
    | cons d ds ih =>
      intro h
      rw [State.after?_cons, State.step] at h
      split at h
      · exact ih h
      · cases h
  rw [stays cs ha] at hf
  exact (Except.ok.inj hf).symm

theorem EndsBefore.newline_text (h : t.EndsBefore rest) (hk : t.kind = .newline) :
    ∀ c ∈ t.text.toList, isLineBreak c = true := by
  obtain ⟨last, hl, hf, -⟩ := h
  have hr := State.reads_ofText? hl
  obtain rfl : last = .lineBreak := by simpa [hk] using hr.finish_cases hf
  exact hr.2

/-- A run of line breaks ends before every other character. -/
theorem EndsBefore.newline_rest (h : t.EndsBefore rest) (hk : t.kind = .newline) :
    ∀ c ∈ rest.head?, isLineBreak c = false := by
  obtain ⟨last, hl, hf, hs⟩ := h
  obtain rfl : last = .lineBreak := by simpa [hk] using (State.reads_ofText? hl).finish_cases hf
  intro c hc
  simpa [State.step] using hs c hc

/-- White space inside a line: a run of blanks, or a backslash with the line break after it. -/
theorem EndsBefore.whitespace_text (h : t.EndsBefore rest) (hk : t.kind = .whitespace) :
    (∀ c ∈ t.text.toList, isSpace c = true) ∨
      t.text = "\\\n" ∨ t.text = "\\\r" ∨ t.text = "\\\r\n" := by
  obtain ⟨last, hl, hf, -⟩ := h
  have hr := State.reads_ofText? hl
  obtain rfl | ⟨lineFeed, rfl⟩ : last = .space ∨ ∃ lineFeed, last = .continuation lineFeed := by
    simpa [hk] using hr.finish_cases hf
  · exact .inl hr.2
  · right
    cases lineFeed with
    | true => exact .inr (.inl (String.toList_injective hr))
    | false =>
      rcases hr with hr | hr
      · exact .inl (String.toList_injective hr)
      · exact .inr (.inr (String.toList_injective hr))

/-- A comment ends with its line. -/
theorem EndsBefore.comment_rest (h : t.EndsBefore rest) (hk : t.kind = .comment) :
    ∀ c ∈ rest.head?, isLineBreak c = true := by
  obtain ⟨last, hl, hf, hs⟩ := h
  obtain rfl : last = .comment := by simpa [hk] using (State.reads_ofText? hl).finish_cases hf
  intro c hc
  simpa [State.step] using hs c hc

theorem EndsBefore.whitespace_cons (h : t.EndsBefore rest) (hk : t.kind = .whitespace) {c : Char}
    {cs : List Char} (hc : isSpace c = false) (hn : c ≠ '\n') : t.EndsBefore (c :: cs) := by
  obtain ⟨last, hl, hf, -⟩ := h
  refine ⟨last, hl, hf, State.stopsBefore_cons.2 ?_⟩
  obtain rfl | ⟨lineFeed, rfl⟩ : last = .space ∨ ∃ lineFeed, last = .continuation lineFeed := by
    simpa [hk] using (State.reads_ofText? hl).finish_cases hf
  · simp [State.step, hc]
  · simp [State.step, hn]

/-- A string ends at its last mark, whatever follows, unless that is another mark. -/
theorem EndsBefore.string_cons (h : t.EndsBefore rest) (hk : t.kind = .string) {c : Char}
    {cs : List Char} (hc : isQuote c = false) : t.EndsBefore (c :: cs) := by
  obtain ⟨last, hl, hf, -⟩ := h
  refine ⟨last, hl, hf, State.stopsBefore_cons.2 ?_⟩
  have hr := State.reads_ofText? hl
  obtain ⟨string, rfl, hn⟩ : ∃ string, last = .quoted string ∧ string.fault? none = none := by
    simpa [hk] using hr.finish_cases hf
  obtain ⟨-, q, -, -, hq, hm, -⟩ := hr
  cases string with
  | empty p =>
    obtain rfl : p = q := hm
    have : c ≠ p := by
      rintro rfl
      rw [hq] at hc
      cases hc
    simp [State.step, Quoted.step, this]
  | closed => rfl
  | opened | short | shortEscape | long | longEscape => cases hn

/-- A string begins with its mark or with a letter. -/
theorem EndsBefore.string_head (h : t.EndsBefore rest) (hk : t.kind = .string) :
    ∃ c cs, t.text.toList = c :: cs ∧ (isQuote c = true ∨ Text.opensName c = true) := by
  obtain ⟨last, hl, hf, -⟩ := h
  have hr := State.reads_ofText? hl
  obtain ⟨string, rfl, -⟩ : ∃ string, last = .quoted string ∧ string.fault? none = none := by
    simpa [hk] using hr.finish_cases hf
  obtain ⟨letters, q, body, he, hq, -, hl⟩ := hr
  cases letters with
  | nil => exact ⟨q, body, he, .inl hq⟩
  | cons c cs =>
    obtain hl | ⟨-, ho⟩ := hl
    · cases hl
    · exact ⟨c, cs ++ q :: body, he, .inr (ho c rfl)⟩

end Token

/-- White space may stand before any character that is neither blank nor a line feed. -/
theorem Lexed.whitespace {ts : List Token} {rest : List Char} (h : Lexed ts rest)
    (hk : ∀ t ∈ ts, t.kind = .whitespace) {c : Char} (hs : isSpace c = false) (hn : c ≠ '\n')
    (cs : List Char) : Lexed ts (c :: cs) := by
  induction ts with
  | nil => trivial
  | cons t ts ih =>
    obtain ⟨ht, hts⟩ := List.forall_mem_cons.1 hk
    refine ⟨?_, ih h.2 hts⟩
    cases ts with
    | nil => exact h.1.whitespace_cons ht hs hn
    | cons u us =>
      have hne : (sourceText (u :: us)).toList ≠ [] := by
        rw [sourceText_cons, String.toList_append]
        exact List.append_ne_nil_of_left_ne_nil h.2.1.text_ne_nil _
      refine h.1.of_head? fun d hd => ?_
      rw [List.head?_append_of_ne_nil _ hne] at hd ⊢
      exact hd

/-- No line break comes first where white space stands before another character. -/
theorem Lexed.head_whitespace {ts : List Token} {rest : List Char} (h : Lexed ts rest)
    (hk : ∀ t ∈ ts, t.kind = .whitespace) {c : Char} (hc : isLineBreak c = false)
    (cs : List Char) : ∃ d ds, (sourceText ts).toList ++ c :: cs = d :: ds ∧
      isLineBreak d = false := by
  cases ts with
  | nil => exact ⟨c, cs, rfl, hc⟩
  | cons t ts =>
    obtain ⟨d, ds, hd⟩ := List.exists_cons_of_ne_nil h.1.text_ne_nil
    refine ⟨d, ds ++ (sourceText ts).toList ++ c :: cs, ?_, ?_⟩
    · rw [sourceText_cons, String.toList_append, hd]
      rfl
    · rcases h.1.whitespace_text (hk t List.mem_cons_self) with hs | ht | ht | ht
      · have hsp : isSpace d = true := hs d (by rw [hd]; exact List.mem_cons_self)
        exact not_isLineBreak_of_isSpace hsp
      all_goals
        rw [ht] at hd
        obtain ⟨rfl, -⟩ := List.cons.inj hd
        decide

/-- The first character of what a sequence of tokens covers. -/
theorem Lexed.head?_sourceText {t : Token} {ts : List Token} {rest : List Char}
    (h : Lexed (t :: ts) rest) : (sourceText (t :: ts)).toList.head? = t.text.toList.head? := by
  rw [sourceText_cons, String.toList_append, List.head?_append_of_ne_nil _ h.1.text_ne_nil]

theorem isLineBreak_head?_sourceText {ts : List Token} (h : ∀ t ∈ ts, ∃ after, t.EndsBefore after)
    (hb : ∀ t ∈ ts.head?, t.isBreak = true) :
    ∀ c ∈ (sourceText ts).toList.head?, isLineBreak c = true := by
  intro c hc
  cases ts with
  | nil => cases hc
  | cons t ts =>
    obtain ⟨after, ht⟩ := h t List.mem_cons_self
    have hk : t.kind = .newline := by simpa [Token.isBreak] using hb t rfl
    rw [sourceText_cons, String.toList_append, List.head?_append_of_ne_nil _ ht.text_ne_nil] at hc
    exact ht.newline_text hk c (List.mem_of_head? hc)

/-- Without carriage returns a line break begins with a line feed. -/
theorem head?_sourceText_eq_lineFeed {ts : List Token} (hn : ts ≠ [])
    (h : ∀ t ∈ ts, ∃ after, t.EndsBefore after) (hb : ∀ t ∈ ts.head?, t.isBreak = true)
    (hr : '\r' ∉ (sourceText ts).toList) : (sourceText ts).toList.head? = some '\n' := by
  obtain ⟨t, us, rfl⟩ := List.exists_cons_of_ne_nil hn
  obtain ⟨after, ht⟩ := h t List.mem_cons_self
  have hs : (sourceText (t :: us)).toList ≠ [] := by
    rw [sourceText_cons, String.toList_append]
    exact List.append_ne_nil_of_left_ne_nil ht.text_ne_nil _
  obtain ⟨c, cs, hc⟩ := List.exists_cons_of_ne_nil hs
  have hl := isLineBreak_head?_sourceText h hb c (by rw [hc]; rfl)
  rw [hc] at hr ⊢
  rcases isLineBreak_iff.1 hl with rfl | rfl
  · rfl
  · exact absurd List.mem_cons_self hr

/-- After a comment there is nothing or a line break. -/
theorem Lexed.isChain_comment {ts : List Token} {rest : List Char} (h : Lexed ts rest) :
    ts.IsChain fun t u => t.isComment = true → u.isBreak = true := by
  induction ts with
  | nil => exact .nil
  | cons t ts ih =>
    refine List.isChain_cons.2 ⟨fun u hu hc => ?_, ih h.2⟩
    obtain ⟨us, rfl⟩ := List.head?_eq_some_iff.1 hu
    have hb := h.1.comment_rest (by simpa [Token.isComment] using hc)
    cases hd : u.text.toList with
    | nil => exact absurd hd h.2.1.text_ne_nil
    | cons c cs =>
      have head : ((sourceText (u :: us)).toList ++ rest).head? = some c := by
        rw [List.head?_append, h.2.head?_sourceText, hd]
        rfl
      have hk := h.2.1.kind_eq_newline ⟨c, by rw [hd]; rfl, hb c head⟩
      simpa [Token.isBreak] using hk

end PackageRecipe
