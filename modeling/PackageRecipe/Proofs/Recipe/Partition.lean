import PackageRecipe.Proofs.Recipe.Division

/-!
How a recipe lies in its source. Without a declaration the source is all header. Otherwise the
header, the blanks and the indentation follow each other up to the first declaration, and the footer
is what the calls leave of the text behind it, from a line break on.
-/
namespace PackageRecipe

open Lexeme

/-- White space that a line may begin with: a run of blanks or a line continuation. -/
def IsIndentation (t : Token) : Prop :=
  t.kind = .whitespace ∧
    ((∀ c ∈ t.text.toList, isSpace c = true) ∨ t.text ∈ ["\\\n", "\\\r", "\\\r\n"])

theorem Lexed.isIndentation {ts : List Token} {rest : List Char} (h : Lexed ts rest)
    (hk : ∀ t ∈ ts, t.kind = .whitespace) : ∀ t ∈ ts, IsIndentation t := by
  induction ts with
  | nil => nofun
  | cons t ts ih =>
    obtain ⟨ht, hts⟩ := List.forall_mem_cons.1 hk
    exact List.forall_mem_cons.2 ⟨⟨ht, by simpa using h.1.whitespace_text ht⟩, ih h.2 hts⟩

namespace Division

variable {d : Division}

theorem footer_subset : d.footer ⊆ d.tokens := by
  intro t ht
  refine List.mem_append_right _ ?_
  rcases List.mem_append.1 ht with ht | ht
  · obtain ⟨p, hp, ht⟩ := List.mem_flatMap.1 ht
    exact List.mem_append_left _ (List.mem_flatMap.2 ⟨p, (List.mem_filter.1 hp).1, ht⟩)
  · exact List.mem_append_right _ ht

theorem isLineBreak_head?_footer (h : Lexed d.tokens []) :
    ∀ c ∈ (sourceText d.footer).toList.head?, isLineBreak c = true :=
  isLineBreak_head?_sourceText (fun t ht => h.exists_endsBefore t (footer_subset ht))
    (d.isBreak_head?_footer h)

theorem isIndentation_indent (h : Lexed d.tokens []) : ∀ t ∈ d.indent, IsIndentation t := by
  obtain ⟨rest, hi⟩ := d.exists_lexed_indent h
  exact hi.isIndentation d.kind_indent

theorem kind_gap : ∀ t ∈ d.gap, t.kind = .newline ∨ t.kind = .whitespace := by
  intro t ht
  have hb : t.isBlank = true := by
    refine d.lead_isBlank t ?_
    rw [← d.gap_append_indent]
    exact List.mem_append_left _ ht
  simpa [Token.isBlank] using hb

/-- The source of a recipe up to the end of its first declaration, and what is left. -/
theorem sourceText_tokens : sourceText d.tokens =
    phrasesText d.before ++ sourceText d.gap ++ sourceText d.indent ++
      (d.call.name ++ (sourceText d.arguments ++ sourceText d.rest)) := by
  rw [tokens, first, sourceText_append, sourceText_append, sourceText_append, ← d.gap_append_indent,
    sourceText_append, sourceText_cons, phrasesText]
  simp only [String.append_assoc]
  rfl

end Division

theorem Recipe.ofDeclarations_of_isText {phrases : List Phrase}
    (h : ∀ p ∈ phrases, p.isText = true) :
    Recipe.ofDeclarations phrases [] = ⟨phrasesText phrases, "", [], [], ""⟩ := by
  rw [ofDeclarations, List.takeWhile_eq_self_iff.2 h, List.dropWhile_eq_nil_iff.2 h]
  rfl

/-- The recipe divides its source at the phrase `first`, a call, with the phrases `before` in front
of it and the phrases `after` behind it. -/
structure Recipe.DividesAt (r : Recipe) (source : String) (before : List Phrase) (first : Phrase)
    (after : List Phrase) : Prop where
  before_isText : ∀ p ∈ before, p.isText = true
  header : r.header = phrasesText before
  call : ∃ (call : Call) (gap indent arguments : List Token),
    first = ⟨call.kind, gap ++ indent ++ call.callee :: arguments⟩ ∧
    source = r.header ++ sourceText gap ++ r.indent ++
      (call.name ++ (sourceText arguments ++ phrasesText after)) ∧
    (∀ t ∈ gap, t.kind = .newline ∨ t.kind = .whitespace) ∧
    (∀ t ∈ gap.getLast?, t.kind = .newline) ∧
    r.indent = sourceText indent ∧ ∀ t ∈ indent, IsIndentation t
  footer : r.footer = phrasesText (after.filter Phrase.isText)
  footer_head : ∀ c ∈ r.footer.toList.head?, c = '\n' ∨ c = '\r'

theorem Division.dividesAt {d : Division} (hl : Lexed d.tokens [])
    {declarations : List Declaration} :
    (Recipe.ofDeclarations d.phrases declarations).DividesAt (sourceText d.tokens) d.before d.first
      (d.after ++ trailing d.blanks) := by
  rw [d.ofDeclarations_phrases]
  constructor
  · exact d.before_isText
  · rfl
  · refine ⟨d.call, d.gap, d.indent, d.arguments, ?_, ?_, kind_gap, ?_, rfl,
      isIndentation_indent hl⟩
    · rw [d.gap_append_indent]
      rfl
    · rw [phrasesText_append_trailing]
      exact sourceText_tokens
    · simpa [Token.isBreak] using d.isBreak_gap
  · exact d.phrasesText_filter_after.symm
  · exact fun c hc => isLineBreak_iff.1 (isLineBreak_head?_footer hl c hc)

/-- A recipe covers its source. If the source declares nothing, it is all header; otherwise the
first call divides it. Each call declares one version or one dependency, in the order of the
source. -/
theorem ofSource_partition {source : String} {r : Recipe} (h : Recipe.ofSource source = .ok r) :
    ∃ tokens phrases, Token.ofSource source = .ok tokens ∧ Phrase.ofTokens tokens = .ok phrases ∧
      ((∀ p ∈ phrases, p.isText = true) ∧ r = ⟨source, "", [], [], ""⟩ ∨
        ∃ before first after, phrases = before ++ first :: after ∧
          r.DividesAt source before first after) ∧
      List.Forall₂ (fun p v => Call.Reads (.version, p.tokens) (.version v))
        (phrases.filter fun p => p.kind = .version) r.versions ∧
      List.Forall₂ (fun p d => Call.Reads (.dependsOn, p.tokens) (.dependency d))
        (phrases.filter fun p => p.kind = .dependsOn) r.dependencies := by
  obtain ⟨tokens, phrases, declarations, ht, hp, hd, rfl⟩ := Recipe.ofSource_eq_ok_iff.1 h
  obtain ⟨rfl, hl⟩ := Token.ofSource_eq_ok_iff.1 ht
  refine ⟨tokens, phrases, ht, hp, ?_, forall₂_of_callStatements hd⟩
  by_cases hn : ∀ p ∈ phrases, p.isText = true
  · rw [callStatements_of_isText hn] at hd
    obtain rfl := List.forall₂_nil_left_iff.1 hd
    refine .inl ⟨hn, ?_⟩
    rw [Recipe.ofDeclarations_of_isText hn, phrasesText, Phrase.flatMap_tokens_of_ofTokensIn hp]
  · have hc : ∃ p ∈ phrases, p.isText = false := by simpa using hn
    obtain ⟨d, rfl, rfl⟩ := exists_division hp hc
    exact .inr ⟨d.before, d.first, d.after ++ trailing d.blanks, rfl, Division.dividesAt hl⟩

/-- Blank lines and a continued line before the first call. -/
theorem ofSource_partition_continued :
    let source := "class A(B):\n\n \\\n  version('1')\n  x = 1\n  depends_on('y')\n"
    let r : Recipe := ⟨"class A(B):", " \\\n  ", [⟨⟨.string, "'1'"⟩, none, none, none⟩],
      [⟨⟨.string, "'y'"⟩, [], none⟩], "\n  x = 1\n"⟩
    ∃ tokens phrases, Token.ofSource source = .ok tokens ∧ Phrase.ofTokens tokens = .ok phrases ∧
      ((∀ p ∈ phrases, p.isText = true) ∧ r = ⟨source, "", [], [], ""⟩ ∨
        ∃ before first after, phrases = before ++ first :: after ∧
          r.DividesAt source before first after) ∧
      List.Forall₂ (fun p v => Call.Reads (.version, p.tokens) (.version v))
        (phrases.filter fun p => p.kind = .version) r.versions ∧
      List.Forall₂ (fun p d => Call.Reads (.dependsOn, p.tokens) (.dependency d))
        (phrases.filter fun p => p.kind = .dependsOn) r.dependencies :=
  ofSource_partition (by cbv)

end PackageRecipe
