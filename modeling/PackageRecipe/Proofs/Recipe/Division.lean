import PackageRecipe.Proofs.Phrase.Neighbour
import PackageRecipe.Proofs.Recipe.Extraction
import PackageRecipe.Proofs.Token.Shape

/-!
The first declaration of a recipe and what it divides. A `Division` holds the phrases of a recipe
that declares something, cut at the name that its first declaration calls; the parts of the recipe
are read off it. Whatever such a recipe declares, its source is the header, the blanks with the
indentation at their end, and the calls and the footer after them.
-/
namespace PackageRecipe

/-- The phrases of a recipe, divided by its first declaration. -/
structure Division where
  before : List Phrase
  /-- The blanks that the first declaration begins with. -/
  lead : List Token
  call : Call
  /-- The first declaration behind the name that it calls. -/
  arguments : List Token
  after : List Phrase
  /-- The blanks after the last phrase. -/
  blanks : List Token
  before_isText : ∀ p ∈ before, p.isText = true
  before_phrased : Phrased .preamble before .body
    (lead ++ call.callee :: arguments ++ (after.flatMap Phrase.tokens ++ blanks))
  lead_isBlank : ∀ t ∈ lead, t.isBlank = true
  unbroken : Unbroken 0 (call.callee :: arguments)
  ends : EndsStatement (openAfter 0 (call.callee :: arguments))
    (after.flatMap Phrase.tokens ++ blanks)
  after_phrased : Phrased .body after .body blanks
  blanks_isBlank : ∀ t ∈ blanks, t.isBlank = true

namespace Division

variable (d : Division)

/-- The phrase of the first declaration. -/
def first : Phrase := ⟨d.call.kind, d.lead ++ d.call.callee :: d.arguments⟩

/-- All tokens after the first declaration. -/
def rest : List Token := d.after.flatMap Phrase.tokens ++ d.blanks

def tokens : List Token := d.before.flatMap Phrase.tokens ++ d.first.tokens ++ d.rest

def phrases : List Phrase := d.before ++ d.first :: (d.after ++ trailing d.blanks)

/-- The blanks of the lead on the line of the first declaration. -/
def indent : List Token := d.lead.rtakeWhile fun t => !t.isBreak

/-- The blanks of the lead on the lines above. -/
def gap : List Token := d.lead.rdropWhile fun t => !t.isBreak

/-- The tokens after the first declaration that belong to no other. -/
def footer : List Token := (d.after.filter Phrase.isText).flatMap Phrase.tokens ++ d.blanks

end Division

theorem isText_trailing (blanks : List Token) : ∀ p ∈ trailing blanks, p.isText = true := by
  intro p hp
  obtain ⟨-, rfl⟩ := eq_of_mem_trailing hp
  rfl

theorem phrasesText_append_trailing (ps : List Phrase) (blanks : List Token) :
    phrasesText (ps ++ trailing blanks) = sourceText (ps.flatMap Phrase.tokens ++ blanks) := by
  rw [phrasesText, List.flatMap_append, flatMap_tokens_trailing]

/-- A recipe that declares something is divided by its first declaration. -/
theorem exists_division {tokens : List Token} {phrases : List Phrase}
    (h : Phrase.ofTokens tokens = .ok phrases) (hn : ∃ p ∈ phrases, p.isText = false) :
    ∃ d : Division, d.tokens = tokens ∧ d.phrases = phrases := by
  obtain ⟨ps, next, blanks, hps, hb, rfl, rfl⟩ := Phrase.ofTokensIn_eq_ok_iff.1 h
  obtain ⟨first, hf⟩ : ∃ first, (ps.find? fun p => !p.isText) = some first := by
    refine Option.isSome_iff_exists.1 (List.find?_isSome.2 ?_)
    obtain ⟨p, hp, ht⟩ := hn
    rcases List.mem_append.1 hp with hp | hp
    · exact ⟨p, hp, by simp [ht]⟩
    · rw [isText_trailing blanks p hp] at ht
      cases ht
  obtain ⟨hc, before, after, rfl, hbefore⟩ := List.find?_eq_some_iff_append.1 hf
  obtain ⟨call, hk⟩ := Phrase.isText_eq_false_iff.1 (by simpa using hc)
  obtain ⟨region, hpre, hrest⟩ := Phrased.append_iff.1 hps
  obtain ⟨middle, hfirst, hafter⟩ := Phrased.cons_iff.1 hrest
  obtain ⟨kind, tokens⟩ := first
  obtain rfl : kind = call.kind := hk
  obtain ⟨rfl, rfl, lead, arguments, rfl, hl, hu, he⟩ := Region.finds_call_iff.1 hfirst
  obtain ⟨rfl, -⟩ := hafter.kinds_of_body
  refine ⟨⟨before, lead, call, arguments, after, blanks, by simpa using hbefore, ?_, hl, hu, he,
    hafter, hb⟩, ?_, ?_⟩
  · simpa using hpre
  · simp [Division.tokens, Division.first, Division.rest]
  · simp [Division.phrases, Division.first]

namespace Division

variable (d : Division)

theorem gap_append_indent : d.gap ++ d.indent = d.lead :=
  List.rdropWhile_append_rtakeWhile

theorem isBlank_of_mem_indent {t : Token} (h : t ∈ d.indent) : t.isBlank = true := by
  refine d.lead_isBlank t ?_
  rw [← d.gap_append_indent]
  exact List.mem_append_right _ h

/-- The indentation is white space within a line. -/
theorem kind_indent : ∀ t ∈ d.indent, t.kind = .whitespace := by
  intro t ht
  have hb := d.isBlank_of_mem_indent ht
  have hn : t.isBreak = false := by simpa using List.mem_rtakeWhile_imp ht
  have hk : t.kind = .newline ∨ t.kind = .whitespace := by simpa [Token.isBlank] using hb
  obtain hk | hk := hk
  · simp [Token.isBreak, hk] at hn
  · exact hk

theorem exists_lexed_indent (h : Lexed d.tokens []) : ∃ rest, Lexed d.indent rest := by
  have hf := (lexed_append.1 (lexed_append.1 h).1).2
  have hl := (lexed_append.1 hf).1
  rw [← d.gap_append_indent] at hl
  exact ⟨_, (lexed_append.1 hl).2⟩

/-- What stands above the line of the first declaration ends with a line break. -/
theorem isBreak_gap : ∀ t ∈ d.gap.getLast?, t.isBreak = true := by
  intro t ht
  have hn : d.gap ≠ [] := by
    rintro he
    rw [he] at ht
    cases ht
  obtain rfl := Option.some.inj ((List.getLast?_eq_some_getLast hn).symm.trans ht)
  simpa [gap] using List.rdropWhile_last_not _ _ hn

theorem first_isText : d.first.isText = false := Phrase.isText_eq_false_iff.2 ⟨d.call, rfl⟩

theorem first_finds : Region.body.Finds d.first .body d.rest :=
  Region.finds_call_iff.2 ⟨rfl, rfl, d.lead, d.arguments, rfl, d.lead_isBlank, d.unbroken, d.ends⟩

/-- The tokens of a division fall into its phrases. -/
theorem ofTokens_tokens : Phrase.ofTokens d.tokens = .ok d.phrases := by
  refine Phrase.ofTokensIn_eq_ok_iff.2 ⟨d.before ++ d.first :: d.after, .body, d.blanks, ?_,
    d.blanks_isBlank, ?_, ?_⟩
  · refine Phrased.append_iff.2 ⟨.body, ?_, .cons d.first_finds d.after_phrased⟩
    have hb := d.before_phrased
    rw [List.append_assoc] at hb
    simpa [first] using hb
  · simp [tokens, rest]
  · simp [phrases]

theorem isBreak_head?_rest : ∀ t ∈ d.rest.head?, t.isBreak = true :=
  fun t ht => (d.ends t ht).1

theorem isBreak_head?_footer (h : Lexed d.tokens []) : ∀ t ∈ d.footer.head?, t.isBreak = true := by
  have hr : Lexed d.rest [] := (lexed_append.1 h).2
  exact d.after_phrased.isBreak_head?_filter hr.isChain_comment d.isBreak_head?_rest _

theorem indent_first : d.first.indent = sourceText d.indent := by
  have hl : d.first.tokens.takeWhile Token.isBlank = d.lead := by
    rw [first, List.takeWhile_append_of_pos d.lead_isBlank,
      List.takeWhile_cons_of_neg (by simp [Call.callee, Token.isBlank]), List.append_nil]
  rw [Phrase.indent, hl]
  rfl

theorem phrasesText_filter_after :
    phrasesText ((d.after ++ trailing d.blanks).filter Phrase.isText) = sourceText d.footer := by
  rw [List.filter_append, List.filter_eq_self.2 (isText_trailing d.blanks),
    phrasesText_append_trailing]
  rfl

/-- The parts of the recipe that a division makes. -/
theorem ofDeclarations_phrases (declarations : List Declaration) :
    Recipe.ofDeclarations d.phrases declarations =
      { header := phrasesText d.before
        indent := sourceText d.indent
        versions := declarations.filterMap Declaration.version?
        dependencies := declarations.filterMap Declaration.dependency?
        footer := sourceText d.footer } := by
  have hn : ¬ d.first.isText = true := by simp [d.first_isText]
  have before : d.phrases.takeWhile Phrase.isText = d.before := by
    rw [phrases, List.takeWhile_append_of_pos d.before_isText, List.takeWhile_cons_of_neg hn,
      List.append_nil]
  have after : d.phrases.dropWhile Phrase.isText = d.first :: (d.after ++ trailing d.blanks) := by
    rw [phrases, List.dropWhile_append_of_pos d.before_isText, List.dropWhile_cons_of_neg hn]
  rw [Recipe.ofDeclarations, before, after, List.filter_cons_of_neg hn, d.phrasesText_filter_after,
    List.head?_cons, Option.map_some, Option.getD_some, d.indent_first]

theorem callStatements_phrases :
    callStatements d.phrases = (d.call, d.first.tokens) :: callStatements d.after := by
  rw [phrases, callStatements_append, callStatements_of_isText d.before_isText, List.nil_append,
    callStatements_cons rfl, callStatements_append, callStatements_of_isText (isText_trailing _),
    List.append_nil]

end Division
end PackageRecipe
