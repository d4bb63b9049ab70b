import Mathlib.Data.List.Forall2
import PackageRecipe.Proofs.Declaration.Enclosure

/-!
Where a recipe has the tokens of its source. Those of a text phrase are in the header or the footer,
those of a call up to its closing parenthesis make a declaration. A call statement may go on behind
the parenthesis, up to the end of its logical line; that part is in no text and makes no
declaration, so it is what a recipe loses.
-/
namespace PackageRecipe

open Call

/-- A call among the phrases of a recipe is a statement of the body. -/
theorem exists_finds_of_mem_callStatements {tokens : List Token} {phrases : List Phrase}
    {c : Call × List Token} (hp : Phrase.ofTokens tokens = .ok phrases)
    (hc : c ∈ callStatements phrases) :
    ∃ (region next : Region) (rest : List Token), region.Finds ⟨c.1.kind, c.2⟩ next rest := by
  obtain ⟨p, hm, he⟩ := List.mem_filterMap.1 hc
  obtain ⟨call, hcall, rfl⟩ := Option.map_eq_some_iff.1 he
  have hk : p.kind = call.kind := Phrase.call?_eq_some_iff.1 hcall
  obtain ⟨before, after, rfl⟩ := List.append_of_mem hm
  obtain ⟨region, next, -, hf⟩ | ⟨hr, -⟩ := Phrase.exists_finds_of_ofTokensIn hp
  · refine ⟨region, next, after.flatMap Phrase.tokens, ?_⟩
    rw [← hk]
    exact hf
  · rw [hk] at hr
    cases call with
    | version => cases hr
    | dependsOn => cases hr

/-- The tokens that stand in a recipe: those of text phrases, and those of calls through the
parenthesis that closes each. -/
def heldTokens (phrases : List Phrase) (layouts : List CallLayout) : List Token :=
  (phrases.filter Phrase.isText).flatMap Phrase.tokens ++ layouts.flatMap CallLayout.enclosed

section Held

variable {phrases : List Phrase} {layouts : List CallLayout}

/-- Each occurrence of a token in the phrases is held or stands behind a call. -/
theorem count_heldTokens (h : callStatements phrases = layouts.map fun l => (l.call, l.tokens))
    (t : Token) : (phrases.flatMap Phrase.tokens).count t =
      (heldTokens phrases layouts).count t + (layouts.flatMap CallLayout.tail).count t := by
  induction phrases generalizing layouts with
  | nil =>
    obtain rfl : layouts = [] := List.map_eq_nil_iff.1 h.symm
    rfl
  | cons p ps ih =>
    cases hp : p.isText with
    | true =>
      rw [callStatements, List.filterMap_cons, Option.isNone_iff_eq_none.1 hp] at h
      have hps := ih h
      simp only [heldTokens, List.filter_cons_of_pos hp, List.flatMap_cons,
        List.count_append] at hps ⊢
      omega
    | false =>
      obtain ⟨call, hk⟩ := Phrase.isText_eq_false_iff.1 hp
      rw [callStatements_cons hk] at h
      obtain ⟨l, ls, rfl, hl, hls⟩ := List.map_eq_cons_iff.1 h.symm
      have htokens : l.enclosed ++ l.tail = p.tokens := (Prod.mk.inj hl).2
      have hps := ih hls.symm
      simp only [heldTokens, List.filter_cons_of_neg (by simp [hp] : ¬ p.isText = true),
        List.flatMap_cons, List.count_append, ← htokens] at hps ⊢
      omega

/-- All but filler is held exactly if there is nothing but filler behind the calls. -/
theorem perm_heldTokens_iff (h : callStatements phrases = layouts.map fun l => (l.call, l.tokens)) :
    (significant (phrases.flatMap Phrase.tokens)).Perm (significant (heldTokens phrases layouts)) ↔
      ∀ l ∈ layouts, ∀ t ∈ l.tail, t.isFiller = true := by
  have hall : (phrases.flatMap Phrase.tokens).Perm
      (heldTokens phrases layouts ++ layouts.flatMap CallLayout.tail) := by
    apply List.perm_iff_count.2
    intro t
    rw [List.count_append]
    exact count_heldTokens h t
  have hsignificant := hall.filter fun t => !t.isFiller
  change (significant _).Perm (significant (_ ++ _)) at hsignificant
  rw [significant_append] at hsignificant
  constructor
  · intro hheld l hl t ht
    have hlength := (hheld.symm.trans hsignificant).length_eq
    rw [List.length_append] at hlength
    have hnone : significant (layouts.flatMap CallLayout.tail) = [] := by
      apply List.eq_nil_of_length_eq_zero
      omega
    exact isFiller_of_significant_eq_nil hnone t (List.mem_flatMap.2 ⟨l, hl, ht⟩)
  · intro hfiller
    have hnone : significant (layouts.flatMap CallLayout.tail) = [] := by
      apply significant_of_isFiller
      intro t ht
      obtain ⟨l, hl, ht⟩ := List.mem_flatMap.1 ht
      exact hfiller l hl t ht
    rwa [hnone, List.append_nil] at hsignificant

end Held

/-- Where a recipe has what its source says: the text before the first call, the text from there on,
and the calls. -/
structure Recipe.AccountsFor (r : Recipe) (before after : List Phrase) (layouts : List CallLayout)
    (declarations : List Declaration) : Prop where
  before_isText : ∀ p ∈ before, p.isText = true
  /-- What comes after the text before the first call is that call. -/
  after_isCall : ∀ p ∈ after.head?, p.isText = false
  header : r.header = phrasesText before
  footer : r.footer = phrasesText (after.filter Phrase.isText)
  versions : r.versions = declarations.filterMap Declaration.version?
  dependencies : r.dependencies = declarations.filterMap Declaration.dependency?
  /-- Each call is laid out around its two parentheses. -/
  calls : callStatements after = layouts.map fun l => (l.call, l.tokens)
  /-- Each call makes its declaration by what its parentheses enclose. -/
  declares : List.Forall₂ CallLayout.Declares layouts declarations

/-- Calls that make declarations are laid out around their parentheses. -/
theorem exists_layouts {tokens : List Token} {phrases : List Phrase}
    {declarations : List Declaration} (hp : Phrase.ofTokens tokens = .ok phrases)
    (hd : List.Forall₂ Call.Reads (callStatements phrases) declarations) :
    ∃ layouts : List CallLayout,
      (callStatements phrases = layouts.map fun l => (l.call, l.tokens)) ∧
        List.Forall₂ CallLayout.Declares layouts declarations := by
  have hfound := (List.forall₂_and_left _ _).2
    ⟨fun c hc => exists_finds_of_mem_callStatements hp hc, hd⟩
  clear hd
  generalize callStatements phrases = calls at hfound
  induction hfound with
  | nil => exact ⟨[], rfl, .nil⟩
  | cons hc _ ih =>
    obtain ⟨⟨region, next, rest, hf⟩, hr⟩ := hc
    obtain ⟨l, hcall, htokens, hl⟩ := exists_callLayout hf hr
    obtain ⟨layouts, rfl, hls⟩ := ih
    exact ⟨l :: layouts, by rw [List.map_cons, hcall, htokens], .cons hl hls⟩

/-- Every token of a source is in a phrase. The text phrases are kept whole, in the header up to the
first call and in the footer from there on. Each call statement records a declaration, which the
tokens through the closing parenthesis make; those behind it, on the same logical line, change
nothing. So a source loses no more than filler exactly if it has no more than filler behind its
calls. -/
theorem ofSource_accounted {source : String} {r : Recipe} (h : Recipe.ofSource source = .ok r) :
    ∃ tokens before after layouts declarations, Token.ofSource source = .ok tokens ∧
      Phrase.ofTokens tokens = .ok (before ++ after) ∧
      (before ++ after).flatMap Phrase.tokens = tokens ∧
      r.AccountsFor before after layouts declarations ∧
      ((significant tokens).Perm (significant (heldTokens (before ++ after) layouts)) ↔
        ∀ l ∈ layouts, ∀ t ∈ l.tail, t.isFiller = true) := by
  obtain ⟨tokens, phrases, declarations, ht, hp, hd, rfl⟩ := Recipe.ofSource_eq_ok_iff.1 h
  obtain ⟨layouts, hcalls, hdeclares⟩ := exists_layouts hp hd
  have hsplit : phrases.takeWhile Phrase.isText ++ phrases.dropWhile Phrase.isText = phrases :=
    List.takeWhile_append_dropWhile
  have hbefore : ∀ p ∈ phrases.takeWhile Phrase.isText, p.isText = true :=
    fun p hm => List.mem_takeWhile_imp hm
  have hafter : callStatements (phrases.dropWhile Phrase.isText) = callStatements phrases := by
    conv_rhs => rw [← hsplit]
    rw [callStatements_append, callStatements_of_isText hbefore, List.nil_append]
  have hfirst : ∀ p ∈ (phrases.dropWhile Phrase.isText).head?, p.isText = false := by
    intro p hm
    have hn := List.head?_dropWhile_not Phrase.isText phrases
    rw [Option.mem_def.1 hm] at hn
    simpa using hn
  have htokens : phrases.flatMap Phrase.tokens = tokens := Phrase.flatMap_tokens_of_ofTokensIn hp
  refine ⟨tokens, phrases.takeWhile Phrase.isText, phrases.dropWhile Phrase.isText, layouts,
    declarations, ht, ?_, ?_, ?_, ?_⟩
  · rwa [hsplit]
  · rwa [hsplit]
  · exact ⟨hbefore, hfirst, rfl, rfl, rfl, rfl, hafter.trans hcalls, hdeclares⟩
  · rw [hsplit, ← htokens]
    exact perm_heldTokens_iff hcalls

/-- Brackets of every shape, a comment and a line break in a call, and statements and a comment
behind calls. -/
theorem ofSource_accounted_tails :
    let source := "class A:\n  version('1', z=[(2,), \x7b\x7d]  # ]\n  ,); x = 1\n  y = 2\n" ++
      "  depends_on('b'); f(\n) # c\n"
    let r : Recipe := ⟨"class A:", "  ", [⟨⟨.string, "'1'"⟩, none, none, none⟩],
      [⟨⟨.string, "'b'"⟩, [], none⟩], "\n  y = 2\n"⟩
    ∃ tokens before after layouts declarations, Token.ofSource source = .ok tokens ∧
      Phrase.ofTokens tokens = .ok (before ++ after) ∧
      (before ++ after).flatMap Phrase.tokens = tokens ∧
      r.AccountsFor before after layouts declarations ∧
      ((significant tokens).Perm (significant (heldTokens (before ++ after) layouts)) ↔
        ∀ l ∈ layouts, ∀ t ∈ l.tail, t.isFiller = true) :=
  ofSource_accounted (by cbv)

/-- A statement behind a call on the same line is lost. It is in neither the header nor the footer,
the call makes its declaration without it, and no layout of a call has it between the
parentheses. -/
theorem ofSource_loses_statement :
    let source := "class A:\n  version('1'); x = 1\n"
    let v : Version := ⟨⟨.string, "'1'"⟩, none, none, none⟩
    let r : Recipe := ⟨"class A:", "  ", [v], [], "\n"⟩
    let lost : Token := ⟨.identifier, "x"⟩
    Recipe.ofSource source = .ok r ∧ lost.isFiller = false ∧
      'x' ∉ (r.header ++ r.footer).toList ∧
      ∃ tokens phrases, Token.ofSource source = .ok tokens ∧
        Phrase.ofTokens tokens = .ok phrases ∧
        (∃ l : CallLayout, ⟨l.call.kind, l.tokens⟩ ∈ phrases ∧ l.Declares (.version v)) ∧
        ∀ l : CallLayout, ⟨l.call.kind, l.tokens⟩ ∈ phrases → lost ∈ l.tail := by
  intro source v r lost
  let header : List Token := [⟨.keyword, "class"⟩, ⟨.whitespace, " "⟩, ⟨.identifier, "A"⟩,
    ⟨.delimiter, ":"⟩]
  let lead : List Token := [⟨.newline, "\n"⟩, ⟨.whitespace, "  "⟩]
  let tail : List Token := [⟨.delimiter, ";"⟩, ⟨.whitespace, " "⟩, lost, ⟨.whitespace, " "⟩,
    assignment, ⟨.whitespace, " "⟩, ⟨.number, "1"⟩]
  let l : CallLayout := .ofNested lead .version [] [v.name] tail (by decide) nofun
    (nested_of_isString rfl) (unbroken_of_not_isBreak (by decide))
  let phrases : List Phrase :=
    [⟨.classHeader, header⟩, ⟨.version, l.tokens⟩, ⟨.remark, [⟨.newline, "\n"⟩]⟩]
  have htokens : Token.ofSource source = .ok (phrases.flatMap Phrase.tokens) := by cbv
  have hphrases : Phrase.ofTokens (phrases.flatMap Phrase.tokens) = .ok phrases := by cbv
  have hes : EntriesForm ([] : List (Entry .version)) [] := .nil
  have hl : l.Declares (.version v) := l.declares_of_form rfl rfl hes .absent
  have hr : Recipe.ofSource source = .ok r :=
    Recipe.ofSource_eq_ok_iff.2 ⟨_, phrases, [.version v], htokens, hphrases,
      .cons (hl l.tail) .nil, by decide⟩
  refine ⟨hr, rfl, by simp [r], _, phrases, htokens, hphrases, ⟨l, ?_, hl⟩, ?_⟩
  · exact List.mem_cons_of_mem _ List.mem_cons_self
  · intro m hm
    have hkind : m.call.kind ≠ .classHeader ∧ m.call.kind ≠ .remark := by
      cases m.call with
      | version | dependsOn => decide
    have hsame : m.tokens = l.tokens := by
      simp only [phrases, List.mem_cons, Phrase.mk.injEq, hkind, false_and, false_or, or_false,
        List.not_mem_nil] at hm
      exact hm.2
    obtain rfl := CallLayout.eq_of_tokens hsame
    show lost ∈ tail
    decide

end PackageRecipe
