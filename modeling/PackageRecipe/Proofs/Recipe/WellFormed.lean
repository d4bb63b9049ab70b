import PackageRecipe.Proofs.Declaration.Requirement
import PackageRecipe.Proofs.Declaration.Sound
import PackageRecipe.Proofs.Token.Literal

/-!
What every recipe that has been read fulfils. Its declarations are well formed, where the literals
are the strings among the tokens of the source: reading finds no string whose contents cannot be
taken, and a call never declares a token that it has not been written with.
-/
namespace PackageRecipe

open Call

/-- A string among the tokens whose contents can be taken. -/
def Token.IsStringOf (tokens : List Token) (t : Token) : Prop :=
  t ∈ tokens ∧ t.kind = .string ∧ ∃ contents, t.contents = .ok contents

/-- The dependency states a requirement, unless its string has more than one `@`. -/
def Dependency.IsSplit (d : Dependency) : Prop :=
  ∃ contents, d.spec.contents = .ok contents ∧
    (2 ≤ contents.toList.count '@' ∧ d.requirement = .error ⟨.multipleVersions, d.spec.text⟩ ∨
      contents.toList.count '@' < 2 ∧ ∃ requirement, d.requirement = .ok requirement)

theorem Lexed.isStringOf {tokens : List Token} {rest : List Char} (h : Lexed tokens rest) :
    ∀ t ∈ tokens, isString t = true → t.IsStringOf tokens := by
  intro t ht hs
  have hk : t.kind = .string := of_decide_eq_true hs
  obtain ⟨after, he⟩ := h.exists_endsBefore t ht
  obtain ⟨quotation, cs, hq, hc⟩ := he.exists_literal hk
  exact ⟨ht, hk, _, Token.contents_literal hk hq hc⟩

/-- Whatever the calls of phrases declare is well formed, if the strings among the tokens of the
phrases are literals. -/
theorem wellFormed_of_callStatements {Literal : Token → Prop} {phrases : List Phrase}
    {declarations : List Declaration}
    (h : List.Forall₂ Call.Reads (callStatements phrases) declarations)
    (hl : ∀ t ∈ phrases.flatMap Phrase.tokens, isString t = true → Literal t) :
    ∀ d ∈ declarations, d.WellFormed Literal := by
  intro d hd
  obtain ⟨⟨call, tokens⟩, hc, hr⟩ := Call.Reads.exists_of_mem h hd
  refine DeclarationReading.wellFormed_of_ok hr fun t ht => hl t ?_
  obtain ⟨p, hp, he⟩ := List.mem_filterMap.1 hc
  obtain ⟨c, -, he⟩ := Option.map_eq_some_iff.1 he
  obtain rfl : p.tokens = tokens := (Prod.mk.inj he).2
  exact List.mem_flatMap.2 ⟨p, hp, ht⟩

/-- The declarations of a recipe are well formed over the strings of its source, and its
dependencies state requirements unless they give more than one constraint. -/
theorem ofSource_wellFormed {source : String} {r : Recipe} (h : Recipe.ofSource source = .ok r) :
    ∃ tokens, Token.ofSource source = .ok tokens ∧
      (∀ v ∈ r.versions, v.WellFormed (Token.IsStringOf tokens)) ∧
      ∀ d ∈ r.dependencies, d.WellFormed (Token.IsStringOf tokens) ∧ d.IsSplit := by
  obtain ⟨tokens, phrases, declarations, ht, hp, hd, rfl⟩ := Recipe.ofSource_eq_ok_iff.1 h
  have hl := (Token.ofSource_eq_ok_iff.1 ht).2.isStringOf
  have hw : ∀ d ∈ declarations, d.WellFormed (Token.IsStringOf tokens) := by
    refine wellFormed_of_callStatements hd ?_
    rwa [Phrase.flatMap_tokens_of_ofTokensIn hp]
  refine ⟨tokens, ht, fun v hv => ?_, fun d hm => ?_⟩
  · obtain ⟨declaration, hm, hv⟩ := List.mem_filterMap.1 hv
    cases declaration with
    | version v =>
      cases hv
      exact hw _ hm
    | dependency d => cases hv
  · obtain ⟨declaration, hm, hd⟩ := List.mem_filterMap.1 hm
    cases declaration with
    | version v => cases hd
    | dependency d =>
      cases hd
      have hd : d.WellFormed (Token.IsStringOf tokens) := hw _ hm
      obtain ⟨-, -, contents, hc⟩ := hd.spec
      exact ⟨hd, contents, hc, Dependency.requirement_of_contents hc⟩

/-- A key with an empty string, and a string with two constraints. -/
theorem ofSource_wellFormed_constraints :
    let source := "class A:\n version('1',md5='')\n depends_on(r'x@1@2')"
    let v : Version := ⟨⟨.string, "'1'"⟩, some ⟨⟨.identifier, "md5"⟩, ⟨.string, "''"⟩⟩, none, none⟩
    let d : Dependency := ⟨⟨.string, "r'x@1@2'"⟩, [], none⟩
    ∃ tokens, Token.ofSource source = .ok tokens ∧
      (∀ w ∈ [v], w.WellFormed (Token.IsStringOf tokens)) ∧
      ∀ e ∈ [d], e.WellFormed (Token.IsStringOf tokens) ∧ e.IsSplit := by
  intro source v d
  have h : Recipe.ofSource source = .ok ⟨"class A:", " ", [v], [d], ""⟩ := by cbv
  exact ofSource_wellFormed h

end PackageRecipe
