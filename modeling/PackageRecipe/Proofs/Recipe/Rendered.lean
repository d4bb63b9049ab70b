import PackageRecipe.Proofs.Declaration.Plain
import PackageRecipe.Proofs.Recipe.Template

/-!
Plain declarations written as a recipe, each on a line of its own. The text is read as a recipe that
declares what it was written from, and if a dependency has more types than a list may name, this is
what is wrong with the text.
-/
namespace PackageRecipe

open Call Lexeme

/-- The text of a recipe with these declarations, which are indented by `ws`. -/
def recipeText (ws : String) (ms : List PlainDeclaration) (method : Bool) : String :=
  recipeStart ws ++ "\n" ++ String.join (ms.map fun m => "\n" ++ ws ++ m.text) ++
    recipeEnd ws method

/-- The statement is the call that a declaration is written as, behind tokens that no call begins
with. -/
def PlainDeclaration.WrittenAs (m : PlainDeclaration) (statement : Call × List Token) : Prop :=
  ∃ lead, (∀ t ∈ lead, t.isFiller = true) ∧
    statement = (m.toDeclaration.call, lead ++ m.toDeclaration.tokens)

namespace PlainDeclaration

variable {m : PlainDeclaration} {statement : Call × List Token}

theorem WrittenAs.reads (h : m.WrittenAs statement) (hv : m.Valid)
    (hl : m.types.length ≤ typeLimit) : Call.Reads statement m.toDeclaration := by
  obtain ⟨lead, hlead, rfl⟩ := h
  exact (hv.wellFormed hl).reads hlead

theorem WrittenAs.result_of_length_lt (h : m.WrittenAs statement) (hv : m.Valid)
    (hl : typeLimit < m.types.length) :
    (DeclarationReading.ofTokens statement.1 statement.2).result =
      .error ⟨.dependsOn, .tooManyTypes⟩ := by
  obtain ⟨lead, hlead, rfl⟩ := h
  exact hv.result_of_length_lt hl hlead

theorem filterMap_version?_toDeclaration (ms : List PlainDeclaration) :
    (ms.map toDeclaration).filterMap Declaration.version? =
      (ms.filterMap version?).map PlainVersion.toVersion := by
  rw [List.filterMap_map, List.map_filterMap]
  congr 1
  funext m
  cases m <;> rfl

theorem filterMap_dependency?_toDeclaration (ms : List PlainDeclaration) :
    (ms.map toDeclaration).filterMap Declaration.dependency? =
      (ms.filterMap dependency?).map PlainDependency.toDependency := by
  rw [List.filterMap_map, List.map_filterMap]
  congr 1
  funext m
  cases m <;> rfl

variable {ms : List PlainDeclaration} (hv : ∀ m ∈ ms, m.Valid)
include hv

theorem valid_of_mem_versions : ∀ v ∈ ms.filterMap version?, v.Valid := by
  intro v h
  obtain ⟨m, hm, he⟩ := List.mem_filterMap.1 h
  cases m with
  | dependency d => cases he
  | version w =>
    obtain rfl := Option.some.inj he
    exact hv _ hm

theorem valid_of_mem_dependencies : ∀ d ∈ ms.filterMap dependency?, d.Valid := by
  intro d h
  obtain ⟨m, hm, he⟩ := List.mem_filterMap.1 h
  cases m with
  | version v => cases he
  | dependency w =>
    obtain rfl := Option.some.inj he
    exact hv _ hm

/-- What statements are written as they declare, in their order. -/
theorem declares_of_writtenAs (hl : ∀ m ∈ ms, m.types.length ≤ typeLimit)
    {statements : List (Call × List Token)} (h : List.Forall₂ WrittenAs ms statements) :
    ∃ ds, List.Forall₂ Call.Reads statements ds ∧
      List.Forall₂ Version.Declares (ds.filterMap Declaration.version?) (ms.filterMap version?) ∧
      List.Forall₂ Dependency.Declares (ds.filterMap Declaration.dependency?)
        (ms.filterMap dependency?) := by
  refine ⟨ms.map toDeclaration, ?_, ?_, ?_⟩
  · have hall := (List.forall₂_and_left _ _).2 ⟨fun m hm => And.intro (hv m hm) (hl m hm), h⟩
    refine List.Forall₂.flip (List.forall₂_map_left_iff.2 (hall.imp ?_))
    rintro m statement ⟨⟨hm, hlength⟩, hw⟩
    exact hw.reads hm hlength
  · rw [filterMap_version?_toDeclaration, List.forall₂_map_left_iff]
    exact List.forall₂_same.2 fun v h => (valid_of_mem_versions hv v h).declares
  · rw [filterMap_dependency?_toDeclaration, List.forall₂_map_left_iff]
    exact List.forall₂_same.2 fun d h => (valid_of_mem_dependencies hv d h).declares

/-- Statements have no other fault than too many types. -/
theorem ofCalls_result_of_writtenAs (hl : ∃ m ∈ ms, typeLimit < m.types.length)
    {statements : List (Call × List Token)} (h : List.Forall₂ WrittenAs ms statements) :
    (DeclarationsReading.ofCalls statements).result = .error ⟨.dependsOn, .tooManyTypes⟩ := by
  obtain ⟨hlength, hw⟩ := List.forall₂_iff_get.1 h
  apply DeclarationsReading.ofCalls_result_of_error
  · intro statement hm
    obtain ⟨i, hi, rfl⟩ := List.getElem_of_mem hm
    have hi' : i < ms.length := hlength ▸ hi
    have hvalid : ms[i].Valid := hv _ (List.getElem_mem hi')
    obtain hlt | hle := Nat.lt_or_ge typeLimit ms[i].types.length
    · exact .inr ((hw i hi' hi).result_of_length_lt hvalid hlt)
    · exact .inl ⟨_, (hw i hi' hi).reads hvalid hle⟩
  · obtain ⟨m, hm, hlt⟩ := hl
    obtain ⟨i, hi, rfl⟩ := List.getElem_of_mem hm
    have hi' : i < statements.length := hlength ▸ hi
    exact ⟨statements[i], List.getElem_mem hi', (hw i hi hi').result_of_length_lt (hv _ hm) hlt⟩

end PlainDeclaration

section Declarations

variable {ws : String} (hws : ∀ c ∈ ws.toList, isSpace c = true)
include hws

/-- A rendered recipe is divided by the first of the declarations that are written in it. -/
theorem exists_recipeDivision {ms : List PlainDeclaration} (hn : ms ≠ [])
    (hv : ∀ m ∈ ms, m.Valid) (method : Bool) :
    ∃ d : Division, Token.ofSource (recipeText ws ms method) = .ok d.tokens ∧
      List.Forall₂ PlainDeclaration.WrittenAs ms (callStatements d.phrases) ∧
      phrasesText d.before = recipeStart ws ∧ sourceText d.indent = ws ∧
      sourceText d.footer = recipeEnd ws method := by
  obtain ⟨m, ms, rfl⟩ := List.exists_cons_of_ne_nil hn
  let f := recipeFrame hws method
  have hx : ∀ y ∈ m.toDeclaration :: ms.map PlainDeclaration.toDeclaration, y.Spelled := by
    rw [← List.map_cons]
    exact List.forall_mem_map.2 fun y hy => (hv y hy).spelled
  refine ⟨f.division _ _ hx, Token.ofSource_eq_ok_iff.2 ⟨?_, ?_⟩, ?_, sourceText_startPhrases ws,
    ?_, ?_⟩
  · have lines : "\n\n" = "\n" ++ "\n" := by simp
    have hlead : sourceText f.lead = "\n\n" ++ ws := sourceText_lineMargin _ ws
    have hmargin : sourceText f.margin = "\n" ++ ws := sourceText_lineMargin _ ws
    have hbefore : sourceText (f.before.flatMap Phrase.tokens) = recipeStart ws :=
      sourceText_startPhrases ws
    have hfooter : sourceText f.footer = recipeEnd ws method := sourceText_endPhrases ws method
    rw [f.tokens_division hx, sourceText_append, sourceText_append, f.sourceText_filling, hbefore,
      hfooter, hlead, hmargin, List.map_map, m.text_toDeclaration, recipeText, List.map_cons,
      String.join_cons, lines]
    simp only [Function.comp_def, PlainDeclaration.text_toDeclaration, String.append_assoc]
  · have hhead : ∀ cs, ((sourceText f.lead).toList ++ cs).head? = some '\n' := by
      intro cs
      rw [← List.append_nil f.lead]
      exact head?_lineMargin_append rfl [] cs
    exact f.lexed_division hx (fun cs => lexed_startPhrases hws (hhead cs))
      (lexed_endPhrases hws method)
  · rw [f.callStatements_division hx, List.map_map]
    refine .cons ⟨f.lead, f.isMargin_lead.isFiller, rfl⟩ (List.forall₂_map_right_iff.2
      (List.forall₂_same.2 fun m _ => ⟨f.margin, f.isMargin_margin.isFiller, rfl⟩))
  · show sourceText (f.lead.rtakeWhile _) = ws
    have hindent : f.lead.rtakeWhile (fun t => !t.isBreak) = indentation ws :=
      rtakeWhile_margin rfl (kind_indentation ws)
    rw [hindent, sourceText_indentation]
  · rw [f.footer_division hx]
    exact sourceText_endPhrases ws method

end Declarations

/-- Plain declarations are read as they were written, on lines of their own behind whatever
indentation, as long as no dependency has more types than a list may name. If one has more, this is
what is wrong with the text, wherever it stands. -/
theorem ofSource_rendered {ws : String} (hws : ∀ c ∈ ws.toList, isSpace c = true)
    {ms : List PlainDeclaration} (hn : ms ≠ []) (hv : ∀ m ∈ ms, m.Valid) (method : Bool) :
    ((∀ m ∈ ms, m.types.length ≤ 3) →
      ∃ r, Recipe.ofSource (recipeText ws ms method) = .ok r ∧
        r.indent = ws ∧ r.header = recipeStart ws ∧ r.footer = recipeEnd ws method ∧
        List.Forall₂ Version.Declares r.versions (ms.filterMap PlainDeclaration.version?) ∧
        List.Forall₂ Dependency.Declares r.dependencies
          (ms.filterMap PlainDeclaration.dependency?)) ∧
      ((∃ m ∈ ms, 4 ≤ m.types.length) →
        Recipe.ofSource (recipeText ws ms method) =
          .error (.call ⟨.dependsOn, .tooManyTypes⟩)) := by
  obtain ⟨d, ht, hw, hheader, hindent, hfooter⟩ := exists_recipeDivision hws hn hv method
  constructor
  · intro hl
    obtain ⟨ds, hr, hversions, hdependencies⟩ := PlainDeclaration.declares_of_writtenAs hv hl hw
    have hrecipe := d.ofDeclarations_phrases ds
    refine ⟨_, Recipe.ofSource_eq_ok_iff.2 ⟨_, _, ds, ht, d.ofTokens_tokens, hr, rfl⟩, ?_⟩
    rw [hrecipe]
    exact ⟨hindent, hheader, hfooter, hversions, hdependencies⟩
  · intro hl
    have he := PlainDeclaration.ofCalls_result_of_writtenAs hv hl hw
    rw [Recipe.ofSource_of_ofTokens ht d.ofTokens_tokens, Recipe.ofPhrases_eq_error_iff.2 he]
    rfl

/-- Brackets, a comment sign and the other mark in the strings, behind a tabulator; and a dependency
with four types. -/
theorem ofSource_rendered_mixed :
    let v : PlainVersion := ⟨"1(#", some ("sha256", "it's"), some ("url", ""), some false⟩
    let d : PlainDependency := ⟨"cmake", some "3:", ["build", "link"], some "+mpi"⟩
    let four : PlainDependency := ⟨"b", none, ["build", "link", "run", "test"], none⟩
    (∃ r, Recipe.ofSource (recipeText " \t" [.version v, .dependency d] true) = .ok r ∧
      r.indent = " \t" ∧ r.header = recipeStart " \t" ∧ r.footer = recipeEnd " \t" true ∧
      List.Forall₂ Version.Declares r.versions [v] ∧
      List.Forall₂ Dependency.Declares r.dependencies [d]) ∧
    Recipe.ofSource (recipeText " \t" [.dependency four, .version v] false) =
      .error (.call ⟨.dependsOn, .tooManyTypes⟩) := by
  intro v d four
  have hws : ∀ c ∈ " \t".toList, isSpace c = true := by simp [isSpace]
  have hv : v.Valid := by
    constructor
    · simp [v, IsPlain]
    · simp [v, IsPlain, pinKeys]
    · simp [v, IsPlain, sourceKeys]
  have hd : d.Valid := by
    constructor
    · simp [d, IsPlain]
    · simp [d, IsPlain]
    · simp [d, IsPlain]
    · simp [d, IsPlain]
  have hfour : four.Valid := by
    constructor
    · simp [four, IsPlain]
    · simp [four]
    · simp [four, IsPlain]
    · simp [four]
  have hread : ∀ m ∈ [PlainDeclaration.version v, .dependency d], m.Valid := by
    simp [PlainDeclaration.Valid, hv, hd]
  have hfail : ∀ m ∈ [PlainDeclaration.dependency four, .version v], m.Valid := by
    simp [PlainDeclaration.Valid, hv, hfour]
  constructor
  · exact (ofSource_rendered hws (List.cons_ne_nil _ _) hread true).1 (by decide)
  · exact (ofSource_rendered hws (List.cons_ne_nil _ _) hfail false).2 (by decide)

end PackageRecipe
