import PackageRecipe.Proofs.Declaration.Written

/-!
A declaration and the call that it is written as. The tokens of the call join to the declaration's
text. If its parts may stand in a list, they are what the text is read as, whatever follows it, and
the call is a statement; if the declaration is well formed, that statement declares the same again,
and if a dependency has too many types, that is the fault of the statement.
-/
namespace PackageRecipe

open Call Lexeme

namespace Declaration

variable {d : Declaration}

theorem WellFormed.written (h : d.WellFormed Token.IsLiteral) : ∀ k ∈ d.keywords, k.Written := by
  cases d with
  | version v => exact Version.WellFormed.written h
  | dependency d => exact Dependency.WellFormed.written h

theorem WellFormed.first (h : d.WellFormed Token.IsLiteral) : d.first.IsLiteral := by
  cases d with
  | version v => exact Version.WellFormed.name h
  | dependency d => exact Dependency.WellFormed.spec h

/-- The parts of the declaration may stand in a list, also where the call does not read as it. -/
structure Spelled (d : Declaration) : Prop where
  first : d.first.IsLiteral
  items : ∀ ts ∈ d.keywords.map Keyword.tokens, Item ts

theorem WellFormed.spelled (h : d.WellFormed Token.IsLiteral) : d.Spelled := by
  refine ⟨h.first, fun ts ht => ?_⟩
  obtain ⟨k, hk, rfl⟩ := List.mem_map.1 ht
  exact (h.written k hk).item

/-- The settings of a declaration's keywords make the declaration. -/
theorem ofSettings_keywords (d : Declaration) :
    Declaration.ofSettings d.first d.call (d.keywords.map Keyword.setting) = d := by
  cases d with
  | version v =>
    obtain ⟨name, pin, source, preferred⟩ := v
    cases pin <;> cases source <;> cases preferred <;> rfl
  | dependency d =>
    obtain ⟨spec, types, condition⟩ := d
    cases types <;> cases condition <;> rfl

/-- The string that a written call begins with is found behind any blanks. -/
theorem Spelled.opening (h : d.Spelled) {lead : List Token}
    (hl : ∀ t ∈ lead, t.isFiller = true) :
    Call.opening (lead ++ d.tokens) = .ok (d.first,
      (d.keywords.flatMap fun k => comma :: significant k.tokens) ++ [closeParenthesis]) := by
  have hf : d.first.isFiller = false := by
    simp [Token.isFiller, Token.isBlank, Token.isComment, h.first.1]
  have hs : (lead ++ d.tokens).filter (fun t => !t.isFiller) =
      d.call.callee :: openParenthesis :: d.first ::
        ((d.keywords.flatMap fun k => comma :: significant k.tokens) ++ [closeParenthesis]) := by
    have he : lead.filter (fun t => !t.isFiller) = [] := by simpa using hl
    have ht := significant_listed (d.keywords.map Keyword.tokens)
    rw [List.flatMap_map] at ht
    rw [List.filter_append, he, List.nil_append, tokens, List.filter_cons_of_pos (by rfl),
      List.filter_cons_of_pos (by rfl), List.filter_cons_of_pos (by simp [hf])]
    exact congrArg (fun ts => d.call.callee :: openParenthesis :: d.first :: ts) ht
  rw [Call.opening, hs, List.tail_cons, take_cons (by decide), ok_bind]
  exact takeString_cons h.first.isString _

/-- A well-formed declaration is declared by the call that it is written as, whatever blanks stand
before that. -/
theorem WellFormed.reads (h : d.WellFormed Token.IsLiteral) {lead : List Token}
    (hl : ∀ t ∈ lead, t.isFiller = true) : Call.Reads (d.call, lead ++ d.tokens) d := by
  have ha := Arguments.read_append (entriesForm_of_written h.written) .absent []
  rw [List.nil_append] at ha
  rw [Call.Reads, DeclarationReading.ofTokens, h.spelled.opening hl]
  dsimp only
  rw [ha]
  show Except.ok (Declaration.ofSettings d.first d.call (Arguments.settings _)) = _
  have hset : (d.keywords.map fun k => Entry.setting k.setting).filterMap Entry.setting? =
      d.keywords.map Keyword.setting := by
    rw [List.filterMap_map]
    exact congrFun List.filterMap_eq_map' d.keywords
  rw [Arguments.settings, hset, ofSettings_keywords]

/-- A dependency need not be well formed for its parts to stand in a list: it may have any number of
types. -/
theorem spelled_dependency {d : Dependency} (hs : d.spec.IsLiteral)
    (ht : ∀ t ∈ d.types, t.IsLiteral) (hc : ∀ t ∈ d.condition, t.IsLiteral) :
    (dependency d).Spelled :=
  ⟨hs, List.forall_mem_map.2 fun _ hk => d.item_of_mem_keywords ht hc hk⟩

/-- A dependency with too many types is written as a call that has this fault. -/
theorem result_of_length_lt {d : Dependency} (hd : (dependency d).Spelled)
    (ht : ∀ t ∈ d.types, t.IsLiteral) (hl : typeLimit < d.types.length) {lead : List Token}
    (hlead : ∀ t ∈ lead, t.isFiller = true) :
    (DeclarationReading.ofTokens .dependsOn (lead ++ (dependency d).tokens)).result =
      .error ⟨.dependsOn, .tooManyTypes⟩ := by
  have ha : Arguments.read .dependsOn (((dependency d).keywords.flatMap fun k =>
      comma :: significant k.tokens) ++ [closeParenthesis]) = ⟨[], .error .tooManyTypes⟩ :=
    d.read_keywords_of_length_lt ht hl [closeParenthesis]
  rw [DeclarationReading.ofTokens, hd.opening hlead]
  dsimp only
  rw [ha]

/-- A written declaration begins with a letter. -/
theorem exists_toList_tokens (d : Declaration) : ∃ c cs, (sourceText d.tokens).toList = c :: cs ∧
    isSpace c = false ∧ isLineBreak c = false := by
  have hn : ∀ call : Call, ∃ c cs, call.name.toList = c :: cs ∧ isSpace c = false ∧
      isLineBreak c = false := by
    intro call
    cases call with
    | version => exact ⟨'v', ['e', 'r', 's', 'i', 'o', 'n'], rfl, by decide, by decide⟩
    | dependsOn =>
      exact ⟨'d', ['e', 'p', 'e', 'n', 'd', 's', '_', 'o', 'n'], rfl, by decide, by decide⟩
  obtain ⟨c, cs, hc, hs⟩ := hn d.call
  rw [tokens, sourceText_cons, String.toList_append]
  exact ⟨c, _, by rw [Call.callee, hc, List.cons_append], hs⟩

/-- A written declaration is read as its tokens, whatever stands after it. -/
theorem Spelled.lexed (h : d.Spelled) (rest : List Char) : Lexed d.tokens rest := by
  obtain ⟨c, cs, hh, hc⟩ := head_listed (d.keywords.map Keyword.tokens)
  refine ⟨?_, Token.endsBefore_of_mark (by decide) _, ?_, lexed_listed h.items rest⟩
  · have hw : d.call.callee.text ∈ writtenWords := by cases d.call <;> decide
    have hk : wordKind d.call.callee.text.toList = d.call.callee.kind := by cases d.call <;> decide
    rw [sourceText_cons, String.toList_append]
    exact endsBefore_of_written hw hk (by decide) _
  · rw [hh]
    exact (h.first.item.lexed c hc _).1

theorem Spelled.noBreak (h : d.Spelled) : ∀ t ∈ d.tokens, t.isBreak = false := by
  have hf : d.first.isBreak = false := by simp [Token.isBreak, h.first.1]
  exact List.forall_mem_cons.2 ⟨rfl, List.forall_mem_cons.2 ⟨rfl,
    List.forall_mem_cons.2 ⟨hf, noBreak_listed h.items⟩⟩⟩

theorem Spelled.openAfter_tokens (h : d.Spelled) : openAfter 0 d.tokens = 0 := by
  have hn := h.first.item.nested 1
  show openAfter (d.first.depthAfter 1) (listed _) = 0
  rw [show d.first.depthAfter 1 = 1 from hn]
  exact openAfter_listed h.items 0

/-- The phrase of a declaration that is written behind these blanks. -/
def phrase (lead : List Token) (d : Declaration) : Phrase := ⟨d.call.kind, lead ++ d.tokens⟩

/-- A written declaration is a statement of the body, before the end of the recipe and before every
line break. -/
theorem Spelled.finds (h : d.Spelled) {lead rest : List Token}
    (hl : ∀ t ∈ lead, t.isBlank = true) (hr : ∀ t ∈ rest.head?, t.isBreak = true) :
    Region.body.Finds (d.phrase lead) .body rest := by
  refine Region.finds_call_iff.2 ⟨rfl, rfl, lead, _, rfl, hl, unbroken_of_not_isBreak h.noBreak, ?_⟩
  exact fun t ht => ⟨hr t ht, h.openAfter_tokens⟩

end Declaration

theorem intercalate_cons (separator text : String) (texts : List String) :
    separator.intercalate (text :: texts) =
      text ++ String.join (texts.map fun t => separator ++ t) := by
  induction texts generalizing text with
  | nil => rw [String.intercalate_singleton, List.map_nil, String.join_nil, String.append_empty]
  | cons next texts ih =>
    rw [String.intercalate_cons_cons, ih, List.map_cons, String.join_cons]
    simp only [String.append_assoc]

theorem typesTexts_cons (t : Token) (ts : List Token) :
    typesTexts (t :: ts) = [("type", sourceText (writtenTypes t ts))] := by
  cases ts with
  | nil => simp [typesTexts, writtenTypes]
  | cons u us =>
    have hl : sourceText (writtenTypes t (u :: us)) = "(" ++ (t.text ++
        (String.join (((u :: us).map Token.text).map fun s => ", " ++ s) ++ ")")) := by
      rw [writtenTypes, List.cons_append, List.cons_append, List.nil_append, sourceText_cons,
        sourceText_cons, sourceText_listed, List.map_map, List.map_map]
      simp only [Function.comp_def, sourceText_cons, sourceText_nil, String.append_empty]
      rfl
    show [("type", "(" ++ ", ".intercalate (t.text :: (u :: us).map Token.text) ++ ")")] = _
    rw [hl, intercalate_cons, String.append_assoc, String.append_assoc]

theorem Version.keywordTexts_eq (v : Version) :
    v.keywordTexts = v.keywords.map fun k => (k.key.text, sourceText k.value) := by
  obtain ⟨name, pin, source, preferred⟩ := v
  cases pin <;> cases source <;> cases preferred <;>
    simp [Version.keywordTexts, Version.keywords]

theorem Dependency.keywordTexts_eq (d : Dependency) :
    d.keywordTexts = d.keywords.map fun k => (k.key.text, sourceText k.value) := by
  obtain ⟨spec, types, condition⟩ := d
  have hc : (condition.toList.map fun t => ("when", t.text)) =
      (condition.toList.map fun t => (⟨⟨.identifier, "when"⟩, [t], .condition t⟩ :
        Keyword .dependsOn)).map fun k => (k.key.text, sourceText k.value) := by
    rw [List.map_map]
    simp [Function.comp_def]
  cases types with
  | nil => exact hc
  | cons t ts =>
    rw [Dependency.keywordTexts, Dependency.keywords, List.map_append, typesTexts_cons, ← hc]
    rfl

/-- The tokens of a declaration join to its text. -/
theorem Declaration.sourceText_tokens (d : Declaration) : sourceText d.tokens = d.text := by
  have ht : d.text = callText d.call.name d.first.text
      (d.keywords.map fun k => (k.key.text, sourceText k.value)) := by
    cases d with
    | version v => exact congrArg (callText _ _) v.keywordTexts_eq
    | dependency d => exact congrArg (callText _ _) d.keywordTexts_eq
  have hk : ∀ {call : Call} (k : Keyword call),
      sourceText k.tokens = k.key.text ++ "=" ++ sourceText k.value := by
    intro call k
    rw [Keyword.tokens, sourceText_cons, sourceText_cons, String.append_assoc]
    rfl
  rw [ht, callText, tokens, sourceText_cons, sourceText_cons, sourceText_cons, sourceText_listed,
    List.map_map, List.map_map]
  simp only [Function.comp_def, hk, String.append_assoc]
  rfl

end PackageRecipe
