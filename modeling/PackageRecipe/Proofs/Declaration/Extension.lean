import PackageRecipe.Proofs.Call.Extension
import PackageRecipe.Proofs.Declaration.Sound
import PackageRecipe.Proofs.Recipe.Extraction

/-!
What more tokens at the end of a call statement can change. A call that is closed, or that has a
token where its grammar allows none, reads as before whatever stands behind it. A call whose fault
shows no token has only ended too early: some tokens behind it make it a declaration. A list of
types that is too long is neither, since its fault says nothing about the end.
-/
namespace PackageRecipe

open Call

namespace Call

variable {ts : List Token}

theorem filter_of_noFiller (h : NoFiller ts) : ts.filter (fun t => !t.isFiller) = ts :=
  List.filter_eq_self.2 fun t ht => by rw [h t ht]; rfl

/-- The parenthesis and the string after the name that is called. -/
theorem isStep_opening : IsStep fun ts => (do
    let (_, rest) ← take .openParenthesis (Token.isDelimiter "(") ts
    takeString rest) :=
  IsStep.bind (isStep_take (t := openParenthesis) rfl rfl) fun _ => isStep_takeString

theorem opening_append_of_settled (h : Settled (opening ts)) (more : List Token) :
    opening (ts ++ more) =
      (opening ts).map fun found => (found.1, found.2 ++ more.filter fun t => !t.isFiller) := by
  rw [opening] at h ⊢
  rw [opening, List.filter_append]
  cases hs : ts.filter fun t => !t.isFiller with
  | nil =>
    rw [hs] at h
    cases h
  | cons callee rest =>
    rw [hs] at h
    exact isStep_opening.append h _

theorem exists_opening_append (h : Ended (opening ts)) : ∃ more first, NoFiller more ∧
    ∀ rest, NoFiller rest → opening (ts ++ (more ++ rest)) = .ok (first, rest) := by
  rw [opening] at h
  cases hs : ts.filter fun t => !t.isFiller with
  | nil =>
    obtain ⟨more, first, hm, ho⟩ := isStep_opening.exists_ok
    have hc : NoFiller (⟨.identifier, ""⟩ :: more) := List.forall_mem_cons.2 ⟨rfl, hm⟩
    refine ⟨⟨.identifier, ""⟩ :: more, first, hc, fun rest hr => ?_⟩
    rw [opening, List.filter_append, hs, filter_of_noFiller (noFiller_append hc hr)]
    exact ho rest
  | cons callee rest =>
    rw [hs] at h
    obtain ⟨more, first, hm, ho⟩ := isStep_opening.complete h
    refine ⟨more, first, hm, fun rest hr => ?_⟩
    rw [opening, List.filter_append, hs, filter_of_noFiller (noFiller_append hm hr)]
    exact ho rest

end Call

namespace DeclarationReading

variable {call : Call} {tokens : List Token}

/-- A call that is settled reads as before. -/
theorem ofTokens_append_of_settled
    (h : Settled ((ofTokens call tokens).result.mapError CallError.fault)) (more : List Token) :
    ofTokens call (tokens ++ more) = ofTokens call tokens := by
  cases ho : opening tokens with
  | error fault =>
    rw [ofTokens_of_opening_error ho] at h ⊢
    have hs : Settled (opening tokens) := by
      rw [ho]
      exact h.of_error
    refine ofTokens_of_opening_error ?_
    rw [opening_append_of_settled hs, ho]
    rfl
  | ok found =>
    have hm := opening_append_of_settled (by rw [ho]; exact .ok _) more
    rw [ho] at hm
    rw [ofTokens_of_opening ho] at h ⊢
    have hr : Settled (Arguments.read call found.2).outcome := by
      cases hr : (Arguments.read call found.2).outcome with
      | error fault =>
        rw [hr] at h
        exact h.of_error
      | ok after => exact .ok _
    rw [ofTokens_of_opening hm, Arguments.read_append_of_settled hr]
    cases (Arguments.read call found.2).outcome with
    | error fault => rfl
    | ok after => rfl

/-- A call that meets the end can be completed. -/
theorem exists_ofTokens_append
    (h : Ended ((ofTokens call tokens).result.mapError CallError.fault)) :
    ∃ more d, (ofTokens call (tokens ++ more)).result = .ok d := by
  cases ho : opening tokens with
  | error fault =>
    rw [ofTokens_of_opening_error ho] at h
    have he : Ended (opening tokens) := by
      rw [ho]
      exact h.of_error
    obtain ⟨more, first, -, hf⟩ := exists_opening_append he
    have hr : Arguments.read call [closeParenthesis] = ⟨[], .ok []⟩ :=
      Arguments.read_of_closed (afterArgument_close .absent [])
    refine ⟨more ++ [closeParenthesis], .ofSettings first call [], ?_⟩
    rw [ofTokens_of_opening (hf _ (noFiller_singleton rfl)), hr]
    rfl
  | ok found =>
    rw [ofTokens_of_opening ho] at h
    have he : Ended (Arguments.read call found.2).outcome := by
      cases hr : (Arguments.read call found.2).outcome with
      | error fault =>
        rw [hr] at h
        exact h.of_error
      | ok after =>
        rw [hr] at h
        obtain ⟨what, he⟩ := h
        cases he
    obtain ⟨more, es, hm, hr⟩ := Arguments.exists_read_append he
    have ha := opening_append_of_settled (by rw [ho]; exact .ok _) more
    rw [ho, filter_of_noFiller hm] at ha
    refine ⟨more, .ofSettings found.1 call (es.filterMap Entry.setting?), ?_⟩
    rw [ofTokens_of_opening ha, hr]
    rfl

end DeclarationReading

/-- More tokens behind a statement leave its indentation as it is. -/
theorem Phrase.indent_append {kind : Phrase.Kind} {tokens : List Token}
    (h : ∃ t ∈ tokens, t.isBlank = false) (more : List Token) :
    Phrase.indent ⟨kind, tokens ++ more⟩ = Phrase.indent ⟨kind, tokens⟩ := by
  have hn : (tokens.takeWhile Token.isBlank).length ≠ tokens.length := by
    intro hl
    obtain ⟨t, ht, hb⟩ := h
    have hall := List.takeWhile_eq_self_iff.1 ((List.takeWhile_prefix _).eq_of_length hl)
    rw [hall t ht] at hb
    cases hb
  rw [indent, indent, List.takeWhile_append, if_neg hn]

/-- A call that declares something has the name that is called. -/
theorem DeclarationReading.exists_not_isBlank {call : Call} {tokens : List Token} {d : Declaration}
    (h : (ofTokens call tokens).result = .ok d) : ∃ t ∈ tokens, t.isBlank = false := by
  cases ho : opening tokens with
  | error fault =>
    rw [ofTokens_of_opening_error ho] at h
    cases h
  | ok found =>
    obtain ⟨-, callee, hc⟩ := opening_sound ho
    have hm : callee ∈ tokens.filter fun t => !t.isFiller := by
      rw [hc]
      exact List.mem_cons_self
    obtain ⟨hm, hf⟩ := List.mem_filter.1 hm
    cases hb : callee.isBlank with
    | false => exact ⟨callee, hm, hb⟩
    | true =>
      rw [Token.isFiller_of_isBlank hb] at hf
      cases hf

theorem Extraction.ofPhrases_append_of_settled {call : Call} {tokens : List Token}
    (h : Settled ((DeclarationReading.ofTokens call tokens).result.mapError CallError.fault))
    (more : List Token) :
    Extraction.ofPhrases [⟨call.kind, tokens ++ more⟩] =
      Extraction.ofPhrases [⟨call.kind, tokens⟩] := by
  rw [ofPhrases_singleton, ofPhrases_singleton,
    DeclarationReading.ofTokens_append_of_settled h]
  cases hr : (DeclarationReading.ofTokens call tokens).result with
  | error e => rfl
  | ok d => rw [Phrase.indent_append (DeclarationReading.exists_not_isBlank hr)]

/-- A call that makes a recipe by itself makes the same with any tokens behind it, and reports the
same keys; so does a call whose fault shows a token. A fault that shows none means that the call has
ended too early: exactly then some tokens behind it make it a recipe. -/
theorem ofPhrases_extended (call : Call) (tokens : List Token) :
    ((∃ r, Recipe.ofPhrases [⟨call.kind, tokens⟩] = .ok r) →
        ∀ more, Extraction.ofPhrases [⟨call.kind, tokens ++ more⟩] =
          Extraction.ofPhrases [⟨call.kind, tokens⟩]) ∧
      ∀ e what found, Recipe.ofPhrases [⟨call.kind, tokens⟩] = .error e →
        e.fault = .expected what found →
        (found ≠ none → ∀ more, Extraction.ofPhrases [⟨call.kind, tokens ++ more⟩] =
          Extraction.ofPhrases [⟨call.kind, tokens⟩]) ∧
        (found = none ↔
          ∃ more r, Recipe.ofPhrases [⟨call.kind, tokens ++ more⟩] = .ok r) := by
  constructor
  · intro h more
    obtain ⟨d, hd⟩ := Recipe.exists_ofPhrases_singleton_iff.1 h
    exact Extraction.ofPhrases_append_of_settled (by rw [hd]; exact .ok _) more
  · intro e what found h hf
    have hr := Recipe.ofPhrases_singleton_eq_error_iff.1 h
    have hm : (DeclarationReading.ofTokens call tokens).result.mapError CallError.fault =
        .error (.expected what found) := by
      rw [hr, ← hf]
      rfl
    cases found with
    | none =>
      refine ⟨fun hn => absurd rfl hn, fun _ => ?_, fun _ => rfl⟩
      obtain ⟨more, d, hd⟩ := DeclarationReading.exists_ofTokens_append ⟨what, hm⟩
      exact ⟨more, Recipe.exists_ofPhrases_singleton_iff.2 ⟨d, hd⟩⟩
    | some found =>
      have same : ∀ more, Extraction.ofPhrases [⟨call.kind, tokens ++ more⟩] =
          Extraction.ofPhrases [⟨call.kind, tokens⟩] :=
        Extraction.ofPhrases_append_of_settled (by rw [hm]; exact .shown _ _)
      refine ⟨fun _ => same, by rintro ⟨⟩, ?_⟩
      rintro ⟨more, r, hok⟩
      rw [Recipe.ofPhrases, same more] at hok
      cases h.symm.trans hok

/-- A call that is closed, one with a bracket too many, and one that ends inside two brackets. -/
theorem ofPhrases_extended_brackets :
    let start : List Token :=
      [⟨.identifier, "version"⟩, openParenthesis, ⟨.string, "'1'"⟩, comma, ⟨.identifier, "zip"⟩,
        assignment]
    let more : List Token := [closeParenthesis, ⟨.newline, "\n"⟩]
    let closed := start ++ [closeParenthesis]
    let wrong := start ++ [⟨.delimiter, "]"⟩]
    let unclosed := start ++ [openParenthesis, comma, ⟨.delimiter, "["⟩]
    (∃ r, Recipe.ofPhrases [⟨.version, closed⟩] = .ok r) ∧
      Extraction.ofPhrases [⟨.version, closed ++ more⟩] = Extraction.ofPhrases [⟨.version, closed⟩] ∧
      Recipe.ofPhrases [⟨.version, wrong⟩] =
        .error ⟨.version, .expected .commaOrClose (some "]")⟩ ∧
      Extraction.ofPhrases [⟨.version, wrong ++ more⟩] = Extraction.ofPhrases [⟨.version, wrong⟩] ∧
      Recipe.ofPhrases [⟨.version, unclosed⟩] = .error ⟨.version, .expected .commaOrClose none⟩ ∧
      ∃ rest r, Recipe.ofPhrases [⟨.version, unclosed ++ rest⟩] = .ok r := by
  intro start more closed wrong unclosed
  have hclosed : Recipe.ofPhrases [⟨.version, closed⟩] =
      .ok ⟨"", "", [⟨⟨.string, "'1'"⟩, none, none, none⟩], [], ""⟩ := by cbv
  have hwrong : Recipe.ofPhrases [⟨.version, wrong⟩] =
      .error ⟨.version, .expected .commaOrClose (some "]")⟩ := by cbv
  have hunclosed : Recipe.ofPhrases [⟨.version, unclosed⟩] =
      .error ⟨.version, .expected .commaOrClose none⟩ := by cbv
  refine ⟨⟨_, hclosed⟩, ?_, hwrong, ?_, hunclosed, ?_⟩
  · exact (ofPhrases_extended .version closed).1 ⟨_, hclosed⟩ more
  · exact ((ofPhrases_extended .version wrong).2 _ _ _ hwrong rfl).1 (Option.some_ne_none _) more
  · exact ((ofPhrases_extended .version unclosed).2 _ _ _ hunclosed rfl).2.1 rfl

end PackageRecipe
