import Mathlib.Data.List.Forall2
import PackageRecipe.Proofs.Phrase.Statement

/-!
A recipe and the calls it was taken from. Every call of the phrases is read by itself, and the
recipe holds what they declare in their order; text has no part in it.
-/
namespace PackageRecipe

/-- The call that makes a declaration. -/
def Declaration.call : Declaration → Call
  | version _ => .version
  | dependency _ => .dependsOn

/-- The call reads as the declaration. -/
def Call.Reads (statement : Call × List Token) (declaration : Declaration) : Prop :=
  (DeclarationReading.ofTokens statement.1 statement.2).result = .ok declaration

theorem Call.Reads.call_eq {statement : Call × List Token} {declaration : Declaration}
    (h : Call.Reads statement declaration) : declaration.call = statement.1 := by
  obtain ⟨call, tokens⟩ := statement
  rw [Reads, DeclarationReading.ofTokens] at h
  split at h
  · cases h
  · dsimp only at h
    split at h
    · cases h
    · obtain rfl := Except.ok.inj h
      cases call with
      | version => rfl
      | dependsOn => rfl

theorem callStatements_append (ps qs : List Phrase) :
    callStatements (ps ++ qs) = callStatements ps ++ callStatements qs :=
  List.filterMap_append

theorem callStatements_of_isText {ps : List Phrase} (h : ∀ p ∈ ps, p.isText = true) :
    callStatements ps = [] := by
  refine List.filterMap_eq_nil_iff.2 fun p hp => ?_
  rw [Option.isNone_iff_eq_none.1 (h p hp)]
  rfl

theorem callStatements_cons {p : Phrase} {call : Call} (h : p.kind = call.kind) (ps : List Phrase) :
    callStatements (p :: ps) = (call, p.tokens) :: callStatements ps := by
  rw [callStatements, List.filterMap_cons, Phrase.call?_eq_some_iff.2 h]
  rfl

/-- Calls declare something together exactly if each of them does. -/
theorem DeclarationsReading.ofCalls_result_eq_ok_iff {calls : List (Call × List Token)}
    {declarations : List Declaration} :
    (ofCalls calls).result = .ok declarations ↔ List.Forall₂ Call.Reads calls declarations := by
  induction calls generalizing declarations with
  | nil =>
    rw [List.forall₂_nil_left_iff]
    exact ⟨fun h => (Except.ok.inj h).symm, fun h => by rw [h]; rfl⟩
  | cons c calls ih =>
    obtain ⟨call, tokens⟩ := c
    cases hr : (DeclarationReading.ofTokens call tokens).result with
    | error e =>
      simp only [ofCalls, hr]
      constructor
      · nofun
      · rintro (_ | ⟨h, -⟩)
        rw [Call.Reads, hr] at h
        cases h
    | ok first =>
      simp only [ofCalls, hr]
      constructor
      · intro h
        cases ho : (ofCalls calls).result with
        | error e =>
          rw [ho] at h
          cases h
        | ok others =>
          rw [ho] at h
          obtain rfl : first :: others = declarations := Except.ok.inj h
          exact .cons hr (ih.1 ho)
      · rintro (_ | @⟨_, d, _, ds, h, hs⟩)
        obtain rfl : first = d := Except.ok.inj (hr.symm.trans h)
        rw [ih.2 hs]
        rfl

/-- Every declaration is made by one of the calls. -/
theorem Call.Reads.exists_of_mem {calls : List (Call × List Token)}
    {declarations : List Declaration} (h : List.Forall₂ Call.Reads calls declarations)
    {d : Declaration} (hd : d ∈ declarations) : ∃ c ∈ calls, Call.Reads c d := by
  induction h with
  | nil => cases hd
  | cons hc _ ih =>
    rcases List.mem_cons.1 hd with rfl | hd
    · exact ⟨_, List.mem_cons_self, hc⟩
    · obtain ⟨c, hm, hr⟩ := ih hd
      exact ⟨c, List.mem_cons_of_mem _ hm, hr⟩

/-- If no call has another fault than the others, this is the fault of all of them. -/
theorem DeclarationsReading.ofCalls_result_of_error {calls : List (Call × List Token)}
    {e : CallError} (h : ∀ c ∈ calls, (∃ d, Call.Reads c d) ∨
      (DeclarationReading.ofTokens c.1 c.2).result = .error e)
    (he : ∃ c ∈ calls, (DeclarationReading.ofTokens c.1 c.2).result = .error e) :
    (ofCalls calls).result = .error e := by
  induction calls with
  | nil => simp at he
  | cons c calls ih =>
    obtain ⟨hc, hcs⟩ := List.forall_mem_cons.1 h
    obtain ⟨call, tokens⟩ := c
    obtain ⟨d, hd⟩ | hc := hc
    · obtain ⟨c, hm, hf⟩ := he
      rcases List.mem_cons.1 hm with rfl | hm
      · rw [Call.Reads, hf] at hd
        cases hd
      · have hd : (DeclarationReading.ofTokens call tokens).result = .ok d := hd
        simp only [ofCalls, hd, ih hcs ⟨c, hm, hf⟩]
        rfl
    · simp only [ofCalls, hc]

theorem Recipe.ofPhrases_eq_ok_iff {phrases : List Phrase} {r : Recipe} :
    Recipe.ofPhrases phrases = .ok r ↔
      ∃ ds, (DeclarationsReading.ofCalls (callStatements phrases)).result = .ok ds ∧
        r = Recipe.ofDeclarations phrases ds := by
  rw [Recipe.ofPhrases, Extraction.ofPhrases]
  cases (DeclarationsReading.ofCalls (callStatements phrases)).result with
  | error e => simp [Except.map]
  | ok ds => simp [Except.map, eq_comm]

theorem Recipe.ofPhrases_eq_error_iff {phrases : List Phrase} {e : CallError} :
    Recipe.ofPhrases phrases = .error e ↔
      (DeclarationsReading.ofCalls (callStatements phrases)).result = .error e := by
  rw [Recipe.ofPhrases, Extraction.ofPhrases]
  cases (DeclarationsReading.ofCalls (callStatements phrases)).result with
  | error e => simp [Except.map]
  | ok ds => simp [Except.map]

/-- A single call makes a recipe without text around it. -/
theorem Extraction.ofPhrases_singleton (call : Call) (tokens : List Token) :
    Extraction.ofPhrases [⟨call.kind, tokens⟩] =
      ⟨(DeclarationReading.ofTokens call tokens).result.map fun d =>
          ⟨"", Phrase.indent ⟨call.kind, tokens⟩, d.version?.toList, d.dependency?.toList, ""⟩,
        (DeclarationReading.ofTokens call tokens).unknown.map fun key => (call, key)⟩ := by
  have hc : callStatements [⟨call.kind, tokens⟩] = [(call, tokens)] := callStatements_cons rfl []
  have ht : Phrase.isText ⟨call.kind, tokens⟩ = false := Phrase.isText_eq_false_iff.2 ⟨call, rfl⟩
  rw [Extraction.ofPhrases, hc, DeclarationsReading.ofCalls]
  cases hr : (DeclarationReading.ofTokens call tokens).result with
  | error e => simp [Except.map]
  | ok d =>
    have hd : [d].filterMap Declaration.version? = d.version?.toList ∧
        [d].filterMap Declaration.dependency? = d.dependency?.toList := by
      cases d with
      | version | dependency => exact ⟨rfl, rfl⟩
    simp [Except.map, DeclarationsReading.ofCalls, Recipe.ofDeclarations, ht, hd, phrasesText]

theorem Recipe.exists_ofPhrases_singleton_iff {call : Call} {tokens : List Token} :
    (∃ r, Recipe.ofPhrases [⟨call.kind, tokens⟩] = .ok r) ↔
      ∃ d, (DeclarationReading.ofTokens call tokens).result = .ok d := by
  rw [ofPhrases, Extraction.ofPhrases_singleton]
  cases (DeclarationReading.ofTokens call tokens).result with
  | error e => simp [Except.map]
  | ok d => simp [Except.map]

theorem Recipe.ofPhrases_singleton_eq_error_iff {call : Call} {tokens : List Token}
    {e : CallError} :
    Recipe.ofPhrases [⟨call.kind, tokens⟩] = .error e ↔
      (DeclarationReading.ofTokens call tokens).result = .error e := by
  rw [ofPhrases, Extraction.ofPhrases_singleton]
  cases (DeclarationReading.ofTokens call tokens).result with
  | error e => simp [Except.map]
  | ok d => simp [Except.map]

/-- Once a source has fallen into phrases, only their calls can be at fault. -/
theorem Recipe.ofSource_of_ofTokens {source : String} {tokens : List Token}
    {phrases : List Phrase} (ht : Token.ofSource source = .ok tokens)
    (hp : Phrase.ofTokens tokens = .ok phrases) :
    Recipe.ofSource source = (Recipe.ofPhrases phrases).mapError .call := by
  rw [ofSource, ht]
  simp only [Except.mapError, bind, Except.bind, hp]

/-- A source is a recipe exactly if its tokens fall into phrases whose calls all declare
something. -/
theorem Recipe.ofSource_eq_ok_iff {source : String} {r : Recipe} :
    Recipe.ofSource source = .ok r ↔
      ∃ tokens phrases declarations, Token.ofSource source = .ok tokens ∧
        Phrase.ofTokens tokens = .ok phrases ∧
        List.Forall₂ Call.Reads (callStatements phrases) declarations ∧
        r = Recipe.ofDeclarations phrases declarations := by
  simp only [← DeclarationsReading.ofCalls_result_eq_ok_iff]
  constructor
  · intro h
    rw [ofSource] at h
    cases ht : Token.ofSource source with
    | error e => simp [ht, bind, Except.bind, Except.mapError] at h
    | ok tokens =>
      cases hp : Phrase.ofTokens tokens with
      | error e => simp [ht, hp, bind, Except.bind, Except.mapError] at h
      | ok phrases =>
        cases hd : (DeclarationsReading.ofCalls (callStatements phrases)).result with
        | error e =>
          simp [ht, hp, hd, bind, Except.bind, Except.mapError, ofPhrases, Extraction.ofPhrases,
            Except.map] at h
        | ok declarations =>
          refine ⟨tokens, phrases, declarations, rfl, hp, hd, ?_⟩
          simpa [ht, hp, hd, bind, Except.bind, Except.mapError, ofPhrases, Extraction.ofPhrases,
            Except.map, eq_comm] using h
  · intro h
    obtain ⟨tokens, phrases, declarations, ht, hp, hd, rfl⟩ := h
    simp [ofSource, ht, hp, hd, bind, Except.bind, Except.mapError, ofPhrases,
      Extraction.ofPhrases, Except.map]

/-- The versions of a recipe come from its `version` calls, one from each, and the dependencies
from the others. -/
theorem forall₂_of_callStatements {phrases : List Phrase} {declarations : List Declaration}
    (h : List.Forall₂ Call.Reads (callStatements phrases) declarations) :
    List.Forall₂ (fun p v => Call.Reads (.version, p.tokens) (.version v))
        (phrases.filter fun p => p.kind = .version) (declarations.filterMap Declaration.version?) ∧
      List.Forall₂ (fun p d => Call.Reads (.dependsOn, p.tokens) (.dependency d))
        (phrases.filter fun p => p.kind = .dependsOn)
        (declarations.filterMap Declaration.dependency?) := by
  induction phrases generalizing declarations with
  | nil =>
    obtain rfl := List.forall₂_nil_left_iff.1 h
    exact ⟨.nil, .nil⟩
  | cons p ps ih =>
    cases hp : p.isText with
    | true =>
      have hk : ∀ call : Call, p.kind ≠ call.kind := fun call hk => by
        rw [Phrase.isText_eq_false_iff.2 ⟨call, hk⟩] at hp
        cases hp
      rw [callStatements, List.filterMap_cons, Option.isNone_iff_eq_none.1 hp] at h
      rw [List.filter_cons_of_neg (by simpa [Call.kind] using hk .version),
        List.filter_cons_of_neg (by simpa [Call.kind] using hk .dependsOn)]
      exact ih h
    | false =>
      obtain ⟨call, hk⟩ := Phrase.isText_eq_false_iff.1 hp
      rw [callStatements_cons hk] at h
      obtain ⟨d, ds, hd, hds, rfl⟩ := List.forall₂_cons_left_iff.1 h
      obtain ⟨hv, hn⟩ := ih hds
      have hc := hd.call_eq
      cases call with
      | version =>
        cases d with
        | dependency d => cases hc
        | version v =>
          rw [List.filter_cons_of_pos (by simpa [Call.kind] using hk),
            List.filter_cons_of_neg (by simp [hk, Call.kind])]
          exact ⟨.cons hd hv, hn⟩
      | dependsOn =>
        cases d with
        | version v => cases hc
        | dependency d =>
          rw [List.filter_cons_of_neg (by simp [hk, Call.kind]),
            List.filter_cons_of_pos (by simpa [Call.kind] using hk)]
          exact ⟨hv, .cons hd hn⟩

end PackageRecipe
