import Mathlib
import PackageRecipe.Proofs.Recipe.Extraction

/-!
The calls of a recipe read one by one. Phrases make a recipe exactly if each of their calls makes
one by itself, and then the recipe is put together from those; otherwise the first call that makes
none says why. Neither the phrases around a call nor its place among them change what it declares.
-/
namespace PackageRecipe

namespace DeclarationsReading

variable {calls others : List (Call × List Token)}

/-- Calls that all declare something leave the reading of those behind them as it is. -/
theorem ofCalls_append_of_ok {declarations : List Declaration}
    (h : (ofCalls calls).result = .ok declarations) :
    ofCalls (calls ++ others) =
      ⟨(ofCalls others).result.map (declarations ++ ·),
        (ofCalls calls).unknown ++ (ofCalls others).unknown⟩ := by
  induction calls generalizing declarations with
  | nil =>
    obtain rfl : [] = declarations := Except.ok.inj h
    rw [List.nil_append]
    cases hr : ofCalls others with
    | mk result unknown => cases result <;> rfl
  | cons c calls ih =>
    obtain ⟨call, tokens⟩ := c
    rw [List.cons_append]
    cases hr : (DeclarationReading.ofTokens call tokens).result with
    | error e =>
      simp only [ofCalls, hr] at h
      cases h
    | ok first =>
      simp only [ofCalls, hr] at h ⊢
      cases hc : (ofCalls calls).result with
      | error e =>
        rw [hc] at h
        cases h
      | ok more =>
        rw [hc] at h
        obtain rfl : first :: more = declarations := Except.ok.inj h
        rw [ih hc, List.append_assoc]
        cases (ofCalls others).result <;> rfl

/-- A call that declares nothing keeps those behind it from being read. -/
theorem ofCalls_append_of_error {e : CallError} (h : (ofCalls calls).result = .error e) :
    ofCalls (calls ++ others) = ofCalls calls := by
  induction calls with
  | nil => cases h
  | cons c calls ih =>
    obtain ⟨call, tokens⟩ := c
    rw [List.cons_append]
    cases hr : (DeclarationReading.ofTokens call tokens).result with
    | error e' => simp only [ofCalls, hr]
    | ok first =>
      simp only [ofCalls, hr] at h ⊢
      cases hc : (ofCalls calls).result with
      | error e' => rw [ih (by rw [hc] at h ⊢; exact h), hc]
      | ok more =>
        rw [hc] at h
        cases h

theorem ofCalls_append_eq_ok_iff {declarations : List Declaration} :
    (ofCalls (calls ++ others)).result = .ok declarations ↔
      ∃ ds es, (ofCalls calls).result = .ok ds ∧ (ofCalls others).result = .ok es ∧
        declarations = ds ++ es := by
  cases hc : (ofCalls calls).result with
  | error e => simp [ofCalls_append_of_error hc, hc]
  | ok ds =>
    rw [ofCalls_append_of_ok hc]
    cases (ofCalls others).result with
    | error e => simp [Except.map]
    | ok es => simp [Except.map, eq_comm]

end DeclarationsReading

open DeclarationsReading

theorem callStatements_filter (phrases : List Phrase) :
    callStatements (phrases.filter fun p => !p.isText) = callStatements phrases := by
  rw [callStatements, callStatements, List.filterMap_filter]
  congr 1
  funext p
  cases hp : p.call? <;> simp [Phrase.isText, hp]

/-- The recipe that phrases make if `parts` are the recipes that their calls make by themselves. -/
def Recipe.assembled (phrases : List Phrase) (parts : List Recipe) : Recipe :=
  { header := phrasesText (phrases.takeWhile Phrase.isText)
    indent := (parts.head?.map Recipe.indent).getD ""
    versions := parts.flatMap Recipe.versions
    dependencies := parts.flatMap Recipe.dependencies
    footer := phrasesText ((phrases.dropWhile Phrase.isText).filter Phrase.isText) }

theorem exists_parts {phrases : List Phrase}
    (h : ∀ p ∈ phrases, ∃ r, Recipe.ofPhrases [p] = .ok r) :
    ∃ parts : List Recipe, phrases.map (fun p => Recipe.ofPhrases [p]) = parts.map .ok := by
  induction phrases with
  | nil => exact ⟨[], rfl⟩
  | cons p ps ih =>
    obtain ⟨⟨r, hr⟩, hps⟩ := List.forall_mem_cons.1 h
    obtain ⟨parts, hparts⟩ := ih hps
    exact ⟨r :: parts, by rw [List.map_cons, List.map_cons, hr, hparts]⟩

/-- Phrases that make recipes by themselves declare together what these hold. -/
theorem ofCalls_of_parts {phrases : List Phrase} {parts : List Recipe}
    (h : phrases.map (fun p => Recipe.ofPhrases [p]) = parts.map .ok) :
    ∃ ds, ofCalls (callStatements phrases) =
        ⟨.ok ds, phrases.flatMap fun p => (Extraction.ofPhrases [p]).unknown⟩ ∧
      ds.filterMap Declaration.version? = parts.flatMap Recipe.versions ∧
      ds.filterMap Declaration.dependency? = parts.flatMap Recipe.dependencies := by
  induction phrases generalizing parts with
  | nil =>
    obtain rfl : parts = [] := List.map_eq_nil_iff.1 h.symm
    exact ⟨[], rfl, rfl, rfl⟩
  | cons p ps ih =>
    obtain ⟨r, rs, rfl, hp, hps⟩ := List.map_eq_cons_iff.1 h.symm
    obtain ⟨es, he, hversions, hdependencies⟩ := ih hps.symm
    obtain ⟨ds, hd, rfl⟩ := Recipe.ofPhrases_eq_ok_iff.1 hp.symm
    refine ⟨ds ++ es, ?_, ?_, ?_⟩
    · have hc := callStatements_append [p] ps
      rw [List.singleton_append] at hc
      rw [hc, ofCalls_append_of_ok hd, he]
      rfl
    · rw [List.filterMap_append, hversions, List.flatMap_cons]
      rfl
    · rw [List.filterMap_append, hdependencies, List.flatMap_cons]
      rfl

theorem head?_dropWhile_isText (phrases : List Phrase) :
    (phrases.dropWhile Phrase.isText).head? = (phrases.filter fun p => !p.isText).head? := by
  rw [List.head?_filter, List.find?_not_eq_head?_dropWhile]

/-- A single call sets the indentation. -/
theorem indent_of_ofPhrases_singleton {p : Phrase} {r : Recipe} (hp : p.isText = false)
    (h : Recipe.ofPhrases [p] = .ok r) : r.indent = p.indent := by
  obtain ⟨ds, -, rfl⟩ := Recipe.ofPhrases_eq_ok_iff.1 h
  rw [Recipe.ofDeclarations, List.dropWhile_cons_of_neg (by simp [hp])]
  rfl

/-- Phrases behind a call may be exchanged for others with the same text and the same
declarations. -/
theorem ofDeclarations_append_congr {before after other : List Phrase} {ds es : List Declaration}
    (hb : ∃ c ∈ before, c.isText = false)
    (ht : after.filter Phrase.isText = other.filter Phrase.isText)
    (hv : ds.filterMap Declaration.version? = es.filterMap Declaration.version?)
    (hd : ds.filterMap Declaration.dependency? = es.filterMap Declaration.dependency?) :
    Recipe.ofDeclarations (before ++ after) ds = Recipe.ofDeclarations (before ++ other) es := by
  obtain ⟨c, hc, hf⟩ := hb
  have hn : before.dropWhile Phrase.isText ≠ [] := by
    intro he
    rw [List.dropWhile_eq_nil_iff.1 he c hc] at hf
    cases hf
  obtain ⟨first, more, hm⟩ := List.exists_cons_of_ne_nil hn
  have hfirst : ¬ first.isText = true := by
    have := List.head_dropWhile_not Phrase.isText (l := before) hn
    simpa [hm] using this
  have texts : ∀ p ∈ before.takeWhile Phrase.isText, p.isText = true :=
    fun p hp => List.mem_takeWhile_imp hp
  have parts : ∀ ps, before ++ ps = before.takeWhile Phrase.isText ++ first :: (more ++ ps) := by
    intro ps
    rw [← List.cons_append, ← hm, ← List.append_assoc, List.takeWhile_append_dropWhile]
  have take : ∀ ps, (before ++ ps).takeWhile Phrase.isText = before.takeWhile Phrase.isText := by
    intro ps
    rw [parts ps, List.takeWhile_append_of_pos texts, List.takeWhile_cons_of_neg hfirst,
      List.append_nil]
  have drop : ∀ ps, (before ++ ps).dropWhile Phrase.isText = first :: (more ++ ps) := by
    intro ps
    rw [parts ps, List.dropWhile_append_of_pos texts, List.dropWhile_cons_of_neg hfirst]
  have rest : (first :: (more ++ after)).filter Phrase.isText =
      (first :: (more ++ other)).filter Phrase.isText := by
    rw [← List.cons_append, ← List.cons_append, List.filter_append, List.filter_append, ht]
  simp only [Recipe.ofDeclarations, take, drop, hv, hd, rest, List.head?_cons]

/-- Phrases make the recipe that the recipes of their calls are parts of. -/
theorem Extraction.ofPhrases_of_parts {phrases : List Phrase} {parts : List Recipe}
    (h : (phrases.filter fun p => !p.isText).map (fun p => Recipe.ofPhrases [p]) =
      parts.map .ok) :
    Extraction.ofPhrases phrases = ⟨.ok (Recipe.assembled phrases parts),
      (phrases.filter fun p => !p.isText).flatMap fun p => (Extraction.ofPhrases [p]).unknown⟩ := by
  obtain ⟨ds, hd, hversions, hdependencies⟩ := ofCalls_of_parts h
  rw [callStatements_filter] at hd
  have hi : ((phrases.filter fun p => !p.isText).head?.map Phrase.indent) =
      parts.head?.map Recipe.indent := by
    cases hc : phrases.filter fun p => !p.isText with
    | nil =>
      rw [hc] at h
      obtain rfl : parts = [] := List.map_eq_nil_iff.1 h.symm
      rfl
    | cons p ps =>
      rw [hc] at h
      obtain ⟨r, rs, rfl, hp, -⟩ := List.map_eq_cons_iff.1 h.symm
      have hm : p ∈ phrases.filter fun p => !p.isText := by simp [hc]
      have ht : p.isText = false := by simpa using (List.mem_filter.1 hm).2
      exact congrArg some (indent_of_ofPhrases_singleton ht hp.symm).symm
  rw [Extraction.ofPhrases, hd]
  simp only [Except.map, Recipe.ofDeclarations, Recipe.assembled, hversions, hdependencies,
    head?_dropWhile_isText, hi]

/-- The first call that makes no recipe by itself has the error of all phrases. -/
theorem Extraction.ofPhrases_of_error {phrases before after : List Phrase} {p : Phrase}
    {e : CallError} (hc : phrases.filter (fun p => !p.isText) = before ++ p :: after)
    (hb : ∀ q ∈ before, ∃ r, Recipe.ofPhrases [q] = .ok r) (he : Recipe.ofPhrases [p] = .error e) :
    Extraction.ofPhrases phrases = ⟨.error e,
      (before ++ [p]).flatMap fun q => (Extraction.ofPhrases [q]).unknown⟩ := by
  obtain ⟨parts, hparts⟩ := exists_parts hb
  obtain ⟨ds, hd, -, -⟩ := ofCalls_of_parts hparts
  have hp := Recipe.ofPhrases_eq_error_iff.1 he
  have hs : callStatements phrases =
      callStatements before ++ (callStatements [p] ++ callStatements after) := by
    rw [← callStatements_filter, hc, ← callStatements_append [p], callStatements_append]
    rfl
  rw [Extraction.ofPhrases, hs, ofCalls_append_of_ok (by rw [hd]), ofCalls_append_of_error hp, hp,
    hd, List.flatMap_append]
  simp only [Except.map, List.flatMap_cons, List.flatMap_nil, List.append_nil]
  rfl

/-- Phrases that make a recipe make one on either side of each of them, and it by itself. -/
theorem Recipe.ofPhrases_cut {before after : List Phrase} {p : Phrase} {r : Recipe}
    (h : Recipe.ofPhrases (before ++ p :: after) = .ok r) :
    ∃ front own back, Recipe.ofPhrases before = .ok front ∧ Recipe.ofPhrases [p] = .ok own ∧
      Recipe.ofPhrases after = .ok back ∧
      r.versions = front.versions ++ own.versions ++ back.versions ∧
      r.dependencies = front.dependencies ++ own.dependencies ++ back.dependencies := by
  obtain ⟨ds, hd, rfl⟩ := Recipe.ofPhrases_eq_ok_iff.1 h
  rw [← List.singleton_append, callStatements_append, callStatements_append] at hd
  obtain ⟨front, others, hf, ho, rfl⟩ := ofCalls_append_eq_ok_iff.1 hd
  obtain ⟨own, back, hp, hb, rfl⟩ := ofCalls_append_eq_ok_iff.1 ho
  refine ⟨_, _, _, Recipe.ofPhrases_eq_ok_iff.2 ⟨front, hf, rfl⟩,
    Recipe.ofPhrases_eq_ok_iff.2 ⟨own, hp, rfl⟩, Recipe.ofPhrases_eq_ok_iff.2 ⟨back, hb, rfl⟩,
    ?_, ?_⟩
  · simp [Recipe.ofDeclarations, List.filterMap_append]
  · simp [Recipe.ofDeclarations, List.filterMap_append]

theorem Recipe.exists_ofPhrases_iff {phrases : List Phrase} :
    (∃ r, Recipe.ofPhrases phrases = .ok r) ↔
      ∀ p ∈ phrases.filter fun p => !p.isText, ∃ r, Recipe.ofPhrases [p] = .ok r := by
  constructor
  · intro h p hp
    obtain ⟨r, hr⟩ := h
    obtain ⟨before, after, rfl⟩ := List.append_of_mem (List.mem_filter.1 hp).1
    obtain ⟨-, own, -, -, ho, -⟩ := Recipe.ofPhrases_cut hr
    exact ⟨own, ho⟩
  · intro h
    obtain ⟨parts, hparts⟩ := exists_parts h
    have hx := Extraction.ofPhrases_of_parts hparts
    exact ⟨Recipe.assembled phrases parts, by rw [Recipe.ofPhrases, hx]⟩

/-- What a phrase declares is of the kind of its call, and text declares nothing. -/
theorem declares_of_call {p : Phrase} {ds : List Declaration}
    (h : (ofCalls (callStatements [p])).result = .ok ds) :
    (p.call? = none ∧ ds = []) ∨ ∃ d, p.call? = some d.call ∧ ds = [d] := by
  cases hp : p.call? with
  | none =>
    have ht : ∀ q ∈ [p], q.isText = true := by simp [Phrase.isText, hp]
    rw [callStatements_of_isText ht] at h
    exact .inl ⟨rfl, (Except.ok.inj h).symm⟩
  | some call =>
    rw [callStatements_cons (Phrase.call?_eq_some_iff.1 hp)] at h
    obtain ⟨d, others, hd, ho, rfl⟩ :=
      List.forall₂_cons_left_iff.1 (ofCalls_result_eq_ok_iff.1 h)
    obtain rfl := List.forall₂_nil_left_iff.1 ho
    exact .inr ⟨d, by rw [hd.call_eq], rfl⟩

/-- Neighbours behind a call may change places if they are not both versions, both dependencies or
both text. -/
theorem Recipe.ofPhrases_swap {before after : List Phrase} {p q : Phrase} {r : Recipe}
    (hb : ∃ c ∈ before, c.isText = false) (hn : p.call? ≠ q.call?)
    (h : Recipe.ofPhrases (before ++ p :: q :: after) = .ok r) :
    Recipe.ofPhrases (before ++ q :: p :: after) = .ok r := by
  obtain ⟨all, hd, rfl⟩ := Recipe.ofPhrases_eq_ok_iff.1 h
  have calls : ∀ a b, callStatements (before ++ a :: b :: after) = callStatements before ++
      (callStatements [a] ++ (callStatements [b] ++ callStatements after)) := by
    intro a b
    rw [callStatements_append, ← callStatements_append [b], ← callStatements_append [a]]
    rfl
  rw [calls] at hd
  obtain ⟨front, others, hf, ho, rfl⟩ := ofCalls_append_eq_ok_iff.1 hd
  obtain ⟨ps, more, hp, hm, rfl⟩ := ofCalls_append_eq_ok_iff.1 ho
  obtain ⟨qs, back, hq, hr, rfl⟩ := ofCalls_append_eq_ok_iff.1 hm
  refine Recipe.ofPhrases_eq_ok_iff.2 ⟨front ++ (qs ++ (ps ++ back)), ?_, ?_⟩
  · rw [calls]
    exact ofCalls_append_eq_ok_iff.2 ⟨_, _, hf, ofCalls_append_eq_ok_iff.2
      ⟨_, _, hq, ofCalls_append_eq_ok_iff.2 ⟨_, _, hp, hr, rfl⟩, rfl⟩, rfl⟩
  · have hpt : p.isText = p.call?.isNone := rfl
    have hqt : q.isText = q.call?.isNone := rfl
    obtain ⟨hpc, rfl⟩ | ⟨d, hpc, rfl⟩ := declares_of_call hp
    · obtain ⟨hqc, -⟩ | ⟨e, hqc, rfl⟩ := declares_of_call hq
      · exact absurd (hpc.trans hqc.symm) hn
      · apply ofDeclarations_append_congr hb
        · simp [hpt, hqt, hpc, hqc]
        · rfl
        · rfl
    · obtain ⟨hqc, rfl⟩ | ⟨e, hqc, rfl⟩ := declares_of_call hq
      · apply ofDeclarations_append_congr hb
        · simp [hpt, hqt, hpc, hqc]
        · rfl
        · rfl
      · have hne : d.call ≠ e.call := fun he => hn (by rw [hpc, hqc, he])
        apply ofDeclarations_append_congr hb
        · simp [hpt, hqt, hpc, hqc]
        · cases d <;> cases e <;>
            simp_all [Declaration.call, List.filterMap_cons, Declaration.version?]
        · cases d <;> cases e <;>
            simp_all [Declaration.call, List.filterMap_cons, Declaration.dependency?]

/-- Phrases make the recipe that their calls make one by one. If a call makes none, the first such
call has the error of all, and no call behind it is read. What a call declares hangs neither on its
place nor on the phrases around it; behind the first call only the order within the versions, the
dependencies and the text matters. -/
theorem ofPhrases_compositional (phrases : List Phrase) :
    let calls := phrases.filter fun p => !p.isText
    ((∃ r, Recipe.ofPhrases phrases = .ok r) ↔ ∀ p ∈ calls, ∃ r, Recipe.ofPhrases [p] = .ok r) ∧
      (∀ parts, calls.map (fun p => Recipe.ofPhrases [p]) = parts.map .ok →
        Extraction.ofPhrases phrases = ⟨.ok (Recipe.assembled phrases parts),
          calls.flatMap fun p => (Extraction.ofPhrases [p]).unknown⟩) ∧
      (∀ before p after e, calls = before ++ p :: after →
        (∀ q ∈ before, ∃ r, Recipe.ofPhrases [q] = .ok r) → Recipe.ofPhrases [p] = .error e →
        Extraction.ofPhrases phrases = ⟨.error e,
          (before ++ [p]).flatMap fun q => (Extraction.ofPhrases [q]).unknown⟩) ∧
      (∀ before p after r, phrases = before ++ p :: after → Recipe.ofPhrases phrases = .ok r →
        ∃ front own back, Recipe.ofPhrases before = .ok front ∧ Recipe.ofPhrases [p] = .ok own ∧
          Recipe.ofPhrases after = .ok back ∧
          r.versions = front.versions ++ own.versions ++ back.versions ∧
          r.dependencies = front.dependencies ++ own.dependencies ++ back.dependencies) ∧
      ∀ before p q after r, phrases = before ++ p :: q :: after →
        (∃ c ∈ before, c.isText = false) → p.call? ≠ q.call? →
        Recipe.ofPhrases phrases = .ok r →
        Recipe.ofPhrases (before ++ q :: p :: after) = .ok r := by
  refine ⟨Recipe.exists_ofPhrases_iff, ?_, ?_, ?_, ?_⟩
  · exact fun parts h => Extraction.ofPhrases_of_parts h
  · exact fun before p after e hc hb he => Extraction.ofPhrases_of_error hc hb he
  · rintro before p after r rfl hr
    exact Recipe.ofPhrases_cut hr
  · rintro before p q after r rfl hb hn hr
    exact Recipe.ofPhrases_swap hb hn hr

/-- A version with an unknown key, text, a dependency, and a version without its string. -/
theorem ofPhrases_compositional_mixed :
    let comma : Token := ⟨.delimiter, ","⟩
    let version : Phrase := ⟨.version, [⟨.newline, "\n"⟩, ⟨.whitespace, " "⟩,
      ⟨.identifier, "version"⟩, ⟨.delimiter, "("⟩, ⟨.string, "'1'"⟩, comma,
      ⟨.identifier, "expand"⟩, ⟨.delimiter, ")"⟩]⟩
    let text : Phrase := ⟨.other, [⟨.newline, "\n"⟩, ⟨.keyword, "pass"⟩]⟩
    let dependency : Phrase := ⟨.dependsOn, [⟨.newline, "\n"⟩, ⟨.identifier, "depends_on"⟩,
      ⟨.delimiter, "("⟩, ⟨.string, "'y'"⟩, ⟨.delimiter, ")"⟩]⟩
    let broken : Phrase := ⟨.version, [⟨.identifier, "version"⟩, ⟨.delimiter, "("⟩, comma,
      ⟨.identifier, "expand"⟩]⟩
    let r : Recipe := ⟨"", " ", [⟨⟨.string, "'1'"⟩, none, none, none⟩],
      [⟨⟨.string, "'y'"⟩, [], none⟩], "\npass"⟩
    Extraction.ofPhrases [version, text, dependency] =
        ⟨.ok r, [(.version, ⟨.identifier, "expand"⟩)]⟩ ∧
      Extraction.ofPhrases [version, text, broken, dependency, broken] =
        ⟨.error ⟨.version, .expected .string (some ",")⟩,
          [(.version, ⟨.identifier, "expand"⟩)]⟩ ∧
      Recipe.ofPhrases [version, dependency, text] = .ok r := by
  intro comma version text dependency broken r
  have hv : Recipe.ofPhrases [version] = .ok ⟨"", " ", r.versions, [], ""⟩ := by cbv
  have hb : Recipe.ofPhrases [broken] = .error ⟨.version, .expected .string (some ",")⟩ := by cbv
  obtain ⟨-, assembled, -, -, swapped⟩ := ofPhrases_compositional [version, text, dependency]
  obtain ⟨-, -, failed, -⟩ :=
    ofPhrases_compositional [version, text, broken, dependency, broken]
  have all : Extraction.ofPhrases [version, text, dependency] =
      ⟨.ok r, [(.version, ⟨.identifier, "expand"⟩)]⟩ := by
    rw [assembled [⟨"", " ", r.versions, [], ""⟩, ⟨"", "", [], r.dependencies, ""⟩] (by cbv)]
    cbv
  refine ⟨all, ?_, ?_⟩
  · rw [failed [version] broken [dependency, broken] _ (by cbv) ?_ hb]
    · cbv
    · intro q hq
      obtain rfl := List.mem_singleton.1 hq
      exact ⟨_, hv⟩
  · apply swapped [version] text dependency [] r rfl ⟨version, by simp, rfl⟩ (by decide)
    rw [Recipe.ofPhrases, all]

end PackageRecipe
