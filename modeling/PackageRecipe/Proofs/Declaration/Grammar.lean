import PackageRecipe.Proofs.Declaration.Sound
import PackageRecipe.Proofs.Recipe.Extraction

/-!
What either call declares, by its grammar. A call is read exactly if its tokens without filler are
derived, and then every slot is what its last argument says and the unknown keys are reported in
their order, so how the tokens are derived makes no difference.
-/
namespace PackageRecipe

open Call

namespace Call

def Setting.pin? : Setting .version → Option Argument
  | .pin argument => some argument
  | .source _ => none
  | .preferred _ => none

def Setting.source? : Setting .version → Option Argument
  | .pin _ => none
  | .source argument => some argument
  | .preferred _ => none

def Setting.preferred? : Setting .version → Option Token
  | .pin _ => none
  | .source _ => none
  | .preferred value => some value

def Setting.types? : Setting .dependsOn → Option (List Token)
  | .types values => some values
  | .condition _ => none

def Setting.condition? : Setting .dependsOn → Option Token
  | .types _ => none
  | .condition value => some value

/-- What the last argument says that says anything of this sort. -/
def lastSet {call : Call} {α : Type} (select : Setting call → Option α)
    (arguments : List (Entry call × List Token)) : Option α :=
  (arguments.filterMap fun a => a.1.setting?.bind select).getLast?

/-- The keys that arguments give to a call which does not know them. -/
def unknownKeys {call : Call} (arguments : List (Entry call × List Token)) : List Token :=
  arguments.filterMap fun a => a.1.unknown?

end Call

/-- Where each step overwrites a field or leaves it, the last one that overwrites it counts. -/
theorem foldl_last {σ ι α : Type} (set : σ → ι → σ) (field : σ → Option α) (select : ι → Option α)
    (h : ∀ s i, field (set s i) = (select i).or (field s)) (is : List ι) (s : σ) :
    field (is.foldl set s) = (is.filterMap select).getLast?.or (field s) := by
  induction is generalizing s with
  | nil => rfl
  | cons i is ih =>
    rw [List.foldl_cons, ih, h]
    cases hi : select i with
    | none => rw [List.filterMap_cons_none hi, Option.none_or]
    | some a =>
      rw [List.filterMap_cons_some hi, List.getLast?_cons, Option.some_or]
      cases (is.filterMap select).getLast? <;> rfl

/-- The last pin, the last source and the last preference make a version. -/
theorem Declaration.ofSettings_version (first : Token) (settings : List (Setting .version)) :
    ofSettings first .version settings =
      .version ⟨first, (settings.filterMap Setting.pin?).getLast?,
        (settings.filterMap Setting.source?).getLast?,
        (settings.filterMap Setting.preferred?).getLast?⟩ := by
  have last := fun {α : Type} (field : Version → Option α) select h =>
    foldl_last Version.set field select h settings ⟨first, none, none, none⟩
  have name := last (fun v => some v.name) (fun _ => none) fun _ s => by cases s <;> rfl
  have pin := last Version.pin Setting.pin? fun _ s => by cases s <;> rfl
  have source := last Version.source Setting.source? fun _ s => by cases s <;> rfl
  have preferred := last Version.preferred Setting.preferred? fun _ s => by cases s <;> rfl
  rw [List.filterMap_none] at name
  rw [Option.or_none] at pin source preferred
  rw [ofSettings, ← pin, ← source, ← preferred]
  generalize settings.foldl Version.set _ = v at name
  obtain rfl := Option.some.inj name
  rfl

/-- The last types and the last condition make a dependency. -/
theorem Declaration.ofSettings_dependsOn (first : Token) (settings : List (Setting .dependsOn)) :
    ofSettings first .dependsOn settings =
      .dependency ⟨first, (settings.filterMap Setting.types?).getLast?.getD [],
        (settings.filterMap Setting.condition?).getLast?⟩ := by
  have last := fun {α : Type} (field : Dependency → Option α) select h =>
    foldl_last Dependency.set field select h settings ⟨first, [], none⟩
  have spec := last (fun d => some d.spec) (fun _ => none) fun _ s => by cases s <;> rfl
  have types := last (fun d => some d.types) Setting.types? fun _ s => by cases s <;> rfl
  have condition := last Dependency.condition Setting.condition? fun _ s => by cases s <;> rfl
  rw [List.filterMap_none] at spec
  rw [Option.or_some] at types
  rw [Option.or_none] at condition
  rw [ofSettings, ← Option.some.inj types, ← condition]
  generalize settings.foldl Dependency.set _ = d at spec
  obtain rfl := Option.some.inj spec
  rfl

/-- A call whose tokens are derived is read as what they spell. -/
theorem DeclarationReading.ofTokens_of_form {call : Call} {tokens : List Token} {first : Token}
    {es : List (Entry call)} (h : Call.Form first es (tokens.filter fun t => !t.isFiller)) :
    ofTokens call tokens = ⟨.ok (.ofSettings first call (es.filterMap Entry.setting?)),
      es.filterMap Entry.unknown?⟩ := by
  generalize hs : (tokens.filter fun t => !t.isFiller) = significant at h
  cases h with
  | @mk callee ts trailing rest hf hes ht =>
    have ho : opening tokens = .ok (first, ts ++ (trailing ++ closeParenthesis :: rest)) := by
      rw [opening, hs]
      simp only [List.cons_append, List.append_assoc, List.tail_cons]
      rw [take_cons (by decide), ok_bind]
      exact takeString_cons hf _
    have hr := Arguments.read_append hes ht rest
    rw [ofTokens_of_opening ho, hr]
    rfl

section Grammar

variable {call : Call} {IsArgument : Entry call → List Token → Prop} {tokens : List Token}
  (h : ∀ {e : Entry call} {ts : List Token}, Entry.Form e ts ↔ IsArgument e ts)

include h

/-- A call makes a recipe by itself exactly if the grammar derives its tokens. -/
theorem Recipe.exists_ofPhrases_iff_spells :
    (∃ r, Recipe.ofPhrases [⟨call.kind, tokens⟩] = .ok r) ↔
      ∃ first arguments, Spells IsArgument first arguments (tokens.filter fun t => !t.isFiller) := by
  rw [exists_ofPhrases_singleton_iff]
  constructor
  · rintro ⟨d, hd⟩
    obtain ⟨first, es, hf, -, -⟩ := DeclarationReading.form_of_ok hd
    obtain ⟨arguments, -, hs⟩ := (form_iff_spells h).1 hf
    exact ⟨first, arguments, hs⟩
  · rintro ⟨first, arguments, hs⟩
    rw [DeclarationReading.ofTokens_of_form ((form_iff_spells h).2 ⟨arguments, rfl, hs⟩)]
    exact ⟨_, rfl⟩

/-- The arguments of a call set what it declares, and the rest of them are reported. -/
theorem Extraction.ofPhrases_of_spells {first : Token} {arguments : List (Entry call × List Token)}
    (hs : Spells IsArgument first arguments (tokens.filter fun t => !t.isFiller)) :
    Extraction.ofPhrases [⟨call.kind, tokens⟩] =
      ⟨.ok
        (let d := Declaration.ofSettings first call (arguments.filterMap fun a => a.1.setting?)
        ⟨"", Phrase.indent ⟨call.kind, tokens⟩, d.version?.toList, d.dependency?.toList, ""⟩),
        (unknownKeys arguments).map fun key => (call, key)⟩ := by
  rw [ofPhrases_singleton,
    DeclarationReading.ofTokens_of_form ((form_iff_spells h).2 ⟨arguments, rfl, hs⟩)]
  simp only [List.filterMap_map, unknownKeys]
  rfl

end Grammar

/-- A `version` call is read exactly if the grammar derives its tokens without filler. Then it
declares the version that it names, with the last pin, source and preference among its arguments,
and every key that it does not know is reported. -/
theorem ofPhrases_version_grammar (tokens : List Token) :
    let p : Phrase := ⟨.version, tokens⟩
    let significant := tokens.filter fun t => !t.isFiller
    ((∃ r, Recipe.ofPhrases [p] = .ok r) ↔
        ∃ first arguments, Spells VersionArgument first arguments significant) ∧
      ∀ first arguments, Spells VersionArgument first arguments significant →
        Extraction.ofPhrases [p] =
          ⟨.ok ⟨"", p.indent, [⟨first, lastSet Setting.pin? arguments,
              lastSet Setting.source? arguments, lastSet Setting.preferred? arguments⟩], [], ""⟩,
            (unknownKeys arguments).map fun key => (.version, key)⟩ := by
  refine ⟨Recipe.exists_ofPhrases_iff_spells Entry.form_iff_versionArgument, ?_⟩
  intro first arguments hs
  have hr := Extraction.ofPhrases_of_spells Entry.form_iff_versionArgument hs
  simp only [Declaration.ofSettings_version, List.filterMap_filterMap] at hr
  exact hr

/-- Two pins, a key with mismatched brackets and a key by itself, with filler in between and a token
behind the call. -/
theorem ofPhrases_version_grammar_repeated :
    let tokens : List Token :=
      [⟨.newline, "\n"⟩, ⟨.whitespace, " "⟩, ⟨.identifier, "version"⟩, openParenthesis,
        ⟨.string, "'1'"⟩, comma, ⟨.identifier, "md5"⟩, assignment, ⟨.string, "'a'"⟩, comma,
        ⟨.comment, "#"⟩, ⟨.newline, "\n"⟩, ⟨.identifier, "zip"⟩, assignment, openParenthesis, comma,
        ⟨.delimiter, "]"⟩, comma, ⟨.identifier, "sha1"⟩, assignment, ⟨.string, "'b'"⟩, comma,
        ⟨.identifier, "flag"⟩, comma, closeParenthesis, ⟨.number, "0"⟩]
    let arguments : List (Entry .version × List Token) :=
      [(.setting (.pin ⟨⟨.identifier, "md5"⟩, ⟨.string, "'a'"⟩⟩),
          [⟨.identifier, "md5"⟩, assignment, ⟨.string, "'a'"⟩]),
        (.unknown ⟨.identifier, "zip"⟩,
          [⟨.identifier, "zip"⟩, assignment, openParenthesis, comma, ⟨.delimiter, "]"⟩]),
        (.setting (.pin ⟨⟨.identifier, "sha1"⟩, ⟨.string, "'b'"⟩⟩),
          [⟨.identifier, "sha1"⟩, assignment, ⟨.string, "'b'"⟩]),
        (.unknown ⟨.identifier, "flag"⟩, [⟨.identifier, "flag"⟩])]
    Spells VersionArgument ⟨.string, "'1'"⟩ arguments (tokens.filter fun t => !t.isFiller) ∧
      Extraction.ofPhrases [⟨.version, tokens⟩] =
        ⟨.ok ⟨"", " ", [⟨⟨.string, "'1'"⟩, some ⟨⟨.identifier, "sha1"⟩, ⟨.string, "'b'"⟩⟩, none,
            none⟩], [], ""⟩,
          [(.version, ⟨.identifier, "zip"⟩), (.version, ⟨.identifier, "flag"⟩)]⟩ := by
  intro tokens arguments
  have nested : IsValue 0 [openParenthesis, comma, ⟨.delimiter, "]"⟩] :=
    balanced_iff_isValue.1 (.opener rfl (.other rfl rfl nofun (.closer rfl .nil)))
  have hs : Spells VersionArgument ⟨.string, "'1'"⟩ arguments
      (tokens.filter fun t => !t.isFiller) := by
    refine ⟨rfl, ?_, ⟨.identifier, "version"⟩, [comma], [⟨.number, "0"⟩], .present, rfl⟩
    simp only [arguments, List.forall_mem_cons]
    exact ⟨.pin rfl (by decide) rfl, .unknown rfl (by decide) (.assigned nested),
      .pin rfl (by decide) rfl, .unknown rfl (by decide) .alone, nofun⟩
  have hi : Phrase.indent ⟨.version, tokens⟩ = " " := by cbv
  refine ⟨hs, ?_⟩
  rw [(ofPhrases_version_grammar tokens).2 _ _ hs, hi]
  rfl

/-- A `depends_on` call is read exactly if the grammar derives its tokens without filler. Then it
declares the dependency that it names, with the last types and the last condition among its
arguments, and every key that it does not know is reported. -/
theorem ofPhrases_dependsOn_grammar (tokens : List Token) :
    let p : Phrase := ⟨.dependsOn, tokens⟩
    let significant := tokens.filter fun t => !t.isFiller
    ((∃ r, Recipe.ofPhrases [p] = .ok r) ↔
        ∃ first arguments, Spells DependencyArgument first arguments significant) ∧
      ∀ first arguments, Spells DependencyArgument first arguments significant →
        Extraction.ofPhrases [p] =
          ⟨.ok ⟨"", p.indent, [], [⟨first, (lastSet Setting.types? arguments).getD [],
              lastSet Setting.condition? arguments⟩], ""⟩,
            (unknownKeys arguments).map fun key => (.dependsOn, key)⟩ := by
  refine ⟨Recipe.exists_ofPhrases_iff_spells Entry.form_iff_dependencyArgument, ?_⟩
  intro first arguments hs
  have hr := Extraction.ofPhrases_of_spells Entry.form_iff_dependencyArgument hs
  simp only [Declaration.ofSettings_dependsOn, List.filterMap_filterMap] at hr
  exact hr

/-- A list of types and a single one behind it, with a key by itself, a key with an empty value and
a comma at the end of either list. -/
theorem ofPhrases_dependsOn_grammar_repeated :
    let tokens : List Token :=
      [⟨.identifier, "depends_on"⟩, openParenthesis, ⟨.string, "'x'"⟩, comma,
        ⟨.identifier, "type"⟩, assignment, openParenthesis, ⟨.string, "'a'"⟩, comma,
        ⟨.whitespace, " "⟩, ⟨.string, "'b'"⟩, comma, ⟨.string, "'c'"⟩, comma, closeParenthesis,
        comma, ⟨.identifier, "flag"⟩, comma, ⟨.identifier, "type"⟩, assignment, ⟨.string, "'d'"⟩,
        comma, ⟨.identifier, "none"⟩, assignment, comma, closeParenthesis]
    let values : List Token := [⟨.string, "'a'"⟩, ⟨.string, "'b'"⟩, ⟨.string, "'c'"⟩]
    let arguments : List (Entry .dependsOn × List Token) :=
      [(.setting (.types values),
          [⟨.identifier, "type"⟩, assignment, openParenthesis, ⟨.string, "'a'"⟩, comma,
            ⟨.string, "'b'"⟩, comma, ⟨.string, "'c'"⟩, comma, closeParenthesis]),
        (.unknown ⟨.identifier, "flag"⟩, [⟨.identifier, "flag"⟩]),
        (.setting (.types [⟨.string, "'d'"⟩]),
          [⟨.identifier, "type"⟩, assignment, ⟨.string, "'d'"⟩]),
        (.unknown ⟨.identifier, "none"⟩, [⟨.identifier, "none"⟩, assignment])]
    Spells DependencyArgument ⟨.string, "'x'"⟩ arguments (tokens.filter fun t => !t.isFiller) ∧
      Extraction.ofPhrases [⟨.dependsOn, tokens⟩] =
        ⟨.ok ⟨"", "", [], [⟨⟨.string, "'x'"⟩, [⟨.string, "'d'"⟩], none⟩], ""⟩,
          [(.dependsOn, ⟨.identifier, "flag"⟩), (.dependsOn, ⟨.identifier, "none"⟩)]⟩ := by
  intro tokens values arguments
  have listed := @TypesForm.list ⟨.string, "'a'"⟩ [⟨.string, "'b'"⟩, ⟨.string, "'c'"⟩] [comma]
    (by decide) (by decide) .present
  have hs : Spells DependencyArgument ⟨.string, "'x'"⟩ arguments
      (tokens.filter fun t => !t.isFiller) := by
    refine ⟨rfl, ?_, ⟨.identifier, "depends_on"⟩, [comma], [], .present, rfl⟩
    simp only [arguments, List.forall_mem_cons]
    exact ⟨.types rfl rfl listed, .unknown rfl (by decide) .alone, .types rfl rfl (.single rfl),
      .unknown rfl (by decide) (.assigned (balanced_iff_isValue.1 .nil)), nofun⟩
  have hi : Phrase.indent ⟨.dependsOn, tokens⟩ = "" := by cbv
  refine ⟨hs, ?_⟩
  rw [(ofPhrases_dependsOn_grammar tokens).2 _ _ hs, hi]
  rfl

end PackageRecipe
