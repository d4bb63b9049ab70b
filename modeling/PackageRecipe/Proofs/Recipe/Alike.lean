import PackageRecipe.Proofs.Call.Alike
import PackageRecipe.Proofs.Phrase.Alike
import PackageRecipe.Recipe.Extraction

/-!
Text that is no structure cannot change structure. Of two inputs whose tokens are alike, either both
make phrases and declarations of one outline, or both fail alike: what a string, a number, a
comment, a blank or an operator says is never looked at, be it a bracket, a comma or a key word.
-/
namespace PackageRecipe

open Call

/-- The same keys and the same preference, and values that are alike. -/
structure Version.Alike (v w : Version) : Prop where
  name : v.name.Alike w.name
  pin : Option.Rel Argument.Alike v.pin w.pin
  source : Option.Rel Argument.Alike v.source w.source
  preferred : v.preferred = w.preferred

structure Dependency.Alike (d e : Dependency) : Prop where
  spec : d.spec.Alike e.spec
  types : List.Forall₂ Token.Alike d.types e.types
  condition : Option.Rel Token.Alike d.condition e.condition

inductive Declaration.Alike : Declaration → Declaration → Prop where
  | version {v w : Version} : v.Alike w → Alike (.version v) (.version w)
  | dependency {d e : Dependency} : d.Alike e → Alike (.dependency d) (.dependency e)

/-- Faults of one shape in calls of one name. -/
structure CallError.Alike (e f : CallError) : Prop where
  call : e.call = f.call
  fault : e.fault.shape = f.fault.shape

section Settings

theorem Version.Alike.set {v w : Version} (hv : v.Alike w) {s r : Setting .version}
    (hs : s.Alike r) : (v.set s).Alike (w.set r) := by
  cases hs with
  | pin ha => exact { hv with pin := .some ha }
  | source ha => exact { hv with source := .some ha }
  | preferred => exact { hv with preferred := rfl }

theorem Dependency.Alike.set {d e : Dependency} (hd : d.Alike e) {s r : Setting .dependsOn}
    (hs : s.Alike r) : (d.set s).Alike (e.set r) := by
  cases hs with
  | types ht => exact { hd with types := ht }
  | condition ht => exact { hd with condition := .some ht }

theorem Declaration.alike_ofSettings {first other : Token} (hf : first.Alike other) {call : Call}
    {ss rs : List (Setting call)} (h : List.Forall₂ Setting.Alike ss rs) :
    (ofSettings first call ss).Alike (ofSettings other call rs) := by
  cases call with
  | version =>
    have hv : (⟨first, none, none, none⟩ : Version).Alike ⟨other, none, none, none⟩ :=
      ⟨hf, .none, .none, rfl⟩
    exact .version (List.rel_foldl (fun _ _ hv _ _ hs => hv.set hs) hv h)
  | dependsOn =>
    have hd : (⟨first, [], none⟩ : Dependency).Alike ⟨other, [], none⟩ := ⟨hf, .nil, .none⟩
    exact .dependency (List.rel_foldl (fun _ _ hd _ _ hs => hd.set hs) hd h)

end Settings

/-- Calls of one name whose tokens are alike. -/
structure Call.AlikeStatements (c d : Call × List Token) : Prop where
  call : c.1 = d.1
  tokens : List.Forall₂ Token.Alike c.2 d.2

/-- Calls that are alike declare what is alike and have the same unknown keys, or fail alike. -/
theorem DeclarationReading.alike_ofTokens {ts us : List Token}
    (h : List.Forall₂ Token.Alike ts us) (call : Call) :
    Outcomes CallError.Alike Declaration.Alike (ofTokens call ts).result
        (ofTokens call us).result ∧
      (ofTokens call ts).unknown = (ofTokens call us).unknown := by
  rw [ofTokens, ofTokens]
  obtain ⟨⟨first, rest⟩, ⟨other, left⟩, ha, hb, hf, hr⟩ | ⟨_, _, ha, hb, hs⟩ :=
    (alike_opening h).cases
  · rw [ha, hb]
    dsimp only
    have hargs := Arguments.alike_read call hr
    obtain ⟨_, _, ha, hb, -⟩ | ⟨_, _, ha, hb, hs⟩ := hargs.outcome.cases
    · rw [ha, hb]
      exact ⟨.ok (Declaration.alike_ofSettings hf hargs.settings), hargs.unknown⟩
    · rw [ha, hb]
      exact ⟨.error ⟨rfl, hs⟩, hargs.unknown⟩
  · rw [ha, hb]
    exact ⟨.error ⟨rfl, hs⟩, rfl⟩

theorem DeclarationsReading.alike_ofCalls {cs ds : List (Call × List Token)}
    (h : List.Forall₂ Call.AlikeStatements cs ds) :
    Outcomes CallError.Alike (List.Forall₂ Declaration.Alike) (ofCalls cs).result
        (ofCalls ds).result ∧
      (ofCalls cs).unknown = (ofCalls ds).unknown := by
  induction h with
  | nil => exact ⟨.ok .nil, rfl⟩
  | @cons c d cs ds hc _ ih =>
    obtain ⟨call, ts⟩ := c
    obtain ⟨other, us⟩ := d
    obtain ⟨rfl, ht⟩ : call = other ∧ List.Forall₂ Token.Alike ts us := ⟨hc.call, hc.tokens⟩
    obtain ⟨hr, hu⟩ := DeclarationReading.alike_ofTokens ht call
    rw [ofCalls, ofCalls]
    dsimp only
    rw [hu]
    obtain ⟨_, _, ha, hb, hd⟩ | ⟨_, _, ha, hb, he⟩ := hr.cases
    · rw [ha, hb]
      dsimp only
      rw [ih.2]
      exact ⟨ih.1.map fun _ _ hds => .cons hd hds, rfl⟩
    · rw [ha, hb]
      exact ⟨.error he, rfl⟩

theorem alike_callStatements {ps qs : List Phrase} (h : List.Forall₂ Phrase.Alike ps qs) :
    List.Forall₂ Call.AlikeStatements (callStatements ps) (callStatements qs) := by
  refine List.rel_filterMap ?_ h
  intro p q hp
  have hc : p.call? = q.call? := by rw [Phrase.call?, Phrase.call?, hp.kind]
  dsimp only
  rw [hc]
  cases q.call? with
  | none => exact .none
  | some call => exact .some ⟨rfl, hp.tokens⟩

/-- What there is of a recipe's declarations is alike. -/
structure Recipe.Alike (r s : Recipe) : Prop where
  versions : List.Forall₂ Version.Alike r.versions s.versions
  dependencies : List.Forall₂ Dependency.Alike r.dependencies s.dependencies

theorem Recipe.alike_ofDeclarations (ps qs : List Phrase) {ds es : List Declaration}
    (h : List.Forall₂ Declaration.Alike ds es) :
    (Recipe.ofDeclarations ps ds).Alike (Recipe.ofDeclarations qs es) := by
  constructor
  · refine List.rel_filterMap ?_ h
    intro d e hd
    cases hd with
    | version hv => exact .some hv
    | dependency hd => exact .none
  · refine List.rel_filterMap ?_ h
    intro d e hd
    cases hd with
    | version hv => exact .none
    | dependency hd => exact .some hd

/-- Phrases that are alike make recipes that are alike and have the same unknown keys, or fail
alike. -/
theorem Extraction.alike_ofPhrases {ps qs : List Phrase} (h : List.Forall₂ Phrase.Alike ps qs) :
    Outcomes CallError.Alike Recipe.Alike (ofPhrases ps).recipe (ofPhrases qs).recipe ∧
      (ofPhrases ps).unknown = (ofPhrases qs).unknown := by
  obtain ⟨hr, hu⟩ := DeclarationsReading.alike_ofCalls (alike_callStatements h)
  exact ⟨hr.map fun _ _ hd => Recipe.alike_ofDeclarations ps qs hd, hu⟩

/-- Kind and length of each phrase, or the fault without the text it shows and how many tokens
remain. -/
def phrasesOutline :
    Except PhraseError (List Phrase) → Except (PhraseFault × Nat) (List (Phrase.Kind × Nat))
  | .ok phrases => .ok (phrases.map fun p => (p.kind, p.tokens.length))
  | .error e => .error (e.fault.shape, e.remaining.length)

/-- The keys of a version's pin and source, and its preference. -/
def Version.outline (v : Version) : Option Token × Option Token × Option Token :=
  (v.pin.map Argument.key, v.source.map Argument.key, v.preferred)

/-- How many types a dependency has, and whether it has a condition. -/
def Dependency.outline (d : Dependency) : Nat × Bool := (d.types.length, d.condition.isSome)

/-- The outlines of all declarations, or the fault without the text it shows and its call, and in
either case the unknown keys. -/
def Extraction.outline (e : Extraction) : Except (Call × CallFault)
    (List (Option Token × Option Token × Option Token) × List (Nat × Bool)) ×
      List (Call × Token) :=
  (match e.recipe with
    | .ok r => .ok (r.versions.map Version.outline, r.dependencies.map Dependency.outline)
    | .error e => .error (e.call, e.fault.shape),
    e.unknown)

theorem map_key_eq {a b : Option Argument} (h : Option.Rel Argument.Alike a b) :
    a.map Argument.key = b.map Argument.key := by
  cases h with
  | some h => exact congrArg some h.key
  | none => rfl

theorem Version.Alike.outline_eq {v w : Version} (h : v.Alike w) : v.outline = w.outline := by
  rw [outline, outline, map_key_eq h.pin, map_key_eq h.source, h.preferred]

theorem isSome_eq {a b : Option Token} (h : Option.Rel Token.Alike a b) :
    a.isSome = b.isSome := by
  cases h with
  | some => rfl
  | none => rfl

theorem Dependency.Alike.outline_eq {d e : Dependency} (h : d.Alike e) :
    d.outline = e.outline := by
  rw [outline, outline, h.types.length_eq, isSome_eq h.condition]

theorem map_eq_of_forall₂ {α β : Type} {R : α → α → Prop} {f : α → β} {as bs : List α}
    (hf : ∀ a b, R a b → f a = f b) (h : List.Forall₂ R as bs) : as.map f = bs.map f := by
  rw [← List.forall₂_eq_eq_eq]
  exact List.rel_map (fun _ _ hab => hf _ _ hab) h

/-- Tokens that are alike fall into phrases of one outline, and phrases of one kind with tokens that
are alike make declarations of one outline. -/
theorem outline_eq_of_alike :
    (∀ ts us : List Token, List.Forall₂ Token.Alike ts us →
      phrasesOutline (Phrase.ofTokens ts) = phrasesOutline (Phrase.ofTokens us)) ∧
    ∀ ps qs : List Phrase, List.Forall₂ Phrase.Alike ps qs →
      (Extraction.ofPhrases ps).outline = (Extraction.ofPhrases qs).outline := by
  constructor
  · intro ts us h
    obtain ⟨ps, qs, ha, hb, hps⟩ | ⟨e, f, ha, hb, he⟩ := (Phrase.alike_ofTokensIn h .preamble).cases
    · have hm := map_eq_of_forall₂ (f := fun p => (p.kind, p.tokens.length))
        (fun p q hp => by rw [hp.kind, hp.tokens.length_eq]) hps
      rw [Phrase.ofTokens, Phrase.ofTokens, ha, hb]
      exact congrArg Except.ok hm
    · rw [Phrase.ofTokens, Phrase.ofTokens, ha, hb, phrasesOutline, phrasesOutline, he.fault,
        he.remaining.length_eq]
  · intro ps qs h
    obtain ⟨hr, hu⟩ := Extraction.alike_ofPhrases h
    rw [Extraction.outline, Extraction.outline, hu]
    obtain ⟨r, s, ha, hb, hrs⟩ | ⟨e, f, ha, hb, he⟩ := hr.cases
    · have hv := map_eq_of_forall₂ (fun _ _ hv => hv.outline_eq) hrs.versions
      have hd := map_eq_of_forall₂ (fun _ _ hd => hd.outline_eq) hrs.dependencies
      rw [ha, hb]
      dsimp only
      rw [hv, hd]
    · rw [ha, hb]
      dsimp only
      rw [he.call, he.fault]

/-- A comment and a string that look like brackets and like the end of the call. -/
theorem outline_eq_of_alike_brackets :
    let call (remark value : String) : List Token := [⟨.identifier, "version"⟩, ⟨.delimiter, "("⟩,
      ⟨.comment, remark⟩, ⟨.newline, "\n"⟩, ⟨.string, "'1'"⟩, ⟨.delimiter, ","⟩,
      ⟨.identifier, "md5"⟩, ⟨.delimiter, "="⟩, ⟨.string, value⟩, ⟨.delimiter, ")"⟩]
    let header : List Token := [⟨.keyword, "class"⟩, ⟨.delimiter, ":"⟩]
    phrasesOutline (Phrase.ofTokens (header ++ call "#" "'a'")) =
        phrasesOutline (Phrase.ofTokens (header ++ call "# ((" "'),class('")) ∧
      (Extraction.ofPhrases [⟨.version, call "#" "'a'"⟩]).outline =
        (Extraction.ofPhrases [⟨.version, call "# ((" "'),class('"⟩]).outline := by
  intro call header
  have hcall : List.Forall₂ Token.Alike (call "#" "'a'") (call "# ((" "'),class('") := by decide
  have hheader : List.Forall₂ Token.Alike header header := by decide
  exact ⟨outline_eq_of_alike.1 _ _ (List.rel_append hheader hcall),
    outline_eq_of_alike.2 _ _ (.cons ⟨rfl, hcall⟩ .nil)⟩

end PackageRecipe
