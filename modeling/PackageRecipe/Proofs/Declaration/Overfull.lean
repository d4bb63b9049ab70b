import PackageRecipe.Proofs.Call.Overfull
import PackageRecipe.Proofs.Declaration.Sound
import PackageRecipe.Proofs.Recipe.Extraction

/-!
When a dependency is said to have too many types. The call is whole up to a list that names as many
types as a list may, and a comma follows the last of them that does not end the list. What follows
that comma is not looked at, so the fault does not tell a further type from a call that stops there;
behind a type before the last, a call that stops at the comma is said to lack a string.
-/
namespace PackageRecipe

open Call

namespace Call

/-- A `depends_on` call up to a list of types, the comma behind the last of them, and what follows
it. The first token stands for the name that is called, whatever it is. -/
inductive ReachesTypes (values rest : List Token) : List Token → Prop where
  | mk {callee first key : Token} {arguments : List (Entry .dependsOn × List Token)}
      {types : List Token} :
      isString first = true → (∀ a ∈ arguments, DependencyArgument a.1 a.2) → isKey key = true →
      key.text = "type" → TypesBegin rest values types →
      ReachesTypes values rest
        (callee :: openParenthesis :: first :: arguments.flatMap (fun a => comma :: a.2) ++
          comma :: key :: assignment :: types)

theorem opening_eq_ok_iff {tokens rest : List Token} {first : Token} :
    opening tokens = .ok (first, rest) ↔ isString first = true ∧ ∃ callee,
      tokens.filter (fun t => !t.isFiller) = callee :: openParenthesis :: first :: rest := by
  constructor
  · exact opening_sound
  · rintro ⟨hs, callee, ht⟩
    rw [opening, ht, List.tail_cons]
    dsimp only
    rw [take_cons (by decide), ok_bind]
    exact takeString_cons hs rest

theorem opening_ne_tooManyTypes {tokens : List Token} :
    opening tokens ≠ .error .tooManyTypes := by
  intro h
  obtain ho | ⟨found, -, hs⟩ := bind_eq_error.1 h
  · exact take_ne_tooManyTypes ho
  · exact take_ne_tooManyTypes hs

end Call

namespace DeclarationReading

variable {call : Call} {tokens : List Token}

/-- The error of a call is the fault of its opening or of its arguments. -/
theorem result_eq_error_iff {e : CallError} :
    (ofTokens call tokens).result = .error e ↔ e.call = call ∧
      (opening tokens = .error e.fault ∨ ∃ first rest, opening tokens = .ok (first, rest) ∧
        (Arguments.read call rest).outcome = .error e.fault) := by
  obtain ⟨call', fault⟩ := e
  cases ho : opening tokens with
  | error other =>
    rw [ofTokens_of_opening_error ho]
    simp [eq_comm]
  | ok found =>
    obtain ⟨first, rest⟩ := found
    rw [ofTokens_of_opening ho]
    cases hr : (Arguments.read call rest).outcome with
    | error other => simp [Except.map, Except.mapError, eq_comm, hr]
    | ok after => simp [Except.map, Except.mapError, hr]

/-- A call up to a list of types that is faulty has the fault of the list. -/
theorem result_of_reachesTypes {values rest : List Token} {fault : CallFault}
    (h : ReachesTypes values rest (tokens.filter fun t => !t.isFiller))
    (hf : ∀ {types}, TypesBegin rest values types → takeTypes types = .error fault) :
    (ofTokens .dependsOn tokens).result = .error ⟨.dependsOn, fault⟩ := by
  generalize hsignificant : (tokens.filter fun t => !t.isFiller) = significant at h
  obtain @⟨callee, first, key, arguments, types, hs, ha, hk, ht, htypes⟩ := h
  have ho : opening tokens = .ok (first, arguments.flatMap (fun a => comma :: a.2) ++
      comma :: key :: assignment :: types) := opening_eq_ok_iff.2 ⟨hs, callee, hsignificant⟩
  have hes : EntriesForm (arguments.map Prod.fst) (arguments.flatMap fun a => comma :: a.2) :=
    entriesForm_iff.2 ⟨arguments, rfl, rfl, fun a hm =>
      Entry.form_iff_dependencyArgument.2 (ha a hm)⟩
  have hcomma : afterArgument (comma :: key :: assignment :: types) =
      .ok (.another (key :: assignment :: types)) := by
    refine afterArgument_comma ?_
    rintro _ ⟨⟩
    exact not_isDelimiter_of_isKey hk _
  refine result_eq_error_iff.2 ⟨rfl, .inr ⟨first, _, ho, ?_⟩⟩
  rw [Arguments.read_entries hes (by rintro _ ⟨⟩; exact .inr rfl),
    Arguments.read_of_error hcomma (Entry.read_of_takeTypes_error hk ht (hf htypes))]

/-- Too many types are named in a list of a `depends_on` call that is full. -/
theorem reachesTypes_of_tooManyTypes
    (h : (ofTokens call tokens).result = .error ⟨call, .tooManyTypes⟩) :
    call = .dependsOn ∧ ∃ values rest : List Token, values.length = typeLimit ∧
      ReachesTypes values rest (tokens.filter fun t => !t.isFiller) ∧
      ∀ t ∈ rest.head?, t.isDelimiter ")" = false := by
  obtain ⟨-, ho | ⟨first, rest, ho, hr⟩⟩ := result_eq_error_iff.1 h
  · exact absurd ho opening_ne_tooManyTypes
  obtain ⟨es, us, others, hes, rfl, he⟩ := Arguments.read_tooManyTypes hr
  obtain ⟨rfl, key, types, hk, ht, hv, rfl⟩ := Entry.read_tooManyTypes he
  obtain ⟨values, rest, hl, hb, hend⟩ := takeTypes_eq_tooManyTypes_iff.1 hv
  obtain ⟨arguments, rfl, rfl, ha⟩ := entriesForm_iff.1 hes
  obtain ⟨hs, callee, hsignificant⟩ := opening_eq_ok_iff.1 ho
  refine ⟨rfl, values, rest, hl, ?_, hend⟩
  rw [hsignificant]
  exact .mk hs (fun a hm => Entry.form_iff_dependencyArgument.1 (ha a hm)) hk ht hb

end DeclarationReading

/-- The error of several calls is the error of one of them. -/
theorem DeclarationsReading.exists_of_error {calls : List (Call × List Token)} {e : CallError}
    (h : (ofCalls calls).result = .error e) :
    ∃ c ∈ calls, (DeclarationReading.ofTokens c.1 c.2).result = .error e := by
  induction calls with
  | nil => cases h
  | cons c calls ih =>
    obtain ⟨call, tokens⟩ := c
    cases hr : (DeclarationReading.ofTokens call tokens).result with
    | error other =>
      simp only [ofCalls, hr] at h
      obtain rfl := Except.error.inj h
      exact ⟨_, List.mem_cons_self, hr⟩
    | ok d =>
      simp only [ofCalls, hr] at h
      cases ho : (ofCalls calls).result with
      | error other =>
        rw [ho] at h
        obtain rfl : other = e := Except.error.inj h
        obtain ⟨c, hc, he⟩ := ih ho
        exact ⟨c, List.mem_cons_of_mem _ hc, he⟩
      | ok ds =>
        rw [ho] at h
        cases h

/-- The tokens name three types in a list, and these stand behind the comma after the third. -/
def NamesThreeTypes (tokens rest : List Token) : Prop :=
  ∃ a b c, ReachesTypes [a, b, c] rest (tokens.filter fun t => !t.isFiller)

/-- Only a `depends_on` call is said to have too many types. One has if it names three in a list and
a comma stands behind the third, in two cases: a token follows that does not end the list, or none
does. Behind the first or the second type, a call that stops at the comma is said to lack a
string. -/
theorem ofPhrases_tooManyTypes (phrases : List Phrase) :
    (∀ call : Call, Recipe.ofPhrases phrases = .error ⟨call, .tooManyTypes⟩ →
      call = .dependsOn ∧ ∃ p ∈ phrases, p.kind = .dependsOn ∧
        Recipe.ofPhrases [p] = .error ⟨.dependsOn, .tooManyTypes⟩) ∧
    ∀ p ∈ phrases, p.kind = .dependsOn →
      (Recipe.ofPhrases [p] = .error ⟨.dependsOn, .tooManyTypes⟩ ↔
        (∃ d rest, NamesThreeTypes p.tokens (d :: rest) ∧ d.isDelimiter ")" = false) ∨
          NamesThreeTypes p.tokens []) ∧
      ∀ values : List Token, values.length < 3 →
        ReachesTypes values [] (p.tokens.filter fun t => !t.isFiller) →
          Recipe.ofPhrases [p] = .error ⟨.dependsOn, .expected .string none⟩ := by
  have single : ∀ {p : Phrase} (fault : CallFault), p.kind = .dependsOn →
      (Recipe.ofPhrases [p] = .error ⟨.dependsOn, fault⟩ ↔
        (DeclarationReading.ofTokens .dependsOn p.tokens).result = .error ⟨.dependsOn, fault⟩) := by
    rintro ⟨_, tokens⟩ fault rfl
    exact @Recipe.ofPhrases_singleton_eq_error_iff .dependsOn tokens _
  refine ⟨fun call h => ?_, fun p _ hk => ⟨?_, fun values hl h => ?_⟩⟩
  · obtain ⟨⟨call', tokens⟩, hm, hr⟩ :=
      DeclarationsReading.exists_of_error (Recipe.ofPhrases_eq_error_iff.1 h)
    obtain rfl : call = call' := (DeclarationReading.result_eq_error_iff.1 hr).1
    obtain ⟨rfl, -⟩ := DeclarationReading.reachesTypes_of_tooManyTypes hr
    obtain ⟨p, hp, hc⟩ := List.mem_filterMap.1 hm
    obtain ⟨call, hcall, he⟩ := Option.map_eq_some_iff.1 hc
    cases he
    have hkind := Phrase.call?_eq_some_iff.1 hcall
    exact ⟨rfl, p, hp, hkind, (single _ hkind).2 hr⟩
  · rw [single _ hk]
    constructor
    · intro h
      obtain ⟨-, values, rest, hl, hr, hend⟩ := DeclarationReading.reachesTypes_of_tooManyTypes h
      obtain ⟨a, b, c, rfl⟩ := List.length_eq_three.1 hl
      cases rest with
      | nil => exact .inr ⟨a, b, c, hr⟩
      | cons d rest => exact .inl ⟨d, rest, ⟨a, b, c, hr⟩, hend d rfl⟩
    · rintro (⟨d, rest, ⟨a, b, c, hr⟩, hd⟩ | ⟨a, b, c, hr⟩)
      · exact DeclarationReading.result_of_reachesTypes hr fun htypes =>
          takeTypes_eq_tooManyTypes_iff.2 ⟨_, _, rfl, htypes, by rintro _ ⟨⟩; exact hd⟩
      · exact DeclarationReading.result_of_reachesTypes hr fun htypes =>
          takeTypes_eq_tooManyTypes_iff.2 ⟨_, _, rfl, htypes, nofun⟩
  · exact (single _ hk).2 (DeclarationReading.result_of_reachesTypes h fun htypes =>
      takeTypes_of_typesBegin_nil htypes hl)

/-- A fourth type behind filler, in the list of a second argument. -/
theorem ofPhrases_tooManyTypes_fourth :
    let a : Token := ⟨.string, "'a'"⟩
    let tokens : List Token := [⟨.identifier, "depends_on"⟩, openParenthesis, a, comma,
      ⟨.identifier, "flag"⟩, comma, ⟨.newline, "\n"⟩, ⟨.identifier, "type"⟩, assignment,
      openParenthesis, a, comma, a, comma, ⟨.whitespace, " "⟩, a, comma, ⟨.comment, "#"⟩,
      ⟨.newline, "\n"⟩, a, closeParenthesis]
    Recipe.ofPhrases [⟨.dependsOn, tokens⟩] = .error ⟨.dependsOn, .tooManyTypes⟩ := by
  intro a tokens
  have flag : DependencyArgument (.unknown ⟨.identifier, "flag"⟩) [⟨.identifier, "flag"⟩] :=
    .unknown rfl (by decide) .alone
  have types : TypesBegin [a, closeParenthesis] [a, a, a] [openParenthesis, a, comma, a, comma, a,
      comma, a, closeParenthesis] := .mk (by decide)
  have hr : ReachesTypes [a, a, a] [a, closeParenthesis] (tokens.filter fun t => !t.isFiller) :=
    @ReachesTypes.mk _ _ ⟨.identifier, "depends_on"⟩ a ⟨.identifier, "type"⟩
      [(.unknown ⟨.identifier, "flag"⟩, [⟨.identifier, "flag"⟩])] _ rfl
      (List.forall_mem_singleton.2 flag) rfl rfl types
  exact ((ofPhrases_tooManyTypes [⟨.dependsOn, tokens⟩]).2 _ List.mem_cons_self rfl).1.2
    (.inl ⟨a, _, ⟨a, a, a, hr⟩, rfl⟩)

/-- A statement that stops behind the comma after the third type names no fourth one, and is said to
have too many; behind the comma after the second it lacks a string. -/
theorem ofSource_tooManyTypes_unfinished :
    Recipe.ofSource "class A(B):\n    depends_on('a', type=('x', 'y', 'z'," =
        .error (.call ⟨.dependsOn, .tooManyTypes⟩) ∧
      Recipe.ofSource "class A(B):\n    depends_on('a', type=('x', 'y'," =
        .error (.call ⟨.dependsOn, .expected .string none⟩) := by
  constructor
  · cbv
  · cbv

end PackageRecipe
