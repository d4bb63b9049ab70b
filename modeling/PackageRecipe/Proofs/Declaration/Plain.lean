import PackageRecipe.Declaration.Requirement
import PackageRecipe.Proofs.Declaration.Rendering
import PackageRecipe.Proofs.Token.Quoting

/-!
Declarations as their author thinks of them: names, keys and plain strings, without tokens. Each is
written between double quotation marks, and what is read declares it again: the strings are found
between their marks, and a dependency's name and constraint at either side of the `@`.
-/
namespace PackageRecipe

open Call

structure PlainVersion where
  name : String
  /-- Key and value. -/
  pin : Option (String × String)
  /-- Key and value. -/
  source : Option (String × String)
  preferred : Option Bool

structure PlainDependency where
  name : String
  /-- The constraint without its `@`. -/
  constraint : Option String
  types : List String
  condition : Option String

inductive PlainDeclaration where
  | version (v : PlainVersion)
  | dependency (d : PlainDependency)

def booleanText (b : Bool) : String := if b then "True" else "False"

/-- One type stands alone, more stand in parentheses, and none need no argument. -/
def plainTypesTexts : List String → List (String × String)
  | [] => []
  | [s] => [("type", quoted s)]
  | ss => [("type", "(" ++ ", ".intercalate (ss.map quoted) ++ ")")]

namespace PlainVersion

def text (m : PlainVersion) : String :=
  callText "version" (quoted m.name)
    ((m.pin.toList ++ m.source.toList).map (fun kv => (kv.1, quoted kv.2)) ++
      m.preferred.toList.map fun b => ("preferred", booleanText b))

/-- The strings are plain, and the keys are keys of their slots. -/
structure Valid (m : PlainVersion) : Prop where
  name : IsPlain m.name
  pin : ∀ kv ∈ m.pin, kv.1 ∈ pinKeys ∧ IsPlain kv.2
  source : ∀ kv ∈ m.source, kv.1 ∈ sourceKeys ∧ IsPlain kv.2

end PlainVersion

namespace PlainDependency

/-- Name and constraint as they stand in one string. -/
def spec (m : PlainDependency) : String := m.name ++ (m.constraint.map ("@" ++ ·)).getD ""

def text (m : PlainDependency) : String :=
  callText "depends_on" (quoted m.spec)
    (plainTypesTexts m.types ++ m.condition.toList.map fun s => ("when", quoted s))

/-- The strings are plain, and name and constraint hold no `@`. -/
structure Valid (m : PlainDependency) : Prop where
  name : IsPlain m.name ∧ '@' ∉ m.name.toList
  constraint : ∀ s ∈ m.constraint, IsPlain s ∧ '@' ∉ s.toList
  types : ∀ s ∈ m.types, IsPlain s
  condition : ∀ s ∈ m.condition, IsPlain s

end PlainDependency

namespace PlainDeclaration

def version? : PlainDeclaration → Option PlainVersion
  | version v => some v
  | dependency _ => none

def dependency? : PlainDeclaration → Option PlainDependency
  | version _ => none
  | dependency d => some d

def text : PlainDeclaration → String
  | version v => v.text
  | dependency d => d.text

def Valid : PlainDeclaration → Prop
  | version v => v.Valid
  | dependency d => d.Valid

/-- The types of a dependency; a version has none. -/
def types : PlainDeclaration → List String
  | version _ => []
  | dependency d => d.types

end PlainDeclaration

/-- What is read says what the plain version says: the same keys, the same strings between the
marks, and the same preference. -/
structure Version.Declares (v : Version) (m : PlainVersion) : Prop where
  name : v.name.contents = .ok m.name
  pin : v.pin.map (fun a => (a.key.text, a.value.contents)) = m.pin.map fun kv => (kv.1, .ok kv.2)
  source : v.source.map (fun a => (a.key.text, a.value.contents)) =
    m.source.map fun kv => (kv.1, .ok kv.2)
  preferred : v.preferred.map (fun t => decide (t.text = "True")) = m.preferred

/-- What is read says what the plain dependency says: the same package under the same constraint,
and the same strings between the marks. -/
structure Dependency.Declares (d : Dependency) (m : PlainDependency) : Prop where
  requirement : d.requirement = .ok ⟨m.name, m.constraint.map ("@" ++ ·)⟩
  types : d.types.map Token.contents = m.types.map .ok
  condition : d.condition.map Token.contents = m.condition.map .ok

theorem IsPlain.isLiteral {s : String} (h : IsPlain s) : (Token.quoting s).IsLiteral :=
  ⟨rfl, Token.ofSource_quoted h.shortContents⟩

theorem IsPlain.contents {s : String} (h : IsPlain s) : (Token.quoting s).contents = .ok s :=
  Token.contents_quoting h.shortContents

theorem IsPlain.append {s t : String} (hs : IsPlain s) (ht : IsPlain t) : IsPlain (s ++ t) := by
  intro c hc
  rw [String.toList_append] at hc
  exact (List.mem_append.1 hc).elim (hs c) (ht c)

namespace PlainVersion

variable {m : PlainVersion}

/-- The version in tokens. -/
def toVersion (m : PlainVersion) : Version where
  name := .quoting m.name
  pin := m.pin.map fun kv => ⟨⟨.identifier, kv.1⟩, .quoting kv.2⟩
  source := m.source.map fun kv => ⟨⟨.identifier, kv.1⟩, .quoting kv.2⟩
  preferred := m.preferred.map fun b => ⟨.keyword, booleanText b⟩

theorem text_toVersion (m : PlainVersion) : m.toVersion.text = m.text := by
  obtain ⟨name, pin, source, preferred⟩ := m
  cases pin <;> cases source <;> cases preferred <;> rfl

theorem Valid.wellFormed (h : m.Valid) : m.toVersion.WellFormed Token.IsLiteral := by
  constructor
  · exact h.name.isLiteral
  · intro a ha
    obtain ⟨kv, hkv, rfl⟩ := Option.map_eq_some_iff.1 ha
    exact ⟨rfl, (h.pin kv hkv).1, (h.pin kv hkv).2.isLiteral⟩
  · intro a ha
    obtain ⟨kv, hkv, rfl⟩ := Option.map_eq_some_iff.1 ha
    exact ⟨rfl, (h.source kv hkv).1, (h.source kv hkv).2.isLiteral⟩
  · intro t ht
    obtain ⟨b, -, rfl⟩ := Option.map_eq_some_iff.1 ht
    cases b with
    | true => exact .inl rfl
    | false => exact .inr rfl

theorem Valid.declares (h : m.Valid) : m.toVersion.Declares m := by
  constructor
  · exact h.name.contents
  · rw [toVersion, Option.map_map]
    exact Option.map_congr fun kv hkv => by simp [(h.pin kv hkv).2.contents]
  · rw [toVersion, Option.map_map]
    exact Option.map_congr fun kv hkv => by simp [(h.source kv hkv).2.contents]
  · rw [toVersion, Option.map_map]
    obtain ⟨name, pin, source, _ | _ | _⟩ := m <;> rfl

end PlainVersion

namespace PlainDependency

variable {m : PlainDependency}

/-- The dependency in tokens. -/
def toDependency (m : PlainDependency) : Dependency where
  spec := .quoting m.spec
  types := m.types.map Token.quoting
  condition := m.condition.map Token.quoting

theorem text_toDependency (m : PlainDependency) : m.toDependency.text = m.text := by
  have hc : (m.toDependency.condition.toList.map fun t => ("when", t.text)) =
      m.condition.toList.map fun s => ("when", quoted s) := by
    rw [toDependency]
    cases m.condition <;> rfl
  have ht : typesTexts (m.types.map Token.quoting) = plainTypesTexts m.types := by
    match m.types with
    | [] | [_] => rfl
    | s :: t :: ss =>
      show [("type", "(" ++ ", ".intercalate (((s :: t :: ss).map Token.quoting).map Token.text) ++
        ")")] = _
      rw [List.map_map]
      rfl
  show callText "depends_on" (quoted m.spec) (typesTexts (m.types.map Token.quoting) ++ _) = _
  rw [ht, hc, text]

theorem Valid.isPlain_spec (h : m.Valid) : IsPlain m.spec := by
  refine h.name.1.append ?_
  cases hc : m.constraint with
  | none => exact nofun
  | some s =>
    have hs : IsPlain "@" := by simp [IsPlain]
    exact hs.append (h.constraint s hc).1

theorem Valid.isLiteral_types (h : m.Valid) : ∀ t ∈ m.toDependency.types, t.IsLiteral :=
  List.forall_mem_map.2 fun s hs => (h.types s hs).isLiteral

theorem Valid.isLiteral_condition (h : m.Valid) : ∀ t ∈ m.toDependency.condition, t.IsLiteral := by
  intro t ht
  obtain ⟨s, hs, rfl⟩ := Option.map_eq_some_iff.1 ht
  exact (h.condition s hs).isLiteral

theorem Valid.spelled (h : m.Valid) : (Declaration.dependency m.toDependency).Spelled :=
  Declaration.spelled_dependency h.isPlain_spec.isLiteral h.isLiteral_types h.isLiteral_condition

theorem Valid.wellFormed (h : m.Valid) (hl : m.types.length ≤ typeLimit) :
    m.toDependency.WellFormed Token.IsLiteral :=
  ⟨h.isPlain_spec.isLiteral, h.isLiteral_types, by rwa [toDependency, List.length_map],
    h.isLiteral_condition⟩

/-- Name and constraint are found at either side of the `@`. -/
theorem Valid.requirement (h : m.Valid) :
    m.toDependency.requirement = .ok ⟨m.name, m.constraint.map ("@" ++ ·)⟩ := by
  have hn : ∀ c ∈ m.name.toList, (decide (c ≠ '@')) = true := by
    intro c hc
    refine decide_eq_true ?_
    rintro rfl
    exact h.name.2 hc
  have hs : Requirement.ofChars? m.spec.toList = some ⟨m.name, m.constraint.map ("@" ++ ·)⟩ := by
    rw [spec, String.toList_append, Requirement.ofChars?]
    cases hc : m.constraint with
    | none =>
      have ht : ((Option.map ("@" ++ ·) (none : Option String)).getD "").toList = [] := rfl
      rw [ht, List.append_nil, List.takeWhile_eq_self_iff.2 hn, List.dropWhile_eq_nil_iff.2 hn,
        String.ofList_toList]
      rfl
    | some s =>
      have ht : ((Option.map ("@" ++ ·) (some s)).getD "").toList = '@' :: s.toList :=
        String.toList_append
      rw [ht, List.takeWhile_append_of_pos hn, List.dropWhile_append_of_pos hn,
        List.takeWhile_cons_of_neg (by decide), List.dropWhile_cons_of_neg (by decide),
        List.append_nil, String.ofList_toList]
      dsimp only
      rw [if_neg (h.constraint s hc).2, ← ht, String.ofList_toList]
      rfl
  have hc : m.toDependency.spec.contents = .ok m.spec := h.isPlain_spec.contents
  rw [Dependency.requirement, hc]
  dsimp only
  rw [hs]

theorem Valid.declares (h : m.Valid) : m.toDependency.Declares m := by
  constructor
  · exact h.requirement
  · rw [toDependency, List.map_map]
    exact List.map_congr_left fun s hs => (h.types s hs).contents
  · rw [toDependency, Option.map_map]
    exact Option.map_congr fun s hs => (h.condition s hs).contents

end PlainDependency

namespace PlainDeclaration

variable {m : PlainDeclaration}

/-- The declaration in tokens. -/
def toDeclaration : PlainDeclaration → Declaration
  | version v => .version v.toVersion
  | dependency d => .dependency d.toDependency

theorem text_toDeclaration (m : PlainDeclaration) : m.toDeclaration.text = m.text := by
  cases m with
  | version v => exact v.text_toVersion
  | dependency d => exact d.text_toDependency

theorem Valid.spelled (h : m.Valid) : m.toDeclaration.Spelled := by
  cases m with
  | version v =>
    have hw : (Declaration.version v.toVersion).WellFormed Token.IsLiteral :=
      PlainVersion.Valid.wellFormed h
    exact hw.spelled
  | dependency d => exact PlainDependency.Valid.spelled h

theorem Valid.wellFormed (h : m.Valid) (hl : m.types.length ≤ typeLimit) :
    m.toDeclaration.WellFormed Token.IsLiteral := by
  cases m with
  | version v => exact PlainVersion.Valid.wellFormed h
  | dependency d => exact PlainDependency.Valid.wellFormed h hl

/-- Too many types are the fault of the call that a declaration is written as. -/
theorem Valid.result_of_length_lt (h : m.Valid) (hl : typeLimit < m.types.length)
    {lead : List Token} (hlead : ∀ t ∈ lead, t.isFiller = true) :
    (DeclarationReading.ofTokens m.toDeclaration.call (lead ++ m.toDeclaration.tokens)).result =
      .error ⟨.dependsOn, .tooManyTypes⟩ := by
  cases m with
  | version v => simp [types] at hl
  | dependency d =>
    have hd : d.Valid := h
    have hlength : typeLimit < d.toDependency.types.length := by
      rwa [PlainDependency.toDependency, List.length_map]
    exact Declaration.result_of_length_lt hd.spelled hd.isLiteral_types hlength hlead

end PlainDeclaration
end PackageRecipe
