import PackageRecipe.Proofs.Phrase.Sequence
import PackageRecipe.Recipe.Extraction

/-!
Phrases that consist of a call. They stand in the body only, and their first token that is not blank
is the name of the call.
-/
namespace PackageRecipe

/-- The name that a call begins with. -/
def Call.callee (call : Call) : Token := ⟨.identifier, call.name⟩

/-- The kind of the phrases that consist of a call. -/
def Call.kind : Call → Phrase.Kind
  | version => .version
  | dependsOn => .dependsOn

theorem statementKind_eq_kind_iff {t : Token} {call : Call} :
    statementKind t = call.kind ↔ t = call.callee := by
  obtain ⟨kind, text⟩ := t
  constructor
  · intro h
    unfold statementKind at h
    split_ifs at h with hk hh hv hd hl <;> cases call <;>
      simp_all [Call.kind, Call.callee, Call.name]
  · rintro ⟨⟩
    cases call <;> decide

namespace Phrase

theorem call?_eq_some_iff {p : Phrase} {call : Call} :
    p.call? = some call ↔ p.kind = call.kind := by
  cases call <;> cases hk : p.kind <;> simp [call?, hk, Call.kind]

theorem isText_eq_false_iff {p : Phrase} :
    p.isText = false ↔ ∃ call : Call, p.kind = call.kind := by
  simp only [← call?_eq_some_iff]
  cases h : p.call? with
  | none => simp [isText, h]
  | some call => simp [isText, h]

end Phrase

/-- A call is found in the body, behind its blanks, as a statement that begins with its name. -/
theorem Region.finds_call_iff {region next : Region} {call : Call} {tokens rest : List Token} :
    region.Finds ⟨call.kind, tokens⟩ next rest ↔
      region = .body ∧ next = .body ∧ ∃ lead arguments,
        tokens = lead ++ call.callee :: arguments ∧ (∀ t ∈ lead, t.isBlank = true) ∧
        Unbroken 0 (call.callee :: arguments) ∧
        EndsStatement (openAfter 0 (call.callee :: arguments)) rest := by
  constructor
  · intro h
    obtain ⟨lead, core, ht, hl, hc⟩ := h
    obtain rfl : tokens = lead ++ core := ht
    have hk : (⟨call.kind, lead ++ core⟩ : Phrase).kind = call.kind := rfl
    generalize (⟨call.kind, lead ++ core⟩ : Phrase).kind = kind at hc hk
    cases hc with
    | comments | imports | classHeader | remarks => cases call <;> cases hk
    | statement hb _ hu he =>
      obtain rfl := statementKind_eq_kind_iff.1 hk
      exact ⟨rfl, rfl, lead, _, rfl, hl, hu, he⟩
  · intro h
    obtain ⟨rfl, rfl, lead, arguments, rfl, hl, hu, he⟩ := h
    refine ⟨lead, _, rfl, hl, ?_⟩
    have hk : statementKind call.callee = call.kind := statementKind_eq_kind_iff.2 rfl
    show Region.Takes .body call.kind _ .body _
    rw [← hk]
    exact .statement rfl rfl hu he

end PackageRecipe
