import Mathlib.Data.List.Forall2
import PackageRecipe.Token.Basic

/-!
Tokens that a reader of structure cannot tell apart. Structure is the kind of a token and, for
names, reserved names and delimiters, its text; the texts of strings, numbers, comments, blanks and
operators may be anything, brackets and key words included.
-/
namespace PackageRecipe

/-- Tokens of this kind are told apart by their texts. -/
def Token.Kind.isStructural : Token.Kind → Bool
  | identifier | keyword | delimiter => true
  | number | string | whitespace | newline | comment | operator => false

/-- The tokens differ at most in a text that is no structure. -/
def Token.Alike (t u : Token) : Prop :=
  t.kind = u.kind ∧ (t.kind.isStructural = true → t.text = u.text)

instance (t u : Token) : Decidable (t.Alike u) := inferInstanceAs (Decidable (_ ∧ _))

namespace Token.Alike

variable {t u : Token}

theorem eq (h : t.Alike u) (hk : t.kind.isStructural = true) : t = u := by
  obtain ⟨kind, text⟩ := t
  obtain ⟨rfl, ht⟩ := h
  obtain rfl : text = u.text := ht hk
  rfl

theorem isBreak_eq (h : t.Alike u) : t.isBreak = u.isBreak := by rw [isBreak, isBreak, h.1]

theorem isComment_eq (h : t.Alike u) : t.isComment = u.isComment := by
  rw [isComment, isComment, h.1]

theorem isBlank_eq (h : t.Alike u) : t.isBlank = u.isBlank := by rw [isBlank, isBlank, h.1]

theorem isFiller_eq (h : t.Alike u) : t.isFiller = u.isFiller := by
  rw [isFiller, isFiller, h.isBlank_eq, h.isComment_eq]

theorem spells_eq (h : t.Alike u) {kind : Kind} (hk : kind.isStructural = true) (text : String) :
    t.spells kind text = u.spells kind text := by
  by_cases ht : t.kind = kind
  · rw [h.eq (by rwa [ht])]
  · have hu : u.kind ≠ kind := by rwa [← h.1]
    simp [spells, ht, hu]

theorem isDelimiter_eq (h : t.Alike u) (text : String) : t.isDelimiter text = u.isDelimiter text :=
  h.spells_eq rfl text

theorem isKeyword_eq (h : t.Alike u) (text : String) : t.isKeyword text = u.isKeyword text :=
  h.spells_eq rfl text

theorem isOpener_eq (h : t.Alike u) : t.isOpener = u.isOpener := by
  simp only [isOpener, h.isDelimiter_eq]

theorem isCloser_eq (h : t.Alike u) : t.isCloser = u.isCloser := by
  simp only [isCloser, h.isDelimiter_eq]

theorem depthAfter_eq (h : t.Alike u) (depth : Nat) : t.depthAfter depth = u.depthAfter depth := by
  rw [depthAfter, depthAfter, h.isOpener_eq, h.isCloser_eq]

end Token.Alike

/-- Results that agree on success or failure, and each in its own sense in what they hold. -/
inductive Outcomes {ε α β : Type} (E : ε → ε → Prop) (R : α → β → Prop) :
    Except ε α → Except ε β → Prop where
  | ok {a : α} {b : β} : R a b → Outcomes E R (.ok a) (.ok b)
  | error {e f : ε} : E e f → Outcomes E R (.error e) (.error f)

namespace Outcomes

variable {ε α β γ δ : Type} {E : ε → ε → Prop} {R : α → β → Prop} {S : γ → δ → Prop}
  {r : Except ε α} {s : Except ε β}

/-- Either both results are values or both are faults. -/
theorem cases (h : Outcomes E R r s) :
    (∃ a b, r = .ok a ∧ s = .ok b ∧ R a b) ∨ ∃ e f, r = .error e ∧ s = .error f ∧ E e f := by
  cases h with
  | ok h => exact .inl ⟨_, _, rfl, rfl, h⟩
  | error h => exact .inr ⟨_, _, rfl, rfl, h⟩

theorem eq_ok (h : Outcomes E R r s) {a : α} (hr : r = .ok a) : ∃ b, s = .ok b ∧ R a b := by
  subst hr
  cases h with
  | ok h => exact ⟨_, rfl, h⟩

theorem eq_error (h : Outcomes E R r s) {e : ε} (hr : r = .error e) :
    ∃ f, s = .error f ∧ E e f := by
  subst hr
  cases h with
  | error h => exact ⟨_, rfl, h⟩

/-- Steps that agree, one after the other, agree. -/
theorem bind {f : α → Except ε γ} {g : β → Except ε δ} (first : Outcomes E R r s)
    (second : ∀ a b, R a b → Outcomes E S (f a) (g b)) : Outcomes E S (r >>= f) (s >>= g) := by
  cases first with
  | ok h => exact second _ _ h
  | error h => exact .error h

theorem imp {T : α → β → Prop} (h : Outcomes E R r s) (hi : ∀ a b, R a b → T a b) :
    Outcomes E T r s := by
  cases h with
  | ok h => exact .ok (hi _ _ h)
  | error h => exact .error h

theorem map {f : α → γ} {g : β → δ} (h : Outcomes E R r s) (hf : ∀ a b, R a b → S (f a) (g b)) :
    Outcomes E S (r.map f) (s.map g) := by
  cases h with
  | ok h => exact .ok (hf _ _ h)
  | error h => exact .error h

end Outcomes
end PackageRecipe
