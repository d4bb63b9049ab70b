import PackageRecipe.Proofs.Phrase.Extent

/-!
How a class header goes on and how it fails. Outside brackets a line break, a colon or a closing
bracket ends it one way or another; every other token it passes. So a header that fails has passed
some tokens, and it fails at the token behind them or at the end.
-/
namespace PackageRecipe

/-- A class header passes these tokens, if `depth` brackets are open before them. -/
def InHeader (depth : Nat) : List Token → Prop
  | [] => True
  | t :: ts =>
    (depth = 0 → t.isBreak = false ∧ t.isDelimiter ":" = false ∧ t.isCloser = false) ∧
      InHeader (t.depthAfter depth) ts

/-- A class header with `depth` open brackets fails before these tokens. -/
inductive HeaderFails : (depth : Nat) → (rest : List Token) → PhraseFault → Prop where
  | ended : HeaderFails 0 [] .missingColon
  | unclosed {depth : Nat} : HeaderFails (depth + 1) [] .unclosedBrackets
  | lineBreak {t : Token} {ts : List Token} :
      t.isBreak = true → HeaderFails 0 (t :: ts) .missingColon
  | unmatched {t : Token} {ts : List Token} :
      t.isCloser = true → HeaderFails 0 (t :: ts) .unmatchedBracket

/-- As many closing parentheses as brackets are open. -/
def closing (depth : Nat) : List Token := List.replicate depth ⟨.delimiter, ")"⟩

/-- A closing bracket is neither a line break nor a colon. -/
theorem Token.not_isBreak_of_isCloser {t : Token} (h : t.isCloser = true) :
    t.isBreak = false ∧ t.isDelimiter ":" = false := by
  obtain (ht | ht) | ht : (t.isDelimiter ")" = true ∨ t.isDelimiter "]" = true) ∨
      t.isDelimiter "\x7d" = true := by simpa [isCloser] using h
  all_goals
    constructor
    · exact not_isBreak_of_isDelimiter ht
    · simp_all [isDelimiter, spells]

namespace Attempt

/-- What a header passes does not matter for what becomes of it, but for the brackets left open. -/
theorem header_append_of_inHeader {depth : Nat} {taken : List Token} (h : InHeader depth taken)
    (rest : List Token) :
    header depth (taken ++ rest) = (header (openAfter depth taken) rest).prepend taken := by
  induction taken generalizing depth with
  | nil => rfl
  | cons t ts ih =>
    obtain ⟨ht, hts⟩ := h
    have more : header depth (t :: (ts ++ rest)) =
        (header (t.depthAfter depth) (ts ++ rest)).cons t := by
      by_cases hd : depth = 0
      · obtain ⟨hb, hc, hk⟩ := ht hd
        simp [header, hb, hc, hk]
      · simp [header, hd]
    rw [List.cons_append, more, ih hts]
    rfl

/-- A header fails exactly at a place that it reaches. -/
theorem header_outcome_eq_error_iff {depth : Nat} {tokens : List Token} {fault : PhraseFault} :
    (header depth tokens).outcome = .error fault ↔
      ∃ taken rest, tokens = taken ++ rest ∧ InHeader depth taken ∧
        HeaderFails (openAfter depth taken) rest fault := by
  constructor
  · intro h
    induction tokens generalizing depth with
    | nil =>
      refine ⟨[], [], rfl, trivial, ?_⟩
      show HeaderFails depth [] fault
      cases depth with
      | zero =>
        obtain rfl := Except.error.inj h
        exact .ended
      | succ depth =>
        obtain rfl := Except.error.inj h
        exact .unclosed
    | cons t ts ih =>
      rw [header] at h
      split at h
      · rename_i hb
        obtain ⟨rfl, hb⟩ : depth = 0 ∧ t.isBreak = true := by simpa using hb
        obtain rfl := Except.error.inj h
        exact ⟨[], t :: ts, rfl, trivial, .lineBreak hb⟩
      · split at h
        · cases h
        · split at h
          · rename_i hk
            obtain ⟨rfl, hk⟩ : depth = 0 ∧ t.isCloser = true := by simpa using hk
            obtain rfl := Except.error.inj h
            exact ⟨[], t :: ts, rfl, trivial, .unmatched hk⟩
          · obtain ⟨taken, rest, rfl, hi, hf⟩ := ih h
            refine ⟨t :: taken, rest, rfl, ⟨?_, hi⟩, hf⟩
            rintro rfl
            simp_all
  · intro h
    obtain ⟨taken, rest, rfl, hi, hf⟩ := h
    rw [header_append_of_inHeader hi]
    show (header (openAfter depth taken) rest).outcome = _
    generalize openAfter depth taken = reached at hf ⊢
    cases hf with
    | ended => rfl
    | unclosed => rfl
    | lineBreak hb => simp [header, hb]
    | unmatched hk =>
      obtain ⟨hb, hc⟩ := Token.not_isBreak_of_isCloser hk
      simp [header, hb, hc, hk]

/-- A header that is only cut short is found once its brackets are closed. -/
theorem header_closing (depth : Nat) (rest : List Token) :
    (header depth (closing depth ++ ⟨.delimiter, ":"⟩ :: rest)).outcome = .ok () := by
  induction depth with
  | zero => rfl
  | succ depth ih => exact ih

end Attempt
end PackageRecipe
