import PackageRecipe.Proofs.Phrase.Sequence
import PackageRecipe.Proofs.Token.Alike

/-!
Phrases of tokens that are alike. Every cut is made at the same place, so tokens that differ only in
texts without structure fall into phrases of the same kinds and lengths, or fail alike at the same
place.
-/
namespace PackageRecipe

variable {ts us : List Token} {t u : Token}

/-- The fault without the text that it shows. -/
def PhraseFault.shape : PhraseFault → PhraseFault
  | unexpectedStatement _ => unexpectedStatement ""
  | unclosedBrackets => unclosedBrackets
  | unmatchedBracket => unmatchedBracket
  | missingColon => missingColon

namespace Cut

/-- The same number of tokens is taken, and all tokens are alike. -/
structure Alike (cut other : Cut) : Prop where
  taken : List.Forall₂ Token.Alike cut.taken other.taken
  rest : List.Forall₂ Token.Alike cut.rest other.rest

theorem Alike.cons {cut other : Cut} (ht : t.Alike u) (h : cut.Alike other) :
    (cut.cons t).Alike (other.cons u) := ⟨.cons ht h.taken, h.rest⟩

theorem Alike.prepend {cut other : Cut} (hl : List.Forall₂ Token.Alike ts us)
    (h : cut.Alike other) : (cut.prepend ts).Alike (other.prepend us) :=
  ⟨List.rel_append hl h.taken, h.rest⟩

theorem alike_span {p : Token → Bool} (hp : ∀ {t u : Token}, t.Alike u → p t = p u)
    (h : List.Forall₂ Token.Alike ts us) : (span p ts).Alike (span p us) := by
  induction h with
  | nil => exact ⟨.nil, .nil⟩
  | @cons t u ts us ht h ih =>
    unfold span
    rw [List.takeWhile_cons, List.takeWhile_cons, List.dropWhile_cons, List.dropWhile_cons, hp ht]
    split
    · exact ⟨.cons ht ih.taken, ih.rest⟩
    · exact ⟨.nil, .cons ht h⟩

theorem alike_statement (h : List.Forall₂ Token.Alike ts us) (depth : Nat) :
    (statement depth ts).Alike (statement depth us) := by
  induction h generalizing depth with
  | nil => exact ⟨.nil, .nil⟩
  | @cons t u ts us ht h ih =>
    rw [statement, statement, ht.isBreak_eq, ht.depthAfter_eq]
    split
    · exact ⟨.nil, .cons ht h⟩
    · exact (ih _).cons ht

theorem alike_remarks (h : List.Forall₂ Token.Alike ts us) :
    (remarks ts).Alike (remarks us) := by
  induction h with
  | nil => exact ⟨.nil, .nil⟩
  | @cons t u ts us ht h ih =>
    by_cases hc : t.isComment = true
    · rw [remarks_cons_of_isComment hc, remarks_cons_of_isComment (ht.isComment_eq ▸ hc)]
      exact ih.cons ht
    · by_cases hb : t.isBlank = true
      · have hn : (remarks ts).taken = [] ↔ (remarks us).taken = [] := by
          rw [← List.length_eq_zero_iff, ← List.length_eq_zero_iff, ih.taken.length_eq]
        rw [remarks_cons_of_isBlank hb, remarks_cons_of_isBlank (ht.isBlank_eq ▸ hb)]
        by_cases he : (remarks ts).taken = []
        · rw [if_pos he, if_pos (hn.1 he)]
          exact ⟨.nil, .cons ht h⟩
        · rw [if_neg he, if_neg fun hu => he (hn.2 hu)]
          exact ih.cons ht
      · have hf : t.isFiller = false := by simp [Token.isFiller, hc, hb]
        rw [remarks_cons_of_not_isFiller hf, remarks_cons_of_not_isFiller (ht.isFiller_eq ▸ hf)]
        exact ⟨.nil, .cons ht h⟩

end Cut

namespace Attempt

variable {α : Type}

/-- The cuts are alike, and what they were made for, or why that failed, is the same up to the text
that the fault shows. -/
structure Alike (a b : Attempt α) : Prop where
  cut : a.cut.Alike b.cut
  outcome : a.outcome.mapError PhraseFault.shape = b.outcome.mapError PhraseFault.shape

theorem Alike.eq_ok {a b : Attempt α} (h : a.Alike b) {x : α} (ha : a.outcome = .ok x) :
    b.outcome = .ok x := by
  have ho := h.outcome
  rw [ha] at ho
  cases hb : b.outcome with
  | error fault =>
    rw [hb] at ho
    cases ho
  | ok y =>
    rw [hb] at ho
    exact ho.symm.trans rfl

theorem Alike.eq_error {a b : Attempt α} (h : a.Alike b) {fault : PhraseFault}
    (ha : a.outcome = .error fault) :
    ∃ other, b.outcome = .error other ∧ fault.shape = other.shape := by
  have ho := h.outcome
  rw [ha] at ho
  cases hb : b.outcome with
  | error other =>
    rw [hb] at ho
    exact ⟨other, rfl, Except.error.inj ho⟩
  | ok y =>
    rw [hb] at ho
    cases ho

theorem alike_header (h : List.Forall₂ Token.Alike ts us) (depth : Nat) :
    (header depth ts).Alike (header depth us) := by
  induction h generalizing depth with
  | nil => exact ⟨⟨.nil, .nil⟩, rfl⟩
  | @cons t u ts us ht h ih =>
    rw [header, header, ht.isBreak_eq, ht.isDelimiter_eq, ht.isCloser_eq, ht.depthAfter_eq]
    split
    · exact ⟨⟨.nil, .cons ht h⟩, rfl⟩
    · split
      · exact ⟨⟨.cons ht .nil, h⟩, rfl⟩
      · split
        · exact ⟨⟨.nil, .cons ht h⟩, rfl⟩
        · obtain ⟨hc, ho⟩ := ih (u.depthAfter depth)
          exact ⟨hc.cons ht, ho⟩

end Attempt

theorem statementKind_eq (h : t.Alike u) : statementKind t = statementKind u := by
  by_cases hk : t.kind = .identifier
  · rw [h.eq (by rw [hk]; rfl)]
  · have hu : u.kind ≠ .identifier := by rwa [← h.1]
    rw [statementKind, statementKind, if_pos hk, if_pos hu]

namespace Region

theorem alike_phraseAt (ht : t.Alike u) (h : List.Forall₂ Token.Alike ts us) (region : Region) :
    (region.phraseAt t ts).Alike (region.phraseAt u us) := by
  have hs : List.Forall₂ Token.Alike (t :: ts) (u :: us) := .cons ht h
  cases region with
  | preamble =>
    simp only [phraseAt, ht.isComment_eq, ht.isKeyword_eq]
    split
    · exact ⟨Cut.alike_span Token.Alike.isFiller_eq hs, rfl⟩
    · split
      · exact ⟨Cut.alike_statement hs 0, rfl⟩
      · split
        · obtain ⟨hc, ho⟩ := Attempt.alike_header hs 0
          refine ⟨hc, ?_⟩
          revert ho
          cases (Attempt.header 0 (t :: ts)).outcome <;>
            cases (Attempt.header 0 (u :: us)).outcome <;>
            simp [Except.map, Except.mapError]
        · exact ⟨⟨.nil, hs⟩, rfl⟩
  | body =>
    simp only [phraseAt, ht.isComment_eq, statementKind_eq ht]
    split
    · exact ⟨Cut.alike_remarks hs, rfl⟩
    · exact ⟨Cut.alike_statement hs 0, rfl⟩

theorem isLead_eq (h : t.Alike u) (region : Region) : region.isLead t = region.isLead u := by
  cases region with
  | preamble => exact h.isBreak_eq
  | body => exact h.isBlank_eq

theorem alike_advance (h : List.Forall₂ Token.Alike ts us) (region : Region) :
    (region.advance ts).Alike (region.advance us) := by
  obtain ⟨hlead, hrest⟩ := Cut.alike_span (fun h => isLead_eq h region) h
  simp only [Cut.span] at hlead hrest
  rw [advance, advance]
  generalize ts.dropWhile region.isLead = rest at hrest ⊢
  generalize us.dropWhile region.isLead = others at hrest ⊢
  cases hrest with
  | nil => exact ⟨⟨hlead, .nil⟩, rfl⟩
  | cons ht h =>
    obtain ⟨hc, ho⟩ := alike_phraseAt ht h region
    exact ⟨hc.prepend hlead, ho⟩

end Region

/-- Phrases of one kind whose tokens are alike. -/
structure Phrase.Alike (p q : Phrase) : Prop where
  kind : p.kind = q.kind
  tokens : List.Forall₂ Token.Alike p.tokens q.tokens

/-- Errors of one shape that leave tokens that are alike. -/
structure PhraseError.Alike (e f : PhraseError) : Prop where
  fault : e.fault.shape = f.fault.shape
  remaining : List.Forall₂ Token.Alike e.remaining f.remaining

namespace Phrase

/-- Tokens that are alike fall into phrases that are alike. -/
theorem alike_ofTokensIn (h : List.Forall₂ Token.Alike ts us) (region : Region) :
    Outcomes PhraseError.Alike (List.Forall₂ Phrase.Alike) (ofTokensIn region ts)
      (ofTokensIn region us) := by
  induction region, ts using ofTokensIn.induct generalizing us with
  | case1 region ts fault hf =>
    obtain ⟨other, hu, hs⟩ := (Region.alike_advance h region).eq_error hf
    rw [ofTokensIn_eq, hf, ofTokensIn_eq, hu]
    exact .error ⟨hs, h⟩
  | case2 region ts hf =>
    have hu := (Region.alike_advance h region).eq_ok hf
    rw [ofTokensIn_eq, hf, ofTokensIn_eq, hu]
    refine .ok ?_
    cases h with
    | nil => exact .nil
    | cons ht h => exact .cons ⟨rfl, .cons ht h⟩ .nil
  | case3 region ts kind next hf cut =>
    rename_i ih
    have ha := Region.alike_advance h region
    rw [ofTokensIn_eq, hf, ofTokensIn_eq, ha.eq_ok hf]
    exact (ih ha.cut.rest).map fun _ _ hps => .cons ⟨rfl, ha.cut.taken⟩ hps

end Phrase
end PackageRecipe
