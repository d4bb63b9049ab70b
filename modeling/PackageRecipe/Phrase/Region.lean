import PackageRecipe.Phrase.Extent

/-!
The two regions of a recipe, what each takes for its next phrase, and the phrases of a whole recipe.
The preamble holds comments, imports and the class header; after the header everything belongs to
the class body, where any statement is allowed. Every token comes to lie in exactly one phrase, in
order; blanks after the last statement make a phrase of their own.
-/
namespace PackageRecipe

inductive Region where
  | preamble
  | body
  deriving DecidableEq

/-- What comes next in a region. -/
inductive Finding where
  /-- A phrase of this kind, after which the recipe goes on in the region `next`. -/
  | phrase (kind : Phrase.Kind) (next : Region)
  /-- Nothing but blanks up to the end. -/
  | finished
  deriving DecidableEq

/-- Class attributes that name a place to download from. -/
def locationNames : List String := ["url", "git", "svn", "hg", "cvs", "urls"]

/-- The kind of a statement of the class body, which its first token decides. -/
def statementKind (t : Token) : Phrase.Kind :=
  if t.kind ≠ .identifier then .other
  else if t.text = "homepage" then .homepage
  else if t.text = "version" then .version
  else if t.text = "depends_on" then .dependsOn
  else if t.text ∈ locationNames then .location
  else .other

namespace Region

/-- The tokens that may stand before a phrase of the region. -/
def isLead : Region → Token → Bool
  | preamble => Token.isBreak
  | body => Token.isBlank

/-- The phrase that begins with `t`, if no lead stands before it. -/
def phraseAt (t : Token) (ts : List Token) : Region → Attempt Finding
  | preamble =>
    if t.isComment then ⟨.span Token.isFiller (t :: ts), .ok (.phrase .remark preamble)⟩
    else if t.isKeyword "import" || t.isKeyword "from" then
      ⟨.statement 0 (t :: ts), .ok (.phrase .imports preamble)⟩
    else if t.isKeyword "class" then
      let header := Attempt.header 0 (t :: ts)
      ⟨header.cut, header.outcome.map fun _ => .phrase .classHeader body⟩
    else ⟨⟨[], t :: ts⟩, .error (.unexpectedStatement t.text)⟩
  | body =>
    if t.isComment then ⟨.remarks (t :: ts), .ok (.phrase .remark body)⟩
    else ⟨.statement 0 (t :: ts), .ok (.phrase (statementKind t) body)⟩

/-- The next phrase of the region with its lead, or the lead alone if nothing follows it. -/
def advance (region : Region) (tokens : List Token) : Attempt Finding :=
  let lead := tokens.takeWhile region.isLead
  match tokens.dropWhile region.isLead with
  | [] => ⟨⟨lead, []⟩, .ok .finished⟩
  | t :: ts => (region.phraseAt t ts).prepend lead

/-- A phrase and what is left are the tokens again. -/
theorem tokens_phraseAt (t : Token) (ts : List Token) (region : Region) :
    (region.phraseAt t ts).cut.tokens = t :: ts := by
  cases region with
  | preamble =>
    rw [phraseAt]
    split
    · exact Cut.tokens_span _ _
    · split
      · exact Cut.tokens_statement _ _
      · split
        · exact Attempt.tokens_header _ _
        · rfl
  | body =>
    rw [phraseAt]
    split
    · exact Cut.tokens_remarks _
    · exact Cut.tokens_statement _ _

theorem tokens_advance (region : Region) (tokens : List Token) :
    (region.advance tokens).cut.tokens = tokens := by
  have lead := List.takeWhile_append_dropWhile (p := region.isLead) (l := tokens)
  rw [advance]
  split
  · rename_i h
    rw [h] at lead
    exact lead
  · rename_i t ts h
    rw [h] at lead
    calc ((region.phraseAt t ts).prepend (tokens.takeWhile region.isLead)).cut.tokens
        = tokens.takeWhile region.isLead ++ (region.phraseAt t ts).cut.tokens :=
          List.append_assoc _ _ _
      _ = tokens := by rw [tokens_phraseAt, lead]

/-- Outside the leads of its region a token is no line break. -/
theorem not_isBreak_of_not_isLead {region : Region} {t : Token} (h : region.isLead t = false) :
    t.isBreak = false := by
  cases region with
  | preamble => exact h
  | body => exact (Bool.or_eq_false_iff.1 h).1

theorem not_isLead_of_dropWhile {region : Region} {tokens : List Token} {t : Token}
    {ts : List Token} (h : tokens.dropWhile region.isLead = t :: ts) : region.isLead t = false := by
  have := List.head_dropWhile_not region.isLead (l := tokens) (by simp [h])
  simpa [h] using this

/-- A phrase takes at least the token that it begins with. -/
theorem phraseAt_taken_ne_nil {region next : Region} {t : Token} {ts : List Token}
    {kind : Phrase.Kind} (lead : region.isLead t = false)
    (h : (region.phraseAt t ts).outcome = .ok (.phrase kind next)) :
    (region.phraseAt t ts).cut.taken ≠ [] := by
  have hb := not_isBreak_of_not_isLead lead
  have hs : (Cut.statement 0 (t :: ts)).taken ≠ [] := by
    rw [Cut.statement, hb]
    exact List.cons_ne_nil _ _
  cases region with
  | preamble =>
    rw [phraseAt] at h ⊢
    split at h
    · rename_i hc
      rw [if_pos hc]
      have ht : t.isFiller = true := by rw [Token.isFiller, hc, Bool.or_true]
      simp [Cut.span, ht]
    · rename_i hc
      rw [if_neg hc]
      split at h
      · rw [if_pos ‹_›]
        exact hs
      · rw [if_neg ‹_›]
        split at h
        · rw [if_pos ‹_›]
          cases ho : (Attempt.header 0 (t :: ts)).outcome with
          | error f => simp [ho, Except.map] at h
          | ok u => exact Attempt.header_taken_ne_nil ho
        · simp at h
  | body =>
    rw [phraseAt]
    split
    · rename_i hc
      rw [Cut.remarks, if_pos hc]
      exact List.cons_ne_nil _ _
    · exact hs

/-- Less is left after a phrase than before it. -/
theorem advance_rest_length {region next : Region} {tokens : List Token} {kind : Phrase.Kind}
    (h : (region.advance tokens).outcome = .ok (.phrase kind next)) :
    (region.advance tokens).cut.rest.length < tokens.length := by
  have split_eq := congrArg List.length (region.tokens_advance tokens)
  have taken : (region.advance tokens).cut.taken ≠ [] := by
    rw [advance] at h ⊢
    split at h
    · simp at h
    · rename_i t ts hd
      have := phraseAt_taken_ne_nil (not_isLead_of_dropWhile hd) h
      simp only [Attempt.prepend, Cut.prepend]
      exact fun e => this (List.append_eq_nil_iff.1 e).2
  have := List.length_pos_iff.2 taken
  simp only [Cut.tokens, List.length_append] at split_eq
  omega

end Region

namespace Phrase

/-- The phrases of tokens that begin in `region`. An error keeps all tokens from the end of the last
phrase on. -/
def ofTokensIn (region : Region) (tokens : List Token) : Except PhraseError (List Phrase) :=
  match _h : (region.advance tokens).outcome with
  | .error fault => .error ⟨fault, tokens⟩
  | .ok .finished => .ok (if tokens = [] then [] else [⟨.remark, tokens⟩])
  | .ok (.phrase kind next) =>
    let cut := (region.advance tokens).cut
    (ofTokensIn next cut.rest).map (⟨kind, cut.taken⟩ :: ·)
termination_by tokens.length
decreasing_by exact Region.advance_rest_length _h

/-- The phrases of a recipe. -/
def ofTokens (tokens : List Token) : Except PhraseError (List Phrase) :=
  ofTokensIn .preamble tokens

end Phrase

end PackageRecipe
