import PackageRecipe.Proofs.Phrase.Extension
import PackageRecipe.Proofs.Phrase.Neighbour
import PackageRecipe.Proofs.Phrase.Walk

/-!
Tokens that are cut at the end of a phrase. Every end is found by a look at the tokens behind it,
but it is an end as well when nothing is there. So the phrases before the cut are what they were,
and tokens that do not fall into phrases are cut at their error: what stands before it falls into
phrases of the preamble, and what remains fails alone as it did behind them.
-/
namespace PackageRecipe

namespace Phrase

theorem ofTokensIn_of_phrased {region next : Region} {ps : List Phrase}
    (h : Phrased region ps next []) : ofTokensIn region (ps.flatMap Phrase.tokens) = .ok ps :=
  ofTokensIn_eq_ok_iff.2
    ⟨ps, next, [], h, nofun, (List.append_nil _).symm, (List.append_nil _).symm⟩

theorem length_trailing_le (blanks : List Token) : (trailing blanks).length ≤ 1 := by
  unfold trailing
  split
  · exact Nat.zero_le 1
  · exact Nat.le_refl 1

end Phrase

namespace Walk

/-- A walk that advances over a phrase stops behind it. -/
theorem advance_of_finds {region next : Region} {p : Phrase} {rest : List Token}
    (h : region.Finds p next rest) (closed current : List Token) :
    (Walk.mk closed current (p.tokens ++ rest)).advance region =
      (.ok (.phrase p.kind next), ⟨closed, current ++ p.tokens, rest⟩) := by
  have ha : region.advance (p.tokens ++ rest) = ⟨⟨p.tokens, rest⟩, .ok (.phrase p.kind next)⟩ :=
    Region.advance_eq_iff.2 ⟨rfl, h⟩
  rw [advance, ha]
  rfl

/-- A walk that closes phrase after phrase of the preamble comes to stand behind them. -/
theorem run_of_phrased {ps : List Phrase} {rest : List Token}
    (h : Phrased .preamble ps .preamble rest) (closed : List Token) :
    (Walk.mk closed [] (ps.flatMap Phrase.tokens ++ rest)).run
        (ps.flatMap fun _ => [.advance .preamble, .close]) =
      (ps.flatMap fun p => [.advanced (.ok (.phrase p.kind .preamble)), .closed p.tokens.length],
        ⟨closed ++ ps.flatMap Phrase.tokens, [], rest⟩) := by
  induction ps generalizing closed with
  | nil => simp [run]
  | cons p ps ih =>
    obtain ⟨middle, hp, hps⟩ := Phrased.cons_iff.1 h
    cases middle with
    | body => cases hps.kinds_of_body.1
    | preamble =>
      -- one advance and one close take the walk over `p`, the other moves over `ps`
      simp only [List.flatMap_cons, List.append_assoc, List.cons_append, List.nil_append, run,
        perform, advance_of_finds hp, close, ih hps]

end Walk

/-- The first phrases of a recipe are its phrases when what follows them is cut off. -/
theorem ofTokens_take {tokens : List Token} {phrases : List Phrase}
    (h : Phrase.ofTokens tokens = .ok phrases) (k : Nat) :
    Phrase.ofTokens ((phrases.take k).flatMap Phrase.tokens) = .ok (phrases.take k) := by
  obtain ⟨ps, next, blanks, hps, -, -, rfl⟩ := Phrase.ofTokensIn_eq_ok_iff.1 h
  by_cases hk : k ≤ ps.length
  · rw [List.take_append_of_le_length hk]
    rw [← List.take_append_drop k ps] at hps
    obtain ⟨middle, hfirst, -⟩ := Phrased.append_iff.1 hps
    exact Phrase.ofTokensIn_of_phrased hfirst.before_end
  · -- the blanks at the end are one phrase, so beyond the others nothing is cut off
    have hlen := Phrase.length_trailing_le blanks
    have hall : (ps ++ trailing blanks).length ≤ k := by
      rw [List.length_append]
      omega
    rw [List.take_of_length_le hall, Phrase.flatMap_tokens_of_ofTokensIn h]
    exact h

/-- Cut behind a comment block, whose end was found at the statement after it. -/
theorem ofTokens_take_remark :
    let imports : Phrase := ⟨.imports, [⟨.keyword, "import"⟩]⟩
    let header : Phrase :=
      ⟨.classHeader, [⟨.newline, "\n"⟩, ⟨.keyword, "class"⟩, ⟨.delimiter, ":"⟩]⟩
    let remark : Phrase := ⟨.remark, [⟨.newline, "\n"⟩, ⟨.comment, "#"⟩]⟩
    let statement : Phrase := ⟨.version, [⟨.newline, "\n"⟩, ⟨.identifier, "version"⟩,
      ⟨.delimiter, "("⟩, ⟨.newline, "\n"⟩, ⟨.delimiter, ")"⟩]⟩
    let blank : Phrase := ⟨.remark, [⟨.newline, "\n"⟩, ⟨.whitespace, " "⟩]⟩
    let phrases := [imports, header, remark, statement, blank]
    Phrase.ofTokens (phrases.flatMap Phrase.tokens) = .ok phrases ∧
      Phrase.ofTokens (imports.tokens ++ header.tokens ++ remark.tokens) =
        .ok [imports, header, remark] := by
  intro imports header remark statement blank phrases
  have h : Phrase.ofTokens (phrases.flatMap Phrase.tokens) = .ok phrases := by cbv
  exact ⟨h, ofTokens_take h 3⟩

/-- Where tokens fail to fall into phrases: those before the place fall into comments and imports,
the others fail alone with the same error, and a walk that closes these phrases one by one stands at
the place when it meets the error, however far it goes on before it gives up. -/
theorem ofTokens_located {tokens : List Token} {e : PhraseError}
    (h : Phrase.ofTokens tokens = .error e) :
    ∃ (before : List Token) (phrases : List Phrase), tokens = before ++ e.remaining ∧
      Phrase.ofTokens before = .ok phrases ∧
      (∀ p ∈ phrases, p.kind = .remark ∨ p.kind = .imports) ∧
      Phrase.ofTokens e.remaining = .error e ∧
      (Walk.ofTokens tokens).run (phrases.flatMap fun _ => [.advance .preamble, .close]) =
        (phrases.flatMap fun p =>
          [.advanced (.ok (.phrase p.kind .preamble)), .closed p.tokens.length],
          ⟨before, [], e.remaining⟩) ∧
      ((Walk.mk before [] e.remaining).advance .preamble).1 = .error e := by
  obtain ⟨ps, hps, hf, rfl⟩ := Phrase.ofTokens_eq_error_iff.1 h
  refine ⟨ps.flatMap Phrase.tokens, ps, rfl, ?_, ?_, ?_, ?_, ?_⟩
  · exact Phrase.ofTokensIn_of_phrased hps.before_end
  · intro p hp
    obtain ⟨-, hk⟩ | ⟨hn, -⟩ := hps.kinds_of_preamble
    · simpa [Region.kinds] using hk p hp
    · cases hn
  · exact Phrase.ofTokens_eq_error_iff.2 ⟨[], .nil, hf, rfl⟩
  · exact Walk.run_of_phrased hps []
  · rw [Walk.advance, hf]
    rfl

/-- A comment and an import before a class header that ends inside its brackets. -/
theorem ofTokens_located_unclosed :
    let remark : Phrase := ⟨.remark, [⟨.comment, "#"⟩, ⟨.newline, "\n"⟩]⟩
    let imports : Phrase := ⟨.imports, [⟨.keyword, "import"⟩]⟩
    let remaining : List Token := [⟨.newline, "\n"⟩, ⟨.keyword, "class"⟩, ⟨.delimiter, "("⟩,
      ⟨.newline, "\n"⟩, ⟨.delimiter, ":"⟩]
    let tokens := remark.tokens ++ imports.tokens ++ remaining
    Phrase.ofTokens tokens = .error ⟨.unclosedBrackets, remaining⟩ ∧
      (∃ phrases, Phrase.ofTokens (remark.tokens ++ imports.tokens) = .ok phrases ∧
        ∀ p ∈ phrases, p.kind = .remark ∨ p.kind = .imports) ∧
      Phrase.ofTokens remaining = .error ⟨.unclosedBrackets, remaining⟩ := by
  intro remark imports remaining tokens
  have h : Phrase.ofTokens tokens = .error ⟨.unclosedBrackets, remaining⟩ := by cbv
  obtain ⟨before, phrases, ht, hb, hk, hr, -⟩ := ofTokens_located h
  obtain rfl : remark.tokens ++ imports.tokens = before := List.append_cancel_right ht
  exact ⟨h, ⟨phrases, hb, hk⟩, hr⟩

end PackageRecipe
