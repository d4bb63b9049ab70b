import PackageRecipe.Proofs.Recipe.Extraction
import PackageRecipe.Proofs.Token.Sequence

/-!
Pieces of a source that are read by themselves. A token ends before the first character that it
refuses, so it also ends where the text does, and what stood in front of a piece never had a part in
it. Whatever is cut from a source between two of its tokens is read as the tokens that it was.
-/
namespace PackageRecipe

theorem Lexed.of_isInfix {ts us : List Token} {rest : List Char} (h : Lexed ts rest)
    (hu : us <:+: ts) : Lexed us [] := by
  obtain ⟨before, after, rfl⟩ := hu
  have hleft := (lexed_append.1 h).1
  exact (lexed_append.1 hleft).2.of_head? nofun

theorem Token.ofSource_sourceText_of_isInfix {source : String} {ts us : List Token}
    (h : Token.ofSource source = .ok ts) (hu : us <:+: ts) :
    Token.ofSource (sourceText us) = .ok us := by
  obtain ⟨-, hl⟩ := Token.ofSource_eq_ok_iff.1 h
  exact Token.ofSource_eq_ok_iff.2 ⟨rfl, hl.of_isInfix hu⟩

theorem Phrase.isInfix_tokens {tokens : List Token} {phrases : List Phrase} {p : Phrase}
    (h : Phrase.ofTokens tokens = .ok phrases) (hp : p ∈ phrases) : p.tokens <:+: tokens := by
  obtain ⟨before, after, rfl⟩ := List.append_of_mem hp
  rw [← Phrase.flatMap_tokens_of_ofTokensIn h]
  exact ⟨before.flatMap Phrase.tokens, after.flatMap Phrase.tokens, by simp⟩

/-- The header of a recipe is the text of its first tokens. -/
theorem Recipe.exists_header {source : String} {r : Recipe} {ts : List Token}
    (h : Recipe.ofSource source = .ok r) (ht : Token.ofSource source = .ok ts) :
    ∃ us, us <+: ts ∧ r.header = sourceText us := by
  obtain ⟨tokens, phrases, declarations, ht', hp, -, rfl⟩ := Recipe.ofSource_eq_ok_iff.1 h
  obtain rfl : ts = tokens := Except.ok.inj (ht.symm.trans ht')
  refine ⟨(phrases.takeWhile Phrase.isText).flatMap Phrase.tokens, ?_, rfl⟩
  rw [← Phrase.flatMap_tokens_of_ofTokensIn hp]
  exact (List.takeWhile_prefix Phrase.isText).flatMap Phrase.tokens

/-- Tokens that stand side by side in a source are what the text between their ends is read as:
among them each token, each phrase and the header. -/
theorem ofSource_stable {source : String} {ts : List Token} (h : Token.ofSource source = .ok ts) :
    (∀ us, us <:+: ts → Token.ofSource (sourceText us) = .ok us) ∧
      (∀ t ∈ ts, Token.ofSource t.text = .ok [t]) ∧
      (∀ phrases, Phrase.ofTokens ts = .ok phrases →
        ∀ p ∈ phrases, Token.ofSource p.text = .ok p.tokens) ∧
      ∀ r, Recipe.ofSource source = .ok r →
        ∃ us, us <+: ts ∧ Token.ofSource r.header = .ok us := by
  have pieces : ∀ us, us <:+: ts → Token.ofSource (sourceText us) = .ok us :=
    fun us hu => Token.ofSource_sourceText_of_isInfix h hu
  refine ⟨pieces, ?_, ?_, ?_⟩
  · intro t ht
    obtain ⟨before, after, rfl⟩ := List.append_of_mem ht
    have ht := pieces [t] ⟨before, after, by simp⟩
    rwa [sourceText_cons, sourceText_nil, String.append_empty] at ht
  · intro phrases hp p hm
    exact pieces p.tokens (Phrase.isInfix_tokens hp hm)
  · intro r hr
    obtain ⟨us, hu, he⟩ := Recipe.exists_header hr h
    rw [he]
    exact ⟨us, hu, pieces us hu.isInfix⟩

/-- Marks that end one string and open the next, a point between two numbers, a carriage return
whose line feed is part of the break, and prefix letters that prefix nothing. -/
theorem ofSource_stable_seams :
    let ts : List Token := [⟨.keyword, "class"⟩, ⟨.delimiter, ":"⟩, ⟨.string, "''"⟩,
      ⟨.string, "rb'''a'''"⟩, ⟨.number, "1."⟩, ⟨.number, ".5"⟩, ⟨.whitespace, "\\\r\n"⟩,
      ⟨.identifier, "ub"⟩, ⟨.operator, "**"⟩, ⟨.comment, "#"⟩, ⟨.newline, "\n\r"⟩,
      ⟨.identifier, "version"⟩, ⟨.delimiter, "("⟩, ⟨.string, "\"1\""⟩, ⟨.delimiter, ")"⟩]
    (∀ us, us <:+: ts → Token.ofSource (sourceText us) = .ok us) ∧
      (∀ t ∈ ts, Token.ofSource t.text = .ok [t]) ∧
      (∀ phrases, Phrase.ofTokens ts = .ok phrases →
        ∀ p ∈ phrases, Token.ofSource p.text = .ok p.tokens) ∧
      ∀ r, Recipe.ofSource "class:''rb'''a'''1..5\\\r\nub**#\n\rversion(\"1\")" = .ok r →
        ∃ us, us <+: ts ∧ Token.ofSource r.header = .ok us :=
  ofSource_stable (by cbv)

end PackageRecipe
