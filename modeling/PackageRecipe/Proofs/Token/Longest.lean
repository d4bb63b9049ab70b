import PackageRecipe.Proofs.Token.Sequence

/-!
Longest match. A lexeme goes on as long as it can and is never taken back, so a token stops only
before a character with which its text is the beginning of no lexeme, and nothing behind that
character can make it one again.
-/
namespace PackageRecipe

open Lexeme

namespace Token

variable {t u : Token} {rest : List Char}

/-- A token by itself is read as it was read in front of other text. -/
theorem EndsBefore.ofSource_text (h : t.EndsBefore rest) : Token.ofSource t.text = .ok [t] := by
  obtain ⟨last, hl, hf, -⟩ := h
  exact Token.ofSource_eq_singleton_iff.2 ⟨rfl, last, hl, hf⟩

/-- No lexeme begins with a token's text and the character that the token stopped before. -/
theorem EndsBefore.ofText?_append {c : Char} {cs : List Char} (h : t.EndsBefore (c :: cs))
    (more : List Char) : State.ofText? (t.text.toList ++ c :: more) = none := by
  have hne := h.text_ne_nil
  obtain ⟨last, hl, -, hs⟩ := h
  rw [State.ofText?_append hne, hl, Option.bind_some, State.after?_cons,
    State.stopsBefore_cons.1 hs, Option.bind_none]

/-- No longer beginning of the text is one token. -/
theorem EndsBefore.ofSource_ne_singleton (h : t.EndsBefore rest) {longer : String}
    (hp : longer.toList <+: t.text.toList ++ rest) (hl : t.text.length < longer.length) :
    Token.ofSource longer ≠ .ok [u] := by
  intro hu
  obtain ⟨-, last, hlast, -⟩ := Token.ofSource_eq_singleton_iff.1 hu
  obtain ⟨more, hm⟩ : t.text.toList <+: longer.toList :=
    List.prefix_of_prefix_length_le (List.prefix_append _ _) hp hl.le
  cases more with
  | nil =>
    rw [List.append_nil] at hm
    have : t.text.length = longer.length := congrArg List.length hm
    omega
  | cons c more =>
    rw [← hm, List.prefix_append_right_inj, List.cons_prefix_iff] at hp
    obtain ⟨after, rfl, -⟩ := hp
    rw [← hm, h.ofText?_append more] at hlast
    cases hlast

end Token

/-- Every token is as long as it can be: its text is one token by itself, and no longer beginning of
the text from there on is. -/
theorem ofSource_longest {source : String} {before after : List Token} {t : Token}
    (h : Token.ofSource source = .ok (before ++ t :: after)) :
    Token.ofSource t.text = .ok [t] ∧
      ∀ longer : String, longer.toList <+: (sourceText (t :: after)).toList →
        t.text.length < longer.length → ∀ u, Token.ofSource longer ≠ .ok [u] := by
  obtain ⟨-, hlexed⟩ := Token.ofSource_eq_ok_iff.1 h
  have ht := (lexed_append.1 hlexed).2.1
  refine ⟨ht.ofSource_text, fun longer hp hl u => ?_⟩
  rw [sourceText_cons, String.toList_append, ← List.append_nil (sourceText after).toList] at hp
  exact ht.ofSource_ne_singleton hp hl

/-- A binary numeral ends before the first digit that is none of its own. -/
theorem ofSource_longest_numeral :
    Token.ofSource "x**=0b12\\\r\n''" = .ok ([⟨.identifier, "x"⟩, ⟨.delimiter, "**="⟩] ++
        ⟨.number, "0b1"⟩ :: [⟨.number, "2"⟩, ⟨.whitespace, "\\\r\n"⟩, ⟨.string, "''"⟩]) ∧
      Token.ofSource "0b1" = .ok [⟨.number, "0b1"⟩] ∧
      ∀ longer : String, longer.toList <+: "0b12\\\r\n''".toList → 3 < longer.length →
        ∀ u, Token.ofSource longer ≠ .ok [u] := by
  have h : Token.ofSource "x**=0b12\\\r\n''" = .ok ([⟨.identifier, "x"⟩, ⟨.delimiter, "**="⟩] ++
      ⟨.number, "0b1"⟩ :: [⟨.number, "2"⟩, ⟨.whitespace, "\\\r\n"⟩, ⟨.string, "''"⟩]) := by cbv
  exact ⟨h, ofSource_longest h⟩

end PackageRecipe
