import PackageRecipe.Proofs.Token.Literal

/-!
Written literals and the strings that reading finds are the same texts. Whatever may stand between
its marks is closed by the marks behind it and not before, so a literal by itself is read as one
string; its prefix letters, its marks and its contents are found again in the text, so no two
quotations make the same literal.
-/
namespace PackageRecipe

open Lexeme

namespace Lexeme

theorem State.ofChar_of_isQuote {c : Char} (h : isQuote c = true) :
    State.ofChar c = .ok (.quoted (.opened c)) := by
  rcases isQuote_iff.1 h with rfl | rfl
  · rfl
  · rfl

section Contents

variable {q : Char} {cs : List Char}

/-- Contents of a short string and the mark behind them close it. -/
theorem State.after?_short (hq : isQuote q = true) (h : ShortContents q cs) :
    (State.quoted (.short q)).after? (cs ++ [q]) = some (.quoted .closed) := by
  induction h with
  | nil =>
    rcases isQuote_iff.1 hq with rfl | rfl
    · rfl
    · rfl
  | @plain c cs hb hc hl _ ih =>
    have hs : (State.quoted (.short q)).step c = some (.quoted (.short q)) := by
      simp [State.step, Quoted.step, Quoted.shortStep, hb, hc, hl]
    rw [List.cons_append, after?_cons, hs]
    exact ih
  | @escape c cs _ ih =>
    rw [List.cons_append, List.cons_append, after?_cons]
    exact ih

/-- Contents of a long string and the marks behind them close it, if the marks read just before
them are not three with them. -/
theorem State.after?_long (hq : isQuote q = true) (h : LongContents q cs) {marks : Nat}
    (hm : marks ≠ 0 → ¬ [q, q, q] <+: List.replicate marks q ++ (cs ++ [q, q, q])) :
    (State.quoted (.long q marks)).after? (cs ++ [q, q, q]) = some (.quoted .closed) := by
  have hb : q ≠ '\\' := ne_backslash_of_isQuote hq
  induction h generalizing marks with
  | nil =>
    have hz : marks = 0 := by
      by_contra hn
      refine hm hn ⟨List.replicate marks q, ?_⟩
      rw [List.nil_append, show [q, q, q] = List.replicate 3 q from rfl,
        List.replicate_append_replicate, List.replicate_append_replicate, Nat.add_comm]
    subst hz
    simp [after?_cons, State.step, Quoted.step, hb]
  | @plain c cs hc hp _ ih =>
    by_cases hcq : c = q
    · subst hcq
      have htwo : marks ≠ 2 := by
        rintro rfl
        exact hm (by decide) (by simp)
      have hs : (State.quoted (.long c marks)).step c = some (.quoted (.long c (marks + 1))) := by
        simp [State.step, Quoted.step, hb, htwo]
      rw [List.cons_append, after?_cons, hs]
      refine ih fun _ => ?_
      rw [List.replicate_succ', List.append_assoc, List.singleton_append]
      by_cases hz : marks = 0
      · subst hz
        exact hp
      · exact hm hz
    · have hs : (State.quoted (.long q marks)).step c = some (.quoted (.long q 0)) := by
        simp [State.step, Quoted.step, hc, hcq]
      rw [List.cons_append, after?_cons, hs]
      exact ih (absurd rfl)
  | @escape c cs _ ih =>
    rw [List.cons_append, List.cons_append, after?_cons]
    exact ih (absurd rfl)

end Contents

namespace Quotation

variable {quotation other : Quotation} {cs ds : List Char}

/-- What is left of a literal behind its first mark is read to the end, and may end there. -/
theorem after?_opened (h : quotation.Holds cs) :
    ∃ tail string, quotation.marks ++ cs ++ quotation.marks = quotation.mark :: tail ∧
      (State.quoted (.opened quotation.mark)).after? tail = some (.quoted string) ∧
      string.fault? none = none := by
  obtain ⟨letters, mark, long, hl, hm⟩ := quotation
  have hb : mark ≠ '\\' := ne_backslash_of_isQuote hm
  cases long with
  | true =>
    refine ⟨mark :: mark :: (cs ++ [mark, mark, mark]), .closed, by simp [marks], ?_, rfl⟩
    have two : (State.quoted (.opened mark)).after? [mark, mark] =
        some (.quoted (.long mark 0)) := by
      simp [State.after?_cons, State.step, Quoted.step]
    rw [show mark :: mark :: (cs ++ [mark, mark, mark]) = [mark, mark] ++ (cs ++ [mark, mark, mark])
      from rfl, State.after?_append, two]
    exact State.after?_long hm h (absurd rfl)
  | false =>
    refine ⟨cs ++ [mark], ?_⟩
    cases (show ShortContents mark cs from h) with
    | nil =>
      refine ⟨.empty mark, by simp [marks], ?_, rfl⟩
      simp [State.after?_cons, State.step, Quoted.step]
    | @plain c cs hc hq hl hcs =>
      refine ⟨.closed, by simp [marks], ?_, rfl⟩
      have hs : (State.quoted (.opened mark)).step c = some (.quoted (.short mark)) := by
        simp [State.step, Quoted.step, Quoted.shortStep, hc, hq, hl]
      rw [List.cons_append, State.after?_cons, hs]
      exact State.after?_short hm hcs
    | @escape c cs hcs =>
      refine ⟨.closed, by simp [marks], ?_, rfl⟩
      have hs : (State.quoted (.opened mark)).step '\\' = some (.quoted (.shortEscape mark)) := by
        simp [State.step, Quoted.step, Quoted.shortStep, hb.symm]
      rw [List.cons_append, State.after?_cons, hs]
      exact State.after?_short hm hcs

/-- A literal is read to its end as a string, and may end there. -/
theorem ofText?_literal (h : quotation.Holds cs) :
    ∃ string, State.ofText? (quotation.literal cs) = some (.quoted string) ∧
      string.fault? none = none := by
  obtain ⟨tail, string, ht, ha, hf⟩ := after?_opened h
  refine ⟨string, ?_, hf⟩
  rw [literal, List.append_assoc, List.append_assoc, ← List.append_assoc quotation.marks, ht]
  rcases quotation.letters_open with hl | hl
  · rw [hl, List.nil_append, State.ofText?_cons_eq_some_iff]
    exact ⟨_, State.ofChar_of_isQuote quotation.mark_isQuote, ha⟩
  · have hn : quotation.letters ≠ [] := by
      intro he
      rw [he] at hl
      cases hl
    have hs : (State.word quotation.letters.reverse).step quotation.mark =
        some (.quoted (.opened quotation.mark)) := by
      simp [State.step, not_extendsName_of_isQuote, quotation.mark_isQuote, hl]
    rw [State.ofText?_append hn, State.ofText?_of_isWord (isWord_of_opensString hl),
      Option.bind_some, State.after?_cons, hs]
    exact ha

/-- No two quotations make the same literal, and no quotation makes it of two contents. -/
theorem literal_injective (h : quotation.Holds cs) (h' : other.Holds ds)
    (he : quotation.literal cs = other.literal ds) : quotation = other ∧ cs = ds := by
  obtain rfl : cs = ds := by
    have hc := bodyContents_literal h
    rw [he, bodyContents_literal h'] at hc
    exact (Except.ok.inj hc).symm
  have body : quotation.marks ++ cs ++ quotation.marks = other.marks ++ cs ++ other.marks := by
    rw [← literalBody_literal, ← literalBody_literal, he]
  have letters : quotation.letters = other.letters := by
    simp only [literal, List.append_assoc] at he body
    rw [body] at he
    exact List.append_cancel_right he
  have mark : quotation.mark = other.mark := by
    obtain ⟨marks, hm⟩ := quotation.marks_eq_cons
    obtain ⟨marks', hm'⟩ := other.marks_eq_cons
    rw [hm, hm'] at body
    exact (List.cons.inj body).1
  have long : quotation.long = other.long := by
    rw [← isLong_literalBody h, ← isLong_literalBody h', he, mark]
  refine ⟨?_, rfl⟩
  obtain ⟨_, _, _, _, _⟩ := quotation
  obtain ⟨_, _, _, _, _⟩ := other
  cases letters
  cases mark
  cases long
  rfl

end Quotation
end Lexeme

namespace Token

variable {quotation : Quotation} {cs : List Char}

/-- A literal by itself is read as one string. -/
theorem ofSource_of_holds (h : quotation.Holds cs) :
    Token.ofSource (String.ofList (quotation.literal cs)) =
      .ok [⟨.string, String.ofList (quotation.literal cs)⟩] := by
  obtain ⟨string, ha, hf⟩ := Quotation.ofText?_literal h
  refine Token.ofSource_eq_singleton_iff.2 ⟨rfl, .quoted string, ?_, ?_⟩
  · rw [String.toList_ofList]
    exact ha
  · rw [State.finish, hf]

/-- Every string that reading finds is one literal only. -/
theorem EndsBefore.exists_unique_literal {t : Token} {rest : List Char} (h : t.EndsBefore rest)
    (hk : t.kind = .string) :
    ∃ (quotation : Quotation) (s : String), t.text.toList = quotation.literal s.toList ∧
      quotation.Holds s.toList ∧
      ∀ (other : Quotation) (s' : String), t.text.toList = other.literal s'.toList →
        other.Holds s'.toList → other = quotation ∧ s' = s := by
  obtain ⟨quotation, cs, ht, hh⟩ := h.exists_literal hk
  rw [← String.toList_ofList (l := cs)] at ht hh
  refine ⟨quotation, String.ofList cs, ht, hh, fun other s' ht' hh' => ?_⟩
  obtain ⟨hq, hs⟩ := Quotation.literal_injective hh' hh (ht'.symm.trans ht)
  exact ⟨hq, String.toList_injective hs⟩

end Token

/-- Reading a literal and taking its contents out are inverse to writing it. The prefixes are those
listed; what may stand between the marks is read as one string and found again in it; and every
string of a source is the literal of one quotation and one contents only, which are found in it. -/
theorem ofSource_literals :
    (∀ letters : List Char, letters = [] ∨ opensString letters = true ↔
      letters = [] ∨ (∃ c ∈ ['r', 'R', 'b', 'B', 'f', 'F', 'u', 'U'], letters = [c]) ∨
        (∃ c ∈ ['r', 'R'], ∃ d ∈ ['b', 'B', 'f', 'F'], letters = [c, d]) ∨
        ∃ c ∈ ['b', 'B', 'f', 'F'], ∃ d ∈ ['r', 'R'], letters = [c, d]) ∧
    (∀ (quotation : Quotation) (s : String), quotation.Holds s.toList →
      Token.ofSource (String.ofList (quotation.literal s.toList)) =
          .ok [⟨.string, String.ofList (quotation.literal s.toList)⟩] ∧
        Token.contents ⟨.string, String.ofList (quotation.literal s.toList)⟩ = .ok s) ∧
    ∀ (source : String) (ts : List Token), Token.ofSource source = .ok ts →
      ∀ t ∈ ts, t.kind = .string →
        ∃ (quotation : Quotation) (s : String), t.text.toList = quotation.literal s.toList ∧
          quotation.Holds s.toList ∧ t.contents = .ok s ∧
          ∀ (other : Quotation) (s' : String), t.text.toList = other.literal s'.toList →
            other.Holds s'.toList → other = quotation ∧ s' = s := by
  refine ⟨fun letters => or_congr_right opensString_iff, fun quotation s h => ?_,
    fun source ts h t ht hk => ?_⟩
  · have contents := Token.contents_literal (t := ⟨.string, _⟩) rfl String.toList_ofList h
    rw [String.ofList_toList] at contents
    exact ⟨Token.ofSource_of_holds h, contents⟩
  · obtain ⟨rest, he⟩ := (Token.ofSource_eq_ok_iff.1 h).2.exists_endsBefore t ht
    obtain ⟨quotation, s, htext, hh, unique⟩ := he.exists_unique_literal hk
    have contents := Token.contents_literal hk htext hh
    rw [String.ofList_toList] at contents
    exact ⟨quotation, s, htext, hh, contents, unique⟩

/-- A long string with two marks and an escaped one in it, and a source of two strings. -/
theorem ofSource_literals_marks :
    (Token.ofSource "Rb'''''\\''''" = .ok [⟨.string, "Rb'''''\\''''"⟩] ∧
      Token.contents ⟨.string, "Rb'''''\\''''"⟩ = .ok "''\\'") ∧
    ∃ (quotation : Quotation) (s : String), "u\"'\"".toList = quotation.literal s.toList ∧
      quotation.Holds s.toList ∧ Token.contents ⟨.string, "u\"'\""⟩ = .ok s ∧
      ∀ (other : Quotation) (s' : String), "u\"'\"".toList = other.literal s'.toList →
        other.Holds s'.toList → other = quotation ∧ s' = s :=
  ⟨ofSource_literals.2.1 ⟨['R', 'b'], '\'', true, .inr (by cbv), rfl⟩ "''\\'"
      (.plain (by decide) (by decide) (.plain (by decide) (by decide) (.escape .nil))),
    ofSource_literals.2.2 "''+u\"'\""
      [⟨.string, "''"⟩, ⟨.operator, "+"⟩, ⟨.string, "u\"'\""⟩] (by cbv)
      ⟨.string, "u\"'\""⟩ (by simp) rfl⟩

end PackageRecipe
