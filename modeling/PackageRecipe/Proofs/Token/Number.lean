import PackageRecipe.Proofs.Lexeme.Numeral
import PackageRecipe.Proofs.Token.Ending

/-!
Numbers as tokens. A numeral begins with a digit, or with a point that a digit follows, and only its
own steps lead on, so the texts that are one number are those of the grammar.
-/
namespace PackageRecipe

open Lexeme

namespace Lexeme.State

variable {c : Char} {state next : State} {number : Numeral} {cs text : List Char}

theorem ofChar_eq_numeral (h : ofChar c = .ok (numeral number)) :
    c.isDigit = true ∧ number = .ofDigit c := by
  unfold ofChar at h
  split_ifs at h with hs hl hb hc hq hd
  all_goals try cases h
  · exact ⟨hd, rfl⟩
  · split at h <;> cases h

/-- A numeral begins behind a point that stands before a digit, and goes on by its own steps. -/
theorem step_eq_numeral (h : state.step c = some (numeral number)) :
    (∃ kind, state = sign ['.'] kind ∧ c.isDigit = true ∧ number = .digits .fraction) ∨
      ∃ before, state = numeral before ∧ before.step c = some number := by
  have signs : ∀ text, extendSign text c = some (numeral number) →
      text = ['.'] ∧ c.isDigit = true ∧ number = .digits .fraction := by
    intro text
    unfold extendSign
    split
    · simp
    · split <;> grind
  cases state with
  | numeral before =>
    obtain ⟨after, ha, he⟩ := Option.map_eq_some_iff.1 h
    cases he
    exact .inr ⟨before, rfl, ha⟩
  | exclamation => exact absurd (signs _ h).1 (by decide)
  | sign text kind =>
    obtain ⟨rfl, hc, hn⟩ := signs _ h
    exact .inl ⟨kind, rfl, hc, hn⟩
  | word letters =>
    rw [step] at h
    split at h
    · cases h
    · split at h <;> cases h
  | quoted string => simp [step] at h
  | space | lineBreak | comment | backslash | continuation => simp [step] at h

/-- In a numeral, the text is what the numeral has read. -/
def ReadsNumeral (state : State) (text : List Char) : Prop :=
  ∀ number, state = numeral number → number.Reads text

theorem ReadsNumeral.step (hr : state.Reads text) (h : state.ReadsNumeral text)
    (hs : state.step c = some next) : next.ReadsNumeral (text ++ [c]) := by
  rintro number rfl
  obtain ⟨kind, rfl, hc, rfl⟩ | ⟨before, rfl, hb⟩ := step_eq_numeral hs
  · obtain ⟨rfl, -⟩ := hr
    exact DecimalForm.fraction hc .nil
  · exact (h before rfl).step hb

theorem readsNumeral_ofText? (h : ofText? text = some state) : state.ReadsNumeral text := by
  refine ofText?_invariant_of_reads ReadsNumeral ?_ ReadsNumeral.step h
  rintro c state hc number rfl
  obtain ⟨hd, rfl⟩ := ofChar_eq_numeral hc
  unfold Numeral.ofDigit
  split
  · rename_i hz
    rw [hz]
    rfl
  · exact ⟨c, [], rfl, hd, .nil⟩

theorem ofChar_of_isDigit (h : c.isDigit = true) : ofChar c = .ok (numeral (.ofDigit c)) := by
  have ne : ∀ d : Char, d.isDigit = false → c ≠ d :=
    fun d hd => ne_of_apply_ne Char.isDigit (by rw [h, hd]; decide)
  simp [ofChar, isSpace, isLineBreak, isQuote, ne, h]

/-- A point before a digit begins a fraction. -/
theorem step_point (h : c.isDigit = true) (kind : Token.Kind) :
    (sign ['.'] kind).step c = some (numeral (.digits .fraction)) := by
  have alone : ∀ sign ∈ (operatorSigns ++ delimiterSigns).map String.toList,
      sign.head? = some '.' → sign.length = 1 := by decide
  have hs : signKind? (['.'] ++ [c]) = none := by
    rw [signKind?_eq_none_iff]
    intro hm
    have hl : ['.', c].length = 1 := alone _ hm rfl
    cases hl
  rw [step, extendSign, hs]
  simp [h]

/-- A digit begins a number if a decimal may go on with what follows it. -/
theorem ofText?_digit (h : c.isDigit = true) (ha : (Numeral.digits .whole).Accepts cs) :
    ∃ last : Numeral, ofText? (c :: cs) = some (numeral last) ∧ last.fault? = none := by
  obtain ⟨last, hl, hf⟩ := (Numeral.accepts_ofDigit (c := c) ha).after?
  exact ⟨last, ofText?_cons_eq_some_iff.2 ⟨_, ofChar_of_isDigit h, hl⟩, hf⟩

/-- Every number is read to its end as a numeral, and may end there. -/
theorem ofText?_of_numberForm (h : NumberForm text) :
    ∃ last : Numeral, ofText? text = some (numeral last) ∧ last.fault? = none := by
  cases h with
  | @based mark digits ds hf hn hd =>
    obtain ⟨r, hm, rfl⟩ := radixForm_iff.1 hf
    rw [← r.isDigit_eq] at hd
    have zero : Numeral.zero.Accepts (mark :: ds) :=
      .cons (by rw [Numeral.step, hm]) (Numeral.accepts_mark hd hn)
    obtain ⟨last, hl, hf⟩ := zero.after?
    exact ⟨last, ofText?_cons_eq_some_iff.2 ⟨_, rfl, hl⟩, hf⟩
  | @decimal ds es js hd he hj =>
    have suffix : ∀ part, part = .whole ∨ part = .fraction →
        (Numeral.digits part).Accepts (es ++ js) := fun part => Numeral.accepts_exponent he hj
    have fraction : ∀ {fs}, DigitsForm Char.isDigit fs →
        (Numeral.digits .fraction).Accepts (fs ++ (es ++ js)) :=
      fun hf => Numeral.accepts_digits hf (suffix .fraction (.inr rfl))
    rw [List.append_assoc]
    cases hd with
    | @whole c cs hc hcs =>
      exact ofText?_digit hc (Numeral.accepts_digits hcs (suffix .whole (.inl rfl)))
    | @pointed c cs fs hc hcs hfs =>
      have point : (Numeral.digits .whole).step '.' = some (.digits .fraction) := rfl
      rw [List.append_assoc]
      exact ofText?_digit hc (Numeral.accepts_digits hcs (.cons point (fraction hfs)))
    | @fraction c cs hc hcs =>
      obtain ⟨last, hl, hf⟩ := (fraction hcs).after?
      have point : ofChar '.' = .ok (sign ['.'] .delimiter) := rfl
      have digits : (sign ['.'] .delimiter).after? (c :: (cs ++ (es ++ js))) =
          some (numeral last) := by
        rw [after?_cons, step_point hc .delimiter]
        exact hl
      exact ⟨last, ofText?_cons_eq_some_iff.2 ⟨_, point, digits⟩, hf⟩

end Lexeme.State

/-- The texts that are one number by themselves are those of the grammar, no more and no fewer. -/
theorem ofSource_number_iff (source : String) :
    (∃ t, Token.ofSource source = .ok [t] ∧ t.kind = .number) ↔
      NumberForm source.toList := by
  constructor
  · rintro ⟨t, ht, hk⟩
    obtain ⟨-, last, hl, hf⟩ := Token.ofSource_eq_singleton_iff.1 ht
    obtain ⟨number, rfl, hn⟩ : ∃ number, last = .numeral number ∧ number.fault? = none := by
      simpa [hk] using (State.reads_ofText? hl).finish_cases hf
    exact (State.readsNumeral_ofText? hl number rfl).numberForm hn
  · intro h
    obtain ⟨last, hl, hf⟩ := State.ofText?_of_numberForm h
    refine ⟨⟨.number, source⟩, Token.ofSource_eq_singleton_iff.2 ⟨rfl, _, hl, ?_⟩, rfl⟩
    rw [State.finish, hf]

/-- An underscore before the first digit of a fraction, and every suffix. -/
example : Token.ofSource "1._5e-0_2J" = .ok [⟨.number, "1._5e-0_2J"⟩] := by cbv

/-- Each radix, with its mark in either case and an underscore before the first digit. -/
example : Token.ofSource "0B_1 0o7 0X_fF" = .ok [⟨.number, "0B_1"⟩, ⟨.whitespace, " "⟩,
    ⟨.number, "0o7"⟩, ⟨.whitespace, " "⟩, ⟨.number, "0X_fF"⟩] := by cbv

end PackageRecipe
