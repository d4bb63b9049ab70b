import Mathlib
import PackageRecipe.Proofs.Token.Sequence

/-!
Where a faulty lexeme is. A reader that counts lines and columns as it goes names the same place as
one that counts them afterwards, and it stops where the rest of the text, read by itself, is faulty
at its very beginning. What stands before that place is a source of its own.
-/
namespace PackageRecipe

open Lexeme Text

namespace Text.Position

/-- The line is the number of line feeds before it. -/
theorem after_start_line (text : List Char) : (start.after text).line = 1 + text.count '\n' := by
  induction text using List.reverseRecOn with
  | nil => rfl
  | append_singleton cs c ih =>
    rw [after_append, after_cons, after_nil, next, List.count_append, List.count_singleton]
    by_cases hc : c = '\n'
    · rw [if_pos hc, if_pos (by simp [hc])]
      simp only [ih, Nat.add_assoc]
    · rw [if_neg hc, if_neg (by simp [hc]), Nat.add_zero]
      exact ih

/-- The column is the number of characters after the last line feed. -/
theorem after_start_column (text : List Char) :
    (start.after text).column = 1 + (text.rtakeWhile (· ≠ '\n')).length := by
  induction text using List.reverseRecOn with
  | nil => rfl
  | append_singleton cs c ih =>
    rw [after_append, after_cons, after_nil, next]
    by_cases hc : c = '\n'
    · rw [if_pos hc, List.rtakeWhile_concat_neg _ _ _ (by simp [hc])]
      rfl
    · rw [if_neg hc, List.rtakeWhile_concat_pos _ _ _ (by simp [hc]), List.length_append]
      simp only [ih, List.length_singleton, Nat.add_assoc]

end Text.Position

/-- Reading that counts as it goes: the tokens of a text that begins at `p`, or its first fault. -/
def Token.readAt (p : Position) : List Char → Except LexemeError (List Token)
  | [] => .ok []
  | c :: cs =>
    match _h : Token.first c cs with
    | .error fault => .error ⟨fault, p⟩
    | .ok (t, rest) => (readAt (p.after t.text.toList) rest).map (t :: ·)
termination_by cs => cs.length
decreasing_by
  have := Token.first_rest_length _h
  simp only [List.length_cons]
  omega

namespace Token

variable {c : Char} {cs rest : List Char} {t : Token} {fault : Fault} {e : LexemeError}

@[simp] theorem readAt_nil (p : Position) : readAt p [] = .ok [] := by rw [readAt]

theorem readAt_of_error (p : Position) (h : first c cs = .error fault) :
    readAt p (c :: cs) = .error ⟨fault, p⟩ := by
  rw [readAt]
  split
  · rename_i he
    rw [h] at he
    cases he
    rfl
  · rename_i he
    rw [h] at he
    cases he

theorem readAt_of_ok (p : Position) (h : first c cs = .ok (t, rest)) :
    readAt p (c :: cs) = (readAt (p.after t.text.toList) rest).map (t :: ·) := by
  rw [readAt]
  split
  · rename_i he
    rw [h] at he
    cases he
  · rename_i he
    rw [h] at he
    cases he
    rfl

end Token

/-- Counting as one goes leads where counting afterwards does. -/
theorem Reading.ofChars_eq_readAt (p : Position) (cs : List Char) :
    (match (Reading.ofChars cs).fault with
      | none => .ok (Reading.ofChars cs).tokens
      | some fault => .error ⟨fault, p.after (sourceText (Reading.ofChars cs).tokens).toList⟩) =
    Token.readAt p cs := by
  induction cs using Reading.ofChars.induct generalizing p with
  | case1 => simp [Reading.ofChars]
  | case2 c cs fault h =>
    rw [Reading.ofChars_of_error h, Token.readAt_of_error p h]
    rfl
  | case3 c cs t rest h ih =>
    rw [Reading.ofChars_cons h, Token.readAt_of_ok p h, ← ih]
    simp only [Reading.cons, sourceText_cons, String.toList_append, Position.after_append]
    cases (Reading.ofChars rest).fault with
    | none => rfl
    | some fault => rfl

theorem Token.ofSource_eq_readAt (source : String) :
    Token.ofSource source = Token.readAt .start source.toList :=
  Reading.ofChars_eq_readAt .start source.toList

/-- A fault stands right after the tokens read before it, and a reading that begins where it stands
meets it at once, wherever that place is counted to be. -/
theorem Token.readAt_error {p : Position} {cs : List Char} {e : LexemeError}
    (h : Token.readAt p cs = .error e) :
    ∃ ts rest, cs = (sourceText ts).toList ++ rest ∧ rest ≠ [] ∧ Lexed ts rest ∧
      e.position = p.after (sourceText ts).toList ∧
      ∀ q, Token.readAt q rest = .error ⟨e.fault, q⟩ := by
  induction cs using Reading.ofChars.induct generalizing p with
  | case1 =>
    rw [Token.readAt_nil] at h
    cases h
  | case2 c cs fault hf =>
    rw [Token.readAt_of_error p hf] at h
    cases h
    exact ⟨[], c :: cs, rfl, List.cons_ne_nil _ _, lexed_nil _, rfl,
      fun q => Token.readAt_of_error q hf⟩
  | case3 c cs t rest ht ih =>
    rw [Token.readAt_of_ok p ht] at h
    cases hr : Token.readAt (p.after t.text.toList) rest with
    | ok ts =>
      rw [hr] at h
      cases h
    | error e' =>
      rw [hr] at h
      cases h
      obtain ⟨ts, left, rfl, hne, hl, hp, hq⟩ := ih hr
      obtain ⟨hcs, he⟩ := Token.first_eq_ok_iff_endsBefore.1 ht
      refine ⟨t :: ts, left, ?_, hne, ⟨he, hl⟩, ?_, hq⟩
      · rw [hcs, sourceText_cons, String.toList_append, List.append_assoc]
      · rw [hp, sourceText_cons, String.toList_append, Position.after_append]

/-- Where a source that cannot be read is faulty: what stands before the place of the fault is a
source of its own, the place is counted over it in lines and in characters of the last line, and
what stands from there on is faulty at its very beginning, for the same reason. -/
theorem ofSource_located {source : String} {e : LexemeError}
    (h : Token.ofSource source = .error e) :
    ∃ (before after : String) (ts : List Token), source = before ++ after ∧ after ≠ "" ∧
      Token.ofSource before = .ok ts ∧
      e.position.line = 1 + before.toList.count '\n' ∧
      e.position.column = 1 + (before.toList.rtakeWhile (· ≠ '\n')).length ∧
      Token.ofSource after = .error ⟨e.fault, ⟨1, 1⟩⟩ := by
  rw [Token.ofSource_eq_readAt] at h
  obtain ⟨ts, rest, hs, hne, hl, hp, hq⟩ := Token.readAt_error h
  have before : Token.ofSource (sourceText ts) = .ok ts :=
    Token.ofSource_eq_ok_iff.2 ⟨rfl, hl.of_head? (by simp)⟩
  refine ⟨sourceText ts, String.ofList rest, ts, ?_, ?_, before, ?_, ?_, ?_⟩
  · apply String.toList_injective
    rw [hs, String.toList_append, String.toList_ofList]
  · intro he
    apply hne
    rw [← String.toList_ofList (l := rest), he]
    rfl
  · rw [hp, Position.after_start_line]
  · rw [hp, Position.after_start_column]
  · rw [Token.ofSource_eq_readAt, String.toList_ofList]
    exact hq .start

/-- A long string with a line feed in it, a continued line and a letter outside ASCII before a sign
that is none. -/
theorem ofSource_located_sign :
    ∃ (before after : String) (ts : List Token),
      "x = '''a\n'''\\\n + é!x" = before ++ after ∧ after ≠ "" ∧
      Token.ofSource before = .ok ts ∧
      3 = 1 + before.toList.count '\n' ∧
      5 = 1 + (before.toList.rtakeWhile (· ≠ '\n')).length ∧
      Token.ofSource after = .error ⟨.invalidOperator '!', ⟨1, 1⟩⟩ :=
  ofSource_located (e := ⟨.invalidOperator '!', ⟨3, 5⟩⟩) (by cbv)

end PackageRecipe
