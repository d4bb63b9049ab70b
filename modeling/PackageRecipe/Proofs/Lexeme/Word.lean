import Mathlib
import PackageRecipe.Proofs.Lexeme.Literal

/-!
Words and the letters before a string. Every prefix of a string is a word, and a word is read to its
end as one, whatever its letters are: only the character behind it decides between the two.
-/
namespace PackageRecipe.Lexeme

theorem isAlpha_of_opensString {word : List Char} (h : opensString word = true) :
    ∀ c ∈ word, c.isAlpha = true := by
  have prefixes : ∀ s ∈ stringPrefixes, ∀ c ∈ s.toList, c.isAlpha = true := by
    simp [stringPrefixes]
  intro c hc
  have hm : String.ofList (word.map Char.toLower) ∈ stringPrefixes := of_decide_eq_true h
  have lower := prefixes _ hm c.toLower (by simpa using ⟨c, hc, rfl⟩)
  rwa [Char.isAlpha_toLower_eq_isAlpha] at lower

theorem toLower_eq_iff {c x : Char} (hx : x.toLower = x) :
    c.toLower = x ↔ c = x ∨ c = x.toUpper := by
  constructor
  · intro h
    by_cases hc : c.isUpper = true
    · have hl : ¬ c.isLower = true := by
        simp [Char.isUpper, Char.isLower, UInt32.le_iff_toNat_le] at hc ⊢
        omega
      right
      rw [← h, Char.toUpper_toLower_eq_toUpper, Char.toUpper_eq_of_not_isLower hl]
    · left
      rw [← h, Char.toLower_eq_of_not_isUpper hc]
  · rintro (rfl | rfl)
    · exact hx
    · rw [Char.toLower_toUpper_eq_toLower, hx]

/-- The prefixes of a string, written out: one letter, or the letter of a raw string and the letter
of another in either order. -/
theorem opensString_iff {letters : List Char} : opensString letters = true ↔
    (∃ c ∈ ['r', 'R', 'b', 'B', 'f', 'F', 'u', 'U'], letters = [c]) ∨
      (∃ c ∈ ['r', 'R'], ∃ d ∈ ['b', 'B', 'f', 'F'], letters = [c, d]) ∨
      ∃ c ∈ ['b', 'B', 'f', 'F'], ∃ d ∈ ['r', 'R'], letters = [c, d] := by
  have lower : opensString letters = true ↔
      letters.map Char.toLower ∈ stringPrefixes.map String.toList := by
    rw [opensString, decide_eq_true_iff, List.mem_map]
    constructor
    · intro h
      exact ⟨_, h, String.toList_ofList⟩
    · rintro ⟨s, hs, he⟩
      rwa [← he, String.ofList_toList]
  have one : ∀ c : Char, c.toLower ∈ ['r', 'b', 'f', 'u'] ↔
      c ∈ ['r', 'R', 'b', 'B', 'f', 'F', 'u', 'U'] := by
    simp [toLower_eq_iff, or_assoc]
  have raw : ∀ c : Char, c.toLower = 'r' ↔ c ∈ ['r', 'R'] := by
    simp [toLower_eq_iff]
  have other : ∀ c : Char, c.toLower ∈ ['b', 'f'] ↔ c ∈ ['b', 'B', 'f', 'F'] := by
    simp [toLower_eq_iff, or_assoc]
  simp only [lower, ← one, ← raw, ← other]
  rcases letters with _ | ⟨c, _ | ⟨d, _ | ⟨e, others⟩⟩⟩
  · simp [stringPrefixes]
  · simp [stringPrefixes]
  · simp only [stringPrefixes, List.map_cons, List.map_nil, String.reduceToList, List.mem_cons,
      List.cons.injEq, List.not_mem_nil]
    grind
  · simp [stringPrefixes]

theorem opensName_of_isAlpha {c : Char} (h : c.isAlpha = true) : Text.opensName c = true := by
  have ascii : c.toNat < 0x80 := by
    simp [Char.isAlpha, Char.isUpper, Char.isLower, UInt32.le_iff_toNat_le] at h
    omega
  simp [Text.opensName, ascii, h]

theorem not_extendsName_of_isQuote {c : Char} (h : isQuote c = true) :
    Text.extendsName c = false := by
  rcases isQuote_iff.1 h with rfl | rfl
  · rfl
  · rfl

/-- A letter that begins a name, and any number of letters that go on with it. -/
def IsWord (word : List Char) : Prop :=
  ∃ c cs, word = c :: cs ∧ Text.opensName c = true ∧ ∀ d ∈ cs, Text.extendsName d = true

theorem isWord_of_opensString {letters : List Char} (h : opensString letters = true) :
    IsWord letters := by
  have hn : letters ≠ [] := by
    rintro rfl
    cases h
  obtain ⟨c, cs, rfl⟩ := List.exists_cons_of_ne_nil hn
  obtain ⟨hc, hcs⟩ := List.forall_mem_cons.1 (isAlpha_of_opensString h)
  exact ⟨c, cs, rfl, opensName_of_isAlpha hc,
    fun d hd => Text.extendsName_of_opensName (opensName_of_isAlpha (hcs d hd))⟩

/-- No digit begins a name. -/
theorem not_isDigit_of_opensName {c : Char} (h : Text.opensName c = true) : c.isDigit = false := by
  rw [Bool.eq_false_iff]
  intro hd
  have ascii : c.toNat < 0x80 := by
    simp [Char.isDigit, UInt32.le_iff_toNat_le] at hd
    omega
  have letter : c.isAlpha = true ∨ c = '_' := by simpa [Text.opensName, ascii] using h
  rcases letter with ha | rfl
  · simp [Char.isAlpha, Char.isUpper, Char.isLower, Char.isDigit, UInt32.le_iff_toNat_le] at ha hd
    omega
  · cases hd

namespace State

variable {c : Char} {cs word : List Char}

theorem ofChar_of_opensName (h : Text.opensName c = true) : ofChar c = .ok (.word [c]) := by
  have ne : ∀ d : Char, Text.opensName d = false → c ≠ d :=
    fun d hd => ne_of_apply_ne Text.opensName (by rw [h, hd]; decide)
  simp [ofChar, isSpace, isLineBreak, isQuote, h, not_isDigit_of_opensName h, ne ' ' (by decide),
    ne '\t' (by decide), ne '\x0c' (by decide), ne '\n' (by decide), ne '\r' (by decide),
    ne '\\' (by decide), ne '#' (by decide), ne '"' (by decide), ne '\'' (by decide)]

theorem after?_word (h : ∀ d ∈ cs, Text.extendsName d = true) (letters : List Char) :
    (State.word letters).after? cs = some (.word (cs.reverse ++ letters)) := by
  induction cs generalizing letters with
  | nil => rfl
  | cons c cs ih =>
    obtain ⟨hc, hcs⟩ := List.forall_mem_cons.1 h
    rw [after?_cons, step, if_pos hc, Option.bind_some, ih hcs, List.reverse_cons,
      List.append_assoc]
    rfl

/-- A word is read to its end as a word. -/
theorem ofText?_of_isWord (h : IsWord word) : ofText? word = some (.word word.reverse) := by
  obtain ⟨c, cs, rfl, hc, hcs⟩ := h
  rw [ofText?_cons_eq_some_iff, List.reverse_cons]
  exact ⟨_, ofChar_of_opensName hc, after?_word hcs [c]⟩

end State
end PackageRecipe.Lexeme
