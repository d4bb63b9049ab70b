import PackageRecipe.Proofs.Lexeme.Word
import PackageRecipe.Proofs.Token.Sequence
import PackageRecipe.Token.Contents

/-!
The contents of the strings that reading finds. Every one of them is a literal, and taking the
contents out of a literal gives what stands between its marks: prefix letters are letters, marks are
one byte long, and a string of one mark never begins with three.
-/
namespace PackageRecipe

open Lexeme

/-- A string with three marks at either end. -/
def Token.isLongString (t : Token) : Bool :=
  t.kind = .string && (literalBody t.text.toList).head?.any fun mark =>
    isLong mark (literalBody t.text.toList)

namespace Lexeme

theorem not_isAlpha_of_isQuote {c : Char} (h : isQuote c = true) : c.isAlpha = false := by
  rcases isQuote_iff.1 h with rfl | rfl <;> decide

theorem utf8Size_of_isQuote {c : Char} (h : isQuote c = true) : c.utf8Size = 1 := by
  rcases isQuote_iff.1 h with rfl | rfl <;> rfl

theorem ne_backslash_of_isQuote {c : Char} (h : isQuote c = true) : c ≠ '\\' := by
  rcases isQuote_iff.1 h with rfl | rfl <;> decide

end Lexeme

theorem byteLength_append (cs ds : List Char) :
    byteLength (cs ++ ds) = byteLength cs + byteLength ds := by
  induction cs with
  | nil => simp [byteLength]
  | cons c cs ih => simp only [List.cons_append, byteLength, ih, Nat.add_assoc]

theorem byteLength_reverse (cs : List Char) : byteLength cs.reverse = byteLength cs := by
  induction cs with
  | nil => rfl
  | cons c cs ih =>
    rw [List.reverse_cons, byteLength_append, ih]
    simp only [byteLength, Nat.add_zero, Nat.add_comm]

/-- As many bytes as a text begins with are dropped with that beginning. -/
theorem dropBytes?_append {n : Nat} {cs : List Char} (h : byteLength cs = n) (ds : List Char) :
    dropBytes? n (cs ++ ds) = some ds := by
  induction cs generalizing n with
  | nil =>
    subst h
    simp [byteLength, dropBytes?]
  | cons c cs ih =>
    rw [byteLength] at h
    cases n with
    | zero =>
      have := c.utf8Size_pos
      omega
    | succ n =>
      rw [List.cons_append, dropBytes?, if_pos (by omega)]
      exact ih (by omega)

/-- The text between ends of that many bytes each. -/
theorem trimBytes?_append {n : Nat} {front back : List Char} (hf : byteLength front = n)
    (hb : byteLength back = n) (cs : List Char) : trimBytes? n (front ++ cs ++ back) = some cs := by
  have hr : byteLength back.reverse = n := by rw [byteLength_reverse, hb]
  rw [trimBytes?, List.append_assoc, dropBytes?_append hf]
  simp only [Option.bind_eq_bind, Option.bind_some]
  rw [List.reverse_append, dropBytes?_append hr]
  simp

/-- The body begins and ends with three marks, which need not be six. -/
def IsTripled (mark : Char) (body : List Char) : Prop :=
  [mark, mark, mark] <+: body ∧ [mark, mark, mark] <:+ body

instance (mark : Char) (body : List Char) : Decidable (IsTripled mark body) :=
  inferInstanceAs (Decidable (_ ∧ _))

theorem isLong_iff {mark : Char} {body : List Char} :
    isLong mark body = true ↔ 6 ≤ byteLength body ∧ IsTripled mark body := by
  simp [isLong, IsTripled, and_assoc]

/-- Before the mark only prefix letters are dropped. -/
theorem literalBody_append {letters : List Char} (hl : letters = [] ∨ opensString letters = true)
    {mark : Char} (hm : isQuote mark = true) (cs : List Char) :
    literalBody (letters ++ mark :: cs) = mark :: cs := by
  have alpha : ∀ c ∈ letters, c.isAlpha = true := by
    rcases hl with rfl | hl
    · nofun
    · exact isAlpha_of_opensString hl
  rw [literalBody, List.dropWhile_append_of_pos alpha,
    List.dropWhile_cons_of_neg (by simp [not_isAlpha_of_isQuote hm])]

namespace Lexeme.Quotation

variable {quotation : Quotation} {cs : List Char}

theorem marks_eq_cons (quotation : Quotation) :
    ∃ marks, quotation.marks = quotation.mark :: marks := by
  unfold marks
  split
  · exact ⟨_, rfl⟩
  · exact ⟨_, rfl⟩

theorem literalBody_literal (quotation : Quotation) (cs : List Char) :
    literalBody (quotation.literal cs) = quotation.marks ++ cs ++ quotation.marks := by
  obtain ⟨marks, hm⟩ := quotation.marks_eq_cons
  rw [literal, List.append_assoc, List.append_assoc, List.append_assoc, hm, List.cons_append]
  exact literalBody_append quotation.letters_open quotation.mark_isQuote _

theorem byteLength_marks (quotation : Quotation) :
    byteLength [quotation.mark, quotation.mark, quotation.mark] = 3 := by
  simp [byteLength, utf8Size_of_isQuote quotation.mark_isQuote]

/-- The body of a literal looks long exactly if the literal is. -/
theorem isLong_literalBody (h : quotation.Holds cs) :
    isLong quotation.mark (literalBody (quotation.literal cs)) = quotation.long := by
  rw [literalBody_literal, marks]
  cases hl : quotation.long with
  | true =>
    rw [if_pos rfl, isLong_iff, byteLength_append, byteLength_append, quotation.byteLength_marks]
    refine ⟨by omega, ?_, List.suffix_append _ _⟩
    rw [List.append_assoc]
    exact List.prefix_append _ _
  | false =>
    rw [Holds, hl, if_neg Bool.false_ne_true] at h
    rw [if_neg Bool.false_ne_true, Bool.eq_false_iff, Ne, isLong_iff]
    rintro ⟨-, hp, -⟩
    have hm := (h.marks_prefix (ne_backslash_of_isQuote quotation.mark_isQuote) hp).2
    simp at hm

theorem bodyContents_literal (h : quotation.Holds cs) :
    bodyContents (literalBody (quotation.literal cs)) = .ok cs := by
  have hl := isLong_literalBody h
  rw [literalBody_literal, marks] at hl ⊢
  cases hlong : quotation.long with
  | true =>
    have ht := trimBytes?_append quotation.byteLength_marks quotation.byteLength_marks cs
    simp only [hlong, if_true, List.cons_append, List.nil_append] at hl ht ⊢
    rw [bodyContents, if_pos hl, ht]
  | false =>
    simp only [hlong, Bool.false_eq_true, if_false, List.cons_append, List.nil_append] at hl ⊢
    rw [bodyContents, if_neg (by simp [hl]), if_pos (by simp), List.dropLast_concat]

end Lexeme.Quotation

namespace Token

variable {t : Token} {rest : List Char}

/-- Every string that reading finds is a literal. -/
theorem EndsBefore.exists_literal (h : t.EndsBefore rest) (hk : t.kind = .string) :
    ∃ (quotation : Quotation) (cs : List Char), t.text.toList = quotation.literal cs ∧
      quotation.Holds cs := by
  obtain ⟨last, hl, hf, -⟩ := h
  obtain ⟨string, rfl, hs⟩ : ∃ string, last = .quoted string ∧ string.fault? none = none := by
    simpa [hk] using (State.reads_ofText? hl).finish_cases hf
  exact State.exists_literal hl hs

variable {quotation : Quotation} {cs : List Char}

/-- The contents of a literal are what stands between its marks. -/
theorem contents_literal (hk : t.kind = .string) (ht : t.text.toList = quotation.literal cs)
    (h : quotation.Holds cs) : t.contents = .ok (String.ofList cs) := by
  rw [contents, if_pos hk, ht, Quotation.bodyContents_literal h]
  rfl

theorem isLongString_literal (hk : t.kind = .string) (ht : t.text.toList = quotation.literal cs)
    (h : quotation.Holds cs) : t.isLongString = quotation.long := by
  obtain ⟨marks, hm⟩ := quotation.marks_eq_cons
  have hh : (quotation.marks ++ cs ++ quotation.marks).head? = some quotation.mark := by
    rw [hm]
    rfl
  rw [isLongString, ht, ← Quotation.isLong_literalBody h, Quotation.literalBody_literal, hh]
  simp [hk]

/-- A string that reading finds is long if it begins with three marks. -/
theorem EndsBefore.isLongString_iff (h : t.EndsBefore rest) (hk : t.kind = .string) :
    t.isLongString = true ↔ ∃ mark, [mark, mark, mark] <+: literalBody t.text.toList := by
  obtain ⟨quotation, cs, ht, hc⟩ := h.exists_literal hk
  rw [isLongString_literal hk ht hc, ht, Quotation.literalBody_literal, Quotation.marks]
  unfold Quotation.Holds at hc
  cases hl : quotation.long with
  | true =>
    refine iff_of_true rfl ⟨quotation.mark, ?_⟩
    rw [if_pos rfl, List.append_assoc]
    exact List.prefix_append _ _
  | false =>
    refine iff_of_false Bool.false_ne_true ?_
    rintro ⟨mark, hp⟩
    rw [hl, if_neg Bool.false_ne_true] at hc
    rw [if_neg Bool.false_ne_true, List.append_assoc, List.singleton_append] at hp
    obtain rfl : mark = quotation.mark := (List.cons_prefix_cons.1 hp).1
    have hm := (hc.marks_prefix (ne_backslash_of_isQuote quotation.mark_isQuote) hp).2
    simp at hm

/-- Whether the string is long shows in any part of it that reaches its first mark. -/
theorem EndsBefore.isLongString_iff_reads (h : t.EndsBefore rest) (hk : t.kind = .string)
    {before after : List Char} (ht : t.text.toList = before ++ after) {string : Quoted}
    (hb : State.ofText? before = some (.quoted string)) :
    ∃ q body, isQuote q = true ∧ string.Reads q body ∧
      (t.isLongString = true ↔ [q, q, q] <+: body ++ after) := by
  obtain ⟨letters, q, body, rfl, hletters, hq, hread⟩ := State.readsString_ofText? hb _ rfl
  refine ⟨q, body, hq, hread, ?_⟩
  obtain ⟨tail, rfl⟩ := hread.eq_cons
  rw [h.isLongString_iff hk, ht, List.append_assoc, List.cons_append,
    literalBody_append hletters hq]
  constructor
  · rintro ⟨mark, hm⟩
    obtain rfl : mark = q := (List.cons_prefix_cons.1 hm).1
    exact hm
  · intro hm
    exact ⟨q, hm⟩

end Token
end PackageRecipe
