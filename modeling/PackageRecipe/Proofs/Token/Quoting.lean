import PackageRecipe.Proofs.Token.Quotation

/-!
Strings between double quotation marks. Contents that may stand in a string of one mark are read as
one token between the marks, and its contents are what was put there.
-/
namespace PackageRecipe

open Lexeme

/-- The text between double quotation marks. -/
def quoted (s : String) : String := "\"" ++ s ++ "\""

/-- The string token with these contents. -/
def Token.quoting (s : String) : Token := ⟨.string, quoted s⟩

/-- No character of the text has a meaning of its own between double quotation marks. -/
def IsPlain (s : String) : Prop := ∀ c ∈ s.toList, c ≠ '"' ∧ c ≠ '\\' ∧ c ≠ '\n' ∧ c ≠ '\r'

theorem toList_quoted (s : String) : (quoted s).toList = '"' :: (s.toList ++ ['"']) := by
  rw [quoted, String.toList_append, String.toList_append]
  rfl

theorem IsPlain.shortContents {s : String} (h : IsPlain s) : ShortContents '"' s.toList := by
  have all : ∀ cs : List Char, (∀ c ∈ cs, c ≠ '"' ∧ c ≠ '\\' ∧ c ≠ '\n' ∧ c ≠ '\r') →
      ShortContents '"' cs := by
    intro cs hcs
    induction cs with
    | nil => exact .nil
    | cons c cs ih =>
      obtain ⟨⟨hq, hb, hn, hr⟩, hcs⟩ := List.forall_mem_cons.1 hcs
      exact .plain hb hq (by simp [isLineBreak, hn, hr]) (ih hcs)
  exact all _ h

namespace Lexeme

/-- One double quotation mark at either end, and no prefix letters. -/
def Quotation.plain : Quotation := ⟨[], '"', false, .inl rfl, rfl⟩

theorem quoted_eq_literal (s : String) :
    quoted s = String.ofList (Quotation.plain.literal s.toList) := by
  apply String.toList_injective
  rw [toList_quoted, String.toList_ofList]
  rfl

end Lexeme

namespace Token

variable {s : String}

/-- A quoted text is read as one token. -/
theorem ofSource_quoted (h : ShortContents '"' s.toList) :
    Token.ofSource (quoted s) = .ok [quoting s] := by
  rw [quoting, quoted_eq_literal]
  exact ofSource_of_holds (show Quotation.plain.Holds s.toList from h)

/-- What stands between the marks are the contents. -/
theorem contents_quoting (h : ShortContents '"' s.toList) : (quoting s).contents = .ok s := by
  have ht : (quoting s).text.toList = Quotation.plain.literal s.toList := toList_quoted s
  rw [contents_literal rfl ht h, String.ofList_toList]

end Token
end PackageRecipe
