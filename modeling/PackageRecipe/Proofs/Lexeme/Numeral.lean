import Mathlib
import PackageRecipe.Lexeme.Form
import PackageRecipe.Proofs.Lexeme.Shape

/-!
Numerals and the grammar of numbers. What a numeral has read is described part by part, and every
step keeps the description, so a numeral that may end has read a number. The other way round, every
form of the grammar is taken character by character from the state that it begins in.
-/
namespace PackageRecipe.Lexeme

section Forms

variable {isDigit : Char → Bool} {cs ds : List Char} {c : Char}

theorem DigitsForm.append (h : DigitsForm isDigit cs) (hd : DigitsForm isDigit ds) :
    DigitsForm isDigit (cs ++ ds) := by
  induction h with
  | nil => exact hd
  | digit hc _ ih => exact .digit hc ih
  | separated hc _ ih => exact .separated hc ih

theorem DigitsForm.single (h : isDigit c = true) : DigitsForm isDigit [c] := .digit h .nil

/-- More digits at the end leave a decimal a decimal, wherever its point is. -/
theorem DecimalForm.append (h : DecimalForm cs) (hd : DigitsForm Char.isDigit ds) :
    DecimalForm (cs ++ ds) := by
  cases h with
  | whole hc hw => exact .whole hc (hw.append hd)
  | pointed hc hw hf =>
    rw [List.append_assoc]
    exact .pointed hc hw (hf.append hd)
  | fraction hc hf => exact .fraction hc (hf.append hd)

theorem ExponentForm.append (h : ExponentForm cs) (hn : cs ≠ [])
    (hd : DigitsForm Char.isDigit ds) : ExponentForm (cs ++ ds) := by
  cases h with
  | absent => exact absurd rfl hn
  | present hm hs hc he =>
    rw [List.append_assoc]
    exact .present hm hs hc (he.append hd)

end Forms

/-- The digits of a radix, one by one. -/
def Radix.digits : Radix → List Char
  | binary => ['0', '1']
  | octal => ['0', '1', '2', '3', '4', '5', '6', '7']
  | hexadecimal =>
    ['0', '1', '2', '3', '4', '5', '6', '7', '8', '9', 'a', 'b', 'c', 'd', 'e', 'f', 'A', 'B', 'C',
      'D', 'E', 'F']

theorem Radix.isDigit_eq (r : Radix) : r.isDigit = (· ∈ r.digits) := by
  funext c
  apply Bool.eq_iff_iff.2
  cases r with
  | binary => simp [isDigit, digits]
  | octal | hexadecimal =>
    simp [isDigit, digits, Char.isDigit, Char.le_def, UInt32.le_iff_toNat_le, Char.ext_iff,
      ← UInt32.toNat_inj]
    omega

/-- The reader goes by the marks and digits of the grammar. -/
theorem radixForm_iff {mark : Char} {digits : List Char} :
    RadixForm mark digits ↔ ∃ r, Radix.ofMark? mark = some r ∧ digits = r.digits := by
  constructor
  · intro h
    cases h with
    | binary hm => exact ⟨.binary, by rcases hm with rfl | rfl <;> rfl, rfl⟩
    | octal hm => exact ⟨.octal, by rcases hm with rfl | rfl <;> rfl, rfl⟩
    | hexadecimal hm => exact ⟨.hexadecimal, by rcases hm with rfl | rfl <;> rfl, rfl⟩
  · intro h
    obtain ⟨r, hr, rfl⟩ := h
    unfold Radix.ofMark? at hr
    cases r with
    | binary => exact .binary (by grind)
    | octal => exact .octal (by grind)
    | hexadecimal => exact .hexadecimal (by grind)

/-- What a numeral is written with: digits and letters, the underscore between digits, the point of
a fraction and the sign of an exponent. -/
def extendsNumeral (c : Char) : Bool := c.isAlphanum || c ∈ ['_', '.', '+', '-']

section Characters

variable {part : NumeralPart} {number next : Numeral} {r : Radix} {c : Char}

theorem Radix.isAlphanum_of_isDigit (h : r.isDigit c = true) : c.isAlphanum = true := by
  have alphanumeric : r.digits.all Char.isAlphanum = true := by
    cases r
    all_goals rfl
  rw [r.isDigit_eq] at h
  exact List.all_eq_true.1 alphanumeric c (of_decide_eq_true h)

theorem Radix.mem_marks (h : ofMark? c = some r) : c ∈ ['b', 'B', 'o', 'O', 'x', 'X'] := by
  unfold ofMark? at h
  grind

theorem extendsNumeral_of_isDigit (h : part.isDigit c = true) : extendsNumeral c = true := by
  have hc : c.isAlphanum = true := by
    cases part with
    | based r => exact r.isAlphanum_of_isDigit h
    | whole | fraction | exponent =>
      have hd : c.isDigit = true := h
      rw [Char.isAlphanum, hd, Bool.or_true]
  rw [extendsNumeral, hc, Bool.true_or]

theorem extendsNumeral_of_firstDigit (h : Numeral.firstDigit part c = some next) :
    extendsNumeral c = true := by
  unfold Numeral.firstDigit at h
  split at h
  · exact extendsNumeral_of_isDigit ‹_›
  · cases h

theorem extendsNumeral_of_leave (h : Numeral.leave part c = some next) :
    extendsNumeral c = true := by
  have hc : c ∈ ['.', 'e', 'E', 'j', 'J'] := by
    unfold Numeral.leave at h
    grind
  simp only [List.mem_cons, List.not_mem_nil, or_false] at hc
  rcases hc with rfl | rfl | rfl | rfl | rfl
  all_goals decide

theorem extendsNumeral_of_afterDigits (h : Numeral.afterDigits part c = some next) :
    extendsNumeral c = true := by
  unfold Numeral.afterDigits at h
  split at h
  · exact extendsNumeral_of_isDigit ‹_›
  split at h
  · rename_i hc
    rw [hc]
    decide
  · exact extendsNumeral_of_leave h

/-- A numeral goes on with no other character. -/
theorem extendsNumeral_of_step (h : number.step c = some next) : extendsNumeral c = true := by
  cases number with
  | zero =>
    rw [Numeral.step] at h
    split at h
    · rename_i r hr
      have hm := Radix.mem_marks hr
      simp only [List.mem_cons, List.not_mem_nil, or_false] at hm
      rcases hm with rfl | rfl | rfl | rfl | rfl | rfl
      all_goals decide
    · exact extendsNumeral_of_afterDigits h
  | mark r =>
    rw [Numeral.step] at h
    split at h
    · rename_i hc
      rw [hc]
      decide
    · exact extendsNumeral_of_firstDigit h
  | exponentMark =>
    rw [Numeral.step] at h
    split at h
    · rename_i hc
      have hsign : c = '+' ∨ c = '-' := by simpa using hc
      rcases hsign with rfl | rfl
      · decide
      · decide
    · exact extendsNumeral_of_firstDigit h
  | digits part => exact extendsNumeral_of_afterDigits h
  | gap part | exponentSign => exact extendsNumeral_of_firstDigit h
  | imaginary => cases h

end Characters

/-- The text of a numeral whose last digits are those of the part. -/
def NumeralPart.Reads : NumeralPart → List Char → Prop
  | whole, cs => ∃ c ds, cs = c :: ds ∧ c.isDigit = true ∧ DigitsForm Char.isDigit ds
  | fraction, cs => DecimalForm cs
  | exponent, cs => ∃ ds es, cs = ds ++ es ∧ DecimalForm ds ∧ ExponentForm es ∧ es ≠ []
  | based r, cs => ∃ mark ds, cs = '0' :: mark :: ds ∧ Radix.ofMark? mark = some r ∧ ds ≠ [] ∧
      DigitsForm r.isDigit ds

/-- The text that a numeral has read. Where a digit has to follow, any digit does. -/
def Numeral.Reads : Numeral → List Char → Prop
  | zero, cs => cs = ['0']
  | mark r, cs => ∃ mark, cs = ['0', mark] ∧ Radix.ofMark? mark = some r
  | digits part, cs => part.Reads cs
  | gap part, cs => ∀ c, part.isDigit c = true → part.Reads (cs ++ [c])
  | exponentMark, cs => ∃ ds mark, cs = ds ++ [mark] ∧ DecimalForm ds ∧ (mark = 'e' ∨ mark = 'E')
  | exponentSign, cs => ∀ c, c.isDigit = true → NumeralPart.exponent.Reads (cs ++ [c])
  | imaginary, cs => ∃ ds es js, cs = ds ++ es ++ js ∧ DecimalForm ds ∧ ExponentForm es ∧
      ImaginaryForm js

section Reads

variable {part : NumeralPart} {number next : Numeral} {cs ds : List Char} {c : Char}

theorem NumeralPart.Reads.append (h : part.Reads cs) (hd : DigitsForm part.isDigit ds) :
    part.Reads (cs ++ ds) := by
  cases part with
  | whole =>
    obtain ⟨c, ws, rfl, hc, hw⟩ := h
    exact ⟨c, ws ++ ds, rfl, hc, hw.append hd⟩
  | fraction => exact DecimalForm.append h hd
  | exponent =>
    obtain ⟨ws, es, rfl, hw, he, hn⟩ := h
    exact ⟨ws, es ++ ds, List.append_assoc _ _ _, hw, he.append hn hd, by simp [hn]⟩
  | based r =>
    obtain ⟨mark, ws, rfl, hm, hn, hw⟩ := h
    exact ⟨mark, ws ++ ds, rfl, hm, by simp [hn], hw.append hd⟩

/-- The digits before an exponent or an imaginary suffix. -/
theorem NumeralPart.Reads.decimal (h : part.Reads cs) (hp : part = .whole ∨ part = .fraction) :
    DecimalForm cs := by
  rcases hp with rfl | rfl
  · obtain ⟨c, ds, rfl, hc, hd⟩ := h
    exact .whole hc hd
  · exact h

theorem Numeral.reads_leave (h : part.Reads cs) (hs : leave part c = some next) :
    next.Reads (cs ++ [c]) := by
  unfold leave at hs
  split at hs
  · rename_i hc
    obtain ⟨rfl, rfl⟩ : part = .whole ∧ c = '.' := by simpa using hc
    obtain rfl := Option.some.inj hs
    obtain ⟨d, ds, rfl, hd, hw⟩ := h
    exact .pointed hd hw .nil
  split at hs
  · rename_i hc
    obtain ⟨hp, hm⟩ : (part = .whole ∨ part = .fraction) ∧ (c = 'e' ∨ c = 'E') := by simpa using hc
    obtain rfl := Option.some.inj hs
    exact ⟨cs, c, rfl, h.decimal hp, hm⟩
  split at hs
  · rename_i hc
    obtain ⟨hp, hm⟩ : ((part = .whole ∨ part = .fraction) ∨ part = .exponent) ∧
        (c = 'j' ∨ c = 'J') := by simpa using hc
    obtain rfl := Option.some.inj hs
    rcases hp with hp | rfl
    · exact ⟨cs, [], [c], by simp, h.decimal hp, .absent, .present hm⟩
    · obtain ⟨ds, es, rfl, hd, he, -⟩ := h
      exact ⟨ds, es, [c], rfl, hd, he, .present hm⟩
  · cases hs

theorem Numeral.reads_afterDigits (h : part.Reads cs) (hs : afterDigits part c = some next) :
    next.Reads (cs ++ [c]) := by
  unfold afterDigits at hs
  split at hs
  · rename_i hc
    obtain rfl := Option.some.inj hs
    exact h.append (.single hc)
  split at hs
  · rename_i hc
    obtain rfl := Option.some.inj hs
    intro d hd
    rw [List.append_assoc, hc]
    exact h.append (.separated hd .nil)
  · exact reads_leave h hs

/-- A digit that has to follow does so. -/
theorem Numeral.reads_firstDigit (h : ∀ d, part.isDigit d = true → part.Reads (cs ++ [d]))
    (hs : firstDigit part c = some next) : next.Reads (cs ++ [c]) := by
  unfold firstDigit at hs
  split at hs
  · rename_i hc
    obtain rfl := Option.some.inj hs
    exact h c hc
  · cases hs

/-- Each step adds its character. -/
theorem Numeral.Reads.step (h : number.Reads cs) (hs : number.step c = some next) :
    next.Reads (cs ++ [c]) := by
  cases number with
  | zero =>
    obtain rfl : cs = ['0'] := h
    rw [Numeral.step] at hs
    split at hs
    · rename_i r hr
      obtain rfl := Option.some.inj hs
      exact ⟨c, rfl, hr⟩
    · have whole : NumeralPart.whole.Reads ['0'] := ⟨'0', [], rfl, rfl, .nil⟩
      exact reads_afterDigits whole hs
  | mark r =>
    obtain ⟨mark, rfl, hr⟩ := h
    rw [Numeral.step] at hs
    split at hs
    · rename_i hc
      obtain rfl := Option.some.inj hs
      intro d hd
      exact ⟨mark, ['_', d], by simp [hc], hr, by simp, .separated hd .nil⟩
    · have first : ∀ d, (NumeralPart.based r).isDigit d = true →
          (NumeralPart.based r).Reads (['0', mark] ++ [d]) :=
        fun d hd => ⟨mark, [d], rfl, hr, by simp, .single hd⟩
      exact reads_firstDigit first hs
  | digits part => exact reads_afterDigits h hs
  | gap part => exact reads_firstDigit h hs
  | exponentMark =>
    obtain ⟨ds, mark, rfl, hd, hm⟩ := h
    -- with a digit behind it the mark is an exponent, whether a sign stands between or not
    have completed : ∀ sign, sign = [] ∨ sign = ['+'] ∨ sign = ['-'] → ∀ d : Char,
        d.isDigit = true → NumeralPart.exponent.Reads (ds ++ mark :: sign ++ [d]) := by
      intro sign hsign d hc
      exact ⟨ds, mark :: sign ++ [d], by simp, hd, .present hm hsign hc .nil, by simp⟩
    rw [Numeral.step] at hs
    split at hs
    · rename_i hc
      obtain rfl := Option.some.inj hs
      rw [List.append_assoc]
      exact completed [c] (by simpa using hc)
    · have first : ∀ d, NumeralPart.exponent.isDigit d = true →
          NumeralPart.exponent.Reads (ds ++ [mark] ++ [d]) := completed [] (.inl rfl)
      exact reads_firstDigit first hs
  | exponentSign =>
    have first : ∀ d, NumeralPart.exponent.isDigit d = true →
        NumeralPart.exponent.Reads (cs ++ [d]) := h
    exact reads_firstDigit first hs
  | imaginary => cases hs

theorem DecimalForm.numberForm (h : DecimalForm cs) : NumberForm cs := by
  have := NumberForm.decimal h .absent .absent
  rwa [List.append_nil, List.append_nil] at this

/-- A numeral that may end has read a number. -/
theorem Numeral.Reads.numberForm (h : number.Reads cs) (hf : number.fault? = none) :
    NumberForm cs := by
  cases number with
  | zero =>
    obtain rfl : cs = ['0'] := h
    exact (DecimalForm.whole rfl .nil).numberForm
  | digits part =>
    cases part with
    | whole =>
      have whole : NumeralPart.whole.Reads cs := h
      exact (whole.decimal (.inl rfl)).numberForm
    | fraction => exact DecimalForm.numberForm h
    | exponent =>
      obtain ⟨ds, es, rfl, hd, he, -⟩ := h
      have := NumberForm.decimal hd he .absent
      rwa [List.append_nil] at this
    | based r =>
      obtain ⟨mark, ds, rfl, hm, hn, hd⟩ := h
      rw [r.isDigit_eq] at hd
      exact .based (radixForm_iff.2 ⟨r, hm, rfl⟩) hn hd
  | imaginary =>
    obtain ⟨ds, es, js, rfl, hd, he, hj⟩ := h
    exact .decimal hd he hj
  | mark | gap | exponentMark | exponentSign => cases hf

end Reads

/-- The numeral may go on with exactly these characters and then end. -/
inductive Numeral.Accepts : Numeral → List Char → Prop where
  | nil {number : Numeral} : number.fault? = none → Accepts number []
  | cons {number next : Numeral} {c : Char} {cs : List Char} :
      number.step c = some next → Accepts next cs → Accepts number (c :: cs)

namespace Numeral

variable {part : NumeralPart} {number : Numeral} {cs ds es js : List Char} {c : Char}

theorem Accepts.after? (h : number.Accepts cs) : ∃ last : Numeral,
    (State.numeral number).after? cs = some (.numeral last) ∧ last.fault? = none := by
  induction h with
  | @nil number hf => exact ⟨number, rfl, hf⟩
  | @cons number next c cs hs _ ih =>
    obtain ⟨last, ha, hf⟩ := ih
    refine ⟨last, ?_, hf⟩
    rw [State.after?_cons, State.step, hs]
    exact ha

theorem afterDigits_underscore (part : NumeralPart) : afterDigits part '_' = some (gap part) := by
  cases part with
  | based r => cases r <;> rfl
  | whole | fraction | exponent => rfl

/-- Digits of its part lead back to where the numeral stands. -/
theorem accepts_digits (hd : DigitsForm part.isDigit ds) (h : (digits part).Accepts cs) :
    (digits part).Accepts (ds ++ cs) := by
  have firstDigit_of : ∀ {c}, part.isDigit c = true → firstDigit part c = some (digits part) := by
    intro c hc
    rw [firstDigit, if_pos hc]
  induction hd with
  | nil => exact h
  | digit hc _ ih => exact .cons (by rw [step, afterDigits, if_pos hc]) ih
  | separated hc _ ih => exact .cons (afterDigits_underscore part) (.cons (firstDigit_of hc) ih)

theorem accepts_imaginary (hj : ImaginaryForm js)
    (hp : part = .whole ∨ part = .fraction ∨ part = .exponent) : (digits part).Accepts js := by
  cases hj with
  | absent => exact .nil rfl
  | present hm =>
    have marked : ∀ mark, mark = 'j' ∨ mark = 'J' →
        (digits part).step mark = some imaginary := by
      rintro mark (rfl | rfl)
      all_goals rcases hp with rfl | rfl | rfl <;> rfl
    exact .cons (marked _ hm) (.nil rfl)

theorem accepts_exponent (he : ExponentForm es) (hj : ImaginaryForm js)
    (hp : part = .whole ∨ part = .fraction) : (digits part).Accepts (es ++ js) := by
  cases he with
  | absent => exact accepts_imaginary hj (hp.imp_right .inl)
  | @present mark c sign cs hm hs hc hd =>
    have digit : firstDigit .exponent c = some (digits .exponent) := if_pos hc
    have tail : (digits .exponent).Accepts (cs ++ js) :=
      accepts_digits hd (accepts_imaginary hj (.inr (.inr rfl)))
    have marked : (digits part).step mark = some exponentMark := by
      rcases hm with rfl | rfl
      all_goals rcases hp with rfl | rfl <;> rfl
    rw [List.append_assoc]
    refine .cons marked ?_
    rcases hs with rfl | rfl | rfl
    · refine .cons ?_ tail
      have hsign : ¬ (c = '+' ∨ c = '-') := by
        rintro (rfl | rfl) <;> cases hc
      rw [step, if_neg (by simpa using hsign), digit]
    · exact .cons (show exponentMark.step '+' = some exponentSign from rfl) (.cons digit tail)
    · exact .cons (show exponentMark.step '-' = some exponentSign from rfl) (.cons digit tail)

/-- No radix mark goes on with decimal digits. -/
theorem afterDigits_mark {r : Radix} (h : Radix.ofMark? c = some r) :
    afterDigits .whole c = none := by
  have marks := Radix.mem_marks h
  simp only [List.mem_cons, List.not_mem_nil, or_false] at marks
  rcases marks with rfl | rfl | rfl | rfl | rfl | rfl
  all_goals rfl

/-- A leading zero goes on like any other digit with what no radix mark begins. -/
theorem accepts_ofDigit (h : (digits .whole).Accepts cs) : (ofDigit c).Accepts cs := by
  unfold ofDigit
  split
  · cases h with
    | nil => exact .nil rfl
    | @cons _ next d ds hs hds =>
      refine .cons ?_ hds
      rw [step]
      cases hr : Radix.ofMark? d with
      | none => exact hs
      | some r =>
        rw [step, afterDigits_mark hr] at hs
        cases hs
  · exact h

/-- Behind the mark of a radix come its digits, the first of them perhaps behind an underscore. -/
theorem accepts_mark {r : Radix} (hd : DigitsForm r.isDigit ds) (hn : ds ≠ []) :
    (mark r).Accepts ds := by
  have first : ∀ {c cs}, r.isDigit c = true → DigitsForm r.isDigit cs →
      firstDigit (.based r) c = some (digits (.based r)) ∧ (digits (.based r)).Accepts cs := by
    intro c cs hc hcs
    have hd : DigitsForm (NumeralPart.based r).isDigit cs := hcs
    have tail := accepts_digits hd (.nil rfl)
    rw [List.append_nil] at tail
    exact ⟨if_pos hc, tail⟩
  cases hd with
  | nil => exact absurd rfl hn
  | @digit c cs hc hcs =>
    have hu : c ≠ '_' := by
      rintro rfl
      cases r <;> cases hc
    obtain ⟨hs, tail⟩ := first hc hcs
    exact .cons (by rw [step, if_neg hu, hs]) tail
  | separated hc hcs =>
    obtain ⟨hs, tail⟩ := first hc hcs
    exact .cons (show (mark r).step '_' = some (gap (.based r)) from rfl) (.cons hs tail)

end Numeral
end PackageRecipe.Lexeme
