import Mathlib.Tactic.SplitIfs
import PackageRecipe.Lexeme.Form
import PackageRecipe.Proofs.Lexeme.Shape

/-!
The written form of a string that has ended. What the reader of a string has taken from the opening
mark on are marks, contents, and perhaps marks that may turn out to close it; a string that may end
is therefore prefix letters, marks, contents and the same marks again.
-/
namespace PackageRecipe.Lexeme

theorem isQuote_iff {c : Char} : isQuote c = true ↔ c = '"' ∨ c = '\'' := by
  simp [isQuote]

section Contents

variable {q : Char} {cs ds : List Char}

theorem ShortContents.append (h : ShortContents q cs) (hd : ShortContents q ds) :
    ShortContents q (cs ++ ds) := by
  induction h with
  | nil => exact hd
  | plain hb hq hl _ ih => exact .plain hb hq hl ih
  | escape _ ih => exact .escape ih

/-- What begins with the mark and short contents begins with three marks only if the contents are
empty. -/
theorem ShortContents.marks_prefix (h : ShortContents q cs) (hq : q ≠ '\\')
    (hp : [q, q, q] <+: q :: (cs ++ ds)) : cs = [] ∧ [q, q] <+: ds := by
  rw [List.cons_prefix_cons] at hp
  cases h with
  | nil => exact ⟨rfl, hp.2⟩
  | plain _ hc _ _ =>
    rw [List.cons_append, List.cons_prefix_cons] at hp
    exact absurd hp.2.1.symm hc
  | escape _ =>
    rw [List.cons_append, List.cons_prefix_cons] at hp
    exact absurd hp.2.1 hq

/-- Whether three marks come first is settled by what stands before three other marks. -/
theorem marks_prefix_append (h : [q, q, q] <+: cs ++ ds) : [q, q, q] <+: cs ++ [q, q, q] := by
  rcases cs with _ | ⟨a, _ | ⟨b, _ | ⟨c, cs⟩⟩⟩
  all_goals
    simp only [List.nil_append, List.cons_append, List.cons_prefix_cons] at h ⊢
    grind

theorem LongContents.append (h : LongContents q cs) (hd : LongContents q ds) :
    LongContents q (cs ++ ds) := by
  induction h with
  | nil => exact hd
  | @plain c cs hb hm _ ih =>
    refine .plain hb (fun hp => hm ?_) ih
    have hp : [q, q, q] <+: (c :: cs) ++ (ds ++ [q, q, q]) := by simpa using hp
    exact marks_prefix_append hp
  | escape _ ih => exact .escape ih

/-- One or two marks before another character close nothing. -/
theorem LongContents.marks_append {marks : Nat} {c : Char} (hq : q ≠ '\\') (hm : marks ≤ 2)
    (hc : c ≠ q) (hd : LongContents q (c :: ds)) :
    LongContents q (List.replicate marks q ++ c :: ds) := by
  have one : LongContents q (q :: c :: ds) :=
    .plain hq (by simp [List.cons_prefix_cons, hc.symm]) hd
  match marks, hm with
  | 0, _ => exact hd
  | 1, _ => exact one
  | 2, _ => exact .plain hq (by simp [List.cons_prefix_cons, hc.symm]) one

end Contents

/-- What the reader of a string has taken when it stands there, from the opening mark `q` on. -/
def Quoted.Reads (q : Char) : Quoted → List Char → Prop
  | opened p, body => p = q ∧ body = [q]
  | empty p, body => p = q ∧ body = [q, q]
  | short p, body => p = q ∧ ∃ cs, body = q :: cs ∧ ShortContents q cs
  | shortEscape p, body => p = q ∧ ∃ cs, body = q :: (cs ++ ['\\']) ∧ ShortContents q cs
  | long p marks, body => p = q ∧ marks ≤ 2 ∧
      ∃ cs, body = [q, q, q] ++ cs ++ List.replicate marks q ∧ LongContents q cs
  | longEscape p, body => p = q ∧ ∃ cs marks, marks ≤ 2 ∧
      body = [q, q, q] ++ cs ++ List.replicate marks q ++ ['\\'] ∧ LongContents q cs
  | closed, body => (∃ cs, body = q :: (cs ++ [q]) ∧ ShortContents q cs) ∨
      ∃ cs, body = [q, q, q] ++ cs ++ [q, q, q] ∧ LongContents q cs

namespace Quoted

variable {q c : Char} {string next : Quoted} {body cs : List Char}

theorem Reads.eq_cons (h : string.Reads q body) : ∃ tail, body = q :: tail := by
  cases string with
  | opened | empty => exact ⟨_, h.2⟩
  | short | shortEscape =>
    obtain ⟨-, cs, rfl, -⟩ := h
    exact ⟨_, rfl⟩
  | long =>
    obtain ⟨-, -, cs, rfl, -⟩ := h
    exact ⟨_, rfl⟩
  | longEscape =>
    obtain ⟨-, cs, marks, -, rfl, -⟩ := h
    exact ⟨_, rfl⟩
  | closed =>
    obtain ⟨cs, rfl, -⟩ | ⟨cs, rfl, -⟩ := h
    · exact ⟨_, rfl⟩
    · exact ⟨_, rfl⟩

theorem reads_shortStep (h : ShortContents q cs) (hs : shortStep q c = some next) :
    next.Reads q (q :: (cs ++ [c])) := by
  unfold shortStep at hs
  split at hs
  · rename_i hb
    obtain rfl := Option.some.inj hs
    exact ⟨rfl, cs, by rw [hb], h⟩
  · rename_i hb
    split at hs
    · cases hs
    · rename_i hl
      split at hs
      · rename_i hq
        obtain rfl := Option.some.inj hs
        exact .inl ⟨cs, by rw [hq], h⟩
      · rename_i hq
        obtain rfl := Option.some.inj hs
        exact ⟨rfl, cs ++ [c], rfl, h.append (.plain hb hq (by simpa using hl) .nil)⟩

/-- Each step adds its character. -/
theorem Reads.step (hq : isQuote q = true) (h : string.Reads q body)
    (hs : string.step c = some next) : next.Reads q (body ++ [c]) := by
  have hb : q ≠ '\\' := by
    rintro rfl
    cases hq
  cases string with
  | opened p =>
    obtain ⟨rfl, rfl⟩ := h
    rw [Quoted.step] at hs
    split at hs
    · rename_i hc
      obtain rfl := Option.some.inj hs
      exact ⟨rfl, by rw [hc]; rfl⟩
    · exact reads_shortStep .nil hs
  | empty p =>
    obtain ⟨rfl, rfl⟩ := h
    rw [Quoted.step] at hs
    split at hs
    · rename_i hc
      obtain rfl := Option.some.inj hs
      exact ⟨rfl, Nat.zero_le _, [], by rw [hc]; rfl, .nil⟩
    · cases hs
  | short p =>
    obtain ⟨rfl, cs, rfl, hcs⟩ := h
    exact reads_shortStep hcs hs
  | shortEscape p =>
    obtain ⟨rfl, cs, rfl, hcs⟩ := h
    obtain rfl := Option.some.inj hs
    exact ⟨rfl, cs ++ ['\\', c], by simp, hcs.append (.escape .nil)⟩
  | long p marks =>
    obtain ⟨rfl, hm, cs, rfl, hcs⟩ := h
    rw [Quoted.step] at hs
    split at hs
    · rename_i hc
      obtain rfl := Option.some.inj hs
      exact ⟨rfl, cs, marks, hm, by rw [hc], hcs⟩
    · rename_i hc
      split at hs
      · rename_i he
        split at hs
        · rename_i htwo
          obtain rfl := Option.some.inj hs
          exact .inr ⟨cs, by simp [he, htwo], hcs⟩
        · rename_i htwo
          obtain rfl := Option.some.inj hs
          refine ⟨rfl, by omega, cs, ?_, hcs⟩
          rw [he, List.replicate_succ', List.append_assoc]
      · rename_i he
        obtain rfl := Option.some.inj hs
        have plain : LongContents p [c] :=
          .plain hc (by simp [List.cons_prefix_cons, Ne.symm he]) .nil
        refine ⟨rfl, Nat.zero_le _, cs ++ (List.replicate marks p ++ [c]), by simp, ?_⟩
        exact hcs.append (plain.marks_append hb hm he)
  | longEscape p =>
    obtain ⟨rfl, cs, marks, hm, rfl, hcs⟩ := h
    obtain rfl := Option.some.inj hs
    have escape : LongContents p ['\\', c] := .escape .nil
    refine ⟨rfl, Nat.zero_le _, cs ++ (List.replicate marks p ++ ['\\', c]), by simp, ?_⟩
    exact hcs.append (escape.marks_append hb hm hb.symm)
  | closed => cases hs

end Quoted

namespace State

variable {c : Char} {state next : State} {string : Quoted} {text : List Char}

theorem ofChar_eq_quoted (h : ofChar c = .ok (quoted string)) :
    isQuote c = true ∧ string = .opened c := by
  unfold ofChar at h
  split_ifs at h with hs hl hb hc hq
  all_goals try cases h
  · exact ⟨hq, rfl⟩
  · split at h <;> cases h

/-- A string begins at a mark behind its prefix letters and goes on by its own steps. -/
theorem step_eq_quoted (h : state.step c = some (quoted string)) :
    (∃ letters, state = word letters ∧ isQuote c = true ∧ opensString letters.reverse = true ∧
        string = .opened c) ∨
      ∃ before, state = quoted before ∧ before.step c = some string := by
  have signs : ∀ text, extendSign text c ≠ some (quoted string) := by
    intro text
    unfold extendSign
    split
    · simp
    · split <;> simp
  cases state with
  | word letters =>
    rw [step] at h
    split at h
    · cases h
    · split at h
      · rename_i hc
        obtain ⟨hq, hl⟩ := Bool.and_eq_true_iff.1 hc
        cases h
        exact .inl ⟨letters, rfl, hq, hl, rfl⟩
      · cases h
  | quoted before =>
    obtain ⟨after, ha, he⟩ := Option.map_eq_some_iff.1 h
    cases he
    exact .inr ⟨before, rfl, ha⟩
  | numeral number => simp [step] at h
  | exclamation | sign => exact absurd h (signs _)
  | space | lineBreak | comment | backslash | continuation => simp [step] at h

/-- In a string, the text is prefix letters and what the reader of the string has read. -/
def ReadsString (state : State) (text : List Char) : Prop :=
  ∀ string, state = quoted string → ∃ letters q body, text = letters ++ body ∧
    (letters = [] ∨ opensString letters = true) ∧ isQuote q = true ∧ string.Reads q body

theorem ReadsString.step (hr : state.Reads text) (h : state.ReadsString text)
    (hs : state.step c = some next) : next.ReadsString (text ++ [c]) := by
  rintro string rfl
  obtain ⟨letters, rfl, hq, ho, rfl⟩ | ⟨before, rfl, hb⟩ := step_eq_quoted hs
  · obtain ⟨rfl, -⟩ := hr
    exact ⟨letters.reverse, c, [c], rfl, .inr ho, hq, rfl, rfl⟩
  · obtain ⟨letters, q, body, rfl, hl, hq, hread⟩ := h before rfl
    exact ⟨letters, q, body ++ [c], List.append_assoc _ _ _, hl, hq, hread.step hq hb⟩

theorem readsString_ofText? (h : ofText? text = some state) : state.ReadsString text := by
  refine ofText?_invariant_of_reads ReadsString ?_ ReadsString.step h
  rintro c state hc string rfl
  obtain ⟨hq, rfl⟩ := ofChar_eq_quoted hc
  exact ⟨[], c, [c], rfl, .inl rfl, hq, rfl, rfl⟩

/-- A string that may end is a literal, and its contents may stand between its marks. -/
theorem exists_literal (h : ofText? text = some (quoted string)) (hf : string.fault? none = none) :
    ∃ (quotation : Quotation) (cs : List Char), text = quotation.literal cs ∧
      quotation.Holds cs := by
  obtain ⟨letters, q, body, rfl, hl, hq, hr⟩ := readsString_ofText? h string rfl
  have short : ∀ cs, body = q :: (cs ++ [q]) → ShortContents q cs →
      ∃ (quotation : Quotation) (cs : List Char), letters ++ body = quotation.literal cs ∧
        quotation.Holds cs := by
    rintro cs rfl hcs
    exact ⟨⟨letters, q, false, hl, hq⟩, cs, by simp [Quotation.literal, Quotation.marks], hcs⟩
  cases string with
  | empty p =>
    obtain ⟨-, rfl⟩ := hr
    exact short [] rfl .nil
  | closed =>
    obtain ⟨cs, he, hcs⟩ | ⟨cs, rfl, hcs⟩ := hr
    · exact short cs he hcs
    · exact ⟨⟨letters, q, true, hl, hq⟩, cs, by simp [Quotation.literal, Quotation.marks], hcs⟩
  | opened | short | shortEscape | long | longEscape => cases hf

end State
end PackageRecipe.Lexeme
