import PackageRecipe.Proofs.Declaration.Rendering
import PackageRecipe.Proofs.Token.Shape

/-!
Declarations one below the other. Each is written behind a margin, a line break and indentation, and
makes a phrase of its own; before and behind the series may stand whatever ends and begins with a
line break.
-/
namespace PackageRecipe

open Lexeme

def lineFeed : Token := ⟨.newline, "\n"⟩

/-- Blanks that a statement may be written behind on a line of its own. -/
structure IsMargin (margin : List Token) : Prop where
  ne_nil : margin ≠ []
  isBlank : ∀ t ∈ margin, t.isBlank = true
  head : ∀ t ∈ margin.head?, t.isBreak = true
  lexed : ∀ {c : Char}, isSpace c = false → isLineBreak c = false →
    ∀ cs, Lexed margin (c :: cs)

section Margin

variable {b : Token} {indent : List Token}

/-- Line breaks and the white space of a line behind them make a margin. -/
theorem isMargin_cons (hk : b.kind = .newline) (hn : b.text.toList ≠ [])
    (hb : ∀ c ∈ b.text.toList, isLineBreak c = true) (hi : ∃ rest, Lexed indent rest)
    (hw : ∀ t ∈ indent, t.kind = .whitespace) : IsMargin (b :: indent) := by
  constructor
  · exact List.cons_ne_nil b indent
  · refine List.forall_mem_cons.2 ⟨by simp [Token.isBlank, hk], fun t ht => ?_⟩
    simp [Token.isBlank, hw t ht]
  · rintro _ ⟨⟩
    simp [Token.isBreak, hk]
  · intro c hs hc cs
    obtain ⟨rest, hl⟩ := hi
    have hne : c ≠ '\n' := by
      rintro rfl
      cases hc
    refine ⟨?_, hl.whitespace hw hs hne cs⟩
    obtain ⟨d, ds, hd, hdb⟩ := hl.head_whitespace hw hc cs
    rw [hd]
    exact Token.endsBefore_of_lineBreaks hk hn hb (by simpa using hdb)

/-- The indentation of a margin is what follows its line breaks. -/
theorem rtakeWhile_margin (hb : b.isBreak = true) (hw : ∀ t ∈ indent, t.kind = .whitespace) :
    (b :: indent).rtakeWhile (fun t => !t.isBreak) = indent := by
  have hi : ∀ t ∈ indent.reverse, (!t.isBreak) = true := by
    intro t ht
    simp [Token.isBreak, hw t (List.mem_reverse.1 ht)]
  rw [List.rtakeWhile, List.reverse_cons, List.takeWhile_append_of_pos hi,
    List.takeWhile_cons_of_neg (by simp [hb]), List.append_nil, List.reverse_reverse]

end Margin

namespace IsMargin

variable {margin : List Token} (hm : IsMargin margin) {xs : List Declaration}
include hm

theorem isFiller : ∀ t ∈ margin, t.isFiller = true :=
  fun t ht => Token.isFiller_of_isBlank (hm.isBlank t ht)

theorem isBreak_head?_append (ts : List Token) :
    ∀ t ∈ (margin ++ ts).head?, t.isBreak = true := by
  rw [List.head?_append_of_ne_nil _ hm.ne_nil]
  exact hm.head

theorem isBreak_head?_series {rest : List Token} (hr : ∀ t ∈ rest.head?, t.isBreak = true) :
    ∀ t ∈ ((xs.map (Declaration.phrase margin)).flatMap Phrase.tokens ++ rest).head?,
      t.isBreak = true := by
  cases xs with
  | nil => exact hr
  | cons x xs =>
    rw [List.map_cons, List.flatMap_cons, Declaration.phrase, List.append_assoc, List.append_assoc]
    exact hm.isBreak_head?_append _

/-- A series is found phrase by phrase before every line break. -/
theorem phrased_series (hx : ∀ x ∈ xs, x.Spelled) {rest : List Token}
    (hr : ∀ t ∈ rest.head?, t.isBreak = true) :
    Phrased .body (xs.map (Declaration.phrase margin)) .body rest := by
  induction xs with
  | nil => exact .nil
  | cons x xs ih =>
    obtain ⟨hx, hxs⟩ := List.forall_mem_cons.1 hx
    exact .cons (hx.finds hm.isBlank (hm.isBreak_head?_series hr)) (ih hxs)

theorem lexed_phrase {x : Declaration} (hx : x.Spelled) (rest : List Char) :
    Lexed (x.phrase margin).tokens rest := by
  obtain ⟨c, cs, hc, hs, hb⟩ := x.exists_toList_tokens
  refine lexed_append.2 ⟨?_, hx.lexed rest⟩
  rw [hc]
  exact hm.lexed hs hb _

/-- A series is read as it is written, whatever stands behind it. -/
theorem lexed_series (hx : ∀ x ∈ xs, x.Spelled) (rest : List Char) :
    Lexed ((xs.map (Declaration.phrase margin)).flatMap Phrase.tokens) rest := by
  induction xs with
  | nil => trivial
  | cons x xs ih =>
    obtain ⟨hx, hxs⟩ := List.forall_mem_cons.1 hx
    rw [List.map_cons, List.flatMap_cons]
    exact lexed_append.2 ⟨hm.lexed_phrase hx _, ih hxs⟩

end IsMargin

section Series

variable (margin : List Token) (xs : List Declaration)

theorem filter_series : (xs.map (Declaration.phrase margin)).filter Phrase.isText = [] := by
  refine List.filter_eq_nil_iff.2 fun p hp => ?_
  obtain ⟨x, -, rfl⟩ := List.mem_map.1 hp
  have hx : (x.phrase margin).isText = false := Phrase.isText_eq_false_iff.2 ⟨x.call, rfl⟩
  simp [hx]

theorem callStatements_series : callStatements (xs.map (Declaration.phrase margin)) =
    xs.map fun x => (x.call, margin ++ x.tokens) := by
  induction xs with
  | nil => rfl
  | cons x xs ih =>
    rw [List.map_cons, callStatements_cons rfl, List.map_cons]
    exact congrArg _ ih

/-- The text of a series. -/
theorem sourceText_series :
    sourceText ((xs.map (Declaration.phrase margin)).flatMap Phrase.tokens) =
      String.join (xs.map fun x => sourceText margin ++ x.text) := by
  induction xs with
  | nil => rfl
  | cons x xs ih =>
    rw [List.map_cons, List.flatMap_cons, sourceText_append, ih, List.map_cons, String.join_cons,
      Declaration.phrase, sourceText_append, x.sourceText_tokens]

end Series
end PackageRecipe
