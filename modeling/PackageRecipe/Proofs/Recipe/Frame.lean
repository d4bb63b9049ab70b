import PackageRecipe.Proofs.Declaration.Series
import PackageRecipe.Proofs.Recipe.Division

/-!
Text with room for declarations. A frame holds the phrases before the room and behind it and the
margins to write with, all of them such that any declarations may be filled in. What a frame is
filled with divides it as the first declaration divides every recipe.
-/
namespace PackageRecipe

structure Frame where
  before : List Phrase
  /-- The margin of the first declaration. -/
  lead : List Token
  /-- The margin of the others. -/
  margin : List Token
  /-- The phrases behind the declarations. -/
  texts : List Phrase
  blanks : List Token
  before_isText : ∀ p ∈ before, p.isText = true
  before_phrased : ∀ rest, (∀ t ∈ rest.head?, t.isBreak = true) → commentAhead rest = false →
    rest ≠ [] → Phrased .preamble before .body rest
  isMargin_lead : IsMargin lead
  isMargin_margin : IsMargin margin
  texts_isText : ∀ p ∈ texts, p.isText = true
  texts_phrased : Phrased .body texts .body blanks
  texts_head : ∀ t ∈ (texts.flatMap Phrase.tokens ++ blanks).head?, t.isBreak = true
  blanks_isBlank : ∀ t ∈ blanks, t.isBlank = true

namespace Frame

variable (f : Frame)

/-- The tokens behind the declarations. -/
def footer : List Token := f.texts.flatMap Phrase.tokens ++ f.blanks

/-- The phrases of declarations that the frame is filled with. -/
def filling (x : Declaration) (xs : List Declaration) : List Phrase :=
  x.phrase f.lead :: xs.map (Declaration.phrase f.margin)

variable {x : Declaration} {xs : List Declaration}

theorem isBreak_head?_others :
    ∀ t ∈ ((xs.map (Declaration.phrase f.margin) ++ f.texts).flatMap Phrase.tokens ++
      f.blanks).head?, t.isBreak = true := by
  rw [List.flatMap_append, List.append_assoc]
  exact f.isMargin_margin.isBreak_head?_series f.texts_head

/-- The frame with declarations in it, divided by the first of them. -/
def division (x : Declaration) (xs : List Declaration) (hx : ∀ y ∈ x :: xs, y.Spelled) :
    Division where
  before := f.before
  lead := f.lead
  call := x.call
  arguments := x.tokens.tail
  after := xs.map (Declaration.phrase f.margin) ++ f.texts
  blanks := f.blanks
  before_isText := f.before_isText
  before_phrased := by
    rw [List.append_assoc]
    apply f.before_phrased
    · exact f.isMargin_lead.isBreak_head?_append _
    · rw [commentAhead_append_of_isBlank f.isMargin_lead.isBlank]
      rfl
    · simp
  lead_isBlank := f.isMargin_lead.isBlank
  unbroken := unbroken_of_not_isBreak (hx x List.mem_cons_self).noBreak
  ends := fun t ht => ⟨f.isBreak_head?_others t ht, (hx x List.mem_cons_self).openAfter_tokens⟩
  after_phrased := by
    have hxs := (List.forall_mem_cons.1 hx).2
    exact Phrased.append_iff.2
      ⟨.body, f.isMargin_margin.phrased_series hxs f.texts_head, f.texts_phrased⟩
  blanks_isBlank := f.blanks_isBlank

variable (hx : ∀ y ∈ x :: xs, y.Spelled)

theorem tokens_division : (f.division x xs hx).tokens =
    f.before.flatMap Phrase.tokens ++ ((f.filling x xs).flatMap Phrase.tokens ++ f.footer) := by
  show f.before.flatMap Phrase.tokens ++ (f.lead ++ x.tokens) ++
    ((xs.map (Declaration.phrase f.margin) ++ f.texts).flatMap Phrase.tokens ++ f.blanks) = _
  rw [filling, List.flatMap_cons, List.flatMap_append, footer]
  simp only [List.append_assoc, Declaration.phrase]

theorem callStatements_division : callStatements (f.division x xs hx).phrases =
    (x.call, f.lead ++ x.tokens) :: xs.map fun y => (y.call, f.margin ++ y.tokens) := by
  rw [Division.callStatements_phrases]
  show _ :: callStatements (xs.map (Declaration.phrase f.margin) ++ f.texts) = _
  rw [callStatements_append, callStatements_of_isText f.texts_isText, List.append_nil,
    callStatements_series]
  rfl

theorem footer_division : (f.division x xs hx).footer = f.footer := by
  show ((xs.map (Declaration.phrase f.margin) ++ f.texts).filter Phrase.isText).flatMap
    Phrase.tokens ++ f.blanks = _
  rw [List.filter_append, filter_series, List.filter_eq_self.2 f.texts_isText, List.nil_append]
  rfl

theorem sourceText_filling (x : Declaration) (xs : List Declaration) :
    sourceText ((f.filling x xs).flatMap Phrase.tokens) =
      sourceText f.lead ++ x.text ++
        String.join (xs.map fun y => sourceText f.margin ++ y.text) := by
  rw [filling, List.flatMap_cons, sourceText_append, sourceText_series, Declaration.phrase,
    sourceText_append, x.sourceText_tokens]

/-- A filled frame is read as its tokens if the text around the declarations is. -/
theorem lexed_division
    (hb : ∀ cs, Lexed (f.before.flatMap Phrase.tokens) ((sourceText f.lead).toList ++ cs))
    (hf : Lexed f.footer []) : Lexed (f.division x xs hx).tokens [] := by
  obtain ⟨hx', hxs⟩ := List.forall_mem_cons.1 hx
  rw [tokens_division]
  refine lexed_append.2 ⟨?_, lexed_append.2 ⟨?_, hf⟩⟩
  · rw [filling, List.flatMap_cons, Declaration.phrase, List.append_assoc, List.append_assoc,
      sourceText_append, String.toList_append, List.append_assoc]
    exact hb _
  · rw [filling, List.flatMap_cons]
    exact lexed_append.2
      ⟨f.isMargin_lead.lexed_phrase hx' _, f.isMargin_margin.lexed_series hxs _⟩

end Frame
end PackageRecipe
