import PackageRecipe.Proofs.Phrase.Remainder
import PackageRecipe.Proofs.Phrase.Seam
import PackageRecipe.Proofs.Recipe.Frame
import PackageRecipe.Recipe.Basic

/-!
A recipe with other declarations. Header and footer of a recipe are cut from its source and put
around calls that are written anew, and the text that comes of it is divided as the source was: the
phrases before the first declaration are the same, each new call makes a phrase, and the text behind
them makes phrases without a declaration.
-/
namespace PackageRecipe

open Lexeme

namespace Division

variable (d : Division)

/-- What a declaration is written behind: a line break and the indentation. -/
def margin : List Token := lineFeed :: d.indent

theorem isMargin_margin (h : Lexed d.tokens []) : IsMargin d.margin := by
  have hb : ∀ c ∈ lineFeed.text.toList, isLineBreak c = true := by simp [lineFeed, isLineBreak]
  exact isMargin_cons rfl (by decide) hb (d.exists_lexed_indent h) d.kind_indent

theorem isBlank_margin : ∀ t ∈ d.margin, t.isBlank = true :=
  List.forall_mem_cons.2 ⟨rfl, fun _ => d.isBlank_of_mem_indent⟩

/-- The phrases of declarations that are written one after the other. -/
def written (xs : List Declaration) : List Phrase := xs.map (Declaration.phrase d.margin)

variable {d} {xs : List Declaration}

/-- The text of declarations, each on a line of its own behind the indentation. -/
theorem sourceText_written (xs : List Declaration) :
    sourceText ((d.written xs).flatMap Phrase.tokens) =
      String.join ((xs.map Declaration.text).map fun text =>
        "\n" ++ sourceText d.indent ++ text) := by
  rw [written, sourceText_series, List.map_map]
  have hm : sourceText d.margin = "\n" ++ sourceText d.indent := sourceText_cons _ _
  rw [hm]
  rfl

/-- The text of the recipe as a frame, if these phrases hold its footer. -/
def frame (d : Division) (texts : List Phrase) (hl : Lexed d.tokens [])
    (ht : Phrased .body texts .body d.blanks) (htext : ∀ p ∈ texts, p.isText = true)
    (hb : ∀ t ∈ (texts.flatMap Phrase.tokens ++ d.blanks).head?, t.isBreak = true) : Frame where
  before := d.before
  lead := d.margin
  margin := d.margin
  texts := texts
  blanks := d.blanks
  before_isText := d.before_isText
  before_phrased := fun _ hbreak hc _ => d.before_phrased.before_break (by simp) hbreak hc
  isMargin_lead := d.isMargin_margin hl
  isMargin_margin := d.isMargin_margin hl
  texts_isText := htext
  texts_phrased := ht
  texts_head := hb
  blanks_isBlank := d.blanks_isBlank

theorem exists_frame (hl : Lexed d.tokens []) : ∃ f : Frame,
    f.before = d.before ∧ f.lead = d.margin ∧ f.margin = d.margin ∧ f.footer = d.footer := by
  have hrest : Lexed d.rest [] := (lexed_append.1 hl).2
  obtain ⟨texts, ht, htext, he⟩ := d.after_phrased.exists_text d.blanks_isBlank
    hrest.isChain_comment d.isBreak_head?_rest
  have hfooter : texts.flatMap Phrase.tokens ++ d.blanks = d.footer := by rw [he, footer]
  have hb : ∀ t ∈ (texts.flatMap Phrase.tokens ++ d.blanks).head?, t.isBreak = true := by
    rw [hfooter]
    exact d.isBreak_head?_footer hl
  exact ⟨d.frame texts hl ht htext hb, rfl, rfl, rfl, hfooter⟩

/-- The header comes to stand before the line feed of the first new declaration. -/
theorem lexed_header (hl : Lexed d.tokens []) (hr : '\r' ∉ (sourceText d.tokens).toList)
    (cs : List Char) : Lexed (d.before.flatMap Phrase.tokens) ('\n' :: cs) := by
  rw [tokens, List.append_assoc] at hl hr
  refine d.before_phrased.lexed_before_lineFeed ?_ (by simp) ?_ cs
  · simpa [first, rest] using hl
  · intro hm
    rw [sourceText_append, String.toList_append] at hr
    exact hr (List.mem_append_right _ hm)

theorem lexed_footer (hl : Lexed d.tokens []) (hr : '\r' ∉ (sourceText d.tokens).toList) :
    Lexed d.footer [] := by
  have hrest : Lexed d.rest [] := (lexed_append.1 hl).2
  have hn : '\r' ∉ (sourceText d.rest).toList := by
    intro hm
    rw [tokens, sourceText_append, String.toList_append] at hr
    exact hr (List.mem_append_right _ hm)
  exact (d.after_phrased.lexed_filter hrest d.isBreak_head?_rest hn Phrase.isText).1

/-- New declarations divide the text that they are written into as the old ones divided theirs. -/
theorem exists_rewritten (hl : Lexed d.tokens []) (hr : '\r' ∉ (sourceText d.tokens).toList)
    (hn : xs ≠ []) (hw : ∀ x ∈ xs, x.WellFormed Token.IsLiteral) :
    ∃ e : Division,
      e.tokens = d.before.flatMap Phrase.tokens ++
        ((d.written xs).flatMap Phrase.tokens ++ d.footer) ∧
      Lexed e.tokens [] ∧
      callStatements e.phrases = xs.map (fun x => (x.call, d.margin ++ x.tokens)) ∧
      e.before = d.before ∧ e.indent = d.indent ∧ e.footer = d.footer := by
  obtain ⟨x, ys, rfl⟩ := List.exists_cons_of_ne_nil hn
  obtain ⟨f, hbefore, hlead, hmargin, hfooter⟩ := d.exists_frame hl
  have hx : ∀ y ∈ x :: ys, y.Spelled := fun y hy => (hw y hy).spelled
  refine ⟨f.division x ys hx, ?_, f.lexed_division hx (fun cs => ?_) ?_, ?_, hbefore, ?_, ?_⟩
  · rw [f.tokens_division hx, Frame.filling, hbefore, hlead, hmargin, hfooter]
    rfl
  · rw [hbefore, hlead, margin, sourceText_cons, String.toList_append, List.append_assoc]
    exact lexed_header hl hr _
  · rw [hfooter]
    exact lexed_footer hl hr
  · rw [f.callStatements_division hx, hlead, hmargin]
    rfl
  · show f.lead.rtakeWhile _ = d.indent
    rw [hlead, margin, rtakeWhile_margin rfl d.kind_indent]
  · rw [f.footer_division hx, hfooter]

end Division

namespace Recipe

/-- The declarations of a recipe in the order in which they are written. -/
def declarations (r : Recipe) : List Declaration :=
  r.versions.map Declaration.version ++ r.dependencies.map Declaration.dependency

variable {r : Recipe}

theorem filterMap_version?_declarations :
    r.declarations.filterMap Declaration.version? = r.versions := by
  simp [declarations, List.filterMap_append, List.filterMap_map, Function.comp_def,
    Declaration.version?]

theorem filterMap_dependency?_declarations :
    r.declarations.filterMap Declaration.dependency? = r.dependencies := by
  simp [declarations, List.filterMap_append, List.filterMap_map, Function.comp_def,
    Declaration.dependency?]

theorem map_text_declarations : r.declarations.map Declaration.text = r.declarationTexts := by
  rw [declarations, List.map_append, List.map_map, List.map_map]
  rfl

theorem declarations_ne_nil (h : r.versions ≠ [] ∨ r.dependencies ≠ []) : r.declarations ≠ [] := by
  intro hn
  obtain ⟨hv, hd⟩ := List.append_eq_nil_iff.1 hn
  rcases h with h | h
  · exact h (List.map_eq_nil_iff.1 hv)
  · exact h (List.map_eq_nil_iff.1 hd)

end Recipe

/-- Other declarations in a recipe that declares something: if they are written between header and
footer of the recipe, behind its indentation, the text that comes of it is read as the recipe with
these declarations. Without carriage returns in the source no line break grows where text is cut. -/
theorem ofSource_rewritten {source : String} {r : Recipe} (hs : '\r' ∉ source.toList)
    (h : Recipe.ofSource source = .ok r) (hr : r.versions ≠ [] ∨ r.dependencies ≠ [])
    {versions : List Version} {dependencies : List Dependency}
    (hn : versions ≠ [] ∨ dependencies ≠ [])
    (hv : ∀ v ∈ versions, v.WellFormed Token.IsLiteral)
    (hd : ∀ d ∈ dependencies, d.WellFormed Token.IsLiteral) :
    Recipe.ofSource { r with versions := versions, dependencies := dependencies }.text =
      .ok { r with versions := versions, dependencies := dependencies } := by
  obtain ⟨tokens, phrases, old, ht, hp, hold, rfl⟩ := Recipe.ofSource_eq_ok_iff.1 h
  obtain ⟨rfl, hl⟩ := Token.ofSource_eq_ok_iff.1 ht
  have hc : ∃ p ∈ phrases, p.isText = false := by
    by_contra hno
    have htext : ∀ p ∈ phrases, p.isText = true := by simpa using hno
    rw [callStatements_of_isText htext] at hold
    obtain rfl := List.forall₂_nil_left_iff.1 hold
    simp [Recipe.ofDeclarations] at hr
  obtain ⟨d, rfl, rfl⟩ := exists_division hp hc
  rw [d.ofDeclarations_phrases]
  generalize hnew : (⟨phrasesText d.before, sourceText d.indent, versions, dependencies,
    sourceText d.footer⟩ : Recipe) = new
  have hw : ∀ x ∈ new.declarations, x.WellFormed Token.IsLiteral := by
    rw [← hnew]
    exact List.forall_mem_append.2 ⟨List.forall_mem_map.2 hv, List.forall_mem_map.2 hd⟩
  have hne : new.declarations ≠ [] := by
    rw [← hnew]
    exact Recipe.declarations_ne_nil hn
  obtain ⟨e, he, hlexed, hcalls, hbefore, hindent, hfooter⟩ :=
    Division.exists_rewritten hl hs hne hw
  refine Recipe.ofSource_eq_ok_iff.2
    ⟨e.tokens, e.phrases, new.declarations, ?_, e.ofTokens_tokens, ?_, ?_⟩
  · refine Token.ofSource_eq_ok_iff.2 ⟨?_, hlexed⟩
    rw [he, sourceText_append, sourceText_append, Division.sourceText_written,
      Recipe.map_text_declarations, ← hnew]
    exact (String.append_assoc ..).symm
  · rw [hcalls, List.forall₂_map_left_iff]
    refine List.forall₂_same.2 fun x hx => (hw x hx).reads fun t ht => ?_
    rw [Token.isFiller, d.isBlank_margin t ht]
    rfl
  · rw [e.ofDeclarations_phrases, hbefore, hindent, hfooter,
      Recipe.filterMap_version?_declarations, Recipe.filterMap_dependency?_declarations, ← hnew]

/-- Two comment blocks come to lie side by side when the versions between them are taken out. -/
theorem ofSource_rewritten_comments :
    let r : Recipe := ⟨"class A(B):", "  ", [], [⟨⟨.string, "'y'"⟩, [⟨.string, "'build'"⟩], none⟩],
      "\n  # new\n  # end\n"⟩
    Recipe.ofSource r.text = .ok r := by
  have hs : Recipe.ofSource
      "class A(B):\n\n  version('1')\n  # new\n  version('2', preferred=True)\n  # end\n" =
      .ok ⟨"class A(B):", "  ", [⟨⟨.string, "'1'"⟩, none, none, none⟩,
        ⟨⟨.string, "'2'"⟩, none, none, some ⟨.keyword, "True"⟩⟩], [], "\n  # new\n  # end\n"⟩ := by
    cbv
  have hy : Token.IsLiteral ⟨.string, "'y'"⟩ := ⟨rfl, by cbv⟩
  have hbuild : Token.IsLiteral ⟨.string, "'build'"⟩ := ⟨rfl, by cbv⟩
  have hv : ∀ v ∈ ([] : List Version), v.WellFormed Token.IsLiteral :=
    fun v hv => absurd hv List.not_mem_nil
  have hd : ∀ d ∈ [(⟨⟨.string, "'y'"⟩, [⟨.string, "'build'"⟩], none⟩ : Dependency)],
      d.WellFormed Token.IsLiteral := by
    intro d hd
    obtain rfl := List.mem_singleton.1 hd
    constructor
    · exact hy
    · intro t ht
      obtain rfl := List.mem_singleton.1 ht
      exact hbuild
    · decide
    · intro t ht
      cases ht
  exact ofSource_rewritten (by simp) hs (.inl (List.cons_ne_nil _ _)) (.inr (List.cons_ne_nil _ _))
    hv hd

end PackageRecipe
