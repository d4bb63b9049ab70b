import PackageRecipe.Proofs.Declaration.InPlace
import PackageRecipe.Proofs.Recipe.Extraction

/-!
Filler in calls. White space, line breaks and comments may be put into a call and taken out of it
anywhere, whether the call is read with them in place or without: the declarations or the error stay
the same, and so do the unknown keys and the text around the calls. Only the indentation is read off
the filler, that before the first call.
-/
namespace PackageRecipe

open Call

/-- The same tokens with filler put in and taken out anywhere. -/
inductive Refilled : List Token → List Token → Prop where
  | nil : Refilled [] []
  | keep {t : Token} {ts us : List Token} : Refilled ts us → Refilled (t :: ts) (t :: us)
  | insert {t : Token} {ts us : List Token} :
      t.isFiller = true → Refilled ts us → Refilled ts (t :: us)
  | delete {t : Token} {ts us : List Token} :
      t.isFiller = true → Refilled ts us → Refilled (t :: ts) us

/-- The same phrase, or the same call with other filler. -/
inductive Phrase.Refilled : Phrase → Phrase → Prop where
  | same (p : Phrase) : Refilled p p
  | call {call : Call} {ts us : List Token} :
      PackageRecipe.Refilled ts us → Refilled ⟨call.kind, ts⟩ ⟨call.kind, us⟩

/-- What there is of a recipe besides its indentation. -/
def Recipe.unindented (r : Recipe) : Recipe := { r with indent := "" }

section Tokens

variable {ts us : List Token}

theorem Refilled.of_significant_eq_nil (h : significant us = []) : Refilled [] us := by
  induction us with
  | nil => exact .nil
  | cons u us ih =>
    cases hu : u.isFiller with
    | true =>
      rw [significant_cons_of_isFiller hu] at h
      exact .insert hu (ih h)
    | false =>
      rw [significant_cons hu] at h
      cases h

/-- Nothing but filler differs. -/
theorem refilled_iff : Refilled ts us ↔ significant ts = significant us := by
  constructor
  · intro h
    induction h with
    | nil => rfl
    | @keep t ts us _ ih =>
      cases ht : t.isFiller with
      | true => rw [significant_cons_of_isFiller ht, significant_cons_of_isFiller ht, ih]
      | false => rw [significant_cons ht, significant_cons ht, ih]
    | insert ht _ ih => rw [significant_cons_of_isFiller ht, ih]
    | delete ht _ ih => rw [significant_cons_of_isFiller ht, ih]
  · intro h
    induction ts generalizing us with
    | nil => exact .of_significant_eq_nil h.symm
    | cons t ts ih =>
      cases ht : t.isFiller with
      | true =>
        rw [significant_cons_of_isFiller ht] at h
        exact .delete ht (ih h)
      | false =>
        rw [significant_cons ht] at h
        induction us with
        | nil => cases h
        | cons u us ihu =>
          cases hu : u.isFiller with
          | true =>
            rw [significant_cons_of_isFiller hu] at h
            exact .insert hu (ihu h)
          | false =>
            rw [significant_cons hu] at h
            obtain ⟨rfl, hus⟩ := List.cons.inj h
            exact .keep (ih hus)

theorem opening_congr (h : significant ts = significant us) : opening ts = opening us := by
  rw [opening, opening]
  exact congrArg (fun ts => take .openParenthesis (Token.isDelimiter "(") ts.tail >>= fun found =>
    takeString found.2) h

/-- A call is what its tokens without filler say. -/
theorem DeclarationReading.ofTokens_congr (h : significant ts = significant us) (call : Call) :
    ofTokens call ts = ofTokens call us := by
  rw [ofTokens, ofTokens, opening_congr h]

theorem significant_dropWhile_isBlank (ts : List Token) :
    significant (ts.dropWhile Token.isBlank) = significant ts := by
  induction ts with
  | nil => rfl
  | cons t ts ih =>
    cases ht : t.isBlank with
    | false => rw [List.dropWhile_cons_of_neg (by simp [ht])]
    | true =>
      rw [List.dropWhile_cons_of_pos ht,
        significant_cons_of_isFiller (Token.isFiller_of_isBlank ht), ih]

end Tokens

section Phrases

variable {p q : Phrase} {ps qs : List Phrase}

/-- Text stays as it is. -/
theorem Phrase.Refilled.text (h : p.Refilled q) :
    p.isText = q.isText ∧ (p.isText = true → p = q) := by
  cases h with
  | same => exact ⟨rfl, fun _ => rfl⟩
  | @call call ts us _ =>
    have hc : ∀ tokens, Phrase.isText ⟨call.kind, tokens⟩ = false := fun _ =>
      Phrase.isText_eq_false_iff.2 ⟨call, rfl⟩
    rw [hc, hc]
    exact ⟨rfl, nofun⟩

theorem filter_isText_of_refilled (h : List.Forall₂ Phrase.Refilled ps qs) :
    ps.filter Phrase.isText = qs.filter Phrase.isText := by
  induction h with
  | nil => rfl
  | @cons p q ps qs hp _ ih =>
    obtain ⟨ht, he⟩ := hp.text
    rw [List.filter_cons, List.filter_cons, ← ht, ih]
    split
    · rw [he ‹_›]
    · rfl

/-- The text before the first call and the text after it stay as they are. -/
theorem texts_of_refilled (h : List.Forall₂ Phrase.Refilled ps qs) :
    ps.takeWhile Phrase.isText = qs.takeWhile Phrase.isText ∧
      (ps.dropWhile Phrase.isText).filter Phrase.isText =
        (qs.dropWhile Phrase.isText).filter Phrase.isText := by
  induction h with
  | nil => exact ⟨rfl, rfl⟩
  | @cons p q ps qs hp hps ih =>
    obtain ⟨ht, he⟩ := hp.text
    cases hpt : p.isText with
    | true =>
      obtain rfl := he hpt
      rw [List.takeWhile_cons_of_pos hpt, List.takeWhile_cons_of_pos hpt,
        List.dropWhile_cons_of_pos hpt, List.dropWhile_cons_of_pos hpt, ih.1]
      exact ⟨rfl, ih.2⟩
    | false =>
      have hqt : q.isText = false := ht ▸ hpt
      have hp' : ¬ p.isText = true := by simp [hpt]
      have hq' : ¬ q.isText = true := by simp [hqt]
      rw [List.takeWhile_cons_of_neg hp', List.takeWhile_cons_of_neg hq',
        List.dropWhile_cons_of_neg hp', List.dropWhile_cons_of_neg hq']
      exact ⟨rfl, filter_isText_of_refilled (.cons hp hps)⟩

/-- Filler apart, the calls stay as they are. -/
theorem callStatements_of_refilled (h : List.Forall₂ Phrase.Refilled ps qs) :
    List.Forall₂ (fun c d => c.1 = d.1 ∧ significant c.2 = significant d.2)
      (callStatements ps) (callStatements qs) := by
  refine List.rel_filterMap ?_ h
  intro p q hp
  cases hp with
  | same =>
    dsimp only
    cases p.call? with
    | none => exact .none
    | some call => exact .some ⟨rfl, rfl⟩
  | @call call ts us hr =>
    have hc : ∀ tokens, Phrase.call? ⟨call.kind, tokens⟩ = some call := fun _ =>
      Phrase.call?_eq_some_iff.2 rfl
    dsimp only
    rw [hc, hc]
    exact .some ⟨rfl, refilled_iff.1 hr⟩

theorem DeclarationsReading.ofCalls_congr {cs ds : List (Call × List Token)}
    (h : List.Forall₂ (fun c d => c.1 = d.1 ∧ significant c.2 = significant d.2) cs ds) :
    ofCalls cs = ofCalls ds := by
  induction h with
  | nil => rfl
  | @cons c d cs ds hc _ ih =>
    obtain ⟨call, ts⟩ := c
    obtain ⟨other, us⟩ := d
    obtain ⟨rfl, ht⟩ : call = other ∧ significant ts = significant us := hc
    rw [ofCalls, ofCalls, DeclarationReading.ofTokens_congr ht, ih]

end Phrases

/-- Filler does not matter in calls. A call read with its filler in place, or with the blanks before
it cut off, is what it is without filler; and phrases whose calls have other filler make the same
recipe but for its indentation, or have the same error, and have the same unknown keys in the same
order. -/
theorem ofPhrases_refilled :
    (∀ (call : Call) (tokens : List Token),
      DeclarationReading.inPlace call tokens = DeclarationReading.ofTokens call tokens ∧
        DeclarationReading.inPlace call (tokens.dropWhile Token.isBlank) =
          DeclarationReading.ofTokens call tokens) ∧
    ∀ ps qs : List Phrase, List.Forall₂ Phrase.Refilled ps qs →
      (Extraction.ofPhrases ps).recipe.map Recipe.unindented =
          (Extraction.ofPhrases qs).recipe.map Recipe.unindented ∧
        (Extraction.ofPhrases ps).unknown = (Extraction.ofPhrases qs).unknown := by
  refine ⟨fun call tokens => ?_, fun ps qs h => ?_⟩
  · rw [DeclarationReading.inPlace_eq_ofTokens, DeclarationReading.inPlace_eq_ofTokens]
    exact ⟨rfl, DeclarationReading.ofTokens_congr (significant_dropWhile_isBlank tokens) call⟩
  · obtain ⟨hbefore, hafter⟩ := texts_of_refilled h
    rw [Extraction.ofPhrases, Extraction.ofPhrases,
      DeclarationsReading.ofCalls_congr (callStatements_of_refilled h)]
    refine ⟨?_, rfl⟩
    cases (DeclarationsReading.ofCalls (callStatements qs)).result with
    | error e => rfl
    | ok ds => simp [Except.map, Recipe.unindented, Recipe.ofDeclarations, hbefore, hafter]

/-- Comments and line breaks taken out of one call and put into another, whose unknown key has a
value in brackets with a comma behind filler. -/
theorem ofPhrases_refilled_comments :
    let a : Token := ⟨.string, "'a'"⟩
    let zip : Token := ⟨.identifier, "zip"⟩
    let comment : Token := ⟨.comment, "# )"⟩
    let lineBreak : Token := ⟨.newline, "\n"⟩
    let remark : Phrase := ⟨.remark, [comment]⟩
    let ps : List Phrase := [remark,
      ⟨.version, [lineBreak, space, ⟨.identifier, "version"⟩, openParenthesis, comment, lineBreak,
        a, space, closeParenthesis]⟩,
      ⟨.dependsOn, [⟨.identifier, "depends_on"⟩, openParenthesis, a, comma, zip, assignment,
        openParenthesis, comma, closeParenthesis, comma, closeParenthesis]⟩]
    let qs : List Phrase := [remark,
      ⟨.version, [⟨.identifier, "version"⟩, openParenthesis, a, closeParenthesis]⟩,
      ⟨.dependsOn, [comment, lineBreak, ⟨.identifier, "depends_on"⟩, space, openParenthesis, a,
        comma, zip, comment, lineBreak, assignment, comment, openParenthesis, lineBreak, comma,
        closeParenthesis, comma, space, closeParenthesis]⟩]
    List.Forall₂ Phrase.Refilled ps qs ∧
      (Extraction.ofPhrases ps).recipe.map Recipe.unindented =
        .ok ⟨"# )", "", [⟨a, none, none, none⟩], [⟨a, [], none⟩], ""⟩ ∧
      (Extraction.ofPhrases ps).unknown = [(.dependsOn, zip)] := by
  intro a zip comment lineBreak remark ps qs
  have h : List.Forall₂ Phrase.Refilled ps qs :=
    .cons (.same remark) (.cons (@Phrase.Refilled.call .version _ _ (refilled_iff.2 rfl))
      (.cons (@Phrase.Refilled.call .dependsOn _ _ (refilled_iff.2 rfl)) .nil))
  obtain ⟨hrecipe, hunknown⟩ := ofPhrases_refilled.2 ps qs h
  rw [hrecipe, hunknown]
  refine ⟨h, ?_, ?_⟩
  · cbv
  · cbv

end PackageRecipe
