import PackageRecipe.Call.Form
import PackageRecipe.Proofs.Phrase.Extent
import PackageRecipe.Proofs.Token.Ending

/-!
Lists in parentheses as they are written: items, each after a comma and a space, and the closing
parenthesis. An item may be any tokens that end before a comma or a parenthesis, hold no line break
and close the brackets that they open, and a list of items is again of this kind.
-/
namespace PackageRecipe

open Call Lexeme

def Call.space : Token := ⟨.whitespace, " "⟩

/-- The tokens without blanks and comments. -/
def significant (ts : List Token) : List Token := ts.filter fun t => !t.isFiller

/-- Tokens that may stand in a list. -/
structure Item (ts : List Token) : Prop where
  lexed : ∀ c ∈ [',', ')'], ∀ cs, Lexed ts (c :: cs)
  head : ∃ c cs, (sourceText ts).toList = c :: cs ∧ isSpace c = false ∧ c ≠ '='
  noBreak : ∀ t ∈ ts, t.isBreak = false
  nested : ∀ depth, openAfter depth ts = depth

/-- More items of a list and its end. -/
def listed (items : List (List Token)) : List Token :=
  items.flatMap (fun ts => comma :: Call.space :: ts) ++ [closeParenthesis]

theorem openAfter_append (depth : Nat) (ts us : List Token) :
    openAfter depth (ts ++ us) = openAfter (openAfter depth ts) us :=
  List.foldl_append

theorem unbroken_of_not_isBreak {depth : Nat} {ts : List Token} (h : ∀ t ∈ ts, t.isBreak = false) :
    Unbroken depth ts := by
  induction ts generalizing depth with
  | nil => trivial
  | cons t ts ih =>
    obtain ⟨ht, hts⟩ := List.forall_mem_cons.1 h
    refine ⟨fun hb => ?_, ih hts⟩
    rw [ht] at hb
    cases hb

theorem listed_cons (ts : List Token) (items : List (List Token)) :
    listed (ts :: items) = comma :: Call.space :: ts ++ listed items := by
  rw [listed, List.flatMap_cons, List.append_assoc]
  rfl

theorem head_listed (items : List (List Token)) :
    ∃ c cs, (sourceText (listed items)).toList = c :: cs ∧ c ∈ [',', ')'] := by
  cases items with
  | nil => exact ⟨')', [], rfl, by decide⟩
  | cons ts items =>
    refine ⟨',', (sourceText (Call.space :: ts ++ listed items)).toList, ?_, by decide⟩
    rw [listed_cons, List.cons_append, sourceText_cons, String.toList_append]
    rfl

/-- A list may stand before anything. -/
theorem lexed_listed {items : List (List Token)} (h : ∀ ts ∈ items, Item ts) (rest : List Char) :
    Lexed (listed items) rest := by
  induction items with
  | nil => exact ⟨Token.endsBefore_of_mark (by decide) _, trivial⟩
  | cons ts items ih =>
    obtain ⟨hi, his⟩ := List.forall_mem_cons.1 h
    obtain ⟨c, cs, hh, hs, -⟩ := hi.head
    obtain ⟨d, ds, hr, hd⟩ := head_listed items
    rw [listed_cons, List.cons_append, List.cons_append]
    refine ⟨Token.endsBefore_of_mark (by decide) _, ?_, lexed_append.2 ⟨?_, ih his⟩⟩
    · rw [sourceText_append, String.toList_append, hh]
      exact Token.endsBefore_space hs _
    · rw [hr]
      exact hi.lexed d hd _

theorem noBreak_listed {items : List (List Token)} (h : ∀ ts ∈ items, Item ts) :
    ∀ t ∈ listed items, t.isBreak = false := by
  induction items with
  | nil => decide
  | cons ts items ih =>
    obtain ⟨hi, his⟩ := List.forall_mem_cons.1 h
    rw [listed_cons, List.cons_append, List.cons_append]
    refine List.forall_mem_cons.2 ⟨rfl, List.forall_mem_cons.2 ⟨rfl, ?_⟩⟩
    exact List.forall_mem_append.2 ⟨hi.noBreak, ih his⟩

theorem openAfter_listed {items : List (List Token)} (h : ∀ ts ∈ items, Item ts) (depth : Nat) :
    openAfter (depth + 1) (listed items) = depth := by
  induction items with
  | nil => rfl
  | cons ts items ih =>
    obtain ⟨hi, his⟩ := List.forall_mem_cons.1 h
    rw [listed_cons, List.cons_append, List.cons_append]
    show openAfter (depth + 1) (ts ++ listed items) = depth
    rw [openAfter_append, hi.nested, ih his]

theorem significant_append (ts us : List Token) :
    significant (ts ++ us) = significant ts ++ significant us :=
  List.filter_append ts us

theorem significant_listed (items : List (List Token)) :
    significant (listed items) =
      items.flatMap (fun ts => comma :: significant ts) ++ [closeParenthesis] := by
  induction items with
  | nil => rfl
  | cons ts items ih =>
    rw [listed_cons, significant_append, ih, List.flatMap_cons, List.append_assoc]
    rfl

theorem sourceText_listed (items : List (List Token)) :
    sourceText (listed items) =
      String.join (items.map fun ts => ", " ++ sourceText ts) ++ ")" := by
  induction items with
  | nil => rfl
  | cons ts items ih =>
    rw [listed_cons, sourceText_append, ih, List.map_cons, String.join_cons, sourceText_cons,
      sourceText_cons, ← String.append_assoc, ← String.append_assoc]
    rfl

/-- A list in parentheses with at least one item may stand in a list itself. -/
theorem Item.parenthesized {ts : List Token} {items : List (List Token)} (hi : Item ts)
    (h : ∀ us ∈ items, Item us) : Item (openParenthesis :: ts ++ listed items) := by
  obtain ⟨d, ds, hr, hd⟩ := head_listed items
  constructor
  · intro c hc cs
    refine ⟨Token.endsBefore_of_mark (by decide) _, lexed_append.2 ⟨?_, lexed_listed h _⟩⟩
    rw [hr]
    exact hi.lexed d hd _
  · refine ⟨'(', (sourceText (ts ++ listed items)).toList, ?_, by decide, by decide⟩
    rw [List.cons_append, sourceText_cons, String.toList_append]
    rfl
  · intro t ht
    rw [List.cons_append, List.mem_cons] at ht
    rcases ht with rfl | ht
    · rfl
    · exact List.forall_mem_append.2 ⟨hi.noBreak, noBreak_listed h⟩ t ht
  · intro depth
    show openAfter (depth + 1) (ts ++ listed items) = depth
    rw [openAfter_append, hi.nested, openAfter_listed h]

end PackageRecipe
