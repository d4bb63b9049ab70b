import PackageRecipe.Declaration.Reading
import PackageRecipe.Proofs.Call.Overfull
import PackageRecipe.Proofs.Declaration.Listing
import PackageRecipe.Proofs.Recipe.Extraction

/-!
The keyword arguments of a declaration as they are written, and its tokens as a whole. If the
declaration is well formed, each keyword may stand in a list, and without its blanks it spells what
it sets.
-/
namespace PackageRecipe

open Call Lexeme

/-- The token is a string literal that a text by itself may be. -/
def Token.IsLiteral (t : Token) : Prop := t.kind = .string ∧ Token.ofSource t.text = .ok [t]

/-- A keyword argument: its key, the tokens of its value as they are written, and what it sets. -/
structure Keyword (call : Call) where
  key : Token
  value : List Token
  setting : Setting call

def Keyword.tokens {call : Call} (k : Keyword call) : List Token := k.key :: assignment :: k.value

/-- The keyword stands in a list and sets what it says. -/
structure Keyword.Written {call : Call} (k : Keyword call) : Prop where
  item : Item k.tokens
  form : Entry.Form (.setting k.setting) (significant k.tokens)

def Version.keywords (v : Version) : List (Keyword .version) :=
  v.pin.toList.map (fun a => ⟨a.key, [a.value], .pin a⟩) ++
    v.source.toList.map (fun a => ⟨a.key, [a.value], .source a⟩) ++
    v.preferred.toList.map fun t => ⟨⟨.identifier, "preferred"⟩, [t], .preferred t⟩

/-- One type by itself, or more in parentheses. -/
def writtenTypes (t : Token) : List Token → List Token
  | [] => [t]
  | u :: us => openParenthesis :: [t] ++ listed ((u :: us).map fun v => [v])

def Dependency.keywords (d : Dependency) : List (Keyword .dependsOn) :=
  (match d.types with
    | [] => []
    | t :: ts => [⟨⟨.identifier, "type"⟩, writtenTypes t ts, .types (t :: ts)⟩]) ++
    d.condition.toList.map fun t => ⟨⟨.identifier, "when"⟩, [t], .condition t⟩

namespace Declaration

/-- The string that the call begins with. -/
def first : Declaration → Token
  | version v => v.name
  | dependency d => d.spec

def keywords : (d : Declaration) → List (Keyword d.call)
  | version v => v.keywords
  | dependency d => d.keywords

def text : Declaration → String
  | version v => v.text
  | dependency d => d.text

def WellFormed (Literal : Token → Prop) : Declaration → Prop
  | version v => v.WellFormed Literal
  | dependency d => d.WellFormed Literal

/-- The tokens of the declaration as it is written. -/
def tokens (d : Declaration) : List Token :=
  d.call.callee :: openParenthesis :: d.first :: listed (d.keywords.map Keyword.tokens)

end Declaration

/-- All keys that a call knows. -/
def knownKeys : List String := pinKeys ++ sourceKeys ++ ["preferred", "type", "when"]

/-- The words that declarations are written with. -/
def writtenWords : List String := knownKeys ++ ["version", "depends_on", "True", "False"]

theorem endsBefore_of_written {t : Token} (ht : t.text ∈ writtenWords)
    (hk : wordKind t.text.toList = t.kind) {c : Char} (hc : c ∈ ['(', ')', ',', '='])
    (cs : List Char) : t.EndsBefore (c :: cs) := by
  have words : ∀ word ∈ writtenWords,
      State.ofText? word.toList = some (.word word.toList.reverse) := by decide
  have signs : (['(', ')', ',', '='].all fun c => !Text.extendsName c && !isQuote c) = true := by
    decide
  obtain ⟨he, hq⟩ := Bool.and_eq_true_iff.1 (List.all_eq_true.1 signs c hc)
  refine Token.endsBefore_of_word (words _ ht) hk fun d hd => ?_
  obtain rfl : c = d := Option.some.inj hd
  exact ⟨by simpa using he, fun h => by simp [h] at hq⟩

theorem Item.assigned {key : Token} {value : List Token} (hk : isKey key = true)
    (hm : key.text ∈ knownKeys) (hv : Item value) : Item (key :: assignment :: value) := by
  have hi : key.kind = .identifier := of_decide_eq_true hk
  have hw : wordKind key.text.toList = key.kind := by
    have words : ∀ word ∈ knownKeys, wordKind word.toList = .identifier := by decide
    rw [words _ hm, hi]
  have ht : (sourceText (assignment :: value)).toList = '=' :: (sourceText value).toList := by
    rw [sourceText_cons, String.toList_append]
    rfl
  obtain ⟨c, cs, hh, -, hc⟩ := hv.head
  constructor
  · intro d hd ds
    refine ⟨?_, ?_, hv.lexed d hd ds⟩
    · rw [ht]
      exact endsBefore_of_written (List.mem_append_left _ hm) hw (by decide) _
    · rw [hh]
      exact Token.endsBefore_assignment hc _
  · have heads : ∀ word ∈ knownKeys,
        (word.toList.head?.any fun c => !isSpace c && c ≠ '=') = true := by decide
    obtain ⟨d, hd, hs⟩ := (Option.any_eq_true _ _).1 (heads _ hm)
    obtain ⟨ds, he⟩ := List.head?_eq_some_iff.1 hd
    refine ⟨d, ds ++ (sourceText (assignment :: value)).toList, ?_, by simpa using hs⟩
    rw [sourceText_cons, String.toList_append, he]
    rfl
  · have hb : key.isBreak = false := by simp [Token.isBreak, hi]
    exact List.forall_mem_cons.2 ⟨hb, List.forall_mem_cons.2 ⟨rfl, hv.noBreak⟩⟩
  · intro depth
    have hd : key.depthAfter depth = depth := by
      simp [Token.depthAfter, Token.isOpener, Token.isCloser, not_isDelimiter_of_isKey hk]
    show openAfter (key.depthAfter depth) (assignment :: value) = depth
    rw [hd]
    exact hv.nested depth

/-- A token that is no bracket and no line break stands in a list if it is read before the end of
one. -/
theorem Item.singleton {t : Token} (hl : ∀ c ∈ [',', ')'], ∀ cs, t.EndsBefore (c :: cs))
    (hh : ∃ c cs, t.text.toList = c :: cs ∧ isSpace c = false ∧ c ≠ '=')
    (hk : t.kind = .string ∨ t.kind = .keyword) : Item [t] := by
  have hb : t.isBreak = false ∧ ∀ text, t.isDelimiter text = false := by
    rcases hk with hk | hk
    · simp [Token.isBreak, Token.isDelimiter, Token.spells, hk]
    · simp [Token.isBreak, Token.isDelimiter, Token.spells, hk]
  constructor
  · exact fun c hc cs => ⟨hl c hc cs, trivial⟩
  · simpa using hh
  · simpa using hb.1
  · intro depth
    simp [openAfter, Token.depthAfter, Token.isOpener, Token.isCloser, hb.2]

namespace Token.IsLiteral

variable {t : Token}

theorem isString (h : t.IsLiteral) : isString t = true := decide_eq_true h.1

theorem endsBefore (h : t.IsLiteral) : t.EndsBefore [] := (Token.ofSource_eq_ok_iff.1 h.2).2.1

theorem item (h : t.IsLiteral) : Item [t] := by
  refine Item.singleton (fun c hc cs => ?_) ?_ (.inl h.1)
  · refine h.endsBefore.string_cons h.1 ?_
    rcases (by simpa using hc : c = ',' ∨ c = ')') with rfl | rfl <;> rfl
  · obtain ⟨c, cs, he, hc⟩ := h.endsBefore.string_head h.1
    refine ⟨c, cs, he, ?_⟩
    -- blanks and the sign open neither a string nor a name
    have hn : ∀ d, isQuote d = false → Text.opensName d = false → c ≠ d := by
      intro d hq ho hcd
      subst hcd
      rw [hq, ho] at hc
      rcases hc with hc | hc <;> cases hc
    refine ⟨?_, hn '=' (by decide) (by decide)⟩
    by_contra hs
    rcases isSpace_iff.1 (by simpa using hs) with hs | hs | hs
    · exact hn ' ' (by decide) (by decide) hs
    · exact hn '\t' (by decide) (by decide) hs
    · exact hn '\x0c' (by decide) (by decide) hs

theorem significant_singleton (h : t.IsLiteral) : significant [t] = [t] := by
  simp [significant, Token.isFiller, Token.isBlank, Token.isComment, h.1]

end Token.IsLiteral

theorem item_boolean {t : Token} (h : t = ⟨.keyword, "True"⟩ ∨ t = ⟨.keyword, "False"⟩) :
    Item [t] := by
  have ends : [',', ')'] ⊆ ['(', ')', ',', '='] := by simp
  rcases h with rfl | rfl
  · refine Item.singleton (fun c hc cs => ?_) ⟨'T', ['r', 'u', 'e'], rfl, by decide⟩ (.inr rfl)
    exact endsBefore_of_written (by decide) (by decide) (ends hc) cs
  · refine Item.singleton (fun c hc cs => ?_) ⟨'F', ['a', 'l', 's', 'e'], rfl, by decide⟩ (.inr rfl)
    exact endsBefore_of_written (by decide) (by decide) (ends hc) cs

theorem significant_boolean {t : Token} (h : t = ⟨.keyword, "True"⟩ ∨ t = ⟨.keyword, "False"⟩) :
    significant [t] = [t] := by
  rcases h with rfl | rfl
  · rfl
  · rfl

/-- A keyword sets its slot if its value is an item that spells the setting. -/
theorem Keyword.Written.of_form {call : Call} {k : Keyword call} {slot : Slot call}
    (hk : isKey k.key = true) (hm : k.key.text ∈ knownKeys)
    (hs : Slot.ofKey? call k.key.text = some slot) (hi : Item k.value)
    (hf : Setting.Form k.key slot k.setting (significant k.value)) : k.Written := by
  have hn : k.key.isFiller = false := by
    have hh : k.key.kind = .identifier := of_decide_eq_true hk
    simp [Token.isFiller, Token.isBlank, Token.isComment, hh]
  refine ⟨hi.assigned hk hm, ?_⟩
  have hv : significant k.tokens = k.key :: assignment :: significant k.value := by
    rw [Keyword.tokens, significant, List.filter_cons_of_pos (by simp [hn])]
    rfl
  rw [hv]
  exact .setting hk hs hf

theorem Argument.WellFormed.written {a : Argument} {keys : List String} {slot : Slot .version}
    {s : Setting .version} (h : a.WellFormed Token.IsLiteral keys) (hm : keys ⊆ knownKeys)
    (hk : ∀ key ∈ keys, Slot.ofKey? .version key = some slot)
    (hf : isString a.value = true → Setting.Form a.key slot s [a.value]) :
    (⟨a.key, [a.value], s⟩ : Keyword .version).Written := by
  refine .of_form h.key_isKey (hm h.key_mem) (hk _ h.key_mem) h.value.item ?_
  rw [h.value.significant_singleton]
  exact hf h.value.isString

theorem Version.WellFormed.written {v : Version} (h : v.WellFormed Token.IsLiteral) :
    ∀ k ∈ v.keywords, k.Written := by
  intro k hk
  simp only [Version.keywords, List.mem_append, List.mem_map, Option.mem_toList] at hk
  rcases hk with (⟨a, ha, rfl⟩ | ⟨a, ha, rfl⟩) | ⟨t, ht, rfl⟩
  · exact (h.pin a ha).written (by decide) (by decide) .pin
  · exact (h.source a ha).written (by decide) (by decide) .source
  · have hb := h.preferred t ht
    have hm : "preferred" ∈ knownKeys := by decide
    refine .of_form rfl hm rfl (item_boolean hb) ?_
    rw [significant_boolean hb]
    exact .preferred hb

theorem significant_listed_singletons {ts : List Token} (h : ∀ t ∈ ts, t.IsLiteral) :
    significant (listed (ts.map fun t => [t])) =
      ts.flatMap (fun t => [comma, t]) ++ [closeParenthesis] := by
  rw [significant_listed, List.flatMap_map]
  have hs : ∀ t ∈ ts, comma :: significant [t] = [comma, t] := by
    intro t ht
    rw [(h t ht).significant_singleton]
  rw [List.flatMap_congr hs]

/-- Types may stand in a list, however many they are. -/
theorem item_writtenTypes {t : Token} {ts : List Token} (h : ∀ u ∈ t :: ts, u.IsLiteral) :
    Item (writtenTypes t ts) := by
  obtain ⟨ht, hts⟩ := List.forall_mem_cons.1 h
  cases ts with
  | nil => exact ht.item
  | cons u us =>
    refine ht.item.parenthesized fun vs hv => ?_
    obtain ⟨v, hm, rfl⟩ := List.mem_map.1 hv
    exact (hts v hm).item

theorem significant_writtenTypes {t u : Token} {us : List Token}
    (h : ∀ v ∈ t :: u :: us, v.IsLiteral) : significant (writtenTypes t (u :: us)) =
      openParenthesis :: t :: (u :: us).flatMap (fun v => [comma, v]) ++ [closeParenthesis] := by
  obtain ⟨ht, hts⟩ := List.forall_mem_cons.1 h
  have hh : significant (openParenthesis :: [t]) = [openParenthesis, t] := by
    have hs := ht.significant_singleton
    rw [significant] at hs
    rw [significant, List.filter_cons_of_pos (by decide), hs]
  rw [writtenTypes, significant_append, significant_listed_singletons hts, hh]
  rfl

/-- Types are written as a call reads them. -/
theorem typesForm_writtenTypes {t : Token} {ts : List Token} (h : ∀ u ∈ t :: ts, u.IsLiteral)
    (hl : (t :: ts).length ≤ typeLimit) :
    TypesForm (t :: ts) (significant (writtenTypes t ts)) := by
  cases ts with
  | nil =>
    have ht := h t List.mem_cons_self
    rw [writtenTypes, ht.significant_singleton]
    exact .single ht.isString
  | cons u us =>
    have hf : TypesForm (t :: u :: us) (openParenthesis :: t ::
        (u :: us).flatMap (fun v => [comma, v]) ++ [] ++ [closeParenthesis]) :=
      .list (fun v hv => (h v hv).isString) hl .absent
    rw [List.append_nil] at hf
    rwa [significant_writtenTypes h]

theorem Dependency.WellFormed.written {d : Dependency} (h : d.WellFormed Token.IsLiteral) :
    ∀ k ∈ d.keywords, k.Written := by
  intro k hk
  rw [Dependency.keywords, List.mem_append] at hk
  rcases hk with hk | hk
  · have htypes := h.types
    have hlength := h.types_length
    cases hd : d.types with
    | nil =>
      rw [hd] at hk
      cases hk
    | cons t ts =>
      rw [hd] at hk htypes hlength
      obtain rfl := List.mem_singleton.1 hk
      have hf := typesForm_writtenTypes htypes hlength
      have hm : "type" ∈ knownKeys := by decide
      exact .of_form rfl hm rfl (item_writtenTypes htypes) (.types hf)
  · obtain ⟨t, ht, rfl⟩ := List.mem_map.1 hk
    have hw := h.condition t (Option.mem_toList.1 ht)
    have hm : "when" ∈ knownKeys := by decide
    refine .of_form rfl hm rfl hw.item ?_
    rw [hw.significant_singleton]
    exact .condition hw.isString

namespace Dependency

variable (d : Dependency)

theorem item_of_mem_keywords (ht : ∀ t ∈ d.types, t.IsLiteral)
    (hc : ∀ t ∈ d.condition, t.IsLiteral) {k : Keyword .dependsOn} (hk : k ∈ d.keywords) :
    Item k.tokens := by
  rw [keywords, List.mem_append] at hk
  rcases hk with hk | hk
  · cases hd : d.types with
    | nil =>
      rw [hd] at hk
      cases hk
    | cons t ts =>
      rw [hd] at hk ht
      obtain rfl := List.mem_singleton.1 hk
      have hm : "type" ∈ knownKeys := by decide
      exact Item.assigned rfl hm (item_writtenTypes ht)
  · obtain ⟨t, hm, rfl⟩ := List.mem_map.1 hk
    have hw : "when" ∈ knownKeys := by decide
    exact Item.assigned rfl hw (hc t (Option.mem_toList.1 hm)).item

/-- The keywords of a dependency with too many types are read up to these. -/
theorem read_keywords_of_length_lt (ht : ∀ t ∈ d.types, t.IsLiteral)
    (hl : typeLimit < d.types.length) (rest : List Token) :
    Arguments.read .dependsOn
        ((d.keywords.flatMap fun k => comma :: significant k.tokens) ++ rest) =
      ⟨[], .error .tooManyTypes⟩ := by
  obtain ⟨t, u, us, hts⟩ : ∃ t u us, d.types = t :: u :: us := by
    match hd : d.types with
    | [] | [_] => simp [hd, typeLimit] at hl
    | t :: u :: us => exact ⟨t, u, us, rfl⟩
  have hk : isKey ⟨.identifier, "type"⟩ = true := rfl
  obtain ⟨ks, hks⟩ : ∃ ks, d.keywords =
      ⟨⟨.identifier, "type"⟩, writtenTypes t (u :: us), .types (t :: u :: us)⟩ :: ks := by
    rw [keywords, hts]
    exact ⟨_, rfl⟩
  rw [hts] at ht hl
  have hsig : significant (⟨.identifier, "type"⟩ :: assignment :: writtenTypes t (u :: us)) =
      ⟨.identifier, "type"⟩ :: assignment :: openParenthesis :: t ::
        (u :: us).flatMap (fun v => [comma, v]) ++ [closeParenthesis] := by
    rw [List.cons_append, List.cons_append, ← significant_writtenTypes ht]
    rfl
  rw [hks, List.flatMap_cons, Keyword.tokens, hsig, List.append_assoc, List.cons_append,
    List.append_assoc]
  refine Arguments.read_of_error (afterArgument_comma ?_)
    (Entry.read_of_length_lt hk rfl (fun v hv => (ht v hv).isString) hl _)
  rintro _ ⟨⟩
  exact not_isDelimiter_of_isKey hk _

end Dependency

/-- The arguments of a call spell the settings of its keywords. -/
theorem entriesForm_of_written {call : Call} {ks : List (Keyword call)}
    (h : ∀ k ∈ ks, k.Written) :
    EntriesForm (ks.map fun k => .setting k.setting)
      (ks.flatMap fun k => comma :: significant k.tokens) := by
  induction ks with
  | nil => exact .nil
  | cons k ks ih =>
    obtain ⟨hk, hks⟩ := List.forall_mem_cons.1 h
    exact .cons hk.form (ih hks)

end PackageRecipe
