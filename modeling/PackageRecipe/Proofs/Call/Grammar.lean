import PackageRecipe.Proofs.Call.Sound

/-!
The grammar of either call as it is written down without the reader: the keys that it knows with the
values that they take, and any other key with nothing behind it or with a value whose brackets
match. This grammar and the forms that reading goes by derive the same tokens.
-/
namespace PackageRecipe.Call

section Value

variable {depth : Nat} {t : Token} {ts : List Token}

/-- How many more brackets are opened than closed, whatever their shapes. -/
def nesting (ts : List Token) : Int := ts.countP Token.isOpener - ts.countP Token.isCloser

/-- The tokens close what they open and `depth` brackets more. No bracket is closed that is not
open, and no comma stands outside brackets. -/
structure IsValue (depth : Nat) (ts : List Token) : Prop where
  nonneg : ∀ n, 0 ≤ depth + nesting (ts.take n)
  closed : depth + nesting ts = 0
  comma_nested : ∀ n, ts[n]? = some comma → depth + nesting (ts.take n) ≠ 0

theorem nesting_cons (h : depth = 0 → t.isCloser = false) (ts : List Token) :
    depth + nesting (t :: ts) = t.depthAfter depth + nesting ts := by
  simp only [nesting, List.countP_cons, Token.depthAfter]
  cases ho : t.isOpener with
  | true =>
    have hc := (not_isCloser_of_isOpener ho).1
    simp only [hc, Bool.false_eq_true, if_true, if_false]
    omega
  | false =>
    cases hc : t.isCloser with
    | true =>
      have hd : depth ≠ 0 := fun hd => by simp [h hd] at hc
      simp only [Bool.false_eq_true, if_true, if_false]
      omega
    | false =>
      simp only [Bool.false_eq_true, if_false]
      omega

/-- A value goes on with any token but one that would end it. -/
theorem isValue_cons_iff :
    IsValue depth (t :: ts) ↔
      (depth = 0 → t.isCloser = false ∧ t.isDelimiter "," = false) ∧
        IsValue (t.depthAfter depth) ts := by
  constructor
  · intro h
    have hend : depth = 0 → t.isCloser = false ∧ t.isDelimiter "," = false := by
      rintro rfl
      constructor
      · cases hc : t.isCloser with
        | false => rfl
        | true =>
          have hn := h.nonneg 1
          simp [nesting, not_isOpener_of_isCloser hc, hc] at hn
      · cases hd : t.isDelimiter "," with
        | false => rfl
        | true => exact absurd rfl (h.comma_nested 0 (congrArg some (eq_of_isDelimiter hd)))
    have hstep := nesting_cons fun hd => (hend hd).1
    refine ⟨hend, fun n => ?_, ?_, fun n hn => ?_⟩
    · rw [← hstep]
      exact h.nonneg (n + 1)
    · rw [← hstep]
      exact h.closed
    · rw [← hstep]
      exact h.comma_nested (n + 1) hn
  · rintro ⟨hend, h⟩
    have hstep := nesting_cons fun hd => (hend hd).1
    refine ⟨fun n => ?_, ?_, fun n hn => ?_⟩
    · cases n with
      | zero => exact Int.natCast_nonneg depth
      | succ n =>
        rw [List.take_succ_cons, hstep]
        exact h.nonneg n
    · rw [hstep]
      exact h.closed
    · cases n with
      | zero =>
        obtain rfl : t = comma := Option.some.inj hn
        intro hd
        have hz : depth = 0 := Int.natCast_eq_zero.1 hd
        exact absurd (hend hz).2 (by decide)
      | succ n =>
        rw [List.take_succ_cons, hstep]
        exact h.comma_nested n hn

/-- Brackets match by count exactly if they match one by one. -/
theorem balanced_iff_isValue : Balanced depth ts ↔ IsValue depth ts := by
  induction ts generalizing depth with
  | nil =>
    constructor
    · intro h
      cases h
      exact ⟨fun n => by simp [nesting], rfl, nofun⟩
    · intro h
      obtain rfl : depth = 0 := Int.natCast_eq_zero.1 h.closed
      exact .nil
  | cons t ts ih => rw [balanced_cons_iff, isValue_cons_iff, ih]

end Value

/-- What may follow a key that the call does not know. -/
inductive Ignored : List Token → Prop where
  | alone : Ignored []
  | assigned {ts : List Token} : IsValue 0 ts → Ignored (assignment :: ts)

/-- An argument of a `version` call. -/
inductive VersionArgument : Entry .version → List Token → Prop where
  | pin {key value : Token} :
      isKey key = true → key.text ∈ pinKeys → isString value = true →
      VersionArgument (.setting (.pin ⟨key, value⟩)) [key, assignment, value]
  | source {key value : Token} :
      isKey key = true → key.text ∈ sourceKeys → isString value = true →
      VersionArgument (.setting (.source ⟨key, value⟩)) [key, assignment, value]
  | preferred {key value : Token} :
      isKey key = true → key.text = "preferred" →
      value = ⟨.keyword, "True"⟩ ∨ value = ⟨.keyword, "False"⟩ →
      VersionArgument (.setting (.preferred value)) [key, assignment, value]
  | unknown {key : Token} {ts : List Token} :
      isKey key = true → key.text ∉ pinKeys ++ sourceKeys ++ ["preferred"] → Ignored ts →
      VersionArgument (.unknown key) (key :: ts)

/-- An argument of a `depends_on` call. -/
inductive DependencyArgument : Entry .dependsOn → List Token → Prop where
  | types {key : Token} {values ts : List Token} :
      isKey key = true → key.text = "type" → TypesForm values ts →
      DependencyArgument (.setting (.types values)) (key :: assignment :: ts)
  | condition {key value : Token} :
      isKey key = true → key.text = "when" → isString value = true →
      DependencyArgument (.setting (.condition value)) [key, assignment, value]
  | unknown {key : Token} {ts : List Token} :
      isKey key = true → key.text ∉ ["type", "when"] → Ignored ts →
      DependencyArgument (.unknown key) (key :: ts)

/-- The keys that set a slot. -/
def Slot.keys {call : Call} : Slot call → List String
  | pin => pinKeys
  | source => sourceKeys
  | preferred => ["preferred"]
  | types => ["type"]
  | condition => ["when"]

/-- No key sets two slots. -/
theorem Slot.ofKey?_eq_some_iff {call : Call} (slot : Slot call) {key : String} :
    Slot.ofKey? call key = some slot ↔ key ∈ slot.keys := by
  have disjoint : ∀ key ∈ sourceKeys, key ∉ pinKeys := by decide
  have apart : "preferred" ∉ pinKeys ∧ "preferred" ∉ sourceKeys := by decide
  cases slot
  all_goals grind [Slot.ofKey?, Slot.keys]

theorem Slot.ofKey?_eq_none_iff {key : String} :
    (Slot.ofKey? .version key = none ↔ key ∉ pinKeys ++ sourceKeys ++ ["preferred"]) ∧
      (Slot.ofKey? .dependsOn key = none ↔ key ∉ ["type", "when"]) := by
  constructor
  all_goals grind [Slot.ofKey?]

theorem Entry.form_iff_versionArgument {e : Entry .version} {ts : List Token} :
    Entry.Form e ts ↔ VersionArgument e ts := by
  constructor
  · intro h
    cases h with
    | setting hk ho hs =>
      have hm := (Slot.ofKey?_eq_some_iff _).1 ho
      cases hs with
      | pin hv => exact .pin hk hm hv
      | source hv => exact .source hk hm hv
      | preferred hv => exact .preferred hk (List.mem_singleton.1 hm) hv
    | unknown hk ho => exact .unknown hk (Slot.ofKey?_eq_none_iff.1.1 ho) .alone
    | unknownAssigned hk ho hb =>
      exact .unknown hk (Slot.ofKey?_eq_none_iff.1.1 ho) (.assigned (balanced_iff_isValue.1 hb))
  · intro h
    cases h with
    | pin hk hm hv => exact .setting hk ((Slot.ofKey?_eq_some_iff .pin).2 hm) (.pin hv)
    | source hk hm hv => exact .setting hk ((Slot.ofKey?_eq_some_iff .source).2 hm) (.source hv)
    | preferred hk hm hv =>
      have ho := (Slot.ofKey?_eq_some_iff .preferred).2 (List.mem_singleton.2 hm)
      exact .setting hk ho (.preferred hv)
    | unknown hk hm hi =>
      have ho := Slot.ofKey?_eq_none_iff.1.2 hm
      cases hi with
      | alone => exact .unknown hk ho
      | assigned hv => exact .unknownAssigned hk ho (balanced_iff_isValue.2 hv)

theorem Entry.form_iff_dependencyArgument {e : Entry .dependsOn} {ts : List Token} :
    Entry.Form e ts ↔ DependencyArgument e ts := by
  constructor
  · intro h
    cases h with
    | setting hk ho hs =>
      have hm := (Slot.ofKey?_eq_some_iff _).1 ho
      cases hs with
      | types ht => exact .types hk (List.mem_singleton.1 hm) ht
      | condition hv => exact .condition hk (List.mem_singleton.1 hm) hv
    | unknown hk ho => exact .unknown hk (Slot.ofKey?_eq_none_iff.2.1 ho) .alone
    | unknownAssigned hk ho hb =>
      exact .unknown hk (Slot.ofKey?_eq_none_iff.2.1 ho) (.assigned (balanced_iff_isValue.1 hb))
  · intro h
    cases h with
    | types hk hm ht =>
      have ho := (Slot.ofKey?_eq_some_iff .types).2 (List.mem_singleton.2 hm)
      exact .setting hk ho (.types ht)
    | condition hk hm hv =>
      have ho := (Slot.ofKey?_eq_some_iff .condition).2 (List.mem_singleton.2 hm)
      exact .setting hk ho (.condition hv)
    | unknown hk hm hi =>
      have ho := Slot.ofKey?_eq_none_iff.2.2 hm
      cases hi with
      | alone => exact .unknown hk ho
      | assigned hv => exact .unknownAssigned hk ho (balanced_iff_isValue.2 hv)

section Spells

variable {call : Call} {first : Token} {es : List (Entry call)}

/-- A call with its first argument and the others, each after a comma, and any tokens after it. The
first token stands for the name that is called, whatever it is. -/
structure Spells (IsArgument : Entry call → List Token → Prop) (first : Token)
    (arguments : List (Entry call × List Token)) (tokens : List Token) : Prop where
  isString_first : isString first = true
  isArgument : ∀ a ∈ arguments, IsArgument a.1 a.2
  exists_layout : ∃ callee trailing rest, TrailingComma trailing ∧
    tokens = callee :: openParenthesis :: first :: arguments.flatMap (fun a => comma :: a.2) ++
      trailing ++ closeParenthesis :: rest

theorem entriesForm_iff {ts : List Token} : EntriesForm es ts ↔
    ∃ arguments : List (Entry call × List Token), arguments.map Prod.fst = es ∧
      arguments.flatMap (fun a => comma :: a.2) = ts ∧ ∀ a ∈ arguments, Entry.Form a.1 a.2 := by
  constructor
  · intro h
    induction h with
    | nil => exact ⟨[], rfl, rfl, nofun⟩
    | @cons e es ts us he _ ih =>
      obtain ⟨arguments, rfl, rfl, ha⟩ := ih
      exact ⟨(e, ts) :: arguments, rfl, rfl, List.forall_mem_cons.2 ⟨he, ha⟩⟩
  · rintro ⟨arguments, rfl, rfl, ha⟩
    induction arguments with
    | nil => exact .nil
    | cons a arguments ih =>
      obtain ⟨hd, htl⟩ := List.forall_mem_cons.1 ha
      exact .cons hd (ih htl)

/-- A grammar of the arguments that derives what the forms derive makes the same calls. -/
theorem form_iff_spells {IsArgument : Entry call → List Token → Prop}
    (h : ∀ {e : Entry call} {ts : List Token}, Entry.Form e ts ↔ IsArgument e ts)
    {tokens : List Token} : Form first es tokens ↔
      ∃ arguments, arguments.map Prod.fst = es ∧ Spells IsArgument first arguments tokens := by
  constructor
  · rintro ⟨hf, hes, ht⟩
    obtain ⟨arguments, rfl, rfl, ha⟩ := entriesForm_iff.1 hes
    exact ⟨arguments, rfl, hf, fun a hm => h.1 (ha a hm), _, _, _, ht, rfl⟩
  · rintro ⟨arguments, rfl, hf, ha, callee, trailing, rest, ht, rfl⟩
    exact .mk hf (entriesForm_iff.2 ⟨arguments, rfl, rfl, fun a hm => h.2 (ha a hm)⟩) ht

end Spells
end PackageRecipe.Call
