import PackageRecipe.Call.Form

/-!
What the grammar of a call derives, reading finds. Each step takes off the tokens that spell what it
looks for and leaves those behind them, whatever they are; only a value that nobody asked for needs
a comma or a closing bracket after it.
-/
namespace PackageRecipe.Call

theorem take_cons {what : Expectation} {accepts : Token → Bool} {t : Token} (h : accepts t = true)
    (ts : List Token) : take what accepts (t :: ts) = .ok (t, ts) := by
  rw [take, if_pos h]

theorem takeString_cons {t : Token} (h : isString t = true) (ts : List Token) :
    takeString (t :: ts) = .ok (t, ts) :=
  take_cons h ts

theorem ok_bind {α β : Type} (a : α) (next : α → Except CallFault β) : (.ok a >>= next) = next a :=
  rfl

theorem afterArgument_comma {ts : List Token} (h : ∀ t ∈ ts.head?, t.isDelimiter ")" = false) :
    afterArgument (comma :: ts) = .ok (.another ts) := by
  have hc : afterComma ts = .another ts := by
    cases ts with
    | nil => rfl
    | cons t ts => rw [afterComma, if_neg (by simp [h t rfl])]
  rw [afterArgument, if_pos (by decide), hc]

theorem afterArgument_close {trailing : List Token} (h : TrailingComma trailing)
    (rest : List Token) :
    afterArgument (trailing ++ closeParenthesis :: rest) = .ok (.closed rest) := by
  cases h with
  | absent => rfl
  | present => rfl

theorem not_isDelimiter_of_isString {t : Token} (h : isString t = true) (text : String) :
    t.isDelimiter text = false := by
  have hk : t.kind = .string := of_decide_eq_true h
  simp [Token.isDelimiter, Token.spells, hk]

theorem not_isDelimiter_of_isKey {t : Token} (h : isKey t = true) (text : String) :
    t.isDelimiter text = false := by
  have hk : t.kind = .identifier := of_decide_eq_true h
  simp [Token.isDelimiter, Token.spells, hk]

theorem moreTypes_append {room : Nat} {values trailing : List Token}
    (hs : ∀ t ∈ values, isString t = true) (hr : values.length ≤ room)
    (ht : TrailingComma trailing) (rest : List Token) :
    moreTypes room
      (values.flatMap (fun t => [comma, t]) ++ (trailing ++ closeParenthesis :: rest)) =
      .ok (values, rest) := by
  induction values generalizing room with
  | nil =>
    unfold moreTypes
    rw [List.flatMap_nil, List.nil_append, afterArgument_close ht]
  | cons t ts ih =>
    obtain ⟨hd, htl⟩ := List.forall_mem_cons.1 hs
    cases room with
    | zero => simp at hr
    | succ room =>
      have head : ∀ u ∈ (t :: (ts.flatMap (fun t => [comma, t]) ++
          (trailing ++ closeParenthesis :: rest))).head?, u.isDelimiter ")" = false := by
        rintro _ ⟨⟩
        exact not_isDelimiter_of_isString hd _
      rw [List.flatMap_cons, List.append_assoc, List.cons_append, List.cons_append,
        List.nil_append, moreTypes, afterArgument_comma head]
      dsimp only
      rw [takeString_cons hd, ok_bind, ih htl (Nat.le_of_succ_le_succ hr), ok_bind]

theorem takeTypes_append {values ts : List Token} (h : TypesForm values ts) (rest : List Token) :
    takeTypes (ts ++ rest) = .ok (values, rest) := by
  cases h with
  | @single t hs =>
    rw [List.cons_append, List.nil_append, takeTypes,
      if_neg (by simp [not_isDelimiter_of_isString hs])]
    rw [takeString_cons hs, ok_bind]
  | @list t ts trailing hs hl ht =>
    obtain ⟨hd, htl⟩ := List.forall_mem_cons.1 hs
    have hm := moreTypes_append htl (Nat.le_sub_one_of_lt hl) ht rest
    rw [takeTypes, if_pos (by rfl)]
    simp only [List.cons_append, List.append_assoc, List.tail_cons, List.nil_append]
    rw [takeString_cons hd, ok_bind, hm, ok_bind]

theorem Slot.read_append {call : Call} {key : Token} {slot : Slot call} {s : Setting call}
    {ts : List Token} (h : Setting.Form key slot s ts) (rest : List Token) :
    slot.read key (ts ++ rest) = .ok (s, rest) := by
  cases h with
  | types ht =>
    rw [Slot.read, takeTypes_append ht, ok_bind]
  | pin hv | source hv | condition hv =>
    rw [List.cons_append, List.nil_append, Slot.read, takeString_cons hv, ok_bind]
  | preferred hv =>
    rw [List.cons_append, List.nil_append, Slot.read, take_cons (isBoolean_iff.2 hv), ok_bind]

/-- A comma or a closing bracket ends a value that nobody asked for. -/
def EndsValue (rest : List Token) : Prop :=
  ∀ t ∈ rest.head?, t.isCloser = true ∨ t.isDelimiter "," = true

/-- A bracket that opens neither closes nor separates. -/
theorem not_isCloser_of_isOpener {t : Token} (h : t.isOpener = true) :
    t.isCloser = false ∧ t.isDelimiter "," = false := by
  obtain (ht | ht) | ht : (t.isDelimiter "(" = true ∨ t.isDelimiter "[" = true) ∨
      t.isDelimiter "\x7b" = true := by simpa [Token.isOpener] using h
  all_goals simp_all [Token.isCloser, Token.isDelimiter, Token.spells]

theorem not_isOpener_of_isCloser {t : Token} (h : t.isCloser = true) : t.isOpener = false := by
  cases ho : t.isOpener with
  | false => rfl
  | true => simp [(not_isCloser_of_isOpener ho).1] at h

/-- A balanced value goes on with any token but one that ends it. -/
theorem balanced_cons_iff {depth : Nat} {t : Token} {ts : List Token} :
    Balanced depth (t :: ts) ↔
      (depth = 0 → t.isCloser = false ∧ t.isDelimiter "," = false) ∧
        Balanced (t.depthAfter depth) ts := by
  rw [Token.depthAfter]
  constructor
  · intro h
    cases h with
    | opener ho hb => exact ⟨fun _ => not_isCloser_of_isOpener ho, by rwa [if_pos ho]⟩
    | @closer depth _ _ hc hb =>
      have ho := not_isOpener_of_isCloser hc
      exact ⟨nofun, by rwa [if_neg (by simp [ho]), if_pos hc]⟩
    | other ho hc hd hb =>
      exact ⟨fun hz => ⟨hc, hd hz⟩, by rwa [if_neg (by simp [ho]), if_neg (by simp [hc])]⟩
  · rintro ⟨hend, hb⟩
    cases ho : t.isOpener with
    | true => exact .opener ho (by rwa [if_pos ho] at hb)
    | false =>
      rw [if_neg (by simp [ho])] at hb
      cases hc : t.isCloser with
      | false =>
        rw [if_neg (by simp [hc])] at hb
        exact .other ho hc (fun hz => (hend hz).2) hb
      | true =>
        rw [if_pos hc] at hb
        cases depth with
        | zero => simp [(hend rfl).1] at hc
        | succ depth => exact .closer hc hb

theorem dropValue_cons {depth : Nat} {t : Token}
    (h : depth = 0 → t.isCloser = false ∧ t.isDelimiter "," = false) (ts : List Token) :
    dropValue depth (t :: ts) = dropValue (t.depthAfter depth) ts := by
  rw [dropValue, if_neg]
  simpa using h

theorem dropValue_append {depth : Nat} {ts rest : List Token} (h : Balanced depth ts)
    (hr : EndsValue rest) : dropValue depth (ts ++ rest) = rest := by
  induction ts generalizing depth with
  | nil =>
    cases h
    cases rest with
    | nil => rfl
    | cons t ts => rw [List.nil_append, dropValue, if_pos (by simpa using hr t rfl)]
  | cons t ts ih =>
    obtain ⟨hend, hb⟩ := balanced_cons_iff.1 h
    rw [List.cons_append, dropValue_cons hend, ih hb]

theorem not_isDelimiter_assignment {t : Token}
    (h : t.isCloser = true ∨ t.isDelimiter "," = true) : t.isDelimiter "=" = false := by
  obtain ht : ((t.isDelimiter ")" = true ∨ t.isDelimiter "]" = true) ∨
      t.isDelimiter "\x7d" = true) ∨ t.isDelimiter "," = true := by
    simpa [Token.isCloser] using h
  obtain ((ht | ht) | ht) | ht := ht <;> simp_all [Token.isDelimiter, Token.spells]

theorem dropAssigned_of_endsValue {rest : List Token} (h : EndsValue rest) :
    dropAssigned rest = rest := by
  cases rest with
  | nil => rfl
  | cons t ts => rw [dropAssigned, if_neg (by simp [not_isDelimiter_assignment (h t rfl)])]

theorem Entry.read_append {call : Call} {e : Entry call} {ts rest : List Token}
    (h : Entry.Form e ts) (hr : EndsValue rest) : Entry.read call (ts ++ rest) = .ok (e, rest) := by
  cases h with
  | @setting key slot s ts hk ho hs =>
    rw [List.cons_append, List.cons_append, Entry.read, take_cons hk]
    simp only [ok_bind, ho]
    rw [takeAssignment, take_cons (by decide), ok_bind, Slot.read_append hs, ok_bind]
  | @unknown key hk ho =>
    rw [List.cons_append, List.nil_append, Entry.read, take_cons hk]
    simp only [ok_bind, ho, dropAssigned_of_endsValue hr]
  | @unknownAssigned key ts hk ho hb =>
    have hd : dropAssigned (assignment :: ts ++ rest) = rest := by
      rw [List.cons_append, dropAssigned, if_pos (by rfl), List.tail_cons, dropValue_append hb hr]
    rw [List.cons_append, Entry.read, take_cons hk]
    simp only [ok_bind, ho, hd]

theorem Entry.Form.head? {call : Call} {e : Entry call} {ts : List Token} (h : Entry.Form e ts)
    (rest : List Token) : ∃ key, (ts ++ rest).head? = some key ∧ isKey key = true := by
  cases h with
  | setting hk | unknown hk | unknownAssigned hk => exact ⟨_, rfl, hk⟩

theorem TrailingComma.endsValue {trailing : List Token} (h : TrailingComma trailing)
    (rest : List Token) : EndsValue (trailing ++ closeParenthesis :: rest) := by
  cases h with
  | absent =>
    rintro _ ⟨⟩
    exact .inl (by decide)
  | present =>
    rintro _ ⟨⟩
    exact .inr (by decide)

theorem EntriesForm.endsValue {call : Call} {es : List (Entry call)} {ts rest : List Token}
    (h : EntriesForm es ts) (hr : EndsValue rest) : EndsValue (ts ++ rest) := by
  cases h with
  | nil => exact hr
  | cons =>
    rintro _ ⟨⟩
    exact .inr (by decide)

namespace Arguments

variable {call : Call} {ts us rest : List Token}

theorem read_of_afterArgument_error {fault : CallFault} (h : afterArgument ts = .error fault) :
    read call ts = ⟨[], .error fault⟩ := by
  rw [read]
  split <;> simp_all

theorem read_of_closed (h : afterArgument ts = .ok (.closed rest)) :
    read call ts = ⟨[], .ok rest⟩ := by
  rw [read]
  split <;> simp_all

/-- A fault in an argument is the fault of the call. -/
theorem read_of_error {fault : CallFault} (ha : afterArgument ts = .ok (.another us))
    (he : Entry.read call us = .error fault) : read call ts = ⟨[], .error fault⟩ := by
  rw [read]
  split
  · simp_all
  · simp_all
  · rename_i h
    obtain rfl := Continuation.another.inj (Except.ok.inj (ha.symm.trans h))
    split <;> simp_all

theorem read_of_entry {e : Entry call} (ha : afterArgument ts = .ok (.another us))
    (he : Entry.read call us = .ok (e, rest)) : read call ts = (read call rest).cons e := by
  rw [read]
  split
  · simp_all
  · simp_all
  · rename_i h
    obtain rfl := Continuation.another.inj (Except.ok.inj (ha.symm.trans h))
    split
    · simp_all
    · rename_i h
      cases he.symm.trans h
      rfl

/-- Arguments are read as what they spell, and then those behind them. -/
theorem read_entries {es : List (Entry call)} (h : EntriesForm es ts) (hr : EndsValue rest) :
    read call (ts ++ rest) = ⟨es ++ (read call rest).entries, (read call rest).outcome⟩ := by
  induction h with
  | nil => rfl
  | @cons e es ts us he hes ih =>
    obtain ⟨key, hh, hk⟩ := he.head? (us ++ rest)
    have ha : afterArgument (comma :: ts ++ us ++ rest) = .ok (.another (ts ++ (us ++ rest))) := by
      rw [List.append_assoc, List.cons_append]
      refine afterArgument_comma fun t hm => ?_
      obtain rfl := Option.some.inj (hh.symm.trans hm)
      exact not_isDelimiter_of_isKey hk _
    rw [read_of_entry ha (Entry.read_append he (hes.endsValue hr)), ih]
    rfl

/-- The arguments up to the end of the list are read as what they spell. -/
theorem read_append {es : List (Entry call)} {trailing : List Token} (h : EntriesForm es ts)
    (ht : TrailingComma trailing) (rest : List Token) :
    read call (ts ++ (trailing ++ closeParenthesis :: rest)) = ⟨es, .ok rest⟩ := by
  rw [read_entries h (ht.endsValue rest), read_of_closed (afterArgument_close ht rest),
    List.append_nil]

end Arguments
end PackageRecipe.Call
