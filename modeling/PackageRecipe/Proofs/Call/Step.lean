import PackageRecipe.Proofs.Call.Sound

/-!
What more tokens at the end can change for a step of reading a call. A step that has found what it
looks for, or something else in its place, is not changed by them. A step that has met the end can
be completed: some tokens take it through, whatever stands behind them. Steps one after the other
are a step again, up to the value of a slot.
-/
namespace PackageRecipe.Call

/-- None of the tokens is passed over. -/
def NoFiller (ts : List Token) : Prop := ∀ t ∈ ts, t.isFiller = false

/-- The reader has stopped at a token: it has succeeded, or its fault shows the token. -/
inductive Settled {α : Type} : Except CallFault α → Prop where
  | ok (a : α) : Settled (.ok a)
  | shown (what : Expectation) (found : String) : Settled (.error (.expected what (some found)))

/-- The reader has met the end of the tokens. -/
def Ended {α : Type} (r : Except CallFault α) : Prop := ∃ what, r = .error (.expected what none)

/-- A fault is settled whatever it keeps the reader from finding. -/
theorem Settled.of_error {α β : Type} {fault : CallFault}
    (h : Settled (.error fault : Except CallFault α)) :
    Settled (.error fault : Except CallFault β) := by
  cases h
  exact .shown _ _

theorem Ended.of_error {α β : Type} {fault : CallFault}
    (h : Ended (.error fault : Except CallFault α)) :
    Ended (.error fault : Except CallFault β) := by
  obtain ⟨what, he⟩ := h
  obtain rfl := Except.error.inj he
  exact ⟨what, rfl⟩

/-- More tokens at the end leave what a step has settled, and complete it if it has met the end. -/
structure Settles {α : Type} (step : List Token → Except CallFault (α × List Token)) : Prop where
  append : ∀ {ts}, Settled (step ts) → ∀ more,
    step (ts ++ more) = (step ts).map fun found => (found.1, found.2 ++ more)
  complete : ∀ {ts}, Ended (step ts) →
    ∃ more a, NoFiller more ∧ ∀ rest, step (ts ++ (more ++ rest)) = .ok (a, rest)

/-- With no tokens to read a step meets the end, unless it looks for none. -/
structure IsStep {α : Type} (step : List Token → Except CallFault (α × List Token)) : Prop
    extends Settles step where
  nil : (∃ a, step [] = .ok (a, [])) ∨ Ended (step [])

section Step

variable {α β : Type} {ts rest : List Token}

theorem noFiller_singleton {t : Token} (h : t.isFiller = false) : NoFiller [t] :=
  List.forall_mem_singleton.2 h

theorem noFiller_append {us : List Token} (ht : NoFiller ts) (hu : NoFiller us) :
    NoFiller (ts ++ us) :=
  List.forall_mem_append.2 ⟨ht, hu⟩

theorem Settles.append_of_ok {step : List Token → Except CallFault (α × List Token)} {a : α}
    (h : Settles step) (hs : step ts = .ok (a, rest)) (more : List Token) :
    step (ts ++ more) = .ok (a, rest ++ more) := by
  rw [h.append (by rw [hs]; exact .ok _), hs]
  rfl

theorem IsStep.of_ok (a : α) : IsStep fun ts => .ok (a, ts) :=
  ⟨⟨fun _ _ => rfl, by rintro _ ⟨_, ⟨⟩⟩⟩, .inl ⟨a, rfl⟩⟩

/-- Some tokens are what a step looks for. -/
theorem IsStep.exists_ok {step : List Token → Except CallFault (α × List Token)} (h : IsStep step) :
    ∃ more a, NoFiller more ∧ ∀ rest, step (more ++ rest) = .ok (a, rest) := by
  rcases h.nil with ⟨a, ha⟩ | he
  · exact ⟨[], a, nofun, h.append_of_ok ha⟩
  · exact h.complete he

/-- Steps one after the other are a step. -/
theorem IsStep.bind {step : List Token → Except CallFault (α × List Token)}
    {next : α × List Token → Except CallFault (β × List Token)} (first : IsStep step)
    (second : ∀ a, IsStep fun rest => next (a, rest)) : IsStep fun ts => step ts >>= next := by
  refine ⟨⟨?_, ?_⟩, ?_⟩
  · intro ts h more
    cases hs : step ts with
    | error fault =>
      rw [hs] at h
      rw [first.append (by rw [hs]; exact h.of_error), hs]
      rfl
    | ok found =>
      rw [hs] at h
      rw [first.append_of_ok hs]
      exact (second found.1).append h more
  · rintro ts ⟨what, h⟩
    cases hs : step ts with
    | error fault =>
      rw [hs] at h
      obtain rfl := Except.error.inj h
      obtain ⟨more, a, hm, hc⟩ := first.complete ⟨what, hs⟩
      -- Behind the completion of the first step the second has no tokens of its own yet.
      obtain ⟨others, b, ho, hd⟩ := (second a).exists_ok
      refine ⟨more ++ others, b, noFiller_append hm ho, fun rest => ?_⟩
      rw [List.append_assoc, hc]
      exact hd rest
    | ok found =>
      rw [hs] at h
      obtain ⟨more, b, hm, hc⟩ := (second found.1).complete ⟨what, h⟩
      refine ⟨more, b, hm, fun rest => ?_⟩
      rw [first.append_of_ok hs]
      exact hc rest
  · rcases first.nil with ⟨a, ha⟩ | ⟨what, he⟩
    · rw [ha]
      exact (second a).nil
    · rw [he]
      exact .inr ⟨what, rfl⟩

/-- A step takes a token if there is one that it accepts. -/
theorem isStep_take {what : Expectation} {accepts : Token → Bool} {t : Token}
    (ha : accepts t = true) (hf : t.isFiller = false) : IsStep (take what accepts) := by
  refine ⟨⟨?_, ?_⟩, ?_⟩
  · intro ts h more
    cases ts with
    | nil => cases h
    | cons u us =>
      rw [List.cons_append, take, take]
      split
      · rfl
      · rfl
  · rintro ts ⟨_, h⟩
    cases ts with
    | nil =>
      refine ⟨[t], t, noFiller_singleton hf, fun rest => ?_⟩
      exact take_cons ha rest
    | cons u us =>
      rw [take] at h
      split at h
      · cases h
      · cases h
  · exact .inr ⟨what, rfl⟩

theorem isStep_takeString : IsStep takeString :=
  isStep_take (t := ⟨.string, ""⟩) rfl rfl

theorem afterArgument_append_of_closed (h : afterArgument ts = .ok (.closed rest))
    (more : List Token) : afterArgument (ts ++ more) = .ok (.closed (rest ++ more)) := by
  obtain ⟨trailing, ht, rfl⟩ := afterArgument_closed h
  rw [List.append_assoc, List.cons_append, afterArgument_close ht]

/-- Once a token follows the comma, it is clear whether another argument does. -/
theorem afterArgument_append_of_another (h : afterArgument ts = .ok (.another rest))
    (hr : rest ≠ []) (more : List Token) :
    afterArgument (ts ++ more) = .ok (.another (rest ++ more)) := by
  obtain rfl := afterArgument_another h
  obtain ⟨t, rest, rfl⟩ := List.exists_cons_of_ne_nil hr
  refine afterArgument_comma ?_
  rintro _ ⟨⟩
  cases ht : t.isDelimiter ")" with
  | false => rfl
  | true =>
    rw [eq_of_isDelimiter ht] at h
    cases h

theorem afterArgument_of_error {fault : CallFault} (h : afterArgument ts = .error fault) :
    ts = [] ∧ fault = .expected .commaOrClose none ∨
      ∃ found, fault = .expected .commaOrClose (some found) ∧
        ∀ more, afterArgument (ts ++ more) = .error fault := by
  cases ts with
  | nil => exact .inl ⟨rfl, (Except.error.inj h).symm⟩
  | cons t ts =>
    rw [afterArgument] at h
    split at h
    · cases h
    · split at h
      · cases h
      · obtain rfl := Except.error.inj h
        refine .inr ⟨t.text, rfl, fun more => ?_⟩
        rw [List.cons_append, afterArgument, if_neg ‹_›, if_neg ‹_›]

/-- Reads what stands after an argument: another one as `next` does, or the end of the list. -/
def readNext (closed : α) (next : List Token → Except CallFault (α × List Token))
    (ts : List Token) : Except CallFault (α × List Token) :=
  match afterArgument ts with
  | .error fault => .error fault
  | .ok (.closed rest) => .ok (closed, rest)
  | .ok (.another rest) => next rest

/-- Behind a comma at the end there may be another argument or none, so `next` must not have settled
anything there. -/
theorem isStep_readNext {closed : α} {next : List Token → Except CallFault (α × List Token)}
    (h : Settles next) (nil : ¬ Settled (next [])) : IsStep (readNext closed next) := by
  refine ⟨⟨?_, ?_⟩, ?_⟩
  · intro ts hs more
    cases ha : afterArgument ts with
    | error fault =>
      obtain ⟨-, rfl⟩ | ⟨found, rfl, hm⟩ := afterArgument_of_error ha
      · rw [readNext, ha] at hs
        cases hs
      · rw [readNext, readNext, hm more, ha]
        rfl
    | ok continuation =>
      rw [readNext, ha] at hs
      cases continuation with
      | closed rest =>
        rw [readNext, readNext, afterArgument_append_of_closed ha, ha]
        rfl
      | another rest =>
        -- A comma alone would not do: more tokens could still close the list behind it.
        have hr : rest ≠ [] := by
          rintro rfl
          exact nil hs
        rw [readNext, readNext, afterArgument_append_of_another ha hr, ha]
        exact h.append hs more
  · rintro ts ⟨what, he⟩
    have close : ∀ ts, TrailingComma ts → ∃ more a, NoFiller more ∧
        ∀ rest, readNext closed next (ts ++ (more ++ rest)) = .ok (a, rest) := by
      refine fun ts ht => ⟨[closeParenthesis], closed, noFiller_singleton rfl, fun rest => ?_⟩
      rw [readNext, List.cons_append, List.nil_append, afterArgument_close ht]
    cases ha : afterArgument ts with
    | error fault =>
      rw [readNext, ha] at he
      obtain ⟨rfl, -⟩ | ⟨found, rfl, -⟩ := afterArgument_of_error ha
      · exact close [] .absent
      · cases he
    | ok continuation =>
      rw [readNext, ha] at he
      cases continuation with
      | closed rest => cases he
      | another rest =>
        by_cases hr : rest = []
        · rw [afterArgument_another ha, hr]
          exact close [comma] .present
        · obtain ⟨more, a, hm, hc⟩ := h.complete ⟨what, he⟩
          refine ⟨more, a, hm, fun after => ?_⟩
          rw [readNext, afterArgument_append_of_another ha hr]
          exact hc after
  · exact .inr ⟨.commaOrClose, rfl⟩

/-- With no room left, another type is a fault that shows no token. -/
theorem moreTypes_zero : moreTypes 0 = readNext [] fun _ => .error .tooManyTypes := by
  funext ts
  unfold moreTypes
  rfl

theorem moreTypes_succ (room : Nat) :
    moreTypes (room + 1) = readNext [] (fun ts => do
      let (value, rest) ← takeString ts
      let (values, rest) ← moreTypes room rest
      .ok (value :: values, rest)) := by
  funext ts
  rw [moreTypes]
  rfl

theorem isStep_moreTypes (room : Nat) : IsStep (moreTypes room) := by
  induction room with
  | zero =>
    rw [moreTypes_zero]
    exact isStep_readNext ⟨by rintro _ ⟨⟩, by rintro _ ⟨_, ⟨⟩⟩⟩ (by rintro ⟨⟩)
  | succ room ih =>
    rw [moreTypes_succ]
    refine isStep_readNext (IsStep.toSettles ?_) (by rintro ⟨⟩)
    exact isStep_takeString.bind fun value => ih.bind fun values => .of_ok (value :: values)

theorem takeTypes_cons (t : Token) (ts : List Token) :
    takeTypes (t :: ts) =
      if t.isDelimiter "(" then (do
        let (value, rest) ← takeString ts
        let (values, rest) ← moreTypes (typeLimit - 1) rest
        .ok (value :: values, rest))
      else (do
        let (value, rest) ← takeString (t :: ts)
        .ok ([value], rest)) :=
  rfl

/-- The first token tells a list of types from a single one, and where there is none a single one is
read. -/
theorem isStep_takeTypes : IsStep takeTypes := by
  have single : IsStep fun ts => (do
      let (value, rest) ← takeString ts
      .ok ([value], rest)) := isStep_takeString.bind fun value => .of_ok [value]
  have list : IsStep fun ts => (do
      let (value, rest) ← takeString ts
      let (values, rest) ← moreTypes (typeLimit - 1) rest
      .ok (value :: values, rest)) :=
    isStep_takeString.bind fun value => (isStep_moreTypes _).bind fun values =>
      .of_ok (value :: values)
  refine ⟨⟨?_, ?_⟩, .inr ⟨.string, rfl⟩⟩
  · intro ts h more
    cases ts with
    | nil => cases h
    | cons t ts =>
      rw [takeTypes_cons] at h
      rw [List.cons_append, takeTypes_cons, takeTypes_cons]
      split
      · rw [if_pos ‹_›] at h
        exact list.append h more
      · rw [if_neg ‹_›] at h
        exact single.append h more
  · intro ts h
    cases ts with
    | nil => exact ⟨[⟨.string, ""⟩], _, noFiller_singleton rfl, takeTypes_append (.single rfl)⟩
    | cons t ts =>
      rw [takeTypes_cons] at h
      split at h
      · obtain ⟨more, values, hm, hc⟩ := list.complete h
        refine ⟨more, values, hm, fun rest => ?_⟩
        rw [List.cons_append, takeTypes_cons, if_pos ‹_›]
        exact hc rest
      · obtain ⟨more, values, hm, hc⟩ := single.complete h
        refine ⟨more, values, hm, fun rest => ?_⟩
        rw [List.cons_append, takeTypes_cons, if_neg ‹_›]
        exact hc rest

theorem Slot.isStep_read {call : Call} (slot : Slot call) (key : Token) :
    IsStep fun ts => slot.read key ts := by
  cases slot with
  | pin => exact isStep_takeString.bind fun value => .of_ok (Setting.pin ⟨key, value⟩)
  | source => exact isStep_takeString.bind fun value => .of_ok (Setting.source ⟨key, value⟩)
  | preferred =>
    have boolean : IsStep (take .boolean isBoolean) :=
      isStep_take (t := ⟨.keyword, "True"⟩) rfl rfl
    exact boolean.bind fun value => .of_ok (Setting.preferred value)
  | types => exact isStep_takeTypes.bind fun values => .of_ok (Setting.types values)
  | condition => exact isStep_takeString.bind fun value => .of_ok (Setting.condition value)

end Step

end PackageRecipe.Call
