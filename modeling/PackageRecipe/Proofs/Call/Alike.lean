import PackageRecipe.Proofs.Call.Complete
import PackageRecipe.Proofs.Token.Alike

/-!
Calls whose tokens are alike. Every step of reading them decides by kinds, brackets, keys and signs
only, so both calls are read to the same keys with values that are alike, or fail alike at the same
place.
-/
namespace PackageRecipe

/-- The fault without the text that it shows; whether it shows one is kept. -/
def CallFault.shape : CallFault → CallFault
  | expected what found => expected what (found.map fun _ => "")
  | tooManyTypes => tooManyTypes

/-- Arguments with one key whose values are alike. -/
structure Argument.Alike (a b : Argument) : Prop where
  key : a.key = b.key
  value : a.value.Alike b.value

namespace Call

variable {ts us : List Token} {t u : Token}

/-- The faults are the same up to the texts that they show. -/
abbrev SameShape (f g : CallFault) : Prop := f.shape = g.shape

/-- Results of a step that agree, with tokens left that are alike. -/
def WithRest {α : Type} (R : α → α → Prop) (a b : α × List Token) : Prop :=
  R a.1 b.1 ∧ List.Forall₂ Token.Alike a.2 b.2

theorem isString_eq (h : t.Alike u) : isString t = isString u := by rw [isString, isString, h.1]

theorem isKey_eq (h : t.Alike u) : isKey t = isKey u := by rw [isKey, isKey, h.1]

theorem isBoolean_eq (h : t.Alike u) : isBoolean t = isBoolean u := by
  rw [isBoolean, isBoolean, h.isKeyword_eq, h.isKeyword_eq]

theorem eq_of_isKey (h : t.Alike u) (hk : isKey t = true) : t = u := by
  have hi : t.kind = .identifier := of_decide_eq_true hk
  exact h.eq (by rw [hi]; rfl)

theorem eq_of_isBoolean (h : t.Alike u) (hb : isBoolean t = true) : t = u := by
  have hk : t.kind = .keyword := by
    rcases isBoolean_iff.1 hb with rfl | rfl
    · rfl
    · rfl
  exact h.eq (by rw [hk]; rfl)

/-- A step that accepts tokens by their structure takes tokens that are alike. -/
theorem alike_take {what : Expectation} {accepts : Token → Bool}
    (ha : ∀ {t u : Token}, t.Alike u → accepts t = accepts u)
    (h : List.Forall₂ Token.Alike ts us) :
    Outcomes SameShape (WithRest fun t u => t.Alike u ∧ accepts t = true) (take what accepts ts)
      (take what accepts us) := by
  cases h with
  | nil => exact .error rfl
  | cons ht h =>
    rw [take, take, ← ha ht]
    split
    · rename_i hacc
      exact .ok ⟨⟨ht, hacc⟩, h⟩
    · exact .error rfl

inductive Continuation.Alike : Continuation → Continuation → Prop where
  | another {ts us : List Token} :
      List.Forall₂ Token.Alike ts us → Alike (.another ts) (.another us)
  | closed {ts us : List Token} : List.Forall₂ Token.Alike ts us → Alike (.closed ts) (.closed us)

theorem alike_afterComma (h : List.Forall₂ Token.Alike ts us) :
    (afterComma ts).Alike (afterComma us) := by
  cases h with
  | nil => exact .another .nil
  | cons ht h =>
    rw [afterComma, afterComma, ht.isDelimiter_eq]
    split
    · exact .closed h
    · exact .another (.cons ht h)

theorem alike_afterArgument (h : List.Forall₂ Token.Alike ts us) :
    Outcomes SameShape Continuation.Alike (afterArgument ts) (afterArgument us) := by
  cases h with
  | nil => exact .error rfl
  | cons ht h =>
    rw [afterArgument, afterArgument, ht.isDelimiter_eq, ht.isDelimiter_eq]
    split
    · exact .ok (alike_afterComma h)
    · split
      · exact .ok (.closed h)
      · exact .error rfl

theorem alike_dropValue (h : List.Forall₂ Token.Alike ts us) (depth : Nat) :
    List.Forall₂ Token.Alike (dropValue depth ts) (dropValue depth us) := by
  induction h generalizing depth with
  | nil => exact .nil
  | cons ht h ih =>
    rw [dropValue, dropValue, ht.isCloser_eq, ht.isDelimiter_eq, ht.depthAfter_eq]
    split
    · exact .cons ht h
    · exact ih _

theorem alike_moreTypes (h : List.Forall₂ Token.Alike ts us) (room : Nat) :
    Outcomes SameShape (WithRest (List.Forall₂ Token.Alike)) (moreTypes room ts)
      (moreTypes room us) := by
  induction room generalizing ts us with
  | zero =>
    unfold moreTypes
    obtain ⟨_, _, ha, hb, hc⟩ | ⟨_, _, ha, hb, he⟩ := (alike_afterArgument h).cases
    · rw [ha, hb]
      cases hc with
      | closed hr => exact .ok ⟨.nil, hr⟩
      | another hr => exact .error rfl
    · rw [ha, hb]
      exact .error he
  | succ room ih =>
    unfold moreTypes
    obtain ⟨_, _, ha, hb, hc⟩ | ⟨_, _, ha, hb, he⟩ := (alike_afterArgument h).cases
    · rw [ha, hb]
      cases hc with
      | closed hr => exact .ok ⟨.nil, hr⟩
      | another hr =>
        exact (alike_take isString_eq hr).bind fun _ _ hv =>
          (ih hv.2).bind fun _ _ hvs => .ok ⟨.cons hv.1.1 hvs.1, hvs.2⟩
    · rw [ha, hb]
      exact .error he

theorem any_head?_eq {p : Token → Bool} (hp : ∀ {t u : Token}, t.Alike u → p t = p u)
    (h : List.Forall₂ Token.Alike ts us) : ts.head?.any p = us.head?.any p := by
  cases h with
  | nil => rfl
  | cons ht _ => exact hp ht

theorem alike_tail (h : List.Forall₂ Token.Alike ts us) :
    List.Forall₂ Token.Alike ts.tail us.tail := by
  cases h with
  | nil => exact .nil
  | cons _ h => exact h

theorem alike_takeTypes (h : List.Forall₂ Token.Alike ts us) :
    Outcomes SameShape (WithRest (List.Forall₂ Token.Alike)) (takeTypes ts) (takeTypes us) := by
  rw [takeTypes, takeTypes, any_head?_eq (fun h => h.isDelimiter_eq _) h]
  split
  · exact (alike_take isString_eq (alike_tail h)).bind fun _ _ hv =>
      (alike_moreTypes hv.2 _).bind fun _ _ hvs => .ok ⟨.cons hv.1.1 hvs.1, hvs.2⟩
  · exact (alike_take isString_eq h).bind fun _ _ hv => .ok ⟨.cons hv.1.1 .nil, hv.2⟩

/-- Settings of one slot under one key, with values that are alike. -/
inductive Setting.Alike : {call : Call} → Setting call → Setting call → Prop where
  | pin {a b : Argument} : a.Alike b → Alike (.pin a) (.pin b)
  | source {a b : Argument} : a.Alike b → Alike (.source a) (.source b)
  | preferred {t : Token} : Alike (.preferred t) (.preferred t)
  | types {ts us : List Token} : List.Forall₂ Token.Alike ts us → Alike (.types ts) (.types us)
  | condition {t u : Token} : t.Alike u → Alike (.condition t) (.condition u)

theorem Slot.alike_read {call : Call} (slot : Slot call) (key : Token)
    (h : List.Forall₂ Token.Alike ts us) :
    Outcomes SameShape (WithRest Setting.Alike) (slot.read key ts) (slot.read key us) := by
  cases slot with
  | pin =>
    exact (alike_take isString_eq h).bind fun _ _ hv => .ok ⟨.pin ⟨rfl, hv.1.1⟩, hv.2⟩
  | source =>
    exact (alike_take isString_eq h).bind fun _ _ hv => .ok ⟨.source ⟨rfl, hv.1.1⟩, hv.2⟩
  | preferred =>
    refine (alike_take isBoolean_eq h).bind ?_
    rintro ⟨t, ts⟩ ⟨u, us⟩ ⟨⟨ht, hb⟩, hr⟩
    obtain rfl : t = u := eq_of_isBoolean ht hb
    exact .ok ⟨.preferred, hr⟩
  | types => exact (alike_takeTypes h).bind fun _ _ hv => .ok ⟨.types hv.1, hv.2⟩
  | condition =>
    exact (alike_take isString_eq h).bind fun _ _ hv => .ok ⟨.condition hv.1.1, hv.2⟩

theorem alike_dropAssigned (h : List.Forall₂ Token.Alike ts us) :
    List.Forall₂ Token.Alike (dropAssigned ts) (dropAssigned us) := by
  rw [dropAssigned, dropAssigned, any_head?_eq (fun h => h.isDelimiter_eq _) h]
  split
  · exact alike_dropValue (alike_tail h) 0
  · exact h

/-- Entries with one key; what they set is alike. -/
inductive Entry.Alike {call : Call} : Entry call → Entry call → Prop where
  | setting {s r : Setting call} : s.Alike r → Alike (.setting s) (.setting r)
  | unknown {key : Token} : Alike (.unknown key) (.unknown key)

theorem Entry.alike_read (call : Call) (h : List.Forall₂ Token.Alike ts us) :
    Outcomes SameShape (WithRest Entry.Alike) (Entry.read call ts) (Entry.read call us) := by
  refine (alike_take isKey_eq h).bind ?_
  rintro ⟨key, ts⟩ ⟨other, us⟩ ⟨⟨ht, hk⟩, hr⟩
  obtain rfl : key = other := eq_of_isKey ht hk
  dsimp only
  split
  · exact .ok ⟨.unknown, alike_dropAssigned hr⟩
  · exact (alike_take (fun h => h.isDelimiter_eq _) hr).bind fun _ _ ha =>
      (Slot.alike_read _ key ha.2).bind fun _ _ hs => .ok ⟨.setting hs.1, hs.2⟩

namespace Arguments

variable {call : Call}

/-- The entries are alike one by one, and so is what comes of them. -/
structure Alike (a b : Arguments call) : Prop where
  entries : List.Forall₂ Entry.Alike a.entries b.entries
  outcome : Outcomes SameShape (List.Forall₂ Token.Alike) a.outcome b.outcome

theorem alike_read (call : Call) (h : List.Forall₂ Token.Alike ts us) :
    (read call ts).Alike (read call us) := by
  induction ts using Arguments.read.induct call generalizing us with
  | case1 ts fault ha =>
    obtain ⟨_, hu, hs⟩ := (alike_afterArgument h).eq_error ha
    rw [read_of_afterArgument_error ha, read_of_afterArgument_error hu]
    exact ⟨.nil, .error hs⟩
  | case2 ts rest ha =>
    obtain ⟨_, hu, hc⟩ := (alike_afterArgument h).eq_ok ha
    cases hc with
    | closed hr =>
      rw [read_of_closed ha, read_of_closed hu]
      exact ⟨.nil, .ok hr⟩
  | case3 ts rest ha fault he =>
    obtain ⟨_, hu, hc⟩ := (alike_afterArgument h).eq_ok ha
    cases hc with
    | another hr =>
      obtain ⟨_, hv, hs⟩ := (Entry.alike_read call hr).eq_error he
      rw [read_of_error ha he, read_of_error hu hv]
      exact ⟨.nil, .error hs⟩
  | case4 ts rest ha e left he ih =>
    obtain ⟨_, hu, hc⟩ := (alike_afterArgument h).eq_ok ha
    cases hc with
    | another hr =>
      obtain ⟨⟨_, _⟩, hv, hs⟩ := (Entry.alike_read call hr).eq_ok he
      rw [read_of_entry ha he, read_of_entry hu hv]
      obtain ⟨hes, ho⟩ := ih hs.2
      exact ⟨.cons hs.1 hes, ho⟩

theorem Alike.settings {a b : Arguments call} (h : a.Alike b) :
    List.Forall₂ Setting.Alike a.settings b.settings := by
  refine List.rel_filterMap ?_ h.entries
  intro e f he
  cases he with
  | setting hs => exact .some hs
  | unknown => exact .none

/-- The same keys are unknown. -/
theorem Alike.unknown {a b : Arguments call} (h : a.Alike b) : a.unknown = b.unknown := by
  rw [← List.forall₂_eq_eq_eq]
  refine List.rel_filterMap ?_ h.entries
  intro e f he
  cases he with
  | setting hs => exact .none
  | unknown => exact .some rfl

end Arguments

theorem alike_filter (h : List.Forall₂ Token.Alike ts us) :
    List.Forall₂ Token.Alike (ts.filter fun t => !t.isFiller) (us.filter fun t => !t.isFiller) :=
  List.rel_filter (fun _ _ ht => by simp only [ht.isFiller_eq]) h

theorem alike_opening (h : List.Forall₂ Token.Alike ts us) :
    Outcomes SameShape (WithRest Token.Alike) (opening ts) (opening us) := by
  have hs := alike_tail (alike_filter h)
  exact (alike_take (fun h => h.isDelimiter_eq _) hs).bind fun _ _ ho =>
    (alike_take isString_eq ho.2).imp fun _ _ hv => ⟨hv.1.1, hv.2⟩

end Call
end PackageRecipe
