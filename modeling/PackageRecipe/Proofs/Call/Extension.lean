import PackageRecipe.Proofs.Call.Step

/-!
What more tokens at the end of a call can change. Its arguments stay what they are once a token
stands behind them or shows their fault, and where they meet the end they can be completed. An
argument that nobody asked for is told apart: it needs no token behind it to be read, but more
tokens may belong to its value, so its brackets have to be closed first.
-/
namespace PackageRecipe.Call

section Entry

variable {call : Call} {ts : List Token}

/-- A value that ends within the tokens ends there. -/
theorem dropValue_append_of_ne_nil {depth : Nat} (h : dropValue depth ts ≠ []) (more : List Token) :
    dropValue depth (ts ++ more) = dropValue depth ts ++ more := by
  induction ts generalizing depth with
  | nil => exact absurd rfl h
  | cons t ts ih =>
    rw [dropValue] at h
    rw [List.cons_append, dropValue, dropValue]
    split
    · rfl
    · rename_i hgo
      rw [if_neg hgo] at h
      exact ih h

/-- A value that does not end within the tokens has some of its brackets to be closed. -/
theorem exists_balanced_append {depth : Nat} (h : dropValue depth ts = []) :
    ∃ more, NoFiller more ∧ Balanced depth (ts ++ more) := by
  induction ts generalizing depth with
  | nil =>
    refine ⟨List.replicate depth closeParenthesis, ?_, ?_⟩
    · intro t ht
      rw [List.eq_of_mem_replicate ht]
      rfl
    · induction depth with
      | zero => exact .nil
      | succ depth ih => exact .closer rfl (ih rfl)
  | cons t ts ih =>
    rw [dropValue] at h
    split at h
    · cases h
    · rename_i hgo
      obtain ⟨more, hm, hb⟩ := ih h
      exact ⟨more, hm, balanced_cons_iff.2 ⟨by simpa using hgo, hb⟩⟩

theorem dropAssigned_cons (t : Token) (ts : List Token) :
    dropAssigned (t :: ts) = if t.isDelimiter "=" then dropValue 0 ts else t :: ts :=
  rfl

theorem dropAssigned_append (h : dropAssigned ts ≠ []) (more : List Token) :
    dropAssigned (ts ++ more) = dropAssigned ts ++ more := by
  cases ts with
  | nil => exact absurd rfl h
  | cons t ts =>
    rw [dropAssigned_cons] at h
    rw [List.cons_append, dropAssigned_cons, dropAssigned_cons]
    split
    · rw [if_pos ‹_›] at h
      exact dropValue_append_of_ne_nil h more
    · rfl

theorem exists_dropAssigned_append (h : dropAssigned ts = []) :
    ∃ more, NoFiller more ∧ ∀ rest, EndsValue rest → dropAssigned (ts ++ (more ++ rest)) = rest := by
  cases ts with
  | nil => exact ⟨[], nofun, fun _ => dropAssigned_of_endsValue⟩
  | cons t ts =>
    rw [dropAssigned_cons] at h
    split at h
    · obtain ⟨more, hm, hb⟩ := exists_balanced_append h
      refine ⟨more, hm, fun rest hr => ?_⟩
      rw [List.cons_append, dropAssigned_cons, if_pos ‹_›, ← List.append_assoc]
      exact dropValue_append hb hr
    · cases h

/-- What follows a key that the call knows. -/
theorem Slot.isStep_assigned (slot : Slot call) (key : Token) :
    IsStep fun ts => (do
      let (_, rest) ← takeAssignment ts
      let (s, rest) ← slot.read key rest
      .ok (Entry.setting s, rest)) :=
  IsStep.bind (isStep_take (t := assignment) rfl rfl) fun _ =>
    (slot.isStep_read key).bind fun s => .of_ok (Entry.setting s)

theorem Entry.read_cons {key : Token} (hk : isKey key = true) (ts : List Token) :
    Entry.read call (key :: ts) =
      match Slot.ofKey? call key.text with
      | none => .ok (.unknown key, dropAssigned ts)
      | some slot => (do
        let (_, rest) ← takeAssignment ts
        let (s, rest) ← slot.read key rest
        .ok (.setting s, rest)) := by
  rw [Entry.read, take_cons hk]
  rfl

theorem Entry.read_cons_of_not_isKey {t : Token} (h : isKey t = false) (ts : List Token) :
    Entry.read call (t :: ts) = .error (.expected .key (some t.text)) := by
  rw [Entry.read, take, if_neg (by simp [h])]
  rfl

/-- An argument with tokens behind it, or with a fault that shows one, stays what it is. -/
theorem Entry.read_append_of_settled (h : Settled (Entry.read call ts))
    (hr : ∀ e, Entry.read call ts ≠ .ok (e, [])) (more : List Token) :
    Entry.read call (ts ++ more) =
      (Entry.read call ts).map fun found => (found.1, found.2 ++ more) := by
  cases ts with
  | nil => cases h
  | cons key ts =>
    cases hk : isKey key with
    | false =>
      rw [List.cons_append, read_cons_of_not_isKey hk, read_cons_of_not_isKey hk]
      rfl
    | true =>
      rw [read_cons hk] at h hr
      rw [List.cons_append, read_cons hk, read_cons hk]
      cases ho : Slot.ofKey? call key.text with
      | none =>
        simp only [ho] at hr ⊢
        rw [dropAssigned_append (fun hn => hr _ (by rw [hn]))]
        rfl
      | some slot =>
        simp only [ho] at h ⊢
        exact (slot.isStep_assigned key).append h more

theorem Entry.read_append_of_ok {e : Entry call} {rest : List Token}
    (h : Entry.read call ts = .ok (e, rest)) (hr : rest ≠ []) (more : List Token) :
    Entry.read call (ts ++ more) = .ok (e, rest ++ more) := by
  rw [read_append_of_settled (by rw [h]; exact .ok _) (by simp [h, hr]), h]
  rfl

/-- An argument that meets the end can be completed before what ends a value. -/
theorem Entry.exists_read_append (ht : ts ≠ [])
    (h : (∃ e, Entry.read call ts = .ok (e, [])) ∨ Ended (Entry.read call ts)) :
    ∃ more e, NoFiller more ∧
      ∀ rest, EndsValue rest → Entry.read call (ts ++ (more ++ rest)) = .ok (e, rest) := by
  obtain ⟨key, ts, rfl⟩ := List.exists_cons_of_ne_nil ht
  cases hk : isKey key with
  | false =>
    rw [read_cons_of_not_isKey hk] at h
    rcases h with ⟨e, he⟩ | ⟨what, he⟩
    · cases he
    · cases he
  | true =>
    simp only [List.cons_append, read_cons hk] at h ⊢
    cases ho : Slot.ofKey? call key.text with
    | none =>
      simp only [ho] at h ⊢
      rcases h with ⟨e, he⟩ | ⟨what, he⟩
      · obtain ⟨more, hm, hd⟩ := exists_dropAssigned_append (Prod.mk.inj (Except.ok.inj he)).2
        exact ⟨more, _, hm, fun rest hr => by rw [hd rest hr]⟩
      · cases he
    | some slot =>
      simp only [ho] at h ⊢
      rcases h with ⟨e, he⟩ | he
      · exact ⟨[], e, nofun, fun rest _ => (slot.isStep_assigned key).append_of_ok he rest⟩
      · obtain ⟨more, e, hm, hc⟩ := (slot.isStep_assigned key).complete he
        exact ⟨more, e, hm, fun rest _ => hc rest⟩

end Entry

namespace Arguments

variable {call : Call} {ts us : List Token}

/-- What reading the arguments has settled stays as it is, and so do the entries before it. -/
theorem read_append_of_settled (h : Settled (read call ts).outcome) (more : List Token) :
    read call (ts ++ more) =
      ⟨(read call ts).entries, (read call ts).outcome.map (· ++ more)⟩ := by
  induction ts using Arguments.read.induct call with
  | case1 ts fault ha =>
    rw [read_of_afterArgument_error ha] at h ⊢
    obtain ⟨-, rfl⟩ | ⟨found, rfl, hm⟩ := afterArgument_of_error ha
    · cases h
    · exact read_of_afterArgument_error (hm more)
  | case2 ts rest ha =>
    rw [read_of_closed ha]
    exact read_of_closed (afterArgument_append_of_closed ha more)
  | case3 ts us ha fault he =>
    rw [read_of_error ha he] at h ⊢
    have hu : us ≠ [] := by
      rintro rfl
      cases he
      cases h
    have hm := Entry.read_append_of_settled (by rw [he]; exact h.of_error) (by simp [he]) more
    rw [he] at hm
    exact read_of_error (afterArgument_append_of_another ha hu more) hm
  | case4 ts us ha e left he ih =>
    rw [read_of_entry ha he] at h ⊢
    have hu : us ≠ [] := by
      rintro rfl
      cases he
    have hl : left ≠ [] := by
      rintro rfl
      rw [read_of_afterArgument_error rfl] at h
      cases h
    rw [read_of_entry (afterArgument_append_of_another ha hu more)
      (Entry.read_append_of_ok he hl more), ih h]
    rfl

/-- Behind an argument that has been completed the call may close. -/
theorem exists_read_append_of_another (ha : afterArgument ts = .ok (.another us)) (hu : us ≠ [])
    (h : (∃ e, Entry.read call us = .ok (e, [])) ∨ Ended (Entry.read call us)) :
    ∃ more es, NoFiller more ∧ read call (ts ++ more) = ⟨es, .ok []⟩ := by
  obtain ⟨more, e, hm, hr⟩ := Entry.exists_read_append hu h
  refine ⟨more ++ [closeParenthesis], [e], noFiller_append hm (noFiller_singleton rfl), ?_⟩
  have he := hr [closeParenthesis] (by rintro _ ⟨⟩; exact .inl rfl)
  have hc : read call [closeParenthesis] = ⟨[], .ok []⟩ :=
    read_of_closed (afterArgument_close .absent [])
  rw [read_of_entry (afterArgument_append_of_another ha hu _) he, hc]
  rfl

/-- Arguments that meet the end can be completed. -/
theorem exists_read_append (h : Ended (read call ts).outcome) :
    ∃ more es, NoFiller more ∧ read call (ts ++ more) = ⟨es, .ok []⟩ := by
  have close : ∀ ts, TrailingComma ts →
      ∃ more es, NoFiller more ∧ read call (ts ++ more) = ⟨es, .ok []⟩ := fun ts ht =>
    ⟨[closeParenthesis], [], noFiller_singleton rfl, read_of_closed (afterArgument_close ht [])⟩
  obtain ⟨what, h⟩ := h
  induction ts using Arguments.read.induct call with
  | case1 ts fault ha =>
    rw [read_of_afterArgument_error ha] at h
    obtain rfl := Except.error.inj h
    obtain ⟨rfl, -⟩ | ⟨found, hf, -⟩ := afterArgument_of_error ha
    · exact close [] .absent
    · cases hf
  | case2 ts rest ha =>
    rw [read_of_closed ha] at h
    cases h
  | case3 ts us ha fault he =>
    rw [read_of_error ha he] at h
    obtain rfl := Except.error.inj h
    by_cases hu : us = []
    · rw [afterArgument_another ha, hu]
      exact close [comma] .present
    · exact exists_read_append_of_another ha hu (.inr ⟨what, he⟩)
  | case4 ts us ha e left he ih =>
    rw [read_of_entry ha he] at h
    have hu : us ≠ [] := by
      rintro rfl
      cases he
    -- An argument at the end may go on, so it is completed before the call closes.
    by_cases hl : left = []
    · exact exists_read_append_of_another ha hu (.inl ⟨e, by rw [he, hl]⟩)
    · obtain ⟨more, es, hm, hr⟩ := ih h
      refine ⟨more, e :: es, hm, ?_⟩
      rw [read_of_entry (afterArgument_append_of_another ha hu more)
        (Entry.read_append_of_ok he hl more), hr]
      rfl

end Arguments

end PackageRecipe.Call
