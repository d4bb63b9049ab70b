import Mathlib
import PackageRecipe.Phrase.Walk
import PackageRecipe.Proofs.Phrase.Sequence

/-!
What holds of a walk wherever its caller takes it. Moves may come in any order and in either region,
with or without the phrase under way being closed, and also after a failure part way through a class
header. Two numbers place the walk on its tokens; no move leaves their bounds or goes back.
-/
namespace PackageRecipe

namespace Region

/-- What an advance takes and what it leaves share the tokens between them. -/
theorem advance_length (region : Region) (tokens : List Token) :
    (region.advance tokens).cut.taken.length + (region.advance tokens).cut.rest.length =
      tokens.length := by
  rw [← List.length_append]
  exact congrArg List.length (region.tokens_advance tokens)

/-- Nothing is left when nothing but blanks was there. -/
theorem advance_rest_of_finished {region : Region} {tokens : List Token}
    (h : (region.advance tokens).outcome = .ok .finished) :
    (region.advance tokens).cut.rest = [] := by
  have all := advance_outcome_eq_finished_iff.1 h
  rw [advance, List.dropWhile_eq_nil_iff.2 all]

end Region

namespace Walk

/-- What a caller may do with a walk. -/
inductive Move where
  /-- Passes the next phrase of a region. -/
  | advance (region : Region)
  /-- Closes the phrase under way. -/
  | close
  /-- Asks for the length of the phrase under way. -/
  | pending
  deriving DecidableEq

/-- What a move comes back with. -/
inductive Answer where
  | advanced (result : Except PhraseError Finding)
  | closed (length : Nat)
  | pending (length : Nat)

/-- The length that a move has closed. -/
def Answer.closedLength : Answer → Nat
  | closed length => length
  | advanced _ | pending _ => 0

/-- One move: its answer and the walk after it. -/
def perform (w : Walk) : Move → Answer × Walk
  | .advance region => (.advanced (w.advance region).1, (w.advance region).2)
  | .close => (.closed w.close.1, w.close.2)
  | .pending => (.pending w.current.length, w)

/-- Moves one after the other: their answers and the walk after the last. -/
def run (w : Walk) : List Move → List Answer × Walk
  | [] => ([], w)
  | m :: moves =>
    let rest := (w.perform m).2.run moves
    ((w.perform m).1 :: rest.1, rest.2)

/-- The walk stands on these tokens: its two numbers are within bounds and say what lies behind it,
in the phrase under way, and ahead. -/
structure Within (ts : List Token) (w : Walk) : Prop where
  boundary_le : w.boundary ≤ w.position
  position_le : w.position ≤ ts.length
  closed_eq : w.closed = ts.take w.boundary
  current_eq : w.current = (ts.take w.position).drop w.boundary
  ahead_eq : w.ahead = ts.drop w.position

/-- What a move with this answer makes of a walk on `ts`. -/
structure Keeps (ts : List Token) (w : Walk) (m : Move) (answer : Answer) (next : Walk) :
    Prop where
  within : next.Within ts
  forward : w.position ≤ next.position
  phrase : ∀ kind region, answer = .advanced (.ok (.phrase kind region)) →
    w.position < next.position
  finished : ∀ region, m = .advance region →
    (answer = .advanced (.ok .finished) ↔ ∀ t ∈ ts.drop w.position, region.isLead t = true)
  finished_position : answer = .advanced (.ok .finished) → next.position = ts.length
  remaining : ∀ e, answer = .advanced (.error e) → e.remaining = ts.drop w.boundary
  closed_length : m = .close → answer = .closed (w.position - w.boundary)
  pending_length : m = .pending → answer = .pending (w.position - w.boundary)
  boundary : next.boundary = if m = .close then w.position else w.boundary

variable {ts : List Token} {w : Walk} {region : Region}

theorem within_of_tokens (h : w.tokens = ts) : w.Within ts := by
  subst h
  have hp : w.position = (w.closed ++ w.current).length := by
    rw [List.length_append, position, boundary]
  have hb : w.boundary ≤ w.position := Nat.le_add_right _ _
  refine ⟨hb, ?_, ?_, ?_, ?_⟩
  · rw [hp, tokens]
    exact (List.prefix_append _ _).length_le
  · rw [tokens, List.append_assoc, boundary, List.take_left]
  · rw [tokens, hp, List.take_left, boundary, List.drop_left]
  · rw [tokens, hp, List.drop_left]

/-- The tokens from the last closed phrase on. -/
theorem drop_boundary (h : w.tokens = ts) : w.current ++ w.ahead = ts.drop w.boundary := by
  rw [← h, tokens, List.append_assoc, boundary, List.drop_left]

theorem tokens_perform (w : Walk) (m : Move) : (w.perform m).2.tokens = w.tokens := by
  cases m with
  | advance region => exact w.tokens_advance region
  | close => exact w.tokens_close
  | pending => rfl

theorem position_advance (w : Walk) (region : Region) :
    (w.advance region).2.position = w.position + (region.advance w.ahead).cut.taken.length := by
  rw [position, position, advance, List.length_append, boundary, boundary, Nat.add_assoc]

theorem advance_eq_ok_iff {finding : Finding} :
    (w.advance region).1 = .ok finding ↔ (region.advance w.ahead).outcome = .ok finding := by
  rw [advance]
  cases (region.advance w.ahead).outcome with
  | error | ok => simp [Except.mapError]

theorem remaining_of_advance_eq_error {e : PhraseError} (h : (w.advance region).1 = .error e) :
    e.remaining = w.current ++ w.ahead := by
  rw [advance] at h
  cases ho : (region.advance w.ahead).outcome with
  | error fault =>
    rw [ho] at h
    rw [← Except.error.inj h]
  | ok found =>
    rw [ho] at h
    cases h

theorem keeps_advance (h : w.tokens = ts) (region : Region) :
    Keeps ts w (.advance region) (.advanced (w.advance region).1) (w.advance region).2 := by
  have hw := within_of_tokens h
  have hn := within_of_tokens ((w.tokens_advance region).trans h)
  have hp := w.position_advance region
  have hlen := region.advance_length w.ahead
  have hahead : w.ahead.length = ts.length - w.position := by rw [hw.ahead_eq, List.length_drop]
  refine ⟨hn, by omega, ?_, ?_, ?_, ?_, nofun, nofun, rfl⟩
  · intro kind next ha
    have hr := Region.advance_rest_length (advance_eq_ok_iff.1 (Answer.advanced.inj ha))
    omega
  · rintro - ⟨⟩
    rw [← hw.ahead_eq, Answer.advanced.injEq, advance_eq_ok_iff,
      Region.advance_outcome_eq_finished_iff]
  · intro ha
    have hr := Region.advance_rest_of_finished (advance_eq_ok_iff.1 (Answer.advanced.inj ha))
    have hle := hw.position_le
    rw [hr, List.length_nil] at hlen
    omega
  · intro e ha
    rw [remaining_of_advance_eq_error (Answer.advanced.inj ha), drop_boundary h]

/-- Every move keeps the walk on its tokens. -/
theorem keeps_perform (h : w.tokens = ts) (m : Move) :
    Keeps ts w m (w.perform m).1 (w.perform m).2 := by
  have hw := within_of_tokens h
  have hlen : w.current.length = w.position - w.boundary := by
    rw [position]
    omega
  cases m with
  | advance region => exact keeps_advance h region
  | close =>
    have hp : w.close.2.position = w.position := by simp [close, position, boundary]
    have hb : w.close.2.boundary = w.position := by simp [close, position, boundary]
    refine ⟨within_of_tokens (w.tokens_close.trans h), hp.ge, ?_, ?_, ?_, ?_, ?length, ?_, hb⟩
    case length =>
      intro _
      exact congrArg Answer.closed hlen
    all_goals simp [perform]
  | pending =>
    refine ⟨hw, Nat.le_refl _, ?_, ?_, ?_, ?_, ?_, ?length, rfl⟩
    case length =>
      intro _
      exact congrArg Answer.pending hlen
    all_goals simp [perform]

/-- What a move closes is added to what was closed before it. -/
theorem boundary_perform (w : Walk) (m : Move) :
    (w.perform m).2.boundary = w.boundary + (w.perform m).1.closedLength := by
  cases m with
  | advance | pending => rfl
  | close => exact List.length_append

/-- A run keeps the tokens and closes what it answers that it has closed. -/
theorem tokens_run (w : Walk) (moves : List Move) :
    (w.run moves).2.tokens = w.tokens ∧
      (w.run moves).2.boundary = w.boundary + ((w.run moves).1.map Answer.closedLength).sum := by
  induction moves generalizing w with
  | nil => exact ⟨rfl, rfl⟩
  | cons m moves ih =>
    obtain ⟨ht, hb⟩ := ih (w.perform m).2
    rw [run]
    refine ⟨ht.trans (w.tokens_perform m), ?_⟩
    rw [hb, boundary_perform, List.map_cons, List.sum_cons, Nat.add_assoc]

/-- After any moves the walk stands on its tokens, the closed phrases reach up to the boundary, and
the next move, whichever it is, goes on from there. -/
theorem keeps_run (ts : List Token) (moves : List Move) (m : Move) :
    let w := ((ofTokens ts).run moves).2
    w.Within ts ∧ (((ofTokens ts).run moves).1.map Answer.closedLength).sum = w.boundary ∧
      Keeps ts w m (w.perform m).1 (w.perform m).2 := by
  obtain ⟨ht, hb⟩ := (ofTokens ts).tokens_run moves
  refine ⟨within_of_tokens ht, ?_, keeps_perform ht m⟩
  rw [hb]
  exact (Nat.zero_add _).symm

/-- A class header without its colon: the walk stays before the line break, the next error still
begins at the last closed phrase, and the body goes on behind it. -/
theorem keeps_run_header :
    let ts : List Token := [⟨.newline, "\n"⟩, ⟨.keyword, "class"⟩, ⟨.newline, "\n"⟩,
      ⟨.identifier, "pass"⟩]
    let w := ((ofTokens ts).run [.advance .preamble]).2
    w.position = 2 ∧ (∃ e, (w.perform (.advance .preamble)).1 = .advanced (.error e) ∧
        e.remaining = ts) ∧
      2 < (w.perform (.advance .body)).2.position := by
  intro ts w
  refine ⟨rfl, ⟨_, rfl, ?_⟩, ?_⟩
  · exact (keeps_run ts [.advance .preamble] (.advance .preamble)).2.2.remaining _ rfl
  · exact (keeps_run ts [.advance .preamble] (.advance .body)).2.2.phrase .other .body rfl

end Walk
end PackageRecipe
