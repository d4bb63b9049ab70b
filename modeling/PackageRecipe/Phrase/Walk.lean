import PackageRecipe.Phrase.Region

/-!
A walk over tokens, phrase by phrase, under the caller's control. The walk may be advanced in either
region and in any order, and the phrase under way is closed only when the caller says so. What the
walk has passed is kept, so that a place in it is the length of what lies behind.
-/
namespace PackageRecipe

structure Walk where
  /-- The tokens of closed phrases. -/
  closed : List Token
  /-- The tokens passed since. -/
  current : List Token
  /-- The tokens not yet passed. -/
  ahead : List Token
  deriving DecidableEq

namespace Walk

/-- At the first token, with nothing passed. -/
def ofTokens (tokens : List Token) : Walk := ⟨[], [], tokens⟩

/-- All tokens of the walk. -/
def tokens (w : Walk) : List Token := w.closed ++ w.current ++ w.ahead

/-- The number of tokens in closed phrases. -/
def boundary (w : Walk) : Nat := w.closed.length

/-- The number of tokens passed. -/
def position (w : Walk) : Nat := w.boundary + w.current.length

/-- Passes the tokens of the next phrase of the region. The walk stays where a failure leaves it;
the error keeps all tokens that no closed phrase holds. -/
def advance (region : Region) (w : Walk) : Except PhraseError Finding × Walk :=
  let attempt := region.advance w.ahead
  (attempt.outcome.mapError fun fault => ⟨fault, w.current ++ w.ahead⟩,
    { w with current := w.current ++ attempt.cut.taken, ahead := attempt.cut.rest })

/-- Closes the phrase under way and gives its length. -/
def close (w : Walk) : Nat × Walk :=
  (w.current.length, { w with closed := w.closed ++ w.current, current := [] })

/-- Advancing moves tokens behind the walk and changes none. -/
theorem tokens_advance (region : Region) (w : Walk) : (w.advance region).2.tokens = w.tokens := by
  have := region.tokens_advance w.ahead
  simp only [Cut.tokens] at this
  simp only [advance, tokens, List.append_assoc, this]

theorem tokens_close (w : Walk) : w.close.2.tokens = w.tokens := by
  simp [close, tokens]

end Walk
end PackageRecipe
