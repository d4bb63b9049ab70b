import PackageRecipe.Token.Basic

/-!
What stands between the quotation marks of a string literal. Escapes stay as they are written. The
mark is whatever character follows the prefix letters, so the rule is stated for any token, also for
one that no text has; marks at the ends of a long string are cut off as three bytes of UTF-8.
-/
namespace PackageRecipe

/-- The length of a text in UTF-8. -/
def byteLength : List Char → Nat
  | [] => 0
  | c :: cs => c.utf8Size + byteLength cs

/-- The text without its first `n` bytes; none if it is shorter or a character would be split. -/
def dropBytes? : Nat → List Char → Option (List Char)
  | 0, cs => some cs
  | _ + 1, [] => none
  | n + 1, c :: cs => if c.utf8Size ≤ n + 1 then dropBytes? (n + 1 - c.utf8Size) cs else none

/-- The text without `n` bytes at either end. -/
def trimBytes? (n : Nat) (cs : List Char) : Option (List Char) := do
  let front ← dropBytes? n cs
  let back ← dropBytes? n front.reverse
  return back.reverse

/-- Why a token has no contents. -/
inductive ContentsFault where
  /-- It is no text between two equal marks. -/
  | notQuoted
  /-- It is one, but three bytes from its end a character would be split. -/
  | splitCharacter
  deriving DecidableEq

/-- A literal without its prefix letters. -/
def literalBody (text : List Char) : List Char := text.dropWhile Char.isAlpha

/-- A body of at least six bytes that begins and ends with three marks. -/
def isLong (mark : Char) (body : List Char) : Bool :=
  6 ≤ byteLength body && [mark, mark, mark].isPrefixOf body && [mark, mark, mark].isSuffixOf body

/-- The text between the marks of a literal's body. -/
def bodyContents : List Char → Except ContentsFault (List Char)
  | [] => .error .notQuoted
  | mark :: cs =>
    if isLong mark (mark :: cs) then
      match trimBytes? 3 (mark :: cs) with
      | some inner => .ok inner
      | none => .error .splitCharacter
    else if cs.getLast? = some mark then .ok cs.dropLast
    else .error .notQuoted

/-- The contents of a string literal. -/
def Token.contents (t : Token) : Except ContentsFault String :=
  if t.kind = .string then (bodyContents (literalBody t.text.toList)).map String.ofList
  else .error .notQuoted

end PackageRecipe
