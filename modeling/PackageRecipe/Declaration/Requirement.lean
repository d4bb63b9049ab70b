import PackageRecipe.Declaration.Basic
import PackageRecipe.Token.Contents

/-!
What a dependency requires: a package by its name, and a constraint on its version, which begins
with the only `@` there may be. Written one after the other, the two are the contents of the string
that the dependency was declared with.
-/
namespace PackageRecipe

structure Requirement where
  name : String
  /-- The constraint with its `@`. -/
  constraint : Option String
  deriving DecidableEq

namespace Requirement

def text (r : Requirement) : String := r.name ++ r.constraint.getD ""

/-- Splits before the first `@`; none if there is a second. -/
def ofChars? (contents : List Char) : Option Requirement :=
  let name := String.ofList (contents.takeWhile (· ≠ '@'))
  match contents.dropWhile (· ≠ '@') with
  | [] => some ⟨name, none⟩
  | sign :: version =>
    if '@' ∈ version then none else some ⟨name, some (String.ofList (sign :: version))⟩

end Requirement

/-- Why a dependency states no requirement. -/
inductive RequirementFault where
  /-- Its token has no contents to split. -/
  | noContents (cause : ContentsFault)
  /-- More than one `@`. -/
  | multipleVersions
  deriving DecidableEq

/-- A fault and the text of the token that has it. -/
structure RequirementError where
  fault : RequirementFault
  text : String
  deriving DecidableEq

def RequirementError.message (e : RequirementError) : String :=
  match e.fault with
  | .noContents _ => "dependency spec is not a string: " ++ e.text
  | .multipleVersions => "invalid spec: " ++ e.text

/-- The requirement that a dependency states. -/
def Dependency.requirement (d : Dependency) : Except RequirementError Requirement :=
  match d.spec.contents with
  | .error cause => .error ⟨.noContents cause, d.spec.text⟩
  | .ok contents =>
    match Requirement.ofChars? contents.toList with
    | none => .error ⟨.multipleVersions, d.spec.text⟩
    | some requirement => .ok requirement

end PackageRecipe
