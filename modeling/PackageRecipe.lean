import PackageRecipe.Call.Form
import PackageRecipe.Declaration.Requirement
import PackageRecipe.Declaration.Reading
import PackageRecipe.Lexeme.Form
import PackageRecipe.Phrase.Walk
import PackageRecipe.Proofs.Token.Sequence
import PackageRecipe.Recipe.Extraction
import PackageRecipe.Proofs.Lexeme.Shape
import PackageRecipe.Proofs.Token.Shape
import PackageRecipe.Proofs.Phrase.Extent
import PackageRecipe.Proofs.Phrase.Sequence
import PackageRecipe.Proofs.Phrase.Neighbour
import PackageRecipe.Proofs.Call.Complete
import PackageRecipe.Proofs.Recipe.Division
import PackageRecipe.Proofs.Recipe.Partition
import PackageRecipe.Proofs.Declaration.Listing
import PackageRecipe.Proofs.Declaration.Rendering
import PackageRecipe.Proofs.Phrase.Remainder
import PackageRecipe.Proofs.Phrase.Seam
import PackageRecipe.Proofs.Recipe.Rewriting
import PackageRecipe.Proofs.Recipe.Rereading
import PackageRecipe.Proofs.Recipe.Composition
import PackageRecipe.Proofs.Recipe.Removal
import PackageRecipe.Proofs.Recipe.Rendered
import PackageRecipe.Proofs.Lexeme.Literal
import PackageRecipe.Proofs.Token.Literal
import PackageRecipe.Proofs.Token.LineEnd
import PackageRecipe.Proofs.Call.Sound
import PackageRecipe.Proofs.Phrase.Walk
import PackageRecipe.Proofs.Declaration.Sound
import PackageRecipe.Proofs.Declaration.Requirement
import PackageRecipe.Proofs.Recipe.WellFormed
import PackageRecipe.Proofs.Phrase.Alike
import PackageRecipe.Proofs.Call.Alike
import PackageRecipe.Proofs.Call.Grammar
import PackageRecipe.Proofs.Call.Extension
import PackageRecipe.Proofs.Recipe.Alike
import PackageRecipe.Proofs.Phrase.Extension
import PackageRecipe.Proofs.Phrase.Prefix
import PackageRecipe.Proofs.Phrase.Segmentation
import PackageRecipe.Proofs.Phrase.Recognition
import PackageRecipe.Proofs.Declaration.Grammar
import PackageRecipe.Proofs.Declaration.Extension
import PackageRecipe.Proofs.Token.Location
import PackageRecipe.Proofs.Token.Quotation
import PackageRecipe.Proofs.Token.Longest
import PackageRecipe.Proofs.Token.Number
import PackageRecipe.Proofs.Token.Word
import PackageRecipe.Proofs.Token.Contents
import PackageRecipe.Proofs.Declaration.Overfull
import PackageRecipe.Proofs.Declaration.InPlace
import PackageRecipe.Proofs.Recipe.Filler
import PackageRecipe.Proofs.Token.Structure
import PackageRecipe.Proofs.Declaration.Enclosure
import PackageRecipe.Proofs.Recipe.Account
