/-!
# Capital letters

Capitals for words of the letters A to Z.  Ligatures and a few other letters
have such capitals too, sometimes several of them.
-/

namespace Backpressure
namespace Text

/-- The characters beyond ASCII whose full capitals are all ASCII. -/
def foreignCapitals : List (Char × String) :=
  [('ß', "SS"),
   ('ı', "I"),
   ('ſ', "S"),
   ('ﬀ', "FF"),
   ('ﬁ', "FI"),
   ('ﬂ', "FL"),
   ('ﬃ', "FFI"),
   ('ﬄ', "FFL"),
   ('ﬅ', "ST"),
   ('ﬆ', "ST")]

/-- The capitals of a character.  Where these are not all ASCII the character
stands for itself, which no word of the letters A to Z can tell. -/
def capitalsOf (character : Char) : List Char :=
  match foreignCapitals.lookup character with
  | some capitals => capitals.toList
  | none => [character.toUpper]

/-- The capitals of a text, character by character. -/
def capitals (text : String) : String :=
  String.ofList (text.toList.flatMap capitalsOf)

end Text
end Backpressure
