import Sentential.Text.Blank

/-!
# `Sentential.Text.Words` — cutting a command line into its parts

A command line is trimmed at both ends and cut at white space; one argument of it may be a list of fields
between commas. Every function works on the characters of the text.

## Contents
* `trim` — the text without white space at its ends
* `splitFirst` — the parts before and after the first occurrence of a character
* `fields` — the parts between a separator, empty ones included
* `words` — the maximal runs of characters that are not white space
-/

namespace Sentential.Text

/-! ## Ends -/

/-- The characters from the first one that is not white space. -/
def trimLeft (cs : List Char) : List Char :=
  cs.dropWhile isWhiteSpace

/-- The text without the white space at both ends. -/
def trim (text : String) : String :=
  String.ofList (trimLeft (trimLeft text.toList).reverse).reverse

/-! ## Cuts -/

/-- The parts before and after the first `separator`, which belongs to neither; nothing if it does not
    occur. -/
def splitFirst (separator : Char) : List Char → Option (List Char × List Char)
  | [] => none
  | c :: rest =>
    if c = separator then some ([], rest)
    else (splitFirst separator rest).map fun (before, after) => (c :: before, after)

/-- `c` in front of the first part. -/
def consFirst (c : Char) : List (List Char) → List (List Char)
  | [] => [[c]]
  | part :: rest => (c :: part) :: rest

/-- The parts between characters of a class, empty ones included. -/
def partsBetween (cut : Char → Bool) : List Char → List (List Char)
  | [] => [[]]
  | c :: rest => if cut c then [] :: partsBetween cut rest else consFirst c (partsBetween cut rest)

/-- The fields of a text between occurrences of a separator, empty ones included. -/
def fields (separator : Char) (text : String) : List String :=
  (partsBetween (· == separator) text.toList).map String.ofList

/-- The words of a text: its maximal runs of characters that are not white space. -/
def words (text : String) : List String :=
  ((partsBetween isWhiteSpace text.toList).filter (!·.isEmpty)).map String.ofList

end Sentential.Text
