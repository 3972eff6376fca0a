/-!
# Searching text

Positions count characters. A list of characters is searched by trying the needle at every suffix
from the left.
-/

namespace TradingRules.Text

/-- The least number of characters after which `needle` begins. -/
def indexOf? (needle : List Char) : List Char → Option Nat
  | [] => if needle.isEmpty then some 0 else none
  | c :: rest =>
    if needle.isPrefixOf (c :: rest) then some 0 else (indexOf? needle rest).map (· + 1)

def contains (hay needle : List Char) : Bool := (indexOf? needle hay).isSome

/-- The parts between the occurrences of a separator, taken from the left without overlap. The
separator is `s :: sep`, so that every occurrence shortens the rest. -/
def splitCore (s : Char) (sep : List Char) (part : List Char) :
    List Char → List (List Char)
  | [] => [part.reverse]
  | c :: rest =>
    if (s :: sep).isPrefixOf (c :: rest) then
      part.reverse :: splitCore s sep [] (rest.drop sep.length)
    else splitCore s sep (c :: part) rest
  termination_by text => text.length

/-- An empty separator leaves the text whole. -/
def splitOn (sep text : List Char) : List (List Char) :=
  match sep with
  | [] => [text]
  | s :: sep => splitCore s sep [] text

def intercalate (sep : List Char) : List (List Char) → List Char
  | [] => []
  | [part] => part
  | part :: rest => part ++ sep ++ intercalate sep rest

/-- Every occurrence of `pattern`, taken from the left, replaced; an empty pattern replaces
nothing. -/
def replace (pattern replacement text : List Char) : List Char :=
  intercalate replacement (splitOn pattern text)

/-- The text before and after the first occurrence of a character. -/
def splitFirst? (sep : Char) : List Char → Option (List Char × List Char)
  | [] => none
  | c :: rest =>
    if c = sep then some ([], rest)
    else (splitFirst? sep rest).map fun (before, after) => (c :: before, after)

/-- The lines of a text: a line ends with a line feed, which may follow a carriage return, and text
after the last line feed is a line if there is any. -/
def lines (text : String) : List String :=
  let parts := splitOn ['\n'] text.toList
  let parts := if parts.getLast? = some [] then parts.dropLast else parts
  let ended := (splitOn ['\n'] text.toList).length - 1
  parts.mapIdx fun i part =>
    String.ofList <|
      if i < ended ∧ part.getLast? = some '\r' then part.dropLast else part

end TradingRules.Text
