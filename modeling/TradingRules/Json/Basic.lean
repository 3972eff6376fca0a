import TradingRules.Double.Basic

/-!
# JSON documents

A member list keeps the order and the repetitions of the text; which of two members of one name
counts is for the reader of a particular structure to say.
-/

namespace TradingRules

/-- Integers from `-2 ^ 63` to `2 ^ 64 - 1` are kept apart from other numbers. A literal that is well
formed but denotes nothing, a number past the doubles or a string with half a surrogate pair, is
`unreadable`: it spoils only what needs its value. -/
inductive Json where
  | null
  | bool (b : Bool)
  | int (i : Int)
  | float (x : Double)
  | str (s : String)
  | arr (items : List Json)
  | obj (members : List (String × Json))
  | unreadable
  deriving Inhabited

namespace Json

mutual

/-- Every literal inside has a value. -/
def readable : Json → Bool
  | .arr items => readableItems items
  | .obj members => readableMembers members
  | .unreadable => false
  | _ => true

def readableItems : List Json → Bool
  | [] => true
  | j :: rest => readable j && readableItems rest

def readableMembers : List (String × Json) → Bool
  | [] => true
  | (_, j) :: rest => readable j && readableMembers rest

end

mutual

/-- How many arrays and objects stand around the deepest place. -/
def depth : Json → Nat
  | .arr items => depthItems items + 1
  | .obj members => depthMembers members + 1
  | _ => 0

def depthItems : List Json → Nat
  | [] => 0
  | j :: rest => max (depth j) (depthItems rest)

def depthMembers : List (String × Json) → Nat
  | [] => 0
  | (_, j) :: rest => max (depth j) (depthMembers rest)

end

/-- Documents nested deeper than this are refused. -/
def maxDepth : Nat := 127

/-- Of two members with one name the later counts. -/
def member? (name : String) (members : List (String × Json)) : Option Json :=
  members.reverse.lookup name

end Json

end TradingRules
