import TradingRules.Text.CharClass

/-! # Surrounding blanks -/

namespace TradingRules.Text

def trimStart (text : List Char) : List Char := text.dropWhile isBlank

def trimEnd (text : List Char) : List Char := (text.reverse.dropWhile isBlank).reverse

def trim (text : List Char) : List Char := trimEnd (trimStart text)

/-- The text without its leading and trailing blanks. -/
def trimmed (text : String) : String := String.ofList (trim text.toList)

end TradingRules.Text
