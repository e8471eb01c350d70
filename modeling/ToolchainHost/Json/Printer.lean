import ToolchainHost.Json.Numeral
import ToolchainHost.Text.Hex

/-!
# Writing JSON

`Json.render` writes a value without spaces and its members in the order in which they stand. A string escapes
quotes, backslashes and control characters, and nothing else.
-/

namespace ToolchainHost.Json

/-- The spelling of one character inside a string. -/
def escape (c : Char) : List Char :=
  if c = '"' then ['\\', '"']
  else if c = '\\' then ['\\', '\\']
  else if c.toNat = 8 then ['\\', 'b']
  else if c.toNat = 9 then ['\\', 't']
  else if c.toNat = 10 then ['\\', 'n']
  else if c.toNat = 12 then ['\\', 'f']
  else if c.toNat = 13 then ['\\', 'r']
  else if c.toNat < 32 then
    ['\\', 'u', '0', '0'] ++ Hex.byteChars (UInt8.ofNat c.toNat)
  else [c]

/-- A string in quotes. -/
def quoteChars (s : String) : List Char := '"' :: s.toList.flatMap escape ++ ['"']

mutual

/-- The text of a value. -/
def chars : Json → List Char
  | null => "null".toList
  | bool true => "true".toList
  | bool false => "false".toList
  | number n => n.chars
  | string s => quoteChars s
  | array items => '[' :: itemChars items ++ [']']
  | object fields => '{' :: fieldChars fields ++ ['}']

/-- The texts of items with commas between them. -/
def itemChars : List Json → List Char
  | [] => []
  | [v] => chars v
  | v :: w :: rest => chars v ++ ',' :: itemChars (w :: rest)

/-- The texts of members with commas between them. -/
def fieldChars : List (String × Json) → List Char
  | [] => []
  | [(k, v)] => quoteChars k ++ ':' :: chars v
  | (k, v) :: f :: rest => quoteChars k ++ ':' :: chars v ++ ',' :: fieldChars (f :: rest)

end

/-- The text of a value. -/
def render (v : Json) : String := String.ofList v.chars

end ToolchainHost.Json
