import ToolchainHost.Json.Numeral
import ToolchainHost.Text.Hex

/-!
# Reading JSON

`Json.parse?` reads one value with blanks around it. How strictly is said by `Limits`: how deep containers may
nest, and whether strings must be well-formed Unicode and numbers must fit a double. A value that is read only to
be passed over needs neither.

`Json.parseWith?` reads an object whose members have limits by their keys.
-/

namespace ToolchainHost.Json

/-- How strictly a value is read. -/
structure Limits where
  /-- How many containers may still be nested. -/
  depth : Nat
  /-- Lone surrogates and numbers beyond every double are let pass. -/
  lax : Bool
  deriving DecidableEq, Inhabited

/-- The limits of values that are used: containers nest at most 127 deep. -/
def Limits.strict : Limits := ⟨127, false⟩

/-- The limits inside a container, if another is allowed. -/
def Limits.inner? (limits : Limits) : Option Limits :=
  match limits.depth with
  | 0 => none
  | depth + 1 => some { limits with depth }

/-- The blanks between the parts of a text. -/
def isBlank (c : Char) : Bool := c == ' ' || c == '\t' || c == '\n' || c == '\r'

/-- Drops the blanks at the front. -/
def skipBlanks (cs : List Char) : List Char := cs.dropWhile isBlank

/-- The value of four hexadecimal digits. -/
def hex4? (a b c d : Char) : Option Nat :=
  match Hex.value? a, Hex.value? b, Hex.value? c, Hex.value? d with
  | some a, some b, some c, some d => some (((a * 16 + b) * 16 + c) * 16 + d)
  | _, _, _, _ => none

/-- Whether a code unit is the first of a pair. -/
def isHighSurrogate (n : Nat) : Bool := 0xD800 ≤ n && n ≤ 0xDBFF

/-- Whether a code unit is the second of a pair. -/
def isLowSurrogate (n : Nat) : Bool := 0xDC00 ≤ n && n ≤ 0xDFFF

/-- The character of a pair of code units. -/
def pairChar (high low : Nat) : Char := Char.ofNat (0x10000 + (high - 0xD800) * 0x400 + (low - 0xDC00))

/-- The character behind a backslash, other than `u`. -/
def unescape? (c : Char) : Option Char :=
  if c = '"' ∨ c = '\\' ∨ c = '/' then some c
  else if c = 'b' then some (Char.ofNat 8)
  else if c = 't' then some '\t'
  else if c = 'n' then some '\n'
  else if c = 'f' then some (Char.ofNat 12)
  else if c = 'r' then some '\r'
  else none

/-- Reads the rest of a string behind its quote, onto the reversed text `acc`. -/
def readString (lax : Bool) (acc : List Char) : List Char → Option (String × List Char)
  | [] => none
  | '"' :: rest => some (String.ofList acc.reverse, rest)
  | '\\' :: 'u' :: a :: b :: c :: d :: rest =>
    match hex4? a b c d with
    | none => none
    | some n =>
      if lax then readString lax (Char.ofNat n :: acc) rest
      else if isHighSurrogate n then
        match rest with
        | '\\' :: 'u' :: e :: f :: g :: h :: rest =>
          match hex4? e f g h with
          | some m => if isLowSurrogate m then readString lax (pairChar n m :: acc) rest else none
          | none => none
        | _ => none
      else if isLowSurrogate n then none
      else readString lax (Char.ofNat n :: acc) rest
  | '\\' :: c :: rest =>
    match unescape? c with
    | some c => readString lax (c :: acc) rest
    | none => none
  | c :: rest => if c.toNat < 32 ∨ c = '\\' then none else readString lax (c :: acc) rest

/-- Reads a number. -/
def readNumber (lax : Bool) (cs : List Char) : Option (Json × List Char) :=
  match Numeral.read cs with
  | none => none
  | some (n, rest) =>
    match n.number? with
    | some n => some (number n, rest)
    | none => if lax then some (null, rest) else none

mutual

/-- Reads a value; `fuel` bounds the number of steps. -/
def readValue (limits : Limits) : (fuel : Nat) → List Char → Option (Json × List Char)
  | 0, _ => none
  | fuel + 1, cs =>
    match skipBlanks cs with
    | 'n' :: 'u' :: 'l' :: 'l' :: rest => some (null, rest)
    | 't' :: 'r' :: 'u' :: 'e' :: rest => some (bool true, rest)
    | 'f' :: 'a' :: 'l' :: 's' :: 'e' :: rest => some (bool false, rest)
    | '"' :: rest => (readString limits.lax [] rest).map fun (s, rest) => (string s, rest)
    | '[' :: rest =>
      match limits.inner? with
      | none => none
      | some limits =>
        match skipBlanks rest with
        | ']' :: rest => some (array [], rest)
        | rest => (readItems limits fuel rest).map fun (items, rest) => (array items, rest)
    | '{' :: rest =>
      match limits.inner? with
      | none => none
      | some limits =>
        match skipBlanks rest with
        | '}' :: rest => some (object [], rest)
        | rest => (readFields limits.lax (fun _ => limits) fuel rest).map fun (fields, rest) => (object fields, rest)
    | cs => readNumber limits.lax cs

/-- Reads the items of an array up to its end. -/
def readItems (limits : Limits) : (fuel : Nat) → List Char → Option (List Json × List Char)
  | 0, _ => none
  | fuel + 1, cs =>
    match readValue limits fuel cs with
    | none => none
    | some (v, rest) =>
      match skipBlanks rest with
      | ',' :: rest => (readItems limits fuel rest).map fun (items, rest) => (v :: items, rest)
      | ']' :: rest => some ([v], rest)
      | _ => none

/-- Reads the members of an object up to its end. -/
def readFields (laxKeys : Bool) (limitsOf : String → Limits) :
    (fuel : Nat) → List Char → Option (List (String × Json) × List Char)
  | 0, _ => none
  | fuel + 1, cs =>
    match skipBlanks cs with
    | '"' :: rest =>
      match readString laxKeys [] rest with
      | none => none
      | some (key, rest) =>
        match skipBlanks rest with
        | ':' :: rest =>
          match readValue (limitsOf key) fuel rest with
          | none => none
          | some (v, rest) =>
            match skipBlanks rest with
            | ',' :: rest =>
              (readFields laxKeys limitsOf fuel rest).map fun (fields, rest) => ((key, v) :: fields, rest)
            | '}' :: rest => some ([(key, v)], rest)
            | _ => none
        | _ => none
    | _ => none

end

/-- More steps than reading `cs` can take. -/
def fuelFor (cs : List Char) : Nat := 2 * cs.length + 2

/-- What was read, if only blanks follow it. -/
def atEnd {α : Type} : Option (α × List Char) → Option α
  | some (a, rest) => if skipBlanks rest = [] then some a else none
  | none => none

/-- Reads a text that is one value. -/
def parse? (limits : Limits) (text : String) : Option Json :=
  atEnd (readValue limits (fuelFor text.toList) text.toList)

/-- Reads a text that is one value; if it is an object, each member has the limits of its key. -/
def parseWith? (limitsOf : String → Limits) (text : String) : Option Json :=
  match skipBlanks text.toList with
  | '{' :: rest =>
    match skipBlanks rest with
    | '}' :: rest => atEnd (some (object [], rest))
    | rest =>
      atEnd ((readFields false limitsOf (fuelFor rest) rest).map fun (fields, rest) => (object fields, rest))
  | cs => atEnd (readValue .strict (fuelFor cs) cs)

end ToolchainHost.Json
