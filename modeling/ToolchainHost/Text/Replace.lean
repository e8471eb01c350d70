/-!
# Replacing and splitting

`replaceAll token sub text` replaces every occurrence of `token`, found from the left without overlap.
`splitLast c cs` cuts at the last `c`.
-/

namespace ToolchainHost.Text

/-- Replaces onto the reversed text `acc`, passing over the next `skip` characters of a found token. -/
def replaceOnto (token sub : List Char) (acc : List Char) : (skip : Nat) → List Char → List Char
  | _, [] => acc.reverse
  | skip + 1, _ :: cs => replaceOnto token sub acc skip cs
  | 0, c :: cs =>
    if token.isPrefixOf (c :: cs) then replaceOnto token sub (sub.reverse ++ acc) (token.length - 1) cs
    else replaceOnto token sub (c :: acc) 0 cs

/-- Replaces every occurrence of a non-empty `token`, from the left and without overlap. -/
def replaceAll (token sub text : String) : String :=
  String.ofList (replaceOnto token.toList sub.toList [] 0 text.toList)

/-- The parts before and after the last `c`. -/
def splitLast (c : Char) (cs : List Char) : Option (List Char × List Char) :=
  if c ∈ cs then
    let after := (cs.reverse.takeWhile (· != c)).reverse
    some (cs.take (cs.length - after.length - 1), after)
  else none

end ToolchainHost.Text
