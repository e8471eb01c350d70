import ToolchainHost.Text.Blank
import ToolchainHost.Text.Replace

/-!
# The words of a command line

Words are separated by blanks. A quote of either kind opens a stretch that ends at the next quote of the same
kind; blanks and quotes of the other kind inside it are ordinary, and the quotes themselves are dropped.

* `words line`: the words of a line.
* `fillIn line name`: a line with the file name put in for its placeholder.
-/

namespace ToolchainHost.Command

/-- How far a line has been read. The parts read last come first. -/
structure Reading where
  done : List String := []
  current : List Char := []
  /-- A word has begun, even if it has no character yet. -/
  inWord : Bool := false
  /-- The quote that is open. -/
  quote : Option Char := none
  deriving DecidableEq, Inhabited

namespace Reading

/-- Ends the word that has begun, if one has. -/
def endWord (r : Reading) : Reading :=
  if r.inWord then { r with done := String.ofList r.current.reverse :: r.done, current := [], inWord := false }
  else r

/-- Reads one more character. -/
def step (r : Reading) (c : Char) : Reading :=
  match r.quote with
  | some q => if c = q then { r with quote := none } else { r with current := c :: r.current }
  | none =>
    if c = '"' ∨ c = '\'' then { r with quote := some c, inWord := true }
    else if Text.isBlank c then r.endWord
    else { r with current := c :: r.current, inWord := true }

end Reading

/-- The words of a line. A quote left open reaches to the end. -/
def words (line : String) : List String := (line.toList.foldl Reading.step {}).endWord.done.reverse

/-- What stands for the active file in a command line. -/
def placeholder : String := "<filename>"

/-- The line with the file name in place of every placeholder. -/
def fillIn (line fileName : String) : String := Text.replaceAll placeholder fileName line

end ToolchainHost.Command
