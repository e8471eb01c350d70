import ToolchainHost.Json.Printer

/-!
# Events

What the host tells the page. The wire text of an event is one JSON object that starts with the event's name; a
token comes back with its members sorted by key.
-/

namespace ToolchainHost

/-- What the host tells the page. -/
inductive Event where
  /-- The toolchain is loaded and requests are accepted. -/
  | ready
  /-- Text for the terminal. -/
  | write (text : String)
  /-- A guest waits for input. -/
  | readStdinRequest
  /-- A run request is done. -/
  | runCompleted
  /-- A command request is done. -/
  | commandCompleted (token : Json)
  deriving Repr, Inhabited

namespace Event

/-- The name of an event on the wire. -/
def name : Event → String
  | ready => "ready"
  | write _ => "write"
  | readStdinRequest => "readStdinRequest"
  | runCompleted => "runCompleted"
  | commandCompleted _ => "commandCompleted"

/-- What an event carries. -/
def payload : Event → List (String × Json)
  | write text => [("text", .string text)]
  | commandCompleted token => [("token", token.canonical)]
  | _ => []

/-- The JSON value of an event. -/
def toJson (e : Event) : Json := .object (("id", .string e.name) :: e.payload)

/-- The wire text of an event. -/
def wire (e : Event) : String := e.toJson.render

/-- The text an event adds to the terminal. -/
def text : Event → String
  | write text => text
  | _ => ""

/-- Whether a request ends with this event. -/
def isCompletion : Event → Bool
  | runCompleted => true
  | commandCompleted _ => true
  | _ => false

end Event

/-- What the terminal shows after events. -/
def terminalText (events : List Event) : String := String.join (events.map Event.text)

end ToolchainHost
