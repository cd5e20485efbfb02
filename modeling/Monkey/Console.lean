/-!
# The console

The lines that a program can still read, and what it has done so far, in order.
-/

namespace Monkey

set_option autoImplicit false

inductive Event where
  /-- Writes a line. -/
  | line (text : String)
  /-- Writes text that ends no line. -/
  | text (text : String)
  /-- Asks for a line with a prompt. -/
  | prompt (text : String)
  /-- Leaves a record in the log. -/
  | record (text : String)
  deriving Repr, DecidableEq

structure Console where
  pending : List String
  events : Array Event
  deriving Repr, DecidableEq

namespace Console

/-- A console with input that was not used yet. -/
def ofLines (lines : List String) : Console := ⟨lines, #[]⟩

def add (c : Console) (e : Event) : Console := ⟨c.pending, c.events.push e⟩

/-- Asks for a line. There is no line at the end of input. -/
def ask (c : Console) (prompt : String) : Option String × Console :=
  match c.pending with
  | [] => (none, c.add (.prompt prompt))
  | l :: ls => (some l, ⟨ls, c.events.push (.prompt prompt)⟩)

def cleared (c : Console) : Console := ⟨c.pending, #[]⟩

def lines (c : Console) : List String :=
  c.events.toList.filterMap fun
    | .line t => some t
    | _ => none

def prompts (c : Console) : List String :=
  c.events.toList.filterMap fun
    | .prompt t => some t
    | _ => none

def records (c : Console) : List String :=
  c.events.toList.filterMap fun
    | .record t => some t
    | _ => none

end Console

namespace Event

/-- What an event writes itself. -/
def written : Event → String
  | line t => t ++ "\n"
  | text t => t
  | prompt _ => ""
  | record _ => ""

/-- What an event shows on the screen. -/
def shown : Event → String
  | prompt t => t
  | e => e.written

/-- The events up to the prompt that comes behind `n` other prompts. -/
def upToPrompt : Nat → List Event → List Event
  | _, [] => []
  | 0, prompt t :: _ => [prompt t]
  | n + 1, prompt t :: es => prompt t :: upToPrompt n es
  | n, e :: es => e :: upToPrompt n es

end Event

namespace Console

/-- All that was written, without the prompts. -/
def written (c : Console) : String :=
  String.join (c.events.toList.map Event.written)

def screen (c : Console) : String :=
  String.join (c.events.toList.map Event.shown)

/-- What is on the screen while the prompt that comes behind `n` others waits. -/
def screenAtPrompt (n : Nat) (c : Console) : String :=
  String.join ((Event.upToPrompt n c.events.toList).map Event.shown)

def log (c : Console) : String :=
  String.join (c.records.map (· ++ "\n"))

end Console

end Monkey
