import Monkey.Files
import Monkey.Repl
import Monkey.Text.Cited
import Monkey.Text.Utf8

/-!
# Scripts

A script is the text of a file. It can be run, shown as an outline, or shown as tokens; how that
ends is told by a status, which is zero if all went well.
-/

namespace Monkey

set_option autoImplicit false

inductive Ending where
  | status (code : Nat)
  /-- A failure that nothing reports broke the run off. -/
  | broken (failure : Failure)
  /-- The limit of the depth was set to nothing. -/
  | limitMissing
  /-- The limit of the depth is not positive. -/
  | limitTooLow
  | limitTooHigh
  /-- It cannot be told whether there is a script. -/
  | noScript (fault : Files.Fault)
  deriving Repr, DecidableEq

namespace Script

/-- Why a file has no text. -/
inductive Fault where
  | file (fault : Files.Fault)
  | encoding (fault : Text.Utf8.Fault)
  deriving Repr, DecidableEq

namespace Fault

/-- What is told where a program was expected. -/
def message (path : String) : Fault → String
  | file .missing => "File not found: " ++ path
  | file f => "Cannot read file " ++ path ++ ": " ++ f.description
  | encoding f => "Cannot decode file " ++ path ++ ": " ++ f.message

/-- What is told where nothing but a text was expected. -/
def detail (path : String) : Fault → String
  | file f =>
    "[Errno " ++ toString f.code ++ "] " ++ f.description ++ ": " ++ Text.Cited.cite path
  | encoding f => f.message

end Fault

/-- The text of a file, in which every line ends in a single line feed. -/
def text (content : Except Files.Fault (List UInt8)) : Except Fault String :=
  match content with
  | .error f => .error (.file f)
  | .ok bytes =>
    match Text.Utf8.decode bytes with
    | .error f => .error (.encoding f)
    | .ok cs => .ok (String.ofList (Text.unifyNewlines cs))

def refuse (messages : List String) (s : Session) : Ending × Session :=
  (.status 1, s.say (SyntaxError.report messages))

/-- Runs a script and shows its value. -/
def run (path : String) (content : Except Files.Fault (List UInt8)) (s : Session) :
    Ending × Session :=
  match text content with
  | .error f => refuse [f.message path] s
  | .ok program =>
    match s.run program path with
    | (.error fault, s) =>
      match Repl.reportFault fault s with
      | (.ok (), s) => (.status 1, s)
      | (.error f, s) => (.broken f, s)
    | (.ok v, s) =>
      match s.lift (Run.shown s.depth v) with
      | (.ok t, s) => (.status 0, s.say t)
      | (.error f, s) => (.broken f, s)

def outline (path : String) (content : Except Files.Fault (List UInt8)) (s : Session) :
    Ending × Session :=
  match text content with
  | .error f => refuse [f.message path] s
  | .ok program =>
    match s.read program path with
    | (.error f, s) => (.broken f, s)
    | (.ok r, s) =>
      if r.errors = [] then
        let s := s.say ("Parsed " ++ toString r.statements.length ++ " top-level statements:")
        let s := s.say ("".pushn '=' 50)
        if r.program.fits s.depth then
          let s := s.say (renderOutline r.program.outline)
          (.status 0, s.say r.program.source)
        else (.broken .tooDeep, s)
      else refuse r.messages s

def tokenLine (t : Token) : String :=
  ((t.span.map Token.Span.render).getD "") ++ "\t" ++ t.kind.tag ++ "\t" ++ t.display

def tokens (path : String) (content : Except Files.Fault (List UInt8)) (s : Session) :
    Ending × Session :=
  match text content with
  | .error f => (.status 1, s.say ("Error: Cannot read '" ++ path ++ "': " ++ f.detail path))
  | .ok program => (.status 0, Repl.sayAll ((Token.scan program path).map tokenLine) s)

end Script

end Monkey
