import Monkey.CommandLine.Run

/-!
# The program

The command line on the real files and the real console. A run that asks for input is repeated
once the input is there: input that is not typed by hand is read as a whole, on a terminal one line
is read at a time and only what is new on the screen is shown.
-/

namespace Monkey

set_option autoImplicit false

def Files.Fault.ofError : IO.Error → Files.Fault
  | .noFileOrDirectory .. => .missing
  | .inappropriateType _ code _ => if code = 21 then .isDirectory else .notDirectory
  | .invalidArgument .. => .nameTooLong
  | .permissionDenied .. => .notPermitted
  | _ => .missing

def readFile (path : String) : IO (Except Files.Fault (List UInt8)) := do
  if path = "" then return .error .missing
  if '\x00' ∈ path.toList then return .error .unusable
  try
    let bytes ← IO.FS.readBinFile path
    return .ok bytes.toList
  catch e =>
    return .error (.ofError e)

/-- The path that a run looks at, if it looks at one. -/
def CommandLine.path? (arguments : List String) : Option String :=
  match Request.of arguments with
  | .ok (.run o) => o.script
  | _ => none

/-- Reads text until it ends. -/
partial def readAll (input : IO.FS.Stream) (done : String) : IO String := do
  let line ← input.getLine
  if line.isEmpty then return done
  readAll input (done ++ line)

/-- Runs with the lines read so far, and again with one more as long as it asks for one. -/
partial def converse (run : List String → CommandLine.Outcome) (input output : IO.FS.Stream)
    (lines : List String) (shown : Nat) : IO CommandLine.Outcome := do
  let outcome := run lines
  let console := outcome.console
  let finish : IO CommandLine.Outcome := do
    output.putStr (String.ofList (console.screen.toList.drop shown))
    return outcome
  if lines.length < console.prompts.length then
    let text := (console.screenAtPrompt lines.length).toList
    output.putStr (String.ofList (text.drop shown))
    output.flush
    let line ← input.getLine
    if line.isEmpty then
      output.putStr (String.ofList (console.screen.toList.drop text.length))
      return outcome
    converse run input output (lines ++ Text.inputLines line) text.length
  else finish

end Monkey

open Monkey in
def main (arguments : List String) : IO UInt32 := do
  let input ← IO.getStdin
  let output ← IO.getStdout
  let path := (CommandLine.path? arguments).getD ""
  let found := Files.Finding.of (← readFile (Files.tidy path)) (← readFile path)
  let run (lines : List String) : CommandLine.Outcome :=
    CommandLine.run "monkey" arguments (fun _ => found) lines
  let outcome ←
    if ← input.isTty then converse run input output [] 0
    else do
      let silent := run []
      let outcome ←
        if silent.console.prompts.isEmpty then pure silent
        else do
          let text ← readAll input ""
          pure (run (Text.inputLines text))
      output.putStr outcome.console.screen
      pure outcome
  output.flush
  let errors ← IO.getStderr
  errors.putStr outcome.console.log
  match outcome.ending with
  | .status code => return code.toUInt32
  | .broken f =>
    errors.putStrLn f.message
    return 1
  | .limitMissing =>
    errors.putStrLn "recursion limit has no value"
    return 1
  | .limitTooLow =>
    errors.putStrLn "recursion limit must be greater or equal than 1"
    return 1
  | .limitTooHigh =>
    errors.putStrLn "recursion limit is too large"
    return 1
  | .noScript f =>
    errors.putStrLn f.description
    return 1
