import Monkey.CommandLine.Options

/-!
# Help on the command line

The texts that tell how the program is called, with the name that it is called by.
-/

namespace Monkey.CommandLine

set_option autoImplicit false

def version : String := "Monkey v1.0"

def usageLines (program : String) : List String :=
  let head := "usage: " ++ program ++ " "
  let indent := "".pushn ' ' head.length
  [head ++ "[-h] [-i] [--parse] [--tokens] [--debug]",
    indent ++ "[--recursion-limit RECURSION_LIMIT] [--version]",
    indent ++ "[script]"]

def helpLines (program : String) : List String :=
  usageLines program ++
    ["",
      "Monkey Programming Language - tree-walking interpreter",
      "",
      "positional arguments:",
      "  script                Monkey script file to execute",
      "",
      "options:",
      "  -h, --help            show this help message and exit",
      "  -i, --interactive     Start interactive mode",
      "  --parse               Parse file and show the AST (for debugging)",
      "  --tokens              Tokenize file and show the tokens (for debugging)",
      "  --debug               Enable debug logging for all stages",
      "  --recursion-limit RECURSION_LIMIT",
      "                        Maximum Python recursion depth available to Monkey",
      "                        programs",
      "  --version             show program's version number and exit",
      "",
      "Examples:",
      "  " ++ program ++ " script.mk              # Run a Monkey script",
      "  " ++ program ++ " -i                     # Interactive mode",
      "  " ++ program ++ " --parse script.mk      # Parse and show the AST",
      "  " ++ program ++ " --tokens script.mk     # Show the token stream",
      "  " ++ program ++ " --debug script.mk      # Run with debug logging",
      "        "]

def UsageError.lines (program : String) (e : UsageError) : List String :=
  usageLines program ++ [program ++ ": error: " ++ e.message]

end Monkey.CommandLine
