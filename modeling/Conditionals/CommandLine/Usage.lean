/-!
# Usage
-/

namespace Conditionals.CommandLine

def debugVariable : String := "CONDPATH_DEBUG"

def usageLines : List String :=
  ["Usage: condpath <command> [options]",
    "",
    "Commands:",
    "  fold <file>                  Foldable conditional blocks",
    "  path <file> <line>           Annotations and the active path at <line>",
    "  section <file> <line>        Conditional section enclosing <line>",
    "  replay <file> <line[:col]>...",
    "                               Feed caret moves to the decorator, print each update",
    "  help                         Show this message",
    "",
    "Options:",
    "  --json                       Machine-readable output",
    "  --debug=<list>               Log categories: folding, decorations, all, none",
    "",
    "Lines and columns are zero-based. " ++ debugVariable ++ " sets a default --debug list;",
    "RUST_LOG selects which events are printed (e.g. RUST_LOG=condpath=trace)."]

def usage : String :=
  String.join (usageLines.map fun line => line ++ "\n")

end Conditionals.CommandLine
