/-! # Fixed texts of the command line -/

namespace MiniLua.Console

def versionText : String := "rua 0.1.0"

def usage : String :=
  "usage: rua [-h] [-i] [--tokens] [--parse] [--debug] [--max-depth N]\n"
    ++ "           [--version]\n"
    ++ "           [script]\n"

def help : String :=
  usage
    ++ "\n"
    ++ "Rua - a tree-walking interpreter for a subset of Lua\n"
    ++ "\n"
    ++ "positional arguments:\n"
    ++ "  script             Lua script file to execute\n"
    ++ "\n"
    ++ "options:\n"
    ++ "  -h, --help         show this help message and exit\n"
    ++ "  -i, --interactive  Start interactive mode\n"
    ++ "  --tokens           Tokenize file and show the tokens\n"
    ++ "  --parse            Parse file and show the AST\n"
    ++ "  --debug            Trace parsing and execution on stderr\n"
    ++ "  --max-depth N      Maximum call depth (default 20000)\n"
    ++ "  --version          show program's version number and exit\n"
    ++ "\n"
    ++ "Examples:\n"
    ++ "  rua script.lua             # Run a script\n"
    ++ "  rua -i                     # Interactive mode\n"
    ++ "  rua --tokens script.lua    # Show the token stream\n"
    ++ "  rua --parse script.lua     # Parse and show the AST\n"
    ++ "  rua --debug script.lua     # Run with execution trace on stderr\n"
    ++ "        \n"

def banner : String :=
  versionText ++ " - Interactive Mode\n" ++ "Type ':quit' to exit, ':help' for commands\n"

def interactiveHelp : String :=
  "REPL Commands:\n"
    ++ "  :parse <code>     - Show the AST of a chunk\n"
    ++ "  :env              - Show global variables\n"
    ++ "  :help             - Show this help\n"
    ++ "  :quit             - Exit\n"
    ++ "\n"
    ++ "An expression on its own line is printed, e.g. `1 + 2`.\n"

end MiniLua.Console
