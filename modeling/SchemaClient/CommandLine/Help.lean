/-
SchemaClient.CommandLine.Help — what the program says about itself.
-/
import SchemaClient.CommandLine.Arguments
import SchemaClient.Table

namespace SchemaClient

namespace CommandLine

def programName : String := "windmill-ts"

/-- The name of the program and its version. -/
def versionText : String := programName ++ " 0.1.0\n"

/-- What stands in help behind an option whose value can come from a variable. -/
def variableNote (environment : Table String) (name : String) : String :=
  " [env: " ++ name ++ "=" ++ (environment.find? name).getD "" ++ "]"

/-- The options of a generation. -/
def optionsText (environment : Table String) : String :=
  "  -w, --workspace <WORKSPACE>        " ++
    "target workspace, defaults to the active Windmill CLI workspace\n" ++
  "      --remote <REMOTE>              remote base URL, bypassing the Windmill CLI store" ++
    variableNote environment "WM_REMOTE" ++ "\n" ++
  "      --workspace-id <WORKSPACE_ID>  workspace id on the remote (with --remote)" ++
    variableNote environment "WM_WORKSPACE" ++ "\n" ++
  "      --token <TOKEN>                API token (with --remote) [env: WM_TOKEN]\n" ++
  "  -v, --verbose...                   more logging (-v info, -vv debug, -vvv trace)\n" ++
  "  -h, --help                         Print help\n"

def argumentsText : String :=
  "Arguments:\n  [OUTPUT]  output path; `-` writes to stdout\n\n"

/-- The help about a topic. -/
def helpText (environment : Table String) : Topic → String
  | .program =>
    "Type-safe Windmill client for TypeScript\n\n" ++
    "Usage: " ++ programName ++ " [OPTIONS] [OUTPUT]\n       " ++ programName ++ " <COMMAND>\n\n" ++
    "Commands:\n  generate  generate the client\n" ++
    "  help      Print this message or the help of the given subcommand(s)\n\n" ++
    argumentsText ++ "Options:\n" ++ optionsText environment ++
    "  -V, --version                      Print version\n"
  | .generate =>
    "generate the client\n\n" ++
    "Usage: " ++ programName ++ " generate [OPTIONS] [OUTPUT]\n\n" ++
    argumentsText ++ "Options:\n" ++ optionsText environment
  | .help =>
    "Print this message or the help of the given subcommand(s)\n\n" ++
    "Usage: " ++ programName ++ " help [COMMAND]...\n\n" ++
    "Arguments:\n  [COMMAND]...  Print help for the subcommand(s)\n"

end CommandLine

end SchemaClient
