import Clipboard.CommandLine

/-!
# Help

The texts that explain the command line.
-/

namespace Clipboard.CommandLine

def programName : String := "datatransfer-inspect"

/-- The name of the program and its version. -/
def versionText : String := programName ++ " 0.3.0\n"

/-- The variable that names the configuration file if no option does. -/
def configVariable : String := "DATATRANSFER_CONFIG"

def textOf (lines : List String) : String := String.join (lines.map (· ++ "\n"))

def programHelp (config : Option String) : String :=
  textOf [
    "Inspect clipboard format negotiation and translation",
    "",
    "Usage: datatransfer-inspect [OPTIONS] <COMMAND>",
    "",
    "Commands:",
    "  formats   Formats reachable from flavors, most preferred flavor first",
    "  flavors   Flavors importable from native format ids, best first",
    "  encode    Encode text into a native format and print it as hex",
    "  decode    Decode hex bytes of a native format",
    "  charsets  Rank charset names, best first",
    "  help      Print this message or the help of the given subcommand(s)",
    "",
    "Options:",
    "  -c, --config <CONFIG>          Format table (TOML); the built-in Windows table when omitted "
      ++ "[env: " ++ configVariable ++ "=" ++ config.getD "" ++ "]",
    "  -v, --verbose...               Verbose logging (can be specified multiple times)",
    "      --log-format <LOG_FORMAT>  Log format (json|pretty|compact) [default: compact]",
    "      --log-file <LOG_FILE>      Write logs to file (in addition to stderr)",
    "  -h, --help                     Print help",
    "  -V, --version                  Print version"]

def CommandName.help : CommandName → String
  | formats => textOf [
    "Formats reachable from flavors, most preferred flavor first",
    "",
    "Usage: datatransfer-inspect formats <FLAVORS>...",
    "",
    "Arguments:",
    "  <FLAVORS>...  Flavor MIME strings",
    "",
    "Options:",
    "  -h, --help  Print help"]
  | flavors => textOf [
    "Flavors importable from native format ids, best first",
    "",
    "Usage: datatransfer-inspect flavors <FORMATS>...",
    "",
    "Arguments:",
    "  <FORMATS>...  Format ids",
    "",
    "Options:",
    "  -h, --help  Print help"]
  | encode => textOf [
    "Encode text into a native format and print it as hex",
    "",
    "Usage: datatransfer-inspect encode --format <FORMAT> [TEXT]",
    "",
    "Arguments:",
    "  [TEXT]  Text to encode; read from stdin when omitted",
    "",
    "Options:",
    "  -f, --format <FORMAT>  Target format id",
    "  -h, --help             Print help"]
  | decode => textOf [
    "Decode hex bytes of a native format",
    "",
    "Usage: datatransfer-inspect decode [OPTIONS] --format <FORMAT> <HEX>",
    "",
    "Arguments:",
    "  <HEX>  Native bytes as hex",
    "",
    "Options:",
    "  -f, --format <FORMAT>  Source format id",
    "      --flavor <FLAVOR>  Flavor to decode into [default: \"text/plain; class=string\"]",
    "  -h, --help             Print help"]
  | charsets => textOf [
    "Rank charset names, best first",
    "",
    "Usage: datatransfer-inspect charsets <NAMES>...",
    "",
    "Arguments:",
    "  <NAMES>...  Charset names",
    "",
    "Options:",
    "  -h, --help  Print help"]

/-- What the command that gives help is for. -/
def helpOnHelp : String :=
  textOf [
    "Print this message or the help of the given subcommand(s)",
    "",
    "Usage: datatransfer-inspect help [COMMAND]...",
    "",
    "Arguments:",
    "  [COMMAND]...  Print help for the subcommand(s)"]

def Topic.text (config : Option String) : Topic → String
  | program => programHelp config
  | command name => name.help
  | help => helpOnHelp

end Clipboard.CommandLine
