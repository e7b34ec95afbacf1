import BackusNaur.CommandLine.Step

/-!
# Forms of a command line

The arguments of the program end in a command with arguments of its own. Each of these forms has
its switches, the operands that it needs, a usage line and a help text.
-/

namespace BackusNaur.CommandLine

inductive CommandName where
  | symbols
  | check
  | matching
deriving DecidableEq, Repr

namespace CommandName

def all : List CommandName := [symbols, check, matching]

def text : CommandName → String
  | symbols => "symbols"
  | check => "check"
  | matching => "match"

def ofText? (text : String) : Option CommandName := all.find? (·.text == text)

end CommandName

inductive Form where
  | general
  | command (name : CommandName)
deriving DecidableEq, Repr

def joinLines (lines : List String) : String := String.join (lines.map (· ++ "\n"))

namespace Form

def switches : Form → List Switch
  | general => [.help, .version, .logLevel, .config, .verbose]
  | command .symbols => [.help, .dictionary, .json]
  | command .check => [.help, .dictionary]
  | command .matching => [.help, .dictionary, .text, .input, .maxDepth, .json]

def operands : Form → List String
  | general => ["command"]
  | command .symbols | command .check => ["grammar"]
  | command .matching => ["grammar", "symbol"]

def wanted : Form → Wanted
  | general => .command
  | command name => .operands (command name).operands.length

def program : Form → String
  | general => "bnfmatch"
  | command name => s!"bnfmatch {name.text}"

def usage : Form → String
  | general => joinLines [
      "usage: bnfmatch [-h] [--version] [--log-level \x7bdebug,info,warn,warning,error\x7d]",
      "                [--config CONFIG] [--verbose]",
      "                \x7bsymbols,check,match\x7d ..."]
  | command .symbols => joinLines [
      "usage: bnfmatch symbols [-h] [--dict FILE] [--json] grammar"]
  | command .check => joinLines [
      "usage: bnfmatch check [-h] [--dict FILE] grammar"]
  | command .matching => joinLines [
      "usage: bnfmatch match [-h] [--dict FILE] [--text TEXT | --input FILE]",
      "                      [--max-depth MAX_DEPTH] [--json]",
      "                      grammar symbol"]

def details : Form → String
  | general => joinLines [
      "Parse Backus-Naur grammars and match text against their symbols",
      "",
      "positional arguments:",
      "  \x7bsymbols,check,match\x7d",
      "    symbols             List defined symbols",
      "    check               Build and validate a grammar",
      "    match               Match text against a symbol",
      "",
      "options:",
      "  -h, --help            show this help message and exit",
      "  --version             show program's version number and exit",
      "  --log-level \x7bdebug,info,warn,warning,error\x7d",
      "                        Logging level (default: $BNFMATCH_LOG_LEVEL or",
      "                        warning)",
      "  --config CONFIG       Path to bnfmatch.toml or .bnfmatchrc",
      "  --verbose             Show tracebacks on errors"]
  | command .symbols => joinLines [
      "positional arguments:",
      "  grammar      Grammar file (.bn)",
      "",
      "options:",
      "  -h, --help   show this help message and exit",
      "  --dict FILE  Dictionary file (.bnd) appended to the grammar; may be repeated",
      "  --json       Output as JSON"]
  | command .check => joinLines [
      "positional arguments:",
      "  grammar      Grammar file (.bn)",
      "",
      "options:",
      "  -h, --help   show this help message and exit",
      "  --dict FILE  Dictionary file (.bnd) appended to the grammar; may be repeated"]
  | command .matching => joinLines [
      "positional arguments:",
      "  grammar               Grammar file (.bn)",
      "  symbol                Start symbol, without angle brackets",
      "",
      "options:",
      "  -h, --help            show this help message and exit",
      "  --dict FILE           Dictionary file (.bnd) appended to the grammar; may be",
      "                        repeated",
      "  --text TEXT           Input text",
      "  --input FILE          Read input text from FILE ('-' for stdin)",
      "  --max-depth MAX_DEPTH",
      "                        Override the recursion bound",
      "  --json                Output as JSON"]

def help (f : Form) : String := f.usage ++ "\n" ++ f.details

end Form

end BackusNaur.CommandLine
