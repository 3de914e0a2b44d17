import ChatTint.Command.Arguments

/-!
# What the command says about itself

* `versionText`, `helpText` — the texts that are asked for by `--version` and
  `--help`.
* `ArgumentError.message` — what is wrong with a command line, in words.
* `Interruption.output`, `Interruption.exitCode` — the text on standard output and
  the exit code when a command line is not read to its end.
-/

namespace ChatTint

/-- The version of the command. -/
def versionText : String := "mcansi 0.3.0\n"

/-- The explanation of the options. -/
def helpText : String :=
  String.intercalate "\n"
    ["Compile §-codes and <tag> markup to ANSI escape sequences.",
     "",
     "Text is taken from the arguments, joined with spaces. Without arguments",
     "standard input is compiled line by line.",
     "",
     "Usage: mcansi [OPTIONS] [TEXT]...",
     "",
     "Arguments:",
     "  [TEXT]...  Text to compile",
     "",
     "Options:",
     "  -l, --legacy          Use the 16-color palette instead of 24-bit color",
     "      --output MODE     Output format: auto, term or text (default: auto)",
     "      --check           Report whether the input holds legacy codes (exit 1 if not)",
     "      --max-passes N    Pass ceiling for text that does not parse as markup (default: 8)",
     "  -v, --verbose         Log pipeline decisions to stderr",
     "  -h, --help            Print help",
     "  -V, --version         Print version",
     ""]

/-- What is wrong with a command line, in words. -/
def ArgumentError.message : ArgumentError → String
  | .unknown argument => "unexpected argument '" ++ String.ofList argument ++ "' found"
  | .missingValue option => "a value is required for '--" ++ String.ofList option.name ++ "'"
  | .unknownPolicy value => "invalid value '" ++ String.ofList value ++ "' for '--output'"
  | .invalidCount value => "invalid value '" ++ String.ofList value ++ "' for '--max-passes'"
  | .repeated name => "the argument '--" ++ String.ofList name ++ "' cannot be used multiple times"
  | .unexpectedValue flag => "the argument '--" ++ String.ofList flag.name ++ "' takes no value"

namespace Interruption

/-- The text on standard output. -/
def output : Interruption → String
  | .error _ => ""
  | .help => helpText
  | .version => versionText

/-- The exit code. -/
def exitCode : Interruption → Nat
  | .error _ => 2
  | .help => 0
  | .version => 0

end Interruption
end ChatTint
