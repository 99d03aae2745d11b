import DefineBundle.CommandLine.Arguments

/-!
# Usage

What is printed when the arguments lead to no run: an answer to those who ask for help or for the
version, and a complaint otherwise.
-/
namespace DefineBundle.CommandLine

def versionText : String :=
  "amdpack_cli 0.1.0\n"

def usage : String :=
  "Usage: amdpack [OPTIONS] [INPUTS]...\n"

def helpText : String :=
  usage ++ "
Arguments:
  [INPUTS]...  Entry files or glob patterns

Options:
  -c, --config <CONFIG>
          JSON file with bundler options. Command line flags take precedence
      --cwd <CWD>
      --base-dir <BASE_DIR>
      --root-ns <ROOT_NS>
      --expose <EXPOSE>
      --no-compress
          Print the minified bundle readable
      --version-string <VERSION_STRING>
          Substituted for \x60@@version@@\x60 and printed in the banner
      --release-date <RELEASE_DATE>
  -o, --output <OUTPUT>
          Path of the readable bundle. \x60<output>.min.js\x60 and \x60<output>.dev.js\x60 are
          written next to it
      --no-minified
          Skip \x60<output>.min.js\x60
      --no-dev
          Skip \x60<output>.dev.js\x60
  -f, --force
          Rebuild even when no input changed
      --no-hash
          Leave the fingerprint out of the development bundle
  -v, --verbose...
          More output per occurrence, \x60-vv\x60 includes trace logs
  -s, --silent
          Only report errors
  -h, --help
          Print help
  -V, --version
          Print version
"

namespace Refusal

/-- What is printed for those who ask for it instead of a run. -/
def answer? : Refusal → Option String
  | help => some helpText
  | version => some versionText
  | _ => none

def complaint : Refusal → String
  | unknownArgument => "unexpected argument found"
  | missingArgument => "a required argument was not provided"
  | invalidValue => "a value is required for an option but none was supplied"
  | rejectedValue => "invalid value for an option"
  | conflict => "arguments cannot be used together or repeated"
  | surplusValue => "unexpected value for an option found"
  | help | version => ""

end Refusal

end DefineBundle.CommandLine
