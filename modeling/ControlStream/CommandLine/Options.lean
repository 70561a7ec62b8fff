import ControlStream.Text.Numeral

/-!
# Command line options

## Main definitions

* `Options`: what the arguments ask for.
* `Options.parse`: read the arguments. None of them is an error: what is not understood is left
  out.
* `helpText`: the text that explains the options.
-/

namespace ControlStream

inductive OutputFormat
  | text
  | json
  deriving DecidableEq, Repr

structure Options where
  cols : Nat
  /-- The number of characters in a delivery, if the input is not delivered whole. -/
  chunk : Option Nat
  /-- The file to read, if it is not the standard input. -/
  input : Option String
  /-- The file with the settings, if it is not the default one. -/
  settings : Option String
  format : OutputFormat
  help : Bool
  systemClipboard : Bool
  deriving DecidableEq, Repr

namespace Options

def standard : Options := ⟨80, none, none, none, .text, false, false⟩

def maxSize : Nat := Nat.pow 2 64 - 1

/-- The width a text gives, or 80 if it is not a size. -/
def readCols (s : String) : Nat := (parseNat? maxSize s.toList).getD 80

def readChunk (s : String) : Option Nat := (parseNat? maxSize s.toList).filter (0 < ·)

/-- An argument that is not an option names the input file, unless there is one. -/
def addPlain (o : Options) (arg : String) : Options :=
  if o.input.isNone && arg.toList.head? != some '-' then { o with input := some arg } else o

/-- Read arguments one after the other. An option that lacks its value is left out. -/
def parseOnto (o : Options) : List String → Options
  | [] => o
  | arg :: args =>
    match arg with
    | "-w" | "--cols" => valued (fun value => { o with cols := readCols value }) args
    | "-c" | "--chunk" => valued (fun value => { o with chunk := readChunk value }) args
    | "-f" | "--file" => valued (fun value => { o with input := some value }) args
    | "--config" => valued (fun value => { o with settings := some value }) args
    | "--system-clipboard" => parseOnto { o with systemClipboard := true } args
    | "-j" | "--json" => parseOnto { o with format := .json } args
    | "-t" | "--text" => parseOnto { o with format := .text } args
    | "-h" | "--help" => parseOnto { o with help := true } args
    | arg => parseOnto (o.addPlain arg) args
where
  valued (use : String → Options) : List String → Options
    | [] => o
    | value :: args => parseOnto (use value) args

def parse (args : List String) : Options := standard.parseOnto args

end Options

def helpLines : List String := [
  "Termstream Headless Runner",
  "",
  "Usage: termstream-headless [OPTIONS] [INPUT_FILE]",
  "",
  "Options:",
  "  -w, --cols <N>       Set document width (default: 80)",
  "  -c, --chunk <N>      Deliver input in chunks of N characters",
  "  -f, --file <PATH>    Read input from file",
  "      --config <PATH>  Load configuration from a JSON file",
  "      --system-clipboard  Send OSC 52 writes to the desktop clipboard",
  "  -j, --json           Output snapshot as JSON",
  "  -t, --text           Output snapshot as text (default)",
  "  -h, --help           Show this help message",
  "",
  "If no input file is specified, reads from stdin.",
  "Without --config, ~/.config/termstream/config.json is used if present.",
  "",
  "Examples:",
  "  printf '\\x1b]0;title\\x07Hello' | termstream-headless",
  "  termstream-headless -c 1 --json input.txt"]

def helpText : String := String.join (helpLines.map (· ++ "\n"))

end ControlStream
