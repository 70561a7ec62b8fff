import ControlStream.CommandLine.Options
import ControlStream.Json.Settings
import ControlStream.Json.Snapshot
import ControlStream.Text.Pieces

/-!
# Running from the command line

The input is interpreted, whole or in pieces, by a terminal on a page, and a snapshot of it is
printed.

## Main definitions

* `Environment`: how to read files and the standard input.
* `Outcome`: what is printed and the exit code.
* `runCommandLine`: the outcome of running with some arguments.
-/

namespace ControlStream

/-- The surroundings of a program. What fails gives the reason in words. -/
structure Environment (m : Type → Type) where
  home : Option String
  contentsOf : String → m (Except String (List UInt8))
  standardInput : m (Except String (List UInt8))

structure Outcome where
  exitCode : UInt8
  stdout : String
  stderr : String
  deriving DecidableEq, Repr

namespace Outcome

def success (stdout : String) : Outcome := ⟨0, stdout, ""⟩

def failure (line : String) : Outcome := ⟨1, "", line ++ "\n"⟩

end Outcome

inductive SettingsError
  | io (reason : String)
  | json (e : JsonError)

def SettingsError.message : SettingsError → String
  | io reason => s!"IO error: {reason}"
  | json e => Settings.jsonErrorMessage e

def Settings.ofBytes (bytes : List UInt8) : Except SettingsError Settings :=
  match decodeUtf8? bytes with
  | none => .error (.io "stream did not contain valid UTF-8")
  | some s => (Settings.ofJson s).mapError .json

def defaultSettingsPath (home : String) : String :=
  let path := ".config/termstream/config.json"
  if home.isEmpty then path
  else if home.toList.getLast? = some '/' then home ++ path
  else home ++ "/" ++ path

section

variable {m : Type → Type} [Monad m]

def Environment.loadSettings (env : Environment m) (path : String) :
    m (Except SettingsError Settings) := do
  match ← env.contentsOf path with
  | .error reason => return .error (.io reason)
  | .ok bytes => return Settings.ofBytes bytes

/-- Read the default settings. Without a file that has them everything is standard. -/
def Environment.defaultSettings (env : Environment m) : m Settings := do
  match env.home with
  | none => return .standard
  | some home =>
    match ← env.loadSettings (defaultSettingsPath home) with
    | .ok settings => return settings
    | .error _ => return .standard

def Environment.settings (env : Environment m) (o : Options) : m (Except String Settings) := do
  match o.settings with
  | none => return .ok (← env.defaultSettings)
  | some path =>
    match ← env.loadSettings path with
    | .ok settings => return .ok settings
    | .error e => return .error s!"Error loading config '{path}': {e.message}"

def Environment.input (env : Environment m) (o : Options) : m (Except String (List UInt8)) := do
  match o.input with
  | some path => return (← env.contentsOf path).mapError fun reason =>
      s!"Error reading file '{path}': {reason}"
  | none => return (← env.standardInput).mapError fun reason => s!"Error reading stdin: {reason}"

end

def Options.interpret (o : Options) (settings : Settings) (input : List Char) : Snapshot :=
  let terminal := Terminal.onPage ((Page.empty o.cols).record false) settings
  let terminal :=
    match o.chunk with
    | some n => terminal.writeAll (piecesOf n input)
    | none => terminal.write input
  .ofTerminal MemoryClipboard.contents terminal

def Options.print (o : Options) (s : Snapshot) : String :=
  match o.format with
  | .text => s!"Terminal State ({o.cols} cols):\n" ++ s.text ++ "\n"
  | .json => s.toJson.pretty ++ "\n"

def runCommandLine {m : Type → Type} [Monad m] (env : Environment m) (args : List String) :
    m Outcome := do
  let o := Options.parse args
  if o.help then return .success helpText
  match ← env.settings o with
  | .error line => return .failure line
  | .ok settings =>
    match ← env.input o with
    | .error line => return .failure line
    | .ok bytes =>
      if o.systemClipboard then
        return .failure "--system-clipboard requires the 'clipboard' feature"
      return .success (o.print (o.interpret settings (decodeUtf8Lossy bytes)))

end ControlStream
