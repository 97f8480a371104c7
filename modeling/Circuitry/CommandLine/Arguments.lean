/-
  Arguments of the command line.

  An invocation is a scope of global options, a command, and a scope of the command's own options and
  words, in which global options may stand as well:

      -v…  --color auto|always|never  --config PATH
      demo NAME  -o PATH  -f text|json
      inspect PATH  -f text|json
      regions PATH

  1. An option is long (`--color never`, `--color=never`) or short (`-f json`, `-fjson`, `-f=json`);
     short ones without a value can be run together (`-vv`).
  2. Behind `--` everything is a word.
  3. An option with a value occurs at most once in a scope.  Of the two scopes the command's wins.
  4. Arguments are taken from left to right, and the first that is amiss ends the reading; so does a
     request for help or for the version.
-/
import Circuitry.Demo
import Circuitry.Settings.Loading

namespace Circuitry.CommandLine

/-! ## What is asked for -/

/-- When reports are colored. -/
inductive ColorChoice where
  /-- Where the error output is a terminal and the settings allow it. -/
  | auto
  | always
  | never
  deriving DecidableEq, Repr

def ColorChoice.ofName? : String → Option ColorChoice
  | "auto" => some .auto
  | "always" => some .always
  | "never" => some .never
  | _ => none

/-- A command with its own options. -/
inductive Action where
  | demo (demo : Demo) (output : Option String) (format : Option Settings.Format)
  | inspect (path : String) (format : Option Settings.Format)
  | regions (path : String)
  deriving DecidableEq, Repr

/-- A complete invocation. -/
structure Invocation where
  color : ColorChoice
  config : Option String
  action : Action
  deriving DecidableEq, Repr

/-- Why there is no invocation. -/
inductive Stop where
  /-- The arguments are amiss. -/
  | misuse
  | help
  | version
  deriving DecidableEq, Repr

/-! ## Scopes -/

/-- A scope: before the command, or behind it. -/
inductive Scope where
  | top
  | demo
  | inspect
  | regions
  deriving DecidableEq, Repr

/-- The scope of a command. -/
def Scope.ofCommand? : String → Option Scope
  | "demo" => some .demo
  | "inspect" => some .inspect
  | "regions" => some .regions
  | _ => none

/-- An option that needs a value. -/
inductive Valued where
  | color
  | config
  | output
  | format
  deriving DecidableEq, Repr

/-- An option. -/
inductive Flag where
  | verbose
  | help
  | version
  | valued (v : Valued)
  deriving DecidableEq, Repr

/-- Whether an option can stand in a scope. -/
def Scope.allows (s : Scope) : Flag → Bool
  | .verbose | .help | .valued .color | .valued .config => true
  | .version => s = .top
  | .valued .output => s = .demo
  | .valued .format => s = .demo || s = .inspect

/-- The option of a long name. -/
def Flag.ofLong? : String → Option Flag
  | "verbose" => some .verbose
  | "help" => some .help
  | "version" => some .version
  | "color" => some (.valued .color)
  | "config" => some (.valued .config)
  | "output" => some (.valued .output)
  | "format" => some (.valued .format)
  | _ => none

/-- The option of a letter. -/
def Flag.ofLetter? : Char → Option Flag
  | 'v' => some .verbose
  | 'h' => some .help
  | 'V' => some .version
  | 'o' => some (.valued .output)
  | 'f' => some (.valued .format)
  | _ => none

/-- An option of a scope. -/
def Scope.known (s : Scope) (f : Option Flag) : Except Stop Flag :=
  match f.filter s.allows with
  | some f => .ok f
  | none => .error .misuse

/-! ## What a scope was given -/

/-- The values of the options in a scope, and its word. -/
structure Given where
  color : Option ColorChoice
  config : Option String
  output : Option String
  format : Option Settings.Format
  word : Option String
  deriving DecidableEq, Repr

namespace Given

def nothing : Given := ⟨none, none, none, none, none⟩

/-- A value for something that has none yet. -/
def once (before : Option α) (value : Option α) : Except Stop (Option α) :=
  match before, value with
  | none, some a => .ok (some a)
  | _, _ => .error .misuse

/-- A path, which must not be empty. -/
def path? (s : String) : Option String := if s = "" then none else some s

/-- Takes the value of an option. -/
def setValue (g : Given) (v : Valued) (s : String) : Except Stop Given :=
  match v with
  | .color => do return { g with color := ← once g.color (ColorChoice.ofName? s) }
  | .config => do return { g with config := ← once g.config (path? s) }
  | .output => do return { g with output := ← once g.output (path? s) }
  | .format => do return { g with format := ← once g.format (Settings.Format.ofName? s) }

/-- Takes the word of a command: the name of a demo, or a path. -/
def setWord (g : Given) (s : Scope) (word : String) : Except Stop Given := do
  let fits := match s with
    | .top => false
    | .demo => (Demo.ofName? word).isSome
    | .inspect | .regions => word ≠ ""
  return { g with word := ← once g.word (if fits then some word else none) }

/-- Takes an option without a value. -/
def setFlag (g : Given) : Flag → Except Stop Given
  | .help => .error .help
  | .version => .error .version
  | .verbose => .ok g
  | .valued _ => .error .misuse

end Given

/-! ## Options -/

/-- Whether an argument is read as an option where a word or value may stand. -/
def isOption (arg : String) : Bool := arg.startsWith "-" && arg ≠ "-"

/-- Splits a long option at its first equals sign. -/
def splitLong (body : List Char) : String × Option String :=
  match body.dropWhile (· ≠ '=') with
  | [] => (String.ofList body, none)
  | _ :: value => (String.ofList (body.takeWhile (· ≠ '=')), some (String.ofList value))

/-- Takes a long option.  One that still lacks its value is answered with the rest. -/
def longOption (s : Scope) (g : Given) (body : List Char) :
    Except Stop (Given × Option Valued) := do
  let (name, value) := splitLong body
  match ← s.known (Flag.ofLong? name), value with
  | .valued v, some value => return (← g.setValue v value, none)
  | .valued v, none => return (g, some v)
  | _, some _ => throw .misuse
  | flag, none => return (← g.setFlag flag, none)

/-- Takes short options run together.  What follows the letter of one with a value is its value,
    without a leading equals sign. -/
def letters (s : Scope) : Given → List Char → Except Stop (Given × Option Valued)
  | g, [] => .ok (g, none)
  | g, c :: rest => do
    match ← s.known (Flag.ofLetter? c), rest with
    | .valued v, [] => return (g, some v)
    | .valued v, '=' :: value => return (← g.setValue v (String.ofList value), none)
    | .valued v, value => return (← g.setValue v (String.ofList value), none)
    | flag, rest => letters s (← g.setFlag flag) rest

/-- Takes an argument that is an option. -/
def option (s : Scope) (g : Given) (arg : String) : Except Stop (Given × Option Valued) :=
  match arg.toList with
  | '-' :: '-' :: body => longOption s g body
  | '-' :: body => letters s g body
  | _ => .error .misuse

/-! ## A scope -/

/-- Takes words. -/
def words (s : Scope) : Given → List String → Except Stop Given
  | g, [] => .ok g
  | g, word :: rest => do words s (← g.setWord s word) rest

/-- Takes the arguments of a scope.  At the top the first word is the command, and it is answered
    together with what follows it. -/
def scope (s : Scope) : Given → List String → Except Stop (Given × List String)
  | g, [] => .ok (g, [])
  | g, arg :: rest =>
    if arg = "--" then do return (← words s g rest, [])
    else if isOption arg then do
      match ← option s g arg, rest with
      | (g, none), rest => scope s g rest
      | (_, some _), [] => throw .misuse
      | (g, some v), value :: rest =>
        if isOption value then throw .misuse else scope s (← g.setValue v value) rest
    else if s = .top then .ok (g, arg :: rest)
    else do scope s (← g.setWord s arg) rest

/-! ## The whole -/

/-- What asking for help on a command amounts to. -/
def helpOn : List String → Stop
  | [] => .help
  | [name] => if name = "help" ∨ (Scope.ofCommand? name).isSome then .help else .misuse
  | _ => .misuse

/-- The command of a scope with its word and options. -/
def action? (s : Scope) (g : Given) : Option Action := do
  let word ← g.word
  match s with
  | .top => none
  | .demo => return .demo (← Demo.ofName? word) g.output g.format
  | .inspect => return .inspect word g.format
  | .regions => return .regions word

/-- The invocation that arguments spell. -/
def read (args : List String) : Except Stop Invocation := do
  match ← scope .top .nothing args with
  | (_, []) => throw .misuse
  | (_, "help" :: rest) => throw (helpOn rest)
  | (outer, command :: rest) =>
    match Scope.ofCommand? command with
    | none => throw .misuse
    | some s =>
      let (inner, _) ← scope s .nothing rest
      match action? s inner with
      | none => throw .misuse
      | some action =>
        return ⟨(inner.color <|> outer.color).getD .auto, inner.config <|> outer.config, action⟩

example : (read ["--color", "never", "demo", "alu", "-fjson", "--color=auto"]).toOption =
    some ⟨.auto, none, .demo .alu none (some .json)⟩ := by decide +kernel

example : (read ["demo", "alu", "--version"]).toOption = none := by decide +kernel

end Circuitry.CommandLine
