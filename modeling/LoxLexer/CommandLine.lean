import LoxLexer.Session

/-!
# The command line

The program takes options and at most one script. Arguments are read from left to right, and the
first one that decides anything wins: a request for help or for the version, or something wrong.
Options are written in full and at most once, and two hyphens end them. With a script the program
runs it, without one it runs its input line by line.

## Main definitions

* `Argument`: what a single argument looks like
* `Options`, `Command`, `Command.parse`: what the arguments ask for
* `UsageError`: what can be wrong with them
* `Program.outcome`: the whole program on its arguments, its input and a store
-/

namespace LoxLexer

/-- When reports are coloured. -/
inductive Colour where
  /-- On a terminal. -/
  | auto
  /-- In any case. -/
  | always
  /-- In no case. -/
  | never
deriving DecidableEq, Repr, Inhabited

/-- The colour choice with a given name. -/
def Colour.ofName? (s : String) : Option Colour :=
  if s = "auto" then some .auto
  else if s = "always" then some .always
  else if s = "never" then some .never
  else none

/-- What a single argument looks like. -/
inductive Argument where
  /-- Two hyphens and a name, with the value behind the first equals sign. -/
  | long (name : String) (value : Option String)
  /-- A hyphen and some letters. -/
  | short (letters : List Char)
  /-- Two hyphens alone. -/
  | endOfOptions
  /-- Anything else, a single hyphen included. -/
  | positional (s : String)
deriving DecidableEq, Repr, Inhabited

/-- Reads a single argument. -/
def Argument.ofString (s : String) : Argument :=
  match s.toList with
  | ['-', '-'] => .endOfOptions
  | '-' :: '-' :: rest =>
    let name := String.ofList (rest.takeWhile (· != '='))
    match rest.dropWhile (· != '=') with
    | [] => .long name none
    | _ :: value => .long name (some (String.ofList value))
  | '-' :: c :: rest => .short (c :: rest)
  | _ => .positional s

/-- What the options ask for. -/
structure Options where
  /-- Diagnostics are shown in one line each. -/
  plain : Bool := false
  /-- When reports are coloured, if that was said. -/
  colour : Option Colour := none
  /-- The script to run. -/
  script : Option String := none
deriving DecidableEq, Repr, Inhabited

/-- What can be wrong with a command line. -/
inductive UsageError where
  /-- There is no such option. -/
  | unknownOption (argument : String)
  /-- The option takes no value. -/
  | unexpectedValue (name : String)
  /-- The option was given before. -/
  | repeated (name : String)
  /-- The option lacks its value. -/
  | missingValue (name : String)
  /-- The option does not take this value. -/
  | invalidValue (name value : String)
  /-- The name of the script is empty. -/
  | emptyScript
  /-- There is a script already. -/
  | extraArgument (argument : String)
deriving DecidableEq, Repr, Inhabited

/-- What a user is told about a wrong command line. -/
def UsageError.message : UsageError → String
  | unknownOption argument => "unknown option: " ++ argument
  | unexpectedValue name => "option takes no value: --" ++ name
  | repeated name => "option given more than once: --" ++ name
  | missingValue name => "option needs a value: --" ++ name
  | invalidValue name value => "invalid value for --" ++ name ++ ": " ++ value
  | emptyScript => "the script name is empty"
  | extraArgument argument => "unexpected argument: " ++ argument

namespace Options

/-- The options with plain diagnostics. -/
def setPlain (o : Options) : Except UsageError Options :=
  if o.plain then .error (.repeated "plain") else .ok { o with plain := true }

/-- The options with a colour choice. -/
def setColour (o : Options) (value : String) : Except UsageError Options :=
  match Colour.ofName? value, o.colour with
  | none, _ => .error (.invalidValue "color" value)
  | some _, some _ => .error (.repeated "color")
  | some c, none => .ok { o with colour := some c }

/-- The options with a script. -/
def setScript (o : Options) (path : String) : Except UsageError Options :=
  match o.script with
  | some _ => .error (.extraArgument path)
  | none => if path = "" then .error .emptyScript else .ok { o with script := some path }

/-- The style that the options ask for. -/
def style (o : Options) : Style :=
  if o.plain then .plain else .rich

/-- Whether reports are coloured, on a terminal or elsewhere. -/
def coloured (o : Options) (terminal : Bool) : Bool :=
  match o.colour.getD .auto with
  | .auto => terminal
  | .always => true
  | .never => false

/-- What the session is asked to do. -/
def step (o : Options) : Session.Step :=
  match o.script with
  | some path => .runFile path
  | none => .prompt

end Options

/-- **What a command line asks for.** -/
inductive Command where
  /-- The help text. -/
  | help
  /-- The version. -/
  | version
  /-- A session. -/
  | start (options : Options)
deriving DecidableEq, Repr, Inhabited

namespace Command

/-- Reads the arguments behind the end of the options. -/
def parsePositional (o : Options) : List String → Except UsageError Command
  | [] => .ok (.start o)
  | path :: rest =>
    match o.setScript path with
    | .ok o => parsePositional o rest
    | .error e => .error e

/-- An argument that can be the value of the option before it. -/
def isValue (s : String) : Bool :=
  match Argument.ofString s with
  | .positional _ => true
  | _ => false

/-- **Reads the arguments** after the options that were already given. -/
def parseFrom (o : Options) : List String → Except UsageError Command
  | [] => .ok (.start o)
  | a :: rest =>
    match Argument.ofString a with
    | .endOfOptions => parsePositional o rest
    | .positional path =>
      match o.setScript path with
      | .ok o => parseFrom o rest
      | .error e => .error e
    | .short letters =>
      if letters.head? = some 'h' then .ok .help
      else if letters.head? = some 'V' then .ok .version
      else .error (.unknownOption a)
    | .long name value =>
      if name = "help" then
        if value.isSome then .error (.unexpectedValue name) else .ok .help
      else if name = "version" then
        if value.isSome then .error (.unexpectedValue name) else .ok .version
      else if name = "plain" then
        if value.isSome then .error (.unexpectedValue name)
        else
          match o.setPlain with
          | .ok o => parseFrom o rest
          | .error e => .error e
      else if name = "color" then
        match value with
        | some v =>
          match o.setColour v with
          | .ok o => parseFrom o rest
          | .error e => .error e
        | none =>
          match rest with
          | v :: rest =>
            if isValue v then
              match o.setColour v with
              | .ok o => parseFrom o rest
              | .error e => .error e
            else .error (.missingValue name)
          | [] => .error (.missingValue name)
      else .error (.unknownOption a)

/-- **Reads a command line.** -/
def parse (arguments : List String) : Except UsageError Command :=
  parseFrom {} arguments

end Command

namespace Program

/-- The line that tells the version. -/
def versionText : String := "loxy 0.1.0\n"

/-- The help text. -/
def helpText : String :=
  "Scan Lox scripts into tokens\n" ++
  "\n" ++
  "Usage: loxy [OPTIONS] [SCRIPT]\n" ++
  "\n" ++
  "Arguments:\n" ++
  "  [SCRIPT]  Script to scan. Starts the prompt when omitted\n" ++
  "\n" ++
  "Options:\n" ++
  "      --plain          Report errors as `[line N] Error: message`\n" ++
  "      --color <COLOR>  When to color diagnostics [default: auto] " ++
  "[possible values: auto, always, never]\n" ++
  "  -h, --help           Print help\n" ++
  "  -V, --version        Print version\n"

/-- The lines of an input, each with its line feed; the last may lack it. -/
def inputLines : List UInt8 → List (List UInt8)
  | [] => []
  | b :: bs =>
    if b == lineFeed then [b] :: inputLines bs
    else
      match inputLines bs with
      | [] => [[b]]
      | line :: lines => (b :: line) :: lines

/-- The session that the options ask for. -/
def session (o : Options) (terminal : Bool) (input : List Read) (store : FileStore) : Session :=
  { style := o.style
    console := { input, coloured := o.coloured terminal }
    store }

/-- **The whole program**: how it ends and what it writes, given its arguments, its input, whether
it reports to a terminal, and where scripts are read from. -/
def outcome (arguments : List String) (input : List UInt8) (terminal : Bool) (store : FileStore) :
    Outcome :=
  match Command.parse arguments with
  | .error e => ⟨.usage, [], Utf8.bytes ("error: " ++ e.message ++ "\n")⟩
  | .ok .help => ⟨.ok, Utf8.bytes helpText, []⟩
  | .ok .version => ⟨.ok, Utf8.bytes versionText, []⟩
  | .ok (.start o) =>
    ((session o terminal ((inputLines input).map .bytes) store).perform o.step).1

end Program

end LoxLexer
