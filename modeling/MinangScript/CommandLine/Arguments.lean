/-! # Arguments of the command line

The arguments name a command, its operands and a choice of switches and parameters. Switches and
parameters have names after two hyphens, some switches also a letter after one hyphen. The value of
a parameter is the next argument, or what follows an equals sign behind its name. After two hyphens
alone every argument is an operand.

Some choices may be made before the name of the command as well as after it; if they are made in
both places, only what comes after counts.
-/

namespace MinangScript

namespace CommandLine

/-- A choice without a value. -/
inductive Switch where
  /-- Tells more about what happens; may be given several times. -/
  | verbose
  | help
  | version
  | lexicalScope
  | runtime
  | init
  deriving Repr, DecidableEq

namespace Switch

def name : Switch → String
  | verbose => "verbose"
  | help => "help"
  | version => "version"
  | lexicalScope => "lexical-scope"
  | runtime => "runtime"
  | init => "init"

/-- The letter of a switch, if it has one. -/
def letter? : Switch → Option Char
  | verbose => some 'v'
  | help => some 'h'
  | version => some 'V'
  | _ => none

end Switch

/-- A choice with a value. -/
inductive Parameter where
  | config | module | format | language
  deriving Repr, DecidableEq

namespace Parameter

def name : Parameter → String
  | config => "config"
  | module => "module"
  | format => "format"
  | language => "language"

/-- The values that a parameter can have. -/
def accepts (p : Parameter) (value : String) : Bool :=
  match p with
  | config => !value.isEmpty
  | format => value == "pretty" || value == "json"
  | _ => true

end Parameter

/-- What may be given in one place. -/
structure Form where
  switches : List Switch
  parameters : List Parameter
  operands : Nat
  deriving Repr, DecidableEq

/-- Why reading the arguments ends before a command is known. -/
inductive EarlyEnd where
  | help | version | misuse
  deriving Repr, DecidableEq

/-- An argument by how it is written. -/
inductive Word where
  | divider
  | long (name : String) (value : Option String)
  | short (letters : List Char)
  | plain (text : String)
  deriving Repr, DecidableEq

namespace Word

/-- The name before an equals sign, and what follows the sign if there is one. -/
def atEquals (text : List Char) : Word :=
  let name := String.ofList (text.takeWhile (· ≠ '='))
  match text.dropWhile (· ≠ '=') with
  | [] => .long name none
  | _ :: value => .long name (some (String.ofList value))

/-- Tells how an argument is written. -/
def ofText (text : String) : Word :=
  match text.toList with
  | ['-', '-'] => .divider
  | '-' :: '-' :: rest => atEquals rest
  | '-' :: letter :: rest => .short (letter :: rest)
  | _ => .plain text

end Word

/-- What has been given in one place. -/
structure Given where
  verbose : Nat := 0
  switches : List Switch := []
  values : List (Parameter × String) := []
  /-- The operands, the last first. -/
  operands : List String := []
  /-- The parameter whose value comes next. -/
  pending : Option Parameter := none
  /-- Whether all that follows are operands. -/
  divided : Bool := false
  deriving Repr, DecidableEq

namespace Given

def value? (g : Given) (p : Parameter) : Option String :=
  g.values.lookup p

def has (g : Given) (s : Switch) : Bool :=
  g.switches.contains s

def addSwitch (g : Given) (s : Switch) : Except EarlyEnd Given :=
  match s with
  | .verbose => .ok { g with verbose := g.verbose + 1 }
  | .help => .error .help
  | .version => .error .version
  | s => if g.has s then .error .misuse else .ok { g with switches := s :: g.switches }

def addValue (g : Given) (p : Parameter) (value : String) : Except EarlyEnd Given :=
  if (g.value? p).isSome ∨ ¬ p.accepts value then .error .misuse
  else .ok { g with values := (p, value) :: g.values, pending := none }

def addOperand (form : Form) (g : Given) (text : String) : Except EarlyEnd Given :=
  if g.operands.length < form.operands then .ok { g with operands := text :: g.operands }
  else .error .misuse

/-- Adds the switch of a letter. -/
def addLetter (form : Form) (g : Given) (letter : Char) : Except EarlyEnd Given :=
  match form.switches.find? (·.letter? == some letter) with
  | some s => g.addSwitch s
  | none => .error .misuse

/-- Adds a switch or a parameter by its name. -/
def addLong (form : Form) (g : Given) (name : String) (value : Option String) :
    Except EarlyEnd Given :=
  match form.switches.find? (·.name == name), form.parameters.find? (·.name == name), value with
  | some s, _, none => g.addSwitch s
  | none, some p, some value => g.addValue p value
  | none, some p, none => .ok { g with pending := some p }
  | _, _, _ => .error .misuse

/-- Adds an argument. A parameter that waits for its value takes only a plain one. -/
def add (form : Form) (g : Given) (argument : String) : Except EarlyEnd Given :=
  if g.divided then g.addOperand form argument
  else
    match Word.ofText argument, g.pending with
    | .plain text, some p => g.addValue p text
    | .plain text, none => g.addOperand form text
    | _, some _ => .error .misuse
    | .divider, none => .ok { g with divided := true }
    | .long name value, none => g.addLong form name value
    | .short letters, none => letters.foldlM (addLetter form) g

/-- Whether the next argument may name a command. -/
def isOpen (g : Given) : Bool :=
  !g.divided && g.pending.isNone

end Given

inductive Format where
  | pretty | json
  deriving Repr, DecidableEq

/-- What becomes of a program that is built. -/
inductive Wrapping where
  /-- Its code alone. -/
  | bare
  /-- A strict module with a name. -/
  | module (name : String)
  /-- Its code after the library of built-in functions. -/
  | helpers
  deriving Repr, DecidableEq

inductive Command where
  | run (file : String) (lexical : Bool)
  | build (input output : String) (wrapping : Wrapping)
  | parse (file : String) (format : Format)
  | tokens (file : String)
  | check (file : String)
  | repl
  | new (directory : String)
  | config (init : Bool) (language : Option String)
  deriving Repr, DecidableEq

inductive Verb where
  | run | build | parse | tokens | check | repl | new | config
  deriving Repr, DecidableEq

namespace Verb

def all : List Verb :=
  [run, build, parse, tokens, check, repl, new, config]

def name : Verb → String
  | run => "run"
  | build => "build"
  | parse => "parse"
  | tokens => "tokens"
  | check => "check"
  | repl => "repl"
  | new => "new"
  | config => "config"

def ofName? (name : String) : Option Verb :=
  all.find? (·.name == name)

/-- What may be given after the name of the command. -/
def form (v : Verb) : Form :=
  let switches : List Switch := match v with
    | run => [.lexicalScope]
    | build => [.runtime]
    | config => [.init]
    | _ => []
  let parameters : List Parameter := match v with
    | build => [.module]
    | parse => [.format]
    | config => [.language]
    | _ => []
  let operands := match v with
    | build => 2
    | repl | config => 0
    | _ => 1
  ⟨.verbose :: .help :: switches, .config :: parameters, operands⟩

/-- How the program is wrapped; a module cannot have the library too. -/
def wrapping? (g : Given) : Option Wrapping :=
  match g.value? .module, g.has .runtime with
  | none, false => some .bare
  | none, true => some .helpers
  | some name, false => some (.module name)
  | some _, true => none

/-- The command of this kind with what was given after its name. -/
def command? (v : Verb) (g : Given) : Option Command :=
  match v, g.operands.reverse with
  | run, [file] => some (.run file (g.has .lexicalScope))
  | build, [input, output] => (wrapping? g).map (.build input output)
  | parse, [file] => some (.parse file (if g.value? .format = some "json" then .json else .pretty))
  | tokens, [file] => some (.tokens file)
  | check, [file] => some (.check file)
  | repl, [] => some .repl
  | new, [directory] => some (.new directory)
  | config, [] => some (.config (g.has .init) (g.value? .language))
  | _, _ => none

end Verb

/-- All that the arguments tell. -/
structure Invocation where
  verbose : Nat
  /-- Where settings are kept, if not in the usual place. -/
  settings : Option String
  command : Command
  deriving Repr, DecidableEq

/-- What may be given before the name of the command. -/
def leadForm : Form :=
  ⟨[.verbose, .help, .version], [.config], 0⟩

/-- Reads the arguments after the name of a command. -/
def readAfter (lead : Given) (v : Verb) (arguments : List String) :
    Except EarlyEnd Invocation := do
  let g ← arguments.foldlM (Given.add v.form) {}
  match g.pending, v.command? g with
  | none, some command =>
    return {
      verbose := if g.verbose = 0 then lead.verbose else g.verbose
      settings := (g.value? .config).or (lead.value? .config)
      command }
  | _, _ => .error .misuse

/-- Whether help can be given: about everything, or about one command. -/
def isHelpTopic : List String → Bool
  | [] => true
  | [name] => (Verb.ofName? name).isSome || name == "help"
  | _ => false

/-- Reads arguments, after those of which `lead` tells. -/
def readFrom (lead : Given) : List String → Except EarlyEnd Invocation
  | [] => .error .misuse
  | argument :: rest =>
    match lead.isOpen, Verb.ofName? argument with
    | true, some v => readAfter lead v rest
    | true, none =>
      if argument = "help" then .error (if isHelpTopic rest then .help else .misuse)
      else do readFrom (← lead.add leadForm argument) rest
    | false, _ => do readFrom (← lead.add leadForm argument) rest

/-- Reads the arguments of the command line. -/
def readArguments (arguments : List String) : Except EarlyEnd Invocation :=
  readFrom {} arguments

end CommandLine

end MinangScript
