import SchemaLint.FilePath

/-!
# Command lines

The words of a command line name a command and give it parameters.  Two parameters, the verbosity
and the configuration file, belong to the program and may stand before or after the command; a
value that stands with the command counts before one that stands with the program, and a value on
the command line before one from a variable.

The value of an option may be attached to it (`--format=json`, `-fjson`, `-f=json`) or be the next
word.  An attached value is checked at once.  A separate value, and the value of a plain word, is
checked when the next parameter begins or when the words end, so that an unknown option in between
is reported first.

* `Parameter`: the parameters, their names and their values.
* `CommandLine`: what a command line asks for.
* `UsageError`: what can be wrong with it.
* `Reading.words`: the words of the program or of one command.
* `CommandLine.read`: the whole command line.
-/

namespace SchemaLint

/-! ## What a command line asks for -/

/-- How results are written. -/
inductive OutputFormat
  /-- Several lines a finding and a summary. -/
  | text
  /-- One line a finding. -/
  | compact
  /-- A JSON value. -/
  | json
  /-- Reports for a reader at a terminal. -/
  | fancy
deriving DecidableEq, Repr

/-- The format of a given name. -/
def OutputFormat.ofName? : String → Option OutputFormat
  | "text" => some .text
  | "compact" => some .compact
  | "json" => some .json
  | "fancy" => some .fancy
  | _ => none

/-- What a check is asked to do. -/
structure CheckOptions where
  /-- What to analyse. -/
  path : FilePath := ⟨"."⟩
  /-- How to write the result. -/
  format : OutputFormat := .text
  /-- The rules that were asked for, as written. -/
  rules : List String := []
  /-- The name of a preset. -/
  preset : Option String := none
  /-- Patterns of files to leave out. -/
  exclude : List String := []
deriving DecidableEq, Repr

/-- A command with its options. -/
inductive Command
  /-- Analyse files. -/
  | check (options : CheckOptions)
  /-- List the rules. -/
  | listRules
  /-- Write a configuration file, over an existing one if forced. -/
  | init (force : Bool)
deriving DecidableEq, Repr

/-- What a command line asks for. -/
structure CommandLine where
  /-- Whether to say more about the run. -/
  verbose : Bool
  /-- The configuration file that was named. -/
  config : Option FilePath
  /-- The command. -/
  command : Command
deriving DecidableEq, Repr

/-- What is wrong with a command line. -/
inductive UsageError
  /-- A word or option that has no place there. -/
  | unexpectedArgument (word : String)
  /-- A word in the place of a command that is none. -/
  | unknownCommand (word : String)
  /-- A parameter without a value. -/
  | missingValue (parameter : String)
  /-- A value that the parameter does not take. -/
  | invalidValue (value parameter : String)
  /-- A parameter given again. -/
  | repeated (parameter : String)
  /-- A value for a parameter that takes none. -/
  | unexpectedValue (value parameter : String)
  /-- No command. -/
  | missingCommand
deriving DecidableEq, Repr

/-- The wording of an error. -/
def UsageError.message : UsageError → String
  | .unexpectedArgument w => "unexpected argument '" ++ w ++ "' found"
  | .unknownCommand w => "unrecognized subcommand '" ++ w ++ "'"
  | .missingValue p => "a value is required for '" ++ p ++ "' but none was supplied"
  | .invalidValue v p => "invalid value '" ++ v ++ "' for '" ++ p ++ "'"
  | .repeated p => "the argument '" ++ p ++ "' cannot be used multiple times"
  | .unexpectedValue v p =>
    "unexpected value '" ++ v ++ "' for '" ++ p ++ "' found; no more were expected"
  | .missingCommand => "'provider-lint' requires a subcommand but one was not provided"

/-- Why reading ends without a command to run. -/
inductive Stop
  /-- Help was asked for. -/
  | help
  /-- The version was asked for. -/
  | version
  /-- Nothing at all was said. -/
  | nothingSaid
  /-- Something is wrong. -/
  | error (e : UsageError)
deriving DecidableEq, Repr

/-! ## Parameters -/

/-- A parameter of the program or of a command. -/
inductive Parameter
  /-- Asks for help. -/
  | help
  /-- Asks for the version. -/
  | version
  /-- Says more about the run. -/
  | verbose
  /-- Names the configuration file. -/
  | config
  /-- Names what to analyse. -/
  | path
  /-- Chooses the output format. -/
  | format
  /-- Chooses rules. -/
  | rules
  /-- Chooses a preset. -/
  | preset
  /-- Leaves files out. -/
  | exclude
  /-- Overwrites. -/
  | force
deriving DecidableEq, Repr

namespace Parameter

/-- The long name of an option; a plain word has none. -/
def long? : Parameter → Option String
  | .help => some "help"
  | .version => some "version"
  | .verbose => some "verbose"
  | .config => some "config"
  | .path => none
  | .format => some "format"
  | .rules => some "rules"
  | .preset => some "preset"
  | .exclude => some "exclude"
  | .force => some "force"

/-- The letter of an option. -/
def short? : Parameter → Option Char
  | .help => some 'h'
  | .version => some 'V'
  | .verbose => some 'v'
  | .config => some 'c'
  | .format => some 'f'
  | .exclude => some 'e'
  | _ => none

/-- The parameter as errors show it. -/
def label : Parameter → String
  | .help => "--help"
  | .version => "--version"
  | .verbose => "--verbose"
  | .config => "--config <CONFIG>"
  | .path => "[PATH]"
  | .format => "--format <FORMAT>"
  | .rules => "--rules <RULES>"
  | .preset => "--preset <PRESET>"
  | .exclude => "--exclude <EXCLUDE>"
  | .force => "--force"

/-- Whether a value belongs to the parameter. -/
def takesValue : Parameter → Bool
  | .help | .version | .verbose | .force => false
  | _ => true

/-- Whether the parameter may be given more than once. -/
def isRepeatable : Parameter → Bool
  | .rules | .exclude => true
  | _ => false

/-- Whether the parameter takes a value: paths are not empty, and a format is a known one. -/
def accepts : Parameter → String → Bool
  | .config, value => !value.isEmpty
  | .path, value => !value.isEmpty
  | .format, value => (OutputFormat.ofName? value).isSome
  | _, _ => true

/-- What is wrong with a value that the parameter does not take. -/
def refusal (p : Parameter) (value : String) : UsageError :=
  if value.isEmpty then .missingValue p.label else .invalidValue value p.label

end Parameter

/-! ## Commands and what may stand with them -/

/-- The name of a command. -/
inductive CommandName
  /-- Analyse files. -/
  | check
  /-- List the rules. -/
  | listRules
  /-- Write a configuration file. -/
  | init
  /-- Explain a command. -/
  | help
deriving DecidableEq, Repr

/-- The command of a given name. -/
def CommandName.ofName? : String → Option CommandName
  | "check" => some .check
  | "list-rules" => some .listRules
  | "init" => some .init
  | "help" => some .help
  | _ => none

/-- What the words at hand belong to: the program, before a command is named, or a command. -/
inductive ArgumentScope
  /-- The program. -/
  | program
  /-- A command. -/
  | command (name : CommandName)
deriving DecidableEq, Repr

namespace ArgumentScope

/-- The options that may stand there. -/
def options : ArgumentScope → List Parameter
  | .program => [.verbose, .config, .help, .version]
  | .command .check => [.format, .rules, .preset, .exclude, .verbose, .config, .help]
  | .command .init => [.force, .verbose, .config, .help]
  | .command _ => [.verbose, .config, .help]

/-- The parameter that a plain word stands for. -/
def plain? : ArgumentScope → Option Parameter
  | .command .check => some .path
  | _ => none

/-- The option of a given long name. -/
def ofLong? (s : ArgumentScope) (name : String) : Option Parameter :=
  s.options.find? fun p => p.long? == some name

/-- The option of a given letter. -/
def ofShort? (s : ArgumentScope) (letter : Char) : Option Parameter :=
  s.options.find? fun p => p.short? == some letter

end ArgumentScope

/-! ## Reading words -/

/-- What has been read of the words of one scope. -/
structure Reading where
  /-- The parameters given so far with their values, in order; the value of one that takes none
  is empty. -/
  given : List (Parameter × String) := []
  /-- A parameter that is not yet checked, and its value if that is there already. -/
  pending : Option (Parameter × Option String) := none
  /-- Whether a double dash has ended the options. -/
  isPlain : Bool := false
  /-- Whether the plain word has been given. -/
  hasPlain : Bool := false
deriving DecidableEq, Repr

namespace Reading

/-- Whether a parameter has been given. -/
def has (r : Reading) (p : Parameter) : Bool :=
  r.given.any fun g => g.1 == p

/-- The values of a parameter in order. -/
def values (r : Reading) (p : Parameter) : List String :=
  (r.given.filter fun g => g.1 == p).map Prod.snd

/-- The value of a parameter. -/
def value? (r : Reading) (p : Parameter) : Option String :=
  (r.values p).head?

/-- Whether the next word is the value of an option. -/
def awaitsValue (r : Reading) : Bool :=
  !r.isPlain && match r.pending with
    | some (_, none) => true
    | _ => false

/-- A reading with one more parameter, if it is complete, not a repeat and has a value it takes. -/
def record (r : Reading) (p : Parameter) (value : Option String) : Except Stop Reading :=
  match value with
  | none =>
    if p.takesValue then .error (.error (.missingValue p.label))
    else if r.has p then .error (.error (.repeated p.label))
    else .ok { r with given := r.given ++ [(p, "")] }
  | some v =>
    if r.has p && !p.isRepeatable then .error (.error (.repeated p.label))
    else if p.accepts v then .ok { r with given := r.given ++ [(p, v)] }
    else .error (.error (p.refusal v))

/-- A reading whose pending parameter has been checked. -/
def settle (r : Reading) : Except Stop Reading :=
  match r.pending with
  | none => .ok r
  | some (p, value) => { r with pending := none }.record p value

/-- A reading after an option that takes no value. -/
def flag (r : Reading) (p : Parameter) : Except Stop Reading := do
  let r ← r.settle
  match p with
  | .help => throw .help
  | .version => throw .version
  | _ => r.record p none

/-- A reading after an option that takes a value, which may be attached to it. -/
def option (r : Reading) (p : Parameter) (attached : Option String) : Except Stop Reading := do
  let r ← r.settle
  match attached with
  | some value => r.record p (some value)
  | none => return { r with pending := some (p, none) }

/-- A reading after a word of two dashes, a name and perhaps a value. -/
def long (scope : ArgumentScope) (r : Reading) (body : List Char) : Except Stop Reading :=
  let (name, attached) :=
    match Text.cutAt? ['='] body with
    | some (name, value) => (String.ofList name, some (String.ofList value))
    | none => (String.ofList body, none)
  match scope.ofLong? name with
  | none => .error (.error (.unexpectedArgument ("--" ++ name)))
  | some p =>
    if p.takesValue then r.option p attached
    else
      match attached with
      | some value => .error (.error (.unexpectedValue value p.label))
      | none => r.flag p

/-- The value that stands in one word with an option's letter. -/
def attachedValue : List Char → Option String
  | [] => none
  | '=' :: value => some (String.ofList value)
  | value => some (String.ofList value)

/-- A reading after a word of a dash and letters, the last perhaps with a value. -/
def short (scope : ArgumentScope) (r : Reading) : List Char → Except Stop Reading
  | [] => .ok r
  | letter :: rest =>
    match scope.ofShort? letter with
    | none => .error (.error (.unexpectedArgument (String.ofList ['-', letter])))
    | some p =>
      if p.takesValue then r.option p (attachedValue rest)
      else do (← r.flag p).short scope rest

/-- What is wrong with a plain word that has no place in a scope. -/
def misplaced (scope : ArgumentScope) (r : Reading) (word : String) : UsageError :=
  match scope with
  | .command _ => .unexpectedArgument word
  | .program =>
    if r.isPlain && (CommandName.ofName? word).isSome then .unexpectedArgument word
    else .unknownCommand word

/-- A reading after a plain word. -/
def plain (scope : ArgumentScope) (r : Reading) (word : String) : Except Stop Reading := do
  match scope.plain?, r.hasPlain with
  | some p, false =>
    let r ← r.settle
    return { r with pending := some (p, some word), hasPlain := true }
  | _, _ => throw (.error (r.misplaced scope word))

/-- A reading after one more word. -/
def word (scope : ArgumentScope) (r : Reading) (word : String) : Except Stop Reading :=
  if r.isPlain then r.plain scope word
  else
    match word.toList with
    | ['-', '-'] => .ok { r with isPlain := true }
    | '-' :: '-' :: body => r.long scope body
    | '-' :: letter :: rest => r.short scope (letter :: rest)
    | _ =>
      match r.pending with
      | some (p, none) => .ok { r with pending := some (p, some word) }
      | _ => r.plain scope word

/-- The command that the next word names, where a command may stand. -/
def command? (scope : ArgumentScope) (r : Reading) (word : String) : Option CommandName :=
  if scope == .program && !r.isPlain && !r.awaitsValue then CommandName.ofName? word else none

/-- A reading after all words of a scope, and the command at which it ends with the words after
that. -/
def words (scope : ArgumentScope) (r : Reading) :
    List String → Except Stop (Reading × Option (CommandName × List String))
  | [] => .ok (r, none)
  | w :: rest =>
    match r.command? scope w with
    | some name => .ok (r, some (name, rest))
    | none => do (← r.word scope w).words scope rest

/-- A reading whose last parameter has been checked, with the configuration file that a variable
names unless the words name one. -/
def finish (fromVariable : Option String) (r : Reading) : Except Stop Reading := do
  let r ← r.settle
  match fromVariable, r.has .config with
  | some value, false =>
    if Parameter.config.accepts value then return r
    else throw (.error (Parameter.config.refusal value))
  | _, _ => return r

/-- The options of a check. -/
def checkOptions (r : Reading) : CheckOptions where
  path := ⟨(r.value? .path).getD "."⟩
  format := ((r.value? .format).bind OutputFormat.ofName?).getD .text
  rules := (r.values .rules).flatMap fun v => (Text.splitAtChar ',' v.toList).map String.ofList
  preset := r.value? .preset
  exclude := r.values .exclude

/-- The command of a name with the options that were read. -/
def command (r : Reading) : CommandName → Except Stop Command
  | .check => .ok (.check r.checkOptions)
  | .listRules => .ok .listRules
  | .init => .ok (.init (r.has .force))
  | .help => .error .help

end Reading

namespace CommandLine

/-- What is said when help on commands is asked for: only one command can be explained. -/
def helpOn : List String → Stop
  | [] => .help
  | w :: rest =>
    if (CommandName.ofName? w).isNone then .error (.unknownCommand w)
    else
      match rest with
      | [] => .help
      | w :: _ => .error (.unknownCommand w)

/-- What a command line asks for, given the configuration file that a variable names. -/
def read (fromVariable : Option String) (words : List String) : Except Stop CommandLine := do
  let (outer, named) ← ({} : Reading).words .program words
  match named with
  | some (.help, rest) => throw (helpOn rest)
  | some (name, rest) =>
    let (inner, _) ← ({} : Reading).words (.command name) rest
    let inner ← inner.finish fromVariable
    let outer ← outer.finish fromVariable
    let config := ((inner.value? .config).or (outer.value? .config)).or fromVariable
    return {
      verbose := inner.has .verbose || outer.has .verbose
      config := config.map FilePath.mk
      command := ← inner.command name }
  | none =>
    let outer ← outer.finish fromVariable
    if outer.given.isEmpty && fromVariable.isNone then throw .nothingSaid
    else throw (.error .missingCommand)

end CommandLine

end SchemaLint
