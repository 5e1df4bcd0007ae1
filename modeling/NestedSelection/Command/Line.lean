/-! # Command lines

The words of a command line are read in two levels: options for all commands, then the name of a
command and its own options, among which those for all commands may stand as well.
-/

namespace NestedSelection

inductive Command where
  | generate (output : String)
  | relations (table : String)
  | compile (table selection : String) (strict : Bool)
deriving DecidableEq, Repr

structure CommandLine where
  /-- The file of the schema, unless the settings are to tell it. -/
  schema : Option String
  command : Command
deriving DecidableEq, Repr

namespace CommandLine

/-- Why a command line names nothing to do. -/
inductive Stop where
  /-- Help was asked for. -/
  | help
  | misuse
deriving DecidableEq, Repr

inductive Flag where
  | verbose
  | quiet
  | help
  | strict
  | schema
  | output
  | table
  | selection
deriving DecidableEq, Repr

/-- What may follow the name of an option. -/
inductive Operand where
  | nothing
  | text
  /-- A path, which is not empty. -/
  | path
deriving DecidableEq, Repr

namespace Flag

def long : Flag → String
  | .verbose => "verbose"
  | .quiet => "quiet"
  | .help => "help"
  | .strict => "strict"
  | .schema => "schema"
  | .output => "output"
  | .table => "table"
  | .selection => "selection"

def short? : Flag → Option Char
  | .verbose => some 'v'
  | .quiet => some 'q'
  | .help => some 'h'
  | .strict => none
  | .schema => some 's'
  | .output => some 'o'
  | .table => some 't'
  | .selection => none

def operand : Flag → Operand
  | .verbose => .nothing
  | .quiet => .nothing
  | .help => .nothing
  | .strict => .nothing
  | .schema => .path
  | .output => .path
  | .table => .text
  | .selection => .text

def common : List Flag := [.schema, .verbose, .quiet, .help]

end Flag

/-- The options given so far, with their operands. -/
abbrev Given := List (Flag × String)

/-- Takes in an option. Each may be given once. -/
def enter (given : Given) (flag : Flag) (operand : String) : Except Stop Given :=
  if (List.lookup flag given).isSome then .error .misuse
  else if flag.operand = .path && operand.isEmpty then .error .misuse
  else .ok (given ++ [(flag, operand)])

def enterBare (given : Given) (flag : Flag) : Except Stop Given :=
  if flag = .help then .error .help else enter given flag ""

/-- What is still to come of an option with an operand. -/
inductive Pending where
  | nothing
  /-- The operand is to be the next word. -/
  | awaits (flag : Flag)
  /-- The operand is read and not yet taken in. -/
  | holds (flag : Flag) (operand : String)

/-- The options given so far, and what is pending. -/
abbrev Reading := Given × Pending

/-- Takes in the option that is pending. -/
def settle : Reading → Except Stop Given
  | (given, .nothing) => .ok given
  | (_, .awaits _) => .error .misuse
  | (given, .holds flag operand) => enter given flag operand

/-- Letters behind one dash. The operand of an option may follow its letter, with or without `=`. -/
def letters (known : List Flag) (given : Given) : List Char → Except Stop Reading
  | [] => .ok (given, .nothing)
  | c :: rest =>
    match known.find? fun f => f.short? == some c with
    | none => .error .misuse
    | some flag =>
      if flag.operand = .nothing then
        match enterBare given flag with
        | .error e => .error e
        | .ok given => letters known given rest
      else
        match rest with
        | [] => .ok (given, .awaits flag)
        | '=' :: operand => (enter given flag (String.ofList operand)).map (·, .nothing)
        | operand => (enter given flag (String.ofList operand)).map (·, .nothing)

/-- A name behind two dashes, perhaps with an operand after `=`. -/
def long (known : List Flag) (given : Given) (word : List Char) : Except Stop Reading :=
  let name := String.ofList (word.takeWhile (· ≠ '='))
  match known.find? fun f => f.long == name with
  | none => .error .misuse
  | some flag =>
    match word.dropWhile (· ≠ '=') with
    | [] =>
      if flag.operand = .nothing then (enterBare given flag).map (·, .nothing)
      else .ok (given, .awaits flag)
    | _ :: operand =>
      if flag.operand = .nothing then .error .misuse
      else (enter given flag (String.ofList operand)).map (·, .nothing)

inductive Word where
  /-- Two dashes, after which there are no options. -/
  | options
  | long (name : List Char)
  | letters (letters : List Char)
  | plain

def Word.of (word : String) : Word :=
  match word.toList with
  | ['-', '-'] => .options
  | '-' :: '-' :: name => .long name
  | '-' :: c :: rest => .letters (c :: rest)
  | _ => .plain

/--
The options up to the first word that is none, and that word with those after it. The last operand
before it may still be pending.
-/
def level (known : List Flag) (r : Reading) : List String → Except Stop (Reading × List String)
  | [] => (settle r).map fun given => ((given, .nothing), [])
  | word :: rest =>
    match r.2, Word.of word with
    | .awaits flag, .plain => level known (r.1, .holds flag word) rest
    | .awaits _, _ => .error .misuse
    | _, .plain => .ok (r, word :: rest)
    | _, .options =>
      if rest.isEmpty then (settle r).map fun given => ((given, .nothing), []) else .error .misuse
    | _, .long name =>
      match settle r with
      | .error e => .error e
      | .ok given =>
        match long known given name with
        | .error e => .error e
        | .ok r => level known r rest
    | _, .letters l =>
      match settle r with
      | .error e => .error e
      | .ok given =>
        match letters known given l with
        | .error e => .error e
        | .ok r => level known r rest

inductive CommandName where
  | generate
  | relations
  | compile
deriving DecidableEq, Repr

namespace CommandName

def text : CommandName → String
  | .generate => "generate"
  | .relations => "relations"
  | .compile => "compile"

def values : List CommandName := [.generate, .relations, .compile]

def flags : CommandName → List Flag
  | .generate => .output :: Flag.common
  | .relations => .table :: Flag.common
  | .compile => .table :: .selection :: .strict :: Flag.common

/-- The file that code is written to unless another is named. -/
def standardOutput : String := "src/schema.rs"

def command? (name : CommandName) (given : Given) : Option Command :=
  let get (flag : Flag) : Option String := List.lookup flag given
  match name with
  | .generate => some (.generate ((get .output).getD standardOutput))
  | .relations => (get .table).map .relations
  | .compile => do
    return .compile (← get .table) (← get .selection) (get .strict).isSome

end CommandName

/-- The word that asks for help about the commands named after it. -/
def helpWord : String := "help"

def isHelpAbout : List String → Bool
  | [] => true
  | [name] => name == helpWord || CommandName.values.any fun c => c.text == name
  | _ => false

/-- The options of a command, which are all that follows its name. -/
def ownOptions (name : CommandName) (words : List String) : Except Stop Given :=
  match level name.flags ([], .nothing) words with
  | .error e => .error e
  | .ok ((given, _), []) => .ok given
  | .ok (_, _ :: _) => .error .misuse

/--
Reads the words of a command line. The schema named for the command itself counts. An option
pending before the name of a command is taken in last, so that help about the command comes first.
-/
def read (words : List String) : Except Stop CommandLine :=
  match level Flag.common ([], .nothing) words with
  | .error e => .error e
  | .ok (_, []) => .error .misuse
  | .ok (r, word :: rest) =>
    if word = helpWord then .error (if isHelpAbout rest then .help else .misuse)
    else
      match CommandName.values.find? fun c => c.text == word with
      | none => .error .misuse
      | some name =>
        match ownOptions name rest, settle r with
        | .error e, _ => .error e
        | .ok _, .error e => .error e
        | .ok own, .ok given =>
          match name.command? own with
          | none => .error .misuse
          | some command =>
            .ok ⟨List.lookup .schema own <|> List.lookup .schema given, command⟩

end CommandLine

end NestedSelection
