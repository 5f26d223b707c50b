import Custody.Check.Settings
import Custody.Json.Basic

/-!
# Command lines

A command line is a subcommand and its arguments, or, without one, the arguments of a
check. Arguments are read from left to right and the first problem counts.
`--name value` and `--name=value` give an option its value, `-o` is short for
`--output`, and everything after `--` is a path.

A command's arguments are a `Grammar`: what each long and each short name does, and what
a word without a name does. How words are told apart is the same for all commands and is
said once, in `classify` and `read`; a grammar only has effects on what has been read so
far. The baseline command takes all arguments of a check and one more, and gets them by
lifting the effects.

Nothing is said about what was wrong with a command line: it is answered with the usage,
and the exit code tells.
-/

set_option autoImplicit false

namespace Custody.CommandLine

inductive Format where
  | pretty
  | json
  | github
deriving DecidableEq, Repr, Inhabited

namespace Format

def name : Format → String
  | pretty => "pretty"
  | json => "json"
  | github => "github"

def ofName? : String → Option Format
  | "pretty" => some pretty
  | "json" => some json
  | "github" => some github
  | _ => none

end Format

structure CheckArgs where
  /-- The files with the program; standard input if there are none. -/
  paths : List String := []
  /-- `pretty` if it is not given. -/
  format? : Option Format := none
  config : Option String := none
  treatAsFatal : Bool := false
  coverage : Option Coverage := none
  jobs : Option Nat := none
  baseline : Option String := none
  /-- Any diagnostic makes the command fail. -/
  denyWarnings : Bool := false
deriving DecidableEq, Repr, Inhabited

def CheckArgs.format (args : CheckArgs) : Format := args.format?.getD .pretty

structure BaselineArgs where
  check : CheckArgs := {}
  output : Option String := none
deriving DecidableEq, Repr, Inhabited

/-- What is to be done. -/
inductive Command where
  /-- A check, with or without its subcommand written. -/
  | check (named : Bool) (args : CheckArgs)
  | baseline (args : BaselineArgs)
  | listKinds
  | explain (kind : String)
deriving DecidableEq, Repr, Inhabited

/-- Why a command line is not a command. Asking for help or the version is no mistake,
and leaves another exit code than one. -/
inductive Refusal where
  /-- It asks for help. -/
  | help
  /-- It asks for the version. -/
  | version
  | usage
deriving DecidableEq, Repr, Inhabited

/-! ## Arguments -/

/-- What an argument with a name does to what has been read. A flag has no value and an
option has one, and which of them a name is decides how the next word is read. -/
inductive Effect (σ : Type) where
  /-- It is answered instead of the command. -/
  | answer (refusal : Refusal)
  | flag (act : σ → Except Refusal σ)
  | option (act : σ → String → Except Refusal σ)

/-- The arguments that a command takes. A name for which there is no effect is refused,
wherever it stands. -/
structure Grammar (σ : Type) where
  long : String → Option (Effect σ)
  short : Char → Option (Effect σ)
  positional : σ → String → Except Refusal σ

inductive Reading (σ : Type) where
  /-- All further words are positional. -/
  | escape
  | positional
  | refused (refusal : Refusal)
  /-- An argument that is complete. -/
  | complete (act : σ → Except Refusal σ)
  /-- An option whose value is the next word. -/
  | awaiting (act : σ → String → Except Refusal σ)

namespace Effect

variable {σ : Type}

/-- A named argument with the value attached to it, if any. Only options take a
value. -/
def reading (value : Option String) : Option (Effect σ) → Reading σ
  | some (answer refusal) => if value.isSome then .refused .usage else .refused refusal
  | some (flag act) => if value.isSome then .refused .usage else .complete act
  | some (option act) =>
    match value with
    | some value => .complete (act · value)
    | none => .awaiting act
  | none => .refused .usage

/-- A short argument with the text after its letter, which for an option is its value;
an equals sign before that does not count. What is answered at once is answered whatever
the text. -/
def shortReading (text : List Char) : Option (Effect σ) → Reading σ
  | some (answer refusal) => .refused refusal
  | effect =>
    reading (match text with
      | [] => none
      | '=' :: value => some (String.ofList value)
      | value => some (String.ofList value)) effect

end Effect

namespace Grammar

variable {σ : Type}

/-- What a word is to a command. A dash alone is positional; all other words that start
with one are names, or are taken for names. -/
def classify (grammar : Grammar σ) (word : String) : Reading σ :=
  match word.toList with
  | ['-', '-'] => .escape
  | '-' :: '-' :: text =>
    let name := text.takeWhile (· != '=')
    let value := match text.drop name.length with
      | [] => none
      | _ :: value => some (String.ofList value)
    Effect.reading value (grammar.long (String.ofList name))
  | '-' :: letter :: text => Effect.shortReading text (grammar.short letter)
  | _ => .positional

/-- Whether a word can be the value of the option before it: it does not look like an
argument of its own. -/
def isValue (word : String) : Bool :=
  match word.toList with
  | '-' :: _ :: _ => false
  | _ => true

def read (grammar : Grammar σ) : σ → List String → Except Refusal σ
  | state, [] => .ok state
  | state, word :: rest =>
    match grammar.classify word with
    | .escape => rest.foldlM grammar.positional state
    | .positional => do read grammar (← grammar.positional state word) rest
    | .refused refusal => .error refusal
    | .complete act => do read grammar (← act state) rest
    | .awaiting act =>
      match rest with
      | value :: rest =>
        if isValue value then do read grammar (← act state value) rest else .error .usage
      | [] => .error .usage

end Grammar

/-! ## Values -/

/-- A value that may be given once. To give it again is a mistake, even with the same
value. -/
def once {α : Type} (known : Option α) (value : Option α) : Except Refusal (Option α) :=
  match known, value with
  | none, some value => .ok (some value)
  | _, _ => .error .usage

def path? (text : String) : Option String := if text.isEmpty then none else some text

/-- The number that decimal digits spell, with a plus sign or without, if it fits a
word. -/
def number? (text : String) : Option Nat :=
  let digits := match text.toList with
    | '+' :: digits => digits
    | digits => digits
  if digits.isEmpty || !digits.all Char.isDigit then none
  else
    let n := digits.foldl (fun n c => 10 * n + (c.toNat - '0'.toNat)) 0
    if n ≤ Json.maxWord64 then some n else none

/-! ## Commands -/

namespace CheckArgs

def long : String → Option (Effect CheckArgs)
  | "format" => some <| .option fun args text =>
    (once args.format? (Format.ofName? text)).map ({ args with format? := · })
  | "config" => some <| .option fun args text =>
    (once args.config (path? text)).map ({ args with config := · })
  | "scope" => some <| .option fun args text =>
    (once args.coverage (Coverage.ofName? text)).map ({ args with coverage := · })
  | "jobs" => some <| .option fun args text =>
    (once args.jobs (number? text)).map ({ args with jobs := · })
  | "baseline" => some <| .option fun args text =>
    (once args.baseline (path? text)).map ({ args with baseline := · })
  | "treat-as-fatal" => some <| .flag fun args =>
    if args.treatAsFatal then .error .usage else .ok { args with treatAsFatal := true }
  | "deny-warnings" => some <| .flag fun args =>
    if args.denyWarnings then .error .usage else .ok { args with denyWarnings := true }
  | _ => none

def addPath (args : CheckArgs) (text : String) : Except Refusal CheckArgs :=
  match path? text with
  | some path => .ok { args with paths := args.paths ++ [path] }
  | none => .error .usage

end CheckArgs

/-- A grammar that also knows how to ask for help. -/
def withHelp {σ : Type} (grammar : Grammar σ) : Grammar σ :=
  { grammar with
    long := fun name => if name = "help" then some (.answer .help) else grammar.long name
    short := fun letter => if letter = 'h' then some (.answer .help) else grammar.short letter }

/-- A grammar that also knows how to ask for the version. -/
def withVersion {σ : Type} (grammar : Grammar σ) : Grammar σ :=
  { grammar with
    long := fun name => if name = "version" then some (.answer .version) else grammar.long name
    short := fun letter => if letter = 'V' then some (.answer .version) else grammar.short letter }

def checkGrammar : Grammar CheckArgs :=
  withHelp ⟨CheckArgs.long, fun _ => none, CheckArgs.addPath⟩

def outputOption : Effect BaselineArgs :=
  .option fun args text => (once args.output (path? text)).map ({ args with output := · })

/-- An effect on the arguments of a check, within those of the baseline command. What is
answered instead of a command stays the same. -/
def Effect.onCheck : Effect CheckArgs → Effect BaselineArgs
  | .answer refusal => .answer refusal
  | .flag act => .flag fun args => (act args.check).map ({ args with check := · })
  | .option act => .option fun args text => (act args.check text).map ({ args with check := · })

def baselineGrammar : Grammar BaselineArgs :=
  withHelp
    { long := fun name =>
        if name = "output" then some outputOption else (CheckArgs.long name).map Effect.onCheck
      short := fun letter => if letter = 'o' then some outputOption else none
      positional := fun args text => (args.check.addPath text).map ({ args with check := · }) }

def emptyGrammar : Grammar Unit := withHelp ⟨fun _ => none, fun _ => none, fun _ _ => .error .usage⟩

def wordGrammar : Grammar (Option String) :=
  withHelp ⟨fun _ => none, fun _ => none, fun known text => once known (some text)⟩

def subcommands : List String := ["check", "baseline", "list-kinds", "explain", "help"]

/-- What the words after `help` ask for: the help of a subcommand, or of all. -/
def helpFor : List String → Refusal
  | [] => .help
  | [name] => if name ∈ subcommands then .help else .usage
  | _ => .usage

/-- The command that a command line, without the name of the program, stands for. A
subcommand is one only as its first word. -/
def parse : List String → Except Refusal Command
  | "check" :: rest => (checkGrammar.read {} rest).map (.check true)
  | "baseline" :: rest => (baselineGrammar.read {} rest).map .baseline
  | "list-kinds" :: rest => (emptyGrammar.read () rest).map fun _ => .listKinds
  | "explain" :: rest =>
    match wordGrammar.read none rest with
    | .ok (some kind) => .ok (.explain kind)
    | .ok none => .error .usage
    | .error refusal => .error refusal
  | "help" :: rest => .error (helpFor rest)
  | rest => ((withVersion checkGrammar).read {} rest).map (.check false)

end Custody.CommandLine
