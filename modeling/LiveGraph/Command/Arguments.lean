import LiveGraph.Command.Basic
import LiveGraph.Text.Decimal

/-!
# Reading arguments

Options come in a long and a short spelling, with their value attached or in the next argument; some
stand with any command, before it or after it. The value of an option is looked at when the next
option or operand begins, so an argument that means nothing is blamed before a value that does not
fit.
-/

namespace LiveGraph

inductive CommandName
  | resolve
  | parse
  | view
  | stats
  | focus
  | toggle
  | convert
  deriving DecidableEq, Repr

namespace CommandName

def ofText? : String → Option CommandName
  | "resolve" => some resolve
  | "parse" => some parse
  | "view" => some view
  | "stats" => some stats
  | "focus" => some focus
  | "toggle" => some toggle
  | "convert" => some convert
  | _ => none

/-- How many operands a command takes; it needs all of them. -/
def operands : CommandName → Nat
  | resolve | parse | focus => 1
  | view | stats | toggle | convert => 0

end CommandName

/-- What stands for the value of an option. -/
inductive ValueForm
  | none
  | text
  /-- Any text but the empty one. -/
  | path
  /-- A number that fits 64 bits. -/
  | size
  /-- A number that fits 32 bits. -/
  | ordinal
  deriving DecidableEq, Repr

inductive Flag
  | verbose
  | snapshot
  | config
  | scope
  | jsonMode
  | all
  | kind
  | clause
  | sort
  | descending
  | offset
  | limit
  | path
  | line
  | column
  | output
  | help
  | version
  deriving DecidableEq, Repr

namespace Flag

def long : Flag → String
  | verbose => "verbose"
  | snapshot => "snapshot"
  | config => "config"
  | scope => "scope"
  | jsonMode => "json-mode"
  | all => "all"
  | kind => "kind"
  | clause => "where"
  | sort => "sort"
  | descending => "desc"
  | offset => "offset"
  | limit => "limit"
  | path => "path"
  | line => "line"
  | column => "column"
  | output => "output"
  | help => "help"
  | version => "version"

def short? : Flag → Option Char
  | verbose => some 'v'
  | snapshot => some 's'
  | config => some 'c'
  | all => some 'a'
  | kind => some 'k'
  | clause => some 'w'
  | offset => some 'o'
  | limit => some 'l'
  | path => some 'p'
  | line => some 'n'
  | output => some 'o'
  | help => some 'h'
  | version => some 'V'
  | scope | jsonMode | sort | descending | column => Option.none

def form : Flag → ValueForm
  | verbose | jsonMode | all | descending | help | version => .none
  | scope | kind | clause | sort | path => .text
  | snapshot | config | output => .path
  | offset | limit => .size
  | line | column => .ordinal

/-- Only clauses may be given more than once. -/
def repeats : Flag → Bool
  | clause => true
  | _ => false

/-- What may stand with any command. -/
def everywhere : List Flag :=
  [verbose, snapshot, config, scope, jsonMode, help]

/-- What may stand after a command. -/
def ofCommand : CommandName → List Flag
  | .resolve => [all]
  | .parse => []
  | .view => [kind, clause, sort, descending, offset, limit]
  | .stats => []
  | .focus => []
  | .toggle => [path, line, column]
  | .convert => [output]

/-- What a command cannot do without. -/
def required : CommandName → List Flag
  | .view => [kind]
  | .toggle => [path, line]
  | .convert => [output]
  | .resolve | .parse | .stats | .focus => []

/-- What may stand in front of the command, or after it. -/
def known : Option CommandName → List Flag
  | Option.none => everywhere ++ [version]
  | some command => everywhere ++ ofCommand command

end Flag

namespace ValueForm

/-- The number a text stands for. -/
def number? (form : ValueForm) (text : String) : Option Nat :=
  match form with
  | size => Text.boundedNat? 0xffffffffffffffff text
  | ordinal =>
    (Text.int64? text).bind fun i ↦
      if 0 ≤ i.toInt ∧ i.toInt ≤ 0xffffffff then some i.toInt.toNat else Option.none
  | _ => Option.none

def check (form : ValueForm) (text : String) : Except UsageFault Unit :=
  match form with
  | none => .ok ()
  | .text => .ok ()
  | path => if text = "" then .error .missingValue else .ok ()
  | size => if (size.number? text).isSome then .ok () else .error .badValue
  | ordinal => if (ordinal.number? text).isSome then .ok () else .error .badValue

end ValueForm

/-- What was read so far: options with their values, the option whose value is still to be looked
at or to come, and operands. -/
structure ArgumentLine where
  settled : List (Flag × String)
  pending : Option (Flag × Option String)
  operands : List String

namespace ArgumentLine

def empty : ArgumentLine := ⟨[], none, []⟩

/-- Whether the next argument is the value of an option. -/
def awaits (line : ArgumentLine) : Bool :=
  line.pending.any (·.2.isNone)

def value? (line : ArgumentLine) (flag : Flag) : Option String :=
  (line.settled.find? (·.1 = flag)).map (·.2)

def take (line : ArgumentLine) (flag : Flag) (value : String) :
    Except UsageFault ArgumentLine := do
  if !flag.repeats && (line.value? flag).isSome then throw .repeated
  flag.form.check value
  return { line with settled := line.settled ++ [(flag, value)] }

/-- Looks at the value that is pending. -/
def settle (line : ArgumentLine) : Except UsageFault ArgumentLine :=
  match line.pending with
  | none => .ok line
  | some (_, none) => .error .missingValue
  | some (flag, some value) => { line with pending := none }.take flag value

/-- An option without a value. -/
def switch (line : ArgumentLine) (flag : Flag) : Except UsageFault ArgumentLine := do
  let line ← line.settle
  match flag with
  | .help => throw .help
  | .version => throw .version
  | flag => line.take flag ""

/-- An option with its value attached to it, or with a value to come. -/
def begin (line : ArgumentLine) (flag : Flag) (value : Option String) :
    Except UsageFault ArgumentLine := do
  let line ← line.settle
  match value with
  | some value => line.take flag value
  | none => return { line with pending := some (flag, none) }

/-- Reads what follows two dashes: a name, or a name, an equals sign and a value. -/
def long (line : ArgumentLine) (command : Option CommandName) (text : List Char) :
    Except UsageFault ArgumentLine :=
  let name := String.ofList (text.takeWhile (· ≠ '='))
  let value := match text.dropWhile (· ≠ '=') with
    | [] => none
    | _ :: rest => some (String.ofList rest)
  match (Flag.known command).find? (·.long = name) with
  | none => .error .unknownArgument
  | some flag =>
    if flag.form = .none then
      if value.isSome then .error .unneededValue else line.switch flag
    else line.begin flag value

/-- Reads what follows one dash: letters, up to the first that takes the rest for its value. -/
def shorts (command : Option CommandName) :
    ArgumentLine → List Char → Except UsageFault ArgumentLine
  | line, [] => .ok line
  | line, c :: rest =>
    match (Flag.known command).find? (·.short? = some c) with
    | none => .error .unknownArgument
    | some flag =>
      if flag.form = .none then do shorts command (← line.switch flag) rest
      else match rest with
        | [] => line.begin flag none
        | '=' :: value => line.begin flag (some (String.ofList value))
        | value => line.begin flag (some (String.ofList value))

/-- Whether a name stands where a command is expected. -/
def isCommand (arg : String) : Bool :=
  arg = "help" || (CommandName.ofText? arg).isSome

/-- Takes an operand. Before the command there is none to take. -/
def operand (line : ArgumentLine) (command : Option CommandName) (isLast : Bool) (arg : String) :
    Except UsageFault ArgumentLine :=
  match command with
  | none => .error (if isLast && isCommand arg then .unknownArgument else .unknownCommand)
  | some command =>
    if line.operands.length < command.operands then do
      let line ← line.settle
      return { line with operands := line.operands ++ [arg] }
    else .error .unknownArgument

/-- Takes all that follows a double dash for operands. -/
def operandsOnly (command : Option CommandName) :
    ArgumentLine → List String → Except UsageFault ArgumentLine
  | line, [] => .ok line
  | line, arg :: rest => do operandsOnly command (← line.operand command true arg) rest

/-- What asking for help comes to: there is help on the whole and on each command. -/
def helpOn : List String → UsageFault
  | [] => .help
  | [topic] => if isCommand topic then .help else .unknownCommand
  | _ => .unknownCommand

/-- Reads arguments up to a command, if none was read yet, or to the end. -/
def scan (command : Option CommandName) :
    ArgumentLine → List String →
      Except UsageFault (ArgumentLine × Option (CommandName × List String))
  | line, [] => .ok (line, none)
  | line, arg :: rest =>
    let isFree := command.isNone && !line.awaits
    match if isFree then CommandName.ofText? arg else none with
    | some next => .ok (line, some (next, rest))
    | none =>
      if isFree && arg = "help" then .error (helpOn rest)
      else match arg.toList with
        | ['-', '-'] => do return (← operandsOnly command line rest, none)
        | '-' :: '-' :: text => do scan command (← line.long command text) rest
        | '-' :: c :: text => do scan command (← shorts command line (c :: text)) rest
        | _ =>
          match line.pending with
          | some (flag, none) =>
            scan command { line with pending := some (flag, some arg) } rest
          | _ => do scan command (← line.operand command false arg) rest

/-- Ends a line; what its command needs has to be there. -/
def finish (line : ArgumentLine) (command : CommandName) : Except UsageFault ArgumentLine := do
  let line ← line.settle
  if line.operands.length < command.operands then throw .missingArgument
  if (Flag.required command).any fun flag ↦ (line.value? flag).isNone then throw .missingArgument
  return line

def text (line : ArgumentLine) (flag : Flag) : String :=
  (line.value? flag).getD ""

def number? (line : ArgumentLine) (flag : Flag) : Option Nat :=
  (line.value? flag).bind flag.form.number?

/-- The command that a finished line spells. -/
def toCommand (line : ArgumentLine) : CommandName → Command
  | .resolve => .resolve (line.operands.headD "") (line.value? .all).isSome
  | .parse => .parse (line.operands.headD "")
  | .view =>
    .view (line.text .kind)
      ((line.settled.filter (·.1 = .clause)).map (·.2))
      (line.value? .sort) (line.value? .descending).isSome
      ((line.number? .offset).getD 0) (line.number? .limit)
  | .stats => .stats
  | .focus => .focus (line.operands.headD "")
  | .toggle =>
    .toggle ⟨line.text .path, (line.number? .line).getD 0, line.number? .column⟩
  | .convert => .convert (line.text .output)

end ArgumentLine

namespace Invocation

/-- The snapshot file where none is named. -/
def defaultSnapshot : String := "session.dapg"

/-- An invocation whose settings stand before its command or after it, those after it first. -/
def ofLines (before after : ArgumentLine) (command : Command) : Invocation :=
  let value? (flag : Flag) := (after.value? flag).or (before.value? flag)
  { snapshot := (value? .snapshot).getD defaultSnapshot
    config := value? .config
    scope := value? .scope
    asJson := (value? .jsonMode).isSome
    command := command }

/-- The invocation that arguments spell; without a command it is for the statistics. -/
def ofArguments (args : List String) : Except UsageFault Invocation := do
  match ← ArgumentLine.scan none .empty args with
  | (before, none) => return ofLines (← before.settle) .empty .stats
  | (before, some (command, rest)) =>
    let (after, _) ← ArgumentLine.scan (some command) .empty rest
    let after ← after.finish command
    return ofLines (← before.settle) after (after.toCommand command)

end Invocation

end LiveGraph
