import WeightedSat.Decimal.Reading
import WeightedSat.Schedule

/-!
# Command line arguments

A command line names an instance and either the four parameters of a schedule or the option to
tune them.  Arguments are looked at from left to right:

* `--` makes everything after it positional;
* `--name`, `--name value` and `--name=value` are long options, and each may be given once;
* `-v` and its like are short options, of which several may share a dash;
* everything else, a single dash included, is positional.

An argument that cannot be understood ends the matter at once, and so does the wish to see the
version; what is missing or does not go together is found out at the end.

## Main definitions

* `Invocation`: what is to be done.
* `Command.ofArguments`: the command that the arguments amount to.
-/

namespace WeightedSat.Cli

/-- **Invocation**: a search that is asked for. -/
structure Invocation where
  instancePath : String
  mode : Mode Float
  /-- The file that the summary is appended to. -/
  output : Option String
  /-- The file that the trace is written to. -/
  trace : Option String
  seed : Option Nat
  verbose : Bool

/-- **Command**: what the arguments amount to. -/
inductive Command
  | search (inv : Invocation)
  | version
  | help
  /-- The arguments cannot be understood. -/
  | misuse

/-- **Draft**: what the arguments looked at so far have set. -/
structure Draft where
  instancePath : Option String := none
  initialTemperature : Option Float := none
  alpha : Option Float := none
  minTemperature : Option Float := none
  iterations : Option Nat := none
  autoTune : Bool := false
  output : Option String := none
  trace : Option String := none
  seed : Option Nat := none
  verbose : Bool := false

namespace Draft

/-- A path; the empty text is none. -/
def path? (text : String) : Option String := if text.isEmpty then none else some text

/-- Sets the next positional argument. -/
def positional (text : String) (d : Draft) : Option Draft :=
  if d.instancePath.isNone then
    (path? text).map fun p => { d with instancePath := some p }
  else if d.initialTemperature.isNone then
    (Decimal.float? text.toList).map fun x => { d with initialTemperature := some x }
  else if d.alpha.isNone then
    (Decimal.float? text.toList).map fun x => { d with alpha := some x }
  else if d.minTemperature.isNone then
    (Decimal.float? text.toList).map fun x => { d with minTemperature := some x }
  else if d.iterations.isNone then
    (Text.count? text.toList).map fun n => { d with iterations := some n }
  else none

/-- **Valued option**: an option that takes a value. -/
inductive Valued
  | output
  | trace
  | seed

/-- The long option of a name that takes a value. -/
def valued? (name : String) : Option Valued :=
  if name = "output" then some .output
  else if name = "trace" then some .trace
  else if name = "seed" then some .seed
  else none

/-- Sets an option that takes a value, unless it is set already. -/
def setValued (option : Valued) (text : String) (d : Draft) : Option Draft :=
  match option with
  | .output =>
    if d.output.isSome then none else (path? text).map fun p => { d with output := some p }
  | .trace =>
    if d.trace.isSome then none else (path? text).map fun p => { d with trace := some p }
  | .seed =>
    if d.seed.isSome then none
    else (Text.count? text.toList).map fun n => { d with seed := some n }

/-- Sets the option to tune the schedule, unless it is set already. -/
def setAutoTune (d : Draft) : Option Draft :=
  if d.autoTune then none else some { d with autoTune := true }

/-- Sets the option to show the log, unless it is set already. -/
def setVerbose (d : Draft) : Option Draft :=
  if d.verbose then none else some { d with verbose := true }

/-- The command of a draft that no further argument changes.  The instance is required; the
parameters are required unless they are tuned, and then none of them may be given. -/
def command (d : Draft) : Command :=
  match d.instancePath with
  | none => .misuse
  | some instancePath =>
    let search := fun mode => Command.search {
      instancePath, mode
      output := d.output
      trace := d.trace
      seed := d.seed
      verbose := d.verbose }
    if d.autoTune then
      if d.initialTemperature.isSome then .misuse else search .auto
    else
      match d.initialTemperature, d.alpha, d.minTemperature, d.iterations with
      | some initialTemperature, some alpha, some minTemperature, some iterations =>
        search (.explicit {
          initialTemperature, alpha, minTemperature, iterationsPerTemperature := iterations })
      | _, _, _, _ => .misuse

end Draft

/-- The effect of the letters after a single dash. -/
def shortOptions : List Char → Draft → Except Command Draft
  | [], d => .ok d
  | c :: cs, d =>
    if c = 'v' then
      match d.setVerbose with
      | some d => shortOptions cs d
      | none => .error .misuse
    else if c = 'V' then .error .version
    else if c = 'h' then .error .help
    else .error .misuse

/-- The effect of a long option that stands by itself. -/
def longFlag (name : String) (d : Draft) : Except Command Draft :=
  let result :=
    if name = "auto-tune" then d.setAutoTune
    else if name = "verbose" then d.setVerbose
    else none
  if name = "version" then .error .version
  else if name = "help" then .error .help
  else
    match result with
    | some d => .ok d
    | none => .error .misuse

/-- The parts of a long option, without its dashes, before and after the first `=`. -/
def splitOption (text : List Char) : String × Option String :=
  let name := String.ofList (text.takeWhile (· ≠ '='))
  match text.dropWhile (· ≠ '=') with
  | [] => (name, none)
  | _ :: value => (name, some (String.ofList value))

/-- Whether an argument is an option rather than a value. -/
def looksLikeOption (text : String) : Bool :=
  match text.toList with
  | ['-'] => false
  | c :: _ => c == '-'
  | [] => false

/-- Sets the positional arguments in order. -/
def positionals : List String → Draft → Command
  | [], d => d.command
  | text :: rest, d =>
    match d.positional text with
    | some d => positionals rest d
    | none => .misuse

/-- The command that the arguments amount to, given what earlier ones have set. -/
def commandFrom (d : Draft) : List String → Command
  | [] => d.command
  | text :: rest =>
    match text.toList with
    | ['-', '-'] => positionals rest d
    | '-' :: '-' :: long =>
      let (name, value) := splitOption long
      match Draft.valued? name, value with
      | some option, some value =>
        match d.setValued option value with
        | some d => commandFrom d rest
        | none => .misuse
      | some option, none =>
        -- The value is the next argument, which must not look like an option itself.
        match rest with
        | [] => .misuse
        | value :: rest =>
          if looksLikeOption value then .misuse
          else
            match d.setValued option value with
            | some d => commandFrom d rest
            | none => .misuse
      | none, some _ => .misuse
      | none, none =>
        match longFlag name d with
        | .ok d => commandFrom d rest
        | .error c => c
    | '-' :: c :: cs =>
      match shortOptions (c :: cs) d with
      | .ok d => commandFrom d rest
      | .error c => c
    | _ =>
      match d.positional text with
      | some d => commandFrom d rest
      | none => .misuse

/-- **Command**: what a command line asks for.  Without any argument it asks for nothing that can
be done. -/
def Command.ofArguments (args : List String) : Command :=
  commandFrom {} args

end WeightedSat.Cli
