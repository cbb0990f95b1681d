/-!
The command line: which commands there are, and how arguments are read. Options may be given as two
arguments or joined by an equals sign, each once unless it collects values.
-/
namespace GridSweep.Command

inductive Line where
  | plan (config : String) (json : Bool)
  | run (config program : String) (arguments : List String) (clean : Bool) (limit : Option Nat)
      (recordFailures : Bool)
  | status (config : String) (metric : Option String) (minimize : Bool)
  | clean (config : String)
  deriving DecidableEq

inductive Refusal where
  | usage
  | help
  deriving DecidableEq

inductive Shape where
  | flag
  | text
  | path
  | count
  /-- Any text, also one that looks like an option; may be repeated. -/
  | collected
  deriving DecidableEq

structure OptionName where
  name : String
  shape : Shape

def debugOption : OptionName := ⟨"debug", .flag⟩
def configOption : OptionName := ⟨"config", .path⟩

def optionsOf (command : String) : Option (List OptionName) :=
  if command = "plan" then some [debugOption, configOption, ⟨"json", .flag⟩]
  else if command = "run" then
    some [debugOption, configOption, ⟨"measure", .path⟩, ⟨"arg", .collected⟩, ⟨"clean", .flag⟩,
      ⟨"limit", .count⟩, ⟨"record-failures", .flag⟩]
  else if command = "status" then
    some [debugOption, configOption, ⟨"metric", .text⟩, ⟨"minimize", .flag⟩]
  else if command = "clean" then some [debugOption, configOption]
  else none

def countLimit : Nat := 0xffffffffffffffff

/-- A count: decimal digits, perhaps after a plus sign, of at most 64 bits. -/
def count? (s : String) : Option Nat :=
  let digits := match s.toList with
    | '+' :: rest => rest
    | cs => cs
  let n := digits.foldl (fun n c => n * 10 + (c.toNat - '0'.toNat)) 0
  if digits.isEmpty || !digits.all Char.isDigit || countLimit < n then none else some n

def accepts (shape : Shape) (value : String) : Bool :=
  match shape with
  | .flag => false
  | .path => !value.isEmpty
  | .count => (count? value).isSome
  | .text | .collected => true

/-- The name and the joined value of an argument that begins with two dashes. -/
def long? (argument : String) : Option (String × Option String) :=
  match argument.toList with
  | '-' :: '-' :: rest =>
    let name := String.ofList (rest.takeWhile (· != '='))
    match rest.dropWhile (· != '=') with
    | _ :: value => some (name, some (String.ofList value))
    | [] => some (name, none)
  | _ => none

/-- Whether an argument begins like an option; a dash alone is a value. -/
def looksLikeOption (argument : String) : Bool :=
  match argument.toList with
  | '-' :: _ :: _ => true
  | _ => false

/-- The values given so far, in reverse; flags have an empty one. -/
abbrev Given := List (String × String)

def give (o : OptionName) (value : String) (given : Given) : Except Refusal Given :=
  if o.shape != .collected && given.any (·.1 == o.name) then .error .usage
  else .ok ((o.name, value) :: given)

def isShortHelp (argument : String) : Bool :=
  match argument.toList with
  | '-' :: 'h' :: _ => true
  | _ => false

inductive Meaning where
  | option (o : OptionName) (value : Option String)
  | help
  /-- Two dashes: no options after this. -/
  | border
  | word
  | unknown

def meaning (options : List OptionName) (argument : String) : Meaning :=
  if argument = "--" then .border
  else match long? argument with
    | some (name, value) =>
      match options.find? (·.name == name) with
      | some o => .option o value
      | none => if name = "help" && value.isNone then .help else .unknown
    | none =>
      if isShortHelp argument then .help
      else if looksLikeOption argument then .unknown
      else .word

def nextValue (o : OptionName) : List String → Option (String × List String)
  | [] => none
  | value :: rest =>
    if o.shape != .collected && looksLikeOption value then none else some (value, rest)

/-- Reads the options of a command to the end; the first argument bounds their number. -/
def readOptions (options : List OptionName) : Nat → List String → Given → Except Refusal Given
  | _, [], given => .ok given
  | 0, _, _ => .error .usage
  | n + 1, argument :: rest, given =>
    match meaning options argument with
    | .help => .error .help
    | .border => if rest.isEmpty then .ok given else .error .usage
    | .word | .unknown => .error .usage
    | .option o joined =>
      if o.shape = .flag then
        if joined.isSome then .error .usage
        else do readOptions options n rest (← give o "" given)
      else match joined with
        | some value => do
          if !accepts o.shape value then .error .usage
          readOptions options n rest (← give o value given)
        | none => match nextValue o rest with
          | none => .error .usage
          | some (value, rest) => do
            if !accepts o.shape value then .error .usage
            readOptions options n rest (← give o value given)

def value? (given : Given) (name : String) : Option String :=
  (given.find? (·.1 == name)).map Prod.snd

def has (given : Given) (name : String) : Bool := given.any (·.1 == name)

def needed (given : Given) (name : String) : Except Refusal String :=
  match value? given name with
  | some value => .ok value
  | none => .error .usage

def Line.ofGiven (command : String) (given : Given) : Except Refusal Line := do
  let config ← needed given "config"
  if command = "plan" then return .plan config (has given "json")
  else if command = "run" then
    let program ← needed given "measure"
    let arguments := (given.reverse.filter (·.1 == "arg")).map Prod.snd
    return .run config program arguments (has given "clean")
      ((value? given "limit").bind count?) (has given "record-failures")
  else if command = "status" then
    if has given "minimize" && !has given "metric" then .error .usage
    else return .status config (value? given "metric") (has given "minimize")
  else return .clean config

/-- The arguments after the word `help`: at most the name of a command. -/
def helpFor : List String → Refusal
  | [] => .help
  | name :: rest =>
    if (name = "help" || (optionsOf name).isSome) && rest.isEmpty then .help else .usage

def Line.ofArguments (arguments : List String) : Except Refusal Line := go false arguments
where
  go (debug : Bool) : List String → Except Refusal Line
    | [] => .error .usage
    | argument :: rest =>
      match meaning [debugOption] argument with
      | .help => .error .help
      | .border | .unknown => .error .usage
      | .option _ joined => if debug || joined.isSome then .error .usage else go true rest
      | .word =>
        match optionsOf argument with
        | some options => do
          Line.ofGiven argument (← readOptions options (rest.length + 1) rest [])
        | none => .error (if argument = "help" then helpFor rest else .usage)

end GridSweep.Command
