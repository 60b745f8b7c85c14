import CompileCommands.CommandLine.WholeNumber
import CompileCommands.Text.Quoted
import CompileCommands.Text.Replace

set_option autoImplicit false

/- The arguments of the program: the graph, at least one target and options. Long options may be
shortened as long as one option is meant, and given their value after an equals sign; short options
may stand together, the last of them with its value right behind. Two hyphens alone end the
options. -/
namespace CompileCommands.CommandLine

inductive Switch where
  | help
  | version
  | output
  | copt
  | cxxopt
  | executionRoot
  | workspaceRoot
  | jobs
  | noColor
  | verbose
  deriving DecidableEq, Repr

namespace Switch

def spellings : Switch → List String
  | .help => ["-h", "--help"]
  | .version => ["--version"]
  | .output => ["-o", "--output"]
  | .copt => ["--copt"]
  | .cxxopt => ["--cxxopt"]
  | .executionRoot => ["--execution-root"]
  | .workspaceRoot => ["--workspace-root"]
  | .jobs => ["-j", "--jobs"]
  | .noColor => ["--no-color"]
  | .verbose => ["--verbose", "-v"]

def all : List Switch :=
  [.help, .version, .output, .copt, .cxxopt, .executionRoot, .workspaceRoot, .jobs, .noColor,
    .verbose]

theorem mem_all (switch : Switch) : switch ∈ all := by cases switch <;> decide

def takesValue : Switch → Bool
  | .output | .copt | .cxxopt | .executionRoot | .workspaceRoot | .jobs => true
  | .help | .version | .noColor | .verbose => false

/-- How messages name an option. -/
def display (switch : Switch) : String := "/".intercalate switch.spellings

/-- Every spelling with its option, in the order in which options are listed. -/
def spellingTable : List (List Char × Switch) :=
  all.flatMap fun switch => switch.spellings.map fun spelling => (spelling.toList, switch)

def ofSpelling? (spelling : List Char) : Option Switch :=
  (spellingTable.find? fun entry => entry.1 == spelling).map (·.2)

end Switch

/-- What an option is given. Two hyphens where the value would stand withhold it: the option counts
as given, but whatever needs the value fails. -/
inductive Given (α : Type) where
  | withheld
  | value (value : α)
  deriving DecidableEq, Repr

namespace Given

variable {α : Type}

def isWithheld : Given α → Bool
  | .withheld => true
  | .value _ => false

def getD (default : α) : Given α → α
  | .withheld => default
  | .value given => given

def ofText (text : String) : Given String := if text = "--" then .withheld else .value text

end Given

structure Options where
  graph : String
  targets : List String
  output : Given String
  copts : List (Given String)
  cxxopts : List (Given String)
  executionRoot : Option (Given String)
  workspaceRoot : Option (Given String)
  jobs : Given Int
  noColor : Bool
  verbose : Bool
  deriving DecidableEq, Repr

/-- Why the program ends before it does anything. -/
inductive Stop where
  | help
  | version
  | usage (reason : String)
  deriving DecidableEq, Repr

/-- An option may have its value attached, as part of the same argument. -/
inductive Argument where
  | plain (text : String)
  | separator
  | option (switch : Switch) (short : Bool) (attached : Option (List Char))
  | unknown (text : String)

namespace Argument

def isOption : Argument → Bool
  | .option .. | .unknown _ => true
  | .plain _ | .separator => false

/-- The text of an argument that is not an option. -/
def plainText : Argument → String
  | .plain text => text
  | .separator => "--"
  | .option .. => ""
  | .unknown text => text

/-- An option and the value after an equals sign. -/
def markedParts (text : List Char) : List Char × Option (List Char) :=
  match Text.cut ['='] text with
  | some (spelling, value) => (spelling, some value)
  | none => (text, none)

/-- The options that a text with two hyphens can mean, with the full spelling of each. -/
def longMatches (text : List Char) : List (List Char × Argument) :=
  let parts := markedParts text
  (Switch.spellingTable.filter fun entry => parts.1.isPrefixOf entry.1).map fun entry =>
    (entry.1, .option entry.2 (entry.1.length == 2) parts.2)

/-- The options that a text with one hyphen can mean: a short one with its value behind it. -/
def shortMatches (text : List Char) : List (List Char × Argument) :=
  (Switch.spellingTable.filter fun entry => entry.1 == text.take 2).map fun entry =>
    (entry.1, .option entry.2 true (some (text.drop 2)))

def abbreviations (text : List Char) : List (List Char × Argument) :=
  match text with
  | '-' :: '-' :: _ => longMatches text
  | _ => shortMatches text

/-- Tells options from values. -/
def ofText (argument : String) : Except Stop Argument :=
  let text := argument.toList
  if text.head? != some '-' || text.length == 1 then .ok (.plain argument)
  else
    match Switch.ofSpelling? text with
    | some switch => .ok (.option switch (text.length == 2) none)
    | none =>
        let parts := markedParts text
        match parts.2, Switch.ofSpelling? parts.1 with
        | some attached, some switch =>
            .ok (.option switch (parts.1.length == 2) (some attached))
        | _, _ =>
            match abbreviations text with
            | [only] => .ok only.2
            | [] =>
                if looksNegative text || text.contains ' ' then .ok (.plain argument)
                else .ok (.unknown argument)
            | several =>
                .error (.usage ("ambiguous option: " ++ argument ++ " could match " ++
                  ", ".intercalate (several.map fun entry => String.ofList entry.1)))

/-- Reads the arguments up to the one that ends the options; all others are values. -/
def ofTexts : List String → Except Stop (List Argument)
  | [] => .ok []
  | text :: rest =>
      if text = "--" then .ok (.separator :: rest.map .plain)
      else do
        let first ← ofText text
        let others ← ofTexts rest
        return first :: others

end Argument

/-- An option as it is to be applied. -/
structure Use where
  switch : Switch
  value : String

/-- The options of one argument, and whether the value of the last is the argument after it. -/
structure Reading where
  uses : List Use
  takesNext : Bool

def switchFault (switch : Switch) (reason : String) : Stop :=
  .usage ("argument " ++ switch.display ++ ": " ++ reason)

def unwantedValue (switch : Switch) (value : List Char) : Stop :=
  switchFault switch ("ignored explicit argument " ++ Text.quoted (String.ofList value))

/-- Reads what is attached to an option. A short option without a value may have others behind it,
each by its letter. -/
def readAttached (switch : Switch) (short : Bool) : List Char → Except Stop Reading
  | [] =>
      if switch.takesValue then .ok ⟨[⟨switch, ""⟩], false⟩
      else .error (unwantedValue switch [])
  | c :: rest =>
      if switch.takesValue then .ok ⟨[⟨switch, String.ofList (c :: rest)⟩], false⟩
      else if !short then .error (unwantedValue switch (c :: rest))
      else
        match Switch.ofSpelling? ['-', c] with
        | none => .error (unwantedValue switch (c :: rest))
        | some next =>
            let read : Except Stop Reading :=
              if rest.isEmpty then .ok ⟨[⟨next, ""⟩], next.takesValue⟩
              else readAttached next true rest
            read.map fun reading => { reading with uses := ⟨switch, ""⟩ :: reading.uses }

def readSwitch (switch : Switch) (short : Bool) (attached : Option (List Char)) :
    Except Stop Reading :=
  match attached with
  | some value => readAttached switch short value
  | none => .ok ⟨[⟨switch, ""⟩], switch.takesValue⟩

/-- What has been read so far. -/
structure Progress where
  options : Options
  hasGraph : Bool
  hasTargets : Bool
  extra : List String

namespace Progress

def start : Progress where
  options := {
    graph := ""
    targets := []
    output := .value "compile_commands.json"
    copts := []
    cxxopts := []
    executionRoot := none
    workspaceRoot := none
    jobs := .value 1
    noColor := false
    verbose := false }
  hasGraph := false
  hasTargets := false
  extra := []

def applyJobs (options : Options) : Given String → Except Stop Options
  | .withheld => .ok { options with jobs := .withheld }
  | .value text =>
      match wholeNumber? text.toList with
      | some jobs => .ok { options with jobs := .value jobs }
      | none => .error (switchFault .jobs ("invalid int value: " ++ Text.quoted text))

def apply (options : Options) (use : Use) : Except Stop Options :=
  let given := Given.ofText use.value
  match use.switch with
  | .help => .error .help
  | .version => .error .version
  | .output => .ok { options with output := given }
  | .copt => .ok { options with copts := options.copts ++ [given] }
  | .cxxopt => .ok { options with cxxopts := options.cxxopts ++ [given] }
  | .executionRoot => .ok { options with executionRoot := some given }
  | .workspaceRoot => .ok { options with workspaceRoot := some given }
  | .jobs => applyJobs options given
  | .noColor => .ok { options with noColor := true }
  | .verbose => .ok { options with verbose := true }

def isSeparator : Argument → Bool
  | .separator => true
  | _ => false

/-- The arguments of the graph, and those after it: separators may stand around its one value. -/
def splitGraph (run : List Argument) : Option (List Argument × List Argument) :=
  match run.dropWhile isSeparator with
  | [] => none
  | value :: rest =>
      some (run.takeWhile isSeparator ++ value :: rest.takeWhile isSeparator,
        rest.dropWhile isSeparator)

/-- The values of some arguments: the first pair of hyphens is taken away. -/
def values (arguments : List Argument) : List String :=
  (arguments.map Argument.plainText).erase "--"

def takeTargets (progress : Progress) (run : List Argument) : Progress :=
  if progress.hasTargets || run.all isSeparator then
    { progress with extra := progress.extra ++ run.map Argument.plainText }
  else
    { progress with
      options := { progress.options with targets := values run }
      hasTargets := true }

/-- Takes a run of arguments that are not options: the first value is the graph, and all others of
the first run that has them are the targets. -/
def takeRun (progress : Progress) (run : List Argument) : Progress :=
  if progress.hasGraph then progress.takeTargets run
  else
    match splitGraph run with
    | none => { progress with extra := progress.extra ++ run.map Argument.plainText }
    | some (graph, rest) =>
        takeTargets
          { progress with
            options := { progress.options with graph := (values graph).headD "" }
            hasGraph := true }
          rest

/-- Gives the last option of a reading its value. -/
def supply (value : String) : List Use → List Use
  | [] => []
  | [use] => [{ use with value := value }]
  | use :: rest => use :: supply value rest

def lastSwitch (uses : List Use) (first : Switch) : Switch :=
  ((uses.getLast?).map (·.switch)).getD first

/-- Takes an option; `next` is the argument after it. The answer tells whether that was used. -/
def takeSwitch (progress : Progress) (switch : Switch) (short : Bool)
    (attached : Option (List Char)) (next : Option Argument) : Except Stop (Progress × Bool) := do
  let reading ← readSwitch switch short attached
  let uses ←
    if reading.takesNext then
      match next with
      | some (.plain text) => .ok (supply text reading.uses)
      | _ => .error (switchFault (lastSwitch reading.uses switch) "expected one argument")
    else .ok reading.uses
  let options ← uses.foldlM apply progress.options
  return ({ progress with options := options }, reading.takesNext)

/-- Takes runs of values and options in turn. -/
def takeAll (progress : Progress) (arguments : List Argument) : Except Stop Progress :=
  let run := arguments.takeWhile (!·.isOption)
  let progress := if run.isEmpty then progress else progress.takeRun run
  match _rest : arguments.dropWhile (!·.isOption) with
  | [] => .ok progress
  | .option switch short attached :: later =>
      match progress.takeSwitch switch short attached later.head? with
      | .error stop => .error stop
      | .ok (progress, usedNext) => takeAll progress (if usedNext then later.drop 1 else later)
  | other :: later => takeAll { progress with extra := progress.extra ++ [other.plainText] } later
termination_by arguments.length
decreasing_by
  all_goals
    have bound := (List.dropWhile_sublist (!·.isOption) (l := arguments)).length_le
    rw [_rest, List.length_cons] at bound
    try split
    all_goals (try simp only [List.length_drop]); omega

/-- The graph and the targets have to be given, and nothing may be left over. -/
def finish (progress : Progress) : Except Stop Options :=
  let missing :=
    (if progress.hasGraph then [] else ["GRAPH.json"]) ++
      (if progress.hasTargets then [] else ["TARGET"])
  if !missing.isEmpty then
    .error (.usage ("the following arguments are required: " ++ ", ".intercalate missing))
  else if !progress.extra.isEmpty then
    .error (.usage ("unrecognized arguments: " ++ " ".intercalate progress.extra))
  else .ok progress.options

end Progress

def Options.parse (arguments : List String) : Except Stop Options := do
  let arguments ← Argument.ofTexts arguments
  (← Progress.start.takeAll arguments).finish

end CompileCommands.CommandLine
