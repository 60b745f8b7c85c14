import CompileCommands.Json.Fault
import CompileCommands.Text.Blank
import CompileCommands.Text.Digits
import CompileCommands.Text.Quoted

set_option autoImplicit false

/- Version numbers of packages: an epoch, the numbers of the release, and marks for versions before
it, after it, under development and built locally. Several spellings stand for one version; the
order is that of keys. -/
namespace CompileCommands

/-- The stages before a release. -/
inductive Stage where
  | alpha
  | beta
  | candidate
  deriving DecidableEq, Repr

def Stage.rank : Stage → Nat
  | .alpha => 0
  | .beta => 1
  | .candidate => 2

inductive LocalPart where
  | word (text : String)
  | number (value : Nat)
  deriving DecidableEq, Repr

structure Version where
  epoch : Nat
  release : List Nat
  stage : Option (Stage × Nat)
  post : Option Nat
  development : Option Nat
  localParts : List LocalPart
  deriving DecidableEq, Repr

namespace Version

inductive Fault where
  | invalid (text : String)
  | tooManyDigits (count : Nat)
  deriving DecidableEq, Repr

def Fault.message : Fault → String
  | .invalid text => "Invalid version: " ++ Text.quoted text
  | .tooManyDigits count => Json.tooManyDigitsMessage count

/-- A version as it is spelled, with the digits of its numbers. A missing number is no digits. -/
structure Spelling where
  epoch : List Char
  release : List (List Char)
  stage : Option (Stage × List Char)
  post : Option (List Char)
  development : Option (List Char)
  localParts : List (List Char)

def isSeparator (c : Char) : Bool := c == '.' || c == '-' || c == '_'

def skipSeparator : List Char → List Char
  | [] => []
  | c :: rest => if isSeparator c then rest else c :: rest

/-- The first of some words that a text begins with, and the text after it. -/
def word? {α : Type} (words : List (String × α)) (text : List Char) : Option (α × List Char) :=
  match words.find? fun entry => entry.1.toList.isPrefixOf text with
  | some (spelling, meaning) => some (meaning, text.drop spelling.toList.length)
  | none => none

def digitsOf (text : List Char) : List Char × List Char :=
  (text.takeWhile Char.isDigit, text.dropWhile Char.isDigit)

/-- A mark is a word with an optional number, each after an optional separator. -/
def mark? {α : Type} (words : List (String × α)) (text : List Char) :
    Option ((α × List Char) × List Char) :=
  match word? words (skipSeparator text) with
  | some (meaning, rest) =>
      let number := digitsOf (skipSeparator rest)
      some ((meaning, number.1), number.2)
  | none => none

def stageWords : List (String × Stage) :=
  [("alpha", .alpha), ("a", .alpha), ("beta", .beta), ("b", .beta), ("preview", .candidate),
    ("pre", .candidate), ("c", .candidate), ("rc", .candidate)]

def postWords : List (String × Unit) := [("post", ()), ("rev", ()), ("r", ())]

def developmentWords : List (String × Unit) := [("dev", ())]

theorem digitsOf_length_le (text : List Char) : (digitsOf text).2.length ≤ text.length :=
  (List.dropWhile_sublist Char.isDigit).length_le

/-- The numbers of a release, each but the first after a point. -/
def releaseFrom (text : List Char) : List (List Char) × List Char :=
  match text with
  | '.' :: rest =>
      if (digitsOf rest).1.isEmpty then ([], '.' :: rest)
      else
        let others := releaseFrom (digitsOf rest).2
        ((digitsOf rest).1 :: others.1, others.2)
  | text => ([], text)
termination_by text.length
decreasing_by exact Nat.lt_succ_of_le (digitsOf_length_le rest)

/-- A number right after a hyphen marks a version after the release, as the words do. -/
def post? (text : List Char) : Option (List Char × List Char) :=
  let hyphened : Option (List Char × List Char) :=
    match text with
    | '-' :: rest => if (digitsOf rest).1.isEmpty then none else some (digitsOf rest)
    | _ => none
  match hyphened with
  | some found => some found
  | none => (mark? postWords text).map fun found => (found.1.2, found.2)

/-- The parts of a local version: letters and digits between separators, none of them empty. -/
def localPartsFrom (part : List Char) : List Char → Option (List (List Char))
  | [] => if part.isEmpty then none else some [part]
  | c :: rest =>
      if isSeparator c then
        if part.isEmpty then none else (localPartsFrom [] rest).map (part :: ·)
      else if c.isAlphanum then localPartsFrom (part ++ [c]) rest
      else none

def localParts? : List Char → Option (List (List Char))
  | [] => some []
  | c :: rest => if c = '+' then localPartsFrom [] rest else none

/-- The spelling of a version in lower case, without blanks around it. -/
def spelling? (text : List Char) : Option Spelling :=
  let unmarked :=
    match text with
    | 'v' :: rest => rest
    | _ => text
  let first := digitsOf unmarked
  let (epoch, text) : List Char × List Char :=
    match first with
    | (_ :: _, '!' :: rest) => (first.1, rest)
    | _ => ([], unmarked)
  let head := digitsOf text
  if head.1.isEmpty then none
  else
    let release := releaseFrom head.2
    let (stage, text) :=
      match mark? stageWords release.2 with
      | some found => (some found.1, found.2)
      | none => (none, release.2)
    let (post, text) :=
      match post? text with
      | some found => (some found.1, found.2)
      | none => (none, text)
    let (development, text) :=
      match mark? developmentWords text with
      | some found => (some found.1.2, found.2)
      | none => (none, text)
    (localParts? text).map fun parts =>
      { epoch := epoch
        release := head.1 :: release.1
        stage := stage
        post := post
        development := development
        localParts := parts }

def digitsValue (digits : List Char) : Nat :=
  Text.ofDigits (digits.map fun c => c.toNat - 0x30)

def isNumber (part : List Char) : Bool := part.all Char.isDigit

/-- The digits of every number of a version, from left to right. -/
def Spelling.numbers (spelling : Spelling) : List (List Char) :=
  spelling.epoch :: spelling.release ++ (spelling.stage.map (·.2)).toList ++
    spelling.post.toList ++ spelling.development.toList ++ spelling.localParts.filter isNumber

def Spelling.version (spelling : Spelling) : Version where
  epoch := digitsValue spelling.epoch
  release := spelling.release.map digitsValue
  stage := spelling.stage.map fun stage => (stage.1, digitsValue stage.2)
  post := spelling.post.map digitsValue
  development := spelling.development.map digitsValue
  localParts := spelling.localParts.map fun part =>
    if isNumber part then .number (digitsValue part) else .word (String.ofList part)

def parse (text : String) : Except Fault Version :=
  match spelling? ((Text.strip text.toList).map Char.toLower) with
  | none => .error (.invalid text)
  | some spelling =>
      match spelling.numbers.find? fun digits => Json.digitLimit < digits.length with
      | some digits => .error (.tooManyDigits digits.length)
      | none => .ok spelling.version

/-- Zeros at the end of a release do not count. -/
def significantRelease (version : Version) : List Nat :=
  (version.release.reverse.dropWhile (· == 0)).reverse

/-- Versions under development come before the stages of their release, stages before the release
itself. -/
def stageKey (version : Version) : List Nat :=
  match version.stage with
  | some (stage, number) => [1, stage.rank, number]
  | none => if version.post.isNone && version.development.isSome then [0] else [2]

def postKey (version : Version) : List Nat :=
  match version.post with
  | none => [0]
  | some number => [1, number]

def developmentKey (version : Version) : List Nat :=
  match version.development with
  | some number => [0, number]
  | none => [1]

/-- Words come before numbers. -/
def LocalPart.compare : LocalPart → LocalPart → Ordering
  | .word first, .word second => Ord.compare first second
  | .word _, .number _ => .lt
  | .number _, .word _ => .gt
  | .number first, .number second => Ord.compare first second

/-- Lists are compared by their first difference; a beginning comes before the whole. -/
def compareLists {α : Type} (compareItems : α → α → Ordering) : List α → List α → Ordering
  | [], [] => .eq
  | [], _ :: _ => .lt
  | _ :: _, [] => .gt
  | x :: xs, y :: ys => (compareItems x y).then (compareLists compareItems xs ys)

def compare (first second : Version) : Ordering :=
  let numbers := compareLists (Ord.compare (α := Nat))
  (Ord.compare first.epoch second.epoch).then <|
    (numbers first.significantRelease second.significantRelease).then <|
    (numbers first.stageKey second.stageKey).then <|
    (numbers first.postKey second.postKey).then <|
    (numbers first.developmentKey second.developmentKey).then <|
    compareLists LocalPart.compare first.localParts second.localParts

/-- Whether a version is not older than another one. -/
def meets (version least : Version) : Bool := compare version least != .lt

end Version

end CompileCommands
