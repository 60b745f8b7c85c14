set_option autoImplicit false

/- Finding a mark inside a text: cutting a text at the first place the mark stands, asking
whether it stands anywhere, and replacing it everywhere. Places are found from left to right and
never overlap. -/
namespace CompileCommands.Text

/-- The parts before and after the first place where `mark` stands, if it stands anywhere. -/
def cut (mark : List Char) : List Char → Option (List Char × List Char)
  | [] => if mark.isEmpty then some ([], []) else none
  | c :: rest =>
      if mark.isPrefixOf (c :: rest) then some ([], (c :: rest).drop mark.length)
      else (cut mark rest).map fun parts => (c :: parts.1, parts.2)

def occurs (mark text : List Char) : Bool := (cut mark text).isSome

/-- Replaces `mark` by `value` in a text of which the first `skip` characters are already used
up by a replaced place. -/
def replaceFrom (mark value : List Char) (skip : Nat) : List Char → List Char
  | [] => []
  | c :: rest =>
      match skip with
      | skip + 1 => replaceFrom mark value skip rest
      | 0 =>
          if mark.isPrefixOf (c :: rest) then
            value ++ replaceFrom mark value (mark.length - 1) rest
          else c :: replaceFrom mark value 0 rest

/-- Every place where `mark` stands becomes `value`; `mark` is not empty. -/
def replace (mark value text : List Char) : List Char := replaceFrom mark value 0 text

theorem replaceFrom_eq_drop (mark value text : List Char) (skip : Nat) :
    replaceFrom mark value skip text = replace mark value (text.drop skip) := by
  induction text generalizing skip with
  | nil => cases skip <;> rfl
  | cons c rest ih =>
      cases skip with
      | zero => rfl
      | succ skip => simpa [replaceFrom] using ih skip

@[simp] theorem replace_nil (mark value : List Char) : replace mark value [] = [] := rfl

theorem replace_cons_of_not_isPrefixOf (mark value rest : List Char) (c : Char)
    (elsewhere : mark.isPrefixOf (c :: rest) = false) :
    replace mark value (c :: rest) = c :: replace mark value rest := by
  simp [replace, replaceFrom, elsewhere]

/-- The text after the last `mark`, or the whole text if it has none. -/
def afterLast (mark : Char) (text : List Char) : List Char :=
  (text.reverse.takeWhile (· != mark)).reverse

end CompileCommands.Text
