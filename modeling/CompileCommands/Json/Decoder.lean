import CompileCommands.Json.Scan

set_option autoImplicit false

/- The JSON decoder. A value is read from the front of a text together with a rest that is shorter,
which is also why the recursion ends. Between the parts of arrays and objects there may be blanks;
a comma is always followed by a further part. Arrays and objects within each other take room, and only
so many of them can be open at once. -/
namespace CompileCommands.Json

/-- What is left of a text after something was read from its front. -/
abbrev Rest (text : List Char) := { rest : List Char // rest.length < text.length }

/-- A value without parts that is no string: one with a name of its own, or a number. -/
def scanAtom (text : List Char) : Except Fault (Value × Rest text) :=
  match named : scanNamed? text with
  | some (value, rest) => .ok (value, ⟨rest, scanNamed?_length_lt named⟩)
  | none =>
      match numbered : scanNumber? text with
      | none => .error (.malformed .value text.length)
      | some (number, rest) =>
          match number.value with
          | .error fault => .error fault
          | .ok value => .ok (value, ⟨rest, scanNumber?_length_lt numbered⟩)

mutual

/-- The value at the front of a text, when there is room for `depth` arrays and objects. -/
def scanValue (depth : Nat) (text : List Char) : Except Fault (Value × Rest text) :=
  match text with
  | [] => .error (.malformed .value 0)
  | c :: after =>
      if c = '"' then
        match read : scanString after with
        | .error fault => .error fault
        | .ok (value, rest) =>
            .ok (.string value, ⟨rest, Nat.lt_succ_of_lt (scanString_length_lt read)⟩)
      else if c = '{' then
        match depth with
        | 0 => .error (.exceeded (.depth .object))
        | depth + 1 =>
            have bound : (skipSpace after).length < after.length + 1 :=
              Nat.lt_succ_of_le (skipSpace_length_le after)
            match opened : skipSpace after with
            | '}' :: rest =>
                .ok (.object [], ⟨rest, Nat.lt_succ_of_lt (length_lt_of_skipSpace opened)⟩)
            | _ =>
                match scanMembers depth (skipSpace after) with
                | .error fault => .error fault
                | .ok (members, ⟨rest, shorter⟩) =>
                    .ok (.object (Table.ofPairs members), ⟨rest, Nat.lt_trans shorter bound⟩)
      else if c = '[' then
        match depth with
        | 0 => .error (.exceeded (.depth .array))
        | depth + 1 =>
            have bound : (skipSpace after).length < after.length + 1 :=
              Nat.lt_succ_of_le (skipSpace_length_le after)
            match opened : skipSpace after with
            | ']' :: rest =>
                .ok (.array [], ⟨rest, Nat.lt_succ_of_lt (length_lt_of_skipSpace opened)⟩)
            | _ =>
                match scanItems depth (skipSpace after) with
                | .error fault => .error fault
                | .ok (items, ⟨rest, shorter⟩) =>
                    .ok (.array items, ⟨rest, Nat.lt_trans shorter bound⟩)
      else scanAtom (c :: after)
termination_by (text.length, 0)

/-- The items of an array from the first one that is still to be read, up to the bracket. -/
def scanItems (depth : Nat) (text : List Char) : Except Fault (List Value × Rest text) :=
  match scanValue depth text with
  | .error fault => .error fault
  | .ok (item, ⟨after, shorter⟩) =>
      match next : skipSpace after with
      | ']' :: rest =>
          .ok ([item], ⟨rest, Nat.lt_trans (length_lt_of_skipSpace next) shorter⟩)
      | ',' :: rest =>
          have bound : (skipSpace rest).length < text.length :=
            Nat.lt_of_le_of_lt (skipSpace_length_le rest)
              (Nat.lt_trans (length_lt_of_skipSpace next) shorter)
          match scanItems depth (skipSpace rest) with
          | .error fault => .error fault
          | .ok (items, ⟨rest, shorter⟩) =>
              .ok (item :: items, ⟨rest, Nat.lt_trans shorter bound⟩)
      | rest => .error (.malformed .comma rest.length)
termination_by (text.length, 1)

/-- The members of an object from the first one that is still to be read, up to the brace. -/
def scanMembers (depth : Nat) (text : List Char) :
    Except Fault (List (String × Value) × Rest text) :=
  match text with
  | '"' :: after =>
      match named : scanString after with
      | .error fault => .error fault
      | .ok (name, afterName) =>
          match colon : skipSpace afterName with
          | ':' :: afterColon =>
              have small : (skipSpace afterColon).length < after.length + 1 := by
                have first := scanString_length_lt named
                have second := length_lt_of_skipSpace colon
                have third := skipSpace_length_le afterColon
                omega
              match scanValue depth (skipSpace afterColon) with
              | .error fault => .error fault
              | .ok (value, ⟨afterValue, shorter⟩) =>
                  match next : skipSpace afterValue with
                  | '}' :: rest =>
                      .ok ([(name, value)], ⟨rest, by
                        have after := length_lt_of_skipSpace next
                        simp only [List.length_cons]
                        omega⟩)
                  | ',' :: rest =>
                      have bound : (skipSpace rest).length < after.length + 1 := by
                        have first := length_lt_of_skipSpace next
                        have second := skipSpace_length_le rest
                        omega
                      match scanMembers depth (skipSpace rest) with
                      | .error fault => .error fault
                      | .ok (members, ⟨rest, shorter⟩) =>
                          .ok ((name, value) :: members, ⟨rest, Nat.lt_trans shorter bound⟩)
                  | rest => .error (.malformed .comma rest.length)
          | rest => .error (.malformed .colon rest.length)
  | rest => .error (.malformed .propertyName rest.length)
termination_by (text.length, 0)

end

/-- How many arrays and objects can be open at once, which is up to the machine. There is always room
for an array of objects. -/
structure Headroom where
  levels : Nat
  two_le : 2 ≤ levels

/-- What a stack of the usual size leaves to a decoder. -/
def Headroom.usual : Headroom := ⟨990, by decide⟩

/-- The value that a whole text stands for. -/
def scanDocument (depth : Nat) (text : List Char) : Except Fault Value :=
  match text with
  | '\uFEFF' :: _ => .error (.malformed .byteOrderMark text.length)
  | _ =>
      match scanValue depth (skipSpace text) with
      | .error fault => .error fault
      | .ok (value, rest) =>
          match skipSpace rest.val with
          | [] => .ok value
          | extra => .error (.malformed .extraData extra.length)

def Fault.located (text : List Char) : Fault → DecodeError
  | .malformed complaint left => .malformed complaint (locate text (text.length - left))
  | .exceeded excess => .exceeded excess

def decode (headroom : Headroom) (text : List Char) : Except DecodeError Value :=
  match scanDocument headroom.levels text with
  | .error fault => .error (fault.located text)
  | .ok value => .ok value

end CompileCommands.Json
