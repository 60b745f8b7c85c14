import CompileCommands.Description
import CompileCommands.Proofs.Text.Utf8

set_option autoImplicit false

/- The text that is read from a file: that of which the file holds the bytes, with line feeds for the
other line ends. -/
namespace CompileCommands

namespace Text.Utf8

theorem prefix_of_unixLines {run text : List Char} (plain : '\n' ∉ run)
    (start : run <+: unixLines text) : run <+: text := by
  fun_induction unixLines text generalizing run with
  | case1 => exact start
  | case4 c rest _ _ ih =>
      rcases List.prefix_cons_iff.mp start with rfl | ⟨more, rfl, later⟩
      · exact List.nil_prefix
      · rw [List.prefix_cons_inj]
        exact ih (fun listed => plain (.tail c listed)) later
  | _ =>
      rcases List.prefix_cons_iff.mp start with rfl | ⟨more, rfl, _⟩
      · exact List.nil_prefix
      · exact absurd (List.mem_cons_self ..) plain

/-- What is found within a line of the text that is read stands in the file. -/
theorem infix_of_unixLines {run text : List Char} (plain : '\n' ∉ run)
    (within : run <:+: unixLines text) : run <:+: text := by
  have front : run <+: unixLines text → run <+: text := prefix_of_unixLines plain
  fun_induction unixLines text with
  | case1 => exact within
  | case2 rest ih =>
      rcases List.infix_cons_iff.mp within with start | later
      · exact (front start).isInfix
      · exact (ih later (prefix_of_unixLines plain)).trans (List.suffix_append ['\r', '\n'] rest).isInfix
  | case3 rest _ ih =>
      rcases List.infix_cons_iff.mp within with start | later
      · exact (front start).isInfix
      · exact List.infix_cons (ih later (prefix_of_unixLines plain))
  | case4 c rest _ _ ih =>
      rcases List.infix_cons_iff.mp within with start | later
      · exact (front start).isInfix
      · exact List.infix_cons (ih later (prefix_of_unixLines plain))

/-- No other characters are made fewer. -/
theorem countP_unixLines {p : Char → Bool} (carriageReturn : p '\r' = false) (newline : p '\n' = false)
    (text : List Char) : (unixLines text).countP p = text.countP p := by
  fun_induction unixLines text with
  | case1 => rfl
  | case2 rest ih => simp [newline, carriageReturn, ih]
  | case3 rest _ ih => simp [newline, carriageReturn, ih]
  | case4 c rest _ _ ih => rw [List.countP_cons, ih, List.countP_cons]

theorem unixLines_replicate_append {c : Char} (other : c ≠ '\r') (count : Nat) (tail : List Char) :
    unixLines (List.replicate count c ++ tail) = List.replicate count c ++ unixLines tail := by
  induction count with
  | zero => rfl
  | succ count ih =>
      rw [List.replicate_succ, List.cons_append, unixLines.eq_4, ih, List.cons_append]
      · exact fun rest first => absurd first other
      · exact other

end Text.Utf8

namespace Description

theorem fileText_encode (text : List Char) :
    fileText (Text.Utf8.encode text) = .ok (Text.Utf8.unixLines text) := by
  rw [fileText, (Text.Utf8.decode_eq_ok_iff _ text).mpr rfl]

theorem fileText_of_broken {bytes : List UInt8} (broken : ∀ text, bytes ≠ Text.Utf8.encode text) :
    ∃ fault, fileText bytes = .error (.encoding fault) := by
  rw [fileText]
  cases read : Text.Utf8.decode bytes with
  | error fault => exact ⟨fault, rfl⟩
  | ok text => exact absurd ((Text.Utf8.decode_eq_ok_iff bytes text).mp read) (broken text)

/-- A file that can be read is one that is there. -/
theorem load_of_readFile (headroom : Json.Headroom) {files : FileSystem} {path : String}
    {bytes : List UInt8} (present : files.readFile (.ofText path) = .ok bytes) :
    load headroom files path = (fileText bytes).bind (ofText headroom path) := by
  have isFile : files.isFile (.ofText path) = true := by
    unfold FileSystem.readFile at present
    unfold FileSystem.isFile
    split at present
    · contradiction
    · next noNull =>
        rw [Bool.eq_false_iff.mpr noNull]
        cases located : files.locateFile (.ofText path) with
        | error code =>
            rw [located] at present
            contradiction
        | ok content => rfl
  rw [load, if_pos isFile, present]

/-- A working directory with nothing but a description in it. -/
def folder (bytes : List UInt8) : FileSystem := ⟨["work"], [(["work", "graph.json"], .file bytes)]⟩

theorem readFile_folder (bytes : List UInt8) :
    (folder bytes).readFile (.ofText "graph.json") = .ok bytes := rfl

end Description

end CompileCommands
