import CompileCommands.FileSystem
import Mathlib.Tactic.SplitIfs

set_option autoImplicit false

/- A file that was written is read back. The way to its place goes through directories, and the
new file stands where none of them is, so the same path reaches it again. -/
namespace CompileCommands.FileSystem

@[simp] theorem workingDirectory_put (files : FileSystem) (place : List String) (node : Node) :
    (files.put place node).workingDirectory = files.workingDirectory := rfl

@[simp] theorem origin_put (files : FileSystem) (place : List String) (node : Node)
    (path : Path) : (files.put place node).origin path = files.origin path := rfl

theorem node?_put_self (files : FileSystem) (place : List String) (node : Node)
    (free : files.node? place ≠ some .directory) :
    (files.put place node).node? place = some node := by
  have outside : place.isPrefixOf files.workingDirectory = false := by
    cases around : place.isPrefixOf files.workingDirectory with
    | false => rfl
    | true => exact absurd (by rw [node?, if_pos around]) free
  rw [node?, workingDirectory_put, outside, put]
  simp [Table.find?_insert]

theorem node?_put_of_ne (files : FileSystem) {place other : List String} (node : Node)
    (apart : place ≠ other) : (files.put place node).node? other = files.node? other := by
  rw [node?, node?, workingDirectory_put, put]
  simp [Table.find?_insert, apart]

/-- A way starts in a directory, and its first name, unless it is made of dots, is no longer than
names may be. -/
theorem follow_cons_eq_ok_iff (files : FileSystem) (start : List String) (name : String)
    (rest : List String) (reached : List String × Option Node) :
    files.follow start (name :: rest) = .ok reached ↔
      files.node? start = some .directory ∧
        (name = "." ∨ name = ".." ∨ nameIsTooLong name = false) ∧
          files.follow (Path.simplify start [name]) rest = .ok reached := by
  rw [follow]
  split
  · next missing => simp [missing]
  · next bytes file => simp [file]
  · next passed =>
      simp only [passed, true_and, Path.simplify]
      by_cases here : name = "."
      · simp [here]
      · by_cases up : name = ".."
        · simp [up]
        · cases fits : nameIsTooLong name <;> simp [here, up]

/-- What is found at the end of a way is what stands at the place reached. -/
theorem node?_of_follow (files : FileSystem) (start place : List String) (names : List String)
    (found : Option Node) (reached : files.follow start names = .ok (place, found)) :
    files.node? place = found := by
  induction names generalizing start with
  | nil =>
      rw [follow] at reached
      cases reached
      rfl
  | cons name rest ih =>
      obtain ⟨_, _, onward⟩ := (follow_cons_eq_ok_iff ..).mp reached
      exact ih _ onward

/-- A node put at the end of a way that ends in no directory leaves the way open. -/
theorem follow_put (files : FileSystem) (start place : List String) (names : List String)
    (node : Node) (free : files.node? place ≠ some .directory) (found : Option Node)
    (reached : files.follow start names = .ok (place, found)) :
    (files.put place node).follow start names = .ok (place, some node) := by
  induction names generalizing start with
  | nil =>
      rw [follow] at reached
      cases reached
      rw [follow, node?_put_self files place node free]
  | cons name rest ih =>
      obtain ⟨passed, fits, onward⟩ := (follow_cons_eq_ok_iff ..).mp reached
      have apart : place ≠ start := by
        rintro rfl
        exact free passed
      rw [follow_cons_eq_ok_iff, node?_put_of_ne files node apart]
      exact ⟨passed, fits, ih _ onward⟩

theorem locateForWriting_eq_ok (files : FileSystem) (path : Path) (place : List String)
    (located : files.locateForWriting path = .ok place) :
    path.isEmpty = false ∧ path.isTooLong = false ∧ path.slashAtEnd = false ∧
      ∃ found, files.follow (files.origin path) path.names = .ok (place, found) ∧
        found ≠ some .directory := by
  unfold locateForWriting at located
  split_ifs at located with filled short slash
  · split at located <;> contradiction
  · split at located
    · contradiction
    · contradiction
    · next found free reached =>
        cases located
        exact ⟨by simpa using filled, by simpa using short, by simpa using slash, found, reached,
          free⟩

/-- The bytes put at the place of a path opened for writing are found by the same path. -/
theorem locateFile_put (files : FileSystem) (path : Path) (place : List String)
    (bytes : List UInt8) (located : files.locateForWriting path = .ok place) :
    (files.put place (.file bytes)).locateFile path = .ok bytes := by
  obtain ⟨filled, short, noSlash, found, reached, free⟩ :=
    locateForWriting_eq_ok files path place located
  have stands := node?_of_follow files _ place path.names found reached
  rw [← stands] at free
  have again := follow_put files _ place path.names (.file bytes) free found reached
  simp [locateFile, filled, short, noSlash, again]

/-- Writing puts a file where its path leads once the directories are made. -/
theorem writeFile_eq_ok_iff (files after : FileSystem) (disk : Disk) (path : Path)
    (bytes : List UInt8) :
    files.writeFile disk path bytes = (after, .ok ()) ↔
      path.hasNull = false ∧ ∃ (made : FileSystem) (place : List String),
        files.makeDirectories path.root [] (path.absolute files.workingDirectory).dropLast =
          (made, .ok ()) ∧
        made.locateForWriting path = .ok place ∧ disk.breaksOff? place bytes = none ∧
          after = made.put place (.file bytes) := by
  rw [writeFile]
  split
  · next refused => simp [refused]
  · next made ready =>
    rw [ready]
    cases null : path.hasNull with
    | true => simp
    | false =>
        cases located : made.locateForWriting path with
        | error code => simp [located]
        | ok place => cases taken : disk.breaksOff? place bytes <;> simp [located, taken, eq_comm]

/-- Whether a file can be written to a sound disk does not depend on what is to be in it. -/
theorem exists_writeFile_eq_ok {files after : FileSystem} {disk : Disk} {path : Path}
    {bytes : List UInt8} (sound : disk.IsSound)
    (written : files.writeFile disk path bytes = (after, .ok ())) (others : List UInt8) :
    ∃ later, files.writeFile disk path others = (later, .ok ()) := by
  obtain ⟨noNull, made, place, ready, located, _⟩ := (writeFile_eq_ok_iff ..).mp written
  exact ⟨_, (writeFile_eq_ok_iff ..).mpr
    ⟨noNull, made, place, ready, located, sound place others, rfl⟩⟩

theorem readFile_put {files : FileSystem} {path : Path} {place : List String}
    (noNull : path.hasNull = false) (located : files.locateForWriting path = .ok place)
    (bytes : List UInt8) : (files.put place (.file bytes)).readFile path = .ok bytes := by
  rw [readFile, if_neg (by simp [noNull]), locateFile_put files path place bytes located]
  rfl

/-- A path reads what was written to it. -/
theorem readFile_of_writeFile {files after : FileSystem} {disk : Disk} {path : Path}
    {bytes : List UInt8} (written : files.writeFile disk path bytes = (after, .ok ())) :
    after.readFile path = .ok bytes := by
  obtain ⟨noNull, made, place, _, located, _, rfl⟩ := (writeFile_eq_ok_iff ..).mp written
  exact readFile_put noNull located bytes

end CompileCommands.FileSystem
