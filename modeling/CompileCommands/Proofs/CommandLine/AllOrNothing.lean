import Mathlib
import CompileCommands.Proofs.CommandLine.AskedEntries
import CompileCommands.Proofs.CommandLine.Succeeds
import CompileCommands.Proofs.FileSystem.OtherFiles

set_option autoImplicit false

/- What a run leaves behind: the database with all that was asked for, or the files as they were. Only
on a machine that breaks off can it be something else, which is then at the output alone. -/
namespace CompileCommands

namespace Database

variable {disk : FileSystem.Disk} {files after : FileSystem} {path : String} {entries : List Entry}

end Database

namespace CommandLine

namespace Options

variable {options : Options} {machine : Machine}

section

variable {before after : FileSystem}

end

end Options

def appDescription : Json.Members :=
  [("toolchain", .object [("tools", .object [("c++-compile", .string "c++")])]),
    ("targets", .array [.object [("label", .string "//app"), ("kind", .string "cc_binary"),
      ("srcs", .array [.string "main.cc"]), ("compilation_context", .object [])]])]

def appGraph : Graph := ⟨"", [.single "//app:app" "cc_binary" "" []]⟩

def appEntry : Entry :=
  ⟨"\"c++\" -c main.cc", executionRootPlaceholder, workspacePlaceholder ++ "/main.cc"⟩

theorem unixLines_appText : Text.Utf8.unixLines appText = appText := by cbv

theorem load_appFolder : Description.load .usual appFolder "graph.json" = .ok appDescription := by
  have decoded : Json.decode .usual appText = .ok (.object appDescription) := by cbv
  rw [appFolder, Description.load_of_readFile .usual (Description.readFile_folder _),
    Description.fileText_encode, unixLines_appText, Except.bind]
  simp only [Description.ofText, decoded]

theorem graph_appDescription : Graph.ofDescription appDescription = .ok appGraph := by cbv

theorem toolchain_appDescription :
    Toolchain.ofDescription appDescription [] [] = .ok Toolchain.single := rfl

theorem collect_appGraph :
    ∃ collection, collect appGraph [.spelled "//app"] Toolchain.single (some 1) = .ok collection ∧
      collection.aggregation.flatten = [appEntry] := by
  have ended : (collect appGraph [.spelled "//app"] Toolchain.single (some 1)).map
      (·.aggregation.flatten) = .ok [appEntry] := by cbv
  cases collected : collect appGraph [.spelled "//app"] Toolchain.single (some 1) with
  | error failure =>
      rw [collected] at ended
      contradiction
  | ok collection =>
      rw [collected] at ended
      exact ⟨collection, rfl, Except.ok.inj ended⟩

theorem write_appFolder (entries : List Entry) :
    Database.write .sound appFolder "compile_commands.json" entries =
      (appFolder.put ["work", "compile_commands.json"]
        (.file (Text.Utf8.encode (Database.chars entries))), .ok entries.length) := by
  have written (content : List UInt8) :
      appFolder.writeFile .sound (.ofText "compile_commands.json") content =
        (appFolder.put ["work", "compile_commands.json"] (.file content), .ok ()) := rfl
  rw [Database.write, written]

theorem verdict_workstation (coloured : Bool) :
    workstation.verdict coloured = .ok (.satisfied "3.6.1" "2.8.8") := by
  have recent : Requirement.isRecent .usual "3.6.1" "2.8.8" = .ok true := by cbv
  have needed : Requirement.leastVersions.find? "networkx" = some "2.8.8" := rfl
  have found : workstation.installed.find? "networkx" = some "3.6.1" := rfl
  have usual : workstation.versions = .usual := rfl
  simp [Environment.verdict, Requirement.insist, Requirement.check, needed, found, usual, recent]

theorem isSteady_workstation : workstation.IsSteady :=
  ⟨fun _ _ => rfl, fun _ => rfl⟩

end CommandLine

end CompileCommands
