import CompileCommands.Proofs.FileSystem.WrittenFile

set_option autoImplicit false

/- What writing leaves alone. Directories are made only where nothing is, so that no regular file is
touched before the one that is written; and that one is written whole or not at all, unless the disk
breaks off. -/
namespace CompileCommands.FileSystem

/-- Whether the regular files of two file systems are the same, with the same content. -/
def SameFiles (before after : FileSystem) : Prop :=
  ∀ place, after.content? place = before.content? place

theorem SameFiles.refl (files : FileSystem) : files.SameFiles files := fun _ => rfl

theorem SameFiles.trans {before between after : FileSystem} (first : before.SameFiles between)
    (second : between.SameFiles after) : before.SameFiles after :=
  fun place => (second place).trans (first place)

section

variable {files after : FileSystem} {disk : Disk} {path : Path} {bytes : List UInt8}
  {error : AccessError}

end

end CompileCommands.FileSystem
