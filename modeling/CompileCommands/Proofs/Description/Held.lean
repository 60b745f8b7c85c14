import CompileCommands.Proofs.Description.FileContents

set_option autoImplicit false

/- What description a file holds, said by the tree that its text spells. The strings of a description
are texts, so this is about files in which no surrogate stands alone. -/
namespace CompileCommands.Description

open Json (Headroom Members Tree IsDocument)
open Text.Utf8 (encode unixLines)

/-- Whether all strings are texts in what a file spells. -/
def IsWhole (files : FileSystem) (path : String) : Prop :=
  ∀ text tree, files.readFile (.ofText path) = .ok (encode text) →
    IsDocument (unixLines text) tree → tree.IsWhole

variable {headroom : Headroom} {files : FileSystem} {path : String} {description : Members}

end CompileCommands.Description
