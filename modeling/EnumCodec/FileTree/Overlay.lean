import EnumCodec.FileTree
import EnumCodec.Host.Rehearsal

/-!
# Rehearsals on a tree of files

`FileTree.rehearsal` answers a run from a file tree without changing it.  Source files can be given
texts that go before those of the tree.
-/

set_option autoImplicit false

namespace EnumCodec.FileTree

/-- The last part of a path. -/
def nameOf (path : String) : String := (parts path).getLast?.getD ""

/-- The text of a source file: the one given for its name, or else the one in the tree. -/
def readOver (t : FileTree) (texts : List (String × String)) (path : String) :
    Except SystemError String :=
  match texts.lookup (nameOf path) with
  | some text => .ok text
  | none => t.read path

/-- A rehearsal on a tree, with the texts of some source files by their names. -/
def rehearsal (t : FileTree) (texts : List (String × String)) (refusal? : Nat → Option SystemError)
    (format : String → FormatOutcome) : Rehearsal :=
  ⟨t.hasPath, t.list, t.read, t.readOver texts, refusal?, format⟩

end EnumCodec.FileTree
