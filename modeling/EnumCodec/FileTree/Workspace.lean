import EnumCodec.FileTree

/-!
# Runs on a tree of files

A `Workspace` is a file tree on which runs act, with the warnings they gave.  `Workspace.host` lets
a run read and write the files of the tree.
-/

set_option autoImplicit false

namespace EnumCodec

/-- A file tree, and the warnings of the runs on it, the first one first. -/
structure Workspace where
  tree : FileTree
  warnings : List String

namespace Workspace

/-- Writes a file of the tree. -/
def write (path text : String) : StateM Workspace (Except SystemError Unit) := do
  let w ← get
  match w.tree.write path text with
  | .error e => return .error e
  | .ok tree =>
    set { w with tree := tree }
    return .ok ()

/-- Takes down a warning. -/
def warn (message : String) : StateM Workspace Unit :=
  modify fun w => { w with warnings := w.warnings ++ [message] }

/-- The host whose files are those of the tree. -/
def host (format : String → FormatOutcome) : Host (StateM Workspace) where
  hasPath path := return (← get).tree.hasPath path
  list path := return (← get).tree.list path
  read path := return (← get).tree.read path
  readSource path := return (← get).tree.read path
  write := write
  format text := return format text
  warn := warn

end Workspace

end EnumCodec
