import EnumCodec.Host
import EnumCodec.Path
import EnumCodec.Text.Pieces

/-!
# Trees of files in memory

A `FileTree` says what stands at a place: a file with its bytes, a folder, or a link.  Paths are
walked part by part from the working directory or from the root; links are followed, and
`FileTree.resolve` says where a path leads, to look there or to write a file.

* `hasPath`, `list`, `read` and `write` are the operations of a host on a tree.
* `create` and `remove` change a tree by hand.
* `changesBelow` compares two trees.
-/

set_option autoImplicit false

namespace EnumCodec

open Text

/-- The names that lead from the root to a place. -/
abbrev Location := List String

/-- What can stand at a place. -/
inductive Node
  | file (bytes : ByteArray)
  | folder
  | link (target : String)

/-- What kind of thing a node is. -/
def Node.kind : Node → EntryKind
  | file _ => .file
  | folder => .folder
  | link _ => .link

/-- What stands where, and the folder that paths start from.  The root is always a folder. -/
structure FileTree where
  nodes : List (Location × Node)
  workingDir : Location

/-- Where a path leads. -/
inductive Destination
  | file (place : Location) (bytes : ByteArray)
  | folder (place : Location)
  /-- Nothing stands at the place, but its folder is there. -/
  | vacant (place : Location)

namespace FileTree

/-- What stands at a place. -/
def nodeAt? (t : FileTree) (place : Location) : Option Node :=
  if place.isEmpty then some .folder else t.nodes.lookup place

/-- Lets a node stand at a place. -/
def put (t : FileTree) (place : Location) (node : Node) : FileTree :=
  { t with nodes := t.nodes.filter (fun n => n.1 != place) ++ [(place, node)] }

/-- Makes the folders of a list that are missing. -/
def putFolders (t : FileTree) (places : List Location) : FileTree :=
  places.foldl (fun t place => if (t.nodeAt? place).isSome then t else t.put place .folder) t

/-- The places on the way from the root to a place, the root and the place left out. -/
def placesAbove (place : Location) : List Location :=
  (List.range place.length).tail.map fun n => place.take n

/-- A tree with nothing but the working directory. -/
def bare (workingDir : Location) : FileTree :=
  putFolders ⟨[], workingDir⟩ (placesAbove workingDir ++ [workingDir])

/-! ## Paths -/

/-- The parts of a path. -/
def parts (path : String) : List String := (pieces '/' path.toList).map String.ofList

/-- Where a path starts that is given in a folder. -/
def startOf (here : Location) (path : String) : Location :=
  if Path.isAbsolute path then [] else here

/-- What a path is followed for. -/
inductive Purpose
  | look
  /-- To write a file, which is made if there is none. -/
  | write
deriving DecidableEq, Repr

/-- Whether nothing but slashes follows a name, at the end of a path. -/
def endsInSlash (rest : List String) : Bool := !rest.isEmpty && rest.all (·.isEmpty)

/-- How far the parts of a path lead while no link is followed. -/
inductive Stage
  | arrived (destination : Destination)
  /-- A link was met: the folder that it starts from, and all parts to follow from there. -/
  | link (here : Location) (parts : List String)

/-- How far the parts of a path lead from a folder.  A name with a slash after it can only be that of
a folder, and is refused as such when a file is to be written, whatever stands there. -/
def stage (t : FileTree) (purpose : Purpose) (here : Location) :
    List String → Except SystemError Stage
  | [] => .ok (.arrived (.folder here))
  | part :: rest =>
    if part = "" ∨ part = "." then t.stage purpose here rest
    else if part = ".." then t.stage purpose here.dropLast rest
    else if purpose = .write ∧ endsInSlash rest then .error .isADirectory
    else if 255 < part.utf8ByteSize then .error .nameTooLong
    else
      let place := here ++ [part]
      match t.nodeAt? place with
      | none => if rest.isEmpty then .ok (.arrived (.vacant place)) else .error .notFound
      | some (.file bytes) =>
        if rest.isEmpty then .ok (.arrived (.file place bytes)) else .error .notADirectory
      | some .folder => t.stage purpose place rest
      | some (.link target) => .ok (.link (startOf here target) (FileTree.parts target ++ rest))

/-- Where the parts of a path lead, from a folder; a given number of links may be followed. -/
def walk (t : FileTree) (purpose : Purpose) (links : Nat) (here : Location) (parts : List String) :
    Except SystemError Destination :=
  match t.stage purpose here parts with
  | .error e => .error e
  | .ok (.arrived destination) => .ok destination
  | .ok (.link here parts) =>
    match links with
    | 0 => .error .tooManyLinks
    | links + 1 => t.walk purpose links here parts

/-- The greatest number of links on the way of a path. -/
def maxLinks : Nat := 40

/-- The number of bytes from which on a path is too long. -/
def maxPathSize : Nat := 4096

/-- Where a path leads. -/
def resolve (t : FileTree) (purpose : Purpose) (path : String) : Except SystemError Destination :=
  if path.toList.contains '\x00' then .error .nulInPath
  else if path.isEmpty then .error .notFound
  else if maxPathSize ≤ path.utf8ByteSize then .error .nameTooLong
  else t.walk purpose maxLinks (startOf t.workingDir path) (parts path)

/-- The place that a path names when no link is followed. -/
def placeOf (t : FileTree) (path : String) : Location :=
  (parts path).foldl
    (fun here part =>
      if part = "" ∨ part = "." then here
      else if part = ".." then here.dropLast
      else here ++ [part])
    (startOf t.workingDir path)

/-! ## The operations of a host -/

/-- Whether something stands at a path; links are followed. -/
def hasPath (t : FileTree) (path : String) : Bool :=
  match t.resolve .look path with
  | .ok (.file ..) | .ok (.folder _) => true
  | _ => false

/-- The name of a node that stands directly in a folder, with what stands there. -/
def entryIn? (folder : Location) (node : Location × Node) : Option DirEntry :=
  match node.1.getLast? with
  | some name => if node.1.dropLast = folder then some ⟨name, node.2.kind⟩ else none
  | none => none

/-- What stands in the folder at a path; nothing stands in a file. -/
def list (t : FileTree) (path : String) : Except SystemError (List DirEntry) :=
  match t.resolve .look path with
  | .error e => .error e
  | .ok (.vacant _) => .error .notFound
  | .ok (.file ..) => .ok []
  | .ok (.folder place) => .ok (t.nodes.filterMap (entryIn? place))

/-- The text of the file at a path. -/
def read (t : FileTree) (path : String) : Except SystemError String :=
  match t.resolve .look path with
  | .error e => .error e
  | .ok (.vacant _) => .error .notFound
  | .ok (.folder _) => .error .isADirectory
  | .ok (.file _ bytes) =>
    match String.fromUTF8? bytes with
    | some text => .ok text
    | none => .error .invalidText

/-- Replaces or makes the file at a path. -/
def write (t : FileTree) (path text : String) : Except SystemError FileTree :=
  match t.resolve .write path with
  | .error e => .error e
  | .ok (.folder _) => .error .isADirectory
  | .ok (.file place _) | .ok (.vacant place) => .ok (t.put place (.file text.toUTF8))

/-! ## Changes by hand -/

/-- Lets a node stand at a path, with all folders above it; a file replaces the one that the path
leads to. -/
def create (t : FileTree) (path : String) (node : Node) : FileTree :=
  let named := t.placeOf path
  let t := t.putFolders (placesAbove named)
  match node, t.resolve .look path with
  | .file _, .ok (.file place _) | .file _, .ok (.vacant place) => t.put place node
  | _, _ => t.put named node

/-- Takes away what stands at a path, and all that stands below. -/
def remove (t : FileTree) (path : String) : FileTree :=
  let place := t.placeOf path
  { t with nodes := t.nodes.filter fun n => !place.isPrefixOf n.1 }

/-! ## Comparison -/

/-- The files below a folder, on any level, each with its path from there. -/
def filesBelow (t : FileTree) (path : String) : List (String × ByteArray) :=
  match t.resolve .look path with
  | .ok (.folder folder) =>
    t.nodes.filterMap fun (place, node) =>
      match node with
      | .file bytes =>
        if folder.isPrefixOf place then
          some ("/".intercalate (place.drop folder.length), bytes)
        else none
      | _ => none
  | _ => []

/-- The files below a folder that the first tree does not have, or has with other bytes. -/
def changesBelow (before after : FileTree) (path : String) : List (String × ByteArray) :=
  let old := before.filesBelow path
  (after.filesBelow path).filter fun file =>
    match old.lookup file.1 with
    | some bytes => bytes != file.2
    | none => true

end FileTree

end EnumCodec
