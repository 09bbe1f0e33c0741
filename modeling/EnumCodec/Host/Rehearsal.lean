import EnumCodec.Host

/-!
# Runs that change nothing

A `Rehearsal` has a fixed answer to every question of a run, and only takes down what the run reads
and writes.  The record is a list of events, the first one first.
-/

set_option autoImplicit false

namespace EnumCodec

/-- Fixed answers to all that a run can ask. -/
structure Rehearsal where
  hasPath : String → Bool
  list : String → Except SystemError (List DirEntry)
  read : String → Except SystemError String
  readSource : String → Except SystemError String
  /-- Why a write is refused, by its number, if it is. -/
  refusal? : Nat → Option SystemError
  format : String → FormatOutcome

/-- What a run has done. -/
inductive Event
  /-- A source file was asked for. -/
  | sourceRead (path : String)
  | written (path text : String)
  | warned (message : String)
deriving DecidableEq, Repr

namespace Event

/-- The path of a source file that was asked for. -/
def readPath? : Event → Option String
  | sourceRead path => some path
  | _ => none

/-- The path and the text of a file that was written. -/
def writing? : Event → Option (String × String)
  | written path text => some (path, text)
  | _ => none

end Event

/-- What a run has done, the first event first. -/
abbrev Record := List Event

namespace Record

/-- The source files that were asked for. -/
def reads (r : Record) : List String := r.filterMap Event.readPath?

/-- The files that were written, with their texts. -/
def writes (r : Record) : List (String × String) := r.filterMap Event.writing?

end Record

namespace Rehearsal

/-- Takes down an event. -/
def note (event : Event) : StateM Record Unit := modify (· ++ [event])

/-- Takes down a source file that is asked for. -/
def readNoted (r : Rehearsal) (path : String) : StateM Record (Except SystemError String) := do
  note (.sourceRead path)
  return r.readSource path

/-- Takes down a write, unless it is refused. -/
def writeNoted (r : Rehearsal) (path text : String) : StateM Record (Except SystemError Unit) := do
  match r.refusal? (← get).writes.length with
  | some e => return .error e
  | none =>
    note (.written path text)
    return .ok ()

/-- The host that gives the answers of a rehearsal. -/
def host (r : Rehearsal) : Host (StateM Record) where
  hasPath path := return r.hasPath path
  list path := return r.list path
  read path := return r.read path
  readSource := r.readNoted
  write := r.writeNoted
  format text := return r.format text
  warn message := note (.warned message)

end Rehearsal

end EnumCodec
