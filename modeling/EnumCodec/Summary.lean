import EnumCodec.Generation
import EnumCodec.Json

/-!
# The summary of a run

What a run has written, as JSON: the package, and the path and the value table of every file.
Members stand in the order of their names, and aliases are left out where there are none.

In the generator this is `summary_json`.
-/

set_option autoImplicit false

namespace EnumCodec

/-- A value with its names. -/
def ValueEntry.summary (e : ValueEntry) : Json :=
  let named := [("name", Json.string e.name), ("value", Json.number e.value)]
  .object (if e.aliases.isEmpty then named
    else ("aliases", .array (e.aliases.map .string)) :: named)

/-- A written file with its values. -/
def WrittenFile.summary (f : WrittenFile) : Json :=
  .object
    [("formatted", .boolean f.formatted),
     ("kind", .string f.table.kind.name),
     ("path", .string f.path),
     ("type", .string f.typeName),
     ("values", .array (f.table.entries.map ValueEntry.summary))]

/-- What a run has written. -/
def Report.summary (r : Report) : Json :=
  .object
    [("dir", .string r.dir),
     ("files", .array (r.files.map WrittenFile.summary)),
     ("package", .string r.package)]

end EnumCodec
