/-!
# Paths

Paths are texts with slashes between their parts and are shown as they were given.
-/

set_option autoImplicit false

namespace EnumCodec.Path

/-- Whether a path starts at the root. -/
def isAbsolute (path : String) : Bool := ['/'].isPrefixOf path.toList

/-- A path inside a directory; a path that starts at the root stays as it is. -/
def join (dir path : String) : String :=
  if isAbsolute path then path
  else if dir.isEmpty || ['/'].isSuffixOf dir.toList then dir ++ path
  else dir ++ "/" ++ path

end EnumCodec.Path
