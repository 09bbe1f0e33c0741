import EnumCodec.Syntax.Declaration
import EnumCodec.Token.Scanner

/-!
# Reading source files

A file is a package clause and a row of top-level parts.  `readFile` reads the tokens of a file, and
`SourceFile.ofText` its text.

In the generator `readFile` is `parse_source_file`, and `SourceFile.ofText` is `parse_file`.
-/

set_option autoImplicit false

namespace EnumCodec

/-- What stands at the top level of a file. -/
inductive TopLevel
  /-- A semicolon on its own. -/
  | nothing
  | consts (decl : ConstDecl)
  | types (specs : List TypeSpec)
  /-- An import, a variable or a function. -/
  | skipped
deriving Repr

namespace TopLevel

/-- The constant declaration, if the part is one. -/
def const? : TopLevel → Option ConstDecl
  | consts decl => some decl
  | _ => none

/-- The types that the part declares. -/
def typeSpecs : TopLevel → List TypeSpec
  | types specs => specs
  | _ => []

end TopLevel

/-- Reads one top-level part, whose first token is given. -/
def readTopLevel (t : Token) (rest : List Token) :
    Except SyntaxError (Parsed (rest.length + 1) TopLevel) :=
  match t.kind with
  | .semicolon => .ok (.here .nothing rest)
  | .keyword .kwConst => (readConstDecl t.pos rest).map (·.map .consts)
  | .keyword .kwType => (readTypeDecl rest).map (·.map .types)
  | .keyword .kwImport | .keyword .kwVar | .keyword .kwFunc =>
    match hs : skipDeclaration 0 rest with
    | .error e => .error e
    | .ok rest' => .ok ⟨.skipped, rest', Nat.lt_succ_of_le (skipDeclaration_suffix hs).length_le⟩
  | _ => .error (problemAt (t :: rest) .strayStatement)

/-- Reads top-level parts up to the end of the text. -/
def readTopLevels (ts : List Token) : Except SyntaxError (List TopLevel) :=
  match ts with
  | [] => .ok []
  | t :: rest =>
    if t.kind = .endOfText then .ok []
    else
      match readTopLevel t rest with
      | .error e => .error e
      | .ok part =>
        match readTopLevels part.rest with
        | .error e => .error e
        | .ok parts => .ok (part.value :: parts)
termination_by ts.length
decreasing_by have := part.shorter; simp only [List.length_cons]; omega

/-- Reads the package clause: the name of the package, and the tokens after the clause. -/
def readPackageClause (ts : List Token) : Except SyntaxError (Ident × List Token) :=
  match ts with
  | [] => .error (problemAt [] (.noPackageClause .endOfText))
  | t :: rest =>
    if t.kind = .keyword .kwPackage then
      match readName .packageName rest with
      | .error e => .error e
      | .ok name =>
        if name.value.isBlank then .error (problemAt name.rest .blankPackageName)
        else
          match readDeclarationEnd name.rest with
          | .error e => .error e
          | .ok clauseEnd => .ok (name.value, clauseEnd.rest)
    else .error (problemAt (t :: rest) (.noPackageClause t.kind))

/-- Reads the tokens of a file. -/
def readFile (path : String) (ts : List Token) : Except SyntaxError SourceFile :=
  match readPackageClause ts with
  | .error e => .error e
  | .ok (package, rest) =>
    match readTopLevels rest with
    | .error e => .error e
    | .ok parts =>
      .ok ⟨path, package, parts.filterMap TopLevel.const?, parts.flatMap TopLevel.typeSpecs⟩

/-- Reads the text of a file. -/
def SourceFile.ofText (path source : String) : Except SyntaxError SourceFile :=
  match scan source with
  | .error e => .error ⟨.lexical e.problem, e.pos⟩
  | .ok ts => readFile path ts

end EnumCodec
