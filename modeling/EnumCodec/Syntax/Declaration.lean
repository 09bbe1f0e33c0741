import EnumCodec.Syntax.Expression

/-!
# Reading declarations

Readers for constant and type declarations, each in both forms: one line, or a group of lines in
parentheses.

In the generator `readConstDecl` and `readConstSpec` are `parse_const_decl` and `parse_const_spec`,
`readTypeName` is `parse_type_name`, and `readTypeDecl` and `readTypeSpec` are `parse_type_decl` and
`parse_type_spec`.
-/

set_option autoImplicit false

namespace EnumCodec

/-- Reads the second part of a type name, if there is one, after the first part. -/
def readTypeNameEnd (first : String) (ts : List Token) :
    Except SyntaxError (Parsed (ts.length + 1) TypeName) :=
  match ts with
  | [] => .ok (.here (.own first) [])
  | t :: rest =>
    if t.kind = .symbol .dot then
      (readName .foreignTypeName rest).map fun second =>
        ((second.map fun ident => .foreign first ident.name).past t).loosen
    else .ok (.here (.own first) (t :: rest))

/-- Reads the name of a type. -/
def readTypeName (ts : List Token) : Except SyntaxError (Parsed ts.length TypeName) :=
  match readName .typeName ts with
  | .error e => .error e
  | .ok first => (readTypeNameEnd first.value.name first.rest).map first.followedBy

/-! ## Constants -/

/-- Reads more names, each after a comma. -/
def readMoreNames (ts : List Token) : Except SyntaxError (Parsed (ts.length + 1) (List Ident)) :=
  match ts with
  | [] => .ok (.here [] [])
  | t :: rest =>
    if t.kind = .symbol .comma then
      match readName .constName rest with
      | .error e => .error e
      | .ok name =>
        match readMoreNames name.rest with
        | .error e => .error e
        | .ok more =>
          .ok ((name.followedBy (more.map (name.value :: ·))).past t).loosen
    else .ok (.here [] (t :: rest))
termination_by ts.length
decreasing_by have := name.shorter; simp only [List.length_cons]; omega

/-- Reads the type of a line of constants, if there is one. -/
def readConstType (ts : List Token) :
    Except SyntaxError (Parsed (ts.length + 1) (Option TypeName)) :=
  match kindAt ts with
  | .name _ => (readTypeName ts).map fun p => (p.map some).loosen
  | .symbol .assign | .symbol .rightParen | .semicolon | .endOfText =>
    .ok (.here none ts)
  | _ => .error (unexpectedAt ts .constSpec)

/-- Reads the values of a line of constants, if there are any. -/
def readConstValues (ts : List Token) :
    Except SyntaxError (Parsed (ts.length + 1) (List Expr)) :=
  match ts with
  | [] => .ok (.here [] [])
  | t :: rest =>
    if t.kind = .symbol .assign then
      (readExprs rest).map fun p => (p.past t).loosen
    else .ok (.here [] (t :: rest))

/-- The problem with the number of values on a line: a line needs a value for every name, and only
a line without a type, after the first one of its group, may leave out all of them. -/
def valueCountProblem? (spec : ConstSpec) : Option SyntaxProblem :=
  if spec.values.isEmpty then
    if spec.type.isSome || spec.iota == 0 then some .missingValue else none
  else if spec.values.length < spec.names.length then some .missingValue
  else if spec.names.length < spec.values.length then some .extraValue
  else none

/-- Reads a line of constants. -/
def readConstSpec (iota : Nat) (ts : List Token) :
    Except SyntaxError (Parsed ts.length ConstSpec) :=
  match readName .constName ts with
  | .error e => .error e
  | .ok first =>
    match readMoreNames first.rest with
    | .error e => .error e
    | .ok more =>
      match readConstType more.rest with
      | .error e => .error e
      | .ok type =>
        match readConstValues type.rest with
        | .error e => .error e
        | .ok values =>
          let spec : ConstSpec := ⟨first.value :: more.value, type.value, values.value, iota⟩
          match valueCountProblem? spec with
          | some problem => .error ⟨problem, first.value.pos⟩
          | none =>
            .ok (first.followedBy (more.followedBy (type.followedBy (values.map fun _ => spec))))

/-- Reads the end of a line in a group: a semicolon, which is taken, or the closing parenthesis,
which stays. -/
def readLineEnd (place : Place) (ts : List Token) :
    Except SyntaxError (Parsed (ts.length + 1) Unit) :=
  match ts with
  | [] => .error (unexpectedAt [] place)
  | t :: rest =>
    match t.kind with
    | .semicolon => .ok (Parsed.one () t rest).loosen
    | .symbol .rightParen => .ok (.here () (t :: rest))
    | _ => .error (unexpectedAt (t :: rest) place)

/-- Reads the lines of a group of constants and the closing parenthesis. -/
def readConstGroup (iota : Nat) (ts : List Token) :
    Except SyntaxError (Parsed ts.length (List ConstSpec)) :=
  match ts with
  | [] => .error (unexpectedAt [] .constName)
  | t :: rest =>
    if t.kind = .symbol .rightParen then .ok (.one [] t rest)
    else if t.kind = .semicolon then
      match readConstGroup iota rest with
      | .error e => .error e
      | .ok specs => .ok (specs.past t)
    else
      match readConstSpec iota (t :: rest) with
      | .error e => .error e
      | .ok spec =>
        match readLineEnd .constGroup spec.rest with
        | .error e => .error e
        | .ok lineEnd =>
          match readConstGroup (iota + 1) lineEnd.rest with
          | .error e => .error e
          | .ok specs =>
            .ok (spec.followedBy (lineEnd.followedBy (specs.map (spec.value :: ·)).loosen))
termination_by ts.length
decreasing_by
  · simp
  · have := spec.shorter; have := lineEnd.shorter; omega

/-- Reads a constant declaration after its first word, up to its end. -/
def readConstDecl (pos : Pos) (ts : List Token) :
    Except SyntaxError (Parsed (ts.length + 1) ConstDecl) :=
  let specs : Except SyntaxError (Parsed ts.length (List ConstSpec)) :=
    match ts with
    | [] => (readConstSpec 0 []).map (·.map fun spec => [spec])
    | t :: rest =>
      if t.kind = .symbol .leftParen then (readConstGroup 0 rest).map (·.past t)
      else (readConstSpec 0 (t :: rest)).map (·.map fun spec => [spec])
  match specs with
  | .error e => .error e
  | .ok specs =>
    match readDeclarationEnd specs.rest with
    | .error e => .error e
    | .ok declEnd =>
      .ok (specs.followedBy (declEnd.map fun _ => ⟨pos, specs.value⟩)).loosen

/-! ## Types -/

/-- Whether the next tokens are a type name and the end of the declaration. -/
def atLoneTypeName (ts : List Token) : Bool :=
  match kindAt ts with
  | .name _ =>
    endsTypeSpec (kindAt (ts.drop 1)) ||
      (atSymbol .dot (ts.drop 1) &&
        match kindAt (ts.drop 2) with
        | .name _ => endsTypeSpec (kindAt (ts.drop 3))
        | _ => false)
  | _ => false

/-- How a type that is not just a name is described by its first token. -/
def leadText? : TokenKind → Option String
  | .keyword k => some k.text
  | .symbol s => some s.text
  | .name s => some s
  | _ => none

/-- Reads what a type is declared as. -/
def readTypeShape (ts : List Token) : Except SyntaxError (Parsed (ts.length + 1) TypeShape) :=
  if atLoneTypeName ts then
    (readTypeName ts).map fun p => (p.map .named).loosen
  else
    match leadText? (kindAt ts) with
    | none => .error (unexpectedAt ts .typeSpec)
    | some lead =>
      match hs : skipType 0 ts with
      | .error e => .error e
      | .ok rest => .ok ⟨.composite lead, rest, Nat.lt_succ_of_le (skipType_suffix hs).length_le⟩

/-- Reads the declaration of one type. -/
def readTypeSpec (ts : List Token) : Except SyntaxError (Parsed ts.length TypeSpec) :=
  match readName .typeSpecName ts with
  | .error e => .error e
  | .ok name =>
    let isAlias := atSymbol .assign name.rest
    match readTypeShape (skipSymbol .assign name.rest) with
    | .error e => .error e
    | .ok shape =>
      .ok ⟨⟨name.value, isAlias, shape.value⟩, shape.rest, by
        have := name.shorter; have := shape.shorter
        have := (skipSymbol_suffix .assign name.rest).length_le; omega⟩

/-- Reads the lines of a group of types and the closing parenthesis. -/
def readTypeGroup (ts : List Token) : Except SyntaxError (Parsed ts.length (List TypeSpec)) :=
  match ts with
  | [] => .error (unexpectedAt [] .typeSpecName)
  | t :: rest =>
    if t.kind = .symbol .rightParen then .ok (.one [] t rest)
    else if t.kind = .semicolon then
      match readTypeGroup rest with
      | .error e => .error e
      | .ok specs => .ok (specs.past t)
    else
      match readTypeSpec (t :: rest) with
      | .error e => .error e
      | .ok spec =>
        match readLineEnd .typeGroup spec.rest with
        | .error e => .error e
        | .ok lineEnd =>
          match readTypeGroup lineEnd.rest with
          | .error e => .error e
          | .ok specs =>
            .ok (spec.followedBy (lineEnd.followedBy (specs.map (spec.value :: ·)).loosen))
termination_by ts.length
decreasing_by
  · simp
  · have := spec.shorter; have := lineEnd.shorter; omega

/-- Reads a type declaration after its first word, up to its end. -/
def readTypeDecl (ts : List Token) :
    Except SyntaxError (Parsed (ts.length + 1) (List TypeSpec)) :=
  let specs : Except SyntaxError (Parsed ts.length (List TypeSpec)) :=
    match ts with
    | [] => (readTypeSpec []).map (·.map fun spec => [spec])
    | t :: rest =>
      if t.kind = .symbol .leftParen then (readTypeGroup rest).map (·.past t)
      else (readTypeSpec (t :: rest)).map (·.map fun spec => [spec])
  match specs with
  | .error e => .error e
  | .ok specs =>
    match readDeclarationEnd specs.rest with
    | .error e => .error e
    | .ok declEnd =>
      .ok (specs.followedBy (declEnd.map fun _ => specs.value)).loosen

end EnumCodec
