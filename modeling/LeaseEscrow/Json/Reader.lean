import LeaseEscrow.Json.Token

/-!
# Reading JSON

Tokens are read from left to right with a stack of the arrays and objects that are still
open. A text holds exactly one value.
-/

namespace LeaseEscrow.Json

/-- An open array or object with the parts read so far, newest first. An object is open in
the stack while the value of `name` is being read. -/
inductive Frame where
  | array (items : List Json)
  | object (members : List (Option String × Json)) (name : Option String)

/-- What may come next. -/
inductive Reader where
  | value (stack : List Frame)
  /-- A value or the end of an array just opened. -/
  | firstItem (stack : List Frame)
  /-- A comma or the end of an array. -/
  | afterItem (items : List Json) (stack : List Frame)
  /-- A name or the end of an object just opened. -/
  | firstName (stack : List Frame)
  | nextName (members : List (Option String × Json)) (stack : List Frame)
  | colon (members : List (Option String × Json)) (name : Option String) (stack : List Frame)
  /-- A comma or the end of an object. -/
  | afterMember (members : List (Option String × Json)) (stack : List Frame)
  | done (value : Json)

/-- An object whose names all have a meaning. -/
def ofMembers (members : List (Option String × Json)) : Json :=
  match members.mapM fun (name, value) => name.map (·, value) with
  | some named => .obj named
  | none => .meaningless

/-- A value is complete: it goes to where the innermost open array or object waits. -/
def Reader.complete (value : Json) : List Frame → Reader
  | [] => .done value
  | .array items :: stack => .afterItem (value :: items) stack
  | .object members name :: stack => .afterMember ((name, value) :: members) stack

/-- A token where a value is due. -/
def Reader.begin (stack : List Frame) : Token → Option Reader
  | .openObject => some (.firstName stack)
  | .openArray => some (.firstItem stack)
  | .null => some (.complete .null stack)
  | .bool b => some (.complete (.bool b) stack)
  | .num n => some (.complete (.num n) stack)
  | .str (some text) => some (.complete (.str text) stack)
  | .str none => some (.complete .meaningless stack)
  | _ => none

def Reader.step : Reader → Token → Option Reader
  | .value stack, t => begin stack t
  | .firstItem stack, .closeArray => some (.complete (.arr []) stack)
  | .firstItem stack, t => begin (.array [] :: stack) t
  | .afterItem items stack, .comma => some (.value (.array items :: stack))
  | .afterItem items stack, .closeArray => some (.complete (.arr items.reverse) stack)
  | .firstName stack, .closeObject => some (.complete (.obj []) stack)
  | .firstName stack, .str name => some (.colon [] name stack)
  | .nextName members stack, .str name => some (.colon members name stack)
  | .colon members name stack, .colon => some (.value (.object members name :: stack))
  | .afterMember members stack, .comma => some (.nextName members stack)
  | .afterMember members stack, .closeObject =>
    some (.complete (ofMembers members.reverse) stack)
  | _, _ => none

def ofTokens? (tokens : List Token) : Option Json :=
  match tokens.foldlM Reader.step (.value []) with
  | some (.done value) => some value
  | _ => none

/-- The value that a text holds. -/
def ofText? (text : String) : Option Json := (tokens? text.toList).bind ofTokens?

end LeaseEscrow.Json
