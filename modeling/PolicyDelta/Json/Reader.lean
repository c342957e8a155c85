import PolicyDelta.Json.Token

/-! Reading a JSON value from its tokens. The reader keeps the arrays and objects that are still
open on a stack; an array or object with content is refused where too many are open already. -/

namespace PolicyDelta.Json

/-- An open array or object: its items so far in reverse, and the key whose value is awaited. -/
inductive Frame where
  | array (items : List Json)
  | object (members : List (String × Json)) (key : String)

/-- What a reader awaits; the list holds the open arrays and objects, the innermost first. -/
inductive Reader where
  | value (stack : List Frame)
  /-- After an opening bracket. -/
  | firstItem (stack : List Frame)
  /-- After an item. -/
  | afterItem (items : List Json) (stack : List Frame)
  /-- After an opening brace. -/
  | firstKey (stack : List Frame)
  /-- After a comma between members. -/
  | key (members : List (String × Json)) (stack : List Frame)
  | colon (members : List (String × Json)) (key : String) (stack : List Frame)
  /-- After a member. -/
  | afterMember (members : List (String × Json)) (stack : List Frame)
  | done (v : Json)

namespace Reader

/-- Goes on after a complete value. -/
def deliver (v : Json) : List Frame → Reader
  | [] => .done v
  | .array items :: stack => .afterItem (v :: items) stack
  | .object members k :: stack => .afterMember ((k, v) :: members) stack

def begin? (t : Token) (stack : List Frame) : Option Reader :=
  match t with
  | .beginArray => some (.firstItem stack)
  | .beginObject => some (.firstKey stack)
  | .text s => some (deliver (.text s) stack)
  | .scalar v => some (deliver v stack)
  | _ => none

/-- Reads one token with at most `depth` arrays and objects open. -/
def step? (depth : Nat) : Reader → Token → Option Reader
  | .value stack, t => begin? t stack
  | .firstItem stack, .endArray => some (deliver (.array []) stack)
  | .firstItem stack, t =>
    if stack.length < depth then begin? t (.array [] :: stack) else none
  | .afterItem items stack, .comma => some (.value (.array items :: stack))
  | .afterItem items stack, .endArray => some (deliver (.array items.reverse) stack)
  | .firstKey stack, .endObject => some (deliver (.object []) stack)
  | .firstKey stack, .text k =>
    if stack.length < depth then some (.colon [] k stack) else none
  | .key members stack, .text k => some (.colon members k stack)
  | .colon members k stack, .colon => some (.value (.object members k :: stack))
  | .afterMember members stack, .comma => some (.key members stack)
  | .afterMember members stack, .endObject => some (deliver (.object members.reverse) stack)
  | _, _ => none

def run (depth : Nat) : Reader → List Token → Option Json
  | .done v, [] => some v
  | _, [] => none
  | r, t :: ts =>
    match r.step? depth t with
    | none => none
    | some next => run depth next ts

end Reader

/-- The value that a text within limits stands for. -/
def parseWithin? (limits : Limits) (text : String) : Option Json :=
  (tokens? limits.length text.toList).bind (Reader.run limits.depth (.value []))

def parse? (text : String) : Option Json :=
  parseWithin? .standard text

end PolicyDelta.Json
