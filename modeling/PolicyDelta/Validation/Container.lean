import PolicyDelta.Json.Reader
import PolicyDelta.NameSet
import PolicyDelta.OrderedMap
import PolicyDelta.Validation.Scalar

/-! Checks of arrays, maps and the fields of objects. -/

namespace PolicyDelta.Check

/-- The items of an array from an index on. -/
def itemsFrom (check : Json → Checked α) (i : Nat) : List Json → Checked (List α)
  | [] => .valid []
  | v :: vs => List.cons <$> (check v).inside (.index i) <*> itemsFrom check (i + 1) vs

/-- The items of an array; any other value is an issue of the given kind. -/
def items (kind : IssueKind) (check : Json → Checked α) : Json → Checked (List α)
  | .array vs => itemsFrom check 0 vs
  | _ => .fail kind

/-- A set of names, given as an array. -/
def nameSet (v : Json) : Checked NameSet :=
  (Std.ExtTreeSet.ofList ·) <$> items .setType string v

def names : Json → Checked (List String) :=
  items .tupleType string

/-- The pairs of a map; an issue of a key has the path step `[key]` after the key. -/
def pairs (key : String → Checked κ) (value : Json → Checked ν) :
    List (String × Json) → Checked (List (κ × ν))
  | [] => .valid []
  | (k, v) :: ms =>
    let pair := Prod.mk <$> ((key k).inside (.field "[key]")).inside (.field k) <*>
      (value v).inside (.field k)
    List.cons <$> pair <*> pairs key value ms

/-- A map whose keys keep their order. -/
def orderedMap [DecidableEq κ] (key : String → Checked κ) (value : Json → Checked ν) :
    Json → Checked (OrderedMap κ ν)
  | .object ms => OrderedMap.ofList <$> pairs key value ms
  | _ => .fail .mapType

/-- A map from names; the last value of a key counts. -/
def nameMap (value : Json → Checked ν) : Json → Checked (NameMap ν)
  | .object ms => (Std.ExtTreeMap.ofList ·) <$> pairs .valid value ms
  | _ => .fail .mapType

/-- The members of an object; any other value is an issue of the given kind. -/
def fields (kind : IssueKind) (check : List (String × Json) → Checked α) : Json → Checked α
  | .object ms => check ms
  | _ => .fail kind

/-- A field that has to be there. -/
def field (ms : List (String × Json)) (name : String) (check : Json → Checked α) : Checked α :=
  (match Json.member? name ms with
    | some v => check v
    | none => .fail .missing).inside (.field name)

/-- A field with a default. -/
def fieldOr (ms : List (String × Json)) (name : String) (default : α)
    (check : Json → Checked α) : Checked α :=
  match Json.member? name ms with
  | some v => (check v).inside (.field name)
  | none => .valid default

def document (check : Json → Checked α) (text : String) : Checked α :=
  match Json.parse? text with
  | some v => check v
  | none => .fail .jsonInvalid

end PolicyDelta.Check
