import PolicyDelta.Json.Layout
import PolicyDelta.Policy.Basic
import PolicyDelta.Sha256
import PolicyDelta.Text.Hex

/-! The identity of a policy. A policy without a given identity is identified by the hash of its
canonical text, in which every set and every map is sorted; so two policies of equal content share
it however their files were written. -/

namespace PolicyDelta

open Json

def Json.ofNames (names : List String) : Json :=
  .array (names.map .text)

def Json.ofName? : Option String → Json
  | none => .null
  | some s => .text s

def Json.ofInt? : Option Int → Json
  | none => .null
  | some n => .integer n

/-- A map as an object with sorted keys. -/
def Json.ofMap (value : α → Json) (m : NameMap α) : Json :=
  .object (m.toList.map fun p => (p.1, value p.2))

/-- The fields of a rule in the order of their names. -/
def AvRule.toJson (r : AvRule) : Json :=
  .object [
    ("branch", .bool r.branch),
    ("class", .text r.objectClass),
    ("cond", ofName? r.cond),
    ("flavor", .text r.flavor.name),
    ("line", ofInt? r.line),
    ("perms", ofNames r.perms.toList),
    ("source", .text r.source),
    ("target", .text r.target)]

/-- The fields of a rule in the order of their names. -/
def TeRule.toJson (r : TeRule) : Json :=
  .object [
    ("branch", .bool r.branch),
    ("class", .text r.objectClass),
    ("cond", ofName? r.cond),
    ("default", .text r.default),
    ("flavor", .text r.flavor.name),
    ("line", ofInt? r.line),
    ("name", ofName? r.name),
    ("source", .text r.source),
    ("target", .text r.target)]

namespace Policy

/-- The content of a policy, without its identity, in the order of the names. -/
def contentJson (p : Policy) : Json :=
  .object [
    ("aliases", ofMap .text p.aliases),
    ("attributes", ofMap (fun s => ofNames s.toList) p.attributes),
    ("avrules", .array (p.avRules.map AvRule.toJson)),
    ("classes", ofMap (fun s => ofNames s.toList) p.classes),
    ("terules", .array (p.teRules.map TeRule.toJson)),
    ("types", ofNames p.types.toList)]

/-- The canonical text of the content. -/
def contentText (p : Policy) : String :=
  render .canonical p.contentJson

/-- The first 64 bits of the hash of a text, in hexadecimal digits. -/
def textDigest (s : String) : String :=
  String.ofList (((Sha256.digest s.toUTF8).take 2).flatMap fun w => Text.hex 8 w.toNat)

/-- The identity of a policy: the given one, else the digest of its content. Rule lines of more than
`Text.maxDigits` digits, which a call trace refuses, are not refused here. -/
def id (p : Policy) : String :=
  match p.identity with
  | some i => i
  | none => textDigest p.contentText

end Policy

end PolicyDelta
