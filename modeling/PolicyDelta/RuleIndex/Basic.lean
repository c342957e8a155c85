import PolicyDelta.DefaultConflict
import PolicyDelta.Expansion
import PolicyDelta.Policy.RuleOrder

/-! Indexes of the rules of one family and one side by their keys. An entry collects the rules that
have its key, the permissions that they grant together and the default types that they determine.
Merging joins two indexes entry by entry. -/

namespace PolicyDelta

/-- What the rules of one key say together. -/
structure IndexEntry where
  key : RuleKey
  rules : Std.ExtTreeSet Rule := ∅
  perms : NameSet := ∅
  /-- The canonical names of the default types. -/
  defaults : NameSet := ∅
deriving DecidableEq

namespace IndexEntry

/-- The default type, unless there is none or more than one. -/
def default? (e : IndexEntry) : Option String :=
  match e.defaults.toList with
  | [d] => some d
  | _ => none

/-- More than one default type is determined. -/
def isConflicting (e : IndexEntry) : Bool :=
  1 < e.defaults.size

/-- The entry with another rule; the default type counts for type enforcement rules only. -/
def add (e : IndexEntry) (rule : Rule) (default : Option String) : IndexEntry :=
  let e := { e with rules := e.rules.insert rule }
  match rule, default with
  | .av r, _ => { e with perms := e.perms ∪ r.perms }
  | .te _, some d => { e with defaults := e.defaults.insert d }
  | .te _, none => e

def join (e f : IndexEntry) : IndexEntry :=
  ⟨e.key, e.rules ∪ f.rules, e.perms ∪ f.perms, e.defaults ∪ f.defaults⟩

/-- The diagnostic of an entry with more than one default type. -/
def conflict? (side : Side) (e : IndexEntry) : Option DefaultConflict :=
  if e.isConflicting then some ⟨side.name, e.key.text, e.defaults.toList⟩ else none

end IndexEntry

/-- An index of rules. -/
structure RuleIndex where
  family : RuleFamily
  side : Side
  entries : Std.ExtTreeMap RuleKey IndexEntry := ∅
  /-- What the indexed rules say before expansion. -/
  coverage : Std.ExtTreeSet Coverage := ∅

/-- Two indexes of different families or sides do not merge. -/
structure MergeMismatch where
  intoSide : Side
  intoFamily : RuleFamily
  fromSide : Side
  fromFamily : RuleFamily
deriving DecidableEq

def MergeMismatch.message (e : MergeMismatch) : String :=
  s!"Cannot merge {e.fromSide.name} {e.fromFamily.name} index " ++
    s!"into {e.intoSide.name} {e.intoFamily.name} index"

namespace RuleIndex

def size (ix : RuleIndex) : Nat := ix.entries.size

def keys (ix : RuleIndex) : List RuleKey := ix.entries.keys

def get? (ix : RuleIndex) (k : RuleKey) : Option IndexEntry := ix.entries[k]?

/-- The entry that a rule makes of the one at its key. -/
def entryWith (ix : RuleIndex) (k : RuleKey) (rule : Rule) (default : Option String) :
    IndexEntry :=
  (ix.entries.getD k { key := k }).add rule default

/-- The index with a rule added at a key; its coverage stays. -/
def insert (ix : RuleIndex) (k : RuleKey) (rule : Rule) (default : Option String) : RuleIndex :=
  { ix with entries := ix.entries.insert k (ix.entryWith k rule default) }

/-- The entries of two indexes together. -/
def joinEntries (a b : Std.ExtTreeMap RuleKey IndexEntry) : Std.ExtTreeMap RuleKey IndexEntry :=
  b.foldl (fun m k e => m.insert k (match a[k]? with
    | some d => d.join e
    | none => e)) a

/-- The index with the entries and the coverage of both. -/
def join (a b : RuleIndex) : RuleIndex :=
  { a with entries := joinEntries a.entries b.entries, coverage := a.coverage ∪ b.coverage }

/-- The join of two indexes of one family and one side. -/
def merge (a b : RuleIndex) : Except MergeMismatch RuleIndex :=
  if a.family = b.family ∧ a.side = b.side then .ok (a.join b)
  else .error ⟨a.side, a.family, b.side, b.family⟩

/-- The diagnostics of all entries in the order of their keys. -/
def conflicts (ix : RuleIndex) : List DefaultConflict :=
  ix.entries.toList.filterMap fun p => p.2.conflict? ix.side

end RuleIndex

end PolicyDelta
