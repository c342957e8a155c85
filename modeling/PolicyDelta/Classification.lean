import PolicyDelta.Change.Basic
import PolicyDelta.PermissionSplit
import PolicyDelta.RuleIndex.Basic

/-! Matching the indexes of the two sides key by key. A key of one side only is added or removed,
unless every rule covers it through types or members that only that side has. At a key of both
sides a difference in content counts first; with equal content a rule that covers the key through
such members makes a change of types. -/

namespace PolicyDelta

/-- The indexes of one family on both sides with what relates the sides. -/
structure Classifier where
  base : RuleIndex
  modified : RuleIndex
  equivalence : Equivalence
  typeDelta : TypeDelta

/-- Indexes of different families are not matched. -/
structure FamilyMismatch where
  base : RuleFamily
  modified : RuleFamily
deriving DecidableEq

/-- The message for indexes of different families. -/
def FamilyMismatch.message (e : FamilyMismatch) : String :=
  s!"Cannot match {e.base.name} rules with {e.modified.name} rules"

namespace Classifier

/-- The classifier of two indexes of one family. -/
def make (base modified : RuleIndex) (equivalence : Equivalence) (typeDelta : TypeDelta) :
    Except FamilyMismatch Classifier :=
  if base.family = modified.family then .ok ⟨base, modified, equivalence, typeDelta⟩
  else .error ⟨base.family, modified.family⟩

variable (c : Classifier)

def family : RuleFamily := c.base.family

def index : Side → RuleIndex
  | .base => c.base
  | .modified => c.modified

/-- The members of an attribute that only a side has. -/
def freshMembers (a : String) : Side → NameSet
  | .base => c.typeDelta.attributeRemoved a
  | .modified => c.typeDelta.attributeAdded a

/-- The types that only a side has. -/
def freshTypes : Side → NameSet
  | .base => c.typeDelta.removedTypes
  | .modified => c.typeDelta.addedTypes

/-- How a rule covers a type of its key: through a type that only its side has, through a member
that only its side has, or as both sides do. -/
inductive Freshness where
  | newType
  | newMember
  | known
deriving DecidableEq

/-- How a source or target covers a type. -/
def freshness (side : Side) (nominal type : String) : Except UnknownIdentifier Freshness :=
  if type ∈ c.freshTypes side then .ok .newType
  else do
    match ← (c.equivalence.scope side).kindOf nominal with
    | .attributeName =>
      pure (if type ∈ c.freshMembers nominal side then .newMember else .known)
    | _ => pure .known

/-- The sources and targets of a rule with the types that they cover at a key. A target `self` is
covered with the source. -/
def endpoints (rule : Rule) (key : RuleKey) : List (String × String) :=
  (rule.head.source, key.source) ::
    if rule.head.target = selfTarget then [] else [(rule.head.target, key.target)]

/-- The types through which a rule covers a key on its side only. There are none if the rule covers
the key on the other side too or if it is a new rule. -/
def membershipTypes (side : Side) (rule : Rule) (key : RuleKey) :
    Except UnknownIdentifier NameSet := do
  let found ← (endpoints rule key).mapM fun p => do
    let f ← c.freshness side p.1 p.2
    pure (p.2, f)
  let of (f : Freshness) : NameSet :=
    .ofList ((found.filter (·.2 = f)).map Prod.fst)
  let newTypes := of .newType
  let newMembers := of .newMember
  if !newTypes.isEmpty then pure (newTypes ∪ newMembers)
  else if newMembers.isEmpty then pure ∅
  else
    let coverage ← c.equivalence.coverageOf side rule
    pure (if coverage ∈ (c.index side.other).coverage then newMembers else ∅)

/-- The types through which rules cover a key on their side only, if every rule has some. -/
def typesOfEvery (side : Side) (key : RuleKey) :
    List Rule → Except UnknownIdentifier (Option NameSet)
  | [] => .ok (some ∅)
  | rule :: rules => do
    let types ← c.membershipTypes side rule key
    if types.isEmpty then pure none
    else
      let rest ← typesOfEvery side key rules
      pure (rest.map (types ∪ ·))

/-- The types through which some of the rules cover a key on their side only. -/
def typesOfSome (side : Side) (key : RuleKey) : List Rule → Except UnknownIdentifier NameSet
  | [] => .ok ∅
  | rule :: rules => do
    let types ← c.membershipTypes side rule key
    let rest ← typesOfSome side key rules
    pure (types ∪ rest)

/-- The types through which all rules of an entry cover its key on their side only. -/
def membershipOfEvery (side : Side) (e : IndexEntry) : Except UnknownIdentifier NameSet := do
  let types ← c.typesOfEvery side e.key e.rules.toList
  pure (types.getD ∅)

/-- The types through which some rule of an entry covers its key on its side only. -/
def membershipOfSome (side : Side) (e : IndexEntry) : Except UnknownIdentifier NameSet :=
  c.typesOfSome side e.key e.rules.toList

/-- The comparison of the permissions of both sides. -/
def permissionSplit : Option IndexEntry → Option IndexEntry → PermissionSplit
  | some b, some m => .between b.perms m.perms
  | some e, none | none, some e => .oneSided e.perms
  | none, none => .oneSided ∅

def conflictsOf (b m : Option IndexEntry) : List DefaultConflict :=
  (b.bind (·.conflict? .base)).toList ++ (m.bind (·.conflict? .modified)).toList

/-- The change of a form between the entries of both sides at a key. -/
def change (form : ChangeForm) (key : RuleKey) (b m : Option IndexEntry) (types : NameSet) :
    Change :=
  let head : ChangeHead := ⟨form, key, types.toList⟩
  match c.family with
  | .av =>
    let split := permissionSplit b m
    .av ⟨head, split.unmodified.toList, split.added.toList, split.removed.toList⟩
  | .te => .te ⟨head, b.bind (·.default?), m.bind (·.default?), conflictsOf b m⟩

/-- The entries of both sides grant or determine the same. -/
def sameContent (b m : IndexEntry) : Bool :=
  match c.family with
  | .av => b.perms = m.perms
  | .te => b.defaults = m.defaults

/-- The change at a key between the entries of both sides, if there is one, given how the types
are found through which every rule, or some rule, of an entry covers its key on its side only. -/
def compareWith (ofEvery ofSome : Side → IndexEntry → Except UnknownIdentifier NameSet)
    (key : RuleKey) :
    Option IndexEntry → Option IndexEntry → Except UnknownIdentifier (Option Change)
  | none, none => .ok none
  | none, some m => do
    let types ← ofEvery .modified m
    let form := if types.isEmpty then .added else .addType
    pure (some (c.change form key none m types))
  | some b, none => do
    let types ← ofEvery .base b
    let form := if types.isEmpty then .removed else .removeType
    pure (some (c.change form key b none types))
  | some b, some m =>
    if !c.sameContent b m then pure (some (c.change .modified key b m ∅))
    else do
      let gained ← ofSome .modified m
      if !gained.isEmpty then pure (some (c.change .addType key b m gained))
      else
        let lost ← ofSome .base b
        if !lost.isEmpty then pure (some (c.change .removeType key b m lost)) else pure none

/-- The change at a key between the entries of both sides, if there is one. -/
def compareAt (key : RuleKey) (b m : Option IndexEntry) :
    Except UnknownIdentifier (Option Change) :=
  c.compareWith c.membershipOfEvery c.membershipOfSome key b m

def changeAt (key : RuleKey) : Except UnknownIdentifier (Option Change) :=
  c.compareAt key (c.base.get? key) (c.modified.get? key)

/-- Why a key cannot be classified. -/
inductive Failure where
  /-- Neither index has the key. -/
  | absent (key : RuleKey)
  | unknown (e : UnknownIdentifier)
deriving DecidableEq

/-- The change at a key that one of the indexes has. -/
def classify (key : RuleKey) : Except Failure (Option Change) :=
  if (c.base.get? key).isNone && (c.modified.get? key).isNone then .error (.absent key)
  else (c.changeAt key).mapError .unknown

def keys : List RuleKey :=
  (Std.ExtTreeSet.ofList (c.base.keys ++ c.modified.keys)).toList

def changes : Except UnknownIdentifier (List Change) := do
  let found ← c.keys.mapM c.changeAt
  pure (found.filterMap fun change => change)

def text : String :=
  s!"<RuleClassifier family={c.family.name} original={c.base.size} " ++
    s!"modified={c.modified.size}>"

end Classifier

/-- A key with all its parts, as it is shown where it is not found. -/
def RuleKey.record (k : RuleKey) : String :=
  let name? : Option String → String
    | none => "None"
    | some s => Text.quoted s
  let branch := match k.branch with
    | none => "None"
    | some true => "True"
    | some false => "False"
  s!"PseudoRuleKey(kind={Text.quoted k.kind}, cls={Text.quoted k.objectClass}, " ++
    s!"source={Text.quoted k.source}, target={Text.quoted k.target}, cond={name? k.cond}, " ++
    s!"branch={branch}, name={name? k.name})"

end PolicyDelta
