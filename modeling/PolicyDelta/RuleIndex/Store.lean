import PolicyDelta.RuleIndex.Basic

/-! A store of indexes that share entries. An index holds for each key the place of its entry. A
merged index shares the entries that only one of the merged indexes has and gets new entries at the
keys that both have, so an insertion at a shared entry is seen through every index that holds it. -/

namespace PolicyDelta

/-- An index whose entries lie in a store. -/
structure StoredIndex where
  family : RuleFamily
  side : Side
  /-- The place of the entry at each key. -/
  places : Std.ExtTreeMap RuleKey Nat := ∅
  coverage : Std.ExtTreeSet Coverage := ∅

/-- Entries and indexes, each known by its place. -/
structure IndexStore where
  entries : Array IndexEntry := #[]
  indexes : Array StoredIndex := #[]

namespace IndexStore

/-- The store with one more index, and the place of it. -/
def push (st : IndexStore) (ix : StoredIndex) : IndexStore × Nat :=
  ({ st with indexes := st.indexes.push ix }, st.indexes.size)

/-- The store with one more entry at a key of an index that is not in the store yet. -/
def place (p : IndexStore × StoredIndex) (k : RuleKey) (e : IndexEntry) :
    IndexStore × StoredIndex :=
  ({ p.1 with entries := p.1.entries.push e },
    { p.2 with places := p.2.places.insert k p.1.entries.size })

def add (st : IndexStore) (ix : RuleIndex) : IndexStore × Nat :=
  let (st, stored) := ix.entries.foldl place
    (st, { family := ix.family, side := ix.side, coverage := ix.coverage })
  st.push stored

/-- What an index in the store holds now. -/
def view (st : IndexStore) (ix : StoredIndex) : RuleIndex :=
  { family := ix.family
    side := ix.side
    entries := ix.places.filterMap fun _ i => st.entries[i]?
    coverage := ix.coverage }

def get? (st : IndexStore) (i : Nat) : Option RuleIndex :=
  st.indexes[i]?.map st.view

/-- Inserts a rule through an index: the entry at the key changes where it lies, and a key without
entry gets a new one. -/
def insert (st : IndexStore) (i : Nat) (k : RuleKey) (rule : Rule) (default : Option String) :
    IndexStore :=
  match st.indexes[i]? with
  | none => st
  | some ix =>
    match ix.places[k]? with
    | some place => { st with entries := st.entries.modify place (·.add rule default) }
    | none =>
      let (st, ix) := place (st, ix) k ({ key := k : IndexEntry }.add rule default)
      { st with indexes := st.indexes.setIfInBounds i ix }

/-- Adds an entry of the second index to a merged one: a new entry where the first has the key, the
same entry otherwise. -/
def mergeEntry (p : IndexStore × StoredIndex) (k : RuleKey) (there : Nat) :
    IndexStore × StoredIndex :=
  match p.2.places[k]? with
  | none => (p.1, { p.2 with places := p.2.places.insert k there })
  | some here =>
    match p.1.entries[here]?, p.1.entries[there]? with
    | some e, some f => place p k (e.join f)
    | _, _ => p

/-- Stores the merged index of two indexes of one family and one side. -/
def merge (st : IndexStore) (a b : StoredIndex) : Except MergeMismatch (IndexStore × Nat) :=
  if a.family = b.family ∧ a.side = b.side then
    let (st, ix) := b.places.foldl mergeEntry (st, { a with coverage := a.coverage ∪ b.coverage })
    .ok (st.push ix)
  else .error ⟨a.side, a.family, b.side, b.family⟩

end IndexStore

end PolicyDelta
