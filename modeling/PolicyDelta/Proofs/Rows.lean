import PolicyDelta.Proofs.Membership

/-! The table of changes. `Classifier.Row` says, row by row, which change belongs to the entries of
both sides at a key; on indexes of policies the classifier follows the table at every key
(`Classifier.Ready.changes_spec`). What is proved about changes is proved from the rows. -/

namespace PolicyDelta.Classifier

variable (c : Classifier)

/-- The types through which every rule of an entry covers its key on its side only; there are none
if some rule covers the key on both sides. -/
def EveryThrough (side : Side) (e : IndexEntry) (types : NameSet) : Prop :=
  ∀ t, t ∈ types ↔ (∀ rule ∈ e.rules, ∃ u, c.Through side rule e.key u) ∧
    ∃ rule ∈ e.rules, c.Through side rule e.key t

/-- The types through which some rule of an entry covers its key on its side only. -/
def SomeThrough (side : Side) (e : IndexEntry) (types : NameSet) : Prop :=
  ∀ t, t ∈ types ↔ ∃ rule ∈ e.rules, c.Through side rule e.key t

/-- The change at a key between the entries of both sides, if there is one. -/
inductive Row (key : RuleKey) :
    Option IndexEntry → Option IndexEntry → Option Change → Prop where
  | absent : Row key none none none
  | added (hevery : c.EveryThrough .modified m ∅) :
    Row key none (some m) (some (c.change .added key none (some m) ∅))
  | addType (hevery : c.EveryThrough .modified m types) (hne : types ≠ ∅) :
    Row key none (some m) (some (c.change .addType key none (some m) types))
  | removed (hevery : c.EveryThrough .base b ∅) :
    Row key (some b) none (some (c.change .removed key (some b) none ∅))
  | removeType (hevery : c.EveryThrough .base b types) (hne : types ≠ ∅) :
    Row key (some b) none (some (c.change .removeType key (some b) none types))
  | modified (hcontent : c.sameContent b m = false) :
    Row key (some b) (some m) (some (c.change .modified key (some b) (some m) ∅))
  | gained (hcontent : c.sameContent b m = true) (hgained : c.SomeThrough .modified m types)
    (hne : types ≠ ∅) :
    Row key (some b) (some m) (some (c.change .addType key (some b) (some m) types))
  | lost (hcontent : c.sameContent b m = true) (hgained : c.SomeThrough .modified m ∅)
    (hlost : c.SomeThrough .base b types) (hne : types ≠ ∅) :
    Row key (some b) (some m) (some (c.change .removeType key (some b) (some m) types))
  | same (hcontent : c.sameContent b m = true) (hgained : c.SomeThrough .modified m ∅)
    (hlost : c.SomeThrough .base b ∅) : Row key (some b) (some m) none

/-- The entry of a side. -/
def entryOf (b m : Option IndexEntry) : Side → Option IndexEntry
  | .base => b
  | .modified => m

variable {c} {key k : RuleKey} {b m : Option IndexEntry} {found : Option Change}

theorem change_form (form : ChangeForm) (key : RuleKey) (b m : Option IndexEntry)
    (types : NameSet) : (c.change form key b m types).form = form := by
  unfold change
  cases c.family <;> rfl

theorem change_key (form : ChangeForm) (key : RuleKey) (b m : Option IndexEntry)
    (types : NameSet) : (c.change form key b m types).key = key := by
  unfold change
  cases c.family <;> rfl

theorem Row.key_eq (h : c.Row key b m found) {ch : Change} (hch : found = some ch) :
    ch.key = key := by
  cases h with
  | absent | same => cases hch
  | added | addType | removed | removeType | modified | gained | lost =>
    cases hch
    exact change_key ..

theorem Row.eq_none (h : c.Row key none none found) : found = none := by
  cases h
  rfl

/-- The rules of an entry have been read. -/
def EntryRead (side : Side) (e : IndexEntry) (c : Classifier) : Prop :=
  ∀ rule ∈ e.rules, ∃ r, c.equivalence.Read side rule r

theorem isEmpty_eq_false {types : NameSet} (hne : types ≠ ∅) : types.isEmpty = false := by
  rw [← Bool.not_eq_true, Std.ExtTreeSet.isEmpty_iff]
  exact hne

section

variable {ofEvery ofSome : Side → IndexEntry → Except UnknownIdentifier NameSet}
  {types gained lost : NameSet}

theorem compareWith_modified {m : IndexEntry} (h : ofEvery .modified m = .ok types) :
    c.compareWith ofEvery ofSome key none (some m) =
      .ok (some (c.change (if types.isEmpty then .added else .addType) key none m types)) := by
  rw [compareWith, h]
  rfl

theorem compareWith_base {b : IndexEntry} (h : ofEvery .base b = .ok types) :
    c.compareWith ofEvery ofSome key (some b) none =
      .ok (some (c.change (if types.isEmpty then .removed else .removeType) key b none types)) := by
  rw [compareWith, h]
  rfl

/-- With equal content the types that the modified side gains count first. -/
theorem compareWith_sameContent {b m : IndexEntry} (hcontent : c.sameContent b m = true)
    (hgained : ofSome .modified m = .ok gained) (hlost : ofSome .base b = .ok lost) :
    c.compareWith ofEvery ofSome key (some b) (some m) = .ok
      (if !gained.isEmpty then some (c.change .addType key b m gained)
      else if !lost.isEmpty then some (c.change .removeType key b m lost) else none) := by
  rw [compareWith, hcontent, hgained, hlost]
  simp only [bind, Except.bind]
  cases gained.isEmpty with
  | false => rfl
  | true => cases lost.isEmpty <;> rfl

end

/-- At entries whose rules have been read the comparison follows the table. -/
theorem compareAt_row (hb : ∀ e ∈ b, EntryRead .base e c) (hm : ∀ e ∈ m, EntryRead .modified e c) :
    ∃ found, c.compareAt key b m = .ok found ∧ c.Row key b m found := by
  rcases b with - | b <;> rcases m with - | m
  · exact ⟨none, rfl, .absent⟩
  · obtain ⟨types, htypes, hmem⟩ := membershipOfEvery_spec (hm m rfl)
    rw [compareAt, compareWith_modified htypes]
    by_cases hne : types = ∅
    · subst hne
      exact ⟨_, rfl, .added hmem⟩
    · rw [isEmpty_eq_false hne]
      exact ⟨_, rfl, .addType hmem hne⟩
  · obtain ⟨types, htypes, hmem⟩ := membershipOfEvery_spec (hb b rfl)
    rw [compareAt, compareWith_base htypes]
    by_cases hne : types = ∅
    · subst hne
      exact ⟨_, rfl, .removed hmem⟩
    · rw [isEmpty_eq_false hne]
      exact ⟨_, rfl, .removeType hmem hne⟩
  · cases hcontent : c.sameContent b m with
    | false =>
      rw [compareAt, compareWith, hcontent]
      exact ⟨_, rfl, .modified hcontent⟩
    | true =>
      obtain ⟨gained, hgained, hmem⟩ := membershipOfSome_spec (hm m rfl)
      obtain ⟨lost, hlost, hmem'⟩ := membershipOfSome_spec (hb b rfl)
      rw [compareAt, compareWith_sameContent hcontent hgained hlost]
      by_cases hne : gained = ∅
      · subst hne
        by_cases hne' : lost = ∅
        · subst hne'
          exact ⟨none, rfl, .same hcontent hmem hmem'⟩
        · rw [isEmpty_eq_false hne']
          exact ⟨_, rfl, .lost hcontent hmem hmem' hne'⟩
      · rw [isEmpty_eq_false hne]
        exact ⟨_, rfl, .gained hcontent hmem hne⟩

/-- Both indexes of a classifier hold the rules of a family. -/
structure Ready (c : Classifier) (family : RuleFamily) : Prop where
  base : c.base.Indexes c.equivalence family .base
  modified : c.modified.Indexes c.equivalence family .modified

variable {family : RuleFamily}

theorem entryRead_of_indexes {ix : RuleIndex} {side : Side} {e : IndexEntry}
    (h : ix.Indexes c.equivalence family side) (he : ix.get? key = some e) :
    EntryRead side e c := by
  intro rule hrule
  obtain ⟨hmem, -⟩ := (h.rules key e he rule).1 hrule
  exact h.readable rule hmem

theorem Ready.changeAt (h : c.Ready family) (key : RuleKey) : ∃ found,
    c.changeAt key = .ok found ∧ c.Row key (c.base.get? key) (c.modified.get? key) found :=
  compareAt_row (fun _ he => entryRead_of_indexes h.base he)
    fun _ he => entryRead_of_indexes h.modified he

theorem mem_keys : key ∈ c.keys ↔ (c.base.get? key).isSome ∨ (c.modified.get? key).isSome := by
  simp [keys, RuleIndex.keys, RuleIndex.get?, Std.ExtTreeSet.mem_ofList]

theorem keys_nodup (c : Classifier) : c.keys.Nodup :=
  Std.ExtTreeSet.distinct_toList.imp fun hne heq => hne (Std.compare_eq_iff_eq.2 heq)

/-- Of the changes that belong to the keys of a list the one at a key is what belongs to it. -/
theorem filter_filterMap {change : RuleKey → Option Change} {keys : List RuleKey}
    (hkeys : keys.Nodup) (hkey : ∀ k ch, change k = some ch → ch.key = k)
    (hout : k ∉ keys → change k = none) :
    (keys.filterMap change).filter (·.key = k) = (change k).toList := by
  have hswap : (keys.filterMap change).filter (·.key = k) =
      (keys.filter (· = k)).filterMap change := by
    clear hkeys hout
    induction keys with
    | nil => rfl
    | cons k' keys ih =>
      by_cases hk : k' = k
      · cases hch : change k' with
        | none => simpa [hk, hk ▸ hch] using ih
        | some ch => simpa [hk, hk ▸ hch, (hkey k' ch hch).trans hk] using ih
      · cases hch : change k' with
        | none => simpa [hk, hch] using ih
        | some ch => simpa [hk, hch, hkey k' ch hch] using ih
  rw [hswap, List.filter_eq, hkeys.count]
  split
  · cases hch : change k <;> simp [hch]
  · rename_i hk
    rw [hout hk]
    rfl

/-- The changes are those that the rows of the table give at the keys, in the order of the keys. -/
theorem Ready.exists_change (h : c.Ready family) : ∃ change : RuleKey → Option Change,
    c.changes = .ok (c.keys.filterMap change) ∧
      ∀ k, c.Row k (c.base.get? k) (c.modified.get? k) (change k) := by
  obtain ⟨change, hchange⟩ := Classical.axiomOfChoice h.changeAt
  have hfound : c.keys.mapM c.changeAt = .ok (c.keys.map change) :=
    mapM_eq_ok_map fun k _ => (hchange k).1
  refine ⟨change, ?_, fun k => (hchange k).2⟩
  rw [changes, hfound]
  simp [bind, Except.bind, List.filterMap_map]
  rfl

/-- The changes follow the table: at each key there is the one of its row, or none. -/
theorem Ready.changes_spec (h : c.Ready family) : ∃ changes, c.changes = .ok changes ∧
    ∀ k, ∃ found : Option Change, changes.filter (·.key = k) = found.toList ∧
      c.Row k (c.base.get? k) (c.modified.get? k) found := by
  obtain ⟨change, hchanges, hrow⟩ := h.exists_change
  refine ⟨_, hchanges, fun k => ⟨change k, ?_, hrow k⟩⟩
  refine filter_filterMap (keys_nodup c) (fun k ch hch => (hrow k).key_eq hch) fun hk => ?_
  obtain ⟨hb, hm⟩ := not_or.1 (mt mem_keys.2 hk)
  have hnone := hrow k
  rw [Option.not_isSome_iff_eq_none] at hb hm
  rw [hb, hm] at hnone
  exact hnone.eq_none

/-- A change follows the row of its key. -/
theorem Ready.row_of_mem (h : c.Ready family) {changes : List Change}
    (hchanges : c.changes = .ok changes) {ch : Change} (hch : ch ∈ changes) :
    c.Row ch.key (c.base.get? ch.key) (c.modified.get? ch.key) (some ch) := by
  obtain ⟨change, hall, hrow⟩ := h.exists_change
  cases hchanges.symm.trans hall
  obtain ⟨k, -, hk⟩ := List.mem_filterMap.1 hch
  obtain rfl := (hrow k).key_eq hk
  exact hk ▸ hrow ch.key

end PolicyDelta.Classifier
