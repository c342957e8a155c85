import Mathlib.Data.List.Basic
import PolicyDelta.Proofs.Comparison
import PolicyDelta.Proofs.Sets

/-! Changes of type enforcement rules are exact and lose nothing, and diagnostics are complete.
`Equivalence.Determines` says which default types the rules of a side determine at a key. A side
without default type in a change is silent or in conflict; the conflicts of the change tell
which. -/

namespace PolicyDelta

/-- The default types that the type enforcement rules of a side determine at a key, by canonical
names: nothing is said if no rule covers the key, otherwise the default types of all rules that
do. -/
def Equivalence.Determines (eq : Equivalence) (side : Side) (k : RuleKey) :
    Option NameSet → Prop :=
  eq.Together .te side (fun rule d => RuleIndex.resolvedDefault eq side rule = .ok (some d)) k

theorem RuleIndex.Indexes.determines {ix : RuleIndex} {eq : Equivalence} {side : Side}
    (h : ix.Indexes eq .te side) (k : RuleKey) :
    eq.Determines side k ((ix.get? k).map (·.defaults)) :=
  h.together h.defaults k

/-- The diagnostic for default types at a key of a side. -/
def Side.diagnostic (side : Side) (k : RuleKey) (defaults : NameSet) : DefaultConflict :=
  ⟨side.name, k.text, defaults.toList⟩

/-- There is a diagnostic for more than one default type only. -/
def Side.diagnostic? (side : Side) (k : RuleKey) (defaults : NameSet) : Option DefaultConflict :=
  if 1 < defaults.size then some (side.diagnostic k defaults) else none

namespace TeChange

/-- The default type of a side. -/
def default? (c : TeChange) : Side → Option String
  | .base => c.baseDefault
  | .modified => c.modifiedDefault

/-- What a change tells about the default types of a side: the one default type, or those of the
side's diagnostic, or that nothing is determined. -/
def defaults? (c : TeChange) (side : Side) : Option NameSet :=
  match c.default? side with
  | some d => some {d}
  | none => (c.conflicts.find? (·.side = side.name)).map fun x => .ofList x.defaults

/-- A change is exact about what is determined before and after. -/
structure Exact (c : TeChange) (before after : Option NameSet) : Prop where
  modified_iff : c.form = .modified ↔ before.isSome ∧ after.isSome ∧ before ≠ after
  defaults_base : c.defaults? .base = before
  defaults_modified : c.defaults? .modified = after
  conflicts_eq : c.conflicts = (before.bind (Side.base.diagnostic? c.key)).toList ++
    (after.bind (Side.modified.diagnostic? c.key)).toList
  ordered : ∀ x ∈ c.conflicts, Ordered x.defaults

end TeChange

/-- The change at a key is exact if there is one, and without change the same is determined before
and after. -/
inductive ExactTe : Option Change → Option NameSet → Option NameSet → Prop where
  | same : ExactTe none determined determined
  | change (hexact : c.Exact before after) : ExactTe (some (.te c)) before after

namespace IndexEntry

variable {e : IndexEntry}

theorem conflict?_eq (side : Side) (e : IndexEntry) :
    e.conflict? side = side.diagnostic? e.key e.defaults := by
  simp [conflict?, isConflicting, Side.diagnostic?, Side.diagnostic]

theorem side_of_conflict? {side : Side} {x : DefaultConflict} (h : e.conflict? side = some x) :
    x = side.diagnostic e.key e.defaults := by
  rw [conflict?_eq, Side.diagnostic?] at h
  split at h
  · exact (Option.some.inj h).symm
  · cases h

/-- An entry with default types has one of them and no diagnostic, or it has no single default type
and a diagnostic. -/
theorem default?_or_conflict? (hne : e.defaults ≠ ∅) (side : Side) :
    (∃ d, e.default? = some d ∧ e.defaults = {d}) ∨
      (e.default? = none ∧ e.conflict? side = some (side.diagnostic e.key e.defaults)) := by
  have hset := NameSet.ofList_toList e.defaults
  rw [conflict?_eq, Side.diagnostic?, ← Std.ExtTreeSet.length_toList, default?]
  -- One name makes the default type, more make the diagnostic, and there is at least one.
  match hlist : e.defaults.toList with
  | [] =>
    rw [hlist] at hset
    exact absurd hset.symm hne
  | [d] =>
    rw [hlist] at hset
    exact .inl ⟨d, rfl, hset.symm⟩
  | d :: d' :: ds => exact .inr ⟨rfl, by simp⟩

end IndexEntry

namespace Classifier

variable {c : Classifier} {key : RuleKey} {b m : Option IndexEntry} {found : Option Change}

/-- The change of type enforcement rules of a form between the entries of both sides. -/
def teChange (form : ChangeForm) (key : RuleKey) (b m : Option IndexEntry) (types : NameSet) :
    TeChange :=
  ⟨⟨form, key, types.toList⟩, b.bind (·.default?), m.bind (·.default?), conflictsOf b m⟩

theorem change_te (hfamily : c.family = .te) (form : ChangeForm) (key : RuleKey)
    (b m : Option IndexEntry) (types : NameSet) :
    c.change form key b m types = .te (teChange form key b m types) := by
  rw [change, hfamily]
  rfl

theorem find?_conflictsOf (b m : Option IndexEntry) (side : Side) :
    (conflictsOf b m).find? (·.side = side.name) =
      (entryOf b m side).bind (·.conflict? side) := by
  have hside {e : Option IndexEntry} {side side' : Side} :
      (e.bind (·.conflict? side)).toList.find? (·.side = side'.name) =
        if side = side' then e.bind (·.conflict? side) else none := by
    cases hx : e.bind (·.conflict? side) with
    | none => simp
    | some x =>
      obtain ⟨e, -, hx⟩ := Option.bind_eq_some_iff.1 hx
      obtain rfl := IndexEntry.side_of_conflict? hx
      cases side <;> cases side' <;> rfl
  rw [conflictsOf, List.find?_append, hside, hside]
  cases side <;> simp [entryOf]

/-- What a change tells about a side's default types is what its entry determines. -/
theorem defaults?_teChange {form : ChangeForm} {types : NameSet} (side : Side)
    (h : ∀ e ∈ entryOf b m side, e.defaults ≠ ∅) :
    (teChange form key b m types).defaults? side = (entryOf b m side).map (·.defaults) := by
  have hdefault : (teChange form key b m types).default? side =
      (entryOf b m side).bind (·.default?) := by
    cases side <;> rfl
  have hconflict := find?_conflictsOf b m side
  rw [TeChange.defaults?, hdefault]
  cases hentry : entryOf b m side with
  | none =>
    rw [hentry] at hconflict
    exact congrArg (Option.map _) hconflict
  | some e =>
    rw [hentry] at hconflict
    obtain ⟨d, hd, hdefaults⟩ | ⟨hnone, hx⟩ := IndexEntry.default?_or_conflict? (h e hentry) side
    · simp [hd, hdefaults]
    · simp only [Option.bind_some, hnone]
      rw [show (teChange form key b m types).conflicts = conflictsOf b m from rfl, hconflict,
        Option.bind_some, hx]
      exact congrArg some (NameSet.ofList_toList e.defaults)

theorem bind_conflict? (h : ∀ e ∈ b, e.key = key) (side : Side) :
    b.bind (·.conflict? side) = (b.map (·.defaults)).bind (side.diagnostic? key) := by
  cases b with
  | none => rfl
  | some e =>
    rw [← h e rfl]
    exact IndexEntry.conflict?_eq side e

theorem ordered_of_mem_conflictsOf {x : DefaultConflict} (hx : x ∈ conflictsOf b m) :
    Ordered x.defaults := by
  have hone {e : Option IndexEntry} {side : Side} (hx : e.bind (·.conflict? side) = some x) :
      Ordered x.defaults := by
    obtain ⟨e, -, hx⟩ := Option.bind_eq_some_iff.1 hx
    obtain rfl := IndexEntry.side_of_conflict? hx
    exact NameSet.ordered_toList e.defaults
  rcases List.mem_append.1 hx with hx | hx
  · exact hone (Option.mem_toList.1 hx)
  · exact hone (Option.mem_toList.1 hx)

/-- An entry of the key that has default types. -/
def Determined (key : RuleKey) (e : IndexEntry) : Prop := e.key = key ∧ e.defaults ≠ ∅

theorem teChange_exact {form : ChangeForm} (types : NameSet) (hb : ∀ e ∈ b, Determined key e)
    (hm : ∀ e ∈ m, Determined key e) (hform : form = .modified ↔
      b.isSome ∧ m.isSome ∧ b.map (·.defaults) ≠ m.map (·.defaults)) :
    (teChange form key b m types).Exact (b.map (·.defaults)) (m.map (·.defaults)) where
  modified_iff := by
    rw [Option.isSome_map, Option.isSome_map]
    exact hform
  defaults_base := defaults?_teChange .base fun e he => (hb e he).2
  defaults_modified := defaults?_teChange .modified fun e he => (hm e he).2
  conflicts_eq := by
    change conflictsOf b m = _
    rw [conflictsOf, bind_conflict? fun e he => (hb e he).1, bind_conflict? fun e he => (hm e he).1]
    rfl
  ordered x hx := ordered_of_mem_conflictsOf hx

/-- Each row of the table is exact about the default types of both entries. -/
theorem Row.exactTe (hfamily : c.family = .te) (hb : ∀ e ∈ b, Determined key e)
    (hm : ∀ e ∈ m, Determined key e) (h : c.Row key b m found) :
    ExactTe found (b.map (·.defaults)) (m.map (·.defaults)) := by
  have hcontent (e f : IndexEntry) : c.sameContent e f = decide (e.defaults = f.defaults) := by
    rw [sameContent, hfamily]
  cases h with
  | absent => exact .same
  | added | addType | removed | removeType =>
    rw [change_te hfamily]
    exact .change (teChange_exact _ hb hm (by simp))
  | modified hdiffer =>
    rw [hcontent, decide_eq_false_iff_not] at hdiffer
    rw [change_te hfamily]
    exact .change (teChange_exact _ hb hm (by simp [hdiffer]))
  | gained hsame | lost hsame =>
    rw [hcontent, decide_eq_true_iff] at hsame
    rw [change_te hfamily]
    exact .change (teChange_exact _ hb hm (by simp [hsame]))
  | same hsame =>
    rw [hcontent, decide_eq_true_iff] at hsame
    rw [Option.map_some, Option.map_some, hsame]
    exact .same

end Classifier

namespace RuleIndex

variable {ix : RuleIndex} {eq : Equivalence} {side : Side} {k : RuleKey} {e : IndexEntry}

/-! ## Entries have default types in one family only -/

theorem resolvedDefault_te {r : TeRule} {o : Option String}
    (h : resolvedDefault eq side (.te r) = .ok o) : o.isSome := by
  obtain ⟨type, -, h⟩ := bind_eq_ok.1 h
  obtain ⟨d, -, rfl⟩ := map_eq_ok.1 h
  rfl

/-- An entry of type enforcement rules has default types. -/
theorem Indexes.determined (h : ix.Indexes eq .te side) (he : ix.get? k = some e) :
    Classifier.Determined k e := by
  refine ⟨h.key k e he, fun hempty => ?_⟩
  obtain ⟨rule, hrule, hk⟩ := (h.covered k).1 (by rw [he]; rfl)
  obtain ⟨r, hread⟩ := h.readable rule hrule
  obtain ⟨te, -, rfl⟩ := List.mem_map.1 hrule
  obtain ⟨d, hd⟩ := Option.isSome_iff_exists.1 (resolvedDefault_te hread.default_eq)
  have hmem := (h.defaults k e he d).2 ⟨_, hrule, hk, hd ▸ hread.default_eq⟩
  rw [hempty] at hmem
  exact Std.ExtTreeSet.not_mem_empty hmem

/-- An entry of access vector rules has none. -/
theorem Indexes.defaults_av (h : ix.Indexes eq .av side) (he : ix.get? k = some e) :
    e.defaults = ∅ := by
  refine Std.ExtTreeSet.eq_empty_iff_forall_not_mem.2 fun d hd => ?_
  obtain ⟨rule, hrule, -, hdefault⟩ := (h.defaults k e he d).1 hd
  obtain ⟨av, -, rfl⟩ := List.mem_map.1 hrule
  cases resolvedDefault_family hdefault

/-! ## Diagnostics -/

/-- The keys of an index at which more than one default type is determined, in order, with these
default types. -/
def disputed (ix : RuleIndex) : List (RuleKey × NameSet) :=
  ix.entries.toList.filterMap fun p =>
    if 1 < p.2.defaults.size then some (p.1, p.2.defaults) else none

theorem mem_disputed {defaults : NameSet} : (k, defaults) ∈ ix.disputed ↔
    ∃ e, ix.get? k = some e ∧ e.defaults = defaults ∧ 1 < defaults.size := by
  simp only [disputed, List.mem_filterMap, Prod.exists,
    Std.ExtTreeMap.mem_toList_iff_getElem?_eq_some, Option.ite_none_right_eq_some,
    Option.some.injEq, Prod.mk.injEq]
  constructor
  · rintro ⟨k, e, he, hsize, rfl, rfl⟩
    exact ⟨e, he, rfl, hsize⟩
  · rintro ⟨e, he, rfl, hsize⟩
    exact ⟨k, e, he, hsize, rfl, rfl⟩

theorem disputed_ordered (ix : RuleIndex) :
    ix.disputed.Pairwise fun p q => compare p.1 q.1 = .lt := by
  refine Std.ExtTreeMap.ordered_keys_toList.filterMap _ fun p q hlt x hx y hy => ?_
  split at hx
  · split at hy
    · cases hx
      cases hy
      exact hlt
    · cases hy
  · cases hx

theorem conflicts_eq (hkey : ∀ k e, ix.get? k = some e → e.key = k) :
    ix.conflicts = ix.disputed.map fun p => ix.side.diagnostic p.1 p.2 := by
  rw [conflicts, disputed, List.map_filterMap]
  refine List.filterMap_congr fun p hp => ?_
  rw [IndexEntry.conflict?_eq, Side.diagnostic?,
    hkey p.1 p.2 (Std.ExtTreeMap.mem_toList_iff_getElem?_eq_some.1 hp)]
  split <;> rfl

/-- The disputed keys are those at which the rules determine more than one default type. -/
theorem Indexes.mem_disputed (h : ix.Indexes eq .te side) {defaults : NameSet} :
    (k, defaults) ∈ ix.disputed ↔ eq.Determines side k (some defaults) ∧ 1 < defaults.size := by
  have hdetermines := h.determines k
  rw [RuleIndex.mem_disputed]
  constructor
  · rintro ⟨e, he, rfl, hsize⟩
    rw [he] at hdetermines
    exact ⟨hdetermines, hsize⟩
  · rintro ⟨hsome, hsize⟩
    obtain ⟨e, he, hdefaults⟩ := Option.map_eq_some_iff.1 (hdetermines.unique hsome)
    exact ⟨e, he, hdefaults, hsize⟩

theorem Indexes.conflicts_av (h : ix.Indexes eq .av side) : ix.conflicts = [] := by
  refine List.filterMap_eq_nil_iff.2 fun p hp => ?_
  have he := Std.ExtTreeMap.mem_toList_iff_getElem?_eq_some.1 hp
  rw [IndexEntry.conflict?_eq, Side.diagnostic?, h.defaults_av he]
  rfl

end RuleIndex

/-- The changes of type enforcement rules are exact at every key, as those of access vector rules
are, and lose no default type. The diagnostics are those of all keys of a side with more than one
default type, in the order of the keys, whether there is a change at the key or not. -/
theorem Session.teChanges_exact {base modified : Policy} {d : TypeDelta} {workers : Int}
    {s : Session} (h : (build base modified d workers).1 = .ok s) :
    (∃ changes, s.changes .te = .ok changes ∧ ∀ k, ∃ before after found,
      (Equivalence.ofDelta base modified d).Determines .base k before ∧
      (Equivalence.ofDelta base modified d).Determines .modified k after ∧
      changes.filter (·.key = k) = found.toList ∧ ExactTe found before after) ∧
    ∃ disputed : Side → List (RuleKey × NameSet),
      s.diagnostics = .ok
        ((disputed .base).map (fun p => Side.base.diagnostic p.1 p.2) ++
          (disputed .modified).map fun p => Side.modified.diagnostic p.1 p.2) ∧
      ∀ side, (disputed side).Pairwise (fun p q => compare p.1 q.1 = .lt) ∧
        ∀ k defaults, (k, defaults) ∈ disputed side ↔
          (Equivalence.ofDelta base modified d).Determines side k (some defaults) ∧
            1 < defaults.size := by
  obtain ⟨index, hbuilt⟩ := exists_built h
  have hbase := hbuilt.indexes .te .base
  have hmodified := hbuilt.indexes .te .modified
  refine ⟨?_, fun side => (index .te side).disputed, ?_, fun side => ⟨?_, fun k defaults => ?_⟩⟩
  · obtain ⟨changes, hchanges, hrow⟩ := hbuilt.changes .te
    refine ⟨changes, hchanges, fun k => ?_⟩
    obtain ⟨found, hfound, hrow⟩ := hrow k
    have hfamily : (classifierOf (.ofDelta base modified d) d index .te).family = .te :=
      hbase.family_eq
    exact ⟨_, _, found, hbase.determines k, hmodified.determines k, hfound,
      hrow.exactTe hfamily (fun _ he => hbase.determined he) fun _ he => hmodified.determined he⟩
  · rw [hbuilt.diagnostics, (hbuilt.indexes .av .base).conflicts_av,
      (hbuilt.indexes .av .modified).conflicts_av, RuleIndex.conflicts_eq hbase.key,
      RuleIndex.conflicts_eq hmodified.key, hbase.side_eq, hmodified.side_eq]
    rfl
  · exact RuleIndex.disputed_ordered _
  · exact (hbuilt.indexes .te side).mem_disputed

theorem Session.teChanges_exact_sample :
    ∃ s, (build Sample.before Sample.after Sample.delta 2).1 = .ok s ∧
      Sample.forms .te s = some [.addType, .modified] ∧
      ∃ changes, s.changes .te = .ok changes ∧ ∀ k, ∃ before after found,
        (Equivalence.ofDelta Sample.before Sample.after Sample.delta).Determines .base k before ∧
        (Equivalence.ofDelta Sample.before Sample.after Sample.delta).Determines .modified k
          after ∧
        changes.filter (·.key = k) = found.toList ∧ ExactTe found before after := by
  obtain ⟨s, hs, -, hforms⟩ := Sample.exists_session
  exact ⟨s, hs, hforms, (teChanges_exact hs).1⟩

end PolicyDelta
