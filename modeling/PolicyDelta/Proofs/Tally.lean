import Mathlib.Algebra.GroupWithZero.Nat
import PolicyDelta.Proofs.Contents
import PolicyDelta.Proofs.References
import PolicyDelta.Proofs.Verdict
import PolicyDelta.Report.Basic

/-! The list of changes and its numbers. The changes of a family stand in strict order of their
keys, which are keys of the two indexes (`Classifier.Settled`). Neither the order in which keys are
collected nor the order of the rules of an entry shows in them (`Classifier.Ready.changes_listing`),
and the numbers that a session and its report give are those of the changes by their forms
(`Session.changes_tallied`). -/

namespace PolicyDelta

/-! ## Sorting by keys -/

section

variable {α : Type} {key : α → RuleKey} {l l' : List α}

/-- The items of a list in the order of their keys. -/
def sortByKey (key : α → RuleKey) (l : List α) : List α :=
  l.mergeSort fun a b => (compare (key a) (key b)).isLE

theorem sortByKey_perm (key : α → RuleKey) (l : List α) : (sortByKey key l).Perm l :=
  List.mergeSort_perm ..

/-- Without two items of one key the order is strict. -/
theorem sortByKey_ordered (h : (l.map key).Nodup) :
    (sortByKey key l).Pairwise fun a b => compare (key a) (key b) = .lt := by
  have hsorted : (sortByKey key l).Pairwise fun a b => (compare (key a) (key b)).isLE := by
    refine List.pairwise_mergeSort (fun a b c hab hbc => ?_) (fun a b => ?_) l
    · exact Std.TransCmp.isLE_trans hab hbc
    · have hswap : compare (key b) (key a) = (compare (key a) (key b)).swap :=
        Std.OrientedCmp.eq_swap
      rw [hswap]
      cases compare (key a) (key b) <;> rfl
  have hnodup : (sortByKey key l).Pairwise fun a b => key a ≠ key b :=
    List.pairwise_map.1 (((sortByKey_perm key l).map key).nodup_iff.2 h)
  refine (hsorted.and hnodup).imp fun ⟨hle, hne⟩ => ?_
  rcases Ordering.isLE_iff_eq_lt_or_eq_eq.1 hle with hlt | heq
  · exact hlt
  · exact absurd (Std.compare_eq_iff_eq.1 heq) hne

/-- Sorting gives the one ordered list of the items. -/
theorem sortByKey_eq (h : (l.map key).Nodup)
    (h' : l'.Pairwise fun a b => compare (key a) (key b) = .lt) (hmem : ∀ a, a ∈ l ↔ a ∈ l') :
    sortByKey key l = l' :=
  Session.eq_of_keys_ordered (sortByKey_ordered h) h' fun a =>
    (sortByKey_perm key l).mem_iff.trans (hmem a)

end

/-! ## Going through sets in any order -/

namespace Classifier

/-- An order in which the sets that a classifier reads are listed: the keys of both indexes, and
the rules of each entry. -/
structure Listing (c : Classifier) where
  keys : List RuleKey
  rules : Side → IndexEntry → List Rule
  keys_nodup : keys.Nodup
  mem_keys : ∀ k, k ∈ keys ↔ k ∈ c.base.keys ∨ k ∈ c.modified.keys
  mem_rules : ∀ side e rule, rule ∈ rules side e ↔ rule ∈ e.rules

namespace Listing

variable {c : Classifier} (o : c.Listing)

/-- The types of an entry all of whose rules, as they are listed, have types. -/
def ofEvery (side : Side) (e : IndexEntry) : Except UnknownIdentifier NameSet := do
  let types ← c.typesOfEvery side e.key (o.rules side e)
  pure (types.getD ∅)

/-- The types of the rules of an entry as they are listed. -/
def ofSome (side : Side) (e : IndexEntry) : Except UnknownIdentifier NameSet :=
  c.typesOfSome side e.key (o.rules side e)

/-- The changes when sets are gone through as they are listed; the keys are sorted first. -/
def changes : Except UnknownIdentifier (List Change) := do
  let found ← (sortByKey id o.keys).mapM fun k =>
    c.compareWith o.ofEvery o.ofSome k (c.base.get? k) (c.modified.get? k)
  pure (found.filterMap fun change => change)

end Listing

variable {c : Classifier} {family : RuleFamily} {side : Side} {key : RuleKey}
  {b m : Option IndexEntry}

theorem compareWith_congr {f g f' g' : Side → IndexEntry → Except UnknownIdentifier NameSet}
    (hb : ∀ e ∈ b, f .base e = f' .base e ∧ g .base e = g' .base e)
    (hm : ∀ e ∈ m, f .modified e = f' .modified e ∧ g .modified e = g' .modified e) :
    c.compareWith f g key b m = c.compareWith f' g' key b m := by
  rcases b with - | b <;> rcases m with - | m
  · rfl
  · rw [compareWith, compareWith, (hm m rfl).1]
  · rw [compareWith, compareWith, (hb b rfl).1]
  · rw [compareWith, compareWith, (hm m rfl).2, (hb b rfl).2]

/-- For rules that have been read only the set of rules matters. -/
theorem typesOfEvery_congr {rules rules' : List Rule}
    (h : ∀ rule ∈ rules, ∃ r, c.equivalence.Read side rule r)
    (hmem : ∀ rule, rule ∈ rules' ↔ rule ∈ rules) (key : RuleKey) :
    c.typesOfEvery side key rules' = c.typesOfEvery side key rules := by
  obtain ⟨answer, hanswer, hsome, hall⟩ := typesOfEvery_spec h key
  obtain ⟨answer', hanswer', hsome', hall'⟩ :=
    typesOfEvery_spec (fun rule hrule => h rule ((hmem rule).1 hrule)) key
  simp only [hmem] at hsome' hall'
  have hiff := hsome'.trans hsome.symm
  rw [hanswer, hanswer']
  cases answer with
  | none => rw [Option.not_isSome_iff_eq_none.1 fun h => Bool.false_ne_true (hiff.1 h)]
  | some types =>
    obtain ⟨types', rfl⟩ := Option.isSome_iff_exists.1 (hiff.2 rfl)
    have htypes : types' = types :=
      Std.ExtTreeSet.ext_mem fun t => (hall' types' rfl t).trans (hall types rfl t).symm
    rw [htypes]

theorem typesOfSome_congr {rules rules' : List Rule}
    (h : ∀ rule ∈ rules, ∃ r, c.equivalence.Read side rule r)
    (hmem : ∀ rule, rule ∈ rules' ↔ rule ∈ rules) (key : RuleKey) :
    c.typesOfSome side key rules' = c.typesOfSome side key rules := by
  obtain ⟨types, htypes, hall⟩ := typesOfSome_spec h key
  obtain ⟨types', htypes', hall'⟩ :=
    typesOfSome_spec (fun rule hrule => h rule ((hmem rule).1 hrule)) key
  simp only [hmem] at hall'
  have heq : types' = types := Std.ExtTreeSet.ext_mem fun t => (hall' t).trans (hall t).symm
  rw [htypes, htypes', heq]

/-- A listing finds the types of an entry that the classifier finds. -/
theorem Listing.types_eq (o : c.Listing) {e : IndexEntry} (h : EntryRead side e c) :
    o.ofEvery side e = c.membershipOfEvery side e ∧
      o.ofSome side e = c.membershipOfSome side e := by
  have hread : ∀ rule ∈ e.rules.toList, ∃ r, c.equivalence.Read side rule r := fun rule hrule =>
    h rule (Std.ExtTreeSet.mem_toList.1 hrule)
  have hmem (rule : Rule) : rule ∈ o.rules side e ↔ rule ∈ e.rules.toList :=
    (o.mem_rules side e rule).trans Std.ExtTreeSet.mem_toList.symm
  unfold ofEvery ofSome membershipOfEvery membershipOfSome
  rw [typesOfEvery_congr hread hmem, typesOfSome_congr hread hmem]
  exact ⟨rfl, rfl⟩

theorem Listing.sorted_keys (o : c.Listing) : sortByKey id o.keys = c.keys := by
  have hordered : c.keys.Pairwise fun a b => compare a b = .lt := Std.ExtTreeSet.ordered_toList
  refine sortByKey_eq (by rw [List.map_id]; exact o.keys_nodup) hordered fun k => ?_
  rw [o.mem_keys, Classifier.mem_keys, RuleIndex.mem_keys_iff_isSome, RuleIndex.mem_keys_iff_isSome]

/-- All sets in the opposite order. -/
def Listing.backwards (c : Classifier) : c.Listing where
  keys := c.keys.reverse
  rules _ e := e.rules.toList.reverse
  keys_nodup := List.nodup_reverse.2 c.keys_nodup
  mem_keys k := by
    rw [List.mem_reverse, Classifier.mem_keys, RuleIndex.mem_keys_iff_isSome,
      RuleIndex.mem_keys_iff_isSome]
  mem_rules _ e rule := List.mem_reverse.trans Std.ExtTreeSet.mem_toList

/-- The order in which sets are listed does not show in the changes. -/
theorem Ready.changes_listing (h : c.Ready family) (o : c.Listing) : o.changes = c.changes := by
  have hchange (k : RuleKey) :
      c.compareWith o.ofEvery o.ofSome k (c.base.get? k) (c.modified.get? k) = c.changeAt k := by
    rw [Classifier.changeAt, compareAt]
    exact compareWith_congr (fun e he => o.types_eq (entryRead_of_indexes h.base he))
      fun e he => o.types_eq (entryRead_of_indexes h.modified he)
  rw [Listing.changes, Classifier.changes, o.sorted_keys]
  simp only [hchange]

theorem InOrder.nodup_keys {changes : List Change} (h : InOrder changes) :
    (changes.map (·.key)).Nodup := by
  refine List.pairwise_map.2 (h.imp fun {a b} hlt heq => ?_)
  rw [heq] at hlt
  simp at hlt

/-- The changes of a classifier stand in strict order of their keys, which are keys of its indexes.
They are settled by what they are: in whatever order they are found, sorting them gives the same
list. Nor does the order matter in which rules and the pairs of a rule are read, or in which the
sets of the classifier are listed. -/
structure Settled (c : Classifier) (family : RuleFamily) (changes : List Change) : Prop where
  inOrder : InOrder changes
  nodup_keys : (changes.map (·.key)).Nodup
  keys : ∀ ch ∈ changes, ∃ side, ch.key ∈ (c.index side).keys
  sorted : ∀ l : List Change, l.Perm changes → sortByKey (·.key) l = changes
  indexed : ∀ side rs, RuleIndex.Readings c.equivalence family side rs →
    RuleIndex.ofReadings family side rs = c.index side
  listed : ∀ o : c.Listing, o.changes = .ok changes

theorem Ready.settled (h : c.Ready family) {changes : List Change}
    (hchanges : c.changes = .ok changes) : c.Settled family changes where
  inOrder := h.inOrder hchanges
  nodup_keys := (h.inOrder hchanges).nodup_keys
  keys ch hch := by
    have hrow := h.row_of_mem hchanges hch
    simp only [RuleIndex.mem_keys_iff_isSome]
    refine Classical.byContradiction fun hnone => ?_
    have hget (side : Side) : (c.index side).get? ch.key = none :=
      Option.not_isSome_iff_eq_none.1 (not_exists.1 hnone side)
    rw [show c.base.get? ch.key = none from hget .base,
      show c.modified.get? ch.key = none from hget .modified] at hrow
    cases hrow.eq_none
  sorted l hl :=
    sortByKey_eq ((hl.map (·.key)).nodup_iff.2 (h.inOrder hchanges).nodup_keys)
      (h.inOrder hchanges) fun _ => hl.mem_iff
  indexed side _ hrs := hrs.indexes.exact.unique (h.index side).exact
  listed o := (h.changes_listing o).trans hchanges

end Classifier

/-! ## Numbers -/

theorem sum_countForms (changes : List Change) : (countForms changes).sum = changes.length := by
  induction changes with
  | nil => rfl
  | cons c changes ih =>
    simp only [countForms, ChangeForm.all, List.map_cons, List.map_nil, List.sum_cons,
      List.sum_nil, List.countP_cons, List.length_cons] at ih ⊢
    cases c.form <;> simp <;> omega

/-- The numbers of a family report are those of its changes, form by form. -/
theorem Report.pairs_ofChanges (family : RuleFamily) (changes : List Change) :
    (ofChanges family changes).stats.pairs =
      ChangeForm.all.zip ((countForms changes).map Int.ofNat) := rfl

/-! ## The index of a family and a side -/

/-- An index is built in one way only. -/
theorem RuleIndex.Builds.unique {eq : Equivalence} {family : RuleFamily} {side : Side}
    {workers workers' : Int} {ix ix' : RuleIndex} (h : Builds eq family side workers ix)
    (h' : Builds eq family side workers' ix') : ix = ix' :=
  h.indexes.exact.unique h'.indexes.exact

namespace Session

variable {base modified : Policy} {d : TypeDelta} {workers : Int} {s : Session}

theorem stats_of_changes {family : RuleFamily} {changes : List Change}
    (h : s.changes family = .ok changes) : s.stats family.name = .ok (countForms changes) := by
  simp only [stats, changesNamed, RuleFamily.ofName?_name, h]
  rfl

/-- Each family of a session has one list of changes: it is in strict order of keys of the indexes
of both sides, does not depend on the order in which sets are listed, and has as many changes of
each form as the session and its report say. -/
theorem changes_tallied (h : (build base modified d workers).1 = .ok s) :
    (∀ family, ∃ (index : Side → RuleIndex) (changes : List Change),
      (∀ side ix, RuleIndex.Builds (.ofDelta base modified d) family side workers ix ↔
        ix = index side) ∧
      s.changes family = .ok changes ∧
      Classifier.Settled ⟨index .base, index .modified, .ofDelta base modified d, d⟩ family
        changes ∧
      s.stats family.name =
        .ok (ChangeForm.all.map fun form => changes.countP (·.form = form)) ∧
      (ChangeForm.all.map fun form => changes.countP (·.form = form)).sum = changes.length) ∧
    ∃ r, Report.ofSession s = .ok r ∧ r.families.map (·.family) = [.av, .te] ∧
      ∀ f ∈ r.families, s.changes f.family = .ok f.changes ∧ ∃ counts,
        s.stats f.family.name = .ok counts ∧
        f.stats.pairs = ChangeForm.all.zip (counts.map Int.ofNat) := by
  obtain ⟨index, hbuilt⟩ := exists_built h
  have hreferences := references_iff.2 (exists_build_iff.1 ⟨s, h⟩)
  have hindex (family : RuleFamily) (side : Side) (ix : RuleIndex) :
      RuleIndex.Builds (.ofDelta base modified d) family side workers ix ↔
        ix = index family side := by
    obtain ⟨ix', hix'⟩ := exists_builds hreferences family side workers
    obtain rfl := hix'.indexes.exact.unique (hbuilt.indexes family side).exact
    exact ⟨fun hix => hix.unique hix', fun hix => hix ▸ hix'⟩
  refine ⟨fun family => ?_, ?_⟩
  · obtain ⟨changes, hchanges, -⟩ := hbuilt.changes family
    exact ⟨index family, changes, hindex family, hchanges,
      (classifierOf_ready hbuilt.indexes family).settled
        (hbuilt.classified family changes hchanges),
      stats_of_changes hchanges, sum_countForms changes⟩
  · obtain ⟨found, hfound⟩ := exists_result_of_build h
    refine ⟨_, by rw [Report.ofSession, result, hfound]; rfl, rfl, fun f hf => ?_⟩
    obtain ⟨family, -, rfl⟩ := List.mem_map.1 hf
    have hchanges := changes_of_result hfound family
    exact ⟨hchanges, _, stats_of_changes hchanges, Report.pairs_ofChanges ..⟩

/-- Listing keys and rules backwards gives the same changes. -/
theorem changes_tallied_sample : ∃ (s : Session) (index : Side → RuleIndex) (changes : List Change),
    (build Sample.before Sample.after Sample.delta 2).1 = .ok s ∧ s.changes .av = .ok changes ∧
      changes.map (·.form) = [.addType, .modified, .added] ∧
      s.stats "av" = .ok [1, 0, 1, 1, 0] ∧
      (Classifier.Listing.backwards ⟨index .base, index .modified,
        .ofDelta Sample.before Sample.after Sample.delta, Sample.delta⟩).changes = .ok changes := by
  obtain ⟨s, hs, hforms, -⟩ := Sample.exists_session
  obtain ⟨index, changes, -, hchanges, hsettled, hstats, -⟩ := (changes_tallied hs).1 .av
  have hforms : changes.map (·.form) = [.addType, .modified, .added] := by
    rw [Sample.forms, hchanges] at hforms
    exact Option.some.inj hforms
  have hcount (form : ChangeForm) : changes.countP (·.form = form) =
      (changes.map (·.form)).countP (· = form) := by
    rw [List.countP_map]
    rfl
  refine ⟨s, index, changes, hs, hchanges, hforms, ?_, hsettled.listed _⟩
  simp only [hcount, hforms] at hstats
  exact hstats

end Session

end PolicyDelta
