import PolicyDelta.Proofs.Comparison
import PolicyDelta.Proofs.Sets

/-! Changes of access vector rules are exact. `Equivalence.Grants` says what the rules of a side
grant at a key; a change gives back what both sides grant, in the way of its form, and at a key
without change both sides grant the same. -/

namespace PolicyDelta

/-- What the access vector rules of a side grant at a key: nothing is said if no rule covers the
key, otherwise the permissions of all rules that do. -/
def Equivalence.Grants (eq : Equivalence) (side : Side) (k : RuleKey) : Option NameSet → Prop :=
  eq.Together .av side (fun rule p => p ∈ rule.perms) k

theorem RuleIndex.Indexes.grants {ix : RuleIndex} {eq : Equivalence} {side : Side}
    (h : ix.Indexes eq .av side) (k : RuleKey) :
    eq.Grants side k ((ix.get? k).map (·.perms)) :=
  h.together h.perms k

/-- What a change says in its form about what is granted before and after. -/
def AvChange.Tells (c : AvChange) (before after : Option NameSet) : Prop :=
  match c.form with
  | .added => before = none ∧ after = some (.ofList c.unmodifiedPerms)
  | .removed => before = some (.ofList c.unmodifiedPerms) ∧ after = none
  | .modified => before ≠ after ∧
    before = some (.ofList (c.unmodifiedPerms ++ c.removedPerms)) ∧
    after = some (.ofList (c.unmodifiedPerms ++ c.addedPerms)) ∧
    (∀ p ∈ c.unmodifiedPerms, p ∉ c.addedPerms) ∧
    (∀ p ∈ c.unmodifiedPerms, p ∉ c.removedPerms) ∧
    ∀ p ∈ c.addedPerms, p ∉ c.removedPerms
  | .addType => after = some (.ofList c.unmodifiedPerms) ∧ (before = none ∨ before = after)
  | .removeType => before = some (.ofList c.unmodifiedPerms) ∧ (after = none ∨ after = before)

/-- A change is exact about what is granted before and after. -/
structure AvChange.Exact (c : AvChange) (before after : Option NameSet) : Prop where
  tells : c.Tells before after
  oneSided : c.form ≠ .modified → c.addedPerms = [] ∧ c.removedPerms = []
  unmodified_ordered : Ordered c.unmodifiedPerms
  added_ordered : Ordered c.addedPerms
  removed_ordered : Ordered c.removedPerms

/-- The change at a key is exact if there is one, and without change the same is granted before and
after. -/
inductive ExactAv : Option Change → Option NameSet → Option NameSet → Prop where
  | same : ExactAv none granted granted
  | change (hexact : c.Exact before after) : ExactAv (some (.av c)) before after

namespace Classifier

variable {c : Classifier} {key : RuleKey} {b m : Option IndexEntry} {found : Option Change}

/-- The change of access vector rules of a form with a comparison of permissions. -/
def avChange (form : ChangeForm) (key : RuleKey) (types : NameSet) (split : PermissionSplit) :
    AvChange :=
  ⟨⟨form, key, types.toList⟩, split.unmodified.toList, split.added.toList, split.removed.toList⟩

theorem change_av (hfamily : c.family = .av) (form : ChangeForm) (key : RuleKey)
    (b m : Option IndexEntry) (types : NameSet) :
    c.change form key b m types = .av (avChange form key types (permissionSplit b m)) := by
  rw [change, hfamily]
  rfl

theorem avChange_exact {form : ChangeForm} {types : NameSet} {split : PermissionSplit}
    {before after : Option NameSet} (htells : (avChange form key types split).Tells before after)
    (hone : form ≠ .modified → split.added = ∅ ∧ split.removed = ∅) :
    (avChange form key types split).Exact before after where
  tells := htells
  oneSided hform := by
    obtain ⟨hadded, hremoved⟩ := hone hform
    simp [avChange, hadded, hremoved]
  unmodified_ordered := NameSet.ordered_toList _
  added_ordered := NameSet.ordered_toList _
  removed_ordered := NameSet.ordered_toList _

theorem exact_oneSided {form : ChangeForm} {types perms : NameSet} {before after : Option NameSet}
    (htells : (avChange form key types (.oneSided perms)).Tells before after) :
    (avChange form key types (.oneSided perms)).Exact before after :=
  avChange_exact htells fun _ => ⟨rfl, rfl⟩

/-- A change of form modified says both sides and what they share. -/
theorem tells_between {p q : NameSet} (hne : p ≠ q) (types : NameSet) :
    (avChange .modified key types (.between p q)).Tells (some p) (some q) := by
  refine ⟨fun h => hne (Option.some.inj h), ?_, ?_, ?_⟩
  · rw [avChange, NameSet.ofList_append, PermissionSplit.unmodified_union_removed]
  · rw [avChange, NameSet.ofList_append, PermissionSplit.unmodified_union_added]
  · simp only [avChange, PermissionSplit.between, Std.ExtTreeSet.mem_toList,
      Std.ExtTreeSet.mem_inter_iff, Std.ExtTreeSet.mem_diff_iff]
    exact ⟨fun x hx hadded => hadded.2 hx.1, fun x hx hremoved => hremoved.2 hx.2,
      fun x hadded hremoved => hadded.2 hremoved.1⟩

/-- Each row of the table is exact about the permissions of both entries. -/
theorem Row.exactAv (hfamily : c.family = .av) (h : c.Row key b m found) :
    ExactAv found (b.map (·.perms)) (m.map (·.perms)) := by
  have hsame {e f : IndexEntry} (hcontent : c.sameContent e f = true) : e.perms = f.perms := by
    rw [sameContent, hfamily] at hcontent
    exact of_decide_eq_true hcontent
  cases h with
  | absent => exact .same
  | @added e hevery =>
    rw [change_av hfamily]
    exact .change <| exact_oneSided ⟨rfl, congrArg some (NameSet.ofList_toList e.perms).symm⟩
  | @addType e types hevery hne =>
    rw [change_av hfamily]
    exact .change <| exact_oneSided
      ⟨congrArg some (NameSet.ofList_toList e.perms).symm, .inl rfl⟩
  | @removed e hevery =>
    rw [change_av hfamily]
    exact .change <| exact_oneSided ⟨congrArg some (NameSet.ofList_toList e.perms).symm, rfl⟩
  | @removeType e types hevery hne =>
    rw [change_av hfamily]
    exact .change <| exact_oneSided
      ⟨congrArg some (NameSet.ofList_toList e.perms).symm, .inl rfl⟩
  | @modified e f hcontent =>
    have hne : e.perms ≠ f.perms := by
      rw [sameContent, hfamily] at hcontent
      exact of_decide_eq_false hcontent
    rw [change_av hfamily]
    exact .change <| avChange_exact (tells_between hne _) fun h => absurd rfl h
  | @gained e f types hcontent hgained hne =>
    -- With equal content the comparison is that of one side.
    rw [change_av hfamily, permissionSplit, hsame hcontent, PermissionSplit.between_self]
    refine .change <| exact_oneSided ⟨congrArg some (NameSet.ofList_toList f.perms).symm, .inr ?_⟩
    exact congrArg some (hsame hcontent)
  | @lost e f types hcontent hgained hlost hne =>
    rw [change_av hfamily, permissionSplit, hsame hcontent, PermissionSplit.between_self]
    refine .change <| exact_oneSided ⟨?_, .inr ?_⟩
    · exact congrArg some ((hsame hcontent).trans (NameSet.ofList_toList f.perms).symm)
    · exact congrArg some (hsame hcontent).symm
  | @same e f hcontent hgained hlost =>
    rw [Option.map_some, Option.map_some, hsame hcontent]
    exact .same

end Classifier

/-- The changes of access vector rules are exact at every key: there is at most one, it is exact
about what the rules of both sides grant, and without one both sides grant the same. -/
theorem Session.avChanges_exact {base modified : Policy} {d : TypeDelta} {workers : Int}
    {s : Session} (h : (build base modified d workers).1 = .ok s) :
    ∃ changes, s.changes .av = .ok changes ∧ ∀ k, ∃ before after found,
      (Equivalence.ofDelta base modified d).Grants .base k before ∧
      (Equivalence.ofDelta base modified d).Grants .modified k after ∧
      changes.filter (·.key = k) = found.toList ∧ ExactAv found before after := by
  obtain ⟨index, hbuilt⟩ := exists_built h
  obtain ⟨changes, hchanges, hrow⟩ := hbuilt.changes .av
  refine ⟨changes, hchanges, fun k => ?_⟩
  obtain ⟨found, hfound, hrow⟩ := hrow k
  have hbase := hbuilt.indexes .av .base
  have hmodified := hbuilt.indexes .av .modified
  have hfamily : (classifierOf (.ofDelta base modified d) d index .av).family = .av :=
    hbase.family_eq
  exact ⟨_, _, found, hbase.grants k, hmodified.grants k, hfound, hrow.exactAv hfamily⟩

theorem Session.avChanges_exact_sample :
    ∃ s, (build Sample.before Sample.after Sample.delta 2).1 = .ok s ∧
      Sample.forms .av s = some [.addType, .modified, .added] ∧
      ∃ changes, s.changes .av = .ok changes ∧ ∀ k, ∃ before after found,
        (Equivalence.ofDelta Sample.before Sample.after Sample.delta).Grants .base k before ∧
        (Equivalence.ofDelta Sample.before Sample.after Sample.delta).Grants .modified k after ∧
        changes.filter (·.key = k) = found.toList ∧ ExactAv found before after := by
  obtain ⟨s, hs, hforms, -⟩ := Sample.exists_session
  exact ⟨s, hs, hforms, avChanges_exact hs⟩

end PolicyDelta
