import PolicyDelta.Proofs.Contents
import PolicyDelta.Proofs.Permissions
import PolicyDelta.Proofs.Provenance

/-! Lines of changes. A change of type enforcement rules has a line exactly if each side that its
form shows has a default type or a conflict (`TeChange.exists_render_iff`). In a session each form
has the entries that it shows (`Classifier.Row.grounded`), and an entry of such rules has one of the
two, so every change has a line in which nothing is missing. -/

namespace PolicyDelta

/-- The sides of which the line of a change tells something. -/
def ChangeForm.sides : ChangeForm → List Side
  | .added | .addType => [.modified]
  | .removed | .removeType => [.base]
  | .modified => Side.all

theorem ChangeForm.exists_mem_sides (form : ChangeForm) : ∃ side, side ∈ form.sides := by
  cases form with
  | added | removed | addType | removeType => exact ⟨_, List.mem_singleton_self _⟩
  | modified => exact ⟨.base, List.mem_cons_self⟩

/-! ## Type enforcement rules -/

namespace TeChange

variable {c : TeChange} {side : Side}

/-- There is a default type of a side, or a conflict of it. -/
def HasDefault (c : TeChange) (side : Side) : Prop :=
  (c.default? side).isSome ∨ ∃ x ∈ c.conflicts, x.side = side.name

theorem exists_defaultText_iff : (∃ text, c.defaultText side = .ok text) ↔ c.HasDefault side := by
  have hfind : (∃ x ∈ c.conflicts, x.side = side.name) ↔
      (c.conflicts.find? (·.side = side.name)).isSome := by
    simp [List.find?_isSome]
  rw [HasDefault, hfind]
  unfold defaultText
  cases side with
  | base =>
    simp only [default?]
    cases c.baseDefault with
    | some d => simp
    | none => cases c.conflicts.find? (·.side = Side.base.name) <;> simp
  | modified =>
    simp only [default?]
    cases c.modifiedDefault with
    | some d => simp
    | none => cases c.conflicts.find? (·.side = Side.modified.name) <;> simp

theorem exists_body_iff : (∃ body, c.body = .ok body) ↔
    ∀ side ∈ c.form.sides, c.HasDefault side := by
  have hanswer {x : Except MissingDefault String} {f : String → String} :
      (∃ body, (x >>= fun text => pure (f text)) = .ok body) ↔ ∃ text, x = .ok text := by
    cases x <;> simp [bind, Except.bind, pure, Except.pure]
  simp only [← exists_defaultText_iff]
  unfold body
  cases c.form with
  | added | addType | removed | removeType =>
    simp only [ChangeForm.sides, List.forall_mem_singleton]
    exact hanswer
  | modified =>
    constructor
    · rintro ⟨body, h⟩ side -
      obtain ⟨b, hb, h⟩ := bind_eq_ok.1 h
      obtain ⟨m, hm, -⟩ := bind_eq_ok.1 h
      cases side with
      | base => exact ⟨b, hb⟩
      | modified => exact ⟨m, hm⟩
    · intro h
      obtain ⟨b, hb⟩ := h .base (by simp [ChangeForm.sides, Side.all])
      obtain ⟨m, hm⟩ := h .modified (by simp [ChangeForm.sides, Side.all])
      exact ⟨_, by rw [hb, hm]; rfl⟩

/-- A change has a line exactly if it has a default type or a conflict of each side that it
shows. -/
theorem exists_render_iff : (∃ line, c.render = .ok line) ↔
    ∀ side ∈ c.form.sides, c.HasDefault side := by
  rw [← exists_body_iff]
  unfold render
  cases c.body <;> simp [bind, Except.bind, pure, Except.pure]

end TeChange

/-! ## Access vector rules -/

/-- The line of a modified change tells something in its parentheses if a permission was added or
removed. -/
theorem AvChange.exists_body {c : AvChange} (hform : c.form = .modified)
    (h : c.addedPerms ≠ [] ∨ c.removedPerms ≠ []) : ∃ changes, changes ≠ "" ∧
      c.body = " " ++ namesBlock c.unmodifiedPerms ++ " (" ++ changes ++ ")" := by
  have hsome {sign names : String} {rest : List String} (hsign : sign ≠ "") :
      " ".intercalate ((sign ++ names) :: rest) ≠ "" := by
    rw [String.intercalate_cons_append]
    simp [hsign]
  refine ⟨_, ?_, by unfold body; rw [hform]; rfl⟩
  by_cases hadded : c.addedPerms = []
  · simp only [hadded, if_true, if_neg (h.resolve_left (not_not_intro hadded)), List.nil_append]
    exact hsome (by decide)
  · simp only [hadded, if_false, List.singleton_append]
    exact hsome (by decide)

/-! ## Changes of a session -/

namespace Classifier

/-- A form has the entries whose sides it shows; a modified change is between entries of different
content, and a change of types has types. -/
structure Grounded (c : Classifier) (b m : Option IndexEntry) (form : ChangeForm)
    (types : NameSet) : Prop where
  shown : ∀ side ∈ form.sides, (entryOf b m side).isSome
  differ : form = .modified → ∃ e f, b = some e ∧ m = some f ∧ c.sameContent e f = false
  types : form = .addType ∨ form = .removeType → types ≠ ∅

variable {c : Classifier} {key : RuleKey} {b m : Option IndexEntry} {ch : Change}
  {form : ChangeForm} {types : NameSet}

theorem Row.grounded (h : c.Row key b m (some ch)) :
    ∃ form types, ch = c.change form key b m types ∧ c.Grounded b m form types := by
  cases h with
  | added | removed =>
    exact ⟨_, _, rfl, by simp [ChangeForm.sides, entryOf], by simp, by simp⟩
  | addType _ hne | removeType _ hne | gained _ _ hne | lost _ _ _ hne =>
    exact ⟨_, _, rfl, by simp [ChangeForm.sides, entryOf], by simp, fun _ => hne⟩
  | modified hcontent =>
    refine ⟨_, _, rfl, ?_, fun _ => ⟨_, _, rfl, rfl, hcontent⟩, by simp⟩
    rintro (_ | _) - <;> rfl

theorem Grounded.hasDefault (h : c.Grounded b m form types)
    (hentry : ∀ side, ∀ e ∈ entryOf b m side, e.defaults ≠ ∅) :
    ∀ side ∈ form.sides, (teChange form key b m types).HasDefault side := by
  intro side hside
  obtain ⟨e, he⟩ := Option.isSome_iff_exists.1 (h.shown side hside)
  have hdefault : (teChange form key b m types).default? side = e.default? := by
    cases side <;> simp_all [teChange, TeChange.default?, entryOf]
  rcases IndexEntry.default?_or_conflict? (hentry side e he) side with ⟨d, hd, -⟩ | ⟨-, hx⟩
  · left
    rw [hdefault, hd]
    rfl
  · right
    have hfind := find?_conflictsOf b m side
    rw [he, Option.bind_some, hx] at hfind
    exact ⟨_, List.mem_of_find?_eq_some hfind, by simpa using List.find?_some hfind⟩

theorem Grounded.perms (h : c.Grounded b m form types) (hfamily : c.family = .av)
    (hform : form = .modified) :
    (avChange form key types (permissionSplit b m)).addedPerms ≠ [] ∨
      (avChange form key types (permissionSplit b m)).removedPerms ≠ [] := by
  obtain ⟨e, f, rfl, rfl, hcontent⟩ := h.differ hform
  have hne : e.perms ≠ f.perms := by
    rw [sameContent, hfamily] at hcontent
    exact of_decide_eq_false hcontent
  refine Classical.byContradiction fun hnone => hne ?_
  obtain ⟨hadded, hremoved⟩ := not_or.1 hnone
  let split := PermissionSplit.between e.perms f.perms
  have hempty : split.removed = split.added := by
    rw [← NameSet.ofList_toList split.removed, ← NameSet.ofList_toList split.added]
    have hlists := (not_ne_iff.1 hremoved).trans (not_ne_iff.1 hadded).symm
    exact congrArg (Std.ExtTreeSet.ofList ·) hlists
  -- If nothing was added or removed, each side has what both share.
  calc e.perms
    _ = split.unmodified ∪ split.removed := (PermissionSplit.unmodified_union_removed ..).symm
    _ = split.unmodified ∪ split.added := by rw [hempty]
    _ = f.perms := PermissionSplit.unmodified_union_added ..

end Classifier

/-- Nothing is missing in the line of a change: it has a default type or a conflict of each side
that it shows, permissions if it is modified, a branch beside a condition, and types if it is a
change of types. -/
structure Change.Complete (c : Change) : Prop where
  line : ∃ line, c.render = .ok line
  default : ∀ t, c = .te t → ∀ side ∈ t.form.sides, t.HasDefault side
  perms : ∀ a, c = .av a → a.form = .modified → a.addedPerms ≠ [] ∨ a.removedPerms ≠ []
  parentheses : ∀ a, c = .av a → a.form = .modified → ∃ changes, changes ≠ "" ∧
    a.body = " " ++ namesBlock a.unmodifiedPerms ++ " (" ++ changes ++ ")"
  branch : c.key.cond.isSome → c.key.branch.isSome
  types : c.form = .addType ∨ c.form = .removeType → c.head.membershipTypes ≠ []

theorem Classifier.change_types {c : Classifier} {key : RuleKey} {b m : Option IndexEntry}
    (form : ChangeForm) (types : NameSet) :
    (c.change form key b m types).head.membershipTypes = types.toList := by
  unfold change
  cases c.family <;> rfl

theorem Classifier.Ready.complete {c : Classifier} {family : RuleFamily} {k : RuleKey}
    {ch : Change} (h : c.Ready family)
    (hrow : c.Row k (c.base.get? k) (c.modified.get? k) (some ch)) : ch.Complete := by
  obtain ⟨form, types, rfl, hground⟩ := hrow.grounded
  have hentry (side : Side) :
      entryOf (c.base.get? k) (c.modified.get? k) side = (c.index side).get? k := by
    cases side <;> rfl
  have hbranch : k.cond.isSome → k.branch.isSome := by
    obtain ⟨side, hside⟩ := form.exists_mem_sides
    have hsome := hground.shown side hside
    rw [hentry] at hsome
    have hfits := (((h.index side).covered k).1 hsome).fits
    simp only [Option.isSome_iff_ne_none]
    exact mt hfits.branch.1
  have htypes : form = .addType ∨ form = .removeType →
      (c.change form k (c.base.get? k) (c.modified.get? k) types).head.membershipTypes ≠ [] := by
    intro hform
    rw [change_types]
    exact NameSet.toList_ne_nil (hground.types hform)
  cases family with
  | av =>
    have hfamily : c.family = .av := h.base.family_eq
    rw [change_av hfamily] at htypes ⊢
    exact {
      line := ⟨_, rfl⟩
      default := by rintro _ ⟨⟩
      perms := by
        rintro _ ⟨⟩ hform
        exact hground.perms hfamily hform
      parentheses := by
        rintro _ ⟨⟩ hform
        exact AvChange.exists_body hform (hground.perms hfamily hform)
      branch := hbranch
      types := htypes }
  | te =>
    have hfamily : c.family = .te := h.base.family_eq
    have hdefault : ∀ side ∈ form.sides,
        (teChange form k (c.base.get? k) (c.modified.get? k) types).HasDefault side :=
      hground.hasDefault fun side e he =>
        ((h.index side).determined ((hentry side).symm.trans he)).2
    rw [change_te hfamily] at htypes ⊢
    exact {
      line := TeChange.exists_render_iff.2 hdefault
      default := by
        rintro _ ⟨⟩
        exact hdefault
      perms := by rintro _ ⟨⟩
      parentheses := by rintro _ ⟨⟩
      branch := hbranch
      types := htypes }

namespace Session

variable {base modified : Policy} {d : TypeDelta} {workers : Int} {s : Session}

theorem Built.complete {index : RuleFamily → Side → RuleIndex} (h : Built base modified d s index)
    {family : RuleFamily} {changes : List Change} (hchanges : s.changes family = .ok changes)
    {c : Change} (hc : c ∈ changes) : c.Complete :=
  (classifierOf_ready h.indexes family).complete (h.row_of_mem hchanges hc)

theorem exists_line (h : (build base modified d workers).1 = .ok s) {found : Differences}
    (hfound : s.result? = some found) {family : RuleFamily} {c : Change}
    (hc : c ∈ found.changes family) : ∃ line, c.render = .ok line := by
  obtain ⟨index, hbuilt⟩ := exists_built h
  exact (hbuilt.complete (changes_of_result hfound family) hc).line

/-- Every change of a session has a line, and nothing is missing in it. -/
theorem changes_complete (h : (build base modified d workers).1 = .ok s) (family : RuleFamily) :
    ∃ changes, s.changes family = .ok changes ∧
      ∀ c ∈ changes, s.render c = .ok c.render ∧ c.Complete := by
  obtain ⟨index, hbuilt⟩ := exists_built h
  obtain ⟨changes, hchanges, -⟩ := hbuilt.changes family
  refine ⟨changes, hchanges, fun c hc => ⟨?_, hbuilt.complete hchanges hc⟩⟩
  obtain ⟨found, hfound, -⟩ := map_eq_ok.1 hchanges
  rw [render, hfound]
  rfl

theorem changes_complete_sample : ∃ s changes,
    (build Sample.before Sample.after Sample.delta 2).1 = .ok s ∧ s.changes .te = .ok changes ∧
      changes.map (·.form) = [.addType, .modified] ∧ ∀ c ∈ changes, c.Complete := by
  obtain ⟨s, hs, -, hforms⟩ := Sample.exists_session
  obtain ⟨changes, hchanges, hcomplete⟩ := changes_complete hs .te
  refine ⟨s, changes, hs, hchanges, ?_, fun c hc => (hcomplete c hc).2⟩
  rw [Sample.forms, hchanges] at hforms
  exact Option.some.inj hforms

end Session

end PolicyDelta
