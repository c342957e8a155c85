import Mathlib.Data.List.Sort
import PolicyDelta.Proofs.Readable
import PolicyDelta.Proofs.Standing

/-! The change at a key is a function of the standings of both sides (`Standing.verdict`), and a
session holds the verdicts at all keys in order (`Session.exists_verdicts`). So sessions whose sides
have the same standings at every key give the same answers (`Session.agree_of_stands`). -/

namespace PolicyDelta

/-- The change in another form and through other types. -/
def Change.retyped (form : ChangeForm) (types : NameSet) : Change → Change
  | av c => .av { c with form, membershipTypes := types.toList }
  | te c => .te { c with form, membershipTypes := types.toList }

namespace Standing

/-- What a standing says, as an entry without rules. -/
def entry (k : RuleKey) (st : Standing) : IndexEntry :=
  { key := k, perms := st.perms, defaults := st.defaults }

/-- The change of a form at a key between the standings of both sides. -/
def change (family : RuleFamily) (form : ChangeForm) (k : RuleKey) (b m : Option Standing)
    (types : NameSet) : Change :=
  let b := b.map (entry k)
  let m := m.map (entry k)
  match family with
  | .av => .av (Classifier.avChange form k types (Classifier.permissionSplit b m))
  | .te => .te (Classifier.teChange form k b m types)

theorem form_change (family : RuleFamily) (form : ChangeForm) (k : RuleKey) (b m : Option Standing)
    (types : NameSet) : (change family form k b m types).form = form := by
  cases family <;> rfl

theorem types_change (family : RuleFamily) (form : ChangeForm) (k : RuleKey) (b m : Option Standing)
    (types : NameSet) : (change family form k b m types).head.membershipTypes = types.toList := by
  cases family <;> rfl

theorem retyped_change (family : RuleFamily) (form form' : ChangeForm) (k : RuleKey)
    (b m : Option Standing) (types types' : NameSet) :
    (change family form k b m types).retyped form' types' = change family form' k b m types' := by
  cases family <;> rfl

/-- Two standings grant or determine the same. -/
def sameContent (family : RuleFamily) (b m : Standing) : Bool :=
  b.said family = m.said family

/-- The change at a key that follows from the standings of both sides, if there is one. -/
def verdict (family : RuleFamily) (k : RuleKey) :
    Option Standing → Option Standing → Option Change
  | none, none => none
  | none, some m =>
    let form := if m.typesOfEvery.isEmpty then .added else .addType
    some (change family form k none (some m) m.typesOfEvery)
  | some b, none =>
    let form := if b.typesOfEvery.isEmpty then .removed else .removeType
    some (change family form k (some b) none b.typesOfEvery)
  | some b, some m =>
    if !sameContent family b m then some (change family .modified k (some b) (some m) ∅)
    else if !m.typesOfSome.isEmpty then
      some (change family .addType k (some b) (some m) m.typesOfSome)
    else if !b.typesOfSome.isEmpty then
      some (change family .removeType k (some b) (some m) b.typesOfSome)
    else none

end Standing

theorem Equivalence.Stands.sameContent_iff {eq : Equivalence} {d : TypeDelta}
    {family : RuleFamily} {k : RuleKey} {sb sm : Standing}
    (hb : eq.Stands d family .base k (some sb))
    (hm : eq.Stands d family .modified k (some sm)) :
    Standing.sameContent family sb sm = true ↔ eq.Agreed family k := by
  rw [Standing.sameContent, decide_eq_true_iff]
  constructor
  · intro hsame
    refine ⟨sb.said family, fun side => ?_⟩
    cases side with
    | base => exact hb.said
    | modified => exact hsame ▸ hm.said
  · rintro ⟨said, hsaid⟩
    have hbase := hb.said.unique (hsaid .base)
    have hmodified := hm.said.unique (hsaid .modified)
    exact Option.some.inj (hbase.trans hmodified.symm)

namespace Classifier

variable {c : Classifier} {family : RuleFamily} {key : RuleKey} {b m : Option IndexEntry}
  {sb sm : Option Standing} {found : Option Change}

theorem EntryStands.exists_some {side : Side} {e : IndexEntry} {o : Option Standing}
    (h : EntryStands c side key (some e) o) : ∃ st, o = some st := by
  cases h
  exact ⟨_, rfl⟩

theorem EntryStands.someThrough {side : Side} {e : IndexEntry} {st : Standing}
    (h : EntryStands c side key (some e) (some st)) : c.SomeThrough side e st.typesOfSome := by
  cases h with
  | speaks _ _ _ _ hsome => exact hsome

theorem change_eq_standing (hb : EntryStands c .base key b sb)
    (hm : EntryStands c .modified key m sm) (form : ChangeForm) (types : NameSet) :
    c.change form key b m types = Standing.change c.family form key sb sm types := by
  have hsplit : permissionSplit b m =
      permissionSplit (sb.map (Standing.entry key)) (sm.map (Standing.entry key)) := by
    cases hb <;> cases hm <;> simp [permissionSplit, Standing.entry, *]
  have hdefault {side : Side} {e : Option IndexEntry} {st : Option Standing}
      (h : EntryStands c side key e st) : e.bind (·.default?) =
        (st.map (Standing.entry key)).bind (·.default?) := by
    cases h <;> simp [IndexEntry.default?, Standing.entry, *]
  have hconflict {side : Side} {e : Option IndexEntry} {st : Option Standing}
      (h : EntryStands c side key e st) : e.bind (·.conflict? side) =
        (st.map (Standing.entry key)).bind (·.conflict? side) := by
    cases h <;> simp [IndexEntry.conflict?_eq, Standing.entry, *]
  unfold change Standing.change
  cases c.family with
  | av => simp only [hsplit, avChange]
  | te => simp only [teChange, conflictsOf, hdefault hb, hdefault hm, hconflict hb, hconflict hm]

theorem sameContent_eq_standing {e f : IndexEntry} {st st' : Standing}
    (hb : EntryStands c .base key (some e) (some st))
    (hm : EntryStands c .modified key (some f) (some st')) :
    c.sameContent e f = Standing.sameContent c.family st st' := by
  cases hb with
  | speaks _ hperms hdefaults =>
    cases hm with
    | speaks _ hperms' hdefaults' =>
      unfold sameContent Standing.sameContent
      rw [hperms, hperms', hdefaults, hdefaults']
      cases c.family with
      | av => rfl
      | te => rfl

theorem EveryThrough.unique {side : Side} {e : IndexEntry} {types types' : NameSet}
    (h : c.EveryThrough side e types) (h' : c.EveryThrough side e types') : types = types' :=
  Std.ExtTreeSet.ext_mem fun t => (h t).trans (h' t).symm

theorem SomeThrough.unique {side : Side} {e : IndexEntry} {types types' : NameSet}
    (h : c.SomeThrough side e types) (h' : c.SomeThrough side e types') : types = types' :=
  Std.ExtTreeSet.ext_mem fun t => (h t).trans (h' t).symm

/-- The row of a key is the verdict of the standings. -/
theorem Row.eq_verdict (h : c.Row key b m found) (hb : EntryStands c .base key b sb)
    (hm : EntryStands c .modified key m sm) : found = Standing.verdict c.family key sb sm := by
  have hchange := change_eq_standing hb hm
  -- The sets of types that a row speaks of are those of the standings, by uniqueness.
  cases h with
  | absent =>
    cases hb
    cases hm
    rfl
  | added hnone =>
    cases hb
    cases hm with
    | speaks _ _ _ hevery =>
      have htypes := hevery.unique hnone
      simp [Standing.verdict, hchange, htypes]
  | addType htypes hne =>
    cases hb
    cases hm with
    | speaks _ _ _ hevery =>
      obtain rfl := htypes.unique hevery
      simp [Standing.verdict, hchange, isEmpty_eq_false hne]
  | removed hnone =>
    cases hm
    cases hb with
    | speaks _ _ _ hevery =>
      have htypes := hevery.unique hnone
      simp [Standing.verdict, hchange, htypes]
  | removeType htypes hne =>
    cases hm
    cases hb with
    | speaks _ _ _ hevery =>
      obtain rfl := htypes.unique hevery
      simp [Standing.verdict, hchange, isEmpty_eq_false hne]
  | modified hcontent =>
    obtain ⟨st, rfl⟩ := hb.exists_some
    obtain ⟨st', rfl⟩ := hm.exists_some
    rw [sameContent_eq_standing hb hm] at hcontent
    simp [Standing.verdict, hchange, hcontent]
  | gained hcontent hgained hne =>
    obtain ⟨st, rfl⟩ := hb.exists_some
    obtain ⟨st', rfl⟩ := hm.exists_some
    rw [sameContent_eq_standing hb hm] at hcontent
    obtain rfl := hgained.unique hm.someThrough
    simp [Standing.verdict, hchange, hcontent, isEmpty_eq_false hne]
  | lost hcontent hgained hlost hne =>
    obtain ⟨st, rfl⟩ := hb.exists_some
    obtain ⟨st', rfl⟩ := hm.exists_some
    rw [sameContent_eq_standing hb hm] at hcontent
    obtain rfl := hlost.unique hb.someThrough
    have hgained := hm.someThrough.unique hgained
    simp [Standing.verdict, hchange, hcontent, hgained, isEmpty_eq_false hne]
  | same hcontent hgained hlost =>
    obtain ⟨st, rfl⟩ := hb.exists_some
    obtain ⟨st', rfl⟩ := hm.exists_some
    rw [sameContent_eq_standing hb hm] at hcontent
    have hgained := hm.someThrough.unique hgained
    have hlost := hb.someThrough.unique hlost
    simp [Standing.verdict, hcontent, hgained, hlost]

/-! ## The order of changes -/

/-- Changes stand in the order of their keys. -/
def InOrder (changes : List Change) : Prop :=
  changes.Pairwise fun a b => compare a.key b.key = .lt

theorem Ready.inOrder (h : c.Ready family) {changes : List Change}
    (hchanges : c.changes = .ok changes) : InOrder changes := by
  obtain ⟨change, hall, hrow⟩ := h.exists_change
  cases hchanges.symm.trans hall
  refine Std.ExtTreeSet.ordered_toList.filterMap _ fun k k' hlt ch hch ch' hch' => ?_
  rw [(hrow k).key_eq hch, (hrow k').key_eq hch']
  exact hlt

end Classifier

namespace Session

variable {base modified base' modified' : Policy} {d d' : TypeDelta} {workers workers' : Int}
  {s s' : Session} {family : RuleFamily} {side : Side} {k : RuleKey}

/-- In a session that is built each side has a standing at every key. -/
theorem exists_stands (h : (build base modified d workers).1 = .ok s) (family : RuleFamily)
    (side : Side) (k : RuleKey) :
    ∃ o, (Equivalence.ofDelta base modified d).Stands d family side k o := by
  obtain ⟨index, hbuilt⟩ := exists_built h
  obtain ⟨o, ho, -⟩ := (classifierOf_ready hbuilt.indexes family).exists_stands side k
  exact ⟨o, ho⟩

/-- A session holds the verdicts at all keys, in the order of the keys. -/
theorem exists_verdicts (h : (build base modified d workers).1 = .ok s) (family : RuleFamily) :
    ∃ changes, s.changes family = .ok changes ∧ Classifier.InOrder changes ∧
      ∀ k b m, (Equivalence.ofDelta base modified d).Stands d family .base k b →
        (Equivalence.ofDelta base modified d).Stands d family .modified k m →
          changes.filter (·.key = k) = (Standing.verdict family k b m).toList := by
  obtain ⟨index, hbuilt⟩ := exists_built h
  have hready := classifierOf_ready hbuilt.indexes family
  obtain ⟨changes, hchanges, hrow⟩ := hbuilt.changes family
  refine ⟨changes, hchanges, hready.inOrder (hbuilt.classified family changes hchanges), ?_⟩
  intro k b m hb hm
  obtain ⟨found, hfound, hrow⟩ := hrow k
  obtain ⟨b', hb', hbase⟩ := hready.exists_stands .base k
  obtain ⟨m', hm', hmodified⟩ := hready.exists_stands .modified k
  obtain rfl := hb.unique hb'
  obtain rfl := hm.unique hm'
  rw [hfound, hrow.eq_verdict hbase hmodified]
  exact congrArg (fun family => (Standing.verdict family k b m).toList)
    (hbuilt.indexes family .base).family_eq

/-! ## Sessions that agree -/

/-- Lists in strict order of the keys of their items are settled by their items. -/
theorem eq_of_keys_ordered {α : Type} {key : α → RuleKey} {l l' : List α}
    (h : l.Pairwise fun a b => compare (key a) (key b) = .lt)
    (h' : l'.Pairwise fun a b => compare (key a) (key b) = .lt) (hmem : ∀ a, a ∈ l ↔ a ∈ l') :
    l = l' := by
  have hirrefl : Std.Irrefl fun a b : α => compare (key a) (key b) = .lt :=
    ⟨fun a ha => by simp at ha⟩
  have hantisymm : Std.Antisymm fun a b : α => compare (key a) (key b) = .lt :=
    ⟨fun a b hab hba => absurd hba (Std.OrientedCmp.not_lt_of_lt hab)⟩
  exact h.eq_of_mem_iff h' hmem

theorem eq_of_filter_key {l l' : List Change} (h : Classifier.InOrder l)
    (h' : Classifier.InOrder l')
    (hfilter : ∀ k, l.filter (·.key = k) = l'.filter (·.key = k)) : l = l' := by
  refine eq_of_keys_ordered h h' fun ch => ?_
  have hmem {l : List Change} : ch ∈ l ↔ ch ∈ l.filter (·.key = ch.key) := by
    simp
  rw [hmem, hfilter, ← hmem]

theorem mem_keys_iff {l : List Change} {found : Option Change}
    (h : l.filter (·.key = k) = found.toList) : k ∈ l.map (·.key) ↔ found.isSome := by
  have hmem : k ∈ l.map (·.key) ↔ ∃ c, c ∈ found.toList := by
    rw [← h]
    simp
  rw [hmem]
  cases found <;> simp

theorem keys_eq {l l' : List Change} (h : Classifier.InOrder l) (h' : Classifier.InOrder l')
    (hmem : ∀ k, k ∈ l.map (·.key) ↔ k ∈ l'.map (·.key)) : l.map (·.key) = l'.map (·.key) := by
  have hkeys {l : List Change} (h : Classifier.InOrder l) :
      (l.map (·.key)).Pairwise fun a b => compare (id a) (id b) = .lt :=
    List.pairwise_map.2 h
  exact eq_of_keys_ordered (hkeys h) (hkeys h') hmem

/-- Two sessions give the same answers. -/
structure Agree (s s' : Session) : Prop where
  changes : ∀ family, s.changes family = s'.changes family
  stats : ∀ family, s.stats family = s'.stats family
  diagnostics : s.diagnostics = s'.diagnostics

theorem stats_eq (h : ∀ family, s.changes family = s'.changes family) (family : String) :
    s.stats family = s'.stats family := by
  unfold stats changesNamed
  cases RuleFamily.ofName? family with
  | none => rfl
  | some family => exact congrArg _ (h family)

/-- Diagnostics are those of the keys of each side at which type enforcement rules determine more
than one default type. -/
theorem Built.diagnostics_eq {index : RuleFamily → Side → RuleIndex}
    (h : Built base modified d s index) : s.diagnostics = .ok
      ((index .te .base).disputed.map (fun p => Side.base.diagnostic p.1 p.2) ++
        (index .te .modified).disputed.map fun p => Side.modified.diagnostic p.1 p.2) := by
  have hbase := h.indexes .te .base
  have hmodified := h.indexes .te .modified
  rw [h.diagnostics, (h.indexes .av .base).conflicts_av, (h.indexes .av .modified).conflicts_av,
    RuleIndex.conflicts_eq hbase.key, RuleIndex.conflicts_eq hmodified.key, hbase.side_eq,
    hmodified.side_eq]
  rfl

/-- The changes of a family are the same if both sides have the same standings in it. -/
theorem changes_eq_of_stands (h : (build base modified d workers).1 = .ok s)
    (h' : (build base' modified' d' workers').1 = .ok s') (family : RuleFamily)
    (hstands : ∀ side k o, (Equivalence.ofDelta base modified d).Stands d family side k o →
      (Equivalence.ofDelta base' modified' d').Stands d' family side k o) :
    s.changes family = s'.changes family := by
  obtain ⟨changes, hchanges, horder, hverdict⟩ := exists_verdicts h family
  obtain ⟨changes', hchanges', horder', hverdict'⟩ := exists_verdicts h' family
  rw [hchanges, hchanges', eq_of_filter_key horder horder' fun k => ?_]
  obtain ⟨b, hb⟩ := exists_stands h family .base k
  obtain ⟨m, hm⟩ := exists_stands h family .modified k
  rw [hverdict k b m hb hm, hverdict' k b m (hstands _ _ _ hb) (hstands _ _ _ hm)]

/-- Sessions give the same answers if their sides have the same standings at every key. -/
theorem agree_of_stands (h : (build base modified d workers).1 = .ok s)
    (h' : (build base' modified' d' workers').1 = .ok s')
    (hstands : ∀ family side k o, (Equivalence.ofDelta base modified d).Stands d family side k o →
      (Equivalence.ofDelta base' modified' d').Stands d' family side k o) : s.Agree s' := by
  have hchanges (family : RuleFamily) : s.changes family = s'.changes family :=
    changes_eq_of_stands h h' family (hstands family)
  refine ⟨hchanges, stats_eq hchanges, ?_⟩
  obtain ⟨index, hbuilt⟩ := exists_built h
  obtain ⟨index', hbuilt'⟩ := exists_built h'
  have hdetermines (side : Side) (k : RuleKey) (x : Option NameSet) :
      (Equivalence.ofDelta base modified d).Determines side k x ↔
        (Equivalence.ofDelta base' modified' d').Determines side k x := by
    obtain ⟨o, ho⟩ := exists_stands h .te side k
    have hx := ho.said
    have hx' := (hstands _ _ _ _ ho).said
    constructor
    · intro hdet
      obtain rfl := hx.unique hdet
      exact hx'
    · intro hdet
      obtain rfl := hx'.unique hdet
      exact hx
  have hdisputed (side : Side) : (index .te side).disputed = (index' .te side).disputed := by
    refine eq_of_keys_ordered (RuleIndex.disputed_ordered _) (RuleIndex.disputed_ordered _) ?_
    intro p
    rw [(hbuilt.indexes .te side).mem_disputed, (hbuilt'.indexes .te side).mem_disputed,
      hdetermines]
  rw [hbuilt.diagnostics_eq, hbuilt'.diagnostics_eq, hdisputed, hdisputed]

end Session

end PolicyDelta
