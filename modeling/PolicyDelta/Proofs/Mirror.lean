import PolicyDelta.Proofs.Alike

/-! Exchanging the sides of a comparison mirrors its changes (`Session.build_mirror`). The rules of
the exchanged sides say the same, so their standings are exchanged, and the verdict on exchanged
standings is the mirror of the verdict (`Standing.verdict_mirror`). Only where both sides claim a
key of equal content through types the modified side goes first in both comparisons. -/

namespace PolicyDelta

theorem Side.forall_other {P : Side → Prop} : (∀ side : Side, P side.other) ↔ ∀ side, P side := by
  constructor
  · intro h side
    cases side with
    | base => exact h .modified
    | modified => exact h .base
  · exact fun h side => h side.other

namespace TypeDelta

/-- The difference of types with the sides exchanged. -/
def mirror (d : TypeDelta) : TypeDelta :=
  { d with
    addedTypes := d.removedTypes
    removedTypes := d.addedTypes
    attributes := d.attributes.map fun _ m => ⟨m.removed, m.added⟩ }

theorem ownTypes_mirror (d : TypeDelta) (side : Side) :
    d.mirror.ownTypes side.other = d.ownTypes side := by
  cases side <;> rfl

theorem getElem?_mirror (d : TypeDelta) (a : String) :
    d.mirror.attributes[a]? = d.attributes[a]?.map fun m => ⟨m.removed, m.added⟩ :=
  Std.ExtTreeMap.getElem?_map

theorem ownMembers_mirror (d : TypeDelta) (a : String) (side : Side) :
    d.mirror.ownMembers a side.other = d.ownMembers a side := by
  cases side with
  | base =>
    change d.mirror.attributeAdded a = d.attributeRemoved a
    unfold attributeAdded attributeRemoved
    rw [getElem?_mirror]
    cases d.attributes[a]? <;> rfl
  | modified =>
    change d.mirror.attributeRemoved a = d.attributeAdded a
    unfold attributeAdded attributeRemoved
    rw [getElem?_mirror]
    cases d.attributes[a]? <;> rfl

end TypeDelta

/-! ## Mirrored changes -/

def ChangeForm.mirror : ChangeForm → ChangeForm
  | added => removed
  | removed => added
  | modified => modified
  | addType => removeType
  | removeType => addType

/-- The diagnostics of each side as those of the other, those of the base side first. -/
def DefaultConflict.mirror (conflicts : List DefaultConflict) : List DefaultConflict :=
  Side.all.flatMap fun side =>
    (conflicts.filter (·.side = side.other.name)).map fun c => { c with side := side.name }

def AvChange.mirror (c : AvChange) : AvChange :=
  { c with form := c.form.mirror, addedPerms := c.removedPerms, removedPerms := c.addedPerms }

def TeChange.mirror (c : TeChange) : TeChange :=
  { c with
    form := c.form.mirror
    baseDefault := c.modifiedDefault
    modifiedDefault := c.baseDefault
    conflicts := DefaultConflict.mirror c.conflicts }

/-- The change with the sides exchanged. -/
def Change.mirror : Change → Change
  | av c => .av c.mirror
  | te c => .te c.mirror

namespace Classifier

variable {b m : Option IndexEntry}

theorem permissionSplit_swap (b m : Option IndexEntry) : permissionSplit m b =
    ⟨(permissionSplit b m).unmodified, (permissionSplit b m).removed,
      (permissionSplit b m).added⟩ := by
  cases b with
  | none => cases m <;> rfl
  | some b =>
    cases m with
    | none => rfl
    | some m =>
      have hinter : m.perms ∩ b.perms = b.perms ∩ m.perms := Std.ExtTreeSet.ext_mem fun p => by
        simp only [Std.ExtTreeSet.mem_inter_iff, and_comm]
      simp only [permissionSplit, PermissionSplit.between, hinter]

theorem filter_conflict (e : Option IndexEntry) (side side' : Side) :
    (e.bind (·.conflict? side)).toList.filter (·.side = side'.name) =
      if side = side' then (e.bind (·.conflict? side)).toList else [] := by
  cases hx : e.bind (·.conflict? side) with
  | none => simp
  | some x =>
    obtain ⟨e, -, hx⟩ := Option.bind_eq_some_iff.1 hx
    obtain rfl := IndexEntry.side_of_conflict? hx
    cases side <;> cases side' <;> rfl

theorem relabel_conflict (e : Option IndexEntry) (side side' : Side) :
    ((e.bind (·.conflict? side)).toList.map fun c => { c with side := side'.name }) =
      (e.bind (·.conflict? side')).toList := by
  cases e with
  | none => rfl
  | some e =>
    simp only [Option.bind_some, IndexEntry.conflict?_eq, Side.diagnostic?]
    split <;> rfl

theorem conflictsOf_swap (b m : Option IndexEntry) :
    conflictsOf m b = DefaultConflict.mirror (conflictsOf b m) := by
  have hfilter (side : Side) : (conflictsOf b m).filter (·.side = side.name) =
      ((entryOf b m side).bind (·.conflict? side)).toList := by
    rw [conflictsOf, List.filter_append, filter_conflict, filter_conflict]
    cases side <;> simp [entryOf]
  rw [DefaultConflict.mirror, Side.all, List.flatMap_cons, List.flatMap_cons, List.flatMap_nil,
    List.append_nil, hfilter, hfilter, relabel_conflict, relabel_conflict]
  rfl

end Classifier

namespace Standing

variable {family : RuleFamily} {k : RuleKey} {b m : Option Standing} {sb sm : Standing}

theorem mirror_change (family : RuleFamily) (form : ChangeForm) (k : RuleKey)
    (b m : Option Standing) (types : NameSet) :
    (change family form k b m types).mirror = change family form.mirror k m b types := by
  cases family with
  | av =>
    simp only [change, Classifier.permissionSplit_swap (b.map _) (m.map _)]
    rfl
  | te =>
    simp only [change, Classifier.teChange, Classifier.conflictsOf_swap (b.map _) (m.map _)]
    rfl

theorem sameContent_comm (family : RuleFamily) (b m : Standing) :
    sameContent family m b = sameContent family b m := by
  simp only [sameContent, eq_comm]

/-- Both sides have a key with the same content, each by some rule through types. -/
def Contested (family : RuleFamily) (b m : Standing) : Prop :=
  sameContent family b m = true ∧ b.typesOfSome ≠ ∅ ∧ m.typesOfSome ≠ ∅

theorem Contested.symm (h : Contested family sb sm) : Contested family sm sb := by
  obtain ⟨hcontent, hb, hm⟩ := h
  exact ⟨sameContent_comm family sb sm ▸ hcontent, hm, hb⟩

/-- Exchanged standings have the mirrored verdict, unless both sides contest the key. -/
theorem verdict_mirror (h : ∀ sb ∈ b, ∀ sm ∈ m, ¬Contested family sb sm) :
    verdict family k m b = (verdict family k b m).map Change.mirror := by
  cases b with
  | none =>
    cases m with
    | none => rfl
    | some sm =>
      simp only [verdict, Option.map_some, mirror_change]
      split <;> rfl
  | some sb =>
    cases m with
    | none =>
      simp only [verdict, Option.map_some, mirror_change]
      split <;> rfl
    | some sm =>
      have hnot := h sb rfl sm rfl
      simp only [verdict]
      rw [sameContent_comm family sb sm]
      cases hcontent : sameContent family sb sm with
      | false => exact congrArg some (mirror_change family .modified k (some sb) (some sm) ∅).symm
      | true =>
        by_cases hb : sb.typesOfSome = ∅
        · by_cases hm : sm.typesOfSome = ∅
          · simp [hb, hm]
          · simp [hb, Classifier.isEmpty_eq_false hm, mirror_change, ChangeForm.mirror]
        · by_cases hm : sm.typesOfSome = ∅
          · simp [hm, Classifier.isEmpty_eq_false hb, mirror_change, ChangeForm.mirror]
          · exact absurd ⟨hcontent, hb, hm⟩ hnot

/-- A contested key is of the modified side in both comparisons. -/
theorem verdict_contested (h : Contested family sb sm) :
    verdict family k (some sb) (some sm) =
      some (change family .addType k (some sb) (some sm) sm.typesOfSome) := by
  obtain ⟨hcontent, -, hm⟩ := h
  simp [verdict, hcontent, Classifier.isEmpty_eq_false hm]

end Standing

namespace Equivalence

/-- The rules of both sides grant or determine the same at a key, and on each side some rule covers
the key on this side only through a type. -/
def Contested (eq : Equivalence) (d : TypeDelta) (family : RuleFamily) (k : RuleKey) : Prop :=
  eq.Agreed family k ∧ ∀ side, ∃ t, eq.SomeThrough d family side k t

/-- The changes at a key of two comparisons with the sides exchanged. The second is the mirror of
the first, unless the key is contested; then both are of added types, of those of the side that is
the modified one in the comparison. -/
inductive Mirrored (eq : Equivalence) (d : TypeDelta) (family : RuleFamily) (k : RuleKey) :
    Option Change → Option Change → Prop where
  | mirror (h : ¬eq.Contested d family k) : Mirrored eq d family k found (found.map Change.mirror)
  | contested (h : eq.Contested d family k) {c : Change} {types types' : NameSet}
    (hform : c.form = .addType) (htypes : c.head.membershipTypes = types.toList)
    (hmodified : ∀ t, t ∈ types ↔ eq.SomeThrough d family .modified k t)
    (hbase : ∀ t, t ∈ types' ↔ eq.SomeThrough d family .base k t) :
    Mirrored eq d family k (some c) (some (c.mirror.retyped .addType types'))

variable {eq : Equivalence} {d : TypeDelta} {family : RuleFamily} {side : Side} {k : RuleKey}
  {o b m : Option Standing} {sb sm : Standing}

theorem Stands.contested_iff (hb : eq.Stands d family .base k (some sb))
    (hm : eq.Stands d family .modified k (some sm)) :
    Standing.Contested family sb sm ↔ eq.Contested d family k := by
  unfold Standing.Contested Contested
  rw [hb.sameContent_iff hm, hb.typesOfSome_ne_empty_iff, hm.typesOfSome_ne_empty_iff]
  refine and_congr_right fun _ => ⟨fun ⟨hb, hm⟩ side => ?_, fun h => ⟨h .base, h .modified⟩⟩
  cases side with
  | base => exact hb
  | modified => exact hm

theorem Contested.exists_standings (h : eq.Contested d family k)
    (hb : eq.Stands d family .base k b) (hm : eq.Stands d family .modified k m) :
    ∃ sb sm, b = some sb ∧ m = some sm := by
  obtain ⟨⟨said, hsaid⟩, -⟩ := h
  obtain ⟨sb, hsb, -⟩ := Option.map_eq_some_iff.1 (hb.said.unique (hsaid .base))
  obtain ⟨sm, hsm, -⟩ := Option.map_eq_some_iff.1 (hm.said.unique (hsaid .modified))
  exact ⟨sb, sm, hsb, hsm⟩

/-- The verdicts on the standings and on the exchanged standings mirror each other. -/
theorem Stands.mirrored (hb : eq.Stands d family .base k b)
    (hm : eq.Stands d family .modified k m) :
    Mirrored eq d family k (Standing.verdict family k b m) (Standing.verdict family k m b) := by
  by_cases hcontested : eq.Contested d family k
  · -- Both verdicts are of added types, each of the modified side of its comparison.
    obtain ⟨sb, sm, rfl, rfl⟩ := hcontested.exists_standings hb hm
    have hstandings := (hb.contested_iff hm).2 hcontested
    have hsecond : Standing.change family .addType k (some sm) (some sb) sb.typesOfSome =
        (Standing.change family .addType k (some sb) (some sm) sm.typesOfSome).mirror.retyped
          .addType sb.typesOfSome := by
      rw [Standing.mirror_change, Standing.retyped_change]
    rw [Standing.verdict_contested hstandings, Standing.verdict_contested hstandings.symm,
      hsecond]
    exact .contested hcontested (Standing.form_change ..) (Standing.types_change ..)
      (fun t => hm.mem_typesOfSome) fun t => hb.mem_typesOfSome
  · have hverdict : Standing.verdict family k m b =
        (Standing.verdict family k b m).map Change.mirror := by
      refine Standing.verdict_mirror ?_
      rintro sb rfl sm rfl hstandings
      exact hcontested ((hb.contested_iff hm).1 hstandings)
    rw [hverdict]
    exact .mirror hcontested

theorem Mirrored.isSome_eq {found found' : Option Change}
    (h : Mirrored eq d family k found found') : found.isSome = found'.isSome := by
  cases h with
  | mirror => exact Option.isSome_map.symm
  | contested => rfl

/-! ## Exchanged sides -/

variable {base modified : Policy}

theorem sameNames_mirror (hrenames : d.renames = ∅) (hconditionals : d.conditionals = ∅)
    (side : Side) : SameNames (ofDelta base modified d) side
      (ofDelta modified base d.mirror) side.other := by
  have hname : d.renames.canonical = id := by
    rw [hrenames]
    rfl
  have hcond (c : Option String) : (c.map fun c => d.conditionals.getD c c) = c := by
    rw [hconditionals]
    cases c with
    | none => rfl
    | some c => exact congrArg some Std.ExtTreeMap.getD_empty
  cases side with
  | base => exact ⟨rfl, rfl, rfl, rfl, hname, funext hcond⟩
  | modified => exact ⟨rfl, rfl, rfl, rfl, hname.symm, (funext hcond).symm⟩

theorem rules_mirror (family : RuleFamily) (side : Side) :
    (ofDelta modified base d.mirror).rules family side.other =
      (ofDelta base modified d).rules family side := by
  cases side <;> rfl

theorem matches_mirror (hrenames : d.renames = ∅) (hconditionals : d.conditionals = ∅)
    (hread : ∀ family side, ∀ rule ∈ (ofDelta base modified d).rules family side,
      (ofDelta base modified d).Readable side rule) (side : Side) :
    Matches (ofDelta base modified d) d side (ofDelta modified base d.mirror) d.mirror side.other :=
  (sameNames_mirror hrenames hconditionals side).matches (d.ownTypes_mirror side).symm
    (fun a => (d.ownMembers_mirror a side).symm) (fun family => hread family side)
    fun family => rules_mirror family side

end Equivalence

namespace Session

variable {base modified : Policy} {d : TypeDelta}

/-- Exchanging the policies exchanges success. -/
theorem exists_build_mirror (hrenames : d.renames = ∅) (hconditionals : d.conditionals = ∅)
    (workers workers' : Int) : (∃ s, (build base modified d workers).1 = .ok s) ↔
      ∃ s', (build modified base d.mirror workers').1 = .ok s' := by
  have hcheck (base modified : Scope) :
      Equivalence.checkRenames base modified d.renames.pairs = .ok () := by
    rw [hrenames]
    rfl
  rw [exists_build_iff, exists_build_iff]
  refine and_congr (iff_of_true (hcheck _ _) (hcheck _ _)) (forall_congr' fun family => ?_)
  refine Iff.trans (forall_congr' fun side => ?_) Side.forall_other
  have hnames : Equivalence.SameNames (.ofDelta base modified d) side
      (.ofDelta modified base d.mirror) side.other :=
    Equivalence.sameNames_mirror hrenames hconditionals side
  rw [Equivalence.rules_mirror]
  exact forall₂_congr fun rule _ => ⟨hnames.readable, hnames.symm.readable⟩

/-- Two sessions have changes at the same keys, and these mirror each other. -/
def Mirrors (s s' : Session) (eq : Equivalence) (d : TypeDelta) : Prop :=
  ∀ family, ∃ changes changes',
    s.changes family = .ok changes ∧ s'.changes family = .ok changes' ∧
    changes.map (·.key) = changes'.map (·.key) ∧ ∀ k, ∃ found found',
      changes.filter (·.key = k) = found.toList ∧ changes'.filter (·.key = k) = found'.toList ∧
      eq.Mirrored d family k found found'

/-- Exchanging the policies exchanges success and mirrors the changes. -/
theorem build_mirror (hrenames : d.renames = ∅) (hconditionals : d.conditionals = ∅)
    (workers workers' : Int) :
    ((∃ s, (build base modified d workers).1 = .ok s) ↔
      ∃ s', (build modified base d.mirror workers').1 = .ok s') ∧
    ∀ s s', (build base modified d workers).1 = .ok s →
      (build modified base d.mirror workers').1 = .ok s' →
        s.Mirrors s' (.ofDelta base modified d) d := by
  refine ⟨exists_build_mirror hrenames hconditionals workers workers', fun s s' h h' family => ?_⟩
  obtain ⟨-, hread⟩ := exists_build_iff.1 ⟨s, h⟩
  have hmatch := Equivalence.matches_mirror hrenames hconditionals hread
  obtain ⟨changes, hchanges, horder, hverdict⟩ := exists_verdicts h family
  obtain ⟨changes', hchanges', horder', hverdict'⟩ := exists_verdicts h' family
  have hmirrored (k : RuleKey) : ∃ found found', changes.filter (·.key = k) = found.toList ∧
      changes'.filter (·.key = k) = found'.toList ∧
      (Equivalence.ofDelta base modified d).Mirrored d family k found found' := by
    obtain ⟨b, hb⟩ := exists_stands h family .base k
    obtain ⟨m, hm⟩ := exists_stands h family .modified k
    -- In the other comparison the standing of each side is that of the other.
    have hb' := (hmatch .base).stands (hmatch .modified) hb
    have hm' := (hmatch .modified).stands (hmatch .base) hm
    exact ⟨_, _, hverdict k b m hb hm, hverdict' k m b hm' hb', hb.mirrored hm⟩
  refine ⟨changes, changes', hchanges, hchanges', ?_, hmirrored⟩
  refine keys_eq horder horder' fun k => ?_
  obtain ⟨found, found', hfound, hfound', hmirror⟩ := hmirrored k
  rw [mem_keys_iff hfound, mem_keys_iff hfound', hmirror.isSome_eq]

end Session

theorem Session.build_mirror_sample :
    Sample.moveDelta.renames = ∅ ∧ Sample.moveDelta.conditionals = ∅ ∧
    ∃ s s', (build Sample.logInFile Sample.logInData Sample.moveDelta 2).1 = .ok s ∧
      (build Sample.logInData Sample.logInFile Sample.moveDelta.mirror 1).1 = .ok s' ∧
      Sample.forms .av s = some [.removed, .addType] ∧
      Sample.forms .av s' = some [.added, .addType] ∧
      s.Mirrors s' (.ofDelta Sample.logInFile Sample.logInData Sample.moveDelta)
        Sample.moveDelta := by
  have hforms : (build Sample.logInFile Sample.logInData Sample.moveDelta 2).1.toOption.map
      (Sample.forms .av) = some (some [.removed, .addType]) := by
    decide +kernel
  have hforms' :
      (build Sample.logInData Sample.logInFile Sample.moveDelta.mirror 1).1.toOption.map
        (Sample.forms .av) = some (some [.added, .addType]) := by
    decide +kernel
  obtain ⟨s, hs, hforms⟩ := exists_ok_of_map hforms
  obtain ⟨s', hs', hforms'⟩ := exists_ok_of_map hforms'
  exact ⟨rfl, rfl, s, s', hs, hs', hforms, hforms', (build_mirror rfl rfl 2 1).2 s s' hs hs'⟩

end PolicyDelta
