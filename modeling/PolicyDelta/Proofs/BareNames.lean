import PolicyDelta.Proofs.Legible
import PolicyDelta.Proofs.Tally
import PolicyDelta.Proofs.TypeChanges

/-! Lines of sessions. Where the names of two policies are bare, every change of a session is
legible (`Classifier.Ready.legible`). So lines of one family, of one session or of two, are the same
only if they report the same, and the lines of a session are pairwise different
(`Session.lines_tell_apart`). -/

namespace PolicyDelta

open Text (Bare)

/-! ## Names of policies -/

/-- The names in a rule that lines show are bare. -/
structure Rule.BareNames (rule : Rule) : Prop where
  objectClass : Bare rule.head.objectClass
  cond : ∀ c ∈ rule.head.cond, Bare c
  perms : ∀ p ∈ rule.perms, Bare p
  name : ∀ n ∈ rule.fileName, Bare n

instance (rule : Rule) : Decidable rule.BareNames :=
  decidable_of_iff (Bare rule.head.objectClass ∧ (∀ c ∈ rule.head.cond, Bare c) ∧
      (∀ p ∈ rule.perms.toList, Bare p) ∧ ∀ n ∈ rule.fileName, Bare n)
    ⟨fun ⟨hclass, hcond, hperms, hname⟩ =>
      ⟨hclass, hcond, fun p h => hperms p (Std.ExtTreeSet.mem_toList.2 h), hname⟩,
    fun ⟨hclass, hcond, hperms, hname⟩ =>
      ⟨hclass, hcond, fun p h => hperms p (Std.ExtTreeSet.mem_toList.1 h), hname⟩⟩

/-- The types of a policy and the names in its rules are bare. -/
structure Policy.BareNames (p : Policy) : Prop where
  types : ∀ t ∈ p.types, Bare t
  rules : ∀ family, ∀ rule ∈ p.rules family, rule.BareNames

instance (p : Policy) : Decidable p.BareNames :=
  decidable_of_iff ((∀ t ∈ p.types.toList, Bare t) ∧
      (∀ rule ∈ p.rules .av, rule.BareNames) ∧ ∀ rule ∈ p.rules .te, rule.BareNames)
    ⟨fun ⟨htypes, hav, hte⟩ => ⟨fun t h => htypes t (Std.ExtTreeSet.mem_toList.2 h),
      fun family => match family with
        | .av => hav
        | .te => hte⟩,
    fun ⟨htypes, hrules⟩ => ⟨fun t h => htypes t (Std.ExtTreeSet.mem_toList.1 h),
      hrules .av, hrules .te⟩⟩

/-- The names that a difference gives to conditions are bare. -/
def TypeDelta.BareConds (d : TypeDelta) : Prop :=
  ∀ p ∈ d.conditionals.toList, Bare p.2

instance (d : TypeDelta) : Decidable d.BareConds :=
  inferInstanceAs (Decidable (∀ p ∈ d.conditionals.toList, Bare p.2))

theorem Rule.bare_kind (rule : Rule) : Bare rule.kind := by
  have hav (f : AvFlavor) : Bare f.name := by cases f <;> decide
  have hte (f : TeFlavor) : Bare f.name := by cases f <;> decide
  cases rule with
  | av r => exact hav r.flavor
  | te r => exact hte r.flavor

/-- The names of both policies are bare, and a type is renamed to one of the modified policy. -/
structure Equivalence.BareNames (eq : Equivalence) : Prop where
  policies : ∀ side, (eq.scope side).policy.BareNames
  conditionals : ∀ p ∈ eq.conditionals.toList, Bare p.2
  renames : ∀ p ∈ eq.renames.pairs, p.2 ∈ eq.modified.policy.types

namespace Equivalence

variable {eq : Equivalence} {side : Side} {family : RuleFamily} {k : RuleKey} {rule : Rule}
  {n t : String}

theorem BareNames.bare_type (h : eq.BareNames) (ht : eq.canonicalType side n = .ok t) : Bare t := by
  obtain ⟨side', hmem⟩ := exists_type_of_canonicalType h.renames ht
  exact (h.policies side').types t hmem

theorem BareNames.bare_cond (h : eq.BareNames) {cond : Option String} (hcond : ∀ c ∈ cond, Bare c) :
    ∀ c ∈ eq.canonicalCond side cond, Bare c := by
  cases side with
  | modified => exact hcond
  | base =>
    intro c hc
    obtain ⟨b, hb, rfl⟩ := Option.map_eq_some_iff.1 hc
    rw [Std.ExtTreeMap.getD_eq_getD_getElem?]
    cases hget : eq.conditionals[b]? with
    | none => exact hcond b hb
    | some m => exact h.conditionals (b, m) (Std.ExtTreeMap.mem_toList_iff_getElem?_eq_some.2 hget)

/-- A key that rules of bare names cover is bare. -/
theorem Covered.bare (hnames : eq.BareNames) (h : eq.Covered family side k) : k.Bare := by
  obtain ⟨rule, hrule, source, target, -, hk⟩ := h
  obtain ⟨hsource, htarget, hframe⟩ := keyOf_eq_ok.1 hk
  have hbare := (hnames.policies side).rules family rule hrule
  have hkind : rule.kind = k.kind := congrArg Frame.kind hframe
  have hclass : rule.head.objectClass = k.objectClass := congrArg Frame.objectClass hframe
  have hcond : eq.canonicalCond side rule.head.cond = k.cond := congrArg Frame.cond hframe
  have hname : rule.fileName = k.name := congrArg Frame.name hframe
  exact {
    kind := hkind ▸ rule.bare_kind
    source := hnames.bare_type hsource
    target := hnames.bare_type htarget
    objectClass := hclass ▸ hbare.objectClass
    cond := hcond ▸ hnames.bare_cond hbare.cond
    name := hname ▸ hbare.name }

theorem BareNames.bare_default (h : eq.BareNames)
    (ht : RuleIndex.resolvedDefault eq side rule = .ok (some t)) : Bare t := by
  unfold RuleIndex.resolvedDefault at ht
  cases hd : rule.default? with
  | none =>
    rw [hd] at ht
    cases ht
  | some d =>
    rw [hd] at ht
    obtain ⟨type, -, ht⟩ := bind_eq_ok.1 ht
    obtain ⟨u, hu, hut⟩ := map_eq_ok.1 ht
    cases hut
    exact h.bare_type hu

end Equivalence

/-! ## Changes of sessions -/

namespace RuleIndex

variable {ix : RuleIndex} {eq : Equivalence} {side : Side} {k : RuleKey} {e : IndexEntry}

theorem Indexes.bare_perms {family : RuleFamily} (h : ix.Indexes eq family side)
    (hnames : eq.BareNames) (he : ix.get? k = some e) : ∀ p ∈ e.perms, Bare p := by
  intro p hp
  obtain ⟨rule, hrule, -, hp⟩ := (h.perms k e he p).1 hp
  exact ((hnames.policies side).rules family rule hrule).perms p hp

theorem Indexes.bare_defaults {family : RuleFamily} (h : ix.Indexes eq family side)
    (hnames : eq.BareNames) (he : ix.get? k = some e) : ∀ d ∈ e.defaults, Bare d := by
  intro d hd
  obtain ⟨rule, -, -, hdefault⟩ := (h.defaults k e he d).1 hd
  exact hnames.bare_default hdefault

end RuleIndex

/-- A permission is listed in a comparison. -/
def PermissionSplit.Lists (s : PermissionSplit) (p : String) : Prop :=
  p ∈ s.unmodified ∨ p ∈ s.added ∨ p ∈ s.removed

theorem IndexEntry.mem_of_default? {e : IndexEntry} {d : String} (h : e.default? = some d) :
    d ∈ e.defaults := by
  unfold default? at h
  split at h
  · rename_i hlist
    cases h
    exact Std.ExtTreeSet.mem_toList.1 (by simp [hlist])
  · cases h

namespace Classifier

variable {c : Classifier} {family : RuleFamily} {k : RuleKey} {b m : Option IndexEntry}
  {ch : Change} {p : String}

/-- A permission that is listed in a comparison is one of a side. -/
theorem exists_entry_of_listed (hp : (permissionSplit b m).Lists p) :
    ∃ side, ∃ e ∈ entryOf b m side, p ∈ e.perms := by
  have hempty : p ∉ (∅ : NameSet) := Std.ExtTreeSet.not_mem_empty
  rcases b with - | b <;> rcases m with - | m
  · rcases hp with hp | hp | hp <;> exact absurd hp hempty
  · exact ⟨.modified, m, rfl, hp.resolve_right (Or.elim · hempty hempty)⟩
  · exact ⟨.base, b, rfl, hp.resolve_right (Or.elim · hempty hempty)⟩
  · rcases hp with hp | hp | hp
    · exact ⟨.base, b, rfl, (Std.ExtTreeSet.mem_inter_iff.1 hp).1⟩
    · exact ⟨.modified, m, rfl, (Std.ExtTreeSet.mem_diff_iff.1 hp).1⟩
    · exact ⟨.base, b, rfl, (Std.ExtTreeSet.mem_diff_iff.1 hp).1⟩

theorem exists_entry_of_conflict {x : DefaultConflict} (hx : x ∈ conflictsOf b m) :
    ∃ side, ∃ e ∈ entryOf b m side, x.defaults = e.defaults.toList := by
  have hone {e : Option IndexEntry} {side : Side} (hx : e.bind (·.conflict? side) = some x) :
      ∃ f ∈ e, x.defaults = f.defaults.toList := by
    obtain ⟨f, hf, hx⟩ := Option.bind_eq_some_iff.1 hx
    obtain rfl := IndexEntry.side_of_conflict? hx
    exact ⟨f, hf, rfl⟩
  rcases List.mem_append.1 hx with hx | hx
  · exact ⟨.base, hone (Option.mem_toList.1 hx)⟩
  · exact ⟨.modified, hone (Option.mem_toList.1 hx)⟩

/-- A change belongs to a key that rules of a side cover. -/
theorem Ready.exists_covered (h : c.Ready family)
    (hrow : c.Row k (c.base.get? k) (c.modified.get? k) (some ch)) :
    ∃ side, c.equivalence.Covered family side k := by
  obtain ⟨form, types, -, hground⟩ := hrow.grounded
  obtain ⟨side, hside⟩ := form.exists_mem_sides
  have hsome := hground.shown side hside
  rw [entryOf_get?] at hsome
  exact ⟨side, ((h.index side).covered k).1 hsome⟩

/-- Where names are bare, the head of a change is legible. -/
theorem Ready.legible_head (h : c.Ready family) (hnames : c.equivalence.BareNames)
    (hrow : c.Row k (c.base.get? k) (c.modified.get? k) (some ch)) : ch.head.Legible := by
  obtain ⟨side, hcovered⟩ := h.exists_covered hrow
  have hkey : ch.head.key = k := hrow.key_eq rfl
  have hbare : k.Bare := hcovered.bare hnames
  have htypes : (∀ t ∈ ch.head.membershipTypes, Bare t) ∧
      (ch.head.membershipTypes ≠ [] ↔ ch.form = .addType ∨ ch.form = .removeType) := by
    cases hrow.typesFrom with
    | nowhere hnil hform =>
      have hnone : ¬∃ side : Side, ch.form = side.typeForm := not_exists.2 hform
      simp [hnil, ← Side.exists_typeForm_iff, hnone]
    | entry hform hentry hne _ hthrough =>
      refine ⟨fun t ht => ?_, by simp [hne, ← Side.exists_typeForm_iff, hform]⟩
      obtain ⟨rule, -, -, hends⟩ := h.exists_rule hentry (hthrough t ht)
      rcases hends.ends with rfl | rfl
      · exact hbare.source
      · exact hbare.target
  exact {
    key := hkey.symm ▸ hbare
    branch := hkey.symm ▸ hcovered.fits.branch
    types := htypes.1
    types_iff := htypes.2 }

theorem Ready.legible_av (h : c.Ready .av) (hnames : c.equivalence.BareNames)
    (hrow : c.Row k (c.base.get? k) (c.modified.get? k) (some ch)) : ch.Legible := by
  have hhead := h.legible_head hnames hrow
  have hname : ch.head.key.name = none := by
    obtain ⟨side, hcovered⟩ := h.exists_covered hrow
    have hkey : ch.head.key = k := hrow.key_eq rfl
    exact hkey ▸ hcovered.fits.name rfl
  obtain ⟨form, types, rfl, -⟩ := hrow.grounded
  have hexact := hrow.exactAv h.base.family_eq
  have hperms (p : String)
      (hp : (permissionSplit (c.base.get? k) (c.modified.get? k)).Lists p) : Bare p := by
    obtain ⟨side, e, he, hp⟩ := exists_entry_of_listed hp
    exact (h.index side).bare_perms hnames ((entryOf_get? c side k).symm.trans he) p hp
  rw [change_av h.base.family_eq] at hhead hname hexact ⊢
  generalize (c.base.get? k).map (·.perms) = before at hexact
  generalize (c.modified.get? k).map (·.perms) = after at hexact
  cases hexact with
  | change hexact =>
    exact {
      toLegible := hhead
      name := hname
      unmodified := fun p hp => hperms p (.inl (Std.ExtTreeSet.mem_toList.1 hp))
      added := fun p hp => hperms p (.inr (.inl (Std.ExtTreeSet.mem_toList.1 hp)))
      removed := fun p hp => hperms p (.inr (.inr (Std.ExtTreeSet.mem_toList.1 hp)))
      unmodified_ordered := hexact.unmodified_ordered
      added_ordered := hexact.added_ordered
      removed_ordered := hexact.removed_ordered
      oneSided := hexact.oneSided }

theorem Ready.legible_te (h : c.Ready .te) (hnames : c.equivalence.BareNames)
    (hrow : c.Row k (c.base.get? k) (c.modified.get? k) (some ch)) : ch.Legible := by
  have hhead := h.legible_head hnames hrow
  obtain ⟨form, types, rfl, -⟩ := hrow.grounded
  have hdefaults {side : Side} {e : IndexEntry}
      (he : entryOf (c.base.get? k) (c.modified.get? k) side = some e) (d : String)
      (hd : d ∈ e.defaults) : Bare d :=
    (h.index side).bare_defaults hnames ((entryOf_get? c side k).symm.trans he) d hd
  rw [change_te h.base.family_eq] at hhead ⊢
  exact {
    toLegible := hhead
    default := fun side d hd => by
      have hentry : (entryOf (c.base.get? k) (c.modified.get? k) side).bind (·.default?) =
          some d := by
        cases side <;> exact hd
      obtain ⟨e, he, hd⟩ := Option.bind_eq_some_iff.1 hentry
      exact hdefaults he d (IndexEntry.mem_of_default? hd)
    conflicts := fun x hx d hd => by
      obtain ⟨side, e, he, hx⟩ := exists_entry_of_conflict hx
      exact hdefaults he d (Std.ExtTreeSet.mem_toList.1 (hx ▸ hd))
    ordered := fun x hx => ordered_of_mem_conflictsOf hx }

/-- Where names are bare, every change is legible. -/
theorem Ready.legible (h : c.Ready family) (hnames : c.equivalence.BareNames)
    (hrow : c.Row k (c.base.get? k) (c.modified.get? k) (some ch)) : ch.Legible := by
  cases family with
  | av => exact h.legible_av hnames hrow
  | te => exact h.legible_te hnames hrow

theorem Ready.family_eq (h : c.Ready family)
    (hrow : c.Row k (c.base.get? k) (c.modified.get? k) (some ch)) : ch.family = family := by
  obtain ⟨form, types, rfl, -⟩ := hrow.grounded
  cases family with
  | av =>
    rw [change_av h.base.family_eq]
    rfl
  | te =>
    rw [change_te h.base.family_eq]
    rfl

end Classifier

namespace Session

variable {base modified base' modified' : Policy} {d d' : TypeDelta} {workers workers' : Int}
  {s s' : Session}

/-- The changes of a family in a session of bare names are legible changes of this family. -/
theorem Built.legible {index : RuleFamily → Side → RuleIndex} (h : Built base modified d s index)
    (hbase : base.BareNames) (hmodified : modified.BareNames) (hd : d.BareConds)
    {family : RuleFamily} {changes : List Change} (hchanges : s.changes family = .ok changes) :
    ∀ c ∈ changes, c.Legible ∧ c.family = family := by
  intro c hc
  have hready := classifierOf_ready h.indexes family
  have hrow := h.row_of_mem hchanges hc
  have hnames : (Equivalence.ofDelta base modified d).BareNames := {
    policies := fun side => by
      cases side with
      | base => exact hbase
      | modified => exact hmodified
    conditionals := hd
    renames := fun p hp => (Equivalence.types_of_checkRenames h.renames p hp).2 }
  exact ⟨hready.legible hnames hrow, hready.family_eq hrow⟩

/-- Where names are bare, lines tell changes apart. Changes of one family, of one session or of two,
have the same line only if they report the same, and the lines of a session are pairwise
different. -/
theorem lines_tell_apart (hbase : base.BareNames) (hmodified : modified.BareNames)
    (hd : d.BareConds) (hbase' : base'.BareNames) (hmodified' : modified'.BareNames)
    (hd' : d'.BareConds) (h : (build base modified d workers).1 = .ok s)
    (h' : (build base' modified' d' workers').1 = .ok s') (family : RuleFamily) :
    ∃ changes changes', s.changes family = .ok changes ∧ s'.changes family = .ok changes' ∧
      (∀ c ∈ changes, ∃ line, c.render = .ok line) ∧
      (∀ c ∈ changes, ∀ c' ∈ changes', c.render = c'.render → c.SameReport c') ∧
      changes.Pairwise fun c c' => c.render ≠ c'.render := by
  obtain ⟨index, hbuilt⟩ := exists_built h
  obtain ⟨index', hbuilt'⟩ := exists_built h'
  obtain ⟨changes, hchanges, -⟩ := hbuilt.changes family
  obtain ⟨changes', hchanges', -⟩ := hbuilt'.changes family
  have hlegible := hbuilt.legible hbase hmodified hd hchanges
  have hlegible' := hbuilt'.legible hbase' hmodified' hd' hchanges'
  have hline : ∀ c ∈ changes, ∃ line, c.render = .ok line := fun c hc =>
    (hbuilt.complete hchanges hc).line
  have hsame {c c' : Change} (hc : c ∈ changes) (hc' : c'.Legible ∧ c'.family = family)
      (hrender : c.render = c'.render) : c.SameReport c' := by
    obtain ⟨line, hline⟩ := hline c hc
    obtain ⟨hread, hfamily⟩ := hlegible c hc
    exact hread.same_report hc'.1 (hfamily.trans hc'.2.symm) hline (hrender ▸ hline)
  refine ⟨changes, changes', hchanges, hchanges', hline,
    fun c hc c' hc' => hsame hc (hlegible' c' hc'), ?_⟩
  -- Two changes of a session that report the same would have one key.
  have hkeys := ((classifierOf_ready hbuilt.indexes family).inOrder
    (hbuilt.classified family changes hchanges)).nodup_keys
  refine (List.pairwise_map.1 hkeys).imp_of_mem fun {c c'} hc hc' hne hrender => hne ?_
  exact congrArg ChangeHead.key (hsame hc (hlegible c' hc') hrender).head_eq

end Session

namespace Sample

/-- Types, classes and permissions are called like the signs of a line. -/
def signed : Policy where
  identity := some "signed"
  types := .ofList ["+", "-", "->"]
  avRules := [
    { source := "+", target := "-", objectClass := "*", flavor := .allow, perms := .ofList ["+"] },
    { source := "+", target := "->", objectClass := "*", flavor := .allow
      perms := .ofList ["+"] }]
  teRules := [
    { source := "+", target := "-", objectClass := "*", flavor := .typeTransition
      default := "->" }]

/-- Another sign is allowed, and another one is the default type. -/
def countersigned : Policy where
  identity := some "countersigned"
  types := .ofList ["+", "-", "->"]
  avRules := [
    { source := "+", target := "-", objectClass := "*", flavor := .allow
      perms := .ofList ["+", "-"] }]
  teRules := [
    { source := "+", target := "-", objectClass := "*", flavor := .typeTransition
      default := "-" }]

def signDelta : TypeDelta := .between signed countersigned ∅

/-- The lines of a family in a session. -/
def lines (family : RuleFamily) (s : Session) : Option (List (Option String)) :=
  (s.changes family).toOption.map fun changes => changes.map (·.render.toOption)

end Sample

namespace Session

theorem lines_tell_apart_sample : Sample.signed.BareNames ∧ Sample.countersigned.BareNames ∧
    Sample.signDelta.BareConds ∧ ∃ s changes,
      (build Sample.signed Sample.countersigned Sample.signDelta 2).1 = .ok s ∧
      Sample.lines .av s = some [some "* allow + - : * \x7b + \x7d (+ \x7b - \x7d);",
        some "- allow + -> : * \x7b + \x7d;"] ∧
      Sample.lines .te s = some [some "* type_transition + - : * -> -> -;"] ∧
      s.changes .av = .ok changes ∧
      (∀ c ∈ changes, ∀ c' ∈ changes, c.render = c'.render → c.SameReport c') ∧
      changes.Pairwise fun c c' => c.render ≠ c'.render := by
  have hbase : Sample.signed.BareNames := by decide +kernel
  have hmodified : Sample.countersigned.BareNames := by decide +kernel
  have hd : Sample.signDelta.BareConds := by decide +kernel
  have hlines : (build Sample.signed Sample.countersigned Sample.signDelta 2).1.toOption.map
      (fun s => (Sample.lines .av s, Sample.lines .te s)) =
      some (some [some "* allow + - : * \x7b + \x7d (+ \x7b - \x7d);",
        some "- allow + -> : * \x7b + \x7d;"],
        some [some "* type_transition + - : * -> -> -;"]) := by
    decide +kernel
  obtain ⟨s, hs, hlines⟩ := exists_ok_of_map hlines
  obtain ⟨hav, hte⟩ := Prod.mk.inj hlines
  obtain ⟨changes, _, hchanges, hchanges', -, hsame, hapart⟩ :=
    lines_tell_apart hbase hmodified hd hbase hmodified hd hs hs .av
  cases hchanges.symm.trans hchanges'
  exact ⟨hbase, hmodified, hd, s, changes, hs, hav, hte, hchanges, hsame, hapart⟩

end Session

end PolicyDelta
