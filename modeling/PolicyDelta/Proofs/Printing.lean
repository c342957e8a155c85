import PolicyDelta.Proofs.BareNames
import PolicyDelta.Proofs.Locality
import PolicyDelta.Proofs.References

/-! Rules and changes are written alike. The change that a single rule makes is rendered as a sign
before the text of the rule (`Session.single_rule`). A rule without permissions is the exception:
the rule's own text has one blank more in its braces than the line of the change. -/

namespace PolicyDelta

/-- The policy with the same names and without rules. -/
def Policy.withoutRules (p : Policy) : Policy := { p with avRules := [], teRules := [] }

namespace Rule

/-- The source, the target and the default type of a rule are types of a policy. -/
structure OfTypes (r : Rule) (p : Policy) : Prop where
  source : r.head.source ∈ p.types
  target : r.head.target ∈ p.types
  target_ne : r.head.target ≠ selfTarget
  default : ∀ d, r.default? = some d → d ∈ p.types

/-- What a rule grants or determines, with its permissions in a block. -/
def body : Rule → String
  | .av r => " " ++ namesBlock r.perms.toList
  | .te r => s!"{fileNameText r.name} {r.default}"

/-- The text of a rule as changes show it. -/
def shown (r : Rule) : String :=
  s!"{r.kind} {r.head.source} {r.head.target} : {r.head.objectClass}{r.body};" ++ r.head.condText

/-- The key of a rule between two types, if nothing is renamed. -/
def ownKey (r : Rule) : RuleKey where
  kind := r.kind
  objectClass := r.head.objectClass
  source := r.head.source
  target := r.head.target
  cond := r.head.cond
  branch := Equivalence.branchUnder r.head.cond r.head.branch
  name := r.fileName

/-- What a rule says at its key. -/
def standing (r : Rule) : Standing where
  perms := r.perms
  defaults := .ofList r.default?.toList
  typesOfEvery := ∅
  typesOfSome := ∅

/-- The policies of both sides, one of which has a single rule and the other one none. -/
def besides (r : Rule) (p : Policy) (side side' : Side) : Policy :=
  if side' = side then p.withoutRules.append r else p.withoutRules

/-- The comparison of these policies. -/
def comparison (r : Rule) (p : Policy) (side : Side) : Equivalence :=
  .ofDelta (r.besides p side .base) (r.besides p side .modified) {}

/-- The change that a single rule of a side makes. -/
def ownChange (r : Rule) (side : Side) : Change :=
  let on (side' : Side) := if side' = side then some r.standing else none
  Standing.change r.family side.ruleForm r.ownKey (on .base) (on .modified) ∅

end Rule

/-! ## The text -/

theorem namesBlock_toList (s : NameSet) : namesBlock s.toList =
    if s = ∅ then "\x7b \x7d" else "\x7b " ++ " ".intercalate s.toList ++ " \x7d" := by
  rw [namesBlock, Text.namesInOrder_of_ordered (NameSet.ordered_toList s)]
  split
  · rename_i hnil
    rw [if_pos (by_contra fun hne => NameSet.toList_ne_nil hne hnil)]
  · rename_i hne
    rw [if_neg]
    rintro rfl
    exact hne rfl

theorem Rule.shown_eq_text_iff (r : Rule) :
    r.shown = r.text ↔ ∀ a, r = .av a → a.perms ≠ ∅ := by
  cases r with
  | te r =>
    simp only [reduceCtorEq, false_implies, implies_true, iff_true]
    rw [← String.toList_inj]
    simp [shown, body, text, TeRule.text, kind, head, toString, String.toList_append]
  | av r =>
    have hav : (∀ a, Rule.av r = .av a → a.perms ≠ ∅) ↔ r.perms ≠ ∅ := by simp
    rw [hav]
    simp only [shown, body, text, AvRule.text, namesBlock_toList, kind, head]
    by_cases hempty : r.perms = ∅
    · have hnil : (∅ : NameSet).toList = [] := rfl
      -- After the first blank comes the brace in one text, and a second blank in the other.
      refine iff_of_false (fun htext => ?_) (by simpa using hempty)
      have hchars := congrArg String.toList htext
      simp [hempty, hnil, toString, String.toList_append] at hchars
    · refine iff_of_true ?_ hempty
      rw [← String.toList_inj]
      simp [hempty, toString, String.toList_append]

/-- The line of a change of rules at a rule's own key, if it has the rule's body. -/
theorem ChangeHead.line_ownKey (r : Rule) {h : ChangeHead} (side : Side) (hkey : h.key = r.ownKey)
    (hform : h.form = side.ruleForm) : h.line r.body [] = h.form.sigil ++ " " ++ r.shown := by
  have hnotes : h.annotations =
      r.head.cond.toList.map fun c => s!"[cond {c}: {branchText r.head.branch}]" := by
    unfold ChangeHead.annotations
    rw [hkey, hform]
    cases hcond : r.head.cond with
    | none => cases side <;> simp [Rule.ownKey, hcond, Side.ruleForm]
    | some c => cases side <;> simp [Rule.ownKey, hcond, Side.ruleForm, Equivalence.branchUnder]
  unfold ChangeHead.line
  rw [hnotes, hkey, ← String.toList_inj]
  cases hcond : r.head.cond with
  | none => simp [Rule.shown, Rule.ownKey, RuleHead.condText, hcond, toString, String.toList_append]
  | some c =>
    simp [Rule.shown, Rule.ownKey, RuleHead.condText, hcond, toString, String.toList_append]

/-! ## The change -/

namespace Rule

variable {r : Rule} {p : Policy} {side side' : Side} {family : RuleFamily} {k : RuleKey}

theorem withoutRules_besides (r : Rule) (p : Policy) (side side' : Side) :
    (r.besides p side side').withoutRules = p.withoutRules := by
  unfold besides
  split
  · cases r <;> rfl
  · rfl

theorem types_besides (r : Rule) (p : Policy) (side side' : Side) :
    (r.besides p side side').types = p.types :=
  (congrArg Policy.types (r.withoutRules_besides p side side') :)

theorem classes_besides (r : Rule) (p : Policy) (side side' : Side) :
    (r.besides p side side').classes = p.classes :=
  (congrArg Policy.classes (r.withoutRules_besides p side side') :)

theorem scope_comparison (r : Rule) (p : Policy) (side side' : Side) :
    ((r.comparison p side).scope side').policy = r.besides p side side' := by
  cases side' <;> rfl

theorem mem_rules_comparison {rule : Rule} : rule ∈ (r.comparison p side).rules family side' ↔
    side' = side ∧ family = r.family ∧ rule = r := by
  have hnone : p.withoutRules.rules family = [] := by
    cases family <;> rfl
  rw [Equivalence.rules, scope_comparison, besides]
  split
  · rename_i hside
    simp [Policy.mem_rules_append, hnone, hside]
  · rename_i hside
    simp [hnone, hside]

theorem reaches_comparison {n t : String} (hn : n ∈ p.types) :
    (r.comparison p side).Reaches side' n t ↔ t = n := by
  have hname (n : String) : (r.comparison p side).canonicalName side' n = n := by
    cases side' <;> rfl
  have hn' : n ∈ (r.besides p side side').types := by
    rwa [types_besides]
  unfold Equivalence.Reaches
  simp only [Equivalence.canonicalType_eq_ok, scope_comparison, hname,
    Policy.denotes_typeName hn']
  constructor
  · rintro ⟨u, rfl, -, rfl⟩
    rfl
  · rintro rfl
    exact ⟨t, rfl, hn', rfl⟩

/-- The rule covers its own key and no other one. -/
theorem OfTypes.covers_iff (h : r.OfTypes p) :
    (r.comparison p side).Covers side' r k ↔ k = r.ownKey := by
  have hframe : (r.comparison p side).frameOf side' r = Equivalence.frameOfKey r.ownKey := by
    cases side' with
    | base =>
      have hcond : (r.comparison p side).canonicalCond .base r.head.cond = r.head.cond := by
        cases r.head.cond with
        | none => rfl
        | some c => rfl
      rw [Equivalence.frameOf, hcond]
      rfl
    | modified => rfl
  rw [Equivalence.covers_iff, if_neg h.target_ne, reaches_comparison h.source,
    reaches_comparison h.target, hframe]
  constructor
  · rintro ⟨hsource, htarget, hkey⟩
    cases k
    obtain ⟨rfl, rfl, rfl, rfl, rfl⟩ := Equivalence.Frame.mk.inj hkey
    cases hsource
    cases htarget
    rfl
  · rintro rfl
    exact ⟨rfl, rfl, rfl⟩

theorem OfTypes.covered_iff (h : r.OfTypes p) : (r.comparison p side).Covered family side' k ↔
    side' = side ∧ family = r.family ∧ k = r.ownKey := by
  unfold Equivalence.Covered
  simp only [mem_rules_comparison]
  constructor
  · rintro ⟨_, ⟨hside, hfamily, rfl⟩, hk⟩
    exact ⟨hside, hfamily, h.covers_iff.1 hk⟩
  · rintro ⟨hside, hfamily, hk⟩
    exact ⟨r, ⟨hside, hfamily, rfl⟩, h.covers_iff.2 hk⟩

theorem not_through (r : Rule) (p : Policy) (side side' : Side) (k : RuleKey) (t : String) :
    ¬(r.comparison p side).Through {} side' r k t := by
  rintro (⟨ht, -⟩ | ⟨⟨-, n, -, -, ht⟩, -⟩)
  · cases side' <;> exact Std.ExtTreeSet.not_mem_empty ht
  · cases side' <;> exact Std.ExtTreeSet.not_mem_empty ht

theorem OfTypes.resolvedDefault (h : r.OfTypes p) :
    RuleIndex.resolvedDefault (r.comparison p side) side' r = .ok r.default? := by
  rw [Equivalence.resolvedDefault_eq_ok]
  cases hd : r.default? with
  | none => exact .none
  | some d =>
    have hd' : d ∈ ((r.comparison p side).scope side').policy.types := by
      rw [scope_comparison, types_besides]
      exact h.default d hd
    have hmeans := Equivalence.Means.typeName hd'
    cases side' <;> exact .some hmeans

/-- The rule has its standing at its own key, and nothing else is said. -/
theorem OfTypes.stands (h : r.OfTypes p) : (r.comparison p side).Stands {} family side' k
    (if side' = side ∧ family = r.family ∧ k = r.ownKey then some r.standing else none) := by
  split
  · rename_i hown
    obtain ⟨hside, hfamily, hk⟩ := hown
    have hone {P : Rule → Prop} : (∃ rule ∈ (r.comparison p side).rules family side',
        (r.comparison p side).Covers side' rule k ∧ P rule) ↔ P r := by
      simp only [mem_rules_comparison]
      constructor
      · rintro ⟨_, ⟨-, -, rfl⟩, -, hP⟩
        exact hP
      · intro hP
        exact ⟨r, ⟨hside, hfamily, rfl⟩, h.covers_iff.2 hk, hP⟩
    have hnone (t : String) :
        ¬(r.comparison p side).SomeThrough {} family side' k t := by
      rw [Equivalence.SomeThrough, hone]
      exact r.not_through p side side' k t
    refine .speaks (h.covered_iff.2 ⟨hside, hfamily, hk⟩) (fun q => ?_) (fun t => ?_)
      (fun t => ?_) fun t => ?_
    · rw [hone]
      rfl
    · rw [hone, h.resolvedDefault]
      simp [standing, eq_comm]
    · simp [standing, hnone]
    · simp [standing, hnone]
  · rename_i hother
    exact .silent (mt h.covered_iff.1 hother)

theorem key_ownChange (r : Rule) (side : Side) : (r.ownChange side).key = r.ownKey := by
  cases r <;> rfl

/-- There is a change at the rule's own key and nowhere else. -/
theorem verdict_eq (r : Rule) (side : Side) (family : RuleFamily) (k : RuleKey) :
    Standing.verdict family k
      (if .base = side ∧ family = r.family ∧ k = r.ownKey then some r.standing else none)
      (if .modified = side ∧ family = r.family ∧ k = r.ownKey then some r.standing else none) =
    if family = r.family ∧ k = r.ownKey then some (r.ownChange side) else none := by
  by_cases hown : family = r.family ∧ k = r.ownKey
  · obtain ⟨rfl, rfl⟩ := hown
    cases side <;> simp only [and_self, if_true, reduceCtorEq, false_and, if_false] <;> rfl
  · simp only [hown, and_false, if_false]
    rfl

theorem render_ownChange (r : Rule) (side : Side) :
    (r.ownChange side).render = .ok (side.ruleForm.sigil ++ " " ++ r.shown) := by
  cases r with
  | av r =>
    cases side with
    | base => exact congrArg Except.ok (ChangeHead.line_ownKey (.av r) .base rfl rfl)
    | modified => exact congrArg Except.ok (ChangeHead.line_ownKey (.av r) .modified rfl rfl)
  | te r =>
    cases side with
    | base => exact congrArg Except.ok (ChangeHead.line_ownKey (.te r) .base rfl rfl)
    | modified => exact congrArg Except.ok (ChangeHead.line_ownKey (.te r) .modified rfl rfl)

end Rule

namespace Session

variable {r : Rule} {p : Policy} {side : Side} {workers : Int} {s : Session}

theorem exists_build_besides (hclasses : p.classes = ∅) (h : r.OfTypes p) (side : Side)
    (workers : Int) :
    ∃ s, (build (r.besides p side .base) (r.besides p side .modified) {} workers).1 = .ok s := by
  refine exists_build_iff.2 ⟨rfl, fun family side' rule hrule => ?_⟩
  obtain ⟨-, -, rfl⟩ := Rule.mem_rules_comparison.1 hrule
  refine Equivalence.readable_iff_supports.2 ?_
  have hclasses' : (rule.besides p side side').classes = ∅ := by
    rw [Rule.classes_besides, hclasses]
  have hknown {n : String} (hn : n ∈ p.types) : n ∈ (rule.besides p side side').types := by
    rwa [Rule.types_besides]
  change ((rule.comparison p side).scope side').policy.Supports rule
  rw [Rule.scope_comparison]
  exact {
    objectClass := .inl hclasses'
    default := fun d hd => .inl (hknown (h.default d hd))
    source := .typeName (hknown h.source)
    target := .inr (.typeName (hknown h.target)) }

/-- The changes of a single rule: its own change and no other one. -/
theorem changes_besides (h : r.OfTypes p)
    (hs : (build (r.besides p side .base) (r.besides p side .modified) {} workers).1 = .ok s)
    (family : RuleFamily) :
    s.changes family = .ok (if family = r.family then [r.ownChange side] else []) := by
  obtain ⟨changes, hchanges, horder, hverdict⟩ := exists_verdicts hs family
  have horder' : Classifier.InOrder (if family = r.family then [r.ownChange side] else []) := by
    split
    · exact List.pairwise_singleton _ _
    · exact .nil
  rw [hchanges, eq_of_filter_key horder horder' fun k => ?_]
  rw [hverdict k _ _ h.stands h.stands, r.verdict_eq side family k]
  by_cases hfamily : family = r.family
  · by_cases hk : k = r.ownKey
    · simp [r.key_ownChange, hfamily, hk]
    · simp [r.key_ownChange, hfamily, hk, Ne.symm hk]
  · simp [hfamily]

/-- A session has one change, and this is its line. -/
def OnlyLine (s : Session) (line : String) : Prop :=
  ∃ family change, s.changes family = .ok [change] ∧ change.render = .ok line ∧
    ∀ other, other ≠ family → s.changes other = .ok []

theorem onlyLine_besides (h : r.OfTypes p)
    (hs : (build (r.besides p side .base) (r.besides p side .modified) {} workers).1 = .ok s) :
    s.OnlyLine (side.ruleForm.sigil ++ " " ++ r.shown) := by
  refine ⟨r.family, r.ownChange side, ?_, r.render_ownChange side, fun other hother => ?_⟩
  · rw [changes_besides h hs, if_pos rfl]
  · rw [changes_besides h hs, if_neg hother]

/-- A single rule between types of a policy without classes makes one change. The change is rendered
as the text of the rule after a sign, unless the rule has no permissions. -/
theorem single_rule (hclasses : p.classes = ∅) (h : r.OfTypes p) (workers : Int) :
    (∃ s, (build p.withoutRules (p.withoutRules.append r) {} workers).1 = .ok s ∧
      s.OnlyLine ("+ " ++ r.shown)) ∧
    (∃ s, (build (p.withoutRules.append r) p.withoutRules {} workers).1 = .ok s ∧
      s.OnlyLine ("- " ++ r.shown)) ∧
    (r.shown = r.text ↔ ∀ a, r = .av a → a.perms ≠ ∅) := by
  obtain ⟨s, hs⟩ := exists_build_besides hclasses h .modified workers
  obtain ⟨s', hs'⟩ := exists_build_besides hclasses h .base workers
  exact ⟨⟨s, hs, onlyLine_besides h hs⟩, ⟨s', hs', onlyLine_besides h hs'⟩, r.shown_eq_text_iff⟩

end Session

namespace Sample

/-- A default type for one file name, in one branch of a condition. -/
def conditionalDefault : Rule :=
  .te { source := "app", target := "log", objectClass := "file", cond := some "debug"
        branch := false, flavor := .typeTransition, default := "tmp", name := some "trace" }

/-- The program is allowed nothing on the log. -/
def allowNothing : Rule := .av (allowApp "log" [])

end Sample

namespace Session

theorem single_rule_sample : Sample.logInFile.classes = ∅ ∧
    Sample.conditionalDefault.OfTypes Sample.logInFile ∧
    ∃ s, (build Sample.logInFile.withoutRules
        (Sample.logInFile.withoutRules.append Sample.conditionalDefault) {} 2).1 = .ok s ∧
      s.OnlyLine
        "+ type_transition app log : file \"trace\" tmp; [cond debug: false]" := by
  have hclasses : Sample.logInFile.classes = ∅ := rfl
  have htypes : Sample.conditionalDefault.OfTypes Sample.logInFile :=
    ⟨by decide, by decide, by decide, by simp [Sample.conditionalDefault, Rule.default?]; decide⟩
  obtain ⟨⟨s, hs, hline⟩, -, htext⟩ := single_rule hclasses htypes 2
  rw [htext.2 (by simp [Sample.conditionalDefault])] at hline
  exact ⟨hclasses, htypes, s, hs, hline⟩

/-- The change of a rule without permissions is not rendered as the text of the rule. -/
theorem allowNothing_line_ne_text :
    ∃ s, (build Sample.logInFile.withoutRules
        (Sample.logInFile.withoutRules.append Sample.allowNothing) {} 1).1 = .ok s ∧
      ¬s.OnlyLine ("+ " ++ Sample.allowNothing.text) := by
  have hlines : (build Sample.logInFile.withoutRules
      (Sample.logInFile.withoutRules.append Sample.allowNothing) {} 1).1.toOption.map
        (fun s => (Sample.lines .av s, Sample.lines .te s)) =
      some (some [some "+ allow app log : file \x7b \x7d;"], some []) := by
    decide +kernel
  obtain ⟨s, hs, hlines⟩ := exists_ok_of_map hlines
  obtain ⟨hav, hte⟩ := Prod.mk.inj hlines
  refine ⟨s, hs, ?_⟩
  rintro ⟨family, change, hchanges, hrender, -⟩
  cases family with
  | av =>
    simp only [Sample.lines, hchanges, hrender, Except.toOption, Option.map_some, List.map_cons,
      List.map_nil, Option.some.injEq, List.cons.injEq, and_true] at hav
    exact absurd hav (by decide)
  | te => simp [Sample.lines, hchanges, Except.toOption] at hte

end Session

end PolicyDelta
