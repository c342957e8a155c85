import PolicyDelta.Proofs.Alike

/-! Comparing up to renamings and conditions of the same meaning is comparing with a policy that has
been translated before (`Session.agree_of_translate`). Renamings are of types; in the translated
policy every name has the meaning that it had under the renamings (`Equivalence.Means.translate`),
also if two types get one name. -/

namespace PolicyDelta

/-- The new name of what a name of a policy stands for; only types are renamed. -/
def Policy.newName (p : Policy) (renames : Renames) (n : String) : String :=
  if n ∈ p.types then renames.canonical n else n

def RuleHead.translate (name cond : String → String) (h : RuleHead) : RuleHead :=
  { h with source := name h.source, target := name h.target, cond := h.cond.map cond }

def AvRule.translate (name cond : String → String) (r : AvRule) : AvRule :=
  { r with toRuleHead := r.toRuleHead.translate name cond }

def TeRule.translate (name cond : String → String) (r : TeRule) : TeRule :=
  { r with toRuleHead := r.toRuleHead.translate name cond, default := name r.default }

def Rule.translate (name cond : String → String) : Rule → Rule
  | .av r => .av (r.translate name cond)
  | .te r => .te (r.translate name cond)

theorem Rule.head_translate {name cond : String → String} (rule : Rule) :
    (rule.translate name cond).head = rule.head.translate name cond := by
  cases rule <;> rfl

theorem Rule.default?_translate {name cond : String → String} (rule : Rule) :
    (rule.translate name cond).default? = rule.default?.map name := by
  cases rule <;> rfl

theorem Rule.perms_translate {name cond : String → String} (rule : Rule) :
    (rule.translate name cond).perms = rule.perms := by
  cases rule <;> rfl

/-- The policy with its types renamed wherever they are named and its conditions replaced. -/
def Policy.translate (p : Policy) (renames : Renames) (conditionals : NameMap String) : Policy :=
  let name := p.newName renames
  let cond := fun c => conditionals.getD c c
  { p with
    types := p.types.map name
    aliases := p.aliases.map fun _ t => name t
    attributes := p.attributes.map fun _ members => members.map name
    avRules := p.avRules.map (·.translate name cond)
    teRules := p.teRules.map (·.translate name cond) }

theorem Policy.rules_translate (p : Policy) (renames : Renames) (conditionals : NameMap String)
    (family : RuleFamily) : (p.translate renames conditionals).rules family = (p.rules family).map
      (Rule.translate (p.newName renames) fun c => conditionals.getD c c) := by
  cases family with
  | av => simp only [rules, translate, List.map_map]; rfl
  | te => simp only [rules, translate, List.map_map]; rfl

/-- The difference of types without renamings and conditions. -/
def TypeDelta.unrenamed (d : TypeDelta) : TypeDelta :=
  { d with renames := ∅, conditionals := ∅ }

/-- No renaming is from `self` or to it, and none is to an alias or an attribute of the policy. -/
structure Renames.Clear (renames : Renames) (p : Policy) : Prop where
  self : ∀ r ∈ renames.pairs, r.1 ≠ selfTarget ∧ r.2 ≠ selfTarget
  fresh : ∀ r ∈ renames.pairs, r.2 ∉ p.aliases ∧ r.2 ∉ p.attributes

namespace Policy

variable {p : Policy} {renames : Renames} {n t : String}

theorem newName_of_type (h : n ∈ p.types) : p.newName renames n = renames.canonical n := if_pos h

theorem newName_of_not_type (h : n ∉ p.types) : p.newName renames n = n := if_neg h

theorem newName_eq_self_iff (h : renames.Clear p) :
    n = selfTarget ↔ p.newName renames n = selfTarget := by
  unfold newName
  split
  · rcases renames.canonical_cases n with hname | hpair
    · rw [hname]
    · obtain ⟨hold, hnew⟩ := h.self _ hpair
      exact iff_of_false hold hnew
  · rfl

/-- An alias or an attribute that is no type is no type after the renamings. -/
theorem not_mem_map_newName (h : renames.Clear p) (hn : n ∉ p.types)
    (hmem : n ∈ p.aliases ∨ n ∈ p.attributes) : n ∉ p.types.map (p.newName renames) := by
  intro hmap
  obtain ⟨t, ht, hname⟩ := NameSet.mem_map.1 hmap
  rw [newName_of_type ht] at hname
  rcases renames.canonical_cases t with hsame | hpair
  · exact hn (hname ▸ hsame.symm ▸ ht)
  · obtain ⟨halias, hattribute⟩ := h.fresh _ hpair
    rw [hname] at halias hattribute
    exact hmem.elim halias hattribute

end Policy

namespace Equivalence

variable {base modified : Policy} {d : TypeDelta} {n : String} {m : Meaning} {rule : Rule}

/-- The correspondence of a translated policy. -/
def translated (base modified : Policy) (d : TypeDelta) : Equivalence :=
  .ofDelta (base.translate d.renames d.conditionals) modified d.unrenamed

theorem canonicalName_translated (t : String) :
    (translated base modified d).canonicalName .base t = t := rfl

theorem canonicalName_of_type (h : n ∈ ((ofDelta base modified d).scope .base).policy.types) :
    (ofDelta base modified d).canonicalName .base n = base.newName d.renames n :=
  (Policy.newName_of_type h).symm

theorem mem_types_translated (h : n ∈ base.types) :
    base.newName d.renames n ∈ ((translated base modified d).scope .base).policy.types :=
  NameSet.mem_map.2 ⟨n, h, rfl⟩

theorem getElem?_aliases_translated :
    ((translated base modified d).scope .base).policy.aliases[n]? =
      base.aliases[n]?.map (base.newName d.renames) :=
  Std.ExtTreeMap.getElem?_map

theorem mem_aliases_translated :
    n ∈ ((translated base modified d).scope .base).policy.aliases ↔ n ∈ base.aliases :=
  Std.ExtTreeMap.mem_map

theorem getElem?_attributes_translated :
    ((translated base modified d).scope .base).policy.attributes[n]? =
      base.attributes[n]?.map (NameSet.map (base.newName d.renames)) :=
  Std.ExtTreeMap.getElem?_map

/-- A name has the meaning that it had under the renamings. -/
theorem Means.translate (hclear : d.renames.Clear base)
    (h : (ofDelta base modified d).Means .base n m) :
    (translated base modified d).Means .base (base.newName d.renames n) m := by
  cases h with
  | typeName hn =>
    rw [canonicalName_of_type hn]
    exact .typeName (mem_types_translated hn)
  | @aliasName t hn ha ht =>
    have hmem : n ∈ base.aliases := mem_aliases_of_getElem? ha
    rw [canonicalName_of_type ht, Policy.newName_of_not_type (p := base) hn]
    have ha' : ((translated base modified d).scope .base).policy.aliases[n]? =
        some (base.newName d.renames t) := by
      rw [getElem?_aliases_translated]
      exact congrArg (Option.map _) ha
    have hn' := Policy.not_mem_map_newName hclear hn (.inl hmem)
    exact .aliasName hn' ha' (mem_types_translated ht)
  | @attributeName ms hn ha hms hmembers =>
    have hmem : n ∈ base.attributes := mem_attributes_of_getElem? hms
    -- The members are types, so the new names are those of the renamings.
    have hmap : ms.map ((ofDelta base modified d).canonicalName .base) =
        (ms.map (base.newName d.renames)).map
          ((translated base modified d).canonicalName .base) := by
      refine Std.ExtTreeSet.ext_mem fun t => ?_
      simp only [NameSet.mem_map, canonicalName_translated, exists_eq_right]
      refine exists_congr fun u => and_congr_right fun hu => ?_
      rw [canonicalName_of_type (hmembers u hu)]
    rw [hmap, Policy.newName_of_not_type (p := base) hn]
    refine .attributeName (Policy.not_mem_map_newName hclear hn (.inr hmem)) ?_ ?_ ?_
    · exact mt mem_aliases_translated.1 ha
    · rw [getElem?_attributes_translated]
      exact congrArg (Option.map _) hms
    · intro t ht
      obtain ⟨u, hu, rfl⟩ := NameSet.mem_map.1 ht
      exact mem_types_translated (hmembers u hu)

theorem Means.sameName_translate (hclear : d.renames.Clear base)
    (h : (ofDelta base modified d).Means .base n m) :
    SameName (ofDelta base modified d) .base n (translated base modified d) .base
      (base.newName d.renames n) :=
  ⟨Policy.newName_eq_self_iff hclear, m, h, h.translate hclear⟩

theorem canonicalCond_translated (c : Option String) :
    (translated base modified d).canonicalCond .base c = c := by
  cases c with
  | none => rfl
  | some c => exact congrArg some Std.ExtTreeMap.getD_empty

theorem frameOf_translate (rule : Rule) : (ofDelta base modified d).frameOf .base rule =
    (translated base modified d).frameOf .base
      (rule.translate (base.newName d.renames) fun c => d.conditionals.getD c c) := by
  unfold frameOf
  rw [canonicalCond_translated, Rule.head_translate]
  cases rule <;> rfl

/-- A translated rule says what the rule said under the renamings. -/
theorem Readable.translate (hclear : d.renames.Clear base)
    (h : (ofDelta base modified d).Readable .base rule) :
    Alike (ofDelta base modified d) .base rule (translated base modified d) .base
      (rule.translate (base.newName d.renames) fun c => d.conditionals.getD c c) := by
  obtain ⟨m, hm⟩ := h.source
  refine h.alike rfl (frameOf_translate rule) ?_ ?_ ?_
  · obtain ⟨o, ho⟩ := h.default
    rw [resolvedDefault_eq_ok] at ho
    rw [Rule.default?_translate]
    generalize rule.default? = n at ho
    cases ho with
    | none => exact .none
    | some hm => exact .some (hm.sameName_translate hclear)
  · rw [Rule.head_translate]
    exact hm.sameName_translate hclear
  · rw [Rule.head_translate]
    by_cases hself : rule.head.target = selfTarget
    · exact .inl ⟨hself, (Policy.newName_eq_self_iff hclear).1 hself⟩
    · obtain ⟨m', hm'⟩ := h.target hself
      exact .inr ⟨hself, hm'.sameName_translate hclear⟩

theorem sameNames_translated :
    SameNames (ofDelta base modified d) .modified (translated base modified d) .modified where
  types := rfl
  aliases := rfl
  attributes := rfl
  classes := rfl
  canonicalName := rfl
  canonicalCond := rfl

end Equivalence

/-- A comparison with renamings and conditions gives the answers of the comparison with the policy
that has been translated before. -/
theorem Session.agree_of_translate {base modified : Policy} {d : TypeDelta} {workers : Int}
    {s : Session} (h : (build base modified d workers).1 = .ok s)
    (hclear : d.renames.Clear base) (workers' : Int) :
    ∃ s', (build (base.translate d.renames d.conditionals) modified d.unrenamed workers').1 =
      .ok s' ∧ s.Agree s' := by
  obtain ⟨-, hread⟩ := exists_build_iff.1 ⟨s, h⟩
  refine exists_agreeing h rfl (fun side => ?_) workers'
  cases side with
  | base =>
    exact Equivalence.matches_of_map _ rfl (fun _ => rfl) (base.rules_translate _ _)
      (fun family rule hrule => (hread family .base rule hrule).translate hclear)
      Rule.perms_translate
  | modified =>
    exact Equivalence.sameNames_translated.matches rfl (fun _ => rfl)
      (fun family => hread family .modified) fun _ => rfl

/-! ## Two files that become one -/

namespace Sample

/-- The log of `after` is kept in two files, which are known by days. -/
def daily : Policy where
  identity := some "daily"
  types := .ofList ["app", "monday", "tmp", "tuesday"]
  aliases := .ofList [("journal", "monday")]
  attributes := .ofList [("file", (.ofList ["monday", "tmp", "tuesday"] : NameSet))]
  avRules := [
    { source := "app", target := "file", objectClass := "file", cond := some "debug"
      flavor := .allow, perms := .ofList ["read"] },
    { source := "app", target := "journal", objectClass := "file", cond := some "debug"
      flavor := .allow, perms := .ofList ["append"] }]
  teRules := [
    { source := "app", target := "tuesday", objectClass := "file", flavor := .typeTransition
      default := "journal" }]

/-- The rules of `after` hold under a condition. -/
def verboseAfter : Policy :=
  { after with avRules := after.avRules.map fun r => { r with cond := some "verbose" } }

/-- Both files are renamed to the log. -/
def renamesOfDays : Renames := .ofList [("monday", "log"), ("tuesday", "log")]

def dailyDelta : TypeDelta :=
  { TypeDelta.between daily verboseAfter renamesOfDays with
    conditionals := .ofList [("debug", "verbose")] }

theorem renamesOfDays_clear : renamesOfDays.Clear daily where
  self := by decide
  fresh := by decide

end Sample

theorem Session.agree_of_translate_sample :
    Sample.dailyDelta.renames.Clear Sample.daily ∧
    ∃ s, (build Sample.daily Sample.verboseAfter Sample.dailyDelta 2).1 = .ok s ∧
      Sample.forms .av s = some [.addType, .modified, .added] ∧
      ∃ s', (build (Sample.daily.translate Sample.dailyDelta.renames Sample.dailyDelta.conditionals)
        Sample.verboseAfter Sample.dailyDelta.unrenamed 1).1 = .ok s' ∧ s.Agree s' := by
  have hforms : (build Sample.daily Sample.verboseAfter Sample.dailyDelta 2).1.toOption.map
      (Sample.forms .av) = some (some [.addType, .modified, .added]) := by
    decide +kernel
  obtain ⟨s, hs, hforms⟩ := exists_ok_of_map hforms
  exact ⟨Sample.renamesOfDays_clear, s, hs, hforms,
    agree_of_translate hs Sample.renamesOfDays_clear 1⟩

end PolicyDelta
