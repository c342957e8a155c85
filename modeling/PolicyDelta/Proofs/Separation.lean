import PolicyDelta.Proofs.Lines
import PolicyDelta.Proofs.Readable

/-! Types that stay apart under renamings. Canonical names tell the types of the base policy apart
exactly if no two renamings have one target and every target that is itself a type of the base
policy is renamed (`Equivalence.distinguishes_iff`). Rules then share a key only where they stand
for a common pair of types, and a right of a pair that is gained or lost shows at the pair's own
key. -/

namespace PolicyDelta

/-- Renamings do not collide on types: no two of them have one target, and a target that is one of
the types is renamed as well. -/
structure Renames.KeepApart (renames : Renames) (types : NameSet) : Prop where
  targets : ∀ r ∈ renames.pairs, ∀ r' ∈ renames.pairs, r.2 = r'.2 → r.1 = r'.1
  vacated : ∀ r ∈ renames.pairs, r.2 ∈ types → ∃ r' ∈ renames.pairs, r'.1 = r.2

namespace Renames

variable {renames : Renames} {types : NameSet} {r : String × String} {a b : String}

theorem canonical_of_mem (hr : r ∈ renames.pairs) : renames.canonical r.1 = r.2 := by
  have hfind : renames.pairs.find? (·.1 = r.1) = some r := by
    refine List.find?_eq_some_iff_append.2 ⟨by simp, ?_⟩
    obtain ⟨before, after, hsplit⟩ := List.append_of_mem hr
    refine ⟨before, after, hsplit, ?_⟩
    intro r' hr'
    -- The keys before the pair differ from its own.
    have hnodup := renames.nodup_keys
    rw [hsplit, List.map_append, List.nodup_append] at hnodup
    have hne := hnodup.2.2 r'.1 (List.mem_map_of_mem hr') r.1 (by simp)
    simpa using hne
  rw [canonical, OrderedMap.get?, hfind]
  rfl

theorem KeepApart.eq_of_renamed (h : renames.KeepApart types)
    (ha : (a, renames.canonical a) ∈ renames.pairs) (hb : b ∈ types)
    (hname : renames.canonical a = renames.canonical b) : a = b := by
  rcases renames.canonical_cases b with hsame | hpair
  · -- The name of `b` is the target of a renaming, so `b` is renamed, if only to itself.
    rw [hname, hsame] at ha
    obtain ⟨r, hr, hrb⟩ := h.vacated _ ha hb
    have hrtarget := canonical_of_mem hr
    rw [hrb, hsame] at hrtarget
    exact (h.targets _ ha _ hr hrtarget).trans hrb
  · exact h.targets _ ha _ hpair hname

/-- Renamings of types keep the types apart exactly if they do not collide. -/
theorem keepApart_iff (hsources : ∀ r ∈ renames.pairs, r.1 ∈ types) :
    renames.KeepApart types ↔
      ∀ a ∈ types, ∀ b ∈ types, renames.canonical a = renames.canonical b → a = b := by
  constructor
  · intro h a ha b hb hname
    rcases renames.canonical_cases a with hsame | hpair
    · rcases renames.canonical_cases b with hsame' | hpair'
      · rw [← hsame, hname, hsame']
      · exact (h.eq_of_renamed hpair' ha hname.symm).symm
    · exact h.eq_of_renamed hpair hb hname
  · intro h
    constructor
    · intro r hr r' hr' htarget
      apply h r.1 (hsources r hr) r'.1 (hsources r' hr')
      rw [canonical_of_mem hr, canonical_of_mem hr', htarget]
    · intro r hr htype
      rcases renames.canonical_cases r.2 with hsame | hpair
      · have hself : r.1 = r.2 := by
          apply h r.1 (hsources r hr) r.2 htype
          rw [canonical_of_mem hr, hsame]
        exact ⟨r, hr, hself⟩
      · exact ⟨_, hpair, rfl⟩

end Renames

/-! ## Rules and rights of pairs of types -/

namespace Equivalence

variable {eq : Equivalence} {side : Side} {k : RuleKey} {source target perm : String}

theorem make_eq_ofDelta {base modified : Policy} {d : TypeDelta} :
    make base.scope modified.scope d = .ok (.ofDelta base modified d) ↔
      ∀ r ∈ d.renames.pairs, r.1 ∈ base.types ∧ r.2 ∈ modified.types := by
  have hchecked : checkRenames base.scope modified.scope d.renames.pairs = .ok () ↔
      ∀ r ∈ d.renames.pairs, r.1 ∈ base.types ∧ r.2 ∈ modified.types :=
    checkRenames_eq_ok
  rw [← hchecked, make]
  constructor
  · intro h
    exact (bind_eq_ok.1 h).choose_spec.1
  · intro h
    rw [h]
    rfl

/-- Canonical names tell the types of the base policy apart. -/
def Distinguishes (eq : Equivalence) : Prop :=
  ∀ a b t, eq.canonicalType .base a = .ok t → eq.canonicalType .base b = .ok t → a = b

theorem distinguishes_iff (hsources : ∀ r ∈ eq.renames.pairs, r.1 ∈ eq.base.policy.types) :
    eq.Distinguishes ↔ eq.renames.KeepApart eq.base.policy.types := by
  rw [Renames.keepApart_iff hsources]
  constructor
  · intro h a ha b hb hname
    exact h a b _ (canonicalType_eq_ok.2 ⟨ha, hname⟩) (canonicalType_eq_ok.2 ⟨hb, rfl⟩)
  · intro h a b t ha hb
    obtain ⟨ha, hat⟩ := canonicalType_eq_ok.1 ha
    obtain ⟨hb, hbt⟩ := canonicalType_eq_ok.1 hb
    exact h a ha b hb (hat.trans hbt.symm)

/-- Rules of one key stand for one pair of types, if these are told apart. -/
theorem exists_common_pair {rule rule' : Rule}
    (hinj : ∀ a b t, eq.canonicalType side a = .ok t → eq.canonicalType side b = .ok t → a = b)
    (h : eq.Covers side rule k) (h' : eq.Covers side rule' k) :
    ∃ source target, rule.Expands (eq.scope side).policy source target ∧
      rule'.Expands (eq.scope side).policy source target := by
  obtain ⟨source, target, hpair, hk⟩ := h
  obtain ⟨source', target', hpair', hk'⟩ := h'
  obtain ⟨hsource, htarget, -⟩ := keyOf_eq_ok.1 hk
  obtain ⟨hsource', htarget', -⟩ := keyOf_eq_ok.1 hk'
  obtain rfl := hinj source source' k.source hsource hsource'
  obtain rfl := hinj target target' k.target htarget htarget'
  exact ⟨source, target, hpair, hpair'⟩

/-- The key of a pair of canonical names in a frame. -/
def Frame.key (f : Frame) (source target : String) : RuleKey :=
  ⟨f.kind, f.objectClass, source, target, f.cond, f.branch, f.name⟩

/-- A rule of a side gives a permission in a frame to a pair of types, by their own names. -/
def Allows (eq : Equivalence) (side : Side) (f : Frame) (source target perm : String) : Prop :=
  ∃ rule ∈ eq.rules .av side, rule.Expands (eq.scope side).policy source target ∧
    eq.frameOf side rule = f ∧ perm ∈ rule.perms

/-- What is granted at the key of a pair is what its types are allowed, if they alone have their
canonical names. -/
theorem Grants.mem_iff_allows {f : Frame} {source' target' : String} {granted : Option NameSet}
    (hsource : ∀ a, eq.canonicalType side a = .ok source' → a = source)
    (htarget : ∀ a, eq.canonicalType side a = .ok target' → a = target)
    (hnames : eq.Allows side f source target perm → eq.canonicalType side source = .ok source' ∧
      eq.canonicalType side target = .ok target')
    (h : eq.Grants side (f.key source' target') granted) :
    (∃ said ∈ granted, perm ∈ said) ↔ eq.Allows side f source target perm := by
  have hrules : (∃ said ∈ granted, perm ∈ said) ↔ ∃ rule ∈ eq.rules .av side,
      eq.Covers side rule (f.key source' target') ∧ perm ∈ rule.perms := by
    cases h with
    | silent huncovered =>
      constructor
      · rintro ⟨said, ⟨⟩, -⟩
      · rintro ⟨rule, hrule, hcovers, -⟩
        exact absurd ⟨rule, hrule, hcovers⟩ huncovered
    | all _ hall => simp [hall]
  rw [hrules]
  constructor
  · rintro ⟨rule, hrule, ⟨a, b, hpair, hk⟩, hperm⟩
    obtain ⟨ha, hb, hframe⟩ := keyOf_eq_ok.1 hk
    obtain rfl := hsource a ha
    obtain rfl := htarget b hb
    exact ⟨rule, hrule, hpair, hframe, hperm⟩
  · intro hallows
    obtain ⟨hsource', htarget'⟩ := hnames hallows
    obtain ⟨rule, hrule, hpair, rfl, hperm⟩ := hallows
    exact ⟨rule, hrule, ⟨source, target, hpair, keyOf_eq_ok.2 ⟨hsource', htarget', rfl⟩⟩, hperm⟩

/-- A pair of types of the base policy is allowed a permission on a side: by their own names in the
base policy, by their canonical names in the modified one. -/
def AllowsPair (eq : Equivalence) (f : Frame) (source target perm : String) (side : Side) : Prop :=
  match side with
  | .base => eq.Allows .base f source target perm
  | .modified => eq.Allows .modified f (eq.canonicalName .base source)
    (eq.canonicalName .base target) perm

end Equivalence

/-! ## Gains and losses -/

namespace AvChange

/-- The permissions that only one side of a modified change grants. -/
def ownPerms (c : AvChange) : Side → List String
  | .base => c.removedPerms
  | .modified => c.addedPerms

/-- A change shows a permission as one that only a side grants. -/
def Shows (c : AvChange) (side : Side) (perm : String) : Prop :=
  perm ∈ c.ownPerms side ∨ c.form.sides = [side] ∧ perm ∈ c.unmodifiedPerms

variable {c : AvChange} {granted : Side → Option NameSet} {side : Side} {perm : String}

/-- What a change tells about one of its sides. -/
theorem Tells.cases_side (h : c.Tells (granted .base) (granted .modified)) (side : Side) :
    (c.form.sides = [side] ∧ granted side = some (.ofList c.unmodifiedPerms)) ∨
    (∀ side, granted side = some (.ofList (c.unmodifiedPerms ++ c.ownPerms side))) ∨
    granted side = none ∨ granted side = granted side.other := by
  unfold Tells at h
  cases hform : c.form with
  | modified =>
    rw [hform] at h
    obtain ⟨-, hbase, hmodified, -⟩ := h
    right
    left
    intro side
    cases side with
    | base => exact hbase
    | modified => exact hmodified
  | added | removed =>
    rw [hform] at h
    cases side <;> simp_all [ChangeForm.sides]
  | addType =>
    rw [hform] at h
    obtain ⟨hafter, hbefore⟩ := h
    cases side with
    | base => exact .inr (.inr hbefore)
    | modified => exact .inl ⟨rfl, hafter⟩
  | removeType =>
    rw [hform] at h
    obtain ⟨hbefore, hafter⟩ := h
    cases side with
    | base => exact .inl ⟨rfl, hbefore⟩
    | modified => exact .inr (.inr hafter)

/-- A permission that one side grants and the other does not is shown. -/
theorem Tells.shows (h : c.Tells (granted .base) (granted .modified))
    (hown : ∃ said ∈ granted side, perm ∈ said)
    (hother : ¬∃ said ∈ granted side.other, perm ∈ said) : c.Shows side perm := by
  have hlist (l : List String) : (∃ said ∈ some (.ofList l : NameSet), perm ∈ said) ↔ perm ∈ l := by
    simp [Std.ExtTreeSet.mem_ofList]
  rcases h.cases_side side with ⟨hform, hsaid⟩ | hsaid | hnone | hsame
  · rw [hsaid, hlist] at hown
    exact .inr ⟨hform, hown⟩
  · rw [hsaid, hlist, List.mem_append] at hown hother
    exact .inl (hown.resolve_left fun hperm => hother (.inl hperm))
  · rw [hnone] at hown
    obtain ⟨_, ⟨⟩, _⟩ := hown
  · exact absurd (hsame ▸ hown) hother

end AvChange

/-- The types that an indexed rule stands for are types of its policy. -/
theorem RuleIndex.Indexes.types_of_expands {ix : RuleIndex} {eq : Equivalence}
    {family : RuleFamily} {side : Side} (h : ix.Indexes eq family side) {rule : Rule}
    (hrule : rule ∈ eq.rules family side) {source target : String}
    (hpair : rule.Expands (eq.scope side).policy source target) :
    source ∈ (eq.scope side).policy.types ∧ target ∈ (eq.scope side).policy.types := by
  obtain ⟨r, hread⟩ := h.readable rule hrule
  obtain ⟨hsource, htarget⟩ := hpair
  have hsourceType := hread.source_known.types source hsource
  refine ⟨hsourceType, ?_⟩
  split at htarget
  · rw [htarget]
    exact hsourceType
  · rename_i hself
    exact (hread.target_known hself).types target htarget

namespace Session

variable {base modified : Policy} {d : TypeDelta} {workers : Int} {s : Session}

/-- A permission of a pair of types that only one side allows shows at the key of the pair, if the
types of the base policy are told apart. -/
theorem exists_change_showing (h : (build base modified d workers).1 = .ok s)
    (hapart : (Equivalence.ofDelta base modified d).Distinguishes) :
    ∃ changes, s.changes .av = .ok changes ∧
      ∀ f, ∀ source ∈ base.types, ∀ target ∈ base.types, ∀ perm side,
        (Equivalence.ofDelta base modified d).AllowsPair f source target perm side →
        ¬(Equivalence.ofDelta base modified d).AllowsPair f source target perm side.other →
          ∃ c, Change.av c ∈ changes ∧ c.key = f.key (d.renames.canonical source)
            (d.renames.canonical target) ∧ c.Shows side perm := by
  obtain ⟨index, hbuilt⟩ := exists_built h
  obtain ⟨changes, hchanges, hrow⟩ := hbuilt.changes .av
  refine ⟨changes, hchanges, ?_⟩
  intro f source hsource target htarget perm side hown hother
  let k := f.key (d.renames.canonical source) (d.renames.canonical target)
  let granted (side : Side) := ((index .av side).get? k).map (·.perms)
  have hgranted (side : Side) : (∃ said ∈ granted side, perm ∈ said) ↔
      (Equivalence.ofDelta base modified d).AllowsPair f source target perm side := by
    have hindexes := hbuilt.indexes .av side
    cases side with
    | base =>
      have hname (t : String) (ht : t ∈ base.types) : (Equivalence.ofDelta base modified
          d).canonicalType .base t = .ok (d.renames.canonical t) :=
        Equivalence.canonicalType_eq_ok.2 ⟨ht, rfl⟩
      exact (hindexes.grants k).mem_iff_allows (fun a ha => hapart a source _ ha (hname _ hsource))
        (fun a ha => hapart a target _ ha (hname _ htarget))
        fun _ => ⟨hname _ hsource, hname _ htarget⟩
    | modified =>
      refine (hindexes.grants k).mem_iff_allows (fun a ha => ?_) (fun a ha => ?_) ?_
      · exact (Equivalence.canonicalType_eq_ok.1 ha).2
      · exact (Equivalence.canonicalType_eq_ok.1 ha).2
      · rintro ⟨rule, hrule, hpair, -⟩
        obtain ⟨hsource', htarget'⟩ := hindexes.types_of_expands hrule hpair
        exact ⟨Equivalence.canonicalType_eq_ok.2 ⟨hsource', rfl⟩,
          Equivalence.canonicalType_eq_ok.2 ⟨htarget', rfl⟩⟩
  rw [← hgranted] at hown hother
  obtain ⟨found, hfound, hrow⟩ := hrow k
  have hfamily : (classifierOf (.ofDelta base modified d) d index .av).family = .av :=
    (hbuilt.indexes .av .base).family_eq
  have hexact : ExactAv found (granted .base) (granted .modified) := hrow.exactAv hfamily
  generalize hbefore : granted .base = before at hexact
  generalize hafter : granted .modified = after at hexact
  cases hexact with
  | same =>
    -- Both sides grant the same, so none grants more.
    have hsame : granted side = granted side.other := by
      cases side with
      | base => exact hbefore.trans hafter.symm
      | modified => exact hafter.trans hbefore.symm
    exact absurd (hsame ▸ hown) hother
  | @change c _ _ hexact =>
    have hmem : Change.av c ∈ changes ∧ (Change.av c).key = k := by
      have hfilter : Change.av c ∈ changes.filter (·.key = k) := by simp [hfound]
      simpa using hfilter
    subst hbefore hafter
    exact ⟨c, hmem.1, hmem.2, hexact.tells.shows hown hother⟩

end Session

/-- Canonical names tell the types of the base policy apart exactly if the renamings do not collide.
Then rules of one entry of a base index stand for a common pair of types, and a permission that a
pair of base types has on one side only shows at its key: as lost by the pair that had it, as gained
by the pair that has it. -/
theorem Equivalence.types_stay_apart {base modified : Policy} {d : TypeDelta} {eq : Equivalence}
    (h : Equivalence.make base.scope modified.scope d = .ok eq) :
    (eq.Distinguishes ↔ d.renames.KeepApart base.types) ∧
    (eq.Distinguishes →
      (∀ family workers w ix w', w.Faithful eq.scope →
        (RuleIndex.build eq family .base workers).run.run w = (.ok ix, w') →
        ∀ k e, ix.get? k = some e → ∀ rule ∈ e.rules, ∀ rule' ∈ e.rules,
          ∃ source target, rule.Expands base source target ∧ rule'.Expands base source target) ∧
      ∀ workers s, (Session.build base modified d workers).1 = .ok s →
        ∃ changes, s.changes .av = .ok changes ∧
          ∀ f, ∀ source ∈ base.types, ∀ target ∈ base.types, ∀ perm side,
            eq.AllowsPair f source target perm side →
            ¬eq.AllowsPair f source target perm side.other →
              ∃ c, Change.av c ∈ changes ∧ c.key = f.key (d.renames.canonical source)
                (d.renames.canonical target) ∧ c.Shows side perm) := by
  obtain ⟨_, hrenames, -⟩ := bind_eq_ok.1 h
  obtain rfl := Session.eq_ofDelta_of_make h
  refine ⟨?_, fun hapart => ⟨?_, ?_⟩⟩
  · apply distinguishes_iff
    intro r hr
    exact (types_of_checkRenames hrenames r hr).1
  · intro family workers w ix w' hw hbuild k e he rule hrule rule' hrule'
    obtain ⟨w'', hrun, -⟩ := RuleIndex.build_yields _ family .base workers w hw
    have hread := congrArg Prod.fst (hrun.symm.trans hbuild)
    have hrules := (RuleIndex.indexes_of_read hread).rules k e he
    exact exists_common_pair hapart ((hrules rule).1 hrule).2 ((hrules rule').1 hrule').2
  · intro workers s hs
    exact Session.exists_change_showing hs hapart

/-! ## Two programs and their log -/

namespace Sample

/-- A program is allowed something on the log. -/
def onLog (program : String) (perms : List String) : AvRule :=
  { source := program, target := "log", objectClass := "file", flavor := .allow
    perms := .ofList perms }

/-- Two programs with rights on the log. -/
def twoPrograms (identity : String) (rights : List (String × List String)) : Policy where
  identity := some identity
  types := .ofList ["log", "reader", "writer"]
  avRules := rights.map fun right => onLog right.1 right.2

/-- One program reads what the other writes. -/
def separate : Policy := twoPrograms "separate" [("reader", ["read"]), ("writer", ["append"])]

/-- The writer does both. -/
def united : Policy := twoPrograms "united" [("writer", ["append", "read"])]

def onLogFrame : Equivalence.Frame := ⟨"allow", "file", none, none, none⟩

/-- Both programs are renamed, each to the name of the other. -/
def swap : TypeDelta :=
  .between separate united (.ofList [("reader", "writer"), ("writer", "reader")])

/-- The reader is renamed to the writer, which keeps its name. -/
def merger : TypeDelta := .between separate united (.ofList [("reader", "writer")])

variable {eq : Equivalence} {side : Side} {identity program perm : String}
  {rights : List (String × List String)}

/-- A right on the log is one of those that the rules are made of. -/
theorem allows_onLog (hpolicy : (eq.scope side).policy = twoPrograms identity rights)
    (hprograms : ∀ right ∈ rights, right.1 ∈ (twoPrograms identity rights).types) :
    eq.Allows side onLogFrame program "log" perm ↔
      ∃ right ∈ rights, right.1 = program ∧ perm ∈ right.2 := by
  have hlog : "log" ∈ (twoPrograms identity rights).types := by
    simp [twoPrograms, Std.ExtTreeSet.mem_ofList]
  have hcond : eq.canonicalCond side none = none := by cases side <;> rfl
  have hrule (right : String × List String) (hright : right ∈ rights) :
      (Rule.av (onLog right.1 right.2)).Expands (twoPrograms identity rights) program "log" ↔
        program = right.1 := by
    have hself : (Rule.av (onLog right.1 right.2)).head.target ≠ selfTarget := by
      show "log" ≠ selfTarget
      decide
    unfold Rule.Expands
    rw [if_neg hself]
    exact (and_iff_left (.typeName hlog)).trans (Policy.denotes_typeName (hprograms right hright))
  unfold Equivalence.Allows Equivalence.rules
  rw [hpolicy]
  constructor
  · rintro ⟨_, hmem, hexpands, -, hperm⟩
    simp only [Policy.rules, twoPrograms, List.map_map, List.mem_map, Function.comp_apply] at hmem
    obtain ⟨right, hright, rfl⟩ := hmem
    refine ⟨right, hright, ((hrule right hright).1 hexpands).symm, ?_⟩
    simpa [Rule.perms, onLog, Std.ExtTreeSet.mem_ofList] using hperm
  · rintro ⟨right, hright, rfl, hperm⟩
    refine ⟨.av (onLog right.1 right.2), ?_, (hrule right hright).2 rfl, ?_, ?_⟩
    · simp only [Policy.rules, twoPrograms, List.map_map, List.mem_map, Function.comp_apply]
      exact ⟨right, hright, rfl⟩
    · simp only [Equivalence.frameOf, onLog, Rule.head, hcond]
      rfl
    · simpa [Rule.perms, onLog, Std.ExtTreeSet.mem_ofList] using hperm

end Sample

/-- The right to append moves, under swapped names, from the one program to the other. -/
theorem Equivalence.types_stay_apart_sample :
    ∃ eq, make Sample.separate.scope Sample.united.scope Sample.swap = .ok eq ∧ eq.Distinguishes ∧
      ∃ s changes, (Session.build Sample.separate Sample.united Sample.swap 2).1 = .ok s ∧
        s.changes .av = .ok changes ∧
        (∃ c, Change.av c ∈ changes ∧ c.key = Sample.onLogFrame.key "reader" "log" ∧
          c.Shows .base "append") ∧
        ∃ c, Change.av c ∈ changes ∧ c.key = Sample.onLogFrame.key "writer" "log" ∧
          c.Shows .modified "append" := by
  have hmake : make Sample.separate.scope Sample.united.scope Sample.swap = .ok
      (.ofDelta Sample.separate Sample.united Sample.swap) :=
    make_eq_ofDelta.2 (by decide)
  obtain ⟨hiff, hshown⟩ := types_stay_apart hmake
  have hapart : Distinguishes (.ofDelta Sample.separate Sample.united Sample.swap) :=
    hiff.2 ⟨by decide, by decide⟩
  have hforms : (Session.build Sample.separate Sample.united Sample.swap 2).1.toOption.map
      (Sample.forms .av) = some (some [.removed, .modified]) := by
    decide +kernel
  obtain ⟨s, hs, -⟩ := exists_ok_of_map hforms
  obtain ⟨changes, hchanges, hshown⟩ := (hshown hapart).2 2 s hs
  refine ⟨_, hmake, hapart, s, changes, hs, hchanges, ?_, ?_⟩
  · apply hshown Sample.onLogFrame "writer" (by decide) "log" (by decide) "append" .base
    · exact (Sample.allows_onLog rfl (by decide)).2 (by decide)
    · exact fun h => absurd ((Sample.allows_onLog rfl (by decide)).1 h) (by decide)
  · apply hshown Sample.onLogFrame "reader" (by decide) "log" (by decide) "append" .modified
    · exact (Sample.allows_onLog rfl (by decide)).2 (by decide)
    · exact fun h => absurd ((Sample.allows_onLog rfl (by decide)).1 h) (by decide)

/-- A renaming to a type that keeps its name merges both: rules of either share an entry, and the
right to read moves from the one to the other without any change. -/
theorem Equivalence.types_may_merge :
    ∃ eq, make Sample.separate.scope Sample.united.scope Sample.merger = .ok eq ∧
      eq.canonicalType .base "reader" = eq.canonicalType .base "writer" ∧
      (∃ ix w e, (RuleIndex.build eq .av .base 1).run.run {} = (.ok ix, w) ∧
        ix.get? (Sample.onLogFrame.key "writer" "log") = some e ∧
        ∃ rule ∈ e.rules, ∃ rule' ∈ e.rules, ∀ source target,
          ¬(rule.Expands Sample.separate source target ∧
            rule'.Expands Sample.separate source target)) ∧
      (eq.Allows .base Sample.onLogFrame "reader" "log" "read" ∧
        ¬eq.Allows .base Sample.onLogFrame "writer" "log" "read" ∧
        ¬eq.Allows .modified Sample.onLogFrame "reader" "log" "read" ∧
        eq.Allows .modified Sample.onLogFrame "writer" "log" "read") ∧
      ∃ s, (Session.build Sample.separate Sample.united Sample.merger 2).1 = .ok s ∧
        s.changes .av = .ok [] := by
  have hrules : ((RuleIndex.build (.ofDelta Sample.separate Sample.united Sample.merger) .av .base
      1).run.run {}).1.toOption.map
        (fun ix => (ix.get? (Sample.onLogFrame.key "writer" "log")).map (·.rules.toList)) =
      some (some
        [.av (Sample.onLog "reader" ["read"]), .av (Sample.onLog "writer" ["append"])]) := by
    decide +kernel
  obtain ⟨ix, hix, hentry⟩ := exists_ok_of_map hrules
  obtain ⟨e, he, hrules⟩ := Option.map_eq_some_iff.1 hentry
  have hmem (rule : Rule) : rule ∈ e.rules ↔ rule ∈ e.rules.toList := Std.ExtTreeSet.mem_toList.symm
  rw [hrules] at hmem
  have hforms : (Session.build Sample.separate Sample.united Sample.merger 2).1.toOption.map
      (Sample.forms .av) = some (some []) := by
    decide +kernel
  obtain ⟨s, hs, hforms⟩ := exists_ok_of_map hforms
  obtain ⟨changes, hchanges, hnone⟩ := exists_ok_of_map hforms
  obtain rfl := List.map_eq_nil_iff.1 hnone
  refine ⟨_, make_eq_ofDelta.2 (by decide), rfl, ⟨ix, _, e, Prod.ext hix rfl, he,
    .av (Sample.onLog "reader" ["read"]), by simp [hmem],
    .av (Sample.onLog "writer" ["append"]), by simp [hmem], ?_⟩, ⟨?_, ?_, ?_, ?_⟩, s, hs, hchanges⟩
  · rintro source target ⟨⟨hreader, -⟩, ⟨hwriter, -⟩⟩
    rw [Policy.denotes_typeName (by decide)] at hreader hwriter
    exact absurd (hreader.symm.trans hwriter) (by decide)
  · exact (Sample.allows_onLog rfl (by decide)).2 (by decide)
  · exact fun h => absurd ((Sample.allows_onLog rfl (by decide)).1 h) (by decide)
  · exact fun h => absurd ((Sample.allows_onLog rfl (by decide)).1 h) (by decide)
  · exact (Sample.allows_onLog rfl (by decide)).2 (by decide)

end PolicyDelta
