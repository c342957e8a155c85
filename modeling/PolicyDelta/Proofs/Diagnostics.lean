import PolicyDelta.Proofs.Verdict
import PolicyDelta.Text.Split

/-! What a diagnostic tells about its key. The text of a key names its kind, its types, its class
and its file name, but neither its condition nor its branch. Where names have no blanks the text can
be taken apart again, so keys of one text differ at most in condition and branch
(`RuleKey.text_eq_iff`), and diagnostics of one side tell their keys apart up to these two
(`Session.diagnostics_tell_apart`). -/

namespace PolicyDelta

/-- No type of a policy and no class of its type enforcement rules has a blank in its name. -/
structure Policy.UnbrokenNames (p : Policy) : Prop where
  types : ∀ t ∈ p.types, ' ' ∉ t.toList
  classes : ∀ r ∈ p.teRules, ' ' ∉ r.objectClass.toList

instance (p : Policy) : Decidable p.UnbrokenNames :=
  decidable_of_iff ((∀ t ∈ p.types.toList, ' ' ∉ t.toList) ∧
      ∀ r ∈ p.teRules, ' ' ∉ r.objectClass.toList)
    ⟨fun ⟨ht, hc⟩ => ⟨fun t h => ht t (Std.ExtTreeSet.mem_toList.2 h), hc⟩,
      fun ⟨ht, hc⟩ => ⟨fun t h => ht t (Std.ExtTreeSet.mem_toList.1 h), hc⟩⟩

theorem TeFlavor.name_unbroken (f : TeFlavor) : ' ' ∉ f.name.toList := by
  cases f <;> decide

theorem Side.name_injective {x y : Side} (h : x.name = y.name) : x = y := by
  cases x <;> cases y <;> first | rfl | exact absurd h (by decide)

/-! ## The text of a key -/

namespace RuleKey

/-- The kind, the types and the class of a key are without blanks; its file name may have some. -/
structure Unbroken (k : RuleKey) : Prop where
  kind : ' ' ∉ k.kind.toList
  source : ' ' ∉ k.source.toList
  target : ' ' ∉ k.target.toList
  objectClass : ' ' ∉ k.objectClass.toList

/-- The text of a key without its kind, its types and the colon. -/
def tailChars (k : RuleKey) : List Char := k.objectClass.toList ++ (fileNameText k.name).toList

theorem toList_text (k : RuleKey) : k.text.toList = k.kind.toList ++ ' ' :: (k.source.toList ++
    ' ' :: (k.target.toList ++ ' ' :: ':' :: ' ' :: k.tailChars)) := by
  simp [text, tailChars, toString, String.toList_append]

variable {k k' : RuleKey}

theorem cut_tailChars (h : k.Unbroken) : Text.cut ' ' k.tailChars =
    (k.objectClass.toList, k.name.map fun n => '"' :: (n.toList ++ ['"'])) := by
  unfold tailChars
  cases k.name with
  | none => simpa [fileNameText] using Text.cut_of_not_mem h.objectClass
  | some n =>
    have htext : (fileNameText (some n)).toList = ' ' :: '"' :: (n.toList ++ ['"']) := by
      simp [fileNameText, toString, String.toList_append]
    rw [htext]
    exact Text.cut_append_cons h.objectClass

theorem append_blank_inj {a b c d : List Char} (ha : ' ' ∉ a) (hb : ' ' ∉ b)
    (h : a ++ ' ' :: c = b ++ ' ' :: d) : a = b ∧ c = d := by
  have hcut := congrArg (Text.cut ' ') h
  rw [Text.cut_append_cons ha, Text.cut_append_cons hb] at hcut
  simpa using hcut

/-- The text of a key tells everything but its condition and its branch. -/
theorem text_eq_iff (h : k.Unbroken) (h' : k'.Unbroken) :
    k.text = k'.text ↔ k' = { k with cond := k'.cond, branch := k'.branch } := by
  constructor
  · intro htext
    have hchars := congrArg String.toList htext
    rw [toList_text, toList_text] at hchars
    obtain ⟨hkind, hchars⟩ := append_blank_inj h.kind h'.kind hchars
    obtain ⟨hsource, hchars⟩ := append_blank_inj h.source h'.source hchars
    obtain ⟨htarget, hchars⟩ := append_blank_inj h.target h'.target hchars
    have htail : k.tailChars = k'.tailChars := by simpa using hchars
    have hcut := congrArg (Text.cut ' ') htail
    rw [cut_tailChars h, cut_tailChars h'] at hcut
    obtain ⟨hclass, hname⟩ := Prod.mk.inj hcut
    have hquoted : Function.Injective fun n : String => '"' :: (n.toList ++ ['"']) := by
      intro m n hmn
      simpa [String.toList_inj] using hmn
    have hname : k.name = k'.name := Option.map_injective hquoted hname
    rw [String.toList_inj] at hkind hsource htarget hclass
    cases k
    cases k'
    simp_all
  · intro hkey
    rw [hkey]
    rfl

end RuleKey

/-! ## Diagnostics of a session -/

namespace Equivalence

/-- The type enforcement rules of a side determine more than one default type at a key. -/
def Disputes (eq : Equivalence) (side : Side) (k : RuleKey) (defaults : NameSet) : Prop :=
  eq.Determines side k (some defaults) ∧ 1 < defaults.size

variable {eq : Equivalence} {side : Side} {k : RuleKey} {defaults : NameSet}

/-- A key that type enforcement rules cover is without blanks if the names of the policies are. -/
theorem Covered.unbroken (hnames : ∀ side, (eq.scope side).policy.UnbrokenNames)
    (hrenames : ∀ p ∈ eq.renames.pairs, p.2 ∈ eq.modified.policy.types)
    (h : eq.Covered .te side k) : k.Unbroken := by
  obtain ⟨rule, hrule, source, target, -, hk⟩ := h
  obtain ⟨hsource, htarget, hframe⟩ := keyOf_eq_ok.1 hk
  obtain ⟨r, hr, rfl⟩ := List.mem_map.1 hrule
  have htype {n t : String} (ht : eq.canonicalType side n = .ok t) : ' ' ∉ t.toList := by
    obtain ⟨side', hmem⟩ := exists_type_of_canonicalType hrenames ht
    exact (hnames side').types t hmem
  have hkind : r.flavor.name = k.kind := congrArg Frame.kind hframe
  have hclass : r.objectClass = k.objectClass := congrArg Frame.objectClass hframe
  exact {
    kind := hkind ▸ r.flavor.name_unbroken
    source := htype hsource
    target := htype htarget
    objectClass := hclass ▸ (hnames side).classes r hr }

theorem disputes_of_read {disputed : List (RuleKey × NameSet)}
    (hread : (RuleIndex.read eq .te side).toOption.map (·.disputed) = some disputed)
    (h : (k, defaults) ∈ disputed) : eq.Disputes side k defaults := by
  obtain ⟨ix, hix, rfl⟩ := exists_ok_of_map hread
  exact (RuleIndex.indexes_of_read hix).mem_disputed.1 h

theorem Disputes.covered (h : eq.Disputes side k defaults) : eq.Covered .te side k := by
  cases h.1 with
  | all hcovered => exact hcovered

end Equivalence

namespace Session

variable {base modified : Policy} {d : TypeDelta} {workers : Int} {s : Session}

theorem Built.mem_diagnostics {index : RuleFamily → Side → RuleIndex}
    (h : Built base modified d s index) : ∃ diagnostics, s.diagnostics = .ok diagnostics ∧
      ∀ x, x ∈ diagnostics ↔ ∃ side k defaults,
        (Equivalence.ofDelta base modified d).Disputes side k defaults ∧
          x = side.diagnostic k defaults := by
  have hside (side : Side) (x : DefaultConflict) :
      x ∈ (index .te side).disputed.map (fun p => side.diagnostic p.1 p.2) ↔
        ∃ k defaults, (Equivalence.ofDelta base modified d).Disputes side k defaults ∧
          x = side.diagnostic k defaults := by
    simp only [List.mem_map, Prod.exists, (h.indexes .te side).mem_disputed, Equivalence.Disputes,
      eq_comm (a := x)]
  refine ⟨_, h.diagnostics_eq, fun x => ?_⟩
  rw [List.mem_append, hside, hside]
  constructor
  · rintro (hx | hx)
    · exact ⟨.base, hx⟩
    · exact ⟨.modified, hx⟩
  · rintro ⟨_ | _, hx⟩
    · exact .inl hx
    · exact .inr hx

/-- A session has a diagnostic for each side and key at which more than one default type is
determined. With names without blanks its side and its text tell these up to condition and branch:
two diagnostics share both exactly if their keys differ in nothing else. -/
theorem diagnostics_tell_apart (hbase : base.UnbrokenNames) (hmodified : modified.UnbrokenNames)
    (h : (build base modified d workers).1 = .ok s) :
    ∃ diagnostics, s.diagnostics = .ok diagnostics ∧
      (∀ x, x ∈ diagnostics ↔ ∃ side k defaults,
        (Equivalence.ofDelta base modified d).Disputes side k defaults ∧
          x = side.diagnostic k defaults) ∧
      ∀ side k defaults, (Equivalence.ofDelta base modified d).Disputes side k defaults →
        ∀ side' k' defaults', (Equivalence.ofDelta base modified d).Disputes side' k' defaults' →
          ((side.diagnostic k defaults).side = (side'.diagnostic k' defaults').side ∧
              (side.diagnostic k defaults).key = (side'.diagnostic k' defaults').key ↔
            side = side' ∧ k' = { k with cond := k'.cond, branch := k'.branch }) := by
  obtain ⟨index, hbuilt⟩ := exists_built h
  obtain ⟨diagnostics, hdiagnostics, hmem⟩ := hbuilt.mem_diagnostics
  have hnames : ∀ side, ((Equivalence.ofDelta base modified d).scope side).policy.UnbrokenNames
    | .base => hbase
    | .modified => hmodified
  have hrenames : ∀ p ∈ d.renames.pairs, p.2 ∈ modified.types := fun p hp =>
    (Equivalence.types_of_checkRenames hbuilt.renames p hp).2
  refine ⟨diagnostics, hdiagnostics, hmem, ?_⟩
  intro side k defaults hk side' k' defaults' hk'
  refine and_congr ⟨fun hside => Side.name_injective hside, congrArg Side.name⟩ ?_
  exact RuleKey.text_eq_iff (hk.covered.unbroken hnames hrenames)
    (hk'.covered.unbroken hnames hrenames)

end Session

/-! ## Two default types under one condition -/

namespace Sample

/-- The program creates logs and other files, by rules that are each in a way restricted. -/
def doubtful (identity : String) (restrictions : List (TeRule → TeRule)) : Policy where
  identity := some identity
  types := .ofList ["app", "log", "tmp"]
  teRules := restrictions.flatMap fun restrict =>
    [restrict (defaultOfLog "log"), restrict (defaultOfLog "tmp")]

/-- The key of what the program creates beside its log. -/
def keyOfLog (cond : Option String) (branch : Option Bool) (name : Option String) : RuleKey :=
  ⟨"type_transition", "file", "app", "log", cond, branch, name⟩

def bothDefaults : NameSet := .ofList ["log", "tmp"]

/-- The default type is in doubt for files of any name and, apart, for those called `trace`. -/
def named : Policy := doubtful "named" [id, fun r => { r with name := some "trace" }]

/-- The default type is in doubt in both branches of a condition. -/
def branched : Policy :=
  doubtful "branched" [fun r => { r with cond := some "debug" },
    fun r => { r with cond := some "debug", branch := false }]

/-- There are no rules. -/
def silent : Policy := doubtful "silent" []

theorem named_disputes {name : Option String} (hname : name ∈ [none, some "trace"]) :
    (Equivalence.ofDelta named silent {}).Disputes .base (keyOfLog none none name)
      bothDefaults := by
  have hread : (RuleIndex.read (.ofDelta named silent {}) .te .base).toOption.map (·.disputed) =
      some ([none, some "trace"].map fun name => (keyOfLog none none name, bothDefaults)) := by
    decide +kernel
  exact Equivalence.disputes_of_read hread (List.mem_map_of_mem hname)

theorem branched_disputes (branch : Bool) : (Equivalence.ofDelta branched silent {}).Disputes .base
    (keyOfLog (some "debug") (some branch) none) bothDefaults := by
  have hread : (RuleIndex.read (.ofDelta branched silent {}) .te .base).toOption.map (·.disputed) =
      some ([false, true].map fun branch =>
        (keyOfLog (some "debug") (some branch) none, bothDefaults)) := by
    decide +kernel
  exact Equivalence.disputes_of_read hread (List.mem_map_of_mem (by cases branch <;> decide))

end Sample

/-- A rule for any file and one for files of a name have diagnostics of their own. -/
theorem Session.diagnostics_tell_apart_sample :
    ∃ s, (build Sample.named Sample.silent {} 2).1 = .ok s ∧
      ∃ diagnostics, s.diagnostics = .ok diagnostics ∧
        (∀ name ∈ [none, some "trace"],
          Side.base.diagnostic (Sample.keyOfLog none none name) Sample.bothDefaults ∈
            diagnostics) ∧
        (Side.base.diagnostic (Sample.keyOfLog none none none) Sample.bothDefaults).key ≠
          (Side.base.diagnostic (Sample.keyOfLog none none (some "trace"))
            Sample.bothDefaults).key := by
  have hbuild : (build Sample.named Sample.silent {} 2).1.toOption.map (fun _ => ()) =
      some () := by
    decide +kernel
  obtain ⟨s, hs, -⟩ := exists_ok_of_map hbuild
  obtain ⟨diagnostics, hdiagnostics, hmem, happart⟩ :=
    diagnostics_tell_apart (by decide) (by decide) hs
  refine ⟨s, hs, diagnostics, hdiagnostics, ?_, ?_⟩
  · intro name hname
    exact (hmem _).2 ⟨.base, _, _, Sample.named_disputes hname, rfl⟩
  · intro htext
    have hany : Equivalence.Disputes _ .base (Sample.keyOfLog none none none) _ :=
      Sample.named_disputes (by decide)
    have htrace : Equivalence.Disputes _ .base (Sample.keyOfLog none none (some "trace")) _ :=
      Sample.named_disputes (by decide)
    obtain ⟨-, hkey⟩ := (happart .base _ _ hany .base _ _ htrace).1 ⟨rfl, htext⟩
    exact absurd hkey (by decide)

/-- The two branches of a condition have one diagnostic, twice. -/
theorem Session.branches_share_diagnostic :
    Sample.branched.UnbrokenNames ∧ Sample.silent.UnbrokenNames ∧
      ∃ s, (build Sample.branched Sample.silent {} 1).1 = .ok s ∧
        ∃ k k', k ≠ k' ∧
          (Equivalence.ofDelta Sample.branched Sample.silent {}).Disputes .base k
            Sample.bothDefaults ∧
          (Equivalence.ofDelta Sample.branched Sample.silent {}).Disputes .base k'
            Sample.bothDefaults ∧
          s.diagnostics = .ok [Side.base.diagnostic k Sample.bothDefaults,
            Side.base.diagnostic k' Sample.bothDefaults] ∧
          (Side.base.diagnostic k Sample.bothDefaults).key =
            (Side.base.diagnostic k' Sample.bothDefaults).key := by
  have hbuild : (build Sample.branched Sample.silent {} 1).1.toOption.map
      (fun s => s.diagnostics.toOption) = some (some
        [Side.base.diagnostic (Sample.keyOfLog (some "debug") (some false) none)
            Sample.bothDefaults,
          Side.base.diagnostic (Sample.keyOfLog (some "debug") (some true) none)
            Sample.bothDefaults]) := by
    decide +kernel
  obtain ⟨s, hs, hdiagnostics⟩ := exists_ok_of_map hbuild
  refine ⟨by decide, by decide, s, hs, _, _, ?_, Sample.branched_disputes false,
    Sample.branched_disputes true, ?_, rfl⟩
  · decide
  · cases hs : s.diagnostics with
    | error e => simp [hs, Except.toOption] at hdiagnostics
    | ok diagnostics =>
      rw [hs] at hdiagnostics
      exact congrArg Except.ok (Option.some.inj hdiagnostics)

end PolicyDelta
