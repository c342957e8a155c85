import PolicyDelta.RuleIndex.Build
import PolicyDelta.Proofs.Collecting
import PolicyDelta.Proofs.Outcome

/-! Indexes under joining. An index is regular if it holds exactly what some contributions say;
every index that is built is regular, whatever was remembered before, and rules may be added and
indexes joined. A join holds the contributions of both indexes, and an index depends on the members
of its contributions only. So two indexes may be joined in either order, and an empty index adds
nothing. -/

namespace PolicyDelta

/-- Every value that a computation comes to has a property, whatever was remembered before. -/
def Scan.Ensures (m : Scan α) (P : α → Prop) : Prop :=
  ∀ w a w', m.run.run w = (.ok a, w') → P a

namespace Scan.Ensures

variable {α β : Type} {P : α → Prop} {Q : β → Prop} {m : Scan α}

theorem pure {a : α} (h : P a) : Ensures (pure a) P := by
  intro w b w' hrun
  cases hrun
  exact h

theorem bind {f : α → Scan β} (hm : Ensures m P) (hf : ∀ a, P a → Ensures (f a) Q) :
    Ensures (m >>= f) Q := by
  intro w b w' hrun
  rw [ExceptT.run_bind, StateT.run_bind] at hrun
  cases hm' : m.run.run w with
  | mk r w'' =>
    rw [hm'] at hrun
    cases r with
    | error e => cases hrun
    | ok a => exact hf a (hm w a w'' hm') w'' b w' hrun

theorem trivial (m : Scan α) : Ensures m fun _ => True := by
  intro w a w' _
  exact True.intro

theorem ofExcept {r : Except UnknownIdentifier α} (h : ∀ a, r = .ok a → P a) :
    Ensures (Scan.ofExcept r) P := by
  cases r with
  | ok a => exact pure (h a rfl)
  | error e =>
    intro w a w' hrun
    cases hrun

theorem foldlM {f : α → β → Scan α} {l : List β} {a : α} (ha : P a)
    (hf : ∀ a b, P a → Ensures (f a b) P) : Ensures (l.foldlM f a) P := by
  induction l generalizing a with
  | nil => exact pure ha
  | cons b l ih =>
    rw [List.foldlM_cons]
    exact (hf a b ha).bind fun a ha => ih ha

theorem mapM {f : β → Scan α} {l : List β} (hf : ∀ b, Ensures (f b) P) :
    Ensures (l.mapM f) fun as => ∀ a ∈ as, P a := by
  induction l with
  | nil => exact pure (by simp)
  | cons b l ih =>
    rw [List.mapM_cons]
    refine (hf b).bind fun a ha => ih.bind fun as has => pure ?_
    exact List.forall_mem_cons.2 ⟨ha, has⟩

end Scan.Ensures

/-- An entry is contained in another one of the same key. -/
structure IndexEntry.Within (e f : IndexEntry) : Prop where
  key : e.key = f.key
  rules : ∀ r ∈ e.rules, r ∈ f.rules
  perms : ∀ p ∈ e.perms, p ∈ f.perms
  defaults : ∀ d ∈ e.defaults, d ∈ f.defaults

theorem IndexEntry.within_join_left (e f : IndexEntry) : e.Within (e.join f) where
  key := rfl
  rules r hr := by simp [IndexEntry.join, Std.ExtTreeSet.mem_union_iff, hr]
  perms p hp := by simp [IndexEntry.join, Std.ExtTreeSet.mem_union_iff, hp]
  defaults d hd := by simp [IndexEntry.join, Std.ExtTreeSet.mem_union_iff, hd]

theorem IndexEntry.within_join_right {e f : IndexEntry} (h : e.key = f.key) :
    f.Within (e.join f) where
  key := h.symm
  rules r hr := by simp [IndexEntry.join, Std.ExtTreeSet.mem_union_iff, hr]
  perms p hp := by simp [IndexEntry.join, Std.ExtTreeSet.mem_union_iff, hp]
  defaults d hd := by simp [IndexEntry.join, Std.ExtTreeSet.mem_union_iff, hd]

theorem IndexEntry.within_refl (e : IndexEntry) : e.Within e :=
  ⟨rfl, fun _ => id, fun _ => id, fun _ => id⟩

namespace RuleIndex

/-- An index holds exactly what some contributions and coverages say. -/
def Regular (ix : RuleIndex) : Prop := ∃ cs vs, ix.Collects cs vs

variable {a b ix : RuleIndex} {k : RuleKey} {e : IndexEntry}

theorem regular_empty (family : RuleFamily) (side : Side) :
    ({ family, side } : RuleIndex).Regular :=
  ⟨[], [], collects_empty family side⟩

theorem Regular.insert (h : ix.Regular) (k : RuleKey) (rule : Rule) (default : Option String) :
    (ix.insert k rule default).Regular := by
  obtain ⟨cs, vs, h⟩ := h
  exact ⟨_, _, h.insert k rule default⟩

theorem Regular.cover (h : ix.Regular) (v : Coverage) :
    { ix with coverage := ix.coverage.insert v : RuleIndex }.Regular := by
  obtain ⟨cs, vs, h⟩ := h
  exact ⟨_, _, h.cover v⟩

theorem Regular.join (ha : a.Regular) (hb : b.Regular) : (a.join b).Regular := by
  obtain ⟨cs, vs, ha⟩ := ha
  obtain ⟨ds, ws, hb⟩ := hb
  exact ⟨_, _, ha.join hb⟩

/-- The entry at a key is an entry of this key. -/
theorem Regular.key (h : ix.Regular) (he : ix.get? k = some e) : e.key = k := by
  obtain ⟨cs, vs, h⟩ := h
  exact (h.present k e he).2.key

/-! ## What is built -/

theorem Regular.addPairs (h : ix.Regular) {eq : Equivalence} {rule : Rule}
    {default : Option String} {pairs : List TypePair} {ix' : RuleIndex}
    (hadd : addPairs eq rule default ix pairs = .ok ix') : ix'.Regular := by
  induction pairs generalizing ix with
  | nil =>
    cases hadd
    exact h
  | cons p pairs ih =>
    obtain ⟨ix₁, hinsert, hadd⟩ := bind_eq_ok.1 hadd
    obtain ⟨k, -, hinsert⟩ := bind_eq_ok.1 hinsert
    cases hinsert
    exact ih (h.insert k rule default) hadd

theorem addRule_regular (eq : Equivalence) (h : ix.Regular) (rule : Rule) :
    (addRule eq ix rule).Ensures Regular := by
  refine (Scan.Ensures.trivial _).bind fun _ _ => ?_
  refine (Scan.Ensures.trivial _).bind fun default _ => ?_
  refine (Scan.Ensures.trivial _).bind fun coverage _ => ?_
  refine (Scan.Ensures.trivial _).bind fun pairs _ => ?_
  have hadded : (Scan.ofExcept (addPairs eq rule default
      { ix with coverage := ix.coverage.insert coverage } pairs)).Ensures Regular :=
    .ofExcept fun ix' hadd => (h.cover coverage).addPairs hadd
  split
  · exact (Scan.Ensures.trivial _).bind fun _ _ => hadded
  · exact hadded

theorem Regular.foldl_join {parts : List RuleIndex} (h : ix.Regular)
    (hparts : ∀ a ∈ parts, a.Regular) : (parts.foldl RuleIndex.join ix).Regular := by
  induction parts generalizing ix with
  | nil => exact h
  | cons a parts ih =>
    obtain ⟨ha, hparts⟩ := List.forall_mem_cons.1 hparts
    exact ih (h.join ha) hparts

theorem build_regular (eq : Equivalence) (family : RuleFamily) (side : Side) (workers : Int) :
    (build eq family side workers).Ensures Regular := by
  have hpart (rules : List Rule) : (ofRules eq family side rules).Ensures Regular :=
    .foldlM (regular_empty family side) fun ix rule h => addRule_regular eq h rule
  refine (Scan.Ensures.mapM hpart).bind fun parts hparts => ?_
  refine (Scan.Ensures.trivial _).bind fun _ _ => .pure ?_
  cases parts with
  | nil => exact regular_empty family side
  | cons a parts =>
    obtain ⟨ha, hparts⟩ := List.forall_mem_cons.1 hparts
    exact ha.foldl_join hparts

/-! ## The laws of joining -/

theorem join_comm (ha : a.Regular) (hb : b.Regular) (hfamily : a.family = b.family)
    (hside : a.side = b.side) : a.join b = b.join a := by
  obtain ⟨cs, vs, ha⟩ := ha
  obtain ⟨ds, ws, hb⟩ := hb
  refine (ha.join hb).unique ((hb.join ha).congr ?_ ?_) hfamily hside
  · simp [or_comm]
  · simp [or_comm]

theorem join_empty (ha : a.Regular) (family : RuleFamily) (side : Side) :
    a.join { family, side } = a := by
  obtain ⟨cs, vs, ha⟩ := ha
  refine (ha.join (collects_empty family side)).unique (ha.congr ?_ ?_) rfl rfl
  · simp
  · simp

/-- The keys of a join are those of both indexes. -/
theorem isSome_get?_join (a b : RuleIndex) (k : RuleKey) :
    ((a.join b).get? k).isSome ↔ (a.get? k).isSome ∨ (b.get? k).isSome := by
  rw [get?_join]
  cases a.get? k <;> cases b.get? k <;> simp

theorem within_join_left (b : RuleIndex) (he : a.get? k = some e) :
    ∃ f, (a.join b).get? k = some f ∧ e.Within f := by
  rw [get?_join, he]
  cases b.get? k with
  | none => exact ⟨e, rfl, e.within_refl⟩
  | some f => exact ⟨e.join f, rfl, e.within_join_left f⟩

theorem within_join_right (ha : a.Regular) (hb : b.Regular) (he : b.get? k = some e) :
    ∃ f, (a.join b).get? k = some f ∧ e.Within f := by
  rw [get?_join, he]
  cases hd : a.get? k with
  | none => exact ⟨e, rfl, e.within_refl⟩
  | some d =>
    have hkey : d.key = e.key := (ha.key hd).trans (hb.key he).symm
    exact ⟨d.join e, rfl, IndexEntry.within_join_right hkey⟩

end RuleIndex

end PolicyDelta
