import PolicyDelta.SortKey
import PolicyDelta.Proofs.Tally

/-! The order of keys. The sort keys of two rule keys always compare, since their places are of the
same kinds, and they compare as the rule keys do (`RuleKey.compare?_sortKey`). This order is
lexicographic (`RuleKey.Precedes`), strict and total, so that keys can be sorted in one way only
(`RuleKey.before_strict_total`). -/

namespace PolicyDelta

/-! ## Comparing sort keys -/

namespace SortKey

theorem comparePlaces?_cons {x y : SortKey} {xs ys : List SortKey} {o p : Ordering}
    (hfirst : x.compare? y = some o) (hrest : comparePlaces? xs ys = some p) :
    comparePlaces? (x :: xs) (y :: ys) = some (o.then p) := by
  rw [comparePlaces?, hfirst]
  cases o with
  | eq => exact hrest
  | lt | gt => rfl

theorem comparePlaces?_singleton {x y : SortKey} {o : Ordering} (h : x.compare? y = some o) :
    comparePlaces? [x] [y] = some o := by
  rw [comparePlaces?_cons h rfl, Ordering.then_eq]

/-- The flags come first, so that a value is compared with another one, or the place of a missing
value with another such place. -/
theorem compare?_rank {α : Type} [Ord α] {key : α → SortKey}
    (h : ∀ a b, (key a).compare? (key b) = some (compare a b)) (o p : Option α) :
    (rank key o).compare? (rank key p) = some (compare o p) := by
  cases o with
  | none => cases p <;> rfl
  | some a =>
    cases p with
    | none => rfl
    | some b =>
      have hthere : (flag true).compare? (flag true) = some .eq := rfl
      exact comparePlaces?_cons hthere (comparePlaces?_singleton (h a b))

end SortKey

theorem RuleKey.compare?_sortKey (k l : RuleKey) :
    k.sortKey.compare? l.sortKey = some (compare k l) := by
  have htext (s t : String) : (SortKey.text s).compare? (.text t) = some (compare s t) := rfl
  have hflag (a b : Bool) : (SortKey.flag a).compare? (.flag b) = some (compare a b) := rfl
  exact SortKey.comparePlaces?_cons (htext ..) <| SortKey.comparePlaces?_cons (htext ..) <|
    SortKey.comparePlaces?_cons (htext ..) <| SortKey.comparePlaces?_cons (htext ..) <|
    SortKey.comparePlaces?_cons (SortKey.compare?_rank htext ..) <|
    SortKey.comparePlaces?_cons (SortKey.compare?_rank hflag ..) <|
    SortKey.comparePlaces?_singleton (SortKey.compare?_rank htext ..)

/-! ## A strict and total order -/

namespace RuleKey

variable {j k l : RuleKey}

theorem before_iff : k.Before l ↔ compare k l = .lt := by
  rw [Before, compare?_sortKey, Option.some_inj]

theorem before_trans (hjk : j.Before k) (hkl : k.Before l) : j.Before l :=
  before_iff.2 (Std.TransCmp.lt_trans (before_iff.1 hjk) (before_iff.1 hkl))

theorem not_before_of_before (h : k.Before l) : ¬l.Before k := fun h' =>
  Std.OrientedCmp.not_lt_of_lt (before_iff.1 h) (before_iff.1 h')

theorem before_or_before (h : k ≠ l) : k.Before l ∨ l.Before k := by
  cases hcompare : compare k l with
  | lt => exact .inl (before_iff.2 hcompare)
  | eq => exact absurd (Std.compare_eq_iff_eq.1 hcompare) h
  | gt => exact .inr (before_iff.2 (Std.OrientedCmp.gt_iff_lt.1 hcompare))

/-- Of two keys one comes before the other, unless they are the same. -/
theorem before_trichotomy (k l : RuleKey) :
    (k.Before l ∧ k ≠ l ∧ ¬l.Before k) ∨ (¬k.Before l ∧ k = l ∧ ¬l.Before k) ∨
      (¬k.Before l ∧ k ≠ l ∧ l.Before k) := by
  by_cases heq : k = l
  · subst heq
    have hself : ¬k.Before k := fun h => not_before_of_before h h
    exact .inr (.inl ⟨hself, rfl, hself⟩)
  · rcases before_or_before heq with h | h
    · exact .inl ⟨h, heq, not_before_of_before h⟩
    · exact .inr (.inr ⟨not_before_of_before h, heq, h⟩)

end RuleKey

/-! ## The first part that differs -/

theorem compare_text_eq_lt {s t : String} : compare s t = .lt ↔ s < t := compareOfLessAndEq_eq_lt

theorem compare_flag_eq_lt {a b : Bool} : compare a b = .lt ↔ a < b := by
  revert a b
  decide

theorem compare_option_eq_lt {α : Type} [Ord α] [LT α]
    (h : ∀ {a b : α}, compare a b = .lt ↔ a < b) {o p : Option α} :
    compare o p = .lt ↔ o < p := by
  rcases o with - | a <;> rcases p with - | b
  · exact iff_of_false nofun Option.not_lt_none
  · exact iff_of_true rfl Option.none_lt_some
  · exact iff_of_false nofun Option.not_lt_none
  · exact h.trans Option.some_lt_some.symm

namespace RuleKey

variable {k l : RuleKey} {ks ls sorted : List RuleKey}

/-- The first part in which the keys differ is smaller. An absent part is smaller than any that is
there, and false is smaller than true. -/
def Precedes (k l : RuleKey) : Prop :=
  k.objectClass < l.objectClass ∨ k.objectClass = l.objectClass ∧
  (k.source < l.source ∨ k.source = l.source ∧
  (k.target < l.target ∨ k.target = l.target ∧
  (k.kind < l.kind ∨ k.kind = l.kind ∧
  (k.cond < l.cond ∨ k.cond = l.cond ∧
  (k.branch < l.branch ∨ k.branch = l.branch ∧ k.name < l.name)))))

theorem before_iff_precedes : k.Before l ↔ k.Precedes l := by
  rw [before_iff]
  change order k l = .lt ↔ _
  simp only [order, compareLex, compareOn, Ordering.then_eq_lt, Std.compare_eq_iff_eq,
    compare_text_eq_lt, compare_option_eq_lt compare_text_eq_lt,
    compare_option_eq_lt compare_flag_eq_lt, Precedes]

/-! ## Sorting -/

/-- A list has the given keys in such an order that none comes before an earlier one. -/
structure Sorts (ks sorted : List RuleKey) : Prop where
  perm : sorted.Perm ks
  ordered : sorted.Pairwise fun k l => ¬l.Before k

theorem Sorts.congr (h : ks.Perm ls) : Sorts ks sorted ↔ Sorts ls sorted :=
  ⟨fun hs => ⟨hs.perm.trans h, hs.ordered⟩, fun hs => ⟨hs.perm.trans h.symm, hs.ordered⟩⟩

/-- Different keys are sorted in one way only. -/
theorem sorts_iff (hks : ks.Nodup) : Sorts ks sorted ↔ sorted = sortByKey id ks := by
  have hnodup : (ks.map id).Nodup := by rwa [List.map_id]
  constructor
  · intro h
    have hordered : sorted.Pairwise fun k l => compare k l = .lt := by
      refine (h.ordered.and (h.perm.nodup_iff.2 hks)).imp fun ⟨hnot, hne⟩ => ?_
      exact before_iff.1 ((before_or_before hne).resolve_right hnot)
    exact (sortByKey_eq hnodup hordered fun _ => h.perm.mem_iff.symm).symm
  · rintro rfl
    refine ⟨sortByKey_perm id ks, (sortByKey_ordered hnodup).imp fun hlt => ?_⟩
    exact not_before_of_before (before_iff.2 hlt)

theorem sortByKey_keys {c : Classifier} (hks : ks.Nodup)
    (hmem : ∀ k, k ∈ ks ↔ k ∈ c.base.keys ∨ k ∈ c.modified.keys) :
    sortByKey id ks = c.keys :=
  Classifier.Listing.sorted_keys
    { Classifier.Listing.backwards c with keys := ks, keys_nodup := hks, mem_keys := hmem }

/-- The order of keys by their sort keys is strict and total, and it is lexicographic. So lists of
the same keys are sorted alike, and the keys of a classifier as it has them. -/
theorem before_strict_total :
    (∀ k l : RuleKey, (k.sortKey.compare? l.sortKey).isSome) ∧
    (∀ k l : RuleKey, (k.Before l ∧ k ≠ l ∧ ¬l.Before k) ∨ (¬k.Before l ∧ k = l ∧ ¬l.Before k) ∨
      (¬k.Before l ∧ k ≠ l ∧ l.Before k)) ∧
    (∀ j k l : RuleKey, j.Before k → k.Before l → j.Before l) ∧
    (∀ k l : RuleKey, k.Before l ↔ k.Precedes l) ∧
    (∀ ks ls : List RuleKey, ks.Nodup → ls.Nodup → (∀ k, k ∈ ks ↔ k ∈ ls) →
      ∃ once, ∀ sorted, (Sorts ks sorted ↔ sorted = once) ∧ (Sorts ls sorted ↔ sorted = once)) ∧
    ∀ (c : Classifier) (ks : List RuleKey), ks.Nodup →
      (∀ k, k ∈ ks ↔ k ∈ c.base.keys ∨ k ∈ c.modified.keys) →
        ∀ sorted, Sorts ks sorted ↔ sorted = c.keys := by
  refine ⟨fun k l => ?_, before_trichotomy, fun _ _ _ => before_trans,
    fun _ _ => before_iff_precedes, fun ks ls hks hls hmem => ?_, fun c ks hks hmem sorted => ?_⟩
  · rw [compare?_sortKey]
    rfl
  · have hperm : ls.Perm ks := (List.perm_ext_iff_of_nodup hls hks).2 fun k => (hmem k).symm
    exact ⟨sortByKey id ks, fun _ => ⟨sorts_iff hks, (Sorts.congr hperm).trans (sorts_iff hks)⟩⟩
  · rw [sorts_iff hks, sortByKey_keys hks hmem]

end RuleKey

namespace Sample

/-- The key of the program's rights on its log, under a condition or not. -/
def rightsKey (cond : Option String) (branch : Option Bool) : RuleKey :=
  ⟨"allow", "file", "app", "log", cond, branch, none⟩

def always : RuleKey := rightsKey none none

def whenOff : RuleKey := rightsKey (some "") (some false)

def whenOn : RuleKey := rightsKey (some "") (some true)

def indexAt (side : Side) (keys : List RuleKey) : RuleIndex :=
  keys.foldl (fun ix k => ix.insert k (.av (allowApp "log" ["read"])) none) ⟨.av, side, ∅, ∅⟩

/-- One of the keys is there on both sides, each of the others on one. -/
def matched : Classifier :=
  ⟨indexAt .base [whenOn, always], indexAt .modified [always, whenOff],
    .ofDelta before after delta, delta⟩

end Sample

/-- A key without a condition comes first, also before those under a condition without a name. -/
theorem RuleKey.before_strict_total_sample :
    Sample.always.Before Sample.whenOff ∧ Sample.whenOff.Before Sample.whenOn ∧
    Sample.always.Before Sample.whenOn ∧
    Sorts [Sample.whenOn, Sample.always, Sample.whenOff]
      [Sample.always, Sample.whenOff, Sample.whenOn] ∧
    Sample.matched.keys = [Sample.always, Sample.whenOff, Sample.whenOn] := by
  obtain ⟨-, -, htrans, -, hsort, hkeys⟩ := before_strict_total
  have hoff : Sample.always.Before Sample.whenOff := by decide
  have hon : Sample.whenOff.Before Sample.whenOn := by decide
  have hnodup : [Sample.whenOn, Sample.always, Sample.whenOff].Nodup := by decide
  have hperm : [Sample.whenOn, Sample.always, Sample.whenOff].Perm
      [Sample.always, Sample.whenOff, Sample.whenOn] := by decide
  have hsorts : Sorts [Sample.whenOn, Sample.always, Sample.whenOff]
      [Sample.always, Sample.whenOff, Sample.whenOn] := by
    obtain ⟨once, honce⟩ := hsort _ _ hnodup (hperm.nodup_iff.1 hnodup) fun _ => hperm.mem_iff
    exact (honce _).1.2 ((honce _).2.1 ⟨.refl _, by decide⟩)
  have hmatched (k : RuleKey) : k ∈ [Sample.whenOn, Sample.always, Sample.whenOff] ↔
      k ∈ Sample.matched.base.keys ∨ k ∈ Sample.matched.modified.keys := by
    have hbase : Sample.matched.base.keys = [Sample.always, Sample.whenOn] := by decide +kernel
    have hmodified : Sample.matched.modified.keys = [Sample.always, Sample.whenOff] := by
      decide +kernel
    rw [hbase, hmodified]
    simp only [List.mem_cons, List.not_mem_nil, or_false]
    tauto
  exact ⟨hoff, hon, htrans _ _ _ hoff hon, hsorts,
    ((hkeys _ _ hnodup hmatched _).1 hsorts).symm⟩

end PolicyDelta
