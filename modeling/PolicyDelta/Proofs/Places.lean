import PolicyDelta.RuleIndex.Operation
import PolicyDelta.Proofs.Joining

/-! The places of entries. Storing an index and merging two of them only add entries to a store, so
the content of every other index stays. A merged index takes the place of an entry that one of both
has and a new place where both have one (`Merged`), so its content is the join of theirs. -/

namespace PolicyDelta

namespace IndexStore

variable {st st' st'' : IndexStore} {ix a b : StoredIndex} {k k' : RuleKey} {e f : IndexEntry}

/-- Every entry keeps its place. -/
def Keeps (st st' : IndexStore) : Prop :=
  ∀ (i : Nat) (e : IndexEntry), st.entries[i]? = some e → st'.entries[i]? = some e

/-- Each place of an index has an entry. -/
def Holds (st : IndexStore) (ix : StoredIndex) : Prop :=
  ∀ (k : RuleKey) (i : Nat), ix.places[k]? = some i → ∃ e, st.entries[i]? = some e

theorem Keeps.refl (st : IndexStore) : st.Keeps st :=
  fun _ _ => id

theorem Keeps.trans (h : st.Keeps st') (h' : st'.Keeps st'') : st.Keeps st'' :=
  fun i e he => h' i e (h i e he)

theorem Keeps.holds (h : st.Keeps st') (hix : st.Holds ix) : st'.Holds ix := by
  intro k i hi
  obtain ⟨e, he⟩ := hix k i hi
  exact ⟨e, h i e he⟩

theorem Keeps.size_le (h : st.Keeps st') : st.entries.size ≤ st'.entries.size := by
  refine Nat.le_of_not_lt fun hlt => ?_
  have hlast := h st'.entries.size _ (Array.getElem?_eq_getElem hlt)
  simp at hlast

theorem get?_view (st : IndexStore) (ix : StoredIndex) (k : RuleKey) :
    (st.view ix).get? k = ix.places[k]?.bind fun i => st.entries[i]? := by
  simp [RuleIndex.get?, view, Std.ExtTreeMap.getElem?_filterMap]

/-- The content of an index is settled by its entries. -/
theorem view_eq {x : RuleIndex} (hfamily : ix.family = x.family) (hside : ix.side = x.side)
    (hcoverage : ix.coverage = x.coverage) (hget : ∀ k, (st.view ix).get? k = x.get? k) :
    st.view ix = x := by
  have hentries : (st.view ix).entries = x.entries := Std.ExtTreeMap.ext_getElem? hget
  cases x
  simp_all [view]

theorem Keeps.view (h : st.Keeps st') (hix : st.Holds ix) : st'.view ix = st.view ix := by
  refine view_eq rfl rfl rfl fun k => ?_
  rw [get?_view, get?_view]
  cases hi : ix.places[k]? with
  | none => rfl
  | some i =>
    obtain ⟨e, he⟩ := hix k i hi
    simp [he, h i e he]

/-! ## Work on an index that is not in the store yet -/

/-- What work on such an index leaves as it is. -/
structure Frame (p q : IndexStore × StoredIndex) : Prop where
  entries : p.1.Keeps q.1
  indexes : q.1.indexes = p.1.indexes
  family : q.2.family = p.2.family
  side : q.2.side = p.2.side
  coverage : q.2.coverage = p.2.coverage

variable {p q r : IndexStore × StoredIndex}

theorem Frame.refl (p : IndexStore × StoredIndex) : Frame p p :=
  ⟨.refl _, rfl, rfl, rfl, rfl⟩

theorem Frame.trans (h : Frame p q) (h' : Frame q r) : Frame p r :=
  ⟨h.entries.trans h'.entries, h'.indexes.trans h.indexes, h'.family.trans h.family,
    h'.side.trans h.side, h'.coverage.trans h.coverage⟩

/-- Work at one key after another; each step leaves the places at the other keys. -/
structure Stepwise (step : IndexStore × StoredIndex → RuleKey → α → IndexStore × StoredIndex) :
    Prop where
  frame : ∀ p k x, Frame p (step p k x)
  other : ∀ p k x k', k ≠ k' → (step p k x).2.places[k']? = p.2.places[k']?

section Fold

variable {α : Type} {step : IndexStore × StoredIndex → RuleKey → α → IndexStore × StoredIndex}
  {l : List (RuleKey × α)} {x : α}

theorem Stepwise.frame_list (h : Stepwise step) (p : IndexStore × StoredIndex)
    (l : List (RuleKey × α)) : Frame p (l.foldl (fun p y => step p y.1 y.2) p) := by
  induction l generalizing p with
  | nil => exact .refl p
  | cons y l ih => exact (h.frame p y.1 y.2).trans (ih _)

theorem Stepwise.place_of_not_mem (h : Stepwise step) (p : IndexStore × StoredIndex)
    (hk : ∀ x, (k, x) ∉ l) :
    (l.foldl (fun p y => step p y.1 y.2) p).2.places[k]? = p.2.places[k]? := by
  induction l generalizing p with
  | nil => rfl
  | cons y l ih =>
    rw [List.foldl_cons, ih _ fun x hx => hk x (List.mem_cons_of_mem _ hx)]
    refine h.other p y.1 y.2 k ?_
    rintro rfl
    exact hk y.2 List.mem_cons_self

/-- Only work at other keys comes before and after the turn of a key. -/
theorem Stepwise.exists_turn (h : Stepwise step) (p : IndexStore × StoredIndex)
    (hl : l.Pairwise fun y z => compare y.1 z.1 ≠ .eq) (hx : (k, x) ∈ l) :
    ∃ q, Frame p q ∧ q.2.places[k]? = p.2.places[k]? ∧
      Frame (step q k x) (l.foldl (fun p y => step p y.1 y.2) p) ∧
      (l.foldl (fun p y => step p y.1 y.2) p).2.places[k]? = (step q k x).2.places[k]? := by
  induction l generalizing p with
  | nil => cases hx
  | cons y l ih =>
    obtain ⟨hy, hl⟩ := List.pairwise_cons.1 hl
    rw [List.foldl_cons]
    rcases List.mem_cons.1 hx with rfl | hx
    · refine ⟨p, .refl p, rfl, h.frame_list _ l, h.place_of_not_mem _ fun x hx => ?_⟩
      exact hy (k, x) hx Std.ReflCmp.compare_self
    · obtain ⟨q, hframe, hplace, hafter⟩ := ih (step p y.1 y.2) hl hx
      refine ⟨q, (h.frame p y.1 y.2).trans hframe, hplace.trans ?_, hafter⟩
      refine h.other p y.1 y.2 k ?_
      rintro rfl
      exact hy (y.1, x) hx Std.ReflCmp.compare_self

/-- What work at the keys of a map comes to at one key: it leaves the place of a key that the map
does not have; a key of the map has its turn, with work at other keys before and after. -/
inductive Turn (step : IndexStore × StoredIndex → RuleKey → α → IndexStore × StoredIndex)
    (p q : IndexStore × StoredIndex) (k : RuleKey) : Option α → Prop where
  | never (hplace : q.2.places[k]? = p.2.places[k]?) : Turn step p q k none
  | once {r : IndexStore × StoredIndex} {x : α} (hbefore : Frame p r)
    (hsame : r.2.places[k]? = p.2.places[k]?) (hafter : Frame (step r k x) q)
    (hplace : q.2.places[k]? = (step r k x).2.places[k]?) : Turn step p q k (some x)

theorem Stepwise.turn (h : Stepwise step) (p : IndexStore × StoredIndex)
    (m : Std.ExtTreeMap RuleKey α) (k : RuleKey) :
    Turn step p (m.foldl step p) k m[k]? := by
  rw [Std.ExtTreeMap.foldl_eq_foldl_toList]
  cases hx : m[k]? with
  | none =>
    refine .never (h.place_of_not_mem p fun x hmem => ?_)
    rw [Std.ExtTreeMap.mem_toList_iff_getElem?_eq_some, hx] at hmem
    cases hmem
  | some x =>
    obtain ⟨r, hbefore, hsame, hafter, hplace⟩ := h.exists_turn p
      Std.ExtTreeMap.distinct_keys_toList (Std.ExtTreeMap.mem_toList_iff_getElem?_eq_some.2 hx)
    exact .once hbefore hsame hafter hplace

theorem Stepwise.frame_foldl (h : Stepwise step) (p : IndexStore × StoredIndex)
    (m : Std.ExtTreeMap RuleKey α) : Frame p (m.foldl step p) := by
  rw [Std.ExtTreeMap.foldl_eq_foldl_toList]
  exact h.frame_list p m.toList

end Fold

/-! ## Storing an index -/

theorem keeps_push (st : IndexStore) (e : IndexEntry) :
    st.Keeps { st with entries := st.entries.push e } := by
  intro i f hf
  have hi : i < st.entries.size := (Array.getElem?_eq_some_iff.1 hf).1
  rw [Array.getElem?_push, if_neg (Nat.ne_of_lt hi), hf]

theorem frame_place (p : IndexStore × StoredIndex) (k : RuleKey) (e : IndexEntry) :
    Frame p (place p k e) :=
  ⟨keeps_push p.1 e, rfl, rfl, rfl, rfl⟩

@[simp] theorem places_place_self (p : IndexStore × StoredIndex) (k : RuleKey) (e : IndexEntry) :
    (place p k e).2.places[k]? = some p.1.entries.size := by
  simp [place]

@[simp] theorem entries_place_self (p : IndexStore × StoredIndex) (k : RuleKey) (e : IndexEntry) :
    (place p k e).1.entries[p.1.entries.size]? = some e := by
  simp [place]

theorem places_place_of_ne (p : IndexStore × StoredIndex) (e : IndexEntry) (h : k ≠ k') :
    (place p k e).2.places[k']? = p.2.places[k']? := by
  simp [place, Std.ExtTreeMap.getElem?_insert, h]

theorem stepwise_place : Stepwise place :=
  ⟨frame_place, fun p _ e _ h => places_place_of_ne p e h⟩

/-- A store gets another index; nothing that it has changes. -/
structure Grown (st st' : IndexStore) (ix : StoredIndex) : Prop where
  entries : st.Keeps st'
  indexes : st'.indexes = st.indexes.push ix

/-- An index is stored, with new entries. -/
structure Added (st : IndexStore) (x : RuleIndex) (st' : IndexStore) (ix : StoredIndex) : Prop
    extends st.Grown st' ix where
  fresh : ∀ (k : RuleKey) (i : Nat), ix.places[k]? = some i → st.entries.size ≤ i
  holds : st'.Holds ix
  view : st'.view ix = x

theorem exists_added (st : IndexStore) (x : RuleIndex) :
    (st.add x).2 = st.indexes.size ∧ ∃ ix, Added st x (st.add x).1 ix := by
  let start : StoredIndex := { family := x.family, side := x.side, coverage := x.coverage }
  obtain ⟨q, hq⟩ : ∃ q, q = x.entries.foldl place (st, start) := ⟨_, rfl⟩
  have hadd : st.add x = q.1.push q.2 := by
    rw [hq]
    rfl
  have hframe : Frame (st, start) q := hq ▸ stepwise_place.frame_foldl _ _
  -- A key has a place exactly if it has an entry, and the place is a new one with this entry.
  have hplace (k : RuleKey) : x.get? k = none ∧ q.2.places[k]? = none ∨
      ∃ e i, x.get? k = some e ∧ q.2.places[k]? = some i ∧ st.entries.size ≤ i ∧
        q.1.entries[i]? = some e := by
    have hturn : Turn place (st, start) q k (x.get? k) := hq ▸ stepwise_place.turn _ x.entries k
    cases he : x.get? k with
    | none =>
      rw [he] at hturn
      cases hturn with
      | never hnone => exact .inl ⟨rfl, by simpa [start] using hnone⟩
    | some e =>
      rw [he] at hturn
      cases hturn with
      | @once r _ hbefore _ hafter hi =>
        exact .inr ⟨e, r.1.entries.size, rfl, hi.trans (places_place_self r k e),
          hbefore.entries.size_le, hafter.entries _ _ (entries_place_self r k e)⟩
  refine ⟨by rw [hadd, push, hframe.indexes], q.2, ?_⟩
  rw [hadd]
  refine ⟨⟨hframe.entries, by rw [push, hframe.indexes]⟩, fun k i hi => ?_, fun k i hi => ?_, ?_⟩
  · rcases hplace k with ⟨-, hnone⟩ | ⟨e, j, -, hj, hle, -⟩
    · simp [hnone] at hi
    · obtain rfl : j = i := by simpa [hj] using hi
      exact hle
  · rcases hplace k with ⟨-, hnone⟩ | ⟨e, j, -, hj, -, hentry⟩
    · simp [hnone] at hi
    · obtain rfl : j = i := by simpa [hj] using hi
      exact ⟨e, hentry⟩
  · refine view_eq hframe.family hframe.side hframe.coverage fun k => ?_
    rw [get?_view]
    rcases hplace k with ⟨he, hnone⟩ | ⟨e, j, he, hj, -, hentry⟩
    · simp [he, hnone]
    · simp [he, hj, hentry, push]

/-! ## Merging two indexes -/

/-- The place at a key of a merged index, after those of both indexes. -/
inductive MergedPlace (st st' : IndexStore) : Option Nat → Option Nat → Option Nat → Prop where
  | neither : MergedPlace st st' none none none
  | left (i : Nat) : MergedPlace st st' (some i) none (some i)
  | right (j : Nat) : MergedPlace st st' none (some j) (some j)
  | both {i j n : Nat} {e f : IndexEntry} (hi : st.entries[i]? = some e)
    (hj : st.entries[j]? = some f) (hfresh : st.entries.size ≤ n)
    (hn : st'.entries[n]? = some (e.join f)) : MergedPlace st st' (some i) (some j) (some n)

/-- Two indexes are merged into a new one. -/
structure Merged (st : IndexStore) (a b : StoredIndex) (st' : IndexStore) (ix : StoredIndex) : Prop
    extends st.Grown st' ix where
  family : ix.family = a.family
  side : ix.side = a.side
  coverage : ix.coverage = a.coverage ∪ b.coverage
  places : ∀ k : RuleKey, MergedPlace st st' a.places[k]? b.places[k]? ix.places[k]?

theorem stepwise_mergeEntry : Stepwise mergeEntry where
  frame p k i := by
    unfold mergeEntry
    split
    · exact ⟨.refl _, rfl, rfl, rfl, rfl⟩
    · split
      · exact frame_place p k _
      · exact .refl p
  other p k i k' h := by
    unfold mergeEntry
    split
    · simp [Std.ExtTreeMap.getElem?_insert, h]
    · split
      · exact places_place_of_ne p _ h
      · rfl

theorem exists_merged (ha : st.Holds a) (hb : st.Holds b) (hfamily : a.family = b.family)
    (hside : a.side = b.side) :
    ∃ st' ix, st.merge a b = .ok (st', st.indexes.size) ∧ Merged st a b st' ix := by
  let start : StoredIndex := { a with coverage := a.coverage ∪ b.coverage }
  obtain ⟨q, hq⟩ : ∃ q, q = b.places.foldl mergeEntry (st, start) := ⟨_, rfl⟩
  have hframe : Frame (st, start) q := hq ▸ stepwise_mergeEntry.frame_foldl _ _
  have hmerge : st.merge a b = .ok (q.1.push q.2) := by
    rw [merge, if_pos ⟨hfamily, hside⟩, hq]
  refine ⟨(q.1.push q.2).1, q.2, ?_, ⟨hframe.entries, by rw [push, hframe.indexes]⟩,
    hframe.family, hframe.side, hframe.coverage, fun k => ?_⟩
  · rw [hmerge, push, hframe.indexes]
  have hturn : Turn mergeEntry (st, start) q k b.places[k]? :=
    hq ▸ stepwise_mergeEntry.turn _ b.places k
  cases hj : b.places[k]? with
  | none =>
    rw [hj] at hturn
    cases hturn with
    | never hplace =>
      rw [hplace]
      cases hi : a.places[k]? with
      | none => simpa [start, hi] using MergedPlace.neither
      | some i => simpa [start, hi] using MergedPlace.left i
  | some j =>
    rw [hj] at hturn
    cases hturn with
    | @once r _ hbefore hsame hafter hplace =>
      rw [hplace]
      cases hi : a.places[k]? with
      | none =>
        have hnone : r.2.places[k]? = none := hsame.trans hi
        simpa [mergeEntry, hnone] using MergedPlace.right j
      | some i =>
        obtain ⟨e, he⟩ := ha k i hi
        obtain ⟨f, hf⟩ := hb k j hj
        have hmerged : mergeEntry r k j = place r k (e.join f) := by
          simp [mergeEntry, hsame.trans hi, hbefore.entries i e he, hbefore.entries j f hf]
        rw [hmerged] at hafter ⊢
        rw [places_place_self]
        exact .both he hf hbefore.entries.size_le
          (hafter.entries _ _ (entries_place_self r k (e.join f)))

theorem Merged.holds (h : Merged st a b st' ix) (ha : st.Holds a) (hb : st.Holds b) :
    st'.Holds ix := by
  intro k i hi
  have hplace := h.places k
  rw [hi] at hplace
  generalize hx : a.places[k]? = x at hplace
  generalize hy : b.places[k]? = y at hplace
  cases hplace with
  | left =>
    obtain ⟨e, he⟩ := ha k i hx
    exact ⟨e, h.entries i e he⟩
  | right =>
    obtain ⟨e, he⟩ := hb k i hy
    exact ⟨e, h.entries i e he⟩
  | both _ _ _ hn => exact ⟨_, hn⟩

/-- A merged index holds the join of both indexes. -/
theorem Merged.view (h : Merged st a b st' ix) (ha : st.Holds a) (hb : st.Holds b) :
    st'.view ix = (st.view a).join (st.view b) := by
  refine view_eq h.family h.side h.coverage fun k => ?_
  rw [RuleIndex.get?_join, get?_view, get?_view, get?_view]
  have hplace := h.places k
  generalize hx : a.places[k]? = x at hplace
  generalize hy : b.places[k]? = y at hplace
  generalize ix.places[k]? = z at hplace
  cases hplace with
  | neither => rfl
  | left i =>
    obtain ⟨e, he⟩ := ha k i hx
    simp [he, h.entries i e he]
  | right j =>
    obtain ⟨f, hf⟩ := hb k j hy
    simp [hf, h.entries j f hf]
  | both hi hj _ hn => simp [hi, hj, hn]

end IndexStore

end PolicyDelta
