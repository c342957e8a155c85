import Mathlib.Algebra.Group.Nat.Defs
import PolicyDelta.Proofs.Comparison
import PolicyDelta.Proofs.Written
import PolicyDelta.Report.Format

/-! Reports are read back from what is written. The check of each part of a report accepts the JSON
value of the part and gives the part again, whatever its names are (`Report.check_toJson`); the text
of a report is that of this value in either layout, so only the lengths of its numbers decide
whether it is read back (`Report.document_written`). -/

namespace PolicyDelta

/-! ## Parts of a document -/

namespace OrderedMap

variable {κ ν : Type} [DecidableEq κ]

theorem putPair_of_not_mem {k : κ} {v : ν} {ps : List (κ × ν)} (h : k ∉ ps.map Prod.fst) :
    putPair k v ps = ps ++ [(k, v)] := by
  induction ps with
  | nil => rfl
  | cons p ps ih =>
    rw [List.map_cons, List.mem_cons, not_or] at h
    rw [putPair, if_neg (Ne.symm h.1), ih h.2]
    rfl

theorem pairs_foldl_put (m : OrderedMap κ ν) {ps : List (κ × ν)}
    (h : ((m.pairs ++ ps).map Prod.fst).Nodup) :
    (ps.foldl (fun m p => m.put p.1 p.2) m).pairs = m.pairs ++ ps := by
  induction ps generalizing m with
  | nil => rw [List.foldl_nil, List.append_nil]
  | cons p ps ih =>
    have hput : (m.put p.1 p.2).pairs = m.pairs ++ [p] := by
      refine putPair_of_not_mem fun hmem => ?_
      rw [List.map_append, List.nodup_append] at h
      exact h.2.2 _ hmem _ List.mem_cons_self rfl
    rw [List.foldl_cons, ih _ (by rw [hput, List.append_assoc]; exact h), hput, List.append_assoc]
    rfl

/-- Putting the pairs of a map one after another makes the map again. -/
theorem ofList_pairs (m : OrderedMap κ ν) : ofList m.pairs = m := by
  have hpairs := pairs_foldl_put (∅ : OrderedMap κ ν) m.nodup_keys
  cases m
  rw [mk.injEq]
  exact hpairs

theorem mem_of_mem_putPair {k : κ} {v : ν} {ps : List (κ × ν)} {p : κ × ν}
    (h : p ∈ putPair k v ps) : p = (k, v) ∨ p ∈ ps := by
  induction ps with
  | nil => exact .inl (List.mem_singleton.1 h)
  | cons q ps ih =>
    rw [putPair] at h
    split at h
    · exact (List.mem_cons.1 h).imp id (List.mem_cons_of_mem q)
    · rcases List.mem_cons.1 h with rfl | h
      · exact .inr List.mem_cons_self
      · exact (ih h).imp id (List.mem_cons_of_mem q)

theorem mem_of_mem_foldl_put {m : OrderedMap κ ν} {ps : List (κ × ν)} {p : κ × ν}
    (h : p ∈ (ps.foldl (fun m p => m.put p.1 p.2) m).pairs) : p ∈ m.pairs ∨ p ∈ ps := by
  induction ps generalizing m with
  | nil => exact .inl h
  | cons q ps ih =>
    rcases ih h with h | h
    · rcases mem_of_mem_putPair h with rfl | h
      · exact .inr List.mem_cons_self
      · exact .inl h
    · exact .inr (List.mem_cons_of_mem q h)

/-- The pairs of a map that was put together are among those that were put. -/
theorem mem_of_mem_ofList {ps : List (κ × ν)} {p : κ × ν} (h : p ∈ (ofList ps).pairs) : p ∈ ps :=
  (mem_of_mem_foldl_put h).resolve_left List.not_mem_nil

end OrderedMap

namespace Check

open Json (ofName? ofNames)

variable {α κ ν : Type} {check : Json → Checked α} {toJson : α → Json} {as : List α}

theorem itemsFrom_map (h : ∀ a ∈ as, check (toJson a) = .valid a) (i : Nat) :
    itemsFrom check i (as.map toJson) = .valid as := by
  induction as generalizing i with
  | nil => rfl
  | cons a as ih =>
    obtain ⟨ha, has⟩ := List.forall_mem_cons.1 h
    rw [List.map_cons, itemsFrom, ha, ih has]
    rfl

theorem items_map (kind : IssueKind) (as : List α) (h : ∀ a ∈ as, check (toJson a) = .valid a) :
    items kind check (.array (as.map toJson)) = .valid as :=
  itemsFrom_map h 0

@[simp] theorem string_text (s : String) : string (.text s) = .valid s := rfl

@[simp] theorem names_ofNames (l : List String) : names (ofNames l) = .valid l :=
  items_map .tupleType l fun s _ => string_text s

@[simp] theorem nullable_ofName? (o : Option String) : nullable string (ofName? o) = .valid o := by
  cases o <;> rfl

@[simp] theorem nullable_ofBool? (o : Option Bool) : nullable bool (.ofBool? o) = .valid o := by
  cases o <;> rfl

theorem oneOf_text {kind : IssueKind} {value? : String → Option α} {s : String} {a : α}
    (h : value? s = some a) : oneOf kind value? (.text s) = .valid a := by
  simp [oneOf, h]

theorem pairs_map {key : String → Checked κ} {value : Json → Checked ν} {name : κ → String}
    {toJson : ν → Json} {ps : List (κ × ν)} (hkey : ∀ k, key (name k) = .valid k)
    (hvalue : ∀ v, value (toJson v) = .valid v) :
    pairs key value (ps.map fun p => (name p.1, toJson p.2)) = .valid ps := by
  induction ps with
  | nil => rfl
  | cons p ps ih =>
    simp [pairs, hkey, hvalue, ih]

theorem orderedMap_map [DecidableEq κ] {key : String → Checked κ} {value : Json → Checked ν}
    {name : κ → String} {toJson : ν → Json} (m : OrderedMap κ ν)
    (hkey : ∀ k, key (name k) = .valid k) (hvalue : ∀ v, value (toJson v) = .valid v) :
    orderedMap key value (.object (m.pairs.map fun p => (name p.1, toJson p.2))) = .valid m := by
  rw [orderedMap, pairs_map hkey hvalue, Checked.map_valid, m.ofList_pairs]

end Check

theorem ChangeForm.ofName?_name (f : ChangeForm) : ofName? f.name = some f := by
  cases f <;> rfl

/-! ## Reports -/

open Check

theorem RuleKey.check_toJson (k : RuleKey) : check k.toJson = .valid k := by
  simp [check, toJson, fields, field, fieldOr, Json.member?]

theorem DefaultConflict.check_toJson (c : DefaultConflict) : check c.toJson = .valid c := by
  simp [check, toJson, fields, field, Json.member?]

theorem Change.check_toJson (c : Change) : check c.toJson = .valid c := by
  have hform (f : ChangeForm) :
      oneOf .enumError ChangeForm.ofName? (.text f.name) = .valid f :=
    oneOf_text f.ofName?_name
  cases c with
  | av c =>
    simp [check, toJson, fields, field, fieldOr, Json.member?, ChangeHead.members,
      AvChange.checkMembers, ChangeHead.checkMembers, hform, RuleKey.check_toJson]
  | te c =>
    have hconflicts := items_map .tupleType c.conflicts fun x _ => x.check_toJson
    simp [check, toJson, fields, field, fieldOr, Json.member?, ChangeHead.members,
      TeChange.checkMembers, ChangeHead.checkMembers, hform, RuleKey.check_toJson, hconflicts]

theorem FamilyReport.check_toJson (f : FamilyReport) : check f.toJson = .valid f := by
  have hchanges := items_map .listType f.changes fun c _ => c.check_toJson
  have hstats : orderedMap ChangeForm.checkName integer
      (.object (f.stats.pairs.map fun p => (p.1.name, .integer p.2))) = .valid f.stats :=
    orderedMap_map f.stats (fun form => oneOf_text form.ofName?_name) fun _ => rfl
  simp [check, toJson, fields, field, fieldOr, Json.member?, hchanges, hstats,
    oneOf_text f.family.ofName?_name]

/-- A report is checked from its value. -/
theorem Report.check_toJson (r : Report) : check r.toJson = .valid r := by
  have hfamilies := items_map .listType r.families fun f _ => f.check_toJson
  have hdiagnostics := items_map .listType r.diagnostics fun c _ => c.check_toJson
  simp [check, toJson, fields, field, fieldOr, Json.member?, hfamilies, hdiagnostics]

/-! ## Nesting and numbers -/

section

open Json

theorem nesting_ofNames {d : Nat} (hd : 1 ≤ d) (l : List String) : nesting (ofNames l) ≤ d :=
  Nat.le_trans (nesting_array <| List.forall_mem_map.2 fun _ _ => Nat.le_refl 0) hd

theorem nesting_ofName? (o : Option String) : nesting (ofName? o) = 0 := by
  cases o <;> rfl

theorem RuleKey.nesting_toJson {d : Nat} (hd : 1 ≤ d) (k : RuleKey) : nesting k.toJson ≤ d := by
  have hbranch : nesting (.ofBool? k.branch) = 0 := by cases k.branch <;> rfl
  refine Nat.le_trans (nesting_object ?_) hd
  simp [nesting, nesting_ofName?, hbranch]

theorem DefaultConflict.nesting_toJson (c : DefaultConflict) : nesting c.toJson ≤ 2 := by
  refine nesting_object ?_
  simp [nesting, nesting_ofNames]

theorem Change.nesting_toJson (c : Change) : nesting c.toJson ≤ 4 := by
  cases c with
  | av c =>
    refine nesting_object ?_
    simp [ChangeHead.members, nesting, nesting_ofNames, RuleKey.nesting_toJson]
  | te c =>
    have hconflicts : nesting (.array (c.conflicts.map DefaultConflict.toJson)) ≤ 3 :=
      nesting_array <| List.forall_mem_map.2 fun x _ => x.nesting_toJson
    refine nesting_object ?_
    simp [ChangeHead.members, nesting, nesting_ofNames, nesting_ofName?, RuleKey.nesting_toJson,
      hconflicts]

theorem FamilyReport.nesting_toJson (f : FamilyReport) : nesting f.toJson ≤ 6 := by
  have hstats : nesting (.object (f.stats.pairs.map fun p => (p.1.name, .integer p.2))) ≤ 4 + 1 :=
    nesting_object <| List.forall_mem_map.2 fun _ _ => Nat.zero_le 4
  have hchanges : nesting (.array (f.changes.map Change.toJson)) ≤ 5 :=
    nesting_array <| List.forall_mem_map.2 fun c _ => c.nesting_toJson
  refine nesting_object ?_
  simp [nesting, hstats, hchanges]

theorem Report.nesting_toJson (r : Report) : nesting r.toJson ≤ 8 := by
  have hfamilies : nesting (.array (r.families.map FamilyReport.toJson)) ≤ 7 :=
    nesting_array <| List.forall_mem_map.2 fun f _ => f.nesting_toJson
  have hdiagnostics : nesting (.array (r.diagnostics.map DefaultConflict.toJson)) ≤ 6 + 1 :=
    nesting_array <| List.forall_mem_map.2 fun c _ => Nat.le_trans c.nesting_toJson (by decide)
  refine nesting_object ?_
  simp [nesting, hfamilies, hdiagnostics]

variable {n : Nat}

@[simp] theorem narrow_ofNames (l : List String) : Narrow n (ofNames l) := by
  simp [ofNames]

@[simp] theorem narrow_ofName? (o : Option String) : Narrow n (ofName? o) := by
  cases o <;> simp [ofName?]

@[simp] theorem RuleKey.narrow_toJson (k : RuleKey) : Narrow n k.toJson := by
  have hbranch : Narrow n (.ofBool? k.branch) := by cases k.branch <;> simp [ofBool?]
  simp [toJson, hbranch]

@[simp] theorem DefaultConflict.narrow_toJson (c : DefaultConflict) : Narrow n c.toJson := by
  simp [toJson]

@[simp] theorem Change.narrow_toJson (c : Change) : Narrow n c.toJson := by
  cases c <;> simp [toJson, ChangeHead.members]

/-- The only numbers of a report are those of its families. -/
theorem Report.narrow_toJson (r : Report) : Narrow n r.toJson ↔
    ∀ f ∈ r.families, ∀ p ∈ f.stats.pairs, (integerChars p.2).length ≤ n := by
  simp only [toJson, FamilyReport.toJson, narrow_object, narrow_array, narrow_text, narrow_integer,
    List.forall_mem_cons, List.forall_mem_map, Change.narrow_toJson, DefaultConflict.narrow_toJson]
  simp

end

/-! ## Reading reports back -/

namespace Json

theorem length_integerChars (k : Int) : (integerChars k).length =
    (if k < 0 then 1 else 0) + (Nat.toDigits 10 k.natAbs).length := by
  cases k with
  | ofNat k => simp [integerChars]
  | negSucc k =>
    simp [integerChars, Int.negSucc_lt_zero]
    omega

end Json

namespace Report

open Json

/-- The numbers of a report are short enough to be read: as written, with their signs. -/
def Fits (r : Report) : Prop :=
  ∀ f ∈ r.families, ∀ p ∈ f.stats.pairs, (integerChars p.2).length ≤ Limits.standard.length

theorem layout_lawful (style : ReportStyle) : (layout style).Lawful := by
  unfold layout
  split
  · exact Layout.indented_lawful
  · exact Layout.compact_lawful

theorem text_json (r : Report) (full : Bool) (logLevel : Nat) :
    r.text ⟨.json, full, logLevel⟩ =
      .ok (String.ofList (write (layout ⟨.json, full, logLevel⟩) 0 r.toJson ++ ['\n'])) := by
  change Except.ok (textOfLines [render (layout ⟨.json, full, logLevel⟩) r.toJson]) = _
  simp [textOfLines, render, String.join]

/-- A written report is read back if its numbers are short enough, and is no document otherwise. -/
theorem document_written {l : Layout} (hl : l.Lawful) (r : Report) :
    (r.Fits → Check.document check (String.ofList (write l 0 r.toJson ++ ['\n'])) = .valid r) ∧
    (¬r.Fits → Check.document check (String.ofList (write l 0 r.toJson ++ ['\n'])) =
      .fail .jsonInvalid) := by
  have hbreak : ∀ c ∈ ['\n'], isBlank c := List.all_eq_true.1 rfl
  have hdepth : nesting r.toJson ≤ Limits.standard.depth :=
    Nat.le_trans r.nesting_toJson (by decide)
  have hparse := parseWithin?_written .standard hl hdepth hbreak
  unfold Check.document parse?
  rw [hparse]
  constructor
  · intro hfits
    rw [if_pos (r.narrow_toJson.2 hfits)]
    exact r.check_toJson
  · intro hlong
    rw [if_neg (mt r.narrow_toJson.1 hlong)]

/-- The numbers of a family are numbers of changes. -/
theorem stats_ofChanges {family : RuleFamily} {changes : List Change} {p : ChangeForm × Int}
    (h : p ∈ (ofChanges family changes).stats.pairs) :
    ∃ k, p.2 = Int.ofNat k ∧ k ≤ changes.length := by
  obtain ⟨-, hcount⟩ := List.of_mem_zip (OrderedMap.mem_of_mem_ofList h)
  obtain ⟨k, hk, hp⟩ := List.mem_map.1 hcount
  obtain ⟨form, -, rfl⟩ := List.mem_map.1 hk
  exact ⟨_, hp.symm, List.countP_le_length⟩

theorem fits_ofSession {s : Session} {r : Report} (h : ofSession s = .ok r)
    (hlength : ∀ f ∈ r.families, f.changes.length < 10 ^ Limits.standard.length) : r.Fits := by
  obtain ⟨d, -, rfl⟩ := map_eq_ok.1 h
  intro f hf p hp
  have hchanges := hlength f hf
  obtain ⟨family, -, rfl⟩ := List.mem_map.1 hf
  obtain ⟨k, hk, hle⟩ := stats_ofChanges hp
  rw [hk]
  exact (Nat.length_toDigits_le_iff (by decide) (by decide)).2 (Nat.lt_of_le_of_lt hle hchanges)

/-- A report with one number. -/
def single (k : Int) : Report where
  base := "before"
  modified := "after"
  families := [{ family := .av, stats := ⟨[(.added, k)], by simp⟩ }]

theorem fits_single {k : Int} :
    (single k).Fits ↔ (integerChars k).length ≤ Limits.standard.length := by
  simp [Fits, single]

theorem length_toDigits_pow (e : Nat) : (Nat.toDigits 10 (10 ^ e)).length = e + 1 := by
  refine Nat.le_antisymm ?_ (Nat.lt_of_not_le fun hle => ?_)
  · exact (Nat.length_toDigits_le_iff (by decide) e.succ_pos).2
      (Nat.pow_lt_pow_right (by decide) e.lt_succ_self)
  · cases e with
    | zero => exact Nat.toDigits_ne_nil (List.length_eq_zero_iff.1 (Nat.le_zero.1 hle))
    | succ e => exact Nat.lt_irrefl _ ((Nat.length_toDigits_le_iff (by decide) e.succ_pos).1 hle)

/-- The sign counts, so one digit less is left for a negative number. -/
theorem fits_single_pow {e : Nat} : (single (-(10 ^ e : Nat))).Fits ↔ e < 4299 := by
  have hpos : 0 < 10 ^ e := Nat.pow_pos (by decide)
  rw [fits_single, length_integerChars, Int.natAbs_neg, Int.natAbs_natCast, length_toDigits_pow,
    if_pos (by omega)]
  change 1 + (e + 1) ≤ 4300 ↔ e < 4299
  omega

/-- What is written of a report in either layout is read back as the report, if its numbers are
written in no more than the characters that a number may have; otherwise nothing is read. The
numbers in the report of a session are that short unless there are more changes than such numbers
can count. -/
theorem read_back :
    (∀ (r : Report) full logLevel, ∃ text, r.text ⟨.json, full, logLevel⟩ = .ok text ∧
      (r.Fits → Check.document check text = .valid r) ∧
      (¬r.Fits → Check.document check text = .fail .jsonInvalid)) ∧
    ∀ base modified d workers s, (Session.build base modified d workers).1 = .ok s →
      ∃ r, ofSession s = .ok r ∧
        ((∀ f ∈ r.families, f.changes.length < 10 ^ Limits.standard.length) → r.Fits) := by
  refine ⟨fun r full logLevel => ?_, fun base modified d workers s h => ?_⟩
  · exact ⟨_, r.text_json full logLevel, r.document_written (layout_lawful _)⟩
  · rw [Session.build_eq_compared] at h
    obtain ⟨found, -, rfl⟩ := map_eq_ok.1 h
    obtain ⟨r, hr⟩ : ∃ r, ofSession { Session.unbuilt base modified d with result? := some found } =
        .ok r := ⟨_, rfl⟩
    exact ⟨r, hr, fits_ofSession hr⟩

/-- The report of a session is read back, and so is one with a number of the greatest length. -/
theorem read_back_sample :
    (∃ s r text, (Session.build Sample.before Sample.after Sample.delta 2).1 = .ok s ∧
      ofSession s = .ok r ∧ r.text ⟨.json, true, 20⟩ = .ok text ∧
        Check.document check text = .valid r) ∧
    ∃ text, (single (-(10 ^ 4298 : Nat))).text ⟨.json, false, 20⟩ = .ok text ∧
      Check.document check text = .valid (single (-(10 ^ 4298 : Nat))) := by
  constructor
  · obtain ⟨s, hs, hav, hte⟩ := Sample.exists_session
    obtain ⟨r, hr, hfits⟩ := read_back.2 _ _ _ _ s hs
    obtain ⟨text, htext, hread, -⟩ := read_back.1 r true 20
    refine ⟨s, r, text, hs, hr, htext, hread (hfits ?_)⟩
    obtain ⟨d, hd, rfl⟩ := map_eq_ok.1 hr
    have hforms (family : RuleFamily) :
        Sample.forms family s = some ((d.changes family).map (·.form)) := by
      rw [Sample.forms, Session.changes, hd]
      rfl
    have hlength (family : RuleFamily) : (d.changes family).length ≤ 3 := by
      rw [← List.length_map (·.form)]
      cases family with
      | av =>
        rw [Option.some.inj ((hforms .av).symm.trans hav)]
        decide
      | te =>
        rw [Option.some.inj ((hforms .te).symm.trans hte)]
        decide
    intro f hf
    obtain ⟨family, -, rfl⟩ := List.mem_map.1 hf
    have hpow : Limits.standard.length < 10 ^ Limits.standard.length := Nat.lt_pow_self (by decide)
    exact Nat.lt_of_le_of_lt (Nat.le_trans (hlength family) (by decide)) hpow
  · obtain ⟨text, htext, hread, -⟩ := read_back.1 (single (-(10 ^ 4298 : Nat))) false 20
    exact ⟨text, htext, hread (fits_single_pow.2 (by decide))⟩

/-- The sign counts, too: a report with a number of 4300 digits is written but not read back. -/
theorem single_not_read_back :
    (Nat.toDigits 10 (-(10 ^ 4299 : Nat) : Int).natAbs).length = 4300 ∧
    ∀ full logLevel, ∃ text,
      (single (-(10 ^ 4299 : Nat))).text ⟨.json, full, logLevel⟩ = .ok text ∧
        Check.document check text = .fail .jsonInvalid := by
  refine ⟨?_, fun full logLevel => ⟨_, text_json _ full logLevel, ?_⟩⟩
  · rw [Int.natAbs_neg, Int.natAbs_natCast]
    exact length_toDigits_pow 4299
  · exact (document_written (layout_lawful _) _).2 (mt fits_single_pow.1 (by decide))

end Report

end PolicyDelta
