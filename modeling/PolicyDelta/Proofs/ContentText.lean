import PolicyDelta.PolicyFile
import PolicyDelta.Policy.Identity
import PolicyDelta.Proofs.Sets
import PolicyDelta.Proofs.ShortNumbers

/-! The text that a policy without an identity is known by. Put into a file it is read as the same
policy (`Policy.read_contentText`): the check of each part accepts the JSON value of the part, and
the lines of rules that were read are short enough to be read again. So policies share their text
exactly if they share their content. -/

namespace PolicyDelta

/-! ## What a check has accepted -/

namespace Checked

variable {α β : Type} {b : β}

theorem map_eq_valid {x : Checked α} {f : α → β} :
    f <$> x = valid b ↔ ∃ a, x = valid a ∧ f a = b := by
  cases x <;> simp [Functor.map, Checked.map]

theorem seq_eq_valid {f : Checked (α → β)} {x : Checked α} :
    f <*> x = valid b ↔ ∃ g a, f = valid g ∧ x = valid a ∧ g a = b := by
  cases f <;> cases x <;> simp [Seq.seq, both, Checked.map]

theorem inside_eq_valid {x : Checked β} {step : PathStep} :
    x.inside step = valid b ↔ x = valid b := by
  cases x <;> simp [inside]

end Checked

namespace Check

open Checked

variable {α : Type} {ms : List (String × Json)} {name : String} {kind : IssueKind}
  {check : Json → Checked α} {a : α} {v : Json}

theorem exists_of_fields {check : List (String × Json) → Checked α}
    (h : fields kind check v = .valid a) : ∃ ms, v = .object ms ∧ check ms = .valid a := by
  unfold fields at h
  split at h
  · exact ⟨_, rfl, h⟩
  · cases h

theorem exists_of_fieldOr {default : α} (h : fieldOr ms name default check = .valid a) :
    a = default ∨ ∃ m ∈ ms, check m.2 = .valid a := by
  unfold fieldOr at h
  split at h
  · rename_i hv
    obtain ⟨m, hm, rfl⟩ := Json.exists_of_member? hv
    exact .inr ⟨m, hm, inside_eq_valid.1 h⟩
  · cases h
    exact .inl rfl

theorem exists_of_itemsFrom {i : Nat} {vs : List Json} {as : List α}
    (h : itemsFrom check i vs = .valid as) : ∀ a ∈ as, ∃ v ∈ vs, check v = .valid a := by
  induction vs generalizing i as with
  | nil =>
    cases h
    simp
  | cons v vs ih =>
    obtain ⟨_, rest, hcons, hrest, rfl⟩ := seq_eq_valid.1 h
    obtain ⟨first, hfirst, rfl⟩ := map_eq_valid.1 hcons
    intro a ha
    rcases List.mem_cons.1 ha with rfl | ha
    · exact ⟨v, List.mem_cons_self, inside_eq_valid.1 hfirst⟩
    · obtain ⟨w, hw, hcheck⟩ := ih hrest a ha
      exact ⟨w, List.mem_cons_of_mem v hw, hcheck⟩

theorem exists_of_items {as : List α} (h : items kind check v = .valid as) :
    ∃ vs, v = .array vs ∧ ∀ a ∈ as, ∃ v ∈ vs, check v = .valid a := by
  unfold items at h
  split at h
  · exact ⟨_, rfl, exists_of_itemsFrom h⟩
  · cases h

theorem exists_of_nullable {o : Option α} (h : nullable check v = .valid o) :
    ∀ a ∈ o, check v = .valid a := by
  unfold nullable at h
  split at h
  · cases h
    simp
  · obtain ⟨a, ha, rfl⟩ := map_eq_valid.1 h
    rintro _ ⟨⟩
    exact ha

theorem exists_of_document {text : String} (h : document check text = .valid a) :
    ∃ v, Json.parse? text = some v ∧ check v = .valid a := by
  unfold document at h
  split at h
  · rename_i v hv
    exact ⟨v, hv, h⟩
  · cases h

end Check

/-! ## Lines of rules -/

open Json Checked Check

/-- The line of a rule is short enough to be read. -/
def RuleHead.Fits (r : RuleHead) : Prop :=
  ∀ k ∈ r.line, (integerChars k).length ≤ Limits.standard.length

structure Policy.Fits (p : Policy) : Prop where
  avRules : ∀ r ∈ p.avRules, r.toRuleHead.Fits
  teRules : ∀ r ∈ p.teRules, r.toRuleHead.Fits

theorem RuleHead.fits_of_check {ms : List (String × Json)} {r : RuleHead}
    (hms : ∀ m ∈ ms, Short Limits.standard.length m.2) (h : check ms = .valid r) : r.Fits := by
  obtain ⟨_, line, h1, hline, rfl⟩ := seq_eq_valid.1 h
  obtain ⟨_, branch, h2, -, rfl⟩ := seq_eq_valid.1 h1
  obtain ⟨_, cond, h3, -, rfl⟩ := seq_eq_valid.1 h2
  obtain ⟨_, objectClass, h4, -, rfl⟩ := seq_eq_valid.1 h3
  obtain ⟨_, target, h5, -, rfl⟩ := seq_eq_valid.1 h4
  obtain ⟨source, -, rfl⟩ := map_eq_valid.1 h5
  intro k hk
  rcases exists_of_fieldOr hline with rfl | ⟨m, hm, hcheck⟩
  · cases hk
  · exact fits_of_integer (hms m hm) (exists_of_nullable hcheck k hk)

theorem AvRule.fits_of_check {v : Json} {r : AvRule} (hv : Short Limits.standard.length v)
    (h : check v = .valid r) : r.toRuleHead.Fits := by
  obtain ⟨ms, rfl, h⟩ := exists_of_fields h
  obtain ⟨_, perms, h1, -, rfl⟩ := seq_eq_valid.1 h
  obtain ⟨_, flavor, h2, -, rfl⟩ := seq_eq_valid.1 h1
  obtain ⟨head, hhead, rfl⟩ := map_eq_valid.1 h2
  cases hv with
  | object hms => exact RuleHead.fits_of_check hms hhead

theorem TeRule.fits_of_check {v : Json} {r : TeRule} (hv : Short Limits.standard.length v)
    (h : check v = .valid r) : r.toRuleHead.Fits := by
  obtain ⟨ms, rfl, h⟩ := exists_of_fields h
  obtain ⟨_, name, h1, -, rfl⟩ := seq_eq_valid.1 h
  obtain ⟨_, default, h2, -, rfl⟩ := seq_eq_valid.1 h1
  obtain ⟨_, flavor, h3, -, rfl⟩ := seq_eq_valid.1 h2
  obtain ⟨head, hhead, rfl⟩ := map_eq_valid.1 h3
  cases hv with
  | object hms => exact RuleHead.fits_of_check hms hhead

/-- Items of a list that is a field of a short value have what the check of a short item gives. -/
theorem forall_of_fieldOr_items {α : Type} {P : α → Prop} {check : Json → Checked α} {n : Nat}
    (hcheck : ∀ v a, Short n v → check v = .valid a → P a) {ms : List (String × Json)}
    (hms : ∀ m ∈ ms, Short n m.2) {name : String} {kind : IssueKind} {as : List α}
    (h : fieldOr ms name [] (items kind check) = .valid as) : ∀ a ∈ as, P a := by
  rcases exists_of_fieldOr h with rfl | ⟨m, hm, h⟩
  · simp
  · obtain ⟨vs, hvs, h⟩ := exists_of_items h
    have hitems := hms m hm
    rw [hvs] at hitems
    cases hitems with
    | array hitems =>
      intro a ha
      obtain ⟨v, hv, hcheckv⟩ := h a ha
      exact hcheck v a (hitems v hv) hcheckv

theorem Policy.fits_of_check {v : Json} {p : Policy} (hv : Short Limits.standard.length v)
    (h : check v = .valid p) : p.Fits := by
  obtain ⟨ms, rfl, h⟩ := exists_of_fields h
  obtain ⟨_, teRules, h1, hte, rfl⟩ := seq_eq_valid.1 h
  obtain ⟨_, avRules, h2, hav, rfl⟩ := seq_eq_valid.1 h1
  obtain ⟨_, classes, h3, -, rfl⟩ := seq_eq_valid.1 h2
  obtain ⟨_, attributes, h4, -, rfl⟩ := seq_eq_valid.1 h3
  obtain ⟨_, aliases, h5, -, rfl⟩ := seq_eq_valid.1 h4
  obtain ⟨_, types, h6, -, rfl⟩ := seq_eq_valid.1 h5
  obtain ⟨identity, -, rfl⟩ := map_eq_valid.1 h6
  cases hv with
  | object hms =>
    exact ⟨forall_of_fieldOr_items (fun _ _ => AvRule.fits_of_check) hms hav,
      forall_of_fieldOr_items (fun _ _ => TeRule.fits_of_check) hms hte⟩

/-! ## The content is read as it is written -/

namespace Check

@[simp] theorem nullable_ofInt? (o : Option Int) : nullable integer (ofInt? o) = .valid o := by
  cases o <;> rfl

@[simp] theorem bool_bool (b : Bool) : bool (.bool b) = .valid b := rfl

@[simp] theorem nameSet_ofNames (s : NameSet) : nameSet (ofNames s.toList) = .valid s := by
  have hitems := items_map .setType s.toList fun n _ => string_text n
  rw [nameSet, ofNames, hitems, Checked.map_valid, NameSet.ofList_toList]

theorem nameMap_ofMap {α : Type} {check : Json → Checked α} {toJson : α → Json}
    (h : ∀ a, check (toJson a) = .valid a) (m : NameMap α) :
    nameMap check (ofMap toJson m) = .valid m := by
  have hpairs : pairs .valid check (m.toList.map fun p => (p.1, toJson p.2)) = .valid m.toList :=
    pairs_map (fun _ => rfl) h
  simp only [ofMap, nameMap, hpairs, Checked.map_valid, NameMap.ofList_toList]

end Check

theorem AvRule.check_toJson (r : AvRule) : check r.toJson = .valid r := by
  have hflavor : oneOf .literalError AvFlavor.ofName? (.text r.flavor.name) = .valid r.flavor :=
    oneOf_text r.flavor.ofName?_name
  simp [check, toJson, fields, field, fieldOr, Json.member?, RuleHead.check, hflavor]

theorem TeRule.check_toJson (r : TeRule) : check r.toJson = .valid r := by
  have hflavor : oneOf .literalError TeFlavor.ofName? (.text r.flavor.name) = .valid r.flavor :=
    oneOf_text r.flavor.ofName?_name
  simp [check, toJson, fields, field, fieldOr, Json.member?, RuleHead.check, hflavor]

namespace Policy

/-- The content is checked from its value. -/
theorem check_contentJson (p : Policy) :
    check p.contentJson = .valid { p with identity := none } := by
  have hav := items_map .tupleType p.avRules fun r _ => r.check_toJson
  have hte := items_map .tupleType p.teRules fun r _ => r.check_toJson
  have haliases := nameMap_ofMap string_text p.aliases
  have hattributes := nameMap_ofMap nameSet_ofNames p.attributes
  have hclasses := nameMap_ofMap nameSet_ofNames p.classes
  simp [check, contentJson, fields, fieldOr, Json.member?, hav, hte, haliases, hattributes,
    hclasses]

theorem nesting_contentJson (p : Policy) : nesting p.contentJson ≤ 4 := by
  have hline (o : Option Int) : nesting (ofInt? o) = 0 := by cases o <;> rfl
  have hav : nesting (.array (p.avRules.map AvRule.toJson)) ≤ 3 := by
    refine nesting_array (List.forall_mem_map.2 fun r _ => nesting_object ?_)
    simp [nesting, nesting_ofName?, nesting_ofNames, hline]
  have hte : nesting (.array (p.teRules.map TeRule.toJson)) ≤ 3 := by
    refine nesting_array (List.forall_mem_map.2 fun r _ => nesting_object ?_)
    simp [nesting, nesting_ofName?, hline]
  have haliases : nesting (ofMap .text p.aliases) ≤ 3 := by
    refine nesting_object (List.forall_mem_map.2 fun _ _ => ?_)
    simp [nesting]
  have hsets (m : NameMap NameSet) : nesting (ofMap (fun s => ofNames s.toList) m) ≤ 3 := by
    refine nesting_object (List.forall_mem_map.2 fun _ _ => ?_)
    exact nesting_ofNames (by decide) _
  refine nesting_object ?_
  simp [nesting_ofNames, hav, hte, haliases, hsets]

/-- The only numbers of a policy are the lines of its rules. -/
theorem Fits.narrow {p : Policy} (h : p.Fits) : Narrow Limits.standard.length p.contentJson := by
  have hline {r : RuleHead} (hr : r.Fits) : Narrow Limits.standard.length (ofInt? r.line) := by
    cases hk : r.line with
    | none => exact narrow_null
    | some k => exact narrow_integer.2 (hr k hk)
  have hav (r : AvRule) (hr : r ∈ p.avRules) : Narrow Limits.standard.length r.toJson := by
    simp [AvRule.toJson, hline (h.avRules r hr)]
  have hte (r : TeRule) (hr : r ∈ p.teRules) : Narrow Limits.standard.length r.toJson := by
    simp [TeRule.toJson, hline (h.teRules r hr)]
  have hmap {α : Type} {toJson : α → Json} (hvalue : ∀ a, Narrow Limits.standard.length (toJson a))
      (m : NameMap α) : Narrow Limits.standard.length (ofMap toJson m) :=
    narrow_object.2 (List.forall_mem_map.2 fun _ _ => hvalue _)
  have haliases := hmap narrow_text p.aliases
  have hsets := hmap fun s : NameSet => narrow_ofNames s.toList
  simp only [contentJson, narrow_object, List.forall_mem_cons, narrow_array, List.forall_mem_map]
  exact ⟨haliases, hsets _, hav, hsets _, hte, narrow_ofNames _, by simp⟩

theorem document_contentText {p : Policy} (h : p.Fits) :
    Check.document check p.contentText = .valid { p with identity := none } := by
  have hdepth : nesting p.contentJson ≤ Limits.standard.depth :=
    Nat.le_trans p.nesting_contentJson (by decide)
  have hparse : parse? p.contentText = some p.contentJson :=
    parse?_render Layout.canonical_lawful hdepth h.narrow
  rw [Check.document, hparse]
  exact p.check_contentJson

/-! ## Files -/

/-- The file that holds the text of the content begins with a brace. -/
theorem bytes_contentText (p : Policy) :
    ∃ rest, p.contentText.toUTF8.data.toList = 0x7b :: rest := by
  obtain ⟨cs, hcs⟩ : ∃ cs, p.contentText = String.ofList ('\x7b' :: cs) := ⟨_, rfl⟩
  rw [hcs, String.toUTF8_eq_toByteArray, String.toByteArray_ofList, List.utf8Encode,
    List.toList_data_toByteArray, List.flatMap_cons]
  exact ⟨_, rfl⟩

theorem fromUTF8?_toUTF8 (s : String) : String.fromUTF8? s.toUTF8 = some s := by
  unfold String.fromUTF8?
  rw [String.toUTF8_eq_toByteArray, dif_pos s.isValidUTF8]
  rfl

theorem read_contentText {p : Policy} (h : p.Fits) :
    PolicyFile.policy p.contentText.toUTF8 = .ok { p with identity := none } := by
  obtain ⟨rest, hbytes⟩ := p.bytes_contentText
  have hunpack : PolicyFile.unpack p.contentText.toUTF8 = .ok p.contentText.toUTF8 := by
    rw [PolicyFile.unpack, hbytes]
    rfl
  have hdetect : PolicyFile.detect p.contentText.toUTF8 = .ok .json := by
    rw [PolicyFile.detect, hbytes]
    rfl
  have hcontent : PolicyFile.policyOfContent p.contentText.toUTF8 =
      .ok { p with identity := none } := by
    rw [PolicyFile.policyOfContent, PolicyFile.checkContent, fromUTF8?_toUTF8]
    exact congrArg (·.toExcept.mapError PolicyFile.Failure.invalidPolicy) (document_contentText h)
  rw [PolicyFile.policy, hunpack]
  change (PolicyFile.detect p.contentText.toUTF8 >>= _) = _
  rw [hdetect]
  exact hcontent

/-- A policy that was read from JSON: from a text, or from a file that holds one. -/
inductive FromJson (p : Policy) : Prop where
  | text {s : String} (h : Check.document check s = .valid p)
  | file {bytes : ByteArray} (h : PolicyFile.policy bytes = .ok p)

theorem FromJson.exists_text {p : Policy} (h : p.FromJson) :
    ∃ text, Check.document check text = .valid p := by
  cases h with
  | text h => exact ⟨_, h⟩
  | file h =>
    obtain ⟨content, -, h⟩ := bind_eq_ok.1 h
    obtain ⟨format, -, h⟩ := bind_eq_ok.1 h
    cases format with
    | binary => cases h
    | json =>
      dsimp only [PolicyFile.policyOfContent, PolicyFile.checkContent] at h
      split at h
      · rename_i text _
        refine ⟨text, ?_⟩
        cases hdocument : Check.document check text with
        | valid q =>
          rw [hdocument] at h
          cases h
          rfl
        | invalid issues =>
          rw [hdocument] at h
          cases h
      · cases h

theorem FromJson.fits {p : Policy} (h : p.FromJson) : p.Fits := by
  obtain ⟨text, htext⟩ := h.exists_text
  obtain ⟨v, hparse, hv⟩ := exists_of_document htext
  exact fits_of_check (short_of_parseWithin? hparse) hv

/-- Policies have the same content: the same names, which stand for the same, and the same rules. -/
structure SameContent (p q : Policy) : Prop where
  types : ∀ n, n ∈ p.types ↔ n ∈ q.types
  aliases : ∀ n : String, p.aliases[n]? = q.aliases[n]?
  attributes : ∀ n : String, p.attributes[n]? = q.attributes[n]?
  classes : ∀ n : String, p.classes[n]? = q.classes[n]?
  avRules : p.avRules = q.avRules
  teRules : p.teRules = q.teRules

theorem SameContent.refl (p : Policy) : p.SameContent p :=
  ⟨fun _ => .rfl, fun _ => rfl, fun _ => rfl, fun _ => rfl, rfl, rfl⟩

theorem SameContent.contentJson_eq {p q : Policy} (h : p.SameContent q) :
    p.contentJson = q.contentJson := by
  unfold contentJson
  rw [Std.ExtTreeSet.ext_mem h.types, Std.ExtTreeMap.ext_getElem? h.aliases,
    Std.ExtTreeMap.ext_getElem? h.attributes, Std.ExtTreeMap.ext_getElem? h.classes, h.avRules,
    h.teRules]

/-- A policy without an identity is known by the digest of a text which, put into a file, is read as
the policy again. Two such policies have one text exactly if they have the same content. -/
theorem contentText_faithful {p : Policy} (h : p.FromJson) (hid : p.identity = none) :
    p.id = textDigest p.contentText ∧ PolicyFile.policy p.contentText.toUTF8 = .ok p ∧
    ∀ q : Policy, q.FromJson → q.identity = none →
      (p.contentText = q.contentText ↔ p.SameContent q) := by
  have hread {r : Policy} (hr : r.FromJson) (hnone : r.identity = none) :
      PolicyFile.policy r.contentText.toUTF8 = .ok r := by
    have hsame : { r with identity := none } = r := by rw [← hnone]
    rw [read_contentText hr.fits, hsame]
  refine ⟨?_, hread h hid, ?_⟩
  · unfold id
    rw [hid]
  · intro q hq hqid
    constructor
    · intro htext
      have hp := hread h hid
      rw [htext, hread hq hqid] at hp
      obtain rfl := Except.ok.inj hp
      exact .refl q
    · intro hsame
      exact congrArg (render .canonical) hsame.contentJson_eq

end Policy

/-! ## Two documents of one content -/

namespace Sample

/-- A program may read its log. -/
def document : Json := .object [
  ("types", ofNames ["log", "app"]),
  ("aliases", .object [("journal", .text "log")]),
  ("avrules", .array [.object [
    ("flavor", .text "allow"), ("source", .text "app"), ("target", .text "journal"),
    ("class", .text "file"), ("perms", ofNames ["read", "append"]), ("line", .integer 7)]])]

/-- The same in another order, with names and a key that come twice, and with a line in a text. -/
def shuffled : Json := .object [
  ("avrules", .array [.object [
    ("perms", ofNames ["append", "read", "append"]), ("line", .text " 007"),
    ("class", .text "file"), ("target", .text "journal"), ("source", .text "app"),
    ("branch", .integer 1), ("flavor", .text "allow")]]),
  ("aliases", .object [("journal", .text "app"), ("journal", .text "log")]),
  ("types", ofNames ["app", "log", "app"])]

/-- The policy of such a document. -/
def documented (types perms : List String) : Policy where
  types := .ofList types
  aliases := .ofList [("journal", "log")]
  avRules := [
    { source := "app", target := "journal", objectClass := "file", line := some 7, flavor := .allow
      perms := .ofList perms }]

theorem documented_sameContent {types types' perms perms' : List String}
    (htypes : ∀ n, n ∈ types ↔ n ∈ types') (hperms : ∀ n, n ∈ perms ↔ n ∈ perms') :
    (documented types perms).SameContent (documented types' perms') := by
  have hset {names names' : List String} (h : ∀ n, n ∈ names ↔ n ∈ names') :
      (.ofList names : NameSet) = .ofList names' :=
    Std.ExtTreeSet.ext_mem fun n => by simpa [Std.ExtTreeSet.mem_ofList] using h n
  unfold documented
  rw [hset htypes, hset hperms]
  exact .refl _

theorem document_render {v : Json} {p : Policy} (hdepth : nesting v ≤ Limits.standard.depth)
    (hnarrow : Narrow Limits.standard.length v) (h : Policy.check v = .valid p) :
    Check.document Policy.check (render .compact v) = .valid p := by
  rw [Check.document, parse?_render Layout.compact_lawful hdepth hnarrow]
  exact h

theorem check_document :
    Policy.check document = .valid (documented ["log", "app"] ["read", "append"]) := rfl

theorem check_shuffled : Policy.check shuffled =
    .valid (documented ["app", "log", "app"] ["append", "read", "append"]) := rfl

end Sample

theorem Policy.contentText_faithful_sample :
    ∃ p q : Policy, Check.document check (render .compact Sample.document) = .valid p ∧
      Check.document check (render .compact Sample.shuffled) = .valid q ∧
      p.identity = none ∧ q.identity = none ∧ PolicyFile.policy p.contentText.toUTF8 = .ok p ∧
      p.contentText = q.contentText ∧ p.id = q.id := by
  have hp := Sample.document_render (by decide) (by decide) Sample.check_document
  have hq := Sample.document_render (by decide) (by decide) Sample.check_shuffled
  obtain ⟨hid, hread, hiff⟩ := contentText_faithful (.text hp) rfl
  obtain ⟨hid', -, -⟩ := contentText_faithful (.text hq) rfl
  have htext := (hiff _ (.text hq) rfl).2 (Sample.documented_sameContent (by simp [or_comm])
    (by simp [or_comm]))
  refine ⟨_, _, hp, hq, rfl, rfl, hread, htext, ?_⟩
  rw [hid, hid', htext]

end PolicyDelta
