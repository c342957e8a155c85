import PolicyDelta.Proofs.ContentText
import PolicyDelta.Proofs.Loading
import PolicyDelta.Proofs.Openings

/-! Files that hold a policy in JSON. Two readers look at the bytes of a file: its format is told by
the first bytes, and its policy is what the check of the whole text accepts. They never disagree: a
file that the check accepts is taken for JSON and loaded as the policy that the check makes of it
(`PolicyFile.accepted_loads`). -/

namespace PolicyDelta

/-- A text that is a policy opens with a brace after blanks. -/
theorem Policy.exists_brace {text : String} {p : Policy}
    (h : Check.document Policy.check text = .valid p) :
    ∃ bs rest, text.toList = bs ++ '\x7b' :: rest ∧ ∀ c ∈ bs, Json.isBlank c := by
  obtain ⟨v, hparse, hv⟩ := Check.exists_of_document h
  obtain ⟨ms, rfl, -⟩ := Check.exists_of_fields hv
  exact Json.exists_brace hparse

namespace PolicyFile

variable {b : ByteArray} {p : Policy} {text : String} {c : Char}

/-! ## The first bytes -/

theorem utf8EncodeChar_blank (hc : Json.isBlank c) :
    ∀ x ∈ String.utf8EncodeChar c, Text.isAsciiBlank x.toNat := by
  simp only [Json.isBlank, Bool.or_eq_true, beq_iff_eq] at hc
  rcases hc with ((rfl | rfl) | rfl) | rfl <;> exact List.forall_mem_singleton.2 (by decide)

theorem fromUTF8?_eq_some (h : String.fromUTF8? b = some text) : text.toUTF8 = b := by
  unfold String.fromUTF8? at h
  split at h
  · cases h
    rfl
  · cases h

/-- The bytes of a text that opens with a brace after blanks do so as well. -/
theorem exists_bytes {bs rest : List Char} (htext : text.toList = bs ++ '\x7b' :: rest)
    (hbs : ∀ c ∈ bs, Json.isBlank c) : ∃ lead tail, text.toUTF8.data.toList = lead ++ 0x7b :: tail ∧
      ∀ x ∈ lead, Text.isAsciiBlank x.toNat := by
  have hlead : ∀ x ∈ bs.flatMap String.utf8EncodeChar, Text.isAsciiBlank x.toNat := by
    intro x hx
    obtain ⟨c, hc, hx⟩ := List.mem_flatMap.1 hx
    exact utf8EncodeChar_blank (hbs c hc) x hx
  refine ⟨_, rest.flatMap String.utf8EncodeChar, ?_, hlead⟩
  rw [String.toUTF8_eq_toByteArray, ← @String.ofList_toList text, htext,
    String.toByteArray_ofList, List.utf8Encode, List.toList_data_toByteArray, List.flatMap_append,
    List.flatMap_cons]
  rfl

/-- A file opens with a brace after blanks. -/
def Opens (b : ByteArray) : Prop :=
  ∃ lead tail, b.data.toList = lead ++ 0x7b :: tail ∧ ∀ x ∈ lead, Text.isAsciiBlank x.toNat

theorem Opens.not_prefix (h : Opens b) {x : UInt8} {magic : List UInt8} (hx : x ≠ 0x7b)
    (hblank : Text.isAsciiBlank x.toNat = false) : ¬ (x :: magic) <+: b.data.toList := by
  obtain ⟨lead, tail, hb, hlead⟩ := h
  rw [hb]
  cases lead with
  | nil =>
    rw [List.nil_append, List.cons_prefix_cons]
    exact fun hprefix => hx hprefix.1
  | cons y lead =>
    rw [List.cons_append, List.cons_prefix_cons]
    rintro ⟨rfl, -⟩
    have hy := hlead x List.mem_cons_self
    rw [hblank] at hy
    cases hy

theorem Opens.not_bzip2 (h : Opens b) : ¬ bzip2Magic <+: b.data.toList :=
  h.not_prefix (by decide) (by decide)

theorem Opens.not_binary (h : Opens b) : ¬ binaryMagic <+: b.data.toList :=
  h.not_prefix (by decide) (by decide)

theorem Opens.unpack (h : Opens b) : unpack b = .ok b := by
  rw [PolicyFile.unpack, if_neg]
  exact mt List.isPrefixOf_iff_prefix.1 h.not_bzip2

theorem Opens.detect (h : Opens b) : detect b = .ok .json := by
  have hbinary : ¬ binaryMagic.isPrefixOf b.data.toList :=
    mt List.isPrefixOf_iff_prefix.1 h.not_binary
  obtain ⟨lead, tail, hb, hlead⟩ := h
  have hhead : (withoutLead b.data.toList).head? = some 0x7b := by
    rw [hb, withoutLead, List.dropWhile_append_of_pos hlead]
    rfl
  unfold PolicyFile.detect
  dsimp only
  rw [if_neg hbinary, if_pos hhead]

/-! ## What the check accepts -/

theorem exists_text (h : checkContent Policy.check b = .valid p) :
    ∃ text, text.toUTF8 = b ∧ Check.document Policy.check text = .valid p := by
  unfold checkContent at h
  split at h
  · rename_i text htext
    exact ⟨text, fromUTF8?_eq_some htext, h⟩
  · cases h

theorem checkContent_toUTF8 (text : String) :
    checkContent Policy.check text.toUTF8 = Check.document Policy.check text := by
  rw [checkContent, Policy.fromUTF8?_toUTF8]

theorem opens_of_accepted (h : checkContent Policy.check b = .valid p) : Opens b := by
  obtain ⟨text, rfl, htext⟩ := exists_text h
  obtain ⟨bs, rest, hchars, hbs⟩ := Policy.exists_brace htext
  exact exists_bytes hchars hbs

theorem policy_of_accepted (h : checkContent Policy.check b = .valid p) :
    PolicyFile.policy b = .ok p := by
  have hopens := opens_of_accepted h
  rw [PolicyFile.policy, hopens.unpack]
  change (PolicyFile.detect b >>= _) = _
  rw [hopens.detect]
  change policyOfContent b = _
  rw [policyOfContent, h]
  rfl

/-- Blanks around a policy do not matter to the check. -/
theorem accepted_between_blanks (h : checkContent Policy.check b = .valid p) {lead trail : String}
    (hlead : ∀ c ∈ lead.toList, Json.isBlank c) (htrail : ∀ c ∈ trail.toList, Json.isBlank c) :
    checkContent Policy.check (lead.toUTF8 ++ b ++ trail.toUTF8) = .valid p := by
  obtain ⟨text, rfl, htext⟩ := exists_text h
  have hbytes : lead.toUTF8 ++ text.toUTF8 ++ trail.toUTF8 = (lead ++ text ++ trail).toUTF8 := by
    simp only [String.toUTF8_eq_toByteArray, String.toByteArray_append]
  obtain ⟨v, hparse, hv⟩ := Check.exists_of_document htext
  have hparse' := Json.parseWithin?_between_blanks hlead htrail hparse
  rw [hbytes, checkContent_toUTF8, Check.document, Json.parse?, hparse']
  exact hv

theorem policyIn_of_accepted (h : checkContent Policy.check b = .valid p)
    {d : Directory} {path : String} (hfile : d.read path = .ok b) (reader : Program.Reader) :
    Program.policyIn reader d (.value path) = .ok p := by
  have hopens := opens_of_accepted h
  have hcontent : Program.contentIn d path = .ok b := by
    rw [Program.contentIn, hfile]
    change (PolicyFile.unpack b).mapError _ = _
    rw [hopens.unpack]
    rfl
  rw [Program.policyIn, hcontent]
  change ((PolicyFile.detect b).mapError _ >>= _) = _
  rw [hopens.detect]
  change (policyOfContent b).mapError _ = _
  rw [policyOfContent, h]
  rfl

/-- A file that the check of policies accepts is loaded as the policy that the check makes of it. It
begins neither as a bzip2 stream nor as a compiled policy, and it is taken for JSON; blanks around
it change nothing. -/
theorem accepted_loads (h : checkContent Policy.check b = .valid p) :
    ¬ bzip2Magic <+: b.data.toList ∧ ¬ binaryMagic <+: b.data.toList ∧
    detect b = .ok .json ∧ PolicyFile.policy b = .ok p ∧
    (∀ (reader : Program.Reader) (d : Directory) (path : String), d.read path = .ok b →
      Program.Quiet d (.ok p) (Program.readPolicy (Program.accessWith reader) path)) ∧
    ∀ lead trail : String, (∀ c ∈ lead.toList, Json.isBlank c) →
      (∀ c ∈ trail.toList, Json.isBlank c) →
        detect (lead.toUTF8 ++ b ++ trail.toUTF8) = .ok .json ∧
        PolicyFile.policy (lead.toUTF8 ++ b ++ trail.toUTF8) = .ok p := by
  have hopens := opens_of_accepted h
  refine ⟨hopens.not_bzip2, hopens.not_binary, hopens.detect, policy_of_accepted h, ?_, ?_⟩
  · intro reader d path hfile
    have hquiet := Program.readPolicy_quiet reader d (.value path)
    rw [policyIn_of_accepted h hfile] at hquiet
    exact hquiet
  · intro lead trail hlead htrail
    have h' := accepted_between_blanks h hlead htrail
    exact ⟨(opens_of_accepted h').detect, policy_of_accepted h'⟩

end PolicyFile

namespace Sample

/-- A directory with one file. -/
def policyFile (content : ByteArray) : Directory := ⟨[("policy", content)]⟩

theorem read_policyFile (content : ByteArray) :
    (policyFile content).read "policy" = .ok content := by
  rfl

end Sample

namespace PolicyFile

theorem accepted_loads_sample : ∃ b p, checkContent Policy.check b = .valid p ∧
    (∀ reader : Program.Reader, Program.Quiet (Sample.policyFile b) (.ok p)
      (Program.readPolicy (Program.accessWith reader) "policy")) ∧
    PolicyFile.policy ("\n\t".toUTF8 ++ b ++ " ".toUTF8) = .ok p := by
  have hdocument := Sample.document_render (by decide) (by decide) Sample.check_document
  have haccepted := (checkContent_toUTF8 _).trans hdocument
  obtain ⟨-, -, -, -, hread, hblanks⟩ := accepted_loads haccepted
  exact ⟨_, _, haccepted, fun reader => hread reader _ _ (Sample.read_policyFile _),
    (hblanks "\n\t" " " (List.all_eq_true.1 (by decide)) (List.all_eq_true.1 (by decide))).2⟩

end PolicyFile

end PolicyDelta
