import PolicyDelta.Proofs.Lines

/-! How the line of a change is taken apart. Names that are bare, that is without the characters
which delimit names, end where the next such character stands (`Text.Bare.append_inj`), so the
layout of a line can be followed from left to right: first the sign and the key
(`ChangeHead.line_inj`), and after the body the notes (`ChangeHead.notes_inj`). -/

namespace PolicyDelta

/-! ## Bare names -/

namespace Text

/-- The characters that delimit names in a line. -/
def marks : List Char := [' ', '\x7b', '\x7d', '(', ')', '[', ']', '"', ';', ':']

/-- A name is not empty and has no delimiters in it. -/
def Bare (s : String) : Prop :=
  s ≠ "" ∧ ∀ c ∈ s.toList, c ∉ marks

instance (s : String) : Decidable (Bare s) :=
  decidable_of_iff (s ≠ "" ∧ s.toList.all (fun c => !marks.contains c) = true) (by simp [Bare])

/-- A text begins with a delimiter. -/
def Marked : List Char → Prop
  | [] => False
  | c :: _ => c ∈ marks

variable {s t : String} {a b c d : List Char} {x : Char}

@[simp] theorem marked_cons : Marked (x :: c) ↔ x ∈ marks := Iff.rfl

theorem Marked.append (h : Marked c) : Marked (c ++ d) := by
  cases c with
  | nil => exact h.elim
  | cons x c => exact h

/-- What has no delimiters ends at the first one. -/
theorem append_marked_inj (ha : ∀ x ∈ a, x ∉ marks) (hb : ∀ x ∈ b, x ∉ marks) (hc : Marked c)
    (hd : Marked d) (h : a ++ c = b ++ d) : a = b ∧ c = d := by
  induction a generalizing b with
  | nil =>
    cases b with
    | nil => exact ⟨rfl, h⟩
    | cons y b =>
      obtain rfl : c = y :: (b ++ d) := h
      exact absurd hc (hb y List.mem_cons_self)
  | cons x a ih =>
    cases b with
    | nil =>
      obtain rfl : x :: (a ++ c) = d := h
      exact absurd hd (ha x List.mem_cons_self)
    | cons y b =>
      obtain ⟨rfl, htail⟩ : x = y ∧ a ++ c = b ++ d := List.cons.inj h
      obtain ⟨rfl, hrest⟩ := ih (fun z hz => ha z (List.mem_cons_of_mem _ hz))
        (fun z hz => hb z (List.mem_cons_of_mem _ hz)) htail
      exact ⟨rfl, hrest⟩

theorem Bare.append_inj (hs : Bare s) (ht : Bare t) (hc : Marked c) (hd : Marked d)
    (h : s.toList ++ c = t.toList ++ d) : s = t ∧ c = d := by
  obtain ⟨hst, hrest⟩ := append_marked_inj hs.2 ht.2 hc hd h
  exact ⟨String.toList_inj.1 hst, hrest⟩

/-- A name that a blank follows. -/
theorem Bare.append_blank_inj (hs : Bare s) (ht : Bare t)
    (h : s.toList ++ ' ' :: c = t.toList ++ ' ' :: d) : s = t ∧ c = d := by
  obtain ⟨hst, hrest⟩ := hs.append_inj ht (by simp [marks]) (by simp [marks]) h
  exact ⟨hst, (List.cons.inj hrest).2⟩

/-- A name does not begin with a delimiter. -/
theorem Bare.not_marked (hs : Bare s) (c : List Char) : ¬ Marked (s.toList ++ c) := by
  cases hlist : s.toList with
  | nil => exact absurd (String.toList_eq_nil_iff.1 hlist) hs.1
  | cons x xs =>
    exact hs.2 x (by rw [hlist]; exact List.mem_cons_self)

theorem Bare.append_ne (hs : Bare s) (hx : x ∈ marks) : s.toList ++ c ≠ x :: d := by
  intro h
  exact hs.not_marked c (h ▸ hx)

/-- Texts one after another, each after a blank. -/
def spaced (words : List String) : List Char :=
  words.flatMap fun w => ' ' :: w.toList

theorem toList_intercalate_blank (w : String) (ws : List String) :
    (" ".intercalate (w :: ws)).toList = w.toList ++ spaced ws := by
  induction ws generalizing w with
  | nil => simp [spaced]
  | cons v ws ih =>
    rw [String.intercalate_cons_cons, String.toList_append, String.toList_append, ih]
    simp [spaced]

theorem marked_spaced (ws : List String) (hc : Marked c) : Marked (spaced ws ++ c) := by
  cases ws with
  | nil => exact hc
  | cons w ws => simp [spaced, marks]

/-- Names that blanks separate end before a bracket. -/
theorem spaced_inj {vs ws : List String} (hv : ∀ v ∈ vs, Bare v) (hw : ∀ w ∈ ws, Bare w)
    (h : spaced vs ++ ']' :: c = spaced ws ++ ']' :: d) : vs = ws ∧ c = d := by
  induction vs generalizing ws with
  | nil =>
    cases ws with
    | nil => simpa [spaced] using h
    | cons w ws => simp [spaced] at h
  | cons v vs ih =>
    cases ws with
    | nil => simp [spaced] at h
    | cons w ws =>
      obtain ⟨hv, hvs⟩ := List.forall_mem_cons.1 hv
      obtain ⟨hw, hws⟩ := List.forall_mem_cons.1 hw
      have hend {c : List Char} : Marked (']' :: c) := by simp [marks]
      have hwords : v.toList ++ (spaced vs ++ ']' :: c) = w.toList ++ (spaced ws ++ ']' :: d) := by
        simpa [spaced] using h
      obtain ⟨rfl, htail⟩ := hv.append_inj hw (marked_spaced vs hend) (marked_spaced ws hend) hwords
      obtain ⟨rfl, hrest⟩ := ih hvs hws htail
      exact ⟨rfl, hrest⟩

theorem intercalate_inj {v w : String} {vs ws : List String} (hv : ∀ u ∈ v :: vs, Bare u)
    (hw : ∀ u ∈ w :: ws, Bare u) (h : (" ".intercalate (v :: vs)).toList ++ ']' :: c =
      (" ".intercalate (w :: ws)).toList ++ ']' :: d) : v :: vs = w :: ws ∧ c = d := by
  rw [toList_intercalate_blank, toList_intercalate_blank] at h
  refine spaced_inj hv hw ?_
  simpa [spaced] using h

/-- The names of a block, character by character. -/
def blockChars (names : List String) : List Char :=
  '\x7b' :: ' ' :: (names.flatMap (fun n => n.toList ++ [' ']) ++ ['\x7d'])

theorem namesInOrder_of_ordered {names : List String} (h : Ordered names) :
    namesInOrder names = names := by
  have hle : names.Pairwise fun a b => (compare a b).isLE := h.imp fun hlt => by simp [hlt]
  refine (namesInOrder_perm names).eq_of_pairwise (fun a b _ _ hab hba => ?_)
    (pairwise_namesInOrder names) hle
  exact Std.LawfulEqCmp.eq_of_compare (Std.OrientedCmp.isLE_antisymm hab hba)

theorem toList_namesBlock {names : List String} (h : Ordered names) :
    (namesBlock names).toList = blockChars names := by
  have hwords (n : String) (ns : List String) : n.toList ++ spaced ns ++ [' '] =
      (n :: ns).flatMap fun n => n.toList ++ [' '] := by
    induction ns generalizing n with
    | nil => simp [spaced]
    | cons m ns ih =>
      rw [List.flatMap_cons, ← ih]
      simp [spaced]
  unfold namesBlock blockChars
  rw [namesInOrder_of_ordered h]
  cases names with
  | nil => decide
  | cons n ns =>
    rw [← hwords, String.toList_append, String.toList_append, toList_intercalate_blank]
    simp

/-- A block of names ends at its brace. -/
theorem blockChars_inj {ms ns : List String} (hm : ∀ m ∈ ms, Bare m) (hn : ∀ n ∈ ns, Bare n)
    (h : blockChars ms ++ c = blockChars ns ++ d) : ms = ns ∧ c = d := by
  simp only [blockChars, List.cons_append, List.cons.injEq, true_and, List.append_assoc,
    List.nil_append] at h
  -- No name begins with the closing brace, so neither block ends before the other one.
  induction ms generalizing ns with
  | nil =>
    cases ns with
    | nil => simpa using h
    | cons n ns =>
      simp only [List.flatMap_nil, List.flatMap_cons, List.nil_append, List.append_assoc] at h
      exact absurd h.symm ((hn n List.mem_cons_self).append_ne (by decide))
  | cons m ms ih =>
    cases ns with
    | nil =>
      simp only [List.flatMap_nil, List.flatMap_cons, List.nil_append, List.append_assoc] at h
      exact absurd h ((hm m List.mem_cons_self).append_ne (by decide))
    | cons n ns =>
      obtain ⟨hm, hms⟩ := List.forall_mem_cons.1 hm
      obtain ⟨hn, hns⟩ := List.forall_mem_cons.1 hn
      simp only [List.flatMap_cons, List.append_assoc, List.cons_append, List.nil_append] at h
      obtain ⟨rfl, htail⟩ := hm.append_blank_inj hn h
      obtain ⟨rfl, hrest⟩ := ih hms hns htail
      exact ⟨rfl, hrest⟩

theorem spaced_append (ws vs : List String) : spaced (ws ++ vs) = spaced ws ++ spaced vs :=
  List.flatMap_append

end Text

/-! ## The sign, the key and the notes -/

/-- The names of a key are bare. -/
structure RuleKey.Bare (k : RuleKey) : Prop where
  kind : Text.Bare k.kind
  source : Text.Bare k.source
  target : Text.Bare k.target
  objectClass : Text.Bare k.objectClass
  cond : ∀ c ∈ k.cond, Text.Bare c
  name : ∀ n ∈ k.name, Text.Bare n

namespace ChangeHead

/-- The names of a change are bare, there is a branch exactly beside a condition, and there are
types exactly for a change of types. -/
structure Legible (h : ChangeHead) : Prop where
  key : h.key.Bare
  branch : h.key.branch = none ↔ h.key.cond = none
  types : ∀ t ∈ h.membershipTypes, Text.Bare t
  types_iff : h.membershipTypes ≠ [] ↔ h.form = .addType ∨ h.form = .removeType

variable {h h' : ChangeHead} {body body' : String} {notes notes' : List String}
  {c d : List Char}

theorem toList_line (h : ChangeHead) (body : String) (notes : List String) :
    (h.line body notes).toList = h.form.sigil.toList ++ ' ' :: (h.key.kind.toList ++
      ' ' :: (h.key.source.toList ++ ' ' :: (h.key.target.toList ++ ' ' :: ':' :: ' ' ::
        (h.key.objectClass.toList ++ (body.toList ++
          ';' :: Text.spaced (h.annotations ++ notes)))))) := by
  rw [line, Text.toList_intercalate_blank]
  simp [toString, String.toList_append]

theorem sigil_inj {f g : ChangeForm} (h : f.sigil.toList ++ ' ' :: c = g.sigil.toList ++ ' ' :: d) :
    f.sigil = g.sigil ∧ c = d := by
  have hsign (f : ChangeForm) : Text.Bare f.sigil := by cases f <;> decide
  exact (hsign f).append_blank_inj (hsign g) h

/-- Lines whose bodies begin with a delimiter have the sign, the kind, the types and the class in
common, and what follows. -/
theorem line_inj (hk : h.key.Bare) (hk' : h'.key.Bare) (hb : Text.Marked body.toList)
    (hb' : Text.Marked body'.toList) (hline : h.line body notes = h'.line body' notes') :
    h.form.sigil = h'.form.sigil ∧ h.key.kind = h'.key.kind ∧ h.key.source = h'.key.source ∧
      h.key.target = h'.key.target ∧ h.key.objectClass = h'.key.objectClass ∧
      body.toList ++ ';' :: Text.spaced (h.annotations ++ notes) =
        body'.toList ++ ';' :: Text.spaced (h'.annotations ++ notes') := by
  have hchars := congrArg String.toList hline
  rw [toList_line, toList_line] at hchars
  obtain ⟨hsigil, hchars⟩ := sigil_inj hchars
  obtain ⟨hkind, hchars⟩ := hk.kind.append_blank_inj hk'.kind hchars
  obtain ⟨hsource, hchars⟩ := hk.source.append_blank_inj hk'.source hchars
  obtain ⟨htarget, hchars⟩ := hk.target.append_blank_inj hk'.target hchars
  simp only [List.cons.injEq, true_and] at hchars
  obtain ⟨hclass, hchars⟩ := hk.objectClass.append_inj hk'.objectClass hb.append hb'.append hchars
  exact ⟨hsigil, hkind, hsource, htarget, hclass, hchars⟩

/-- The note on the condition. -/
def condNotes (h : ChangeHead) : List String :=
  match h.key.cond with
  | none => []
  | some c => [s!"[cond {c}: {branchText (h.key.branch == some true)}]"]

/-- The note on the types. -/
def typeNotes (h : ChangeHead) : List String :=
  let types := " ".intercalate h.membershipTypes
  match h.form with
  | .addType => [s!"[+type {types}]"]
  | .removeType => [s!"[-type {types}]"]
  | _ => []

theorem annotations_eq (h : ChangeHead) : h.annotations = h.condNotes ++ h.typeNotes := rfl

/-- The notes on conflicts: there is one or none. -/
def ConflictNotes (notes : List String) : Prop :=
  notes = [] ∨ notes = ["[conflicting defaults]"]

theorem spaced_condNotes {cond : String} (hcond : h.key.cond = some cond) (c : List Char) :
    Text.spaced h.condNotes ++ c = " [cond ".toList ++ (cond.toList ++ ':' :: ' ' ::
      ((branchText (h.key.branch == some true)).toList ++ ']' :: c)) := by
  simp [condNotes, hcond, Text.spaced, toString, String.toList_append]

/-- No note on types or conflicts is taken for one on a condition. -/
theorem ne_condNotes (hnotes : ConflictNotes notes) :
    Text.spaced (h.typeNotes ++ notes) ≠ " [cond ".toList ++ c := by
  obtain ⟨form, key, types⟩ := h
  rcases hnotes with rfl | rfl <;> cases form <;>
    simp [typeNotes, Text.spaced, toString, String.toList_append]

theorem branch_inj {x y : Bool}
    (h : (branchText x).toList ++ ']' :: c = (branchText y).toList ++ ']' :: d) :
    x = y ∧ c = d := by
  cases x <;> cases y <;> simp_all [branchText]

theorem branch_eq {k k' : RuleKey} (hk : k.branch ≠ none) (hk' : k'.branch ≠ none)
    (h : (k.branch == some true) = (k'.branch == some true)) : k.branch = k'.branch := by
  obtain ⟨x, hx⟩ := Option.ne_none_iff_exists'.1 hk
  obtain ⟨y, hy⟩ := Option.ne_none_iff_exists'.1 hk'
  rw [hx, hy] at h ⊢
  cases x <;> cases y <;> first | rfl | exact absurd h (by decide)

/-- The note on the condition tells the condition and the branch. -/
theorem condNotes_inj (hl : h.Legible) (hl' : h'.Legible) (hnotes : ConflictNotes notes)
    (hnotes' : ConflictNotes notes')
    (heq : Text.spaced h.condNotes ++ Text.spaced (h.typeNotes ++ notes) =
      Text.spaced h'.condNotes ++ Text.spaced (h'.typeNotes ++ notes')) :
    h.key.cond = h'.key.cond ∧ h.key.branch = h'.key.branch ∧
      Text.spaced (h.typeNotes ++ notes) = Text.spaced (h'.typeNotes ++ notes') := by
  have hnone {h : ChangeHead} (hcond : h.key.cond = none) : Text.spaced h.condNotes = [] := by
    simp [condNotes, hcond, Text.spaced]
  cases hcond : h.key.cond with
  | none =>
    rw [hnone hcond] at heq
    cases hcond' : h'.key.cond with
    | none =>
      rw [hnone hcond'] at heq
      exact ⟨rfl, (hl.branch.2 hcond).trans (hl'.branch.2 hcond').symm, heq⟩
    | some cond' =>
      rw [spaced_condNotes hcond'] at heq
      exact absurd heq (ne_condNotes hnotes)
  | some cond =>
    rw [spaced_condNotes hcond] at heq
    cases hcond' : h'.key.cond with
    | none =>
      rw [hnone hcond'] at heq
      exact absurd heq.symm (ne_condNotes hnotes')
    | some cond' =>
      rw [spaced_condNotes hcond', List.append_cancel_left_eq] at heq
      obtain ⟨rfl, htail⟩ := (hl.key.cond cond hcond).append_inj (hl'.key.cond cond' hcond')
        (by simp [Text.marks]) (by simp [Text.marks]) heq
      obtain ⟨hbranch, hrest⟩ := branch_inj (List.cons.inj (List.cons.inj htail).2).2
      have hsome {h : ChangeHead} (hl : h.Legible) (hcond : h.key.cond = some cond) :
          h.key.branch ≠ none := mt hl.branch.1 (by simp [hcond])
      exact ⟨rfl, branch_eq (hsome hl hcond) (hsome hl' hcond') hbranch, hrest⟩

/-- A change of types has its sign in its note too. -/
theorem spaced_typeNotes (hform : h.form = .addType ∨ h.form = .removeType) (notes : List String) :
    Text.spaced (h.typeNotes ++ notes) = " [".toList ++ (h.form.sigil.toList ++ ("type ".toList ++
      ((" ".intercalate h.membershipTypes).toList ++ ']' :: Text.spaced notes))) := by
  rcases hform with hform | hform <;>
    simp [typeNotes, hform, Text.spaced, ChangeForm.sigil, toString, String.toList_append]

theorem typeNotes_eq_nil (hform : ¬(h.form = .addType ∨ h.form = .removeType)) :
    h.typeNotes = [] := by
  unfold typeNotes
  cases hf : h.form <;> simp_all

/-- No note on conflicts is taken for one on types. -/
theorem ne_typeNotes (hnotes : ConflictNotes notes) (form : ChangeForm) :
    Text.spaced notes ≠ " [".toList ++ (form.sigil.toList ++ c) := by
  rcases hnotes with rfl | rfl <;> cases form <;> simp [Text.spaced, ChangeForm.sigil]

/-- The sign tells the form, up to whether it is a change of types. -/
theorem form_eq {f g : ChangeForm} (hsigil : f.sigil = g.sigil)
    (htypes : f = .addType ∨ f = .removeType ↔ g = .addType ∨ g = .removeType) : f = g := by
  cases f <;> cases g <;> simp_all [ChangeForm.sigil]

/-- The note on the types tells the types, and with the sign the form. -/
theorem typeNotes_inj (hl : h.Legible) (hl' : h'.Legible) (hsigil : h.form.sigil = h'.form.sigil)
    (hnotes : ConflictNotes notes) (hnotes' : ConflictNotes notes')
    (heq : Text.spaced (h.typeNotes ++ notes) = Text.spaced (h'.typeNotes ++ notes')) :
    h.form = h'.form ∧ h.membershipTypes = h'.membershipTypes := by
  by_cases hform : h.form = .addType ∨ h.form = .removeType
  · rw [spaced_typeNotes hform] at heq
    by_cases hform' : h'.form = .addType ∨ h'.form = .removeType
    · rw [spaced_typeNotes hform', hsigil] at heq
      simp only [List.append_cancel_left_eq] at heq
      obtain ⟨t, ts, hts⟩ := List.exists_cons_of_ne_nil (hl.types_iff.2 hform)
      obtain ⟨t', ts', hts'⟩ := List.exists_cons_of_ne_nil (hl'.types_iff.2 hform')
      rw [hts, hts'] at heq ⊢
      obtain ⟨htypes, -⟩ := Text.intercalate_inj (hts ▸ hl.types) (hts' ▸ hl'.types) heq
      exact ⟨form_eq hsigil (by simp [hform, hform']), htypes⟩
    · rw [typeNotes_eq_nil hform', List.nil_append] at heq
      exact absurd heq.symm (ne_typeNotes hnotes' h.form)
  · rw [typeNotes_eq_nil hform, List.nil_append] at heq
    by_cases hform' : h'.form = .addType ∨ h'.form = .removeType
    · rw [spaced_typeNotes hform'] at heq
      exact absurd heq (ne_typeNotes hnotes h'.form)
    · have hempty {h : ChangeHead} (hl : h.Legible)
          (hform : ¬(h.form = .addType ∨ h.form = .removeType)) : h.membershipTypes = [] :=
        Classical.not_not.1 (mt hl.types_iff.1 hform)
      exact ⟨form_eq hsigil (by simp only [hform, hform']),
        (hempty hl hform).trans (hempty hl' hform').symm⟩

/-- The notes tell the condition, the branch, the types and with the sign the form. -/
theorem notes_inj (hl : h.Legible) (hl' : h'.Legible) (hsigil : h.form.sigil = h'.form.sigil)
    (hnotes : ConflictNotes notes) (hnotes' : ConflictNotes notes')
    (heq : Text.spaced (h.annotations ++ notes) = Text.spaced (h'.annotations ++ notes')) :
    h.key.cond = h'.key.cond ∧ h.key.branch = h'.key.branch ∧ h.form = h'.form ∧
      h.membershipTypes = h'.membershipTypes := by
  rw [annotations_eq, annotations_eq, List.append_assoc, List.append_assoc, Text.spaced_append,
    Text.spaced_append h'.condNotes] at heq
  obtain ⟨hcond, hbranch, heq⟩ := condNotes_inj hl hl' hnotes hnotes' heq
  obtain ⟨hform, htypes⟩ := typeNotes_inj hl hl' hsigil hnotes hnotes' heq
  exact ⟨hcond, hbranch, hform, htypes⟩

/-- Lines whose bodies can be told apart are lines of the same head. The bodies are read where the
sign is known to be the same. -/
theorem Legible.eq_of_line {same : Prop} (hl : h.Legible) (hl' : h'.Legible)
    (hnotes : ConflictNotes notes) (hnotes' : ConflictNotes notes')
    (hb : Text.Marked body.toList) (hb' : Text.Marked body'.toList)
    (hbody : h.form.sigil = h'.form.sigil → ∀ {c d : List Char},
      body.toList ++ ';' :: c = body'.toList ++ ';' :: d →
        (h.key.name = h'.key.name ∧ same) ∧ c = d)
    (hline : h.line body notes = h'.line body' notes') : h = h' ∧ same := by
  obtain ⟨hsigil, hkind, hsource, htarget, hclass, hrest⟩ := line_inj hl.key hl'.key hb hb' hline
  obtain ⟨⟨hname, hsame⟩, hrest⟩ := hbody hsigil hrest
  obtain ⟨hcond, hbranch, hform, htypes⟩ := notes_inj hl hl' hsigil hnotes hnotes' hrest
  refine ⟨?_, hsame⟩
  obtain ⟨form, ⟨⟩, types⟩ := h
  obtain ⟨form', ⟨⟩, types'⟩ := h'
  simp_all

end ChangeHead

end PolicyDelta
