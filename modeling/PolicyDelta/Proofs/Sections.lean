import Mathlib.Data.List.Forall2
import PolicyDelta.Proofs.Runs
import PolicyDelta.Proofs.Tally

/-! The sections of a report in plain text. A report is a title, a section for each family that is
shown and perhaps a section of diagnostics, and its lines can be read back as these sections
(`ReportSection.readAll_lines`). No change is lost and none is added on the way, in whatever order
the families of the report stand (`Report.sections_exact`). -/

namespace PolicyDelta

/-! ## Sections -/

/-- A heading and what is said below it. -/
structure ReportSection where
  heading : String
  body : List String
deriving DecidableEq

/-- The line belongs to a section whose heading stands above it. -/
def isIndented (line : String) : Bool := "    ".toList.isPrefixOf line.toList

/-- A line of a section without its indentation. -/
def withoutIndent (line : String) : String := String.ofList (line.toList.drop 4)

@[simp] theorem isIndented_indented (line : String) : isIndented (indented line) = true := by
  rw [isIndented, indented, String.toList_append, List.isPrefixOf_iff_prefix]
  exact List.prefix_append ..

@[simp] theorem withoutIndent_indented (line : String) : withoutIndent (indented line) = line := by
  rw [withoutIndent, indented, String.toList_append]
  exact String.ofList_toList

namespace ReportSection

/-- The lines of a section: its heading, what is below it, and an empty line. -/
def lines (s : ReportSection) : List String := s.heading :: (s.body.map indented ++ [""])

/-- The sections that lines consist of. Lines that are not indented end a section. -/
def readAll : List String → List ReportSection
  | [] => []
  | heading :: rest =>
    ⟨heading, (rest.takeWhile isIndented).map withoutIndent⟩ ::
      readAll (rest.dropWhile isIndented).tail
termination_by lines => lines.length
decreasing_by
  have := (List.dropWhile_suffix isIndented (l := rest)).length_le
  simp only [List.length_tail, List.length_cons]
  omega

variable {s : ReportSection} {sections : List ReportSection} {line : String}

theorem readAll_append (s : ReportSection) (rest : List String) :
    readAll (s.lines ++ rest) = s :: readAll rest := by
  have hbody : ∀ line ∈ s.body.map indented, isIndented line = true := by
    intro line hline
    obtain ⟨line, -, rfl⟩ := List.mem_map.1 hline
    exact isIndented_indented line
  have hlines : s.lines ++ rest = s.heading :: (s.body.map indented ++ "" :: rest) := by
    rw [lines, List.cons_append, List.append_assoc, List.singleton_append]
  have hempty : isIndented "" = false := rfl
  rw [hlines, readAll, List.takeWhile_append_of_pos hbody, List.dropWhile_append_of_pos hbody,
    List.takeWhile_cons_of_neg (by rw [hempty]; exact Bool.false_ne_true),
    List.dropWhile_cons_of_neg (by rw [hempty]; exact Bool.false_ne_true), List.append_nil,
    List.map_map, List.tail_cons]
  have hread : withoutIndent ∘ indented = id := funext withoutIndent_indented
  rw [hread, List.map_id]

/-- Sections are read back from their lines. -/
theorem readAll_lines (sections : List ReportSection) :
    readAll (sections.flatMap lines) = sections := by
  induction sections with
  | nil => rw [List.flatMap_nil, readAll]
  | cons s sections ih => rw [List.flatMap_cons, readAll_append, ih]

/-- A line that is neither empty nor indented is a heading. -/
theorem mem_lines_iff (hempty : line ≠ "") (hindented : isIndented line = false) :
    line ∈ sections.flatMap lines ↔ line ∈ sections.map (·.heading) := by
  have hbody (s : ReportSection) : line ∉ s.body.map indented ++ [""] := by
    rw [List.mem_append, List.mem_singleton, List.mem_map]
    rintro (⟨text, -, rfl⟩ | rfl)
    · rw [isIndented_indented] at hindented
      cases hindented
    · exact hempty rfl
  simp only [List.mem_flatMap, List.mem_map, lines, List.mem_cons, hbody, or_false,
    eq_comm (a := line)]

end ReportSection

/-! ## The order of the families -/

/-- The families of a report in their order; those of one family keep the order of the report. -/
structure FamilyReport.Arranged (fs arranged : List FamilyReport) : Prop where
  perm : arranged.Perm fs
  ordered : arranged.Pairwise fun f g => f.family = .te → g.family = .te
  stable : ∀ family, arranged.filter (·.family = family) = fs.filter (·.family = family)

namespace FamilyReport

variable {fs arranged : List FamilyReport}

theorem Arranged.filter (h : Arranged fs arranged) (p : FamilyReport → Bool) :
    Arranged (fs.filter p) (arranged.filter p) where
  perm := h.perm.filter p
  ordered := h.ordered.filter p
  stable family := by
    rw [List.filter_comm, h.stable, List.filter_comm]

end FamilyReport

theorem Report.arranged_familiesInOrder (r : Report) :
    FamilyReport.Arranged r.families r.familiesInOrder := by
  have heq : r.familiesInOrder =
      r.families.filter (·.family = .av) ++ r.families.filter (·.family = .te) := by
    rw [familiesInOrder, RuleFamily.all, List.flatMap_cons, List.flatMap_cons, List.flatMap_nil,
      List.append_nil]
  rw [heq]
  refine ⟨?_, ?_, fun family => ?_⟩
  · have hte : r.families.filter (·.family = .te) =
        r.families.filter fun f => !decide (f.family = .av) :=
      List.filter_congr fun f _ => by cases f.family <;> rfl
    rw [hte]
    exact List.filter_append_perm ..
  · refine List.pairwise_append.2 ⟨List.pairwise_filter.2 ?_, List.pairwise_filter.2 ?_, ?_⟩
    · refine List.pairwise_of_forall fun f g hf _ h => ?_
      rw [of_decide_eq_true hf] at h
      cases h
    · exact List.pairwise_of_forall fun f g _ hg _ => of_decide_eq_true hg
    · exact fun f _ g hg _ => of_decide_eq_true (List.mem_filter.1 hg).2
  · rw [List.filter_append, List.filter_filter, List.filter_filter]
    cases family <;> simp +contextual

/-! ## The section of a family -/

/-- The lines of changes: one for each, in the same order. -/
abbrev RenderedAs (changes : List Change) (lines : List String) : Prop :=
  List.Forall₂ (fun c line => c.render = .ok line) changes lines

theorem exists_forall₂ {α β : Type} {R : α → β → Prop} {l : List α} (h : ∀ a ∈ l, ∃ b, R a b) :
    ∃ bs, List.Forall₂ R l bs := by
  induction l with
  | nil => exact ⟨[], .nil⟩
  | cons a l ih =>
    obtain ⟨b, hb⟩ := h a List.mem_cons_self
    obtain ⟨bs, hbs⟩ := ih fun a ha => h a (List.mem_cons_of_mem _ ha)
    exact ⟨b :: bs, .cons hb hbs⟩

namespace FamilyReport

variable {f : FamilyReport} {s : ReportSection} {fs : List FamilyReport}
  {sections : List ReportSection} {full : Bool}

/-- The section says what the family is, and has a line for each change, in the same order. -/
structure ShownBy (f : FamilyReport) (s : ReportSection) : Prop where
  heading : s.heading = s!"{f.family.title} ({f.statsText})"
  entries : RenderedAs f.changes s.body

theorem exists_sections (h : ∀ f ∈ fs, ∀ c ∈ f.changes, ∃ line, c.render = .ok line) :
    ∃ sections, List.Forall₂ ShownBy fs sections := by
  refine exists_forall₂ fun f hf => ?_
  obtain ⟨body, hbody⟩ := exists_forall₂ (h f hf)
  exact ⟨⟨_, body⟩, rfl, hbody⟩

theorem isShown_eq_false_iff : f.isShown full = false ↔ full = false ∧ f.changes = [] := by
  rw [isShown, hasChanges, Bool.or_eq_false_iff, Bool.not_eq_false', List.isEmpty_iff]

theorem lines_of_not_isShown (h : f.isShown full = false) : f.lines full = [] := by
  rw [lines, h, if_neg Bool.false_ne_true]

theorem map_indented {changes : List Change} {body : List String}
    (h : RenderedAs changes body) :
    changes.map (fun c => indented <$> c.render) = (body.map indented).map .ok := by
  induction h with
  | nil => rfl
  | cons hline _ ih =>
    rw [List.map_cons, ih, hline]
    rfl

/-- The lines of a family that is shown are those of its section. -/
theorem ShownBy.lines_eq (h : f.ShownBy s) (hshown : f.isShown full = true) :
    f.lines full = s.lines.map .ok := by
  rw [lines, if_pos hshown, map_indented h.entries, ReportSection.lines, h.heading, List.map_cons,
    List.map_append]
  rfl

theorem lines_of_sections (h : List.Forall₂ ShownBy (fs.filter (·.isShown full)) sections) :
    fs.flatMap (·.lines full) = (sections.flatMap ReportSection.lines).map .ok := by
  induction fs generalizing sections with
  | nil =>
    cases h
    rfl
  | cons f fs ih =>
    cases hshown : f.isShown full with
    | false =>
      rw [List.filter_cons_of_neg (by rw [hshown]; exact Bool.false_ne_true)] at h
      rw [List.flatMap_cons, lines_of_not_isShown hshown, List.nil_append, ih h]
    | true =>
      rw [List.filter_cons_of_pos hshown] at h
      cases h with
      | cons hf h =>
        rw [List.flatMap_cons, hf.lines_eq hshown, ih h, List.flatMap_cons, List.map_append]

/-- The families that are left out have no changes. -/
theorem changes_filter_isShown (full : Bool) (fs : List FamilyReport) :
    (fs.filter (·.isShown full)).flatMap (·.changes) = fs.flatMap (·.changes) := by
  induction fs with
  | nil => rfl
  | cons f fs ih =>
    cases hshown : f.isShown full with
    | false =>
      rw [List.filter_cons_of_neg (by rw [hshown]; exact Bool.false_ne_true), List.flatMap_cons,
        (isShown_eq_false_iff.1 hshown).2, List.nil_append, ih]
    | true => rw [List.filter_cons_of_pos hshown, List.flatMap_cons, List.flatMap_cons, ih]

theorem entries_of_sections (h : List.Forall₂ ShownBy fs sections) :
    RenderedAs (fs.flatMap (·.changes)) (sections.flatMap (·.body)) := by
  induction h with
  | nil => exact .nil
  | cons hf _ ih => exact List.rel_append hf.entries ih

theorem ShownBy.heading_ne (h : f.ShownBy s) : s.heading ≠ "Diagnostics" := by
  intro heq
  have hchars := congrArg String.toList (h.heading.symm.trans heq)
  cases hfamily : f.family <;> simp [hfamily, RuleFamily.title, toString] at hchars

/-! The numbers of a heading -/

/-- The lines of a section that stand for changes of a form. -/
def linesOf (f : FamilyReport) (s : ReportSection) (form : ChangeForm) : List String :=
  ((f.changes.zip s.body).filter (·.1.form = form)).map Prod.snd

/-- The numbers of all forms as they stand in a heading. -/
def numbersText (number : ChangeForm → Nat) : String :=
  ", ".intercalate (ChangeForm.all.map fun form => s!"{form.title} {number form}")

/-- The numbers in the heading are those of the lines below it. -/
structure Counted (f : FamilyReport) (s : ReportSection) : Prop where
  heading : s.heading =
    s!"{f.family.title} ({numbersText fun form => (f.linesOf s form).length})"
  total : (ChangeForm.all.map fun form => (f.linesOf s form).length).sum = s.body.length

theorem ShownBy.length_linesOf (h : f.ShownBy s) (form : ChangeForm) :
    (f.linesOf s form).length = f.changes.countP (·.form = form) := by
  have hfst : (f.changes.zip s.body).map Prod.fst = f.changes :=
    List.map_fst_zip (Nat.le_of_eq h.entries.length_eq)
  rw [linesOf, List.length_map, ← List.countP_eq_length_filter]
  conv => rhs; rw [← hfst, List.countP_map]
  rfl

theorem statsText_ofChanges (family : RuleFamily) (changes : List Change) :
    (Report.ofChanges family changes).statsText =
      numbersText fun form => changes.countP (·.form = form) := by
  rw [statsText, numbersText]
  refine congrArg (", ".intercalate ·) (List.map_congr_left fun form _ => ?_)
  cases form <;> rfl

theorem ShownBy.counted {family : RuleFamily} {changes : List Change}
    (h : (Report.ofChanges family changes).ShownBy s) :
    (Report.ofChanges family changes).Counted s where
  heading := by
    rw [h.heading, statsText_ofChanges]
    simp only [h.length_linesOf]
    rfl
  total := by
    simp only [h.length_linesOf]
    exact (sum_countForms changes).trans h.entries.length_eq

end FamilyReport

/-! ## The sections of a report -/

namespace Report

variable {r : Report} {full : Bool}

/-- All changes in a report have a line. -/
def Renders (r : Report) : Prop :=
  ∀ f ∈ r.families, ∀ c ∈ f.changes, ∃ line, c.render = .ok line

def titleSection (r : Report) : ReportSection :=
  ⟨"SELinux Policy Rule Differences", [s!"original={r.base} modified={r.modified}"]⟩

/-- The section of the diagnostics, if there are any. -/
def diagnosticSections (r : Report) : List ReportSection :=
  if r.diagnostics = [] then [] else [⟨"Diagnostics", r.diagnostics.map (·.text)⟩]

/-- How the lines of a report fall into sections. -/
structure Sectioned (r : Report) (full : Bool) (shown : List FamilyReport)
    (sections : List ReportSection) (lines : List String) : Prop where
  arranged : FamilyReport.Arranged (r.families.filter (·.isShown full)) shown
  left_out : ∀ f ∈ r.families, f ∉ shown ↔ full = false ∧ f.changes = []
  shownBy : List.Forall₂ FamilyReport.ShownBy shown sections
  /-- All families together, those that are left out too, have just these lines. -/
  entries : ∃ all, FamilyReport.Arranged r.families all ∧
    RenderedAs (all.flatMap (·.changes)) (sections.flatMap (·.body))
  lines_eq : lines =
    (r.titleSection :: (sections ++ r.diagnosticSections)).flatMap ReportSection.lines
  readAll : ReportSection.readAll lines = r.titleSection :: (sections ++ r.diagnosticSections)
  diagnostics : "Diagnostics" ∈ lines ↔ r.diagnostics ≠ []

theorem diagnosticLines_eq (r : Report) :
    r.diagnosticLines = r.diagnosticSections.flatMap ReportSection.lines := by
  unfold diagnosticLines diagnosticSections
  split
  · rfl
  · rw [List.flatMap_cons, List.flatMap_nil, List.append_nil, ReportSection.lines, List.map_map]
    rfl

theorem plainLines_eq {sections : List ReportSection}
    (h : List.Forall₂ FamilyReport.ShownBy (r.familiesInOrder.filter (·.isShown full)) sections) :
    r.plainLines full = ((r.titleSection ::
      (sections ++ r.diagnosticSections)).flatMap ReportSection.lines).map .ok := by
  have htitle : r.titleLines = r.titleSection.lines := rfl
  rw [plainLines, htitle, FamilyReport.lines_of_sections h, diagnosticLines_eq, List.flatMap_cons,
    List.flatMap_append, List.map_append, List.map_append, List.append_assoc]

theorem heading_diagnostics_iff {shown : List FamilyReport} {sections : List ReportSection}
    (h : List.Forall₂ FamilyReport.ShownBy shown sections) :
    "Diagnostics" ∈ (r.titleSection :: (sections ++ r.diagnosticSections)).flatMap
      ReportSection.lines ↔ r.diagnostics ≠ [] := by
  have hsections : "Diagnostics" ∉ sections.map (·.heading) := by
    induction h with
    | nil => exact List.not_mem_nil
    | cons hf _ ih => exact fun hmem => (List.mem_cons.1 hmem).elim (hf.heading_ne ·.symm) ih
  have htitle : "Diagnostics" ≠ r.titleSection.heading := by
    change "Diagnostics" ≠ "SELinux Policy Rule Differences"
    decide
  rw [ReportSection.mem_lines_iff (by decide) (by decide), List.map_cons, List.mem_cons,
    List.map_append, List.mem_append, or_iff_right htitle, or_iff_right hsections]
  by_cases hnone : r.diagnostics = [] <;> simp [diagnosticSections, hnone]

theorem Renders.sectioned (h : r.Renders) (full : Bool) : ∃ shown sections lines,
    r.plainLines full = lines.map .ok ∧ r.Sectioned full shown sections lines := by
  have hall := r.arranged_familiesInOrder
  have hshown := hall.filter (·.isShown full)
  have hlines : ∀ f ∈ r.familiesInOrder.filter (·.isShown full), ∀ c ∈ f.changes,
      ∃ line, c.render = .ok line :=
    fun f hf => h f (hall.perm.mem_iff.1 (List.mem_filter.1 hf).1)
  obtain ⟨sections, hsections⟩ := FamilyReport.exists_sections hlines
  refine ⟨_, sections, _, plainLines_eq hsections, hshown, fun f hf => ?_, hsections,
    ⟨_, hall, ?_⟩, rfl, ReportSection.readAll_lines _, heading_diagnostics_iff hsections⟩
  · rw [hshown.perm.mem_iff, List.mem_filter, ← FamilyReport.isShown_eq_false_iff]
    simp [hf]
  · rw [← FamilyReport.changes_filter_isShown full]
    exact FamilyReport.entries_of_sections hsections

/-- The headings in the report of a session give the numbers of the lines below them. -/
theorem counted_of_ofSession {s : Session} (hr : ofSession s = .ok r) {shown : List FamilyReport}
    {sections : List ReportSection} (hmem : ∀ f ∈ shown, f ∈ r.families)
    (h : List.Forall₂ FamilyReport.ShownBy shown sections) :
    List.Forall₂ FamilyReport.Counted shown sections := by
  refine ((List.forall₂_and_left _ _).2 ⟨hmem, h⟩).imp fun f _ ⟨hf, hshown⟩ => ?_
  obtain ⟨found, -, rfl⟩ := map_eq_ok.1 hr
  obtain ⟨family, -, rfl⟩ := List.mem_map.1 hf
  exact hshown.counted

/-- The lines of a report in plain text fall into sections: those of the families that are shown,
in order, with a line for each change, and after them one of the diagnostics, if there are any.
In the report of a session the headings give the numbers of the lines below them; all changes in
it have a line. -/
theorem sections_exact (r : Report) (full : Bool) (level : Nat) :
    (r.Renders → ∃ shown sections lines,
      r.lines ⟨.plain, full, level⟩ = lines.map .ok ∧ r.Sectioned full shown sections lines ∧
      ∀ s, ofSession s = .ok r → List.Forall₂ FamilyReport.Counted shown sections) ∧
    ∀ base modified d workers s, (Session.build base modified d workers).1 = .ok s →
      ofSession s = .ok r → r.Renders := by
  refine ⟨fun h => ?_, fun base modified d workers s hs hr f hf c hc => ?_⟩
  · obtain ⟨shown, sections, lines, hlines, hsectioned⟩ := h.sectioned full
    refine ⟨shown, sections, lines, hlines, hsectioned, fun s hr => ?_⟩
    refine counted_of_ofSession hr (fun f hf => ?_) hsectioned.shownBy
    exact (List.mem_filter.1 (hsectioned.arranged.perm.mem_iff.1 hf)).1
  · obtain ⟨found, hfound⟩ := Session.exists_result_of_build hs
    rw [ofSession, Session.result, hfound] at hr
    obtain rfl := Except.ok.inj hr
    obtain ⟨family, -, rfl⟩ := List.mem_map.1 hf
    exact Session.exists_line hs hfound hc

end Report

namespace Sample

def sharedKey (kind : String) : RuleKey :=
  { kind, objectClass := "file", source := "app", target := "log" }

/-- A report of three families, two of them of one kind; one has no changes. -/
def scattered : Report where
  base := "before"
  modified := "after"
  families := [
    { family := .te, stats := .ofList [(.removed, 1)]
      changes := [.te { form := .removed, key := sharedKey "type_transition"
                        baseDefault := some "tmp" }] },
    { family := .av, stats := ∅ },
    { family := .av, stats := .ofList [(.added, 2)]
      changes := [.av { form := .added, key := sharedKey "allow", unmodifiedPerms := ["read"] },
        .av { form := .added, key := sharedKey "audit", unmodifiedPerms := [] }] }]
  diagnostics := [⟨"original", "a key", ["log", "tmp"]⟩]

theorem renders_scattered : scattered.Renders := by
  intro f hf c hc
  simp only [scattered, List.mem_cons, List.not_mem_nil, or_false] at hf
  rcases hf with rfl | rfl | rfl <;> simp only [List.mem_cons, List.not_mem_nil, or_false] at hc
  · obtain rfl := hc
    exact ⟨_, rfl⟩
  · rcases hc with rfl | rfl <;> exact ⟨_, rfl⟩

end Sample

/-- The family that comes first in the report is shown last, and the empty one is left out. -/
theorem Report.sections_exact_sample :
    (∃ shown sections lines,
      Sample.scattered.lines ⟨.plain, false, 20⟩ = lines.map .ok ∧
      Sample.scattered.Sectioned false shown sections lines ∧
      lines = ["SELinux Policy Rule Differences", "    original=before modified=after", "",
        "AV Rules (Added 2, Removed 0, Modified 0, Added Type 0, Removed Type 0)",
        "    + allow app log : file \x7b read \x7d;", "    + audit app log : file \x7b \x7d;", "",
        "TE Rules (Added 0, Removed 1, Modified 0, Added Type 0, Removed Type 0)",
        "    - type_transition app log : file tmp;", "",
        "Diagnostics",
        "    Conflicting default types \x7b log tmp \x7d for a key in the original policy",
        ""]) ∧
    ∃ s r shown sections lines,
      (Session.build Sample.before Sample.after Sample.delta 2).1 = .ok s ∧ ofSession s = .ok r ∧
      r.lines ⟨.plain, true, 20⟩ = lines.map .ok ∧ r.Sectioned true shown sections lines ∧
      List.Forall₂ FamilyReport.Counted shown sections := by
  constructor
  · obtain ⟨shown, sections, lines, hlines, h, -⟩ :=
      (sections_exact Sample.scattered false 20).1 Sample.renders_scattered
    refine ⟨shown, sections, lines, hlines, h, ?_⟩
    have hinj : Function.Injective (Except.ok (ε := MissingDefault) (α := String)) :=
      fun _ _ => Except.ok.inj
    exact List.map_injective_iff.2 hinj (hlines.symm.trans (by decide +kernel))
  · obtain ⟨s, hs, -⟩ := Sample.exists_session
    obtain ⟨r, hr, -⟩ := exists_ofSession hs
    have hrenders := (sections_exact r true 20).2 _ _ _ _ s hs hr
    obtain ⟨shown, sections, lines, hlines, h, hcounted⟩ := (sections_exact r true 20).1 hrenders
    exact ⟨s, r, shown, sections, lines, hs, hr, hlines, h, hcounted s hr⟩

end PolicyDelta
