import PolicyDelta.Proofs.Layout

/-! What the line of a change tells. The body of a line is read from left to right too: blocks of
permissions (`AvChange.Legible.eq_of_render`), or a file name and on each side that the form shows a
default type or a block of them (`TeChange.Legible.eq_of_render`). So legible changes of one family
and one line report the same (`Change.Legible.same_report`). -/

namespace PolicyDelta

open Text (Bare blockChars)

/-! ## Access vector rules -/

namespace AvChange

/-- The permissions of a change are bare and in order, only a modified change has permissions on one
side only, and there is no file name. -/
structure Legible (c : AvChange) : Prop extends c.toChangeHead.Legible where
  name : c.key.name = none
  unmodified : ∀ p ∈ c.unmodifiedPerms, Bare p
  added : ∀ p ∈ c.addedPerms, Bare p
  removed : ∀ p ∈ c.removedPerms, Bare p
  unmodified_ordered : Ordered c.unmodifiedPerms
  added_ordered : Ordered c.addedPerms
  removed_ordered : Ordered c.removedPerms
  oneSided : c.form ≠ .modified → c.addedPerms = [] ∧ c.removedPerms = []

/-- Names after a sign, or nothing. -/
def signed (sign : String) (names : List String) : List Char :=
  if names = [] then [] else sign.toList ++ blockChars names

/-- The permissions in the parentheses of a modified change. -/
def changeChars (added removed : List String) : List Char :=
  if added = [] then signed "- " removed
  else "+ ".toList ++ (blockChars added ++ signed " - " removed)

variable {c c' : AvChange} {ms ns ms' ns' : List String} {x y : List Char}

theorem toList_body (h : c.Legible) : c.body.toList = ' ' :: (blockChars c.unmodifiedPerms ++
    if c.form = .modified then " (".toList ++ (changeChars c.addedPerms c.removedPerms ++ [')'])
    else []) := by
  unfold body
  by_cases hform : c.form = .modified
  · by_cases hadded : c.addedPerms = [] <;> by_cases hremoved : c.removedPerms = [] <;>
      simp [hform, hadded, hremoved, changeChars, signed, toString, String.toList_append,
        Text.toList_namesBlock, h.unmodified_ordered, h.added_ordered, h.removed_ordered]
  · cases hf : c.form <;>
      simp_all [String.toList_append, Text.toList_namesBlock, h.unmodified_ordered]

theorem signed_inj {sign : String} (hsign : ∀ x y, sign.toList ++ x ≠ ')' :: y)
    (hm : ∀ p ∈ ms, Bare p) (hn : ∀ p ∈ ns, Bare p)
    (h : signed sign ms ++ ')' :: x = signed sign ns ++ ')' :: y) : ms = ns ∧ x = y := by
  unfold signed at h
  by_cases hms : ms = [] <;> by_cases hns : ns = []
  · simpa [hms, hns] using h
  · rw [if_pos hms, if_neg hns, List.append_assoc] at h
    exact absurd h.symm (hsign _ _)
  · rw [if_neg hms, if_pos hns, List.append_assoc] at h
    exact absurd h (hsign _ _)
  · simp only [if_neg hms, if_neg hns, List.append_assoc, List.append_cancel_left_eq] at h
    obtain ⟨hnames, hrest⟩ := Text.blockChars_inj hm hn h
    exact ⟨hnames, (List.cons.inj hrest).2⟩

theorem changeChars_inj (hm : ∀ p ∈ ms, Bare p) (hn : ∀ p ∈ ns, Bare p)
    (hm' : ∀ p ∈ ms', Bare p) (hn' : ∀ p ∈ ns', Bare p)
    (h : changeChars ms ns ++ ')' :: x = changeChars ms' ns' ++ ')' :: y) :
    ms = ms' ∧ ns = ns' ∧ x = y := by
  have hplus {names : List String} {c d : List Char} :
      signed "- " names ++ ')' :: c ≠ "+ ".toList ++ d := by
    unfold signed
    split <;> simp
  -- The first sign tells whether there are added permissions.
  unfold changeChars at h
  by_cases hms : ms = [] <;> by_cases hms' : ms' = []
  · rw [if_pos hms, if_pos hms'] at h
    exact ⟨hms.trans hms'.symm, signed_inj (by simp) hn hn' h⟩
  · rw [if_pos hms, if_neg hms', List.append_assoc] at h
    exact absurd h hplus
  · rw [if_neg hms, if_pos hms', List.append_assoc] at h
    exact absurd h.symm hplus
  · simp only [if_neg hms, if_neg hms', List.append_assoc, List.append_cancel_left_eq] at h
    obtain ⟨hadded, hrest⟩ := Text.blockChars_inj hm hm' h
    exact ⟨hadded, signed_inj (by simp) hn hn' hrest⟩

theorem body_inj (h : c.Legible) (h' : c'.Legible) (hsigil : c.form.sigil = c'.form.sigil)
    (hbody : c.body.toList ++ ';' :: x = c'.body.toList ++ ';' :: y) :
    (c.unmodifiedPerms = c'.unmodifiedPerms ∧ c.addedPerms = c'.addedPerms ∧
      c.removedPerms = c'.removedPerms) ∧ x = y := by
  have hmodified : c.form = .modified ↔ c'.form = .modified := by
    cases hf : c.form <;> cases hf' : c'.form <;> simp_all [ChangeForm.sigil]
  rw [toList_body h, toList_body h', List.cons_append, List.cons_append] at hbody
  have hbody := (List.cons.inj hbody).2
  rw [List.append_assoc, List.append_assoc] at hbody
  obtain ⟨hunmodified, hbody⟩ := Text.blockChars_inj h.unmodified h'.unmodified hbody
  by_cases hform : c.form = .modified
  · simp only [if_pos hform, if_pos (hmodified.1 hform), List.append_assoc,
      List.append_cancel_left_eq] at hbody
    obtain ⟨hadded, hremoved, hrest⟩ :=
      changeChars_inj h.added h.removed h'.added h'.removed hbody
    exact ⟨⟨hunmodified, hadded, hremoved⟩, (List.cons.inj hrest).2⟩
  · have hform' := mt hmodified.2 hform
    rw [if_neg hform, if_neg hform'] at hbody
    obtain ⟨hadded, hremoved⟩ := h.oneSided hform
    obtain ⟨hadded', hremoved'⟩ := h'.oneSided hform'
    exact ⟨⟨hunmodified, hadded.trans hadded'.symm, hremoved.trans hremoved'.symm⟩,
      (List.cons.inj hbody).2⟩

/-- The line of a change of access vector rules tells all of it. -/
theorem Legible.eq_of_render (h : c.Legible) (h' : c'.Legible) (hline : c.render = c'.render) :
    c = c' := by
  have hmarked {c : AvChange} (h : c.Legible) : Text.Marked c.body.toList := by
    rw [toList_body h]
    simp [Text.marks]
  obtain ⟨hhead, hunmodified, hadded, hremoved⟩ := h.toLegible.eq_of_line h'.toLegible (.inl rfl)
    (.inl rfl) (hmarked h) (hmarked h') (fun hsigil _ _ hbody => by
      obtain ⟨hperms, hrest⟩ := body_inj h h' hsigil hbody
      exact ⟨⟨h.name.trans h'.name.symm, hperms⟩, hrest⟩) hline
  cases c
  cases c'
  simp_all

end AvChange

/-! ## Type enforcement rules -/

namespace Text

/-- A text shows the names of a set: one by itself, several in a block. -/
inductive Shows : NameSet → List Char → Prop where
  | one {d : String} (hd : Bare d) : Shows {d} d.toList
  | several {names : List String} (hnames : ∀ d ∈ names, Bare d) :
    Shows (.ofList names) (blockChars names)

/-- A text shows the names of one set, or of two on the sides of an arrow. -/
inductive ShowsEach : List NameSet → List Char → Prop where
  | one (h : Shows s a) : ShowsEach [s] a
  | two (h : Shows s a) (h' : Shows t b) : ShowsEach [s, t] (a ++ (" -> ".toList ++ b))

variable {s t : NameSet} {a b c d : List Char} {sets sets' : List NameSet}

theorem Shows.inj (h : Shows s a) (h' : Shows t b) (hc : Marked c) (hd : Marked d)
    (heq : a ++ c = b ++ d) : s = t ∧ c = d := by
  cases h with
  | one hbare =>
    cases h' with
    | one hbare' =>
      obtain ⟨rfl, hrest⟩ := hbare.append_inj hbare' hc hd heq
      exact ⟨rfl, hrest⟩
    | several => exact absurd heq (hbare.append_ne (by decide))
  | several hnames =>
    cases h' with
    | one hbare' => exact absurd heq.symm (hbare'.append_ne (by decide))
    | several hnames' =>
      obtain ⟨rfl, hrest⟩ := blockChars_inj hnames hnames' heq
      exact ⟨rfl, hrest⟩

/-- No quoted name is shown. -/
theorem Shows.ne_quote (h : Shows s a) : a ++ c ≠ '"' :: d := by
  cases h with
  | one hbare => exact hbare.append_ne (by decide)
  | several => simp [blockChars]

theorem ShowsEach.ne_quote (h : ShowsEach sets a) : a ++ c ≠ '"' :: d := by
  cases h with
  | one h => exact h.ne_quote
  | two h =>
    rw [List.append_assoc]
    exact h.ne_quote

theorem ShowsEach.inj (h : ShowsEach sets a) (h' : ShowsEach sets' b)
    (heq : a ++ ';' :: c = b ++ ';' :: d) : sets = sets' ∧ c = d := by
  -- After the first set stands a semicolon or the blank before the arrow.
  cases h with
  | one h =>
    cases h' with
    | one h' =>
      obtain ⟨rfl, hrest⟩ := h.inj h' (by simp [marks]) (by simp [marks]) heq
      exact ⟨rfl, (List.cons.inj hrest).2⟩
    | two h' =>
      simp only [List.append_assoc] at heq
      obtain ⟨-, hrest⟩ := h.inj h' (by simp [marks]) (by simp [marks]) heq
      simp at hrest
  | two h hright =>
    simp only [List.append_assoc] at heq
    cases h' with
    | one h' =>
      obtain ⟨-, hrest⟩ := h.inj h' (by simp [marks]) (by simp [marks]) heq
      simp at hrest
    | two h' hright' =>
      simp only [List.append_assoc] at heq
      obtain ⟨rfl, hrest⟩ := h.inj h' (by simp [marks]) (by simp [marks]) heq
      rw [List.append_cancel_left_eq] at hrest
      obtain ⟨rfl, hrest⟩ := hright.inj hright' (by simp [marks]) (by simp [marks]) hrest
      exact ⟨rfl, (List.cons.inj hrest).2⟩

/-- A file name is told apart from what is shown after it. -/
theorem fileNameText_inj {n n' : Option String} (hn : ∀ m ∈ n, Bare m) (hn' : ∀ m ∈ n', Bare m)
    (h : ShowsEach sets a) (h' : ShowsEach sets' b) (heq : (fileNameText n).toList ++
      (' ' :: a ++ c) = (fileNameText n').toList ++ (' ' :: b ++ d)) :
    n = n' ∧ a ++ c = b ++ d := by
  have hsome (m : String) : (fileNameText (some m)).toList = ' ' :: '"' :: (m.toList ++ ['"']) := by
    simp [fileNameText, toString, String.toList_append]
  cases n with
  | none =>
    cases n' with
    | none => exact ⟨rfl, (List.cons.inj heq).2⟩
    | some m' =>
      rw [hsome] at heq
      exact absurd (List.cons.inj heq).2 h.ne_quote
  | some m =>
    rw [hsome] at heq
    cases n' with
    | none => exact absurd (List.cons.inj heq).2.symm h'.ne_quote
    | some m' =>
      rw [hsome] at heq
      simp only [List.cons_append, List.append_assoc, List.cons.injEq, true_and] at heq
      have hm : Bare m := hn m rfl
      have hm' : Bare m' := hn' m' rfl
      obtain ⟨rfl, hrest⟩ := hm.append_inj hm' (by simp [marks]) (by simp [marks]) heq
      exact ⟨rfl, by simpa using hrest⟩

end Text

namespace TeChange

/-- The default types of a change are bare, and those in conflict are in order. -/
structure Legible (c : TeChange) : Prop extends c.toChangeHead.Legible where
  default : ∀ side, ∀ d ∈ c.default? side, Bare d
  conflicts : ∀ x ∈ c.conflicts, ∀ d ∈ x.defaults, Bare d
  ordered : ∀ x ∈ c.conflicts, Ordered x.defaults

variable {c c' : TeChange} {side : Side} {text body : String} {x y : List Char}

/-- The default types of the sides that a change shows. -/
def shown (c : TeChange) : List (Option NameSet) := c.form.sides.map c.defaults?

theorem defaultText_eq (c : TeChange) (side : Side) : c.defaultText side =
    match c.default? side with
    | some d => .ok d
    | none =>
      match c.conflicts.find? (·.side = side.name) with
      | some conflict => .ok (namesBlock conflict.defaults)
      | none => .error ⟨c.key, side⟩ := by
  cases side <;> rfl

/-- The text for a side shows what the change tells about its default types. -/
theorem Legible.shows_default (h : c.Legible) (htext : c.defaultText side = .ok text) :
    ∃ s, c.defaults? side = some s ∧ Text.Shows s text.toList := by
  rw [defaultText_eq] at htext
  unfold defaults?
  cases hd : c.default? side with
  | some d =>
    rw [hd] at htext
    cases htext
    exact ⟨_, rfl, .one (h.default side _ hd)⟩
  | none =>
    rw [hd] at htext
    cases hx : c.conflicts.find? (·.side = side.name) with
    | none =>
      rw [hx] at htext
      cases htext
    | some x =>
      rw [hx] at htext
      cases htext
      have hmem := List.mem_of_find?_eq_some hx
      rw [Text.toList_namesBlock (h.ordered x hmem)]
      exact ⟨_, rfl, .several (h.conflicts x hmem)⟩

/-- The body of a line is the file name and what the change tells about the sides it shows. -/
theorem Legible.shows_body (h : c.Legible) (hbody : c.body = .ok body) :
    ∃ sets a, body.toList = (fileNameText c.key.name).toList ++ ' ' :: a ∧
      c.shown = sets.map some ∧ Text.ShowsEach sets a := by
  unfold TeChange.body at hbody
  cases hform : c.form with
  | added | addType | removed | removeType =>
    rw [hform] at hbody
    obtain ⟨default, hdefault, hbody⟩ := bind_eq_ok.1 hbody
    cases hbody
    obtain ⟨s, hs, hshows⟩ := h.shows_default hdefault
    exact ⟨[s], _, by simp [toString, String.toList_append],
      by simp [shown, hform, ChangeForm.sides, hs], .one hshows⟩
  | modified =>
    rw [hform] at hbody
    obtain ⟨b, hb, hbody⟩ := bind_eq_ok.1 hbody
    obtain ⟨m, hm, hbody⟩ := bind_eq_ok.1 hbody
    cases hbody
    obtain ⟨s, hs, hshows⟩ := h.shows_default hb
    obtain ⟨t, ht, hshows'⟩ := h.shows_default hm
    exact ⟨[s, t], _, by simp [toString, String.toList_append],
      by simp [shown, hform, ChangeForm.sides, Side.all, hs, ht], .two hshows hshows'⟩

/-- The line of a change of type enforcement rules tells its head and the default types of the sides
that it shows. -/
theorem Legible.eq_of_render {line : String} (h : c.Legible) (h' : c'.Legible)
    (hline : c.render = .ok line) (hline' : c'.render = .ok line) :
    c.toChangeHead = c'.toChangeHead ∧ c.shown = c'.shown := by
  have hnotes (c : TeChange) :
      ChangeHead.ConflictNotes (if c.conflicts = [] then [] else ["[conflicting defaults]"]) := by
    split
    · exact .inl rfl
    · exact .inr rfl
  have hmarked {n : Option String} {a : List Char} :
      Text.Marked ((fileNameText n).toList ++ ' ' :: a) := by
    cases n <;> simp [fileNameText, toString, Text.marks, String.toList_append]
  obtain ⟨body, hbody, hline⟩ := bind_eq_ok.1 hline
  obtain ⟨body', hbody', hline'⟩ := bind_eq_ok.1 hline'
  obtain ⟨sets, a, hchars, hshown, hshows⟩ := h.shows_body hbody
  obtain ⟨sets', a', hchars', hshown', hshows'⟩ := h'.shows_body hbody'
  refine h.toLegible.eq_of_line h'.toLegible (hnotes c) (hnotes c') (hchars ▸ hmarked)
    (hchars' ▸ hmarked) (fun _ x y heq => ?_) (Except.ok.inj (hline.trans hline'.symm))
  rw [hchars, hchars', List.append_assoc, List.append_assoc] at heq
  obtain ⟨hname, heq⟩ := Text.fileNameText_inj h.key.name h'.key.name hshows hshows' heq
  obtain ⟨rfl, hrest⟩ := hshows.inj hshows' heq
  exact ⟨⟨hname, hshown.trans hshown'.symm⟩, hrest⟩

end TeChange

/-! ## Changes of either family -/

namespace Change

/-- Two changes report the same: changes of access vector rules are the same, and changes of type
enforcement rules have the same head and show the same default types of the same sides. -/
inductive SameReport : Change → Change → Prop where
  | av (c : AvChange) : SameReport (.av c) (.av c)
  | te {c c' : TeChange} (hhead : c.toChangeHead = c'.toChangeHead) (hshown : c.shown = c'.shown) :
    SameReport (.te c) (.te c')

/-- The line of a change can be read. -/
def Legible : Change → Prop
  | av c => c.Legible
  | te c => c.Legible

variable {c c' : Change} {line : String}

theorem SameReport.head_eq (h : c.SameReport c') : c.head = c'.head := by
  cases h with
  | av => rfl
  | te hhead => exact hhead

/-- Legible changes of one family that have one line report the same. -/
theorem Legible.same_report (h : c.Legible) (h' : c'.Legible) (hfamily : c.family = c'.family)
    (hline : c.render = .ok line) (hline' : c'.render = .ok line) : c.SameReport c' := by
  cases c with
  | av a =>
    cases c' with
    | av a' =>
      have hsame : a.render = a'.render := Except.ok.inj (hline.trans hline'.symm)
      exact AvChange.Legible.eq_of_render h h' hsame ▸ .av a
    | te t' => cases hfamily
  | te t =>
    cases c' with
    | av a' => cases hfamily
    | te t' =>
      obtain ⟨hhead, hshown⟩ := TeChange.Legible.eq_of_render h h' hline hline'
      exact .te hhead hshown

end Change

end PolicyDelta
