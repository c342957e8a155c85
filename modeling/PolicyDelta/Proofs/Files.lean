import PolicyDelta.Directory

/-! Files. A directory with a file differs from the directory in that file alone, and paths that can
be created lead where they led before: a name is in use from then on, and what lies below it is
beyond a file instead of nowhere. So a file that has been created gets all that is appended. -/

namespace PolicyDelta.Directory

variable {d : Directory} {name other path : String} {content : ByteArray}

/-! ## Files by their names -/

theorem get?_put (d : Directory) (name other : String) (content : ByteArray) :
    (d.put name content).get? other = if name = other then some content else d.get? other := by
  obtain ⟨files⟩ := d
  change ((putFile name content files).find? (·.1 = other)).map Prod.snd =
    if name = other then some content else (files.find? (·.1 = other)).map Prod.snd
  induction files with
  | nil =>
    by_cases h : name = other
    · simp [putFile, h]
    · simp [putFile, h]
  | cons f fs ih =>
    by_cases hf : f.1 = name
    · by_cases h : name = other
      · simp [putFile, hf, h]
      · simp [putFile, hf, h]
    · rw [putFile, if_neg hf]
      by_cases h : f.1 = other
      · have hne : name ≠ other := fun heq => hf (h.trans heq.symm)
        simp [h, hne]
      · simpa [h] using ih

@[simp]
theorem get?_put_self (d : Directory) (name : String) (content : ByteArray) :
    (d.put name content).get? name = some content := by
  rw [get?_put, if_pos rfl]

@[simp]
theorem put_put (d : Directory) (name : String) (first second : ByteArray) :
    (d.put name first).put name second = d.put name second := by
  obtain ⟨files⟩ := d
  change Directory.mk (putFile name second (putFile name first files)) = ⟨putFile name second files⟩
  congr 1
  induction files with
  | nil => simp [putFile]
  | cons f fs ih =>
    by_cases hf : f.1 = name
    · simp [putFile, hf]
    · simp [putFile, hf, ih]

/-- A file with its own content changes nothing. -/
theorem put_of_get? (h : d.get? name = some content) : d.put name content = d := by
  obtain ⟨files⟩ := d
  change (files.find? (·.1 = name)).map Prod.snd = some content at h
  change Directory.mk (putFile name content files) = ⟨files⟩
  congr 1
  induction files with
  | nil => cases h
  | cons f fs ih =>
    by_cases hf : f.1 = name
    · obtain ⟨name', content'⟩ := f
      simp_all [putFile]
    · rw [List.find?_cons_of_neg (by simpa using hf)] at h
      simp [putFile, hf, ih h]

/-! ## Where paths lead -/

/-- A place before and after a name has come into use. -/
inductive Place.InUse (name : String) : Place → Place → Prop where
  | same {place : Place} (h : place ≠ .free name) : InUse name place place
  | created : InUse name (.free name) (.file name)
  | below : InUse name .nowhere .beyond

theorem Place.InUse.of_free {place : Place} (h : InUse name (.free other) place) :
    (place = .free other ∧ other ≠ name) ∨ (place = .file other ∧ other = name) := by
  cases h with
  | same hne => exact .inl ⟨rfl, fun heq => hne (congrArg _ heq)⟩
  | created => exact .inr ⟨rfl, rfl⟩

theorem Place.InUse.of_file {place : Place} (h : InUse name (.file other) place) :
    place = .file other := by
  cases h
  rfl

theorem step_put {place place' : Place} (h : place.InUse name place') (part : String) :
    (d.step place part).InUse name ((d.put name content).step place' part) := by
  cases h with
  | created | below => exact .below
  | same h =>
    cases place with
    | free | nowhere | file | beyond | overlong => exact .same (by simp [step])
    | above =>
      simp only [step]
      split
      · exact .same (by simp)
      · split
        · exact .same (by simp)
        · exact .same (by simp)
    | here =>
      simp only [step, get?_put]
      split
      · exact .same (by simp)
      split
      · exact .same (by simp)
      split
      · exact .same (by simp)
      -- A name is looked up: only the one that has come into use is found anew.
      by_cases hname : name = part
      · subst hname
        by_cases hfile : (d.get? name).isSome
        · simpa [hfile] using Place.InUse.same (by simp)
        · simpa [hfile] using Place.InUse.created
      · by_cases hfile : (d.get? part).isSome
        · simpa [hfile, hname] using Place.InUse.same (by simp)
        · simpa [hfile, hname] using Place.InUse.same (by simpa using Ne.symm hname)

theorem foldl_step_put {place place' : Place} (h : place.InUse name place')
    (parts : List String) :
    (parts.foldl d.step place).InUse name (parts.foldl (d.put name content).step place') := by
  induction parts generalizing place place' with
  | nil => exact h
  | cons part parts ih => exact ih (step_put h part)

theorem locate_put (d : Directory) (name path : String) (content : ByteArray) :
    (d.locate path).InUse name ((d.put name content).locate path) := by
  apply foldl_step_put
  apply Place.InUse.same
  unfold start
  split
  · simp
  · split
    · simp
    · simp

/-! ## Paths that can be created -/

/-- A path can be created if it leads to a name of the directory. -/
theorem creatable_eq_ok : d.creatable path = .ok name ↔
    checkPath path = .ok () ∧ path.toList.getLast? ≠ some '/' ∧
      (d.locate path = .free name ∨ d.locate path = .file name) := by
  unfold creatable
  cases checkPath path with
  | error e => simp [bind, Except.bind]
  | ok u =>
    by_cases hslash : path.toList.getLast? = some '/'
    · cases h : d.locateParent path <;>
        simp [bind, Except.bind, hslash, throw, throwThe, MonadExceptOf.throw]
    · cases h : d.locate path <;>
        simp [bind, Except.bind, hslash, throw, throwThe, MonadExceptOf.throw, pure, Except.pure]

theorem locate_put_of_creatable (h : d.creatable path = .ok name) (content : ByteArray) :
    (d.put name content).locate path = .file name := by
  have hplace := locate_put d name path content
  obtain ⟨-, -, hfree | hfile⟩ := creatable_eq_ok.1 h
  · rw [hfree] at hplace
    rcases hplace.of_free with ⟨-, hne⟩ | ⟨hfile, -⟩
    · exact absurd rfl hne
    · exact hfile
  · rw [hfile] at hplace
    exact hplace.of_file

/-- A path can be created after another file has come into use, and its file is the same. -/
theorem creatable_put (h : d.creatable path = .ok other) (name : String) (content : ByteArray) :
    (d.put name content).creatable path = .ok other := by
  have hplace := locate_put d name path content
  obtain ⟨hcheck, hslash, hfree | hfile⟩ := creatable_eq_ok.1 h
  · rw [hfree] at hplace
    rcases hplace.of_free with ⟨hfree, -⟩ | ⟨hfile, -⟩
    · exact creatable_eq_ok.2 ⟨hcheck, hslash, .inl hfree⟩
    · exact creatable_eq_ok.2 ⟨hcheck, hslash, .inr hfile⟩
  · rw [hfile] at hplace
    exact creatable_eq_ok.2 ⟨hcheck, hslash, .inr hplace.of_file⟩

/-- A file that has been written at a path is read at the path. -/
theorem read_put (h : d.creatable path = .ok name) (content : ByteArray) :
    (d.put name content).read path = .ok content := by
  obtain ⟨hcheck, -⟩ := creatable_eq_ok.1 h
  unfold read
  rw [hcheck, locate_put_of_creatable h]
  change Except.ok (((d.put name content).get? name).getD ByteArray.empty) = _
  rw [get?_put_self]
  rfl

/-! ## Appending -/

theorem append_eq (h : d.creatable path = .ok name) (hcontent : d.get? name = some content)
    (text : String) : d.append path text = d.put name (content ++ text.toUTF8) := by
  simp only [append, h, hcontent, Option.getD_some]

/-- Texts that are appended one after another make up one text. -/
theorem foldl_append (h : d.creatable path = .ok name) (hcontent : d.get? name = some content)
    (texts : List String) :
    texts.foldl (·.append path ·) d = d.put name (content ++ (String.join texts).toUTF8) := by
  induction texts generalizing d content with
  | nil =>
    change d = d.put name (content ++ ByteArray.empty)
    rw [ByteArray.append_empty, put_of_get? hcontent]
  | cons text texts ih =>
    have hbytes : (text ++ String.join texts).toUTF8 = text.toUTF8 ++ (String.join texts).toUTF8 :=
      String.toByteArray_append
    rw [List.foldl_cons, append_eq h hcontent, ih (creatable_put h _ _) (get?_put_self _ _ _),
      put_put, String.join_cons, hbytes, ByteArray.append_assoc]

/-! ## Files that are emptied -/

theorem run_create (d : Directory) (path : String) :
    (access.create path).run d =
      match d.creatable path with
      | .ok name => (.ok (), d.put name ByteArray.empty)
      | .error e => (.error e, d) := by
  have hcreate : d.create path = (d.creatable path).map (d.put · ByteArray.empty) := rfl
  cases hname : d.creatable path <;> simp [access, hcreate, hname] <;> rfl

/-- There is an empty file at a path. -/
def EmptyAt (d : Directory) (path : String) : Prop :=
  ∃ name, d.creatable path = .ok name ∧ d.get? name = some ByteArray.empty

theorem EmptyAt.read (h : d.EmptyAt path) : d.read path = .ok ByteArray.empty := by
  obtain ⟨name, hname, hempty⟩ := h
  have hread := read_put hname ByteArray.empty
  rwa [put_of_get? hempty] at hread

/-- Files may have been created or emptied between two directories; no other file differs. -/
def Emptied (d after : Directory) : Prop :=
  ∀ name, after.get? name = d.get? name ∨ after.get? name = some ByteArray.empty

theorem Emptied.refl (d : Directory) : d.Emptied d := fun _ => .inl rfl

theorem Emptied.trans {after last : Directory} (h : d.Emptied after) (h' : after.Emptied last) :
    d.Emptied last := by
  intro name
  rcases h' name with hsame | hempty
  · rw [hsame]
    exact h name
  · exact .inr hempty

theorem emptied_put (d : Directory) (name : String) : d.Emptied (d.put name ByteArray.empty) := by
  intro other
  rw [get?_put]
  split
  · exact .inr rfl
  · exact .inl rfl

end PolicyDelta.Directory
