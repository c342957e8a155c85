import PolicyDelta.Proofs.Escapes
import PolicyDelta.Proofs.Words

/-! Tokens and how they are spelled. `Spells` relates a text to the tokens that stand in it, with
blanks wherever they do no harm; scanning a text finds exactly the tokens that it spells
(`Spells.tokens?_eq`), and a written value spells its tokens whatever the layout
(`spells_write`). -/

namespace PolicyDelta.Json

/-! ## The tokens of a value -/

mutual

/-- The tokens of a value. -/
def tokens : Json → List Token
  | .text s => [.text s]
  | .array [] => [.beginArray, .endArray]
  | .array (v :: vs) => .beginArray :: (tokens v ++ itemTokens vs)
  | .object [] => [.beginObject, .endObject]
  | .object ((k, v) :: ms) =>
    .beginObject :: .text k :: .colon :: (tokens v ++ memberTokens ms)
  | v => [.scalar v]

/-- The tokens of the items after the first, and the closing bracket. -/
def itemTokens : List Json → List Token
  | [] => [.endArray]
  | v :: vs => .comma :: (tokens v ++ itemTokens vs)

/-- The tokens of the members after the first, and the closing brace. -/
def memberTokens : List (String × Json) → List Token
  | [] => [.endObject]
  | (k, v) :: ms => .comma :: .text k :: .colon :: (tokens v ++ memberTokens ms)

end

/-- The length of the whole part of a token's number. -/
def Token.width : Token → Nat
  | .scalar v => wholeWidth v
  | _ => 0

/-! ## Spelling -/

/-- No word goes on here. -/
def Ends (cs : List Char) : Prop := ∀ c ∈ cs.head?, isWordChar c = false

theorem isWordChar_of_isBlank {c : Char} (hc : isBlank c) : isWordChar c = false := by
  simp only [isBlank, Bool.or_eq_true, beq_iff_eq] at hc
  rcases hc with ((rfl | rfl) | rfl) | rfl <;> rfl

/-- A text spells tokens, with blanks between them. -/
inductive Spells (l : Layout) : List Char → List Token → Prop where
  | nil : Spells l [] []
  | blank (hc : isBlank c) (h : Spells l cs ts) : Spells l (c :: cs) ts
  | mark (hc : punctuation? c = some t) (h : Spells l cs ts) : Spells l (c :: cs) (t :: ts)
  | text (s : String) (h : Spells l cs ts) : Spells l (l.text s ++ cs) (.text s :: ts)
  | word (hw : Word w v) (hcs : Ends cs) (h : Spells l cs ts) :
    Spells l (w ++ cs) (.scalar v :: ts)

namespace Scan

variable {n : Nat} {found : List Token} {cs : List Char}

theorem run_blank {c : Char} (hc : isBlank c) :
    run n .between found (c :: cs) = run n .between found cs := by
  simp [run, step, start, hc]

theorem run_mark {c : Char} {t : Token} (hc : punctuation? c = some t) :
    run n .between found (c :: cs) = run n .between (t :: found) cs := by
  unfold punctuation? at hc
  split at hc <;> first | cases hc; rfl | cases hc

theorem start_eq_word {c : Char} (hc : isWordChar c) : start c = some (.word [c], []) := by
  have hblank : isBlank c = false := by
    refine Bool.eq_false_iff.2 fun hblank => ?_
    rw [isWordChar_of_isBlank hblank] at hc
    cases hc
  have hquote : c ≠ '"' := by
    rintro rfl
    simp [isWordChar] at hc
  simp [start, hblank, hquote, hc]

/-- A word that is begun is read to its end. -/
theorem run_word {read w : List Char} (hw : ∀ c ∈ w, isWordChar c) (hcs : Ends cs) :
    run n (.word read) found (w ++ cs) =
      (ofWord? n (read.reverse ++ w)).bind fun v => run n .between (.scalar v :: found) cs := by
  induction w generalizing read with
  | nil =>
    rw [List.nil_append, List.append_nil]
    cases cs with
    | nil =>
      simp only [run, finish?]
      cases ofWord? n read.reverse <;> simp
    | cons c cs =>
      have hc : isWordChar c = false := hcs c rfl
      simp only [run, step, hc]
      cases ofWord? n read.reverse with
      | none => simp
      | some v => cases start c <;> simp [List.reverseAux]
  | cons c w ih =>
    obtain ⟨hc, hw⟩ := List.forall_mem_cons.1 hw
    have hstep : step n (.word read) c = some (.word (c :: read), []) := if_pos hc
    rw [List.cons_append, run, hstep]
    refine (ih hw).trans ?_
    rw [List.reverse_cons, List.append_assoc, List.singleton_append]

end Scan

namespace Spells

variable {l : Layout} {n : Nat} {cs : List Char} {ts : List Token}

theorem run_scalar {w : List Char} {v : Json} {found : List Token} (hw : Word w v)
    (hcs : Ends cs) : Scan.run n .between found (w ++ cs) =
      if wholeWidth v ≤ n then Scan.run n .between (.scalar v :: found) cs else none := by
  obtain ⟨c, w', rfl⟩ := List.exists_cons_of_ne_nil hw.ne_nil
  obtain ⟨hc, hw'⟩ := List.forall_mem_cons.1 hw.chars
  have hstep : Scan.step n .between c = some (.word [c], []) := Scan.start_eq_word hc
  rw [List.cons_append, Scan.run, hstep]
  refine (Scan.run_word hw' hcs).trans ?_
  rw [List.reverse_singleton, List.singleton_append, hw.ofWord?_eq]
  split <;> rfl

/-- Scanning finds the tokens that a text spells, unless a number is too long. -/
theorem run (h : Spells l cs ts) (found : List Token) : Scan.run n .between found cs =
    if ∀ t ∈ ts, t.width ≤ n then some (found.reverse ++ ts) else none := by
  induction h generalizing found with
  | nil => simp [Scan.run, Scan.finish?]
  | blank hc _ ih => rw [Scan.run_blank hc, ih]
  | @mark c t cs ts hc _ ih =>
    have ht : t.width = 0 := by
      unfold punctuation? at hc
      split at hc <;> cases hc <;> rfl
    rw [Scan.run_mark hc, ih]
    simp [ht]
  | text s _ ih =>
    rw [Scan.run_text, ih]
    simp [Token.width]
  | @word w v cs ts hw hcs _ ih =>
    rw [run_scalar hw hcs, ih]
    by_cases hv : wholeWidth v ≤ n <;> simp [Token.width, hv]

theorem tokens?_eq (h : Spells l cs ts) (n : Nat) :
    tokens? n cs = if ∀ t ∈ ts, t.width ≤ n then some ts else none :=
  h.run []

theorem blanks {bs : List Char} (hbs : ∀ c ∈ bs, isBlank c) (h : Spells l cs ts) :
    Spells l (bs ++ cs) ts := by
  induction bs with
  | nil => exact h
  | cons c bs ih =>
    obtain ⟨hc, hbs⟩ := List.forall_mem_cons.1 hbs
    exact .blank hc (ih hbs)

end Spells

/-! ## Written values spell their tokens -/

/-- A layout separates by a comma and by a colon, and blanks may follow them. -/
structure Layout.Lawful (l : Layout) : Prop where
  comma : ∃ bs, l.comma = ',' :: bs ∧ ∀ c ∈ bs, isBlank c
  colon : ∃ bs, l.colon = ':' :: bs ∧ ∀ c ∈ bs, isBlank c

theorem Layout.compact_lawful : compact.Lawful := ⟨⟨[], rfl, by simp⟩, ⟨[], rfl, by simp⟩⟩

theorem Layout.indented_lawful : indented.Lawful :=
  ⟨⟨[], rfl, by simp⟩, ⟨[' '], rfl, by simp [isBlank]⟩⟩

theorem Layout.canonical_lawful : canonical.Lawful :=
  ⟨⟨[' '], rfl, by simp [isBlank]⟩, ⟨[' '], rfl, by simp [isBlank]⟩⟩

theorem Layout.isBlank_lineBreak (l : Layout) (level : Nat) :
    ∀ c ∈ l.lineBreak level, isBlank c := by
  intro c hc
  unfold lineBreak at hc
  split at hc
  · exact absurd hc List.not_mem_nil
  · rcases List.mem_cons.1 hc with rfl | hc
    · rfl
    · obtain rfl := List.eq_of_mem_replicate hc
      rfl

namespace Spells

variable {l : Layout} {cs : List Char} {ts : List Token}

theorem comma (hl : l.Lawful) (h : Spells l cs ts) : Spells l (l.comma ++ cs) (.comma :: ts) := by
  obtain ⟨bs, hcomma, hbs⟩ := hl.comma
  rw [hcomma]
  exact .mark rfl (h.blanks hbs)

theorem colon (hl : l.Lawful) (h : Spells l cs ts) : Spells l (l.colon ++ cs) (.colon :: ts) := by
  obtain ⟨bs, hcolon, hbs⟩ := hl.colon
  rw [hcolon]
  exact .mark rfl (h.blanks hbs)

theorem lineBreak (h : Spells l cs ts) (level : Nat) : Spells l (l.lineBreak level ++ cs) ts :=
  h.blanks (l.isBlank_lineBreak level)

end Spells

theorem ends_cons {c : Char} {cs : List Char} (hc : isWordChar c = false) : Ends (c :: cs) := by
  rintro _ ⟨⟩
  exact hc

theorem Layout.Lawful.ends_comma {l : Layout} (hl : l.Lawful) (cs : List Char) :
    Ends (l.comma ++ cs) := by
  obtain ⟨bs, hcomma, -⟩ := hl.comma
  rw [hcomma]
  exact ends_cons rfl

theorem Layout.ends_lineBreak (l : Layout) (level : Nat) {cs : List Char} (hcs : Ends cs) :
    Ends (l.lineBreak level ++ cs) := by
  unfold lineBreak
  split
  · exact hcs
  · exact ends_cons rfl

theorem ends_writeItems {l : Layout} (hl : l.Lawful) (level : Nat) (vs : List Json)
    (cs : List Char) : Ends (writeItems l level vs ++ cs) := by
  cases vs with
  | nil =>
    rw [writeItems, List.append_assoc]
    exact l.ends_lineBreak level (ends_cons rfl)
  | cons v vs =>
    simp only [writeItems, List.append_assoc]
    exact hl.ends_comma _

theorem ends_writeMembers {l : Layout} (hl : l.Lawful) (level : Nat) (ms : List (String × Json))
    (cs : List Char) : Ends (writeMembers l level ms ++ cs) := by
  cases ms with
  | nil =>
    rw [writeMembers, List.append_assoc]
    exact l.ends_lineBreak level (ends_cons rfl)
  | cons m ms =>
    simp only [writeMembers, List.append_assoc]
    exact hl.ends_comma _

mutual

/-- A written value spells its tokens before everything in which no word goes on. -/
theorem spells_write {l : Layout} (hl : l.Lawful) (level : Nat) : (v : Json) → {cs : List Char} →
    {ts : List Token} → Spells l cs ts → Ends cs → Spells l (write l level v ++ cs) (tokens v ++ ts)
  | .null, _, _, h, hcs => .word .null hcs h
  | .bool true, _, _, h, hcs => .word .yes hcs h
  | .bool false, _, _, h, hcs => .word .no hcs h
  | .integer k, _, _, h, hcs => .word (.integer k) hcs h
  | .decimal negative k e, _, _, h, hcs => .word (.decimal negative k e) hcs h
  | .infinity negative, _, _, h, hcs => .word (.infinity negative) hcs h
  | .nan, _, _, h, hcs => .word .nan hcs h
  | .text s, _, _, h, _ => .text s h
  | .array [], _, _, h, _ => .mark rfl (.mark rfl h)
  | .array (v :: vs), _, _, h, _ => by
    have hitems := spells_items hl level vs h
    have hvalue := spells_write hl (level + 1) v hitems (ends_writeItems hl level vs _)
    have hall := Spells.mark (c := '[') rfl (hvalue.lineBreak (level + 1))
    simpa only [write, tokens, List.cons_append, List.append_assoc] using hall
  | .object [], _, _, h, _ => .mark rfl (.mark rfl h)
  | .object ((k, v) :: ms), _, _, h, _ => by
    have hmembers := spells_members hl level ms h
    have hvalue := spells_write hl (level + 1) v hmembers (ends_writeMembers hl level ms _)
    have hall := Spells.mark (c := '\x7b') rfl
      ((Spells.text k (hvalue.colon hl)).lineBreak (level + 1))
    simpa only [write, tokens, List.cons_append, List.append_assoc] using hall

theorem spells_items {l : Layout} (hl : l.Lawful) (level : Nat) : (vs : List Json) →
    {cs : List Char} → {ts : List Token} → Spells l cs ts →
    Spells l (writeItems l level vs ++ cs) (itemTokens vs ++ ts)
  | [], _, _, h => by
    have hend := (Spells.mark (c := ']') rfl h).lineBreak level
    simpa only [writeItems, itemTokens, List.append_assoc, List.singleton_append] using hend
  | v :: vs, _, _, h => by
    have hitems := spells_items hl level vs h
    have hvalue := spells_write hl (level + 1) v hitems (ends_writeItems hl level vs _)
    simpa only [writeItems, itemTokens, List.cons_append, List.append_assoc] using
      (hvalue.lineBreak (level + 1)).comma hl

theorem spells_members {l : Layout} (hl : l.Lawful) (level : Nat) : (ms : List (String × Json)) →
    {cs : List Char} → {ts : List Token} → Spells l cs ts →
    Spells l (writeMembers l level ms ++ cs) (memberTokens ms ++ ts)
  | [], _, _, h => by
    have hend := (Spells.mark (c := '\x7d') rfl h).lineBreak level
    simpa only [writeMembers, memberTokens, List.append_assoc, List.singleton_append] using hend
  | (k, v) :: ms, _, _, h => by
    have hmembers := spells_members hl level ms h
    have hvalue := spells_write hl (level + 1) v hmembers (ends_writeMembers hl level ms _)
    simpa only [writeMembers, memberTokens, List.cons_append, List.append_assoc] using
      ((Spells.text k (hvalue.colon hl)).lineBreak (level + 1)).comma hl

end

end PolicyDelta.Json
