import PolicyDelta.Proofs.ShortNumbers

/-! How the text of a value opens. The first token of a text tells what kind of value the text
stands for, so a text that stands for an object opens with a brace after nothing but blanks
(`Json.exists_brace`). Blanks around a text change nothing (`Json.parseWithin?_between_blanks`). -/

namespace PolicyDelta.Json

variable {n : Nat} {v : Json}

/-! ## Words -/

theorem unsigned?_ne_object {negative : Bool} {word : List Char}
    (h : unsigned? n negative word = some v) (ms : List (String × Json)) : v ≠ .object ms := by
  unfold unsigned? at h
  dsimp only at h
  split at h
  · cases h
  split at h
  · cases h
  split at h
  · cases h
    exact Json.noConfusion
  · obtain ⟨_, -, h⟩ := Option.bind_eq_some_iff.1 h
    obtain ⟨_, -, h⟩ := Option.bind_eq_some_iff.1 h
    cases h
    exact Json.noConfusion

/-- No word stands for an object. -/
theorem ofWord?_ne_object {word : List Char} (h : ofWord? n word = some v)
    (ms : List (String × Json)) : v ≠ .object ms := by
  unfold ofWord? at h
  iterate 4
    split at h
    · cases h
      exact Json.noConfusion
  split at h
  all_goals
    split at h
    · cases h
      exact Json.noConfusion
    · exact unsigned?_ne_object h ms

/-! ## The first token -/

namespace Scan

/-- What a text may have for its first token: a mark after blanks, or else a text or a word. -/
inductive Opening (n : Nat) : List Char → Token → Prop where
  | blank (hc : isBlank c) (h : Opening n cs t) : Opening n (c :: cs) t
  | mark (hc : punctuation? c = some t) : Opening n (c :: cs) t
  | text (s : String) : Opening n cs (.text s)
  | word {w : List Char} {v : Json} (h : ofWord? n w = some v) : Opening n cs (.scalar v)

variable {scan next : Scan} {c : Char} {t : Token} {ts found : List Token} {cs bs : List Char}

/-- A token that the scanner may be in the midst of. -/
def Completes (n : Nat) (t : Token) : Scan → Prop
  | .between => False
  | .word _ => ∃ w v, ofWord? n w = some v ∧ t = .scalar v
  | _ => ∃ s, t = .text s

theorem completes_endUnit {read : List Char} {high : Option Nat} {value : Nat}
    (h : endUnit read high value = some next) :
    next ≠ .between ∧ ∀ t, next.Completes n t → ∃ s, t = .text s := by
  unfold endUnit at h
  dsimp only at h
  split at h
  · split at h
    · cases h
      exact ⟨Scan.noConfusion, fun _ => id⟩
    split at h
    · cases h
    · cases h
      exact ⟨Scan.noConfusion, fun _ => id⟩
  · split at h
    · cases h
      exact ⟨Scan.noConfusion, fun _ => id⟩
    · cases h

/-- In the midst of a token, a character completes it or leaves the scanner in its midst. -/
theorem completes_step (hscan : scan ≠ .between) (h : step n scan c = some (next, ts)) :
    (∃ t ts', ts = t :: ts' ∧ scan.Completes n t) ∨
      ts = [] ∧ next ≠ .between ∧ ∀ t, next.Completes n t → scan.Completes n t := by
  cases scan with
  | between => exact absurd rfl hscan
  | word read =>
    simp only [step] at h
    split at h
    · cases h
      exact .inr ⟨rfl, Scan.noConfusion, fun _ => id⟩
    · obtain ⟨v, hv, h⟩ := Option.bind_eq_some_iff.1 h
      obtain ⟨⟨after, rest⟩, -, h⟩ := Option.bind_eq_some_iff.1 h
      cases h
      exact .inl ⟨_, _, rfl, _, v, hv, rfl⟩
  | text read =>
    simp only [step] at h
    split at h
    · cases h
      exact .inl ⟨_, _, rfl, _, rfl⟩
    split at h
    · cases h
      exact .inr ⟨rfl, Scan.noConfusion, fun _ => id⟩
    split at h
    · cases h
    · cases h
      exact .inr ⟨rfl, Scan.noConfusion, fun _ => id⟩
  | escape read =>
    simp only [step] at h
    split at h
    · cases h
      exact .inr ⟨rfl, Scan.noConfusion, fun _ => id⟩
    · obtain ⟨e, -, h⟩ := Option.map_eq_some_iff.1 h
      cases h
      exact .inr ⟨rfl, Scan.noConfusion, fun _ => id⟩
  | unit read high count value =>
    obtain ⟨d, -, h⟩ := Option.bind_eq_some_iff.1 h
    split at h
    · cases h
      exact .inr ⟨rfl, Scan.noConfusion, fun _ => id⟩
    · obtain ⟨after, hafter, h⟩ := Option.bind_eq_some_iff.1 h
      cases h
      exact .inr ⟨rfl, completes_endUnit hafter⟩
  | pair read high | pairEscape read high =>
    simp only [step] at h
    split at h
    · cases h
      exact .inr ⟨rfl, Scan.noConfusion, fun _ => id⟩
    · cases h

/-- Scanning goes on after the tokens that were found. -/
theorem exists_append_of_run (h : run n scan found cs = some ts) :
    ∃ more, ts = found.reverse ++ more := by
  induction cs generalizing scan found with
  | nil =>
    obtain ⟨last, -, rfl⟩ := Option.map_eq_some_iff.1 h
    exact ⟨last, by simp [List.reverseAux_eq]⟩
  | cons c cs ih =>
    unfold run at h
    split at h
    · cases h
    · rename_i new _
      obtain ⟨more, rfl⟩ := ih h
      exact ⟨new ++ more, by simp [List.reverseAux_eq]⟩

/-- In the midst of a token, the token is the next one that is found. -/
theorem exists_completed (hscan : scan ≠ .between) (h : run n scan found cs = some ts) :
    ∃ t more, ts = found.reverse ++ t :: more ∧ scan.Completes n t := by
  induction cs generalizing scan with
  | nil =>
    obtain ⟨last, hlast, rfl⟩ := Option.map_eq_some_iff.1 h
    unfold finish? at hlast
    split at hlast
    · exact absurd rfl hscan
    · obtain ⟨v, hv, rfl⟩ := Option.map_eq_some_iff.1 hlast
      exact ⟨.scalar v, [], by simp [List.reverseAux_eq], _, v, hv, rfl⟩
    · cases hlast
  | cons c cs ih =>
    unfold run at h
    split at h
    · cases h
    · rename_i hstep
      rcases completes_step hscan hstep with ⟨t, ts', rfl, ht⟩ | ⟨rfl, hnext, hcompletes⟩
      · obtain ⟨more, rfl⟩ := exists_append_of_run h
        exact ⟨t, ts' ++ more, by simp [List.reverseAux_eq], ht⟩
      · obtain ⟨t, more, rfl, ht⟩ := ih hnext h
        exact ⟨t, more, rfl, hcompletes t ht⟩

theorem opening_of_run (h : run n .between [] cs = some (t :: ts)) : Opening n cs t := by
  induction cs with
  | nil => cases h
  | cons c cs ih =>
    by_cases hblank : isBlank c
    · rw [run_blank hblank] at h
      exact .blank hblank (ih h)
    simp only [run, step, start, hblank] at h
    by_cases hquote : c = '"'
    · simp only [hquote, Bool.false_eq_true, if_false, if_true] at h
      obtain ⟨t', more, heq, s, rfl⟩ := exists_completed Scan.noConfusion h
      cases heq
      exact .text s
    by_cases hword : isWordChar c
    · simp only [hquote, hword, Bool.false_eq_true, if_false, if_true] at h
      obtain ⟨t', more, heq, w, v, hv, rfl⟩ := exists_completed Scan.noConfusion h
      cases heq
      exact .word hv
    cases hmark : punctuation? c with
    | none => simp [hquote, hword, hmark] at h
    | some m =>
      simp only [hquote, hword, hmark, Bool.false_eq_true, if_false, Option.map_some] at h
      obtain ⟨more, heq⟩ := exists_append_of_run h
      cases heq
      exact .mark hmark

/-- A text whose first token is a brace opens with it, after blanks. -/
theorem Opening.exists_brace (h : Opening n cs .beginObject) :
    ∃ bs rest, cs = bs ++ '\x7b' :: rest ∧ ∀ c ∈ bs, isBlank c := by
  generalize hbrace : Token.beginObject = t at h
  induction h with
  | blank hc _ ih =>
    obtain ⟨bs, rest, rfl, hbs⟩ := ih hbrace
    exact ⟨_ :: bs, rest, rfl, List.forall_mem_cons.2 ⟨hc, hbs⟩⟩
  | @mark c _ cs hc =>
    have hc' : c = '\x7b' := by
      subst hbrace
      unfold punctuation? at hc
      split at hc <;> cases hc
      rfl
    exact ⟨[], cs, by rw [hc', List.nil_append], by simp⟩
  | text | word => cases hbrace

/-- The first token of a text is no object by itself. -/
theorem Opening.ne_object (h : Opening n cs (.scalar v)) (ms : List (String × Json)) :
    v ≠ .object ms := by
  generalize hscalar : Token.scalar v = t at h
  induction h with
  | blank _ _ ih => exact ih hscalar
  | mark hc =>
    subst hscalar
    unfold punctuation? at hc
    split at hc <;> cases hc
  | text => cases hscalar
  | word hw =>
    cases hscalar
    exact ofWord?_ne_object hw ms

/-! ## Blanks -/

theorem run_blanks (hbs : ∀ c ∈ bs, isBlank c) :
    run n .between found (bs ++ cs) = run n .between found cs := by
  induction bs with
  | nil => rfl
  | cons b bs ih =>
    obtain ⟨hb, hbs⟩ := List.forall_mem_cons.1 hbs
    rw [List.cons_append, run_blank hb, ih hbs]

/-- Blanks after a text change nothing. -/
theorem run_append_blanks (hbs : ∀ c ∈ bs, isBlank c) (h : run n scan found cs = some ts) :
    run n scan found (cs ++ bs) = some ts := by
  induction cs generalizing scan found with
  | nil =>
    have hblanks (found : List Token) : run n .between found bs = some found.reverse := by
      have hrun : run n .between found (bs ++ []) = run n .between found [] := run_blanks hbs
      rwa [List.append_nil] at hrun
    cases scan with
    | between =>
      cases h
      exact hblanks found
    | word read =>
      have hends : Ends bs := by
        intro c hc
        exact isWordChar_of_isBlank (hbs c (List.mem_of_mem_head? hc))
      have hword : run n (.word read) found ([] ++ bs) = (ofWord? n (read.reverse ++ [])).bind
          fun v => run n .between (.scalar v :: found) bs := run_word (by simp) hends
      rw [List.append_nil] at hword
      obtain ⟨last, hlast, rfl⟩ := Option.map_eq_some_iff.1 h
      obtain ⟨v, hv, rfl⟩ := Option.map_eq_some_iff.1 hlast
      rw [hword, hv]
      exact hblanks _
    | text | escape | unit | pair | pairEscape => cases h
  | cons c cs ih =>
    rw [List.cons_append]
    unfold run at h ⊢
    split at h
    · cases h
    · exact ih h

end Scan

/-! ## The outermost value -/

namespace Reader

variable {depth : Nat} {r r' : Reader} {t : Token} {ts : List Token} {stack : List Frame}

/-- The outermost of the open arrays and objects is an array. -/
def InArray (stack : List Frame) : Prop := ∃ items, stack.getLast? = some (.array items)

/-- The outermost value is no object. -/
def NoObject : Reader → Prop
  | .value stack | .firstKey stack | .key _ stack | .colon _ _ stack | .afterMember _ stack =>
    InArray stack
  | .firstItem stack | .afterItem _ stack => stack = [] ∨ InArray stack
  | .done v => ∀ ms, v ≠ .object ms

theorem InArray.cons (h : InArray stack) (f : Frame) : InArray (f :: stack) := by
  obtain ⟨items, h⟩ := h
  exact ⟨items, by rw [List.getLast?_cons, h]; rfl⟩

theorem inArray_array (items : List Json) (h : stack = [] ∨ InArray stack) :
    InArray (.array items :: stack) := by
  rcases h with rfl | h
  · exact ⟨items, rfl⟩
  · exact h.cons _

theorem InArray.tail {f g : Frame} (h : InArray (f :: g :: stack)) : InArray (g :: stack) := by
  obtain ⟨items, h⟩ := h
  exact ⟨items, by rwa [List.getLast?_cons_cons] at h⟩

theorem InArray.deliver (h : InArray stack) (v : Json) : (deliver v stack).NoObject := by
  obtain - | ⟨f, - | ⟨g, stack⟩⟩ := stack
  · obtain ⟨items, h⟩ := h
    cases h
  · obtain ⟨items, h⟩ := h
    cases h
    exact .inl rfl
  · cases f with
    | array items => exact .inr h.tail
    | object members key => exact h.tail

theorem noObject_deliver_array (vs : List Json) (h : stack = [] ∨ InArray stack) :
    (deliver (.array vs) stack).NoObject := by
  rcases h with rfl | h
  · exact fun ms => Json.noConfusion
  · exact h.deliver _

theorem InArray.begin? (h : InArray stack) (hr : begin? t stack = some r) : r.NoObject := by
  cases t with
  | beginArray =>
    cases hr
    exact .inr h
  | beginObject =>
    cases hr
    exact h
  | text | scalar =>
    cases hr
    exact h.deliver _
  | endArray | endObject | comma | colon => cases hr

/-- Reading a token makes no object of the outermost value. -/
theorem NoObject.step? (h : r.NoObject) (hr : r.step? depth t = some r') : r'.NoObject := by
  unfold Reader.step? at hr
  split at hr
  · exact h.begin? hr
  · cases hr
    exact noObject_deliver_array [] h
  · split at hr
    · exact (inArray_array [] h).begin? hr
    · cases hr
  · cases hr
    exact inArray_array _ h
  · cases hr
    exact noObject_deliver_array _ h
  · cases hr
    exact h.deliver _
  · split at hr
    · cases hr
      exact h
    · cases hr
  · cases hr
    exact h
  · cases hr
    exact h.cons _
  · cases hr
    exact h
  · cases hr
    exact h.deliver _
  · cases hr

theorem NoObject.run {v : Json} (h : r.NoObject) (hv : r.run depth ts = some v)
    (ms : List (String × Json)) : v ≠ .object ms := by
  induction ts generalizing r with
  | nil =>
    cases r with
    | done w =>
      cases hv
      exact h ms
    | value | firstItem | afterItem | firstKey | key | colon | afterMember => cases hv
  | cons t ts ih =>
    rw [Reader.run_cons] at hv
    split at hv
    · cases hv
    · rename_i hstep
      exact ih (h.step? hstep) hv

/-- An object is read from tokens that begin with a brace, unless a token is an object by itself. -/
theorem opening_of_run_object {ms : List (String × Json)}
    (h : (Reader.value []).run depth ts = some (.object ms)) :
    ∃ t ts', ts = t :: ts' ∧ (t = .beginObject ∨ t = .scalar (.object ms)) := by
  cases ts with
  | nil => cases h
  | cons t ts =>
    refine ⟨t, ts, rfl, ?_⟩
    rw [Reader.run_cons] at h
    cases t with
    | beginObject => exact .inl rfl
    | beginArray =>
      have hno : (Reader.firstItem []).NoObject := .inl rfl
      exact absurd rfl (hno.run h ms)
    | text s =>
      have hno : (Reader.done (.text s)).NoObject := fun _ => Json.noConfusion
      exact absurd rfl (hno.run h ms)
    | scalar v =>
      by_cases hv : ∃ ms', v = .object ms'
      · obtain ⟨ms', rfl⟩ := hv
        cases ts with
        | nil =>
          cases h
          exact .inr rfl
        | cons => cases h
      · have hno : (Reader.done v).NoObject := fun ms' hv' => hv ⟨ms', hv'⟩
        exact absurd rfl (hno.run h ms)
    | endArray | endObject | comma | colon => cases h

end Reader

/-! ## Texts -/

variable {limits : Limits} {text : String}

/-- A text that stands for an object opens with a brace after blanks. -/
theorem exists_brace {ms : List (String × Json)}
    (h : parseWithin? limits text = some (.object ms)) :
    ∃ bs rest, text.toList = bs ++ '\x7b' :: rest ∧ ∀ c ∈ bs, isBlank c := by
  obtain ⟨ts, hts, hread⟩ := Option.bind_eq_some_iff.1 h
  obtain ⟨t, ts', rfl, rfl | rfl⟩ := Reader.opening_of_run_object hread
  · exact (Scan.opening_of_run hts).exists_brace
  · exact absurd rfl ((Scan.opening_of_run hts).ne_object ms)

/-- Blanks around a text change nothing. -/
theorem parseWithin?_between_blanks {v : Json} {lead trail : String}
    (hlead : ∀ c ∈ lead.toList, isBlank c) (htrail : ∀ c ∈ trail.toList, isBlank c)
    (h : parseWithin? limits text = some v) :
    parseWithin? limits (lead ++ text ++ trail) = some v := by
  obtain ⟨ts, hts, hread⟩ := Option.bind_eq_some_iff.1 h
  refine Option.bind_eq_some_iff.2 ⟨ts, ?_, hread⟩
  rw [String.toList_append, String.toList_append, List.append_assoc]
  exact (Scan.run_blanks hlead).trans (Scan.run_append_blanks htrail hts)

end PolicyDelta.Json
