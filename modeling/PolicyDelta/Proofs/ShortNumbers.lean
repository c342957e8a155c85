import PolicyDelta.Proofs.ReadBack

/-! The integers in what was read are short. The scanner refuses a number whose whole part is too
long, the reader puts values together and changes none, and a model's check makes integers of texts
and of other numbers within the same limit (`Check.fits_of_integer`). -/

namespace PolicyDelta

/-! ## Digits -/

namespace Json

variable {n : Nat} {ds : List Char}

theorem ofDigitChars_lt (hds : ∀ c ∈ ds, c.isDigit) :
    Nat.ofDigitChars 10 ds 0 < 10 ^ ds.length := by
  induction ds with
  | nil => exact Nat.one_pos
  | cons c ds ih =>
    obtain ⟨hc, hds⟩ := List.forall_mem_cons.1 hds
    have hdigit : c.toNat - '0'.toNat ≤ 9 := Nat.sub_le_sub_right (Char.isDigit_iff_toNat.1 hc).2 48
    have hrest := ih hds
    have hlead : 10 ^ ds.length * (c.toNat - '0'.toNat) ≤ 10 ^ ds.length * 9 :=
      Nat.mul_le_mul_left _ hdigit
    rw [Nat.ofDigitChars_cons, Nat.ofDigitChars_eq_ofDigitChars_zero, List.length_cons,
      Nat.pow_succ, Nat.mul_zero, Nat.zero_add]
    omega

theorem length_toDigits_le (hne : ds ≠ []) (hds : ∀ c ∈ ds, c.isDigit) :
    (Nat.toDigits 10 (Nat.ofDigitChars 10 ds 0)).length ≤ ds.length :=
  (Nat.length_toDigits_le_iff (by decide) (List.length_pos_iff.2 hne)).2 (ofDigitChars_lt hds)

theorem isDigit_of_mem_digits {cs : List Char} : ∀ c ∈ (digits cs).1, c.isDigit :=
  fun _ hc => List.all_eq_true.1 List.all_takeWhile _ hc

/-- An integer is written in no more characters than it was read from. -/
theorem length_integerChars_le {negative : Bool} (hne : ds ≠ []) (hds : ∀ c ∈ ds, c.isDigit) :
    (integerChars (if negative then -(Nat.ofDigitChars 10 ds 0 : Int)
      else (Nat.ofDigitChars 10 ds 0 : Int))).length ≤ wholeLength negative ds := by
  have hlength := length_toDigits_le hne hds
  rw [length_integerChars, wholeLength]
  cases negative with
  | true =>
    rw [if_pos rfl, if_pos rfl, Int.natAbs_neg, Int.natAbs_natCast]
    split <;> omega
  | false =>
    simp only [Bool.false_eq_true, if_false, Int.natAbs_natCast]
    rw [if_neg (by omega)]
    omega

/-! ## Values -/

/-- The integers in a value are written in at most so many characters. -/
inductive Short (n : Nat) : Json → Prop where
  | null : Short n .null
  | bool (b : Bool) : Short n (.bool b)
  | integer (h : (integerChars k).length ≤ n) : Short n (.integer k)
  | decimal (negative : Bool) (significand : Nat) (exponent : Int) :
    Short n (.decimal negative significand exponent)
  | infinity (negative : Bool) : Short n (.infinity negative)
  | nan : Short n .nan
  | text (s : String) : Short n (.text s)
  | array (h : ∀ v ∈ vs, Short n v) : Short n (.array vs)
  | object (h : ∀ m ∈ ms, Short n m.2) : Short n (.object ms)

/-- A member that is found is one of the members. -/
theorem exists_of_member? {name : String} {ms : List (String × Json)} {v : Json}
    (h : member? name ms = some v) : ∃ m ∈ ms, m.2 = v := by
  have hfold (found : Option Json)
      (hfold : ms.foldl (fun found m => if m.1 = name then some m.2 else found) found = some v) :
      found = some v ∨ ∃ m ∈ ms, m.2 = v := by
    clear h
    induction ms generalizing found with
    | nil => exact .inl hfold
    | cons m ms ih =>
      rw [List.foldl_cons] at hfold
      rcases ih _ hfold with hfound | ⟨m', hm', hv⟩
      · split at hfound
        · exact .inr ⟨m, List.mem_cons_self, Option.some.inj hfound⟩
        · exact .inl hfound
      · exact .inr ⟨m', List.mem_cons_of_mem m hm', hv⟩
  exact (hfold none h).resolve_left (by simp)

/-! ## Words -/

theorem short_of_unsigned? {negative : Bool} {word : List Char} {v : Json}
    (h : unsigned? n negative word = some v) : Short n v := by
  unfold unsigned? at h
  dsimp only at h
  split at h
  · cases h
  rename_i hwhole
  split at h
  · cases h
  rename_i hlength
  split at h
  · cases h
    have hne : (digits word).1 ≠ [] := fun hnil => hwhole (.inl hnil)
    exact .integer (Nat.le_trans (length_integerChars_le hne isDigit_of_mem_digits)
      (Nat.le_of_not_lt hlength))
  · obtain ⟨_, -, h⟩ := Option.bind_eq_some_iff.1 h
    obtain ⟨_, -, h⟩ := Option.bind_eq_some_iff.1 h
    cases h
    exact .decimal _ _ _

theorem short_of_ofWord? {word : List Char} {v : Json} (h : ofWord? n word = some v) :
    Short n v := by
  unfold ofWord? at h
  split at h
  · cases h
    exact .null
  split at h
  · cases h
    exact .bool true
  split at h
  · cases h
    exact .bool false
  split at h
  · cases h
    exact .nan
  split at h
  · split at h
    · cases h
      exact .infinity true
    · exact short_of_unsigned? h
  · split at h
    · cases h
      exact .infinity false
    · exact short_of_unsigned? h

/-! ## Tokens -/

/-- The value that a token holds, if it holds one, is short. -/
def Token.Short (n : Nat) (t : Token) : Prop := ∀ v, t = .scalar v → Json.Short n v

theorem Token.Short.scalar {v : Json} (h : Json.Short n v) : Short n (.scalar v) := by
  rintro _ ⟨⟩
  exact h

theorem Token.Short.text (s : String) : Short n (.text s) := by
  rintro _ ⟨⟩

namespace Scan

variable {scan next : Scan} {c : Char} {ts found : List Token}

/-- What is read between tokens is no value. -/
theorem ne_scalar_of_start (h : start c = some (next, ts)) : ∀ t ∈ ts, ∀ v, t ≠ .scalar v := by
  have hmark {t : Token} (hc : punctuation? c = some t) (v : Json) : t ≠ .scalar v := by
    unfold punctuation? at hc
    split at hc <;> cases hc <;> exact Token.noConfusion
  unfold start at h
  split at h
  · cases h
    simp
  split at h
  · cases h
    simp
  split at h
  · cases h
    simp
  · obtain ⟨t, hc, h⟩ := Option.map_eq_some_iff.1 h
    cases h
    intro t' ht'
    obtain rfl := List.mem_singleton.1 ht'
    exact hmark hc

theorem short_of_start (h : start c = some (next, ts)) : ∀ t ∈ ts, t.Short n :=
  fun t ht v hv => absurd hv (ne_scalar_of_start h t ht v)

/-- The tokens that one character completes. -/
theorem short_of_step (h : step n scan c = some (next, ts)) : ∀ t ∈ ts, t.Short n := by
  cases scan with
  | between => exact short_of_start h
  | word read =>
    simp only [step] at h
    split at h
    · cases h
      simp
    · obtain ⟨v, hv, h⟩ := Option.bind_eq_some_iff.1 h
      obtain ⟨⟨after, rest⟩, hstart, h⟩ := Option.bind_eq_some_iff.1 h
      cases h
      exact List.forall_mem_cons.2 ⟨.scalar (short_of_ofWord? hv), short_of_start hstart⟩
  | text read =>
    simp only [step] at h
    split at h
    · cases h
      exact List.forall_mem_singleton.2 (.text _)
    split at h
    · cases h
      simp
    split at h
    · cases h
    · cases h
      simp
  | escape read =>
    simp only [step] at h
    split at h
    · cases h
      simp
    · obtain ⟨e, -, h⟩ := Option.map_eq_some_iff.1 h
      cases h
      simp
  | unit read high count value =>
    obtain ⟨d, -, h⟩ := Option.bind_eq_some_iff.1 h
    split at h
    · cases h
      simp
    · obtain ⟨after, -, h⟩ := Option.bind_eq_some_iff.1 h
      cases h
      simp
  | pair read high | pairEscape read high =>
    simp only [step] at h
    split at h
    · cases h
      simp
    · cases h

theorem short_of_finish? (h : scan.finish? n = some ts) : ∀ t ∈ ts, t.Short n := by
  unfold finish? at h
  split at h
  · cases h
    simp
  · obtain ⟨v, hv, h⟩ := Option.map_eq_some_iff.1 h
    cases h
    exact List.forall_mem_singleton.2 (.scalar (short_of_ofWord? hv))
  · cases h

theorem short_of_run {cs : List Char} (hfound : ∀ t ∈ found, t.Short n)
    (h : run n scan found cs = some ts) : ∀ t ∈ ts, t.Short n := by
  have hmore {new : List Token} (hnew : ∀ t ∈ new, t.Short n) {old : List Token}
      (hold : ∀ t ∈ old, t.Short n) : ∀ t ∈ new.reverseAux old, t.Short n := by
    intro t ht
    rw [List.reverseAux_eq, List.mem_append, List.mem_reverse] at ht
    exact ht.elim (hnew t) (hold t)
  induction cs generalizing scan found with
  | nil =>
    obtain ⟨last, hlast, rfl⟩ := Option.map_eq_some_iff.1 h
    intro t ht
    exact hmore (short_of_finish? hlast) hfound t (List.mem_reverse.1 ht)
  | cons c cs ih =>
    unfold run at h
    split at h
    · cases h
    · rename_i hstep
      exact ih (hmore (short_of_step hstep) hfound) h

end Scan

/-! ## The reader -/

/-- The values in an open array or object are short. -/
def Frame.Short (n : Nat) : Frame → Prop
  | .array items => ∀ v ∈ items, Json.Short n v
  | .object members _ => ∀ m ∈ members, Json.Short n m.2

namespace Reader

/-- The values that a reader holds are short. -/
def Short (n : Nat) : Reader → Prop
  | .value stack | .firstItem stack | .firstKey stack => ∀ f ∈ stack, f.Short n
  | .afterItem items stack => (∀ v ∈ items, Json.Short n v) ∧ ∀ f ∈ stack, f.Short n
  | .key members stack | .colon members _ stack | .afterMember members stack =>
    (∀ m ∈ members, Json.Short n m.2) ∧ ∀ f ∈ stack, f.Short n
  | .done v => Json.Short n v

variable {depth : Nat} {r r' : Reader} {t : Token} {stack : List Frame} {v : Json}

theorem Short.deliver (hv : Json.Short n v) (h : ∀ f ∈ stack, f.Short n) :
    (deliver v stack).Short n := by
  cases stack with
  | nil => exact hv
  | cons f stack =>
    obtain ⟨hf, hstack⟩ := List.forall_mem_cons.1 h
    cases f with
    | array items => exact ⟨List.forall_mem_cons.2 ⟨hv, hf⟩, hstack⟩
    | object members key => exact ⟨List.forall_mem_cons.2 ⟨hv, hf⟩, hstack⟩

theorem Short.begin? (ht : t.Short n) (h : ∀ f ∈ stack, f.Short n)
    (hr : begin? t stack = some r) : r.Short n := by
  cases t with
  | beginArray | beginObject =>
    cases hr
    exact h
  | text s =>
    cases hr
    exact .deliver (.text s) h
  | scalar v =>
    cases hr
    exact .deliver (ht v rfl) h
  | endArray | endObject | comma | colon => cases hr

/-- Reading a token leaves all values short. -/
theorem Short.step? (h : r.Short n) (ht : t.Short n) (hr : r.step? depth t = some r') :
    r'.Short n := by
  unfold Reader.step? at hr
  split at hr
  · exact .begin? ht h hr
  · cases hr
    exact .deliver (.array (by simp)) h
  · split at hr
    · exact .begin? ht (List.forall_mem_cons.2 ⟨by simp [Frame.Short], h⟩) hr
    · cases hr
  · cases hr
    exact List.forall_mem_cons.2 h
  · cases hr
    obtain ⟨hitems, hstack⟩ := h
    exact .deliver (.array fun v hv => hitems v (List.mem_reverse.1 hv)) hstack
  · cases hr
    exact .deliver (.object (by simp)) h
  · split at hr
    · cases hr
      exact ⟨by simp, h⟩
    · cases hr
  · cases hr
    exact h
  · cases hr
    exact List.forall_mem_cons.2 h
  · cases hr
    exact h
  · cases hr
    obtain ⟨hmembers, hstack⟩ := h
    exact .deliver (.object fun m hm => hmembers m (List.mem_reverse.1 hm)) hstack
  · cases hr

theorem run_cons (ts : List Token) : r.run depth (t :: ts) =
    match r.step? depth t with
    | none => none
    | some next => run depth next ts := by
  cases r <;> rfl

theorem Short.run {ts : List Token} (h : r.Short n) (hts : ∀ t ∈ ts, t.Short n)
    (hv : r.run depth ts = some v) : Json.Short n v := by
  induction ts generalizing r with
  | nil =>
    cases r with
    | done w =>
      cases hv
      exact h
    | value | firstItem | afterItem | firstKey | key | colon | afterMember => cases hv
  | cons t ts ih =>
    obtain ⟨ht, hts⟩ := List.forall_mem_cons.1 hts
    rw [Reader.run_cons] at hv
    split at hv
    · cases hv
    · rename_i hstep
      exact ih (h.step? ht hstep) hts hv

end Reader

theorem short_of_parseWithin? {limits : Limits} {text : String} {v : Json}
    (h : parseWithin? limits text = some v) : Short limits.length v := by
  obtain ⟨ts, hts, hv⟩ := Option.bind_eq_some_iff.1 h
  have hstart : (Reader.value []).Short limits.length := by simp [Reader.Short]
  exact hstart.run (Scan.short_of_run (by simp) hts) hv

end Json

/-! ## Integers by a model's check -/

namespace Check

open Json

variable {v : Json} {k : Int}

theorem fits_of_reading {cs : List Char} (h : reading cs = .integer k) :
    (integerChars k).length ≤ Limits.standard.length := by
  unfold reading at h
  -- With a sign and without one.
  split at h
  all_goals
    dsimp only at h
    split at h
    · cases h
    rename_i hwhole
    split at h
    · cases h
    rename_i hlength
    split at h
    · cases h
    · cases h
      have hne := fun hnil => hwhole (.inl hnil)
      exact Nat.le_trans (length_integerChars_le hne isDigit_of_mem_digits)
        (Nat.le_of_not_lt hlength)

theorem fits_of_integerText {s : String} (h : integerText s = .valid k) :
    (integerChars k).length ≤ Limits.standard.length := by
  unfold integerText at h
  split at h
  · rename_i hread
    cases h
    exact fits_of_reading hread
  · cases h
  · split at h
    · rename_i hread
      cases h
      obtain ⟨cs, -, hread⟩ := Option.map_eq_some_iff.1 hread
      exact fits_of_reading hread
    · cases h

theorem fits_of_small (h : k.natAbs < 10 ^ 19) :
    (integerChars k).length ≤ Limits.standard.length := by
  have hdigits : (Nat.toDigits 10 k.natAbs).length ≤ 19 :=
    (Nat.length_toDigits_le_iff (by decide) (by decide)).2 h
  have hbound : Limits.standard.length = 4300 := rfl
  rw [length_integerChars]
  split <;> omega

theorem fits_of_integral {negative : Bool} {significand : Nat} {exponent : Int}
    (h : integral negative significand exponent = .valid k) :
    (integerChars k).length ≤ Limits.standard.length := by
  unfold integral at h
  split at h
  · cases h
  split at h
  · cases h
  split at h
  · rename_i hword
    cases h
    apply fits_of_small
    unfold wordBound at hword
    omega
  · cases h

/-- An integer that a check makes of a short value is short. -/
theorem fits_of_integer (hv : Short Limits.standard.length v) (h : integer v = .valid k) :
    (integerChars k).length ≤ Limits.standard.length := by
  cases hv with
  | integer hlength =>
    cases h
    exact hlength
  | bool b =>
    cases h
    apply fits_of_small
    cases b <;> decide
  | decimal negative significand exponent => exact fits_of_integral h
  | text s => exact fits_of_integerText h
  | null | infinity | nan | array | object => cases h

end Check

end PolicyDelta
