import PolicyDelta.Json.Layout
import PolicyDelta.Json.Token

/-! Values that are written as one word: literals and numbers. A word reads as the value that it was
written for unless the whole part of its number is too long (`Json.Word.ofWord?_eq`); the length
that is limited counts the minus sign. -/

namespace PolicyDelta.Json

/-! ## Decimal digits -/

theorem isDigit_of_mem_toDigits {k : Nat} : ∀ c ∈ Nat.toDigits 10 k, c.isDigit :=
  fun _ hc => Nat.isDigit_of_mem_toDigits (by decide) (by decide) hc

theorem digits_append {ds rest : List Char} (hds : ∀ c ∈ ds, c.isDigit)
    (hrest : ∀ c ∈ rest.head?, c.isDigit = false) : digits (ds ++ rest) = (ds, rest) := by
  have hstop : rest.takeWhile Char.isDigit = [] ∧ rest.dropWhile Char.isDigit = rest := by
    cases rest with
    | nil => exact ⟨rfl, rfl⟩
    | cons c rest => simp [hrest c rfl]
  rw [digits, List.takeWhile_append_of_pos hds, List.dropWhile_append_of_pos hds, hstop.1, hstop.2,
    List.append_nil]

theorem digits_toDigits (k : Nat) : digits (Nat.toDigits 10 k) = (Nat.toDigits 10 k, []) := by
  have hnil : ∀ c ∈ ([] : List Char).head?, c.isDigit = false := by simp
  simpa using digits_append (isDigit_of_mem_toDigits (k := k)) hnil

/-- A number is written without leading zeros. -/
theorem toDigits_eq_of_head {k : Nat} (h : (Nat.toDigits 10 k).head? = some '0') :
    Nat.toDigits 10 k = ['0'] := by
  induction k using Nat.strongRecOn with
  | ind k ih =>
    rw [Nat.toDigits_eq_if (by decide)] at h ⊢
    split at h
    · rw [if_pos ‹_›]
      exact congrArg (fun c => [c]) (Option.some.inj h)
    · rename_i hk
      rw [List.head?_append, Option.or_of_isSome (by simp [Nat.toDigits_ne_nil])] at h
      -- The digits before the last one would be those of zero.
      have hzero := congrArg (Nat.ofDigitChars 10 · 0) (ih (k / 10) (by omega) h)
      rw [Nat.ofDigitChars_toDigits (by decide) (by decide)] at hzero
      have : k / 10 = 0 := hzero
      omega

theorem wholeLength_eq (negative : Bool) (ds : List Char) :
    wholeLength negative ds = (signChars negative ++ ds).length := by
  cases negative <;> simp [wholeLength, signChars]

theorem not_leading (k : Nat) : ¬(Nat.toDigits 10 k = [] ∨
    ((Nat.toDigits 10 k).head? = some '0' ∧ Nat.toDigits 10 k ≠ ['0'])) := by
  rintro (hnil | ⟨hhead, hne⟩)
  · exact Nat.toDigits_ne_nil hnil
  · exact hne (toDigits_eq_of_head hhead)

/-! ## Numbers -/

variable {n : Nat}

theorem unsigned?_toDigits (negative : Bool) (k : Nat) :
    unsigned? n negative (Nat.toDigits 10 k) =
      if (signChars negative ++ Nat.toDigits 10 k).length ≤ n then
        some (.integer (if negative then -k else k))
      else none := by
  rw [unsigned?, digits_toDigits]
  simp only [if_neg (not_leading k), wholeLength_eq, if_true, ← Nat.not_le, ite_not,
    Nat.ofDigitChars_toDigits (show 1 < 10 by decide) (Nat.le_refl 10)]

/-- A number without sign starts with none. -/
theorem toDigits_ne_cons {k : Nat} {c : Char} (hc : c.isDigit = false) (cs : List Char) :
    Nat.toDigits 10 k ≠ c :: cs := by
  intro h
  have hmem : c ∈ Nat.toDigits 10 k := by
    rw [h]
    exact List.mem_cons_self
  have hdigit := isDigit_of_mem_toDigits c hmem
  rw [hc] at hdigit
  cases hdigit

theorem exponent?_integerChars (e : Int) : exponent? ('e' :: integerChars e) = some e := by
  cases e with
  | ofNat k =>
    -- The exponent has no sign, so the first two ways to read it are out.
    have hminus := toDigits_ne_cons (k := k) (c := '-') rfl
    have hplus := toDigits_ne_cons (k := k) (c := '+') rfl
    simp [exponent?, integerChars, digits_toDigits, Nat.toDigits_ne_nil]
  | negSucc k =>
    simp [exponent?, integerChars, digits_toDigits, Nat.toDigits_ne_nil, Int.negSucc_eq]

theorem unsigned?_decimal (negative : Bool) (k : Nat) (e : Int) :
    unsigned? n negative (Nat.toDigits 10 k ++ 'e' :: integerChars e) =
      if (signChars negative ++ Nat.toDigits 10 k).length ≤ n then
        some (.decimal negative k e)
      else none := by
  rw [unsigned?, digits_append isDigit_of_mem_toDigits (by simp)]
  simp only [if_neg (not_leading k), wholeLength_eq, reduceCtorEq, if_false, ← Nat.not_le, ite_not,
    fraction?, Option.bind_eq_bind, Nat.ofDigitChars_toDigits (show 1 < 10 by decide)
    (Nat.le_refl 10)]
  simp [exponent?_integerChars]

/-! ## Words -/

/-- How a value is written that is written as one word. -/
inductive Word : List Char → Json → Prop where
  | null : Word ['n', 'u', 'l', 'l'] .null
  | yes : Word ['t', 'r', 'u', 'e'] (.bool true)
  | no : Word ['f', 'a', 'l', 's', 'e'] (.bool false)
  | integer (k : Int) : Word (integerChars k) (.integer k)
  | decimal (negative : Bool) (significand : Nat) (exponent : Int) :
    Word (signChars negative ++ Nat.toDigits 10 significand ++ 'e' :: integerChars exponent)
      (.decimal negative significand exponent)
  | infinity (negative : Bool) : Word (signChars negative ++ infinityWord) (.infinity negative)
  | nan : Word nanWord .nan

/-- The length of a number's whole part with its sign, as it is written. -/
def wholeWidth : Json → Nat
  | .integer k => (integerChars k).length
  | .decimal negative significand _ => (signChars negative ++ Nat.toDigits 10 significand).length
  | _ => 0

namespace Word

variable {w : List Char} {v : Json}

theorem isWordChar_of_isDigit {c : Char} (h : c.isDigit) : isWordChar c := by
  simp [isWordChar, Char.isAlphanum, h]

theorem isWordChar_integerChars {k : Int} : ∀ c ∈ integerChars k, isWordChar c := by
  intro c hc
  cases k with
  | ofNat k => exact isWordChar_of_isDigit (isDigit_of_mem_toDigits c hc)
  | negSucc k =>
    rcases List.mem_cons.1 hc with rfl | hc
    · rfl
    · exact isWordChar_of_isDigit (isDigit_of_mem_toDigits c hc)

theorem isWordChar_signChars {negative : Bool} : ∀ c ∈ signChars negative, isWordChar c := by
  cases negative <;> simp [signChars, isWordChar]

theorem chars (h : Word w v) : ∀ c ∈ w, isWordChar c := by
  cases h with
  | null | yes | no | nan => exact List.all_eq_true.1 rfl
  | integer k => exact isWordChar_integerChars
  | decimal negative significand exponent =>
    simp only [List.forall_mem_append, List.forall_mem_cons]
    refine ⟨⟨isWordChar_signChars, fun c hc => ?_⟩, rfl, isWordChar_integerChars⟩
    exact isWordChar_of_isDigit (isDigit_of_mem_toDigits c hc)
  | infinity negative =>
    exact List.forall_mem_append.2 ⟨isWordChar_signChars, List.all_eq_true.1 rfl⟩

theorem ne_nil (h : Word w v) : w ≠ [] := by
  cases h with
  | null | yes | no | nan => decide
  | integer k => cases k <;> simp [integerChars, Nat.toDigits_ne_nil]
  | decimal negative significand exponent => simp
  | infinity negative => simp [infinityWord]

/-- A word that starts with a digit, or with one after a minus sign, is read as a number. -/
theorem ofWord?_number (n : Nat) (negative : Bool) (k : Nat) (rest : List Char) :
    Json.ofWord? n (signChars negative ++ (Nat.toDigits 10 k ++ rest)) =
      unsigned? n negative (Nat.toDigits 10 k ++ rest) := by
  obtain ⟨c, cs, hcs⟩ := List.exists_cons_of_ne_nil (Nat.toDigits_ne_nil (b := 10) (n := k))
  have hne : ∀ x ∈ ['n', 't', 'f', 'N', 'I', '-'], c ≠ x := by
    have hnot : ∀ x ∈ ['n', 't', 'f', 'N', 'I', '-'], x.isDigit = false := by simp [Char.isDigit]
    rintro x hx rfl
    exact toDigits_ne_cons (hnot c hx) cs hcs
  simp only [List.mem_cons, List.not_mem_nil, or_false, forall_eq_or_imp, forall_eq] at hne
  rw [hcs]
  cases negative with
  | true => simp [signChars, Json.ofWord?, nanWord, infinityWord, hne]
  | false => simp [signChars, Json.ofWord?, nanWord, infinityWord, hne]

/-- A word is read as its value unless its number is too long. -/
theorem ofWord?_eq (h : Word w v) (n : Nat) :
    Json.ofWord? n w = if wholeWidth v ≤ n then some v else none := by
  cases h with
  | null | yes | no | nan => rfl
  | infinity negative => cases negative <;> rfl
  | integer k =>
    cases k with
    | ofNat k =>
      have hread := ofWord?_number n false k []
      rw [List.append_nil, unsigned?_toDigits] at hread
      exact hread
    | negSucc k =>
      have hread := ofWord?_number n true (k + 1) []
      rw [List.append_nil, unsigned?_toDigits] at hread
      exact hread
  | decimal negative significand exponent =>
    rw [List.append_assoc, ofWord?_number, unsigned?_decimal]
    rfl

end Word

end PolicyDelta.Json
