import Mathlib.Algebra.Group.Nat.Defs
import PolicyDelta.Json.Layout
import PolicyDelta.Json.Token

/-! Texts in JSON are scanned as they were written: every escape of a layout stands for the
character that it was made of, in one code unit or in a pair of them. -/

namespace PolicyDelta.Json.Scan

variable {n : Nat} {found : List Token} {read cs : List Char} {high : Option Nat}

/-! ## Code units -/

theorem run_hexDigit {count value d : Nat} (hcount : count < 3) (hd : d < 16) :
    run n (.unit read high count value) found (Text.hexDigit d :: cs) =
      run n (.unit read high (count + 1) (16 * value + d)) found cs := by
  simp [run, step, Text.hexValue?_hexDigit hd, hcount]

/-- The first three digits of a code unit. -/
theorem run_hex {width count value k : Nat} (hcount : count + width ≤ 3) (hk : k < 16 ^ width) :
    run n (.unit read high count value) found (Text.hex width k ++ cs) =
      run n (.unit read high (count + width) (16 ^ width * value + k)) found cs := by
  induction width generalizing k cs with
  | zero =>
    obtain rfl : k = 0 := by omega
    simp [Text.hex]
  | succ width ih =>
    have hquotient : k / 16 < 16 ^ width := by
      rw [Nat.pow_succ] at hk
      omega
    have hvalue : 16 * (16 ^ width * value + k / 16) + k % 16 = 16 ^ (width + 1) * value + k := by
      rw [Nat.pow_succ, Nat.mul_add, ← Nat.mul_assoc, Nat.mul_comm 16 (16 ^ width)]
      omega
    rw [Text.hex, List.append_assoc, ih (by omega) hquotient, List.singleton_append,
      run_hexDigit (by omega) (by omega), hvalue, Nat.add_assoc]

/-- A whole code unit ends with what its value makes. -/
theorem run_unit {next : Scan} {k : Nat} (hk : k < 0x10000)
    (hnext : endUnit read high k = some next) :
    run n (.unit read high 0 0) found (Text.hex 4 k ++ cs) = run n next found cs := by
  have hvalue : 16 * (16 ^ 3 * 0 + k / 16) + k % 16 = k := by omega
  have hlast : step n (.unit read high (0 + 3) (16 ^ 3 * 0 + k / 16)) (Text.hexDigit (k % 16)) =
      some (next, []) := by
    simp only [step, Text.hexValue?_hexDigit (show k % 16 < 16 by omega), bind, Option.bind, hvalue,
      hnext]
    rfl
  rw [Text.hex, List.append_assoc, run_hex (by omega) (by omega), List.singleton_append, run, hlast]
  rfl

theorem run_escapedUnit {next : Scan} {k : Nat} (hk : k < 0x10000)
    (hnext : endUnit read none k = some next) :
    run n (.text read) found (Layout.unit k ++ cs) = run n next found cs :=
  run_unit hk hnext

theorem endUnit_basic {k : Nat} (h : k < 0xD800 ∨ 0xE000 ≤ k) :
    endUnit read none k = some (.text (Char.ofNat k :: read)) := by
  simp only [endUnit]
  rw [if_neg (by omega), if_neg (by omega)]

theorem endUnit_high {k : Nat} (h : 0xD800 ≤ k ∧ k < 0xDC00) :
    endUnit read none k = some (.pair read k) :=
  if_pos h

theorem endUnit_low {k first : Nat} (h : 0xDC00 ≤ k ∧ k < 0xE000) :
    endUnit read (some first) k =
      some (.text (Char.ofNat (0x10000 + (first - 0xD800) * 0x400 + (k - 0xDC00)) :: read)) :=
  if_pos h

/-- A character beyond the basic plane is read from its two code units. -/
theorem run_pair {first second : Nat} (hfirst : 0xD800 ≤ first ∧ first < 0xDC00)
    (hsecond : 0xDC00 ≤ second ∧ second < 0xE000) :
    run n (.text read) found (Layout.unit first ++ (Layout.unit second ++ cs)) =
      run n (.text (Char.ofNat (0x10000 + (first - 0xD800) * 0x400 + (second - 0xDC00)) :: read))
        found cs := by
  rw [run_escapedUnit (by omega) (endUnit_high hfirst)]
  exact run_unit (by omega) (endUnit_low hsecond)

/-- A character is read from its code units. -/
theorem run_units (c : Char) :
    run n (.text read) found (Layout.units c ++ cs) = run n (.text (c :: read)) found cs := by
  have hvalid : c.toNat < 0xD800 ∨ 0xDFFF < c.toNat ∧ c.toNat < 0x110000 := c.valid
  have hchar : Char.ofNat c.toNat = c := Char.ofNat_toNat c
  unfold Layout.units
  dsimp only
  generalize c.toNat = k at hvalid hchar
  subst hchar
  split
  · exact run_escapedUnit ‹_› (endUnit_basic (by omega))
  · have hpair : 0x10000 + (0xD800 + (k - 0x10000) / 0x400 - 0xD800) * 0x400 +
        (0xDC00 + (k - 0x10000) % 0x400 - 0xDC00) = k := by omega
    rw [List.append_assoc, run_pair (by omega) (by omega), hpair]

/-! ## Texts -/

/-- A character is read as it was written. -/
theorem run_char (l : Layout) (c : Char) :
    run n (.text read) found (l.char c ++ cs) = run n (.text (c :: read)) found cs := by
  unfold Layout.char
  -- The escapes of one letter.
  iterate 7
    split
    · subst c
      rfl
  split
  · exact run_units c
  · rename_i hquote hbackslash _ _ _ _ _ hplain
    have hcontrol : ¬c.toNat < 0x20 := (not_or.1 hplain).1
    simp only [List.singleton_append, run, step, if_neg hquote, if_neg hbackslash, if_neg hcontrol]
    rfl

theorem run_chars (l : Layout) (s : List Char) :
    run n (.text read) found (s.flatMap l.char ++ cs) =
      run n (.text (s.reverse ++ read)) found cs := by
  induction s generalizing read with
  | nil => rfl
  | cons c s ih =>
    rw [List.flatMap_cons, List.append_assoc, run_char, ih, List.reverse_cons, List.append_assoc]
    rfl

/-- A text between tokens is read as it was written. -/
theorem run_text (l : Layout) (s : String) :
    run n .between found (l.text s ++ cs) = run n .between (.text s :: found) cs := by
  have hopen : run n .between found (l.text s ++ cs) =
      run n (.text []) found (s.toList.flatMap l.char ++ ('"' :: cs)) := by
    simp only [Layout.text, List.cons_append, List.append_assoc]
    rfl
  rw [hopen, run_chars]
  simp only [run, step, if_true, List.append_nil, List.reverse_reverse, String.ofList_toList]
  rfl

end PolicyDelta.Json.Scan
