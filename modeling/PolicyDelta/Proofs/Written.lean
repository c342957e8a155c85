import PolicyDelta.Json.Reader
import PolicyDelta.Proofs.Spelling

/-! Reading what was written. A reader that meets the tokens of a value delivers the value, if the
arrays and objects in it do not lie too deep in one another (`Reader.run_tokens`); so a written
value is read back unless one of its numbers is too long (`parseWithin?_written`). -/

namespace PolicyDelta.Json

/-! ## Nesting and width -/

mutual

/-- The number of arrays and objects with content that lie in one another. -/
def nesting : Json → Nat
  | .array (v :: vs) => max (nesting v) (itemNesting vs) + 1
  | .object ((_, v) :: ms) => max (nesting v) (memberNesting ms) + 1
  | _ => 0

def itemNesting : List Json → Nat
  | [] => 0
  | v :: vs => max (nesting v) (itemNesting vs)

def memberNesting : List (String × Json) → Nat
  | [] => 0
  | (_, v) :: ms => max (nesting v) (memberNesting ms)

end

theorem nesting_array {d : Nat} {vs : List Json} (h : ∀ v ∈ vs, nesting v ≤ d) :
    nesting (.array vs) ≤ d + 1 := by
  have hitems : itemNesting vs ≤ d := by
    induction vs with
    | nil => exact Nat.zero_le d
    | cons v vs ih =>
      obtain ⟨hv, hvs⟩ := List.forall_mem_cons.1 h
      exact Nat.max_le.2 ⟨hv, ih hvs⟩
  cases vs with
  | nil => exact Nat.zero_le _
  | cons v vs => exact Nat.succ_le_succ hitems

theorem nesting_object {d : Nat} {ms : List (String × Json)} (h : ∀ m ∈ ms, nesting m.2 ≤ d) :
    nesting (.object ms) ≤ d + 1 := by
  have hmembers : memberNesting ms ≤ d := by
    induction ms with
    | nil => exact Nat.zero_le d
    | cons m ms ih =>
      obtain ⟨hm, hms⟩ := List.forall_mem_cons.1 h
      exact Nat.max_le.2 ⟨hm, ih hms⟩
  cases ms with
  | nil => exact Nat.zero_le _
  | cons m ms => exact Nat.succ_le_succ hmembers

/-- The whole part of each number in a value is of limited length. -/
def Narrow (n : Nat) (v : Json) : Prop := ∀ t ∈ tokens v, t.width ≤ n

instance (n : Nat) (v : Json) : Decidable (Narrow n v) :=
  inferInstanceAs (Decidable (∀ t ∈ tokens v, t.width ≤ n))

section

variable {n : Nat}

theorem forall_itemTokens {vs : List Json} :
    (∀ t ∈ itemTokens vs, t.width ≤ n) ↔ ∀ v ∈ vs, Narrow n v := by
  induction vs with
  | nil => simp [itemTokens, Token.width]
  | cons v vs ih =>
    simp only [itemTokens, List.forall_mem_cons, List.forall_mem_append, ih, Narrow]
    simp [Token.width]

theorem forall_memberTokens {ms : List (String × Json)} :
    (∀ t ∈ memberTokens ms, t.width ≤ n) ↔ ∀ m ∈ ms, Narrow n m.2 := by
  induction ms with
  | nil => simp [memberTokens, Token.width]
  | cons m ms ih =>
    simp only [memberTokens, List.forall_mem_cons, List.forall_mem_append, ih, Narrow]
    simp [Token.width]

@[simp] theorem narrow_array {vs : List Json} : Narrow n (.array vs) ↔ ∀ v ∈ vs, Narrow n v := by
  rw [← forall_itemTokens, Narrow]
  cases vs <;> simp [tokens, itemTokens, Token.width]

@[simp] theorem narrow_object {ms : List (String × Json)} :
    Narrow n (.object ms) ↔ ∀ m ∈ ms, Narrow n m.2 := by
  rw [← forall_memberTokens, Narrow]
  cases ms <;> simp [tokens, memberTokens, Token.width]

@[simp] theorem narrow_text (s : String) : Narrow n (.text s) := by
  simp [Narrow, tokens, Token.width]

@[simp] theorem narrow_null : Narrow n .null := by
  simp [Narrow, tokens, Token.width, wholeWidth]

@[simp] theorem narrow_bool (b : Bool) : Narrow n (.bool b) := by
  simp [Narrow, tokens, Token.width, wholeWidth]

@[simp] theorem narrow_integer {k : Int} :
    Narrow n (.integer k) ↔ (integerChars k).length ≤ n := by
  simp [Narrow, tokens, Token.width, wholeWidth]

end

/-! ## Reading tokens -/

namespace Reader

variable {depth : Nat} {stack : List Frame}

/-- After an opening bracket the first item is read as every other, if not too much is open. -/
theorem run_firstItem (hstack : stack.length < depth) (v : Json) (ts : List Token) :
    run depth (.firstItem stack) (tokens v ++ ts) =
      run depth (.value (.array [] :: stack)) (tokens v ++ ts) := by
  have hstep (t : Token) (ht : t ≠ .endArray) :
      step? depth (.firstItem stack) t = step? depth (.value (.array [] :: stack)) t := by
    cases t <;> first | exact if_pos hstack | exact absurd rfl ht
  obtain ⟨t, ts', htokens, ht⟩ : ∃ t ts', tokens v = t :: ts' ∧ t ≠ .endArray := by
    unfold tokens
    split <;> exact ⟨_, _, rfl, by simp⟩
  rw [htokens, List.cons_append, run, run, hstep t ht]

mutual

/-- The tokens of a value deliver it. -/
theorem run_tokens : (v : Json) → {stack : List Frame} → (ts : List Token) →
    stack.length + nesting v ≤ depth →
    run depth (.value stack) (tokens v ++ ts) = run depth (deliver v stack) ts
  | .null, _, _, _ | .bool _, _, _, _ | .integer _, _, _, _ | .decimal .., _, _, _
  | .infinity _, _, _, _ | .nan, _, _, _ | .text _, _, _, _ | .array [], _, _, _
  | .object [], _, _, _ => rfl
  | .array (v :: vs), stack, ts, h => by
    rw [nesting] at h
    calc run depth (.value stack) (tokens (.array (v :: vs)) ++ ts)
      _ = run depth (.firstItem stack) (tokens v ++ (itemTokens vs ++ ts)) := by
        rw [← List.append_assoc]
        rfl
      _ = run depth (.value (.array [] :: stack)) (tokens v ++ (itemTokens vs ++ ts)) :=
        run_firstItem (by omega) v _
      _ = run depth (.afterItem [v] stack) (itemTokens vs ++ ts) :=
        run_tokens v _ (by simp only [List.length_cons]; omega)
      _ = run depth (deliver (.array (v :: vs)) stack) ts := run_itemTokens vs [v] ts (by omega)
  | .object ((k, v) :: ms), stack, ts, h => by
    rw [nesting] at h
    have hopen : stack.length < depth := by omega
    calc run depth (.value stack) (tokens (.object ((k, v) :: ms)) ++ ts)
      _ = run depth (.firstKey stack)
          (.text k :: .colon :: (tokens v ++ (memberTokens ms ++ ts))) := by
        rw [← List.append_assoc]
        rfl
      _ = run depth (.value (.object [] k :: stack)) (tokens v ++ (memberTokens ms ++ ts)) := by
        simp [run, step?, hopen]
      _ = run depth (.afterMember [(k, v)] stack) (memberTokens ms ++ ts) :=
        run_tokens v _ (by simp only [List.length_cons]; omega)
      _ = run depth (deliver (.object ((k, v) :: ms)) stack) ts :=
        run_memberTokens ms [(k, v)] ts (by omega)

theorem run_itemTokens : (vs : List Json) → {stack : List Frame} → (items : List Json) →
    (ts : List Token) → stack.length + 1 + itemNesting vs ≤ depth →
    run depth (.afterItem items stack) (itemTokens vs ++ ts) =
      run depth (deliver (.array (items.reverse ++ vs)) stack) ts
  | [], stack, items, ts, _ => by
    rw [List.append_nil]
    rfl
  | v :: vs, stack, items, ts, h => by
    rw [itemNesting] at h
    calc run depth (.afterItem items stack) (itemTokens (v :: vs) ++ ts)
      _ = run depth (.value (.array items :: stack)) (tokens v ++ (itemTokens vs ++ ts)) := by
        rw [← List.append_assoc]
        rfl
      _ = run depth (.afterItem (v :: items) stack) (itemTokens vs ++ ts) :=
        run_tokens v _ (by simp only [List.length_cons]; omega)
      _ = run depth (deliver (.array ((v :: items).reverse ++ vs)) stack) ts :=
        run_itemTokens vs (v :: items) ts (by omega)
      _ = run depth (deliver (.array (items.reverse ++ v :: vs)) stack) ts := by simp

theorem run_memberTokens : (ms : List (String × Json)) → {stack : List Frame} →
    (members : List (String × Json)) → (ts : List Token) →
    stack.length + 1 + memberNesting ms ≤ depth →
    run depth (.afterMember members stack) (memberTokens ms ++ ts) =
      run depth (deliver (.object (members.reverse ++ ms)) stack) ts
  | [], stack, members, ts, _ => by
    rw [List.append_nil]
    rfl
  | (k, v) :: ms, stack, members, ts, h => by
    rw [memberNesting] at h
    calc run depth (.afterMember members stack) (memberTokens ((k, v) :: ms) ++ ts)
      _ = run depth (.value (.object members k :: stack))
          (tokens v ++ (memberTokens ms ++ ts)) := by
        rw [← List.append_assoc]
        rfl
      _ = run depth (.afterMember ((k, v) :: members) stack) (memberTokens ms ++ ts) :=
        run_tokens v _ (by simp only [List.length_cons]; omega)
      _ = run depth (deliver (.object (((k, v) :: members).reverse ++ ms)) stack) ts :=
        run_memberTokens ms ((k, v) :: members) ts (by omega)
      _ = run depth (deliver (.object (members.reverse ++ (k, v) :: ms)) stack) ts := by simp

end

end Reader

/-- A written value with blanks after it is read back, unless one of its numbers is too long. -/
theorem parseWithin?_written (limits : Limits) {l : Layout} (hl : l.Lawful) {v : Json}
    (hdepth : nesting v ≤ limits.depth) {bs : List Char} (hbs : ∀ c ∈ bs, isBlank c) :
    parseWithin? limits (String.ofList (write l 0 v ++ bs)) =
      if Narrow limits.length v then some v else none := by
  have hblanks : Spells l bs [] := by simpa using Spells.nil.blanks hbs
  have hends : Ends bs := fun c hc => isWordChar_of_isBlank (hbs c (List.mem_of_mem_head? hc))
  have hspells := spells_write hl 0 v hblanks hends
  rw [List.append_nil] at hspells
  have hread : Reader.run limits.depth (.value []) (tokens v) = some v := by
    have hdeliver : Reader.run limits.depth (.value []) (tokens v ++ []) = some v :=
      Reader.run_tokens v [] (by simpa using hdepth)
    rwa [List.append_nil] at hdeliver
  rw [parseWithin?, String.toList_ofList, hspells.tokens?_eq]
  change Option.bind (if Narrow limits.length v then some (tokens v) else none) _ = _
  split
  · exact hread
  · rfl

/-- A rendered value is read back, if it can be read. -/
theorem parse?_render {l : Layout} (hl : l.Lawful) {v : Json}
    (hdepth : nesting v ≤ Limits.standard.depth) (hnarrow : Narrow Limits.standard.length v) :
    parse? (render l v) = some v := by
  have hnone : ∀ c ∈ ([] : List Char), isBlank c := by simp
  have hparse := parseWithin?_written .standard hl hdepth hnone
  rw [List.append_nil, if_pos hnarrow] at hparse
  exact hparse

end PolicyDelta.Json
