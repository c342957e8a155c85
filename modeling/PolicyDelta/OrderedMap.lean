/-! Finite maps that keep their keys in the order in which they were first put. Putting a key again
changes its value and not its place. -/

namespace PolicyDelta

/-- The pairs of a map after putting a key. -/
def putPair [DecidableEq κ] (k : κ) (v : ν) : List (κ × ν) → List (κ × ν)
  | [] => [(k, v)]
  | p :: ps => if p.1 = k then (k, v) :: ps else p :: putPair k v ps

theorem mem_keys_putPair [DecidableEq κ] {k : κ} {v : ν} {ps : List (κ × ν)} {x : κ} :
    x ∈ (putPair k v ps).map Prod.fst ↔ x = k ∨ x ∈ ps.map Prod.fst := by
  induction ps with
  | nil => simp [putPair]
  | cons p ps ih =>
    by_cases h : p.1 = k
    · simp only [putPair, h, if_true, List.map_cons, List.mem_cons, or_self_left]
    · simp only [putPair, h, if_false, List.map_cons, List.mem_cons, ih]
      exact or_left_comm

theorem nodup_keys_putPair [DecidableEq κ] {k : κ} {v : ν} {ps : List (κ × ν)}
    (h : (ps.map Prod.fst).Nodup) : ((putPair k v ps).map Prod.fst).Nodup := by
  induction ps with
  | nil => simp [putPair]
  | cons p ps ih =>
    rw [List.map_cons, List.nodup_cons] at h
    by_cases hp : p.1 = k
    · simp only [putPair, hp, if_true, List.map_cons, List.nodup_cons]
      exact ⟨hp ▸ h.1, h.2⟩
    · simp only [putPair, hp, if_false, List.map_cons, List.nodup_cons]
      refine ⟨fun hm => ?_, ih h.2⟩
      rcases mem_keys_putPair.1 hm with hm | hm
      · exact hp hm
      · exact h.1 hm

/-- A finite map with ordered keys. -/
structure OrderedMap (κ ν : Type) where
  pairs : List (κ × ν)
  nodup_keys : (pairs.map Prod.fst).Nodup
deriving DecidableEq

namespace OrderedMap

variable {κ ν : Type}

def empty : OrderedMap κ ν := ⟨[], List.nodup_nil⟩

instance : EmptyCollection (OrderedMap κ ν) := ⟨empty⟩

instance : Inhabited (OrderedMap κ ν) := ⟨∅⟩

variable [DecidableEq κ]

/-- The map with a value put at a key. -/
def put (m : OrderedMap κ ν) (k : κ) (v : ν) : OrderedMap κ ν :=
  ⟨putPair k v m.pairs, nodup_keys_putPair m.nodup_keys⟩

def get? (m : OrderedMap κ ν) (k : κ) : Option ν :=
  (m.pairs.find? (·.1 = k)).map Prod.snd

/-- The map that putting pairs one after another makes. -/
def ofList (ps : List (κ × ν)) : OrderedMap κ ν :=
  ps.foldl (fun m p => m.put p.1 p.2) ∅

end OrderedMap

end PolicyDelta
