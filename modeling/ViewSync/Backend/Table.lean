/-!
# ViewSync.Backend.Table

Entries in the order in which their keys first came, with no key twice: the arenas, registries and handle
tables of the backend.
-/

namespace ViewSync

/-- Values under keys, in the order in which the keys came. -/
structure Table (K V : Type) where
  entries : List (K × V)

namespace Table

variable {K V : Type} [DecidableEq K]

/-- The table without entries. -/
def empty : Table K V := ⟨[]⟩

instance : Inhabited (Table K V) := ⟨empty⟩

/-- The value under a key. -/
def get? (t : Table K V) (k : K) : Option V :=
  (t.entries.find? (·.1 = k)).map (·.2)

/-- Whether a key has a value. -/
def contains (t : Table K V) (k : K) : Bool :=
  t.entries.any (·.1 = k)

/-- The keys in their order. -/
def keys (t : Table K V) : List K :=
  t.entries.map (·.1)

/-- The number of entries. -/
def size (t : Table K V) : Nat :=
  t.entries.length

/-- Changes the value under a key, if there is one. -/
def modify (t : Table K V) (k : K) (f : V → V) : Table K V :=
  ⟨t.entries.map fun e => if e.1 = k then (e.1, f e.2) else e⟩

/-- Sets the value under a key: a key that is there keeps its place, a new one goes to the end. -/
def insert (t : Table K V) (k : K) (v : V) : Table K V :=
  if t.contains k then t.modify k fun _ => v else ⟨t.entries ++ [(k, v)]⟩

/-- Removes a key; the others keep their order. -/
def erase (t : Table K V) (k : K) : Table K V :=
  ⟨t.entries.filter (·.1 ≠ k)⟩

/-! ## What the operations do to a look-up -/

theorem contains_eq_isSome {t : Table K V} {k : K} : t.contains k = (t.get? k).isSome := by
  obtain ⟨es⟩ := t
  simp only [contains, get?, Option.isSome_map]
  induction es with
  | nil => rfl
  | cons e es ih => by_cases h : e.1 = k <;> simp_all

theorem get?_modify_self {t : Table K V} {k : K} {f : V → V} :
    (t.modify k f).get? k = (t.get? k).map f := by
  obtain ⟨es⟩ := t
  simp only [get?, modify]
  induction es with
  | nil => rfl
  | cons e es ih => by_cases h : e.1 = k <;> simp_all

theorem get?_modify_ne {t : Table K V} {k k' : K} {f : V → V} (h : k' ≠ k) :
    (t.modify k f).get? k' = t.get? k' := by
  obtain ⟨es⟩ := t
  simp only [get?, modify]
  induction es with
  | nil => rfl
  | cons e es ih =>
    by_cases he : e.1 = k
    · have hk : ¬ e.1 = k' := fun h' => h (h'.symm.trans he)
      have hk' : ¬ k = k' := fun h' => h h'.symm
      simp_all
    · by_cases hk : e.1 = k' <;> simp_all

theorem get?_insert_self {t : Table K V} {k : K} {v : V} : (t.insert k v).get? k = some v := by
  unfold insert
  split
  · rename_i h
    rw [contains_eq_isSome] at h
    obtain ⟨w, hw⟩ := Option.isSome_iff_exists.1 h
    rw [get?_modify_self, hw]
    rfl
  · rename_i h
    rw [contains_eq_isSome, Bool.not_eq_true, Option.isSome_eq_false_iff, Option.isNone_iff_eq_none,
      get?, Option.map_eq_none_iff] at h
    simp [get?, List.find?_append, h]

theorem get?_insert_ne {t : Table K V} {k k' : K} {v : V} (h : k' ≠ k) :
    (t.insert k v).get? k' = t.get? k' := by
  unfold insert
  split
  · exact get?_modify_ne h
  · have hk : ¬ k = k' := fun h' => h h'.symm
    simp [get?, List.find?_append, hk]

theorem get?_erase_self {t : Table K V} {k : K} : (t.erase k).get? k = none := by
  simp [get?, erase]

theorem get?_modify {t : Table K V} {k k' : K} {f : V → V} :
    (t.modify k f).get? k' = if k' = k then (t.get? k).map f else t.get? k' := by
  split
  · next h => rw [h, get?_modify_self]
  · next h => exact get?_modify_ne h

theorem get?_insert {t : Table K V} {k k' : K} {v : V} :
    (t.insert k v).get? k' = if k' = k then some v else t.get? k' := by
  split
  · next h => rw [h, get?_insert_self]
  · next h => exact get?_insert_ne h

@[simp] theorem contains_modify {t : Table K V} {k k' : K} {f : V → V} :
    (t.modify k f).contains k' = t.contains k' := by
  rw [contains_eq_isSome, contains_eq_isSome, get?_modify]
  split
  · next h => rw [h, Option.isSome_map]
  · rfl

theorem contains_iff_mem_keys {t : Table K V} {k : K} : t.contains k = true ↔ k ∈ t.keys := by
  simp [contains, keys]

@[simp] theorem keys_modify {t : Table K V} {k : K} {f : V → V} : (t.modify k f).keys = t.keys := by
  obtain ⟨es⟩ := t
  simp only [keys, modify, List.map_map]
  exact List.map_congr_left fun e _ => by by_cases h : e.1 = k <;> simp [h]

/-- A key that is there keeps its place. -/
theorem keys_insert_of_mem {t : Table K V} {k : K} (h : k ∈ t.keys) (v : V) : (t.insert k v).keys = t.keys := by
  rw [insert, if_pos (contains_iff_mem_keys.2 h), keys_modify]

theorem mem_keys_of_get? {t : Table K V} {k : K} {v : V} (h : t.get? k = some v) : k ∈ t.keys := by
  rw [← contains_iff_mem_keys, contains_eq_isSome, h]
  rfl

/-- A new key goes to the end. -/
theorem keys_insert_of_not_mem {t : Table K V} {k : K} (h : k ∉ t.keys) (v : V) :
    (t.insert k v).keys = t.keys ++ [k] := by
  rw [insert, if_neg fun hc => h (contains_iff_mem_keys.1 hc)]
  simp [keys]

end Table

end ViewSync
