/-!
# Keyed lists

A finite map kept as pairs in the order of first insertion, each key at most once.
Every operation is described through `find?`; the order of the entries is visible
only through `entries`.
-/

namespace DitaTopic

/-- A finite map whose entries keep the order in which their keys were first inserted. -/
structure KeyedList (κ ν : Type) where
  entries : List (κ × ν)
  keys_nodup : (entries.map Prod.fst).Nodup

namespace KeyedList

variable {κ ν : Type}

def empty : KeyedList κ ν := ⟨[], List.nodup_nil⟩

instance : Inhabited (KeyedList κ ν) := ⟨empty⟩

def keys (m : KeyedList κ ν) : List κ := m.entries.map Prod.fst

def size (m : KeyedList κ ν) : Nat := m.entries.length

def isEmpty (m : KeyedList κ ν) : Bool := m.entries.isEmpty

variable [DecidableEq κ]

/-- The value of the first pair with key `k`. -/
def lookup (k : κ) : List (κ × ν) → Option ν
  | [] => none
  | (k', v) :: rest => if k' = k then some v else lookup k rest

/-- Replaces the value at `k` where it stands, or adds the pair at the end. -/
def replace (k : κ) (v : ν) : List (κ × ν) → List (κ × ν)
  | [] => [(k, v)]
  | (k', v') :: rest => if k' = k then (k', v) :: rest else (k', v') :: replace k v rest

theorem map_fst_replace (k : κ) (v : ν) (l : List (κ × ν)) :
    (replace k v l).map Prod.fst =
      if k ∈ l.map Prod.fst then l.map Prod.fst else l.map Prod.fst ++ [k] := by
  induction l with
  | nil => simp [replace]
  | cons p rest ih =>
    obtain ⟨k', v'⟩ := p
    by_cases h : k' = k
    · simp [replace, h]
    · have h' : ¬ k = k' := fun e => h e.symm
      by_cases hk : k ∈ rest.map Prod.fst <;> simp_all [replace]

theorem nodup_replace {k : κ} {v : ν} {l : List (κ × ν)} (h : (l.map Prod.fst).Nodup) :
    ((replace k v l).map Prod.fst).Nodup := by
  rw [map_fst_replace]
  split
  · exact h
  · next hk => exact List.nodup_append.2 ⟨h, by simp, by
      intro a ha b hb
      simp only [List.mem_singleton] at hb
      subst hb
      exact fun e => hk (e ▸ ha)⟩

theorem lookup_replace (k j : κ) (v : ν) (l : List (κ × ν)) :
    lookup j (replace k v l) = if k = j then some v else lookup j l := by
  induction l with
  | nil => rfl
  | cons p rest ih =>
    obtain ⟨k', v'⟩ := p
    by_cases h : k' = k
    · subst h
      by_cases hj : k' = j <;> simp [replace, lookup, hj]
    · by_cases hj : k' = j
      · subst hj
        have h' : ¬ k = k' := fun e => h e.symm
        simp [replace, lookup, h, h']
      · simp [replace, lookup, h, hj, ih]

def find? (m : KeyedList κ ν) (k : κ) : Option ν := lookup k m.entries

def insert (m : KeyedList κ ν) (k : κ) (v : ν) : KeyedList κ ν :=
  ⟨replace k v m.entries, nodup_replace m.keys_nodup⟩

/-- Sets every entry of `other` in `m`; the values of `other` win. -/
def extend (m other : KeyedList κ ν) : KeyedList κ ν :=
  other.entries.foldl (fun acc p => acc.insert p.1 p.2) m

@[simp] theorem find?_empty (k : κ) : (empty : KeyedList κ ν).find? k = none := rfl

theorem find?_insert (m : KeyedList κ ν) (k j : κ) (v : ν) :
    (m.insert k v).find? j = if k = j then some v else m.find? j :=
  lookup_replace k j v m.entries

theorem lookup_eq_none {k : κ} {l : List (κ × ν)} (h : k ∉ l.map Prod.fst) : lookup k l = none := by
  induction l with
  | nil => rfl
  | cons p rest ih =>
    simp only [List.map_cons, List.mem_cons, not_or] at h
    rw [lookup, if_neg (Ne.symm h.1), ih h.2]

theorem isSome_lookup {k : κ} {l : List (κ × ν)} :
    (lookup k l).isSome ↔ k ∈ l.map Prod.fst := by
  induction l with
  | nil => simp [lookup]
  | cons p rest ih =>
    obtain ⟨k', v'⟩ := p
    by_cases h : k' = k
    · simp [lookup, h]
    · simp [lookup, h, Ne.symm h, ih]

theorem mem_keys {m : KeyedList κ ν} {k : κ} : k ∈ m.keys ↔ (m.find? k).isSome :=
  isSome_lookup.symm

theorem find?_foldl_insert (l : List (κ × ν)) (h : (l.map Prod.fst).Nodup) (m : KeyedList κ ν)
    (k : κ) :
    (l.foldl (fun acc p => acc.insert p.1 p.2) m).find? k = (lookup k l).or (m.find? k) := by
  induction l generalizing m with
  | nil => rfl
  | cons p rest ih =>
    obtain ⟨fresh, distinct⟩ := List.nodup_cons.1 h
    rw [List.foldl_cons, ih distinct, find?_insert, lookup]
    split
    · next e => rw [lookup_eq_none (e ▸ fresh)]; rfl
    · rfl

/-- Where both maps have a key, the second one's value counts. -/
theorem find?_extend (m other : KeyedList κ ν) (k : κ) :
    (m.extend other).find? k = (other.find? k).or (m.find? k) :=
  find?_foldl_insert other.entries other.keys_nodup m k

/-- Whether two maps hold the same values at the same keys, in whatever order. -/
def sameEntries [DecidableEq ν] (m other : KeyedList κ ν) : Bool :=
  m.size == other.size && m.entries.all fun p => other.find? p.1 == some p.2

end KeyedList

end DitaTopic
