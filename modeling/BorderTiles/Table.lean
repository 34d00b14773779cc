/-!
# Table

A table of values by key that remembers the order in which its keys were first entered.  `entries` is
its view; `update` rewrites the value of a key in place or enters the key at the end, and `put`,
`putNew` and `append` are its three uses.  `keys_update` says that an update moves no key,
`get?_update` that it changes the value of one key only, and `popFirst?` takes the key that has been
there longest.
-/

namespace BorderTiles

/-- Values by key, in the order of first entry. -/
structure Table (κ ν : Type) where
  entries : List (κ × ν)
  nodup : (entries.map Prod.fst).Nodup

namespace Table
variable {κ ν : Type}

theorem ext {t u : Table κ ν} (h : t.entries = u.entries) : t = u := by
  cases t; cases u; simp_all

/-- A table without entries. -/
def empty : Table κ ν := ⟨[], .nil⟩

instance : EmptyCollection (Table κ ν) := ⟨empty⟩
instance : Inhabited (Table κ ν) := ⟨empty⟩

/-- The keys, the oldest first. -/
def keys (t : Table κ ν) : List κ := t.entries.map Prod.fst

/-- The values, in the order of their keys. -/
def values (t : Table κ ν) : List ν := t.entries.map Prod.snd

/-- The number of entries. -/
def size (t : Table κ ν) : Nat := t.entries.length

/-- Whether there is no entry. -/
def isEmpty (t : Table κ ν) : Bool := t.entries.isEmpty

/-- The table with every value replaced by its image. -/
def mapValues {μ : Type} (f : ν → μ) (t : Table κ ν) : Table κ μ where
  entries := t.entries.map fun e => (e.1, f e.2)
  nodup := by simpa [Function.comp_def] using t.nodup

/-- The first entry and the table without it. -/
def popFirst? (t : Table κ ν) : Option ((κ × ν) × Table κ ν) :=
  match h : t.entries with
  | [] => none
  | e :: r => some (e, ⟨r, by have := t.nodup; rw [h] at this; exact (List.nodup_cons.1 this).2⟩)

variable [DecidableEq κ]

/-- The value of a key among entries. -/
def lookup (k : κ) : List (κ × ν) → Option ν
  | [] => none
  | (a, v) :: r => if a = k then some v else lookup k r

/-- Entries with the value of `k` rewritten, or with `k` entered at the end. -/
def updateEntries (k : κ) (f : Option ν → ν) : List (κ × ν) → List (κ × ν)
  | [] => [(k, f none)]
  | (a, v) :: r => if a = k then (a, f (some v)) :: r else (a, v) :: updateEntries k f r

theorem map_fst_updateEntries (k : κ) (f : Option ν → ν) (es : List (κ × ν)) :
    (updateEntries k f es).map Prod.fst =
      if k ∈ es.map Prod.fst then es.map Prod.fst else es.map Prod.fst ++ [k] := by
  induction es with
  | nil => simp [updateEntries]
  | cons e r ih =>
    obtain ⟨a, v⟩ := e
    by_cases h : a = k
    · simp [updateEntries, h]
    · have h' : k ≠ a := fun e => h e.symm
      simp only [updateEntries, h, if_false, List.map_cons, ih, List.mem_cons, h', false_or]
      split <;> simp

theorem nodup_updateEntries {k : κ} {f : Option ν → ν} {es : List (κ × ν)}
    (h : (es.map Prod.fst).Nodup) : ((updateEntries k f es).map Prod.fst).Nodup := by
  rw [map_fst_updateEntries]
  split
  · exact h
  · next hk =>
    rw [List.nodup_append]
    exact ⟨h, by simp, fun a ha b hb => by
      rintro rfl
      exact hk (by simp_all)⟩

theorem lookup_updateEntries (k a : κ) (f : Option ν → ν) (es : List (κ × ν)) :
    lookup a (updateEntries k f es) = if a = k then some (f (lookup k es)) else lookup a es := by
  induction es with
  | nil =>
    by_cases h : a = k
    · simp [updateEntries, lookup, h]
    · have : ¬ k = a := fun e => h e.symm
      simp [updateEntries, lookup, h, this]
  | cons e r ih =>
    obtain ⟨b, v⟩ := e
    by_cases hb : b = k
    · by_cases ha : a = k
      · simp [updateEntries, lookup, hb, ha]
      · have : ¬ k = a := fun e => ha e.symm
        simp [updateEntries, lookup, hb, ha, this]
    · by_cases ha : b = a
      · have : ¬ a = k := fun e => hb (ha.trans e)
        simp [updateEntries, lookup, ha, this]
      · by_cases hk : a = k <;> simp_all [updateEntries, lookup]

/-- The value of a key. -/
def get? (t : Table κ ν) (k : κ) : Option ν := lookup k t.entries

/-- Whether a key has been entered. -/
def contains (t : Table κ ν) (k : κ) : Bool := (t.get? k).isSome

/-- The table with the value of `k` rewritten from its present one, entered at the end if absent. -/
def update (t : Table κ ν) (k : κ) (f : Option ν → ν) : Table κ ν :=
  ⟨updateEntries k f t.entries, nodup_updateEntries t.nodup⟩

/-- The table with `v` as the value of `k`. -/
def put (t : Table κ ν) (k : κ) (v : ν) : Table κ ν := t.update k fun _ => v

/-- The table with `v` as the value of `k`, unless `k` has one. -/
def putNew (t : Table κ ν) (k : κ) (v : ν) : Table κ ν := t.update k (·.getD v)

/-- The table with `x` at the end of the list of `k`. -/
def append {τ : Type} (t : Table κ (List τ)) (k : κ) (x : τ) : Table κ (List τ) :=
  t.update k (·.getD [] ++ [x])

/-- The table without `k`. -/
def erase (t : Table κ ν) (k : κ) : Table κ ν where
  entries := t.entries.filter (·.1 ≠ k)
  nodup := (t.nodup.sublist ((List.filter_sublist).map _))

/-- The table of pairs, a later value of a key replacing an earlier one. -/
def ofList (pairs : List (κ × ν)) : Table κ ν :=
  pairs.foldl (fun t e => t.put e.1 e.2) empty

@[simp] theorem get?_empty (k : κ) : (empty : Table κ ν).get? k = none := rfl

theorem get?_update (t : Table κ ν) (k a : κ) (f : Option ν → ν) :
    (t.update k f).get? a = if a = k then some (f (t.get? k)) else t.get? a :=
  lookup_updateEntries k a f t.entries

theorem keys_update (t : Table κ ν) (k : κ) (f : Option ν → ν) :
    (t.update k f).keys = if k ∈ t.keys then t.keys else t.keys ++ [k] :=
  map_fst_updateEntries k f t.entries

end Table
end BorderTiles
