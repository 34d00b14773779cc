import BorderTiles.Table
import Mathlib.Data.List.Nodup

/-!
# Table — entries and lists

What a table answers, in terms of its entries, and tables whose values are lists.

* `mem_entries_iff`: an entry of the table is a key with its value.  `perm_entries_iff`, `lookup_perm`:
  the order of entries does not matter for that.
* `entries_of_popFirst?`, `entries_erase_of_entries`: what is taken first, and what is left then.
* `erase_update`: what a key holds does not matter once it is taken out.
* `listOf` is the list of a key, empty where the key is absent; `gather p` is all that stands under
  the keys satisfying `p`, and `under k` what stands under `k` in a list of entries.
* `listOf_append`, `listOf_appendEach` and `gather_append` say what one more element does to them.
* `forall_update`: a property of entries that the rewritten entry has, all entries keep.
-/

namespace BorderTiles.Table
variable {κ ν τ : Type}

/-- All elements under the keys that satisfy `p`. -/
def gather (p : κ → Bool) (t : Table κ (List τ)) : List τ :=
  (t.entries.filter fun e => p e.1).flatMap Prod.snd

/-! ### Entries -/

theorem popFirst?_eq_none_iff {t : Table κ ν} : t.popFirst? = none ↔ t.entries = [] := by
  unfold popFirst?
  split
  · next h => simp [h]
  · next e r h => simp [h]

/-- The first entry is taken, the others stay as they are. -/
theorem entries_of_popFirst? {t rest : Table κ ν} {e : κ × ν} (h : t.popFirst? = some (e, rest)) :
    t.entries = e :: rest.entries := by
  unfold popFirst? at h
  split at h
  · cases h
  · next he =>
      cases h
      exact he

/-- Tables with the same keys have as many entries. -/
theorem size_eq_of_keys {μ : Type} {t : Table κ ν} {u : Table κ μ}
    (h : ∀ k, k ∈ t.keys ↔ k ∈ u.keys) : t.size = u.size := by
  have hperm : t.keys.Perm u.keys := (List.perm_ext_iff_of_nodup t.nodup u.nodup).mpr h
  calc t.size = t.keys.length := (List.length_map Prod.fst).symm
    _ = u.keys.length := hperm.length_eq
    _ = u.size := List.length_map Prod.fst

variable [DecidableEq κ]

/-! ### Look-up -/

theorem mem_of_lookup {k : κ} {v : ν} {es : List (κ × ν)} (h : lookup k es = some v) :
    (k, v) ∈ es := by
  induction es with
  | nil => cases h
  | cons e r ih =>
      obtain ⟨a, u⟩ := e
      simp only [lookup] at h
      split at h
      · next e =>
          subst e
          cases h
          exact List.mem_cons_self
      · exact List.mem_cons_of_mem _ (ih h)

theorem lookup_of_mem {k : κ} {v : ν} {es : List (κ × ν)} (hn : (es.map Prod.fst).Nodup)
    (h : (k, v) ∈ es) : lookup k es = some v := by
  induction es with
  | nil => cases h
  | cons e r ih =>
      obtain ⟨a, u⟩ := e
      obtain ⟨ha, hr⟩ := List.nodup_cons.mp hn
      rcases List.mem_cons.mp h with h | h
      · cases h
        simp [lookup]
      · have hk : k ∈ r.map Prod.fst := List.mem_map.mpr ⟨(k, v), h, rfl⟩
        have hne : a ≠ k := fun e => ha (e ▸ hk)
        simp only [lookup, hne, if_false]
        exact ih hr h

theorem lookup_eq_none_iff {k : κ} {es : List (κ × ν)} : lookup k es = none ↔ k ∉ es.map Prod.fst := by
  induction es with
  | nil => simp [lookup]
  | cons e r ih =>
      rw [lookup, List.map_cons, List.mem_cons, not_or]
      split
      · next he => simp [he]
      · next he => rw [ih, and_iff_right (Ne.symm he)]

/-- Different keys have the same values in whatever order. -/
theorem lookup_perm {es fs : List (κ × ν)} (h : es.Perm fs) (hn : (es.map Prod.fst).Nodup) (k : κ) :
    lookup k es = lookup k fs := by
  have hn' : (fs.map Prod.fst).Nodup := (h.map Prod.fst).nodup_iff.mp hn
  ext v
  constructor
  · exact fun hv => lookup_of_mem hn' (h.mem_iff.mp (mem_of_lookup hv))
  · exact fun hv => lookup_of_mem hn (h.mem_iff.mpr (mem_of_lookup hv))

theorem lookup_filter {p : κ → Bool} {k : κ} (hk : p k) (es : List (κ × ν)) :
    lookup k (es.filter fun e => p e.1) = lookup k es := by
  induction es with
  | nil => rfl
  | cons e r ih =>
      rw [List.filter_cons]
      by_cases he : e.1 = k
      · simp [he, hk, lookup]
      · split <;> simp only [lookup, he, if_false, ih]

theorem find?_eq_lookup (name : String) (es : List (String × ν)) :
    es.find? (·.1 == name) = (lookup name es).map fun v => (name, v) := by
  induction es with
  | nil => rfl
  | cons e r ih =>
      by_cases he : e.1 = name
      · simp [lookup, ← he]
      · simp [lookup, he, ih]

/-- An entry is a key with its value. -/
theorem mem_entries_iff {t : Table κ ν} {k : κ} {v : ν} :
    (k, v) ∈ t.entries ↔ t.get? k = some v :=
  ⟨lookup_of_mem t.nodup, mem_of_lookup⟩

/-- Tables have the same entries, in some order, if every key has the same value. -/
theorem perm_entries_iff {t u : Table κ ν} :
    t.entries.Perm u.entries ↔ ∀ k, t.get? k = u.get? k := by
  rw [List.perm_ext_iff_of_nodup (.of_map _ t.nodup) (.of_map _ u.nodup)]
  constructor
  · intro h k
    ext v
    rw [← mem_entries_iff, ← mem_entries_iff, h]
  · rintro h ⟨k, v⟩
    rw [mem_entries_iff, mem_entries_iff, h]

theorem get?_mapValues {μ : Type} (f : ν → μ) (t : Table κ ν) (k : κ) :
    (t.mapValues f).get? k = (t.get? k).map f := by
  show lookup k (t.entries.map fun e => (e.1, f e.2)) = (lookup k t.entries).map f
  induction t.entries with
  | nil => rfl
  | cons e r ih =>
      simp only [List.map_cons, lookup, ih]
      split <;> rfl

/-- A key is one that has a value. -/
theorem mem_keys_iff {t : Table κ ν} {k : κ} : k ∈ t.keys ↔ ∃ v, t.get? k = some v := by
  rw [keys, List.mem_map]
  constructor
  · rintro ⟨e, he, rfl⟩
    exact ⟨e.2, mem_entries_iff.mp he⟩
  · rintro ⟨v, hv⟩
    exact ⟨(k, v), mem_entries_iff.mpr hv, rfl⟩

theorem get?_put (t : Table κ ν) (k a : κ) (v : ν) :
    (t.put k v).get? a = if a = k then some v else t.get? a :=
  get?_update t k a _

theorem get?_putNew (t : Table κ ν) (k a : κ) (v : ν) :
    (t.putNew k v).get? a = if a = k then some ((t.get? k).getD v) else t.get? a :=
  get?_update t k a _

/-- What a key holds, it still holds after a value was put where there was none. -/
theorem get?_putNew_of_some {t : Table κ ν} {k a : κ} {u v : ν} (h : t.get? a = some u) :
    (t.putNew k v).get? a = some u := by
  rw [get?_putNew]
  split
  · next e => rw [← e, h]; rfl
  · exact h

/-- A property of entries, kept by an update if the rewritten entry has it. -/
theorem forall_update {P : κ → ν → Prop} {t : Table κ ν} {k : κ} {f : Option ν → ν}
    (h : ∀ a v, t.get? a = some v → P a v) (hk : P k (f (t.get? k))) :
    ∀ a v, (t.update k f).get? a = some v → P a v := by
  intro a v hv
  rw [get?_update] at hv
  split at hv
  · next e =>
      subst e
      cases hv
      exact hk
  · exact h a v hv

/-! ### Keys taken out -/

theorem get?_erase (t : Table κ ν) (k a : κ) :
    (t.erase k).get? a = if a = k then none else t.get? a := by
  apply Option.ext
  intro v
  rw [← mem_entries_iff]
  dsimp only [erase]
  rw [List.mem_filter, mem_entries_iff, decide_eq_true_iff]
  split <;> simp_all

theorem filter_updateEntries (k : κ) (f : Option ν → ν) (es : List (κ × ν)) :
    (updateEntries k f es).filter (·.1 ≠ k) = es.filter (·.1 ≠ k) := by
  induction es with
  | nil => simp [updateEntries]
  | cons e r ih =>
      obtain ⟨a, v⟩ := e
      by_cases h : a = k
      · simp [updateEntries, h]
      · simp only [updateEntries, h, if_false, List.filter_cons, ih]

/-- What a key holds does not matter once it is taken out. -/
theorem erase_update (t : Table κ ν) (k : κ) (f : Option ν → ν) :
    (t.update k f).erase k = t.erase k :=
  ext (filter_updateEntries k f t.entries)

/-- Without its first key a table has the other entries. -/
theorem entries_erase_of_entries {t : Table κ ν} {k : κ} {v : ν} {r : List (κ × ν)}
    (h : t.entries = (k, v) :: r) : (t.erase k).entries = r := by
  have hn : (((k, v) :: r).map Prod.fst).Nodup := h ▸ t.nodup
  obtain ⟨hk, -⟩ := List.nodup_cons.mp hn
  have hrest : ∀ e ∈ r, decide (e.1 ≠ k) = true := by
    intro e he
    refine decide_eq_true fun hek => hk ?_
    exact List.mem_map.mpr ⟨e, he, hek⟩
  calc (t.erase k).entries = ((k, v) :: r).filter (·.1 ≠ k) := by rw [← h]; rfl
    _ = r.filter (·.1 ≠ k) := List.filter_cons_of_neg (by simp)
    _ = r := List.filter_eq_self.mpr hrest

theorem erase_idem (t : Table κ ν) (k : κ) : (t.erase k).erase k = t.erase k :=
  ext (by simp [erase, List.filter_filter])

theorem erase_comm (t : Table κ ν) (k a : κ) : (t.erase k).erase a = (t.erase a).erase k :=
  ext (List.filter_comm ..)

/-! ### Tables of lists -/

/-- The list of a key, empty if the key is absent. -/
def listOf (t : Table κ (List τ)) (k : κ) : List τ := (t.get? k).getD []

@[simp] theorem listOf_empty (k : κ) : (∅ : Table κ (List τ)).listOf k = [] := rfl

theorem get?_append (t : Table κ (List τ)) (k a : κ) (x : τ) :
    (t.append k x).get? a = if a = k then some (t.listOf k ++ [x]) else t.get? a :=
  get?_update t k a _

theorem listOf_append (t : Table κ (List τ)) (k a : κ) (x : τ) :
    (t.append k x).listOf a = t.listOf a ++ if a = k then [x] else [] := by
  rw [listOf, listOf, get?_append]
  split
  · next e => subst e; rfl
  · rw [List.append_nil]

/-- An element added under each of the keys: a list grows by one for every mention of its key. -/
theorem listOf_appendEach (ks : List κ) (t : Table κ (List τ)) (a : κ) (x : τ) :
    (ks.foldl (fun t k => t.append k x) t).listOf a =
      t.listOf a ++ List.replicate (ks.count a) x := by
  induction ks generalizing t with
  | nil => simp
  | cons k r ih =>
      rw [List.foldl_cons, ih, listOf_append, List.append_assoc, List.count_cons]
      by_cases h : a = k
      · subst h
        simp [List.replicate_succ]
      · have h' : ¬ k = a := fun e => h e.symm
        simp [h, h']

/-- The elements under a key in a list of entries. -/
def under (k : κ) (es : List (κ × List τ)) : List τ := (es.filter (·.1 = k)).flatMap Prod.snd

theorem under_append (k : κ) (es fs : List (κ × List τ)) :
    under k (es ++ fs) = under k es ++ under k fs := by
  simp only [under, List.filter_append, List.flatMap_append]

theorem under_eq_lookup {k : κ} {es : List (κ × List τ)} (hn : (es.map Prod.fst).Nodup) :
    under k es = (lookup k es).getD [] := by
  induction es with
  | nil => rfl
  | cons e r ih =>
      obtain ⟨a, xs⟩ := e
      obtain ⟨ha, hr⟩ := List.nodup_cons.mp hn
      by_cases h : a = k
      · subst h
        have hnone : r.filter (·.1 = a) = [] := by
          refine List.filter_eq_nil_iff.mpr fun e he => ?_
          simpa using fun hea : e.1 = a => ha (List.mem_map.mpr ⟨e, he, hea⟩)
        simp [under, lookup, hnone]
      · simpa [under, lookup, h] using ih hr

theorem under_entries (t : Table κ (List τ)) (k : κ) : under k t.entries = t.listOf k :=
  under_eq_lookup t.nodup

/-- No list of the table is empty. -/
def Filled (t : Table κ (List τ)) : Prop := ∀ k xs, t.get? k = some xs → xs ≠ []

theorem filled_empty : (∅ : Table κ (List τ)).Filled := fun _ _ h => by cases h

/-- Where no list is empty, a key is there if its list has an element. -/
theorem Filled.mem_keys_iff {t : Table κ (List τ)} (h : t.Filled) {k : κ} :
    k ∈ t.keys ↔ t.listOf k ≠ [] := by
  rw [listOf]
  constructor
  · intro hk
    obtain ⟨⟨a, xs⟩, hmem, rfl⟩ := List.mem_map.mp hk
    have hget : t.get? a = some xs := mem_entries_iff.mp hmem
    simpa only [hget, Option.getD_some] using h a xs hget
  · intro hne
    cases hget : t.get? k with
    | none => rw [hget] at hne; exact absurd rfl hne
    | some xs => exact List.mem_map.mpr ⟨(k, xs), mem_entries_iff.mpr hget, rfl⟩

/-- Where no list is empty, a key whose list has no element is absent. -/
theorem Filled.get?_eq {t : Table κ (List τ)} (h : t.Filled) (k : κ) :
    t.get? k = if t.listOf k = [] then none else some (t.listOf k) := by
  rw [listOf]
  cases hget : t.get? k with
  | none => rfl
  | some xs => exact (if_neg (h k xs hget)).symm

/-- Where no list is empty, tables with the same elements under each key have the same keys. -/
theorem Filled.mem_keys_congr {t u : Table κ (List τ)} (ht : t.Filled) (hu : u.Filled)
    (h : ∀ k, (t.listOf k).Perm (u.listOf k)) (k : κ) : k ∈ t.keys ↔ k ∈ u.keys := by
  rw [ht.mem_keys_iff, hu.mem_keys_iff, ← List.length_pos_iff, ← List.length_pos_iff,
    (h k).length_eq]

theorem Filled.append {t : Table κ (List τ)} (h : t.Filled) (k : κ) (x : τ) :
    (t.append k x).Filled :=
  forall_update h (by simp)

theorem Filled.appendEach {t : Table κ (List τ)} (h : t.Filled) (ks : List κ) (x : τ) :
    (ks.foldl (fun t k => t.append k x) t).Filled := by
  induction ks generalizing t with
  | nil => exact h
  | cons k r ih => exact ih (h.append k x)

theorem perm_flatMap_updateEntries {p : κ → Bool} {k : κ} {x : τ} {es : List (κ × List τ)} :
    (((updateEntries k (·.getD [] ++ [x]) es).filter fun e => p e.1).flatMap Prod.snd).Perm
      ((if p k then [x] else []) ++ (es.filter fun e => p e.1).flatMap Prod.snd) := by
  induction es with
  | nil => by_cases hp : p k <;> simp [updateEntries, hp]
  | cons e r ih =>
      obtain ⟨a, xs⟩ := e
      by_cases ha : a = k
      · subst ha
        -- the element goes to the end of the list of its key, not to the front of all
        by_cases hp : p a
        · simp only [updateEntries, if_true, List.filter_cons, hp, List.flatMap_cons,
            Option.getD_some, List.append_assoc]
          exact List.perm_append_comm_assoc xs [x] _
        · simp [updateEntries, hp]
      · by_cases hp : p a
        · simp only [updateEntries, ha, if_false, List.filter_cons, hp, if_true, List.flatMap_cons]
          exact (ih.append_left xs).trans (List.perm_append_comm_assoc xs _ _)
        · simpa [updateEntries, ha, hp] using ih

/-- An element more under `k` is one more among those gathered, if `k` satisfies `p`. -/
theorem gather_append (p : κ → Bool) (t : Table κ (List τ)) (k : κ) (x : τ) :
    ((t.append k x).gather p).Perm ((if p k then [x] else []) ++ t.gather p) :=
  perm_flatMap_updateEntries

end BorderTiles.Table
