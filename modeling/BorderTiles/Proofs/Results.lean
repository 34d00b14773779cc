import Mathlib.Data.List.Forall2

/-!
# Results — steps that can fail

Two steps have a result if the first has one and the second has one after it (`bind_eq_ok`); a list of
steps has one if each of them has (`mapM_ok`), and then the results match the steps one by one
(`mapM_eq_ok`).  Where it is known which steps have a result, and which, so it is for a list of them
(`mapM_eq_ok_iff`).
-/

namespace BorderTiles
variable {ε τ σ : Type}

theorem bind_eq_ok {m : Except ε τ} {f : τ → Except ε σ} {y : σ} :
    m >>= f = .ok y ↔ ∃ x, m = .ok x ∧ f x = .ok y := by
  cases m with
  | error e => exact ⟨nofun, nofun⟩
  | ok x =>
      refine ⟨fun h => ⟨x, rfl, h⟩, ?_⟩
      rintro ⟨_, hx, h⟩
      cases hx
      exact h

/-- The results of a list, one for each element. -/
theorem mapM_eq_ok {f : τ → Except ε σ} {xs : List τ} {ys : List σ} :
    xs.mapM f = .ok ys ↔ List.Forall₂ (fun x y => f x = .ok y) xs ys := by
  induction xs generalizing ys with
  | nil =>
      rw [List.mapM_nil, List.forall₂_nil_left_iff]
      exact ⟨fun h => by cases h; rfl, fun h => h ▸ rfl⟩
  | cons x xs ih =>
      rw [List.mapM_cons, bind_eq_ok, List.forall₂_cons_left_iff]
      constructor
      · rintro ⟨y, hy, h⟩
        obtain ⟨ys, hys, h⟩ := bind_eq_ok.mp h
        cases h
        exact ⟨y, ys, hy, ih.mp hys, rfl⟩
      · rintro ⟨y, ys, hy, hys, rfl⟩
        exact ⟨y, hy, bind_eq_ok.mpr ⟨ys, ih.mpr hys, rfl⟩⟩

/-- What is matched element by element has an element on the left for each on the right. -/
theorem exists_left_of_mem {R : τ → σ → Prop} {xs : List τ} {ys : List σ} (h : List.Forall₂ R xs ys)
    {y : σ} (hy : y ∈ ys) : ∃ x ∈ xs, R x y := by
  obtain ⟨i, hi, rfl⟩ := List.getElem_of_mem hy
  have hi' : i < xs.length := h.length_eq ▸ hi
  exact ⟨xs[i], List.getElem_mem hi', h.get hi' hi⟩

/-- Where matching elements have the same image, the lists have. -/
theorem map_eq_of_forall₂ {μ : Type} {f : τ → μ} {g : σ → μ} {xs : List τ} {ys : List σ}
    (h : List.Forall₂ (fun x y => g y = f x) xs ys) : ys.map g = xs.map f := by
  induction h with
  | nil => rfl
  | cons hxy _ ih => rw [List.map_cons, List.map_cons, hxy, ih]

/-- What matches two lists one after the other falls into two parts. -/
theorem exists_append_of_forall₂ {R : τ → σ → Prop} {xs xs' : List τ} {ys : List σ}
    (h : List.Forall₂ R (xs ++ xs') ys) :
    ∃ zs zs', ys = zs ++ zs' ∧ List.Forall₂ R xs zs ∧ List.Forall₂ R xs' zs' := by
  refine ⟨ys.take xs.length, ys.drop xs.length, (List.take_append_drop _ _).symm, ?_, ?_⟩
  · simpa only [List.take_left] using List.forall₂_take xs.length h
  · simpa only [List.drop_left] using List.forall₂_drop xs.length h

theorem exists_of_mem_mapM {f : τ → Except ε σ} {xs : List τ} {ys : List σ}
    (h : xs.mapM f = .ok ys) {y : σ} (hy : y ∈ ys) : ∃ x ∈ xs, f x = .ok y :=
  exists_left_of_mem (mapM_eq_ok.mp h) hy

theorem mem_of_mapM {f : τ → Except ε σ} {xs : List τ} {ys : List σ} (h : xs.mapM f = .ok ys)
    {x : τ} {y : σ} (hx : x ∈ xs) (hy : f x = .ok y) : y ∈ ys := by
  obtain ⟨z, hz, hxz⟩ := exists_left_of_mem (mapM_eq_ok.mp h).flip hx
  cases hxz.symm.trans hy
  exact hz

theorem mapM_ok {f : τ → Except ε σ} {xs : List τ} (h : ∀ x ∈ xs, ∃ y, f x = .ok y) :
    ∃ ys, xs.mapM f = .ok ys := by
  induction xs with
  | nil => exact ⟨[], rfl⟩
  | cons x xs ih =>
      obtain ⟨y, hy⟩ := h x List.mem_cons_self
      obtain ⟨ys, hys⟩ := ih fun a ha => h a (List.mem_cons_of_mem x ha)
      exact ⟨y :: ys, mapM_eq_ok.mpr (.cons hy (mapM_eq_ok.mp hys))⟩

/-- Steps that give `g` of their input where `P` holds of it, and nothing where not. -/
theorem mapM_eq_ok_iff {f : τ → Except ε σ} {P : τ → Prop} {g : τ → σ} {xs : List τ} {ys : List σ}
    (h : ∀ x ∈ xs, ∀ y, f x = .ok y ↔ P x ∧ g x = y) :
    xs.mapM f = .ok ys ↔ (∀ x ∈ xs, P x) ∧ xs.map g = ys := by
  induction xs generalizing ys with
  | nil =>
      rw [List.mapM_nil]
      exact ⟨fun hnil => ⟨nofun, Except.ok.inj hnil⟩, fun hnil => congrArg Except.ok hnil.2⟩
  | cons x xs ih =>
      have hx := h x List.mem_cons_self
      have hrest : ∀ {ys}, xs.mapM f = .ok ys ↔ (∀ x ∈ xs, P x) ∧ xs.map g = ys :=
        ih fun a ha => h a (List.mem_cons_of_mem x ha)
      rw [List.mapM_cons]
      constructor
      · intro hys
        obtain ⟨y, hy, hys⟩ := bind_eq_ok.mp hys
        obtain ⟨ys, hys', hcons⟩ := bind_eq_ok.mp hys
        cases hcons
        obtain ⟨hp, rfl⟩ := (hx y).mp hy
        obtain ⟨hps, rfl⟩ := hrest.mp hys'
        exact ⟨List.forall_mem_cons.mpr ⟨hp, hps⟩, rfl⟩
      · rintro ⟨hall, rfl⟩
        obtain ⟨hp, hps⟩ := List.forall_mem_cons.mp hall
        exact bind_eq_ok.mpr ⟨_, (hx _).mpr ⟨hp, rfl⟩,
          bind_eq_ok.mpr ⟨_, hrest.mpr ⟨hps, rfl⟩, rfl⟩⟩

/-- If steps after each other fail, one of them does. -/
theorem exists_of_foldlM_error {f : σ → τ → Except ε σ} {xs : List τ} {y : σ} {e : ε}
    (h : xs.foldlM f y = .error e) : ∃ x ∈ xs, ∃ z, f z x = .error e := by
  induction xs generalizing y with
  | nil => cases h
  | cons x xs ih =>
      rw [List.foldlM_cons] at h
      cases hy : f y x with
      | error e' =>
          rw [hy] at h
          cases h
          exact ⟨x, List.mem_cons_self, y, hy⟩
      | ok z =>
          rw [hy] at h
          obtain ⟨a, ha, hfault⟩ := ih h
          exact ⟨a, List.mem_cons_of_mem x ha, hfault⟩

theorem toOption_eq_some_iff {m : Except ε τ} {x : τ} :
    m.toOption = some x ↔ m = .ok x := by
  cases m with
  | error e => exact ⟨nofun, nofun⟩
  | ok y => exact ⟨fun h => congrArg _ (Option.some.inj h), fun h => congrArg _ (Except.ok.inj h)⟩

end BorderTiles
