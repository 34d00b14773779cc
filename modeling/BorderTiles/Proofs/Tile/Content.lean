import BorderTiles.Proofs.Fractions
import BorderTiles.Proofs.Results
import BorderTiles.Proofs.Settings
import BorderTiles.Proofs.Table
import BorderTiles.Tile.Content
import Mathlib.Data.List.Nodup

/-!
# Tile — what is drawn together

The features of a tile fall into classes, and a class is drawn as if there were no other.

* `Value.key?` is what a value counts as among attributes; `Value.same_iff`: values are the same if they
  count as the same.
* `Alike f g`: the features have the same layer, and the same attributes in whatever order.
  `alike_iff_signature`: so their attributes, in the order of their names, count as the same.
* `firsts` are the features with none like them before, one for each class.
* `foldl_enter_cons`: features entered into classes go to the first one if they are like it, and among
  the others if not.  So the classes are those of `firsts` (`foldl_enter_eq`).
* `content_sorted`: the order in which attributes were set does not matter.

`content_classed` puts this together.
-/

namespace BorderTiles

namespace Value

/-! ### Values as keys -/

/-- What a value counts as: null, a text, or the exact value of a number or truth value. -/
inductive Key where
  | null
  | text (s : String)
  | number (e : Number.Extent)
  deriving DecidableEq

/-- The key of a value.  Compound values and NaN have none. -/
def key? : Value → Option Key
  | null => some .null
  | text s => some (.text s)
  | v => (v.asNumber?.bind Number.extent?).map .number

/-- **Values are the same if they count as the same.** -/
theorem same_iff {v w : Value} (hv : v.key?.isSome) : v.same w = true ↔ v.key? = w.key? := by
  have hnumber : ∀ m n : Number, m.extent? ≠ none →
      (m.same n = true ↔ m.extent?.map Key.number = n.extent?.map Key.number) := by
    intro m n hm
    obtain ⟨e, he⟩ := Option.ne_none_iff_exists'.mp hm
    cases hn : n.extent? <;> simp [Number.same, he, hn]
  cases v <;> cases w <;> simp_all [same, key?, asNumber?, Option.isSome_iff_ne_none]

example : key? (.bool true) = key? (.whole 1) := rfl

end Value

namespace Tile
variable {α : Type}

/-! ### The order of attributes -/

theorem perm_ordered (attrs : Table String Value) : (ordered attrs).Perm attrs.entries :=
  List.mergeSort_perm _ _

theorem pairwise_ordered (attrs : Table String Value) :
    (ordered attrs).Pairwise fun a b => a.1 ≤ b.1 := by
  have h : (ordered attrs).Pairwise fun a b => decide (a.1 ≤ b.1) := by
    refine List.pairwise_mergeSort (fun a b c hab hbc => ?_) (fun a b => ?_) attrs.entries
    · exact decide_eq_true (String.le_trans (of_decide_eq_true hab) (of_decide_eq_true hbc))
    · simpa using String.le_total a.1 b.1
  exact h.imp of_decide_eq_true

/-- There is one order of different names. -/
theorem eq_of_ordered {τ : Type} {l m : List (String × τ)} (hl : l.Pairwise fun a b => a.1 ≤ b.1)
    (hm : m.Pairwise fun a b => a.1 ≤ b.1) (hn : (l.map Prod.fst).Nodup) (hp : l.Perm m) : l = m := by
  refine hp.eq_of_pairwise (fun a b ha hb hab hba => ?_) hl hm
  exact List.inj_on_of_nodup_map hn ha (hp.mem_iff.mpr hb) (String.le_antisymm hab hba)

theorem ordered_congr {a b : Table String Value} (h : a.entries.Perm b.entries) :
    ordered a = ordered b :=
  eq_of_ordered (pairwise_ordered a) (pairwise_ordered b) (nodup_ordered a)
    ((perm_ordered a).trans (h.trans (perm_ordered b).symm))

theorem ordered_sorted (attrs : Table String Value) : ordered (sorted attrs) = ordered attrs :=
  ordered_congr (perm_ordered attrs)

/-- What attributes are in comparisons: their names in order, and what their values count as. -/
def keys (attrs : Table String Value) : List (String × Option Value.Key) :=
  (ordered attrs).map fun e => (e.1, e.2.key?)

theorem keys_eq_iff {a b : Table String Value} :
    keys a = keys b ↔ ∀ name, (a.get? name).map Value.key? = (b.get? name).map Value.key? := by
  have hperm : ∀ t : Table String Value, (keys t).Perm (t.mapValues Value.key?).entries :=
    fun t => (perm_ordered t).map _
  have hordered : ∀ t : Table String Value, (keys t).Pairwise fun a b => a.1 ≤ b.1 :=
    fun t => List.pairwise_map.mpr (pairwise_ordered t)
  have hnodup : ((keys a).map Prod.fst).Nodup :=
    ((hperm a).map Prod.fst).nodup_iff.mpr (a.mapValues Value.key?).nodup
  simp only [← Table.get?_mapValues, ← Table.perm_entries_iff]
  constructor
  · intro h
    exact (hperm a).symm.trans (h ▸ hperm b)
  · intro h
    exact eq_of_ordered (hordered a) (hordered b) hnodup
      ((hperm a).trans (h.trans (hperm b).symm))

/-- Attributes that can be compared: none is compound, and none is NaN. -/
def Keyed (attrs : Table String Value) : Prop :=
  ∀ name v, attrs.get? name = some v → v.key?.isSome

/-- Attributes of which none is compound. -/
def Plain (attrs : Table String Value) : Prop :=
  ∀ name v, attrs.get? name = some v → v.compound = false

theorem Keyed.plain {attrs : Table String Value} (h : Keyed attrs) : Plain attrs := by
  intro name v hv
  have hkey := h name v hv
  cases v with
  | list | object => cases hkey
  | _ => rfl

theorem mem_ordered {attrs : Table String Value} {name : String} {v : Value} :
    (name, v) ∈ ordered attrs ↔ attrs.get? name = some v :=
  (perm_ordered attrs).mem_iff.trans Table.mem_entries_iff

theorem Keyed.of_mem {attrs : Table String Value} (h : Keyed attrs) :
    ∀ e ∈ ordered attrs, e.2.key?.isSome :=
  fun e he => h e.1 e.2 (mem_ordered.mp he)

theorem checkKeys_eq_ok {l : List (String × Value)} :
    checkKeys l = .ok () ↔ ∀ e ∈ l, e.2.compound = false := by
  induction l with
  | nil => exact ⟨fun _ => nofun, fun _ => rfl⟩
  | cons e rest ih =>
      obtain ⟨name, v⟩ := e
      rw [List.forall_mem_cons, ← ih]
      cases v with
      | list | object => exact ⟨nofun, fun h => nomatch h.1⟩
      | _ => exact (and_iff_right rfl).symm

theorem checkKeys_ordered {attrs : Table String Value} :
    checkKeys (ordered attrs) = .ok () ↔ Plain attrs := by
  rw [checkKeys_eq_ok]
  exact ⟨fun h name v hv => h (name, v) (mem_ordered.mpr hv),
    fun h e he => h e.1 e.2 (mem_ordered.mp he)⟩

theorem sameAttrs_iff {l m : List (String × Value)} (h : ∀ e ∈ l, e.2.key?.isSome) :
    sameAttrs l m = true ↔
      l.map (fun e => (e.1, e.2.key?)) = m.map fun e => (e.1, e.2.key?) := by
  induction l generalizing m with
  | nil => cases m <;> simp [sameAttrs]
  | cons e l ih =>
      obtain ⟨hv, hl⟩ := List.forall_mem_cons.mp h
      cases m with
      | nil => simp [sameAttrs]
      | cons e' m =>
          rw [sameAttrs, Bool.and_eq_true, Bool.and_eq_true, beq_iff_eq, Value.same_iff hv, ih hl]
          simp

/-! ### Classes -/

/-- Features that are drawn together: they have the same layer, and under each name values that count
as the same. -/
def Alike (f g : Feature α) : Prop :=
  f.layer = g.layer ∧
    ∀ name, (f.attrs.get? name).map Value.key? = (g.attrs.get? name).map Value.key?

theorem Alike.refl (f : Feature α) : Alike f f := ⟨rfl, fun _ => rfl⟩

theorem Alike.symm {f g : Feature α} (h : Alike f g) : Alike g f :=
  ⟨h.1.symm, fun name => (h.2 name).symm⟩

theorem Alike.trans {f g h : Feature α} (hfg : Alike f g) (hgh : Alike g h) : Alike f h :=
  ⟨hfg.1.trans hgh.1, fun name => (hfg.2 name).trans (hgh.2 name)⟩

theorem alike_iff_perm {f g : Feature α} :
    Alike f g ↔ f.layer = g.layer ∧ (f.attrs.mapValues Value.key?).entries.Perm
      (g.attrs.mapValues Value.key?).entries := by
  simp only [Alike, Table.perm_entries_iff, Table.get?_mapValues]

theorem alike_iff_signature {f g : Feature α} :
    Alike f g ↔ (f.layer, keys f.attrs) = (g.layer, keys g.attrs) := by
  rw [Alike, Prod.mk.injEq, keys_eq_iff]

instance : DecidableRel (@Alike α) := fun _ _ => decidable_of_iff _ alike_iff_perm.symm

/-- The lines of a feature. -/
def featureLines (f : Feature α) : List (Line α) := (f.geometry.map Geometry.lineParts).getD []

/-- The lines of the features like `f`. -/
def linesAlike (features : List (Feature α)) (f : Feature α) : List (Line α) :=
  (features.filter fun g => Alike f g).flatMap featureLines

/-- The features with none like them before. -/
def firsts : List (Feature α) → List (Feature α)
  | [] => []
  | f :: rest => f :: (firsts rest).filter fun g => ¬ Alike f g

/-- The class of `f` among features. -/
def classOf (features : List (Feature α)) (f : Feature α) : Class α :=
  ⟨f.layer, f.attrs, f.id, linesAlike features f⟩

theorem firsts_sublist (features : List (Feature α)) : (firsts features).Sublist features := by
  induction features with
  | nil => exact .slnil
  | cons f rest ih => exact (List.filter_sublist.trans ih).cons_cons f

theorem pairwise_firsts (features : List (Feature α)) :
    (firsts features).Pairwise fun f g => ¬ Alike f g := by
  induction features with
  | nil => exact .nil
  | cons f rest ih =>
      refine List.pairwise_cons.mpr ⟨fun g hg => ?_, ih.filter _⟩
      simpa using (List.mem_filter.mp hg).2

theorem exists_firsts {features : List (Feature α)} {f : Feature α} (hf : f ∈ features) :
    ∃ h ∈ firsts features, Alike h f := by
  induction features with
  | nil => cases hf
  | cons g rest ih =>
      by_cases hgf : Alike g f
      · exact ⟨g, List.mem_cons_self, hgf⟩
      · have hrest : f ∈ rest := by
          rcases List.mem_cons.mp hf with rfl | hrest
          · exact absurd (Alike.refl f) hgf
          · exact hrest
        obtain ⟨h, hh, hhf⟩ := ih hrest
        have hgh : ¬ Alike g h := fun hgh => hgf (hgh.trans hhf)
        exact ⟨h, List.mem_cons_of_mem g (List.mem_filter.mpr ⟨hh, by simpa using hgh⟩), hhf⟩

/-- **Every feature is in one class.** -/
theorem existsUnique_firsts {features : List (Feature α)} {f : Feature α} (hf : f ∈ features) :
    ∃! h, h ∈ firsts features ∧ Alike h f := by
  obtain ⟨h, hh, hhf⟩ := exists_firsts hf
  refine ⟨h, ⟨hh, hhf⟩, fun h' hh' => ?_⟩
  by_contra hne
  have : Std.Symm fun f g : Feature α => ¬ Alike f g := ⟨fun _ _ hno hyes => hno hyes.symm⟩
  exact (pairwise_firsts features).forall hh'.1 hh hne (hh'.2.trans hhf.symm)

/-- A class is named for its first feature. -/
theorem find?_of_mem_firsts {features : List (Feature α)} {h : Feature α} (hh : h ∈ firsts features) :
    (features.find? fun g => Alike h g) = some h := by
  induction features with
  | nil => cases hh
  | cons f rest ih =>
      rcases List.mem_cons.mp hh with rfl | hh
      · exact List.find?_cons_of_pos (decide_eq_true (Alike.refl h))
      · obtain ⟨hh, hfh⟩ := List.mem_filter.mp hh
        have hhf : ¬ Alike h f := fun hhf => of_decide_eq_true hfh hhf.symm
        rw [List.find?_cons_of_neg (by simpa using hhf), ih hh]

/-- Features like `f` are left out before or after. -/
theorem firsts_filter (f : Feature α) (features : List (Feature α)) :
    firsts (features.filter fun g => ¬ Alike f g) =
      (firsts features).filter fun g => ¬ Alike f g := by
  induction features with
  | nil => rfl
  | cons g rest ih =>
      by_cases hfg : Alike f g
      · -- what is like `g` is like `f`
        have hlike : ∀ h : Feature α, Alike g h ↔ Alike f h :=
          fun h => ⟨hfg.trans, hfg.symm.trans⟩
        simp only [hfg, not_true_eq_false, decide_false, List.filter_cons, Bool.false_eq_true,
          if_false, firsts, ih, hlike, List.filter_filter, Bool.and_self]
      · simp only [hfg, not_false_eq_true, decide_true, List.filter_cons, if_true, firsts, ih,
          List.filter_filter, Bool.and_comm]

/-- The class of a feature that is not like `f`. -/
theorem linesAlike_filter {f h : Feature α} (hfh : ¬ Alike f h) (features : List (Feature α)) :
    linesAlike (features.filter fun g => ¬ Alike f g) h = linesAlike features h := by
  rw [linesAlike, linesAlike, List.filter_filter]
  congr 1
  refine List.filter_congr fun g _ => ?_
  by_cases hhg : Alike h g
  · have hfg : ¬ Alike f g := fun hfg => hfh (hfg.trans hhg.symm)
    simp [hhg, hfg]
  · simp [hhg]

/-! ### Features entered into classes -/

/-- A feature entered with its lines. -/
def enterLines (found : List (Class α)) (f : Feature α) : List (Class α) :=
  enter f (featureLines f) found

/-- A class takes the features that are like the feature it is named for. -/
theorem enter_cons {f g : Feature α} (hf : Keyed f.attrs) (id : Option Int)
    (lines new : List (Line α)) (rest : List (Class α)) :
    enter g new (⟨f.layer, f.attrs, id, lines⟩ :: rest) =
      if Alike f g then ⟨f.layer, f.attrs, id, lines ++ new⟩ :: rest
      else ⟨f.layer, f.attrs, id, lines⟩ :: enter g new rest := by
  have hlike : (f.layer == g.layer && sameAttrs (ordered f.attrs) (ordered g.attrs)) = true ↔
      Alike f g := by
    rw [Bool.and_eq_true, beq_iff_eq, sameAttrs_iff hf.of_mem, alike_iff_signature,
      Prod.mk.injEq, keys, keys]
  simp only [enter, hlike]

/-- **Features are entered** into the first class if they are like it, and among the others if not. -/
theorem foldl_enter_cons {f : Feature α} (hf : Keyed f.attrs) (id : Option Int)
    (lines : List (Line α)) (rest : List (Class α)) (features : List (Feature α)) :
    features.foldl enterLines (⟨f.layer, f.attrs, id, lines⟩ :: rest) =
      ⟨f.layer, f.attrs, id, lines ++ linesAlike features f⟩ ::
        (features.filter fun g => ¬ Alike f g).foldl enterLines rest := by
  induction features generalizing lines rest with
  | nil => simp [linesAlike]
  | cons g features ih =>
      rw [List.foldl_cons, enterLines, enter_cons hf]
      by_cases hfg : Alike f g
      · rw [if_pos hfg, ih]
        simp [linesAlike, hfg]
      · rw [if_neg hfg, ih]
        simp [linesAlike, hfg, enterLines]

/-- **The classes of features** are those of the first features of their kind. -/
theorem foldl_enter_eq (features : List (Feature α)) (h : ∀ f ∈ features, Keyed f.attrs) :
    features.foldl enterLines [] = (firsts features).map (classOf features) := by
  match features, h with
  | [], _ => rfl
  | f :: rest, h =>
      obtain ⟨hf, hrest⟩ := List.forall_mem_cons.mp h
      have hothers := foldl_enter_eq (rest.filter fun g => ¬ Alike f g)
        fun g hg => hrest g (List.mem_of_mem_filter hg)
      have hfirst : featureLines f ++ linesAlike rest f = linesAlike (f :: rest) f := by
        simp [linesAlike, Alike.refl f]
      rw [List.foldl_cons, enterLines, enter, foldl_enter_cons hf, hothers, hfirst, firsts,
        List.map_cons, firsts_filter]
      refine congrArg (classOf (f :: rest) f :: ·) (List.map_congr_left fun g hg => ?_)
      have hfg : ¬ Alike f g := by simpa using (List.mem_filter.mp hg).2
      have hself : ¬ Alike g f := fun hgf => hfg hgf.symm
      rw [classOf, linesAlike_filter hfg, classOf]
      simp [linesAlike, hself]
termination_by features.length
decreasing_by exact Nat.lt_succ_of_le (List.length_filter_le _ _)

theorem classify_eq_ok {found result : List (Class α)} {f : Feature α} :
    classify found f = .ok result ↔
      (Plain f.attrs ∧ f.geometry.isSome) ∧ result = enterLines found f := by
  rw [classify, bind_eq_ok, ← checkKeys_ordered, enterLines, featureLines]
  cases f.geometry with
  | none =>
      constructor
      · rintro ⟨_, -, h⟩
        cases h
      · rintro ⟨⟨-, h⟩, -⟩
        cases h
  | some g =>
      constructor
      · rintro ⟨_, hkeys, h⟩
        exact ⟨⟨hkeys, rfl⟩, (Except.ok.inj h).symm⟩
      · rintro ⟨⟨hkeys, -⟩, rfl⟩
        exact ⟨(), hkeys, rfl⟩

/-- Features are entered if each has a geometry, and attributes that are not compound. -/
theorem foldlM_classify_eq_ok {features : List (Feature α)} {found result : List (Class α)} :
    features.foldlM classify found = .ok result ↔
      (∀ f ∈ features, Plain f.attrs ∧ f.geometry.isSome) ∧
        result = features.foldl enterLines found := by
  induction features generalizing found with
  | nil => exact ⟨fun hok => ⟨nofun, (Except.ok.inj hok).symm⟩, fun hok => congrArg Except.ok hok.2.symm⟩
  | cons f rest ih =>
      rw [List.foldlM_cons, bind_eq_ok, List.forall_mem_cons, List.foldl_cons]
      simp only [classify_eq_ok, ih]
      constructor
      · rintro ⟨_, ⟨hf, rfl⟩, hrest, hresult⟩
        exact ⟨⟨hf, hrest⟩, hresult⟩
      · rintro ⟨⟨hf, hrest⟩, hresult⟩
        exact ⟨_, ⟨hf, rfl⟩, hrest, hresult⟩

/-! ### Attributes set in another order -/

/-- A feature with its attributes in the order of their names. -/
def sortedFeature (f : Feature α) : Feature α := { f with attrs := sorted f.attrs }

/-- A class with its attributes in the order of their names. -/
def sortedClass (c : Class α) : Class α := { c with attrs := sorted c.attrs }

/-- The second feature is the first one, with its attributes set in another order perhaps. -/
def Reordered (f g : Feature α) : Prop :=
  ∃ attrs : Table String Value, attrs.entries.Perm f.attrs.entries ∧ g = { f with attrs := attrs }

theorem sortedFeature_of_reordered {f g : Feature α} (h : Reordered f g) :
    sortedFeature g = sortedFeature f := by
  obtain ⟨attrs, hperm, rfl⟩ := h
  have hsorted : sorted attrs = sorted f.attrs := Table.ext (ordered_congr hperm)
  rw [sortedFeature, sortedFeature, hsorted]

theorem alike_of_reordered {f f' g g' : Feature α} (hf : Reordered f f') (hg : Reordered g g') :
    Alike f' g' ↔ Alike f g := by
  obtain ⟨a, ha, rfl⟩ := hf
  obtain ⟨b, hb, rfl⟩ := hg
  simp only [alike_iff_signature, keys, ordered_congr ha, ordered_congr hb]

theorem enter_sorted (f : Feature α) (lines : List (Line α)) (found : List (Class α)) :
    enter (sortedFeature f) lines (found.map sortedClass) = (enter f lines found).map sortedClass := by
  induction found with
  | nil => rfl
  | cons c rest ih =>
      rw [List.map_cons, enter, enter, ih]
      simp only [sortedFeature, sortedClass, ordered_sorted]
      split <;> rfl

theorem classify_sorted (found : List (Class α)) (f : Feature α) :
    classify (found.map sortedClass) (sortedFeature f) =
      (classify found f).map (List.map sortedClass) := by
  have hchecked : checkKeys (ordered (sortedFeature f).attrs) = checkKeys (ordered f.attrs) :=
    congrArg checkKeys (ordered_sorted f.attrs)
  rw [classify, classify, hchecked]
  cases checkKeys (ordered f.attrs) with
  | error fault => rfl
  | ok _ =>
      obtain ⟨layer, geometry, attrs, minZoom, maxZoom, buffer, id⟩ := f
      cases geometry with
      | none => rfl
      | some g => exact congrArg Except.ok (enter_sorted _ g.lineParts found)

theorem classes_sorted (features : List (Feature α)) :
    classes (features.map sortedFeature) = (classes features).map (List.map sortedClass) := by
  have hfold : ∀ found : List (Class α),
      (features.map sortedFeature).foldlM classify (found.map sortedClass) =
        (features.foldlM classify found).map (List.map sortedClass) := by
    induction features with
    | nil => exact fun _ => rfl
    | cons f rest ih =>
        intro found
        rw [List.map_cons, List.foldlM_cons, List.foldlM_cons, classify_sorted]
        cases classify found f with
        | error fault => rfl
        | ok next => exact ih next
  exact hfold []

theorem drawClass_sorted (work : LineWork α) (tolerance : α) (c : Class α) :
    drawClass work tolerance (sortedClass c) = drawClass work tolerance c := by
  have hproperties : (sortedClass c).properties = c.properties := by
    have hsorted : sorted (sorted c.attrs) = sorted c.attrs := Table.ext (ordered_sorted c.attrs)
    rw [Class.properties, Class.properties, sortedClass, hsorted]
  rw [drawClass, drawClass, hproperties]
  rfl

variable [Mercator α]

/-- **The order in which attributes were set does not matter.** -/
theorem content_sorted (work : LineWork α) (features : List (Feature α)) (zoom : Int) :
    content work (features.map sortedFeature) zoom = content work features zoom := by
  rw [content, content, classes_sorted]
  cases Mercator.degreesPerPixel (α := α) (.whole zoom) with
  | error fault => rfl
  | ok size =>
      cases classes features with
      | error fault => rfl
      | ok found =>
          refine congrArg Except.ok ?_
          rw [List.flatMap_map]
          simp only [drawClass_sorted]

theorem content_of_reordered (work : LineWork α) {features others : List (Feature α)}
    (h : List.Forall₂ Reordered features others) (zoom : Int) :
    content work others zoom = content work features zoom := by
  have hsorted : others.map sortedFeature = features.map sortedFeature :=
    map_eq_of_forall₂ (h.imp fun _ _ => sortedFeature_of_reordered)
  rw [← content_sorted, hsorted, content_sorted]

/-! ### What is drawn -/

/-- What is drawn of the features like `f`, if it is the first of them: their joined lines, simplified,
as far as two points are left, with the attributes of `f`, its layer and its id. -/
def drawAlike (work : LineWork α) (tolerance : α) (features : List (Feature α)) (f : Feature α) :
    List (Drawn α) :=
  (((work.merge (linesAlike features f)).map (work.simplify tolerance)).filter (2 ≤ ·.length)).map
    fun line => ⟨f.id, (sorted f.attrs).put "layer" (.text f.layer), line⟩

omit [Mercator α] in
theorem drawClass_classOf (work : LineWork α) (tolerance : α) (features : List (Feature α))
    (f : Feature α) :
    drawClass work tolerance (classOf features f) = drawAlike work tolerance features f := by
  rw [drawClass, drawAlike, classOf]
  dsimp only
  induction work.merge (linesAlike features f) with
  | nil => rfl
  | cons line rest ih =>
      rw [List.filterMap_cons, List.map_cons, List.filter_cons, ih]
      by_cases hfew : (work.simplify tolerance line).length < 2
      · rw [if_pos hfew, if_neg fun h => Nat.not_le.mpr hfew (of_decide_eq_true h)]
      · rw [if_neg hfew, if_pos (decide_eq_true (Nat.not_lt.mp hfew))]
        rfl

/-- What is shown is what is drawn of the classes. -/
theorem content_eq_ok_iff {work : LineWork α} {features : List (Feature α)} {zoom : Int}
    {lines : List (Drawn α)} : content work features zoom = .ok lines ↔
    (∀ f ∈ features, Plain f.attrs ∧ f.geometry.isSome) ∧
      ∃ size, Mercator.degreesPerPixel (.whole zoom) = .ok size ∧
        (features.foldl enterLines []).flatMap
          (drawClass work (Zooms.pixelTolerance zoom * size)) = lines := by
  rw [content, bind_eq_ok]
  simp only [bind_eq_ok, classes, foldlM_classify_eq_ok]
  constructor
  · rintro ⟨size, hsize, _, ⟨hfeatures, rfl⟩, hlines⟩
    exact ⟨hfeatures, size, hsize, Except.ok.inj hlines⟩
  · rintro ⟨hfeatures, size, hsize, rfl⟩
    exact ⟨size, hsize, _, ⟨hfeatures, rfl⟩, rfl⟩

theorem content_eq_ok (work : LineWork α) {features : List (Feature α)}
    (h : ∀ f ∈ features, Keyed f.attrs) (zoom : Int) (lines : List (Drawn α)) :
    content work features zoom = .ok lines ↔
      (∀ f ∈ features, f.geometry.isSome) ∧
        ∃ size, Mercator.degreesPerPixel (.whole zoom) = .ok size ∧
          lines = (firsts features).flatMap
            (drawAlike work (Zooms.pixelTolerance zoom * size) features) := by
  have hdraw : ∀ tolerance : α, (features.foldl enterLines []).flatMap (drawClass work tolerance) =
      (firsts features).flatMap (drawAlike work tolerance features) := by
    intro tolerance
    rw [foldl_enter_eq features h, List.flatMap_map]
    simp only [drawClass_classOf]
  rw [content_eq_ok_iff]
  refine and_congr (forall₂_congr fun f hf => and_iff_right (h f hf).plain)
    (exists_congr fun size => and_congr_right fun _ => ?_)
  rw [hdraw, eq_comm]

omit [Mercator α] in
theorem get?_sorted (attrs : Table String Value) (name : String) :
    (sorted attrs).get? name = attrs.get? name :=
  Table.perm_entries_iff.mp (perm_ordered attrs) name

/-- What a tile shows of features falls into classes. -/
structure Classed (work : LineWork α) (features : List (Feature α)) (zoom : Int) : Prop where
  /-- There is something to show if every feature has a geometry and the zoom has pixels: of each class,
  in the order of their first features, what its lines are joined and simplified to. -/
  content : ∀ lines, Tile.content work features zoom = .ok lines ↔
    (∀ f ∈ features, f.geometry.isSome) ∧
      ∃ size, Mercator.degreesPerPixel (.whole zoom) = .ok size ∧
        lines = (firsts features).flatMap (drawAlike work (Zooms.pixelTolerance zoom * size) features)
  /-- Every feature is in the class of one of them. -/
  partition : ∀ f ∈ features, ∃! h, h ∈ firsts features ∧ Alike h f
  first : ∀ h ∈ firsts features, (features.find? fun f => Alike h f) = some h
  order : (firsts features).Sublist features
  /-- A line that is drawn has the attributes and the id of the first feature of its class. -/
  properties : ∀ tolerance, ∀ f ∈ firsts features, ∀ line ∈ drawAlike work tolerance features f,
    line.id = f.id ∧ ∀ name, line.properties.get? name =
      if name = "layer" then some (.text f.layer) else f.attrs.get? name
  /-- Attributes may have been set in any order. -/
  reordered : ∀ others, List.Forall₂ Reordered features others →
    Tile.content work others zoom = Tile.content work features zoom
  classes : ∀ f f' g g' : Feature α, Reordered f f' → Reordered g g' → (Alike f' g' ↔ Alike f g)

/-- **A tile shows each class of features as if there were no other.** -/
theorem content_classed (work : LineWork α) (features : List (Feature α)) (zoom : Int)
    (hkeys : ∀ f ∈ features, Keyed f.attrs) : Classed work features zoom where
  content := content_eq_ok work hkeys zoom
  partition _ hf := existsUnique_firsts hf
  first _ hh := find?_of_mem_firsts hh
  order := firsts_sublist features
  properties := by
    intro tolerance f _ line hline
    obtain ⟨l, -, rfl⟩ := List.mem_map.mp hline
    refine ⟨rfl, fun name => ?_⟩
    rw [Table.get?_put, get?_sorted]
  reordered _ h := content_of_reordered work h zoom
  classes _ _ _ _ := alike_of_reordered

/-- Four borders.  Of those with the same attributes the first has no line. -/
def borders : List (Feature Rat) :=
  let border (id : Option Int) (geometry : Geometry Rat) (attrs : List (String × Value)) :
      Feature Rat :=
    ⟨"boundary", some geometry, .ofList attrs, 0, 14, .whole 4, id⟩
  [border none (.many .mixed []) [("admin_level", .whole 1), ("name", .text "A")],
    border (some 7) (.line [⟨0, 0, none⟩, ⟨1, 0, none⟩])
      [("name", .text "A"), ("admin_level", .bool true)],
    border (some 8) (.line [⟨0, 1, none⟩, ⟨1, 1, none⟩])
      [("admin_level", .whole 2), ("name", .text "A")],
    border (some 9) (.line [⟨1, 0, none⟩, ⟨2, 0, none⟩])
      [("admin_level", .number (.binary 1.0)), ("name", .text "A")]]

/-- Three of them are drawn as one line, without an id. -/
theorem content_classed_borders : Classed (.ofKernel Kernel.upright) borders 3 ∧
    (content (.ofKernel Kernel.upright) borders 3).map (List.map fun d => (d.id, d.line)) =
      .ok [(none, [⟨0, 0, none⟩, ⟨1, 0, none⟩, ⟨2, 0, none⟩]),
        (some 8, [⟨0, 1, none⟩, ⟨1, 1, none⟩])] := by
  have hkeys : ∀ f ∈ borders, ∀ e ∈ f.attrs.entries, e.2.key?.isSome := by decide +kernel
  have hclassed := content_classed (.ofKernel Kernel.upright) borders 3 fun f hf name v hv =>
    hkeys f hf (name, v) (Table.mem_entries_iff.mpr hv)
  have hcontent := (hclassed.content _).mpr ⟨by decide, 45 / 256, by decide +kernel, rfl⟩
  refine ⟨hclassed, ?_⟩
  rw [hcontent]
  exact congrArg Except.ok (by decide +kernel)

end Tile
end BorderTiles
