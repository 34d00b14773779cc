import BorderTiles.Plane.Kernel
import BorderTiles.Proofs.Exact
import BorderTiles.Proofs.Mercator
import Mathlib.Algebra.Order.Field.Rat
import Mathlib.Data.Rat.Floor

/-!
# Scalar — fractions

The numbers of the library read over the fractions, and a plane geometry over them that is exact where
it is used: on lines along meridians and parallels.

* `depth` and `latitude` are linear, which is the projection itself at the equator and at the limits
  of the map.
* `hypotenuse` adds the sides, which is the diagonal where one of them is zero.
* `exact_rat`: with these maps, fractions are exact.
* `Kernel.upright` joins a line to the next one where that starts where the first one ends, and knows
  an area by the box around its outline.
-/

namespace BorderTiles

instance : Scalar Rat where
  ofNat n := n
  ofNumber
    | .whole n => .ok n
    | .binary x =>
      match Number.Binary.ofFloat? x with
      | some b => .ok b.toRat
      | none => .error .wholeOfInfinity
  lt a b := a < b
  eq a b := a = b
  truncate x := .ok (x.num.tdiv x.den)
  hypotenuse a b := |a| + |b|
  twoPow
    | .whole n => .ok (2 ^ n)
    | .binary _ => .error .powerRange

instance : Mercator Rat where
  limit := 850511287798066 / 10000000000000
  depth lat := (1 - lat / (850511287798066 / 10000000000000)) / 2
  latitude y := .ok (850511287798066 / 10000000000000 * (1 - 2 * y))

theorem finite_rat (x : Rat) : Scalar.Finite x := by
  show decide (x - x = ((0 : Nat) : Rat)) = true
  simp

theorem reversible_rat : Mercator.Reversible Rat := fun _ => ⟨_, rfl⟩

theorem shares_rat (n : Nat) : Scalar.Shares Rat n := fun _ _ _ _ _ => ⟨_, rfl⟩

/-- With fractions there is nothing that the projection cannot undo. -/
theorem regular_rat (size : Nat) : Mercator.Regular Rat size where
  reversible := reversible_rat
  latitude_middle _ _ := ⟨_, rfl⟩
  zero_eq := rfl
  shares n _ := shares_rat n

theorem wholePart_rat (x : Rat) : WholePart x (x.num.tdiv x.den) := by
  have hfloor : ∀ y : Rat, 0 ≤ y → y.num.tdiv y.den = ⌊y⌋ := by
    intro y hy
    rw [Int.tdiv_eq_ediv_of_nonneg (Rat.num_nonneg.mpr hy), Rat.floor_def']
  constructor
  · intro hx
    rw [hfloor x hx]
    exact ⟨Int.floor_le x, Int.lt_floor_add_one x⟩
  · intro hx
    have hneg : x.num.tdiv x.den = -⌊-x⌋ := by
      rw [← hfloor (-x) (neg_nonneg.mpr hx), Rat.neg_num, Rat.neg_den, Int.neg_tdiv, neg_neg]
    have hle := Int.floor_le (-x)
    have hlt := Int.lt_floor_add_one (-x)
    rw [hneg]
    push_cast
    constructor <;> linarith

section
open Mercator

theorem limit_pos : (0 : Rat) < limit := by decide +kernel

/-- Fractions are exact, with the linear projection as well. -/
theorem exact_rat : Mercator.Exact (id : Rat → Rat) where
  injective := Function.injective_id
  add _ _ := rfl
  sub _ _ := rfl
  mul _ _ := rfl
  neg _ := rfl
  div _ _ _ := rfl
  ofNat _ := rfl
  ofWhole n := ⟨n, rfl, rfl⟩
  lt _ _ := decide_eq_true_iff
  eq _ _ := decide_eq_true_iff
  truncate x := ⟨_, rfl, wholePart_rat x⟩
  twoPow n := ⟨_, rfl, zpow_natCast 2 n⟩
  limit_nonneg := limit_pos.le
  depth_mem a hmin hmax := by
    show 0 ≤ (1 - a / limit) / 2 ∧ (1 - a / limit) / 2 ≤ 1
    simp only [id] at hmin hmax
    have hsouth : a / limit ≤ 1 := (div_le_one limit_pos).mpr hmax
    have hnorth : -1 ≤ a / limit := (le_div_iff₀ limit_pos).mpr (by linarith)
    constructor <;> linarith
  depth_lt a b _ hlt _ := by
    show (1 - b / limit) / 2 < (1 - a / limit) / 2
    have hdiv : a / limit < b / limit := div_lt_div_of_pos_right hlt limit_pos
    linarith
  latitude_ok _ := ⟨_, rfl⟩
  latitude_mem y lat hmin hmax h := by
    cases h
    show -limit ≤ limit * (1 - 2 * y) ∧ limit * (1 - 2 * y) ≤ limit
    simp only [id] at hmin hmax
    have hpos := limit_pos
    constructor <;> nlinarith
  depth_latitude y lat _ _ h := by
    cases h
    show (1 - limit * (1 - 2 * y) / limit) / 2 = y
    rw [mul_div_cancel_left₀ _ limit_pos.ne']
    linarith

end

deriving instance DecidableEq for Point

/-- A line joined to the first of the others, if that starts where it ends. -/
def Line.joinFirst (l : Line Rat) : List (Line Rat) → List (Line Rat)
  | [] => [l]
  | m :: rest => if l.getLast? = m.head? then (l ++ m.tail) :: rest else l :: m :: rest

/-- Lines of which each is joined to the next one, if that starts where it ends. -/
def Line.joinAll (lines : List (Line Rat)) : List (Line Rat) := lines.foldr joinFirst []

/-- Whether a line ends where it starts. -/
def Line.closed (l : Line Rat) : Bool := l.head? = l.getLast?

/-- Lines along meridians and parallels, each joined to the next where it ends, and the boxes that
they enclose. -/
def Kernel.upright : Kernel Rat (Box Rat) where
  join lines := .inr ((Line.joinAll lines).map .line)
  outline lines := .ok (((Line.joinAll lines).find? Line.closed).bind Box.around?)
  inside b p := Scalar.lt b.minX p.x && Scalar.lt p.x b.maxX && Scalar.lt b.minY p.y
    && Scalar.lt p.y b.maxY
  bounds g := Box.around? g.points
  meets g b := g.points.any b.contains
  clip g _ := g
  simplify _ l := l

end BorderTiles
