import BorderTiles.Proofs.Bordering.Election

/-!
# Bordering — a line and its reverse

A joined line has the direction that its first part happened to have.  With exact numbers, of which each
is the ordinate of a latitude:

* `elected_exchange`: two elections, of which the second one leaves the winner of the first one out,
  have the same winners in either order, unless one candidate wins both.
* `flanks line` are the points beside each segment of a line; `sidePoints_eq`: a sample takes those
  beside its `sampledSegment`.  `flanks_reverse`: the reversed line has them in reverse order, right for
  left.
* `ofLine_reverse`: what is found beside a line and beside its reverse, and when the one is the other
  with right and left exchanged.

`reverse_not_exchanged` are three lines where it is not: samples lie nearer to one end, and a country on
both sides of a segment counts on the right only, from either end.
-/

namespace BorderTiles
namespace Bordering
variable {α ρ : Type}

/-! ### The election from the other end -/

/-- The sides as they are called from the other end of the line. -/
def exchanged (sides : Bordering) : Bordering := ⟨sides.right, sides.left⟩

theorem eq_exchanged_iff {v w : Bordering} :
    v = exchanged w ↔ v.right = w.left ∧ v.left = w.right := by
  obtain ⟨left, right⟩ := v
  simp only [exchanged, mk.injEq, and_comm]

/-- Who wins without another one wins against the others. -/
theorem Elected.among_others {eligible : Int → Prop} {count : Int → Nat} {v w : Option Int}
    (hw : Elected eligible count w) (hne : ∀ r, w = some r → v ≠ some r) :
    Elected (fun id => eligible id ∧ v ≠ some id) count w := by
  cases w with
  | none => exact fun a ha => hw a ha.1
  | some r => exact ⟨⟨hw.1, hne r rfl⟩, hw.2.1, fun a ha => hw.2.2 a ha.1⟩

/-- **Two elections in turn** have the same winners in either order, unless one wins both. -/
theorem elected_exchange {eligible : Int → Prop} {rights lefts : Int → Nat}
    {right left right' left' : Option Int} (hright : Elected eligible rights right)
    (hleft : Elected (fun id => eligible id ∧ right ≠ some id) lefts left)
    (hright' : Elected eligible lefts right')
    (hleft' : Elected (fun id => eligible id ∧ right' ≠ some id) rights left') :
    (right' = left ∧ left' = right) ↔
      ¬ ∃ r, Elected eligible rights (some r) ∧ Elected eligible lefts (some r) := by
  constructor
  · rintro ⟨rfl, -⟩ ⟨r, hr, hl⟩
    obtain rfl := hright.unique hr
    obtain rfl := hright'.unique hl
    exact hleft.1.2 rfl
  · intro hboth
    have hne : ∀ r, right' = some r → right ≠ some r := by
      rintro r rfl rfl
      exact hboth ⟨r, hright, hright'⟩
    have hne' : ∀ r, right = some r → right' ≠ some r := fun r hr hr' => hne r hr' hr
    exact ⟨(hright'.among_others hne).unique hleft, hleft'.unique (hright.among_others hne')⟩

/-- No candidate is on both sides of the line at one of these samples. -/
def OneSided (inside : ρ → Point α → Bool) (regions : Table Int ρ) (ids : List Int)
    (points : List (Point α × Point α)) : Prop :=
  ∀ id ∈ ids, ∀ area, regions.get? id = some area →
    ∀ p ∈ points, ¬ (inside area p.1 = true ∧ inside area p.2 = true)

/-- Every candidate has as many right points, and as many left ones, at these samples as at those. -/
def Balanced (inside : ρ → Point α → Bool) (regions : Table Int ρ) (ids : List Int)
    (points mirrored : List (Point α × Point α)) : Prop :=
  ∀ id, Known regions ids id →
    rightCount inside regions points id = rightCount inside regions mirrored id ∧
      rightCount inside regions (points.map Prod.swap) id =
        rightCount inside regions (mirrored.map Prod.swap) id

variable {inside : ρ → Point α → Bool} {regions : Table Int ρ} {ids : List Int}
  {points mirrored : List (Point α × Point α)}

/-- A candidate that is never on both sides has all of its left points as votes. -/
theorem OneSided.leftCount_eq (h : OneSided inside regions ids points) {id : Int} (hid : id ∈ ids) :
    leftCount inside regions points id = rightCount inside regions (points.map Prod.swap) id := by
  rw [leftCount, rightCount]
  cases harea : regions.get? id with
  | none => rfl
  | some area =>
      simp only [List.countP_map]
      refine List.countP_congr fun p hp => ?_
      have hone := h id hid area harea p hp
      simp only [Bool.and_eq_true, Bool.not_eq_true', Function.comp_apply, Prod.fst_swap]
      exact ⟨And.right, fun hleft => ⟨Bool.eq_false_iff.mpr fun hright => hone ⟨hright, hleft⟩, hleft⟩⟩

theorem OneSided.swap (h : OneSided inside regions ids points) :
    OneSided inside regions ids (points.map Prod.swap) := by
  intro id hid area harea p hp hboth
  obtain ⟨q, hq, rfl⟩ := List.mem_map.mp hp
  exact h id hid area harea q hq hboth.symm

/-- The votes at the reversed line are those at the line, right for left. -/
theorem counts_reverse (hone : OneSided inside regions ids (points ++ mirrored))
    (hbalanced : Balanced inside regions ids points mirrored) {id : Int}
    (hid : Known regions ids id) :
    rightCount inside regions (mirrored.map Prod.swap) id = leftCount inside regions points id ∧
      leftCount inside regions (mirrored.map Prod.swap) id = rightCount inside regions points id := by
  have hpoints : OneSided inside regions ids points := fun id hid area harea p hp =>
    hone id hid area harea p (List.mem_append_left _ hp)
  have hmirrored : OneSided inside regions ids mirrored := fun id hid area harea p hp =>
    hone id hid area harea p (List.mem_append_right _ hp)
  obtain ⟨hright, hleft⟩ := hbalanced id hid
  have hback : (mirrored.map Prod.swap).map Prod.swap = mirrored := by simp
  rw [hpoints.leftCount_eq hid.1, hmirrored.swap.leftCount_eq hid.1, hback]
  exact ⟨hleft.symm, hright.symm⟩

/-! ### The points beside a segment -/

variable [Mercator α]

/-- The middle of a segment, moved to its right by `offset`, or to its left if that is negative. -/
def beside (offset : α) (p q : Point α) : Point α :=
  let dx := q.x - p.x
  let dy := q.y - p.y
  let midX := p.x + dx / Scalar.ofNat 2
  let midY := p.y + dy / Scalar.ofNat 2
  let length := Scalar.hypotenuse dx dy
  if Scalar.eq offset (Scalar.ofNat 0) || Scalar.eq length (Scalar.ofNat 0) then ⟨midX, midY, none⟩
  else ⟨midX - offset * dy / length, midY + offset * dx / length, none⟩

/-- The points to the right and left of each segment of a line. -/
def flanks (line : Line α) : List (Point α × Point α) :=
  line.zipWith (fun p q => (beside sampleOffset p q, beside (-sampleOffset) p q)) line.tail

/-- The segment on which a sample of a line through `n` points is taken. -/
def sampledSegment (n i : Nat) : Nat := min (n - 2) (n * (i + 1) / (samples + 2))

theorem sampledSegment_le (n i : Nat) : sampledSegment n i ≤ n - 2 := Nat.min_le_left _ _

theorem length_flanks (line : Line α) : (flanks line).length = line.length - 1 := by
  simp [flanks]

variable {K : Type} [Field K] [LinearOrder K] [IsStrictOrderedRing K] {val : α → K} {line : Line α}

/-- A sample is taken at its share of the points, rounded down. -/
theorem truncate_sampleRatio (h : Scalar.Exact val) (n i : Nat) :
    Scalar.truncate (Scalar.ofNat n * sampleRatio i : α) =
      .ok ((n * (i + 1) / (samples + 2) : Nat) : Int) := by
  obtain ⟨z, hz, hwhole⟩ := h.truncate (Scalar.ofNat n * sampleRatio i : α)
  have hpos : (0 : K) < ((samples + 2 : Nat) : K) := by
    rw [samples]
    norm_num
  have hval : val (Scalar.ofNat n * sampleRatio i : α) =
      ((n * (i + 1) : Nat) : K) / ((samples + 2 : Nat) : K) := by
    rw [sampleRatio, h.mul, h.div _ _ (by rw [h.ofNat]; exact hpos.ne'), h.ofNat, h.ofNat, h.ofNat]
    push_cast
    ring
  rw [hval] at hwhole
  rw [hz, hwhole.unique (wholePart_div _ (by decide))]

/-- A sample is the point beside its segment. -/
theorem sample_eq (h : Scalar.Exact val) {l : Line α} (htwo : 2 ≤ l.length) (i : Nat) (offset : α) :
    ∃ p q, l[sampledSegment l.length i]? = some p ∧ l[sampledSegment l.length i + 1]? = some q ∧
      l.sample (sampleRatio i) offset = .ok (beside offset p q) := by
  obtain ⟨p, -, q, -, hp, hq⟩ := Line.exists_segment htwo
    ((l.length * (i + 1) / (samples + 2) : Nat) : Int)
  have hindex : (max 0 (min ((l.length : Int) - 2)
      ((l.length * (i + 1) / (samples + 2) : Nat) : Int))).toNat = sampledSegment l.length i := by
    rw [sampledSegment]
    generalize l.length * (i + 1) / (samples + 2) = found
    omega
  refine ⟨p, q, hindex ▸ hp, hindex ▸ hq, ?_⟩
  simp only [Line.sample, truncate_sampleRatio h, hp, hq, bind, Except.bind]
  exact (apply_ite Except.ok _ _ _).symm

/-- The points at a sample are those beside its segment. -/
theorem sidePoints_eq (h : Scalar.Exact val) (htwo : 2 ≤ line.length) (i : Nat) :
    ∃ pair, (flanks line)[sampledSegment line.length i]? = some pair ∧
      sidePoints line i = .ok pair := by
  obtain ⟨p, q, hp, hq, hright⟩ := sample_eq h htwo i sampleOffset
  obtain ⟨p', q', hp', hq', hleft⟩ := sample_eq h htwo i (-sampleOffset)
  obtain rfl := Option.some.inj (hp.symm.trans hp')
  obtain rfl := Option.some.inj (hq.symm.trans hq')
  refine ⟨(beside sampleOffset p q, beside (-sampleOffset) p q), ?_, ?_⟩
  · rw [flanks, List.getElem?_zipWith, List.getElem?_tail, hp, hq]
  · exact bind_eq_ok.mpr ⟨_, hright, bind_eq_ok.mpr ⟨_, hleft, rfl⟩⟩

/-- The test points of a line, sample by sample. -/
theorem exists_points (h : Scalar.Exact val) (htwo : 2 ≤ line.length) :
    ∃ points, TestPoints line points ∧
      ∀ i < samples, points[i]? = (flanks line)[sampledSegment line.length i]? := by
  choose pair hpair hside using sidePoints_eq h htwo
  refine ⟨(List.range samples).map pair, ?_, fun i hi => ?_⟩
  · refine mapM_eq_ok.mpr (List.forall₂_map_right_iff.mpr ?_)
    exact List.forall₂_same.mpr fun i _ => hside i
  · rw [hpair, List.getElem?_map, List.getElem?_range hi]
    rfl

/-! ### The reversed line -/

/-- From the other end, left and right of a segment are exchanged. -/
theorem beside_reverse (h : Scalar.Exact val)
    (hdiagonal : ∀ a b : α, Scalar.hypotenuse (-a) (-b) = Scalar.hypotenuse a b) (offset : α)
    (p q : Point α) : beside offset q p = beside (-offset) p q := by
  have hx : p.x - q.x = -(q.x - p.x) := h.injective (by rw [h.neg, h.sub, h.sub]; ring)
  have hy : p.y - q.y = -(q.y - p.y) := h.injective (by rw [h.neg, h.sub, h.sub]; ring)
  have hlength : Scalar.hypotenuse (p.x - q.x) (p.y - q.y) =
      Scalar.hypotenuse (q.x - p.x) (q.y - p.y) := by rw [hx, hy, hdiagonal]
  have hmid : ∀ a b : α, b + (a - b) / Scalar.ofNat 2 = a + (b - a) / Scalar.ofNat 2 := by
    intro a b
    have htwo : val (Scalar.ofNat 2 : α) ≠ 0 := by rw [h.ofNat]; norm_num
    refine h.injective ?_
    rw [h.add, h.add, h.div _ _ htwo, h.div _ _ htwo, h.sub, h.sub, h.ofNat]
    ring
  have hzero : Scalar.eq (-offset) (Scalar.ofNat 0) = Scalar.eq offset (Scalar.ofNat 0) := by
    rw [Bool.eq_iff_iff, h.eq, h.eq, h.neg, h.ofNat]
    simp
  have hturn : ∀ a b : α, offset * (a - b) = -offset * (b - a) := fun a b =>
    h.injective (by rw [h.mul, h.mul, h.neg, h.sub, h.sub]; ring)
  simp only [beside, hlength, hmid p.x, hmid p.y, hzero, hturn p.x, hturn p.y]

theorem zipWith_tail_reverse {τ σ : Type} (f : τ → τ → σ) (l : List τ) :
    List.zipWith f l.reverse l.reverse.tail =
      (List.zipWith (fun a b => f b a) l l.tail).reverse := by
  refine List.ext_getElem (by simp) fun i hi hi' => ?_
  have hlength : i < l.length - 1 := by simpa using hi
  simp only [List.getElem_zipWith, List.getElem_reverse, List.getElem_tail, List.length_zipWith,
    List.length_tail]
  congr 2 <;> omega

/-- A reversed line has the same segments in reverse order, with left and right exchanged. -/
theorem flanks_reverse (h : Scalar.Exact val)
    (hdiagonal : ∀ a b : α, Scalar.hypotenuse (-a) (-b) = Scalar.hypotenuse a b) (line : Line α) :
    flanks line.reverse = ((flanks line).map Prod.swap).reverse := by
  have hneg : ∀ a : α, - -a = a := fun a => h.injective (by rw [h.neg, h.neg, neg_neg])
  rw [flanks, zipWith_tail_reverse, flanks, List.map_zipWith]
  congr 2
  funext p q
  have hleft := beside_reverse h hdiagonal (-sampleOffset) p q
  rw [hneg] at hleft
  exact Prod.ext (beside_reverse h hdiagonal sampleOffset p q) hleft

theorem getElem?_flanks_reverse (h : Scalar.Exact val)
    (hdiagonal : ∀ a b : α, Scalar.hypotenuse (-a) (-b) = Scalar.hypotenuse a b) {line : Line α}
    (htwo : 2 ≤ line.length) {m : Nat} (hm : m ≤ line.length - 2) :
    (flanks line.reverse)[m]? = ((flanks line)[line.length - 2 - m]?).map Prod.swap := by
  have hlength : m < ((flanks line).map Prod.swap).length := by
    rw [List.length_map, length_flanks]
    omega
  have hindex : line.length - 1 - 1 - m = line.length - 2 - m := rfl
  rw [flanks_reverse h hdiagonal, List.getElem?_reverse hlength, List.getElem?_map, List.length_map,
    length_flanks, hindex]

/-- The points beside the segments that a reversed line is sampled on, as its unreversed line has them
on its right and left. -/
theorem exists_mirrored (h : Scalar.Exact val)
    (hdiagonal : ∀ a b : α, Scalar.hypotenuse (-a) (-b) = Scalar.hypotenuse a b)
    (htwo : 2 ≤ line.length) :
    ∃ mirrored : List (Point α × Point α), TestPoints line.reverse (mirrored.map Prod.swap) ∧
      ∀ i < samples,
        mirrored[i]? = (flanks line)[line.length - 2 - sampledSegment line.length i]? := by
  obtain ⟨points, hpoints, hall⟩ :=
    exists_points h (by rwa [List.length_reverse] : 2 ≤ line.reverse.length)
  refine ⟨points.map Prod.swap, by simpa using hpoints, fun i hi => ?_⟩
  rw [List.getElem?_map, hall i hi, List.length_reverse,
    getElem?_flanks_reverse h hdiagonal htwo (sampledSegment_le _ i)]
  simp

omit [IsStrictOrderedRing K] in
/-- What is found beside a line with test points. -/
theorem ofLine_of_exact (h : Scalar.Exact val)
    (hlatitude : ∀ y : α, ∃ lat, Mercator.latitude y = .ok lat) (htwo : 2 ≤ line.length)
    (hpoints : TestPoints line points) (inside : ρ → Point α → Bool) (regions : Table Int ρ)
    (ids : List Int) :
    (ofLine inside regions ids line).result = .ok (outcome inside regions ids points) := by
  obtain ⟨found, hfound, -⟩ :=
    h.truncate (Scalar.ofNat line.length * (Scalar.ofNat 1 / Scalar.ofNat 2) : α)
  obtain ⟨middle, hmiddle⟩ := Line.sample_ok htwo ⟨found, hfound⟩ (Scalar.ofNat 0)
  obtain ⟨lat, hlat⟩ := hlatitude middle.y
  exact ofLine_result hpoints hmiddle (Line.ofWorld_ok hlat) inside regions ids

/-- **A line and its reverse**, in exact numbers of which each is the ordinate of a latitude.  Where
sample `i` of a line is taken beside the segment `m`, that of the reversed line is taken beside the
segment as far from the other end, right for left.  So if no candidate is on both sides of a segment
sampled, and each has as many right points and as many left ones beside the segments sampled on the one
line as on the other, then the two lines have the same sides, right for left, exactly if no candidate
wins by the right points and by the left points. -/
theorem ofLine_reverse (h : Scalar.Exact val)
    (hlatitude : ∀ y : α, ∃ lat, Mercator.latitude y = .ok lat)
    (hdiagonal : ∀ a b : α, Scalar.hypotenuse (-a) (-b) = Scalar.hypotenuse a b)
    (htwo : 2 ≤ line.length) (inside : ρ → Point α → Bool) (regions : Table Int ρ)
    (hids : ids.Nodup) :
    ∃ (points mirrored : List (Point α × Point α)) (sides reversed : Bordering),
      TestPoints line points ∧ TestPoints line.reverse (mirrored.map Prod.swap) ∧
      (∀ i < samples, points[i]? = (flanks line)[sampledSegment line.length i]? ∧
        mirrored[i]? = (flanks line)[line.length - 2 - sampledSegment line.length i]?) ∧
      (ofLine inside regions ids line).result = .ok sides ∧
      (ofLine inside regions ids line.reverse).result = .ok reversed ∧
      (OneSided inside regions ids (points ++ mirrored) →
        Balanced inside regions ids points mirrored →
        (reversed = exchanged sides ↔
          ¬ ∃ id, Elected (Known regions ids) (rightCount inside regions points) (some id) ∧
            Elected (Known regions ids) (rightCount inside regions (points.map Prod.swap))
              (some id))) := by
  obtain ⟨points, hpoints, hall⟩ := exists_points h htwo
  obtain ⟨mirrored, hmirrored, hall'⟩ := exists_mirrored h hdiagonal htwo
  have htwo' : 2 ≤ line.reverse.length := by rwa [List.length_reverse]
  have hdecided := outcome_decided inside regions hids points
  have hdecided' := outcome_decided inside regions hids (mirrored.map Prod.swap)
  refine ⟨points, mirrored, _, _, hpoints, hmirrored, fun i hi => ⟨hall i hi, hall' i hi⟩,
    ofLine_of_exact h hlatitude htwo hpoints inside regions ids,
    ofLine_of_exact h hlatitude htwo' hmirrored inside regions ids, fun hone hbalanced => ?_⟩
  -- the votes at the reversed line are those at the line, right for left
  have hvotes : ∀ id, Known regions ids id → _ := fun id hid => counts_reverse hone hbalanced hid
  have hright' := (elected_congr fun id hid => (hvotes id hid).1).mp hdecided'.right
  have hleft' := (elected_congr fun id hid => (hvotes id hid.1).2).mp hdecided'.left
  have hpoints' : ∀ id, Known regions ids id →
      leftCount inside regions points id = rightCount inside regions (points.map Prod.swap) id :=
    fun id hid => OneSided.leftCount_eq
      (fun id hid area harea p hp => hone id hid area harea p (List.mem_append_left _ hp)) hid.1
  have hexchange := elected_exchange hdecided.right hdecided.left hright' hleft'
  simp only [elected_congr hpoints'] at hexchange
  exact eq_exchanged_iff.trans hexchange

/-! ### Lines going east -/

theorem hypotenuse_neg (a b : Rat) : Scalar.hypotenuse (-a) (-b) = Scalar.hypotenuse a b := by
  show |-a| + |-b| = |a| + |b|
  rw [abs_neg, abs_neg]

/-- A line going east through two segments. -/
def twoSegments : Line Rat := [⟨1 / 5, 1 / 2, none⟩, ⟨2 / 5, 1 / 2, none⟩, ⟨3 / 5, 1 / 2, none⟩]

/-- The points south and north of it, at a middle of a segment. -/
def southAndNorth (x : Rat) : Point Rat × Point Rat :=
  (⟨x, 1 / 2 + sampleOffset, none⟩, ⟨x, 1 / 2 - sampleOffset, none⟩)

/-- A country north of the line and one south of it. -/
def northAndSouth : Table Int (Box Rat) :=
  ⟨[(3, ⟨1 / 10, 3 / 10, 7 / 10, 1 / 2⟩), (5, ⟨1 / 10, 1 / 2, 7 / 10, 7 / 10⟩)], by decide⟩

/-- The line is sampled three times on its first segment, its reverse three times on the other one. -/
theorem ofLine_reverse_twoSegments :
    (ofLine Kernel.upright.inside northAndSouth [3, 5] twoSegments).result =
        .ok ⟨some 3, some 5⟩ ∧
      (ofLine Kernel.upright.inside northAndSouth [3, 5] twoSegments.reverse).result =
        .ok ⟨some 5, some 3⟩ := by
  have hids : [3, (5 : Int)].Nodup := by decide
  have htwo : 2 ≤ twoSegments.length := by decide
  obtain ⟨points, mirrored, sides, reversed, hpoints, hmirrored, -, hsides, hreversed, hexchange⟩ :=
    ofLine_reverse exact_rat.toExact (fun _ => ⟨_, rfl⟩) hypotenuse_neg htwo Kernel.upright.inside
      northAndSouth hids
  have hfirst : TestPoints twoSegments (List.replicate 3 (southAndNorth (3 / 10)) ++
      List.replicate 7 (southAndNorth (1 / 2))) := by
    rw [TestPoints]
    decide +kernel
  have hother : TestPoints twoSegments.reverse ((List.replicate 3 (southAndNorth (1 / 2)) ++
      List.replicate 7 (southAndNorth (3 / 10))).map Prod.swap) := by
    rw [TestPoints]
    decide +kernel
  obtain rfl := Except.ok.inj (hpoints.symm.trans hfirst)
  obtain rfl := List.map_injective_iff.mpr Prod.swap_injective
    (Except.ok.inj (hmirrored.symm.trans hother))
  have hcomputed : (ofLine Kernel.upright.inside northAndSouth [3, 5] twoSegments).result =
      .ok ⟨some 3, some 5⟩ := by
    rw [ofLine, candidates_of_sorted northAndSouth (by decide)]
    decide +kernel
  obtain rfl := Except.ok.inj (hsides.symm.trans hcomputed)
  refine ⟨hcomputed, hreversed.trans (congrArg Except.ok ((hexchange ?_ ?_).mpr ?_))⟩
  · intro id hid area harea
    rcases List.mem_pair.mp hid with rfl | rfl <;> cases harea <;> decide +kernel
  · intro id hid
    rcases List.mem_pair.mp hid.1 with rfl | rfl <;> decide +kernel
  · rintro ⟨id, ⟨hid, hright, -⟩, -, hleft, -⟩
    rcases List.mem_pair.mp hid.1 with rfl | rfl
    · exact absurd hright (by decide +kernel)
    · exact absurd hleft (by decide +kernel)

/-- Whether a point is inside one of several boxes. -/
def insideAny (boxes : List (Box Rat)) (p : Point Rat) : Bool :=
  boxes.any fun b => Kernel.upright.inside b p

/-- A line along a parallel, where fractions have exact lengths, without a segment of no length, and
areas of which no two have a point inside them in common. -/
structure Plain (line : Line Rat) (regions : Table Int (List (Box Rat))) : Prop where
  two_le : 2 ≤ line.length
  level : ∀ p ∈ line, p.y = 1 / 2
  moving : line.IsChain fun p q => p.x ≠ q.x
  apart : ∀ e ∈ regions.entries, ∀ f ∈ regions.entries, e.1 ≠ f.1 → ∀ b ∈ e.2, ∀ c ∈ f.2,
    b.maxX ≤ c.minX ∨ c.maxX ≤ b.minX ∨ b.maxY ≤ c.minY ∨ c.maxY ≤ b.minY

/-- Whether the sides of the reversed line are those of the line, right for left. -/
def Exchanges (line : Line Rat) (regions : Table Int (List (Box Rat))) (ids : List Int) : Prop :=
  (ofLine insideAny regions ids line.reverse).result =
    (ofLine insideAny regions ids line).result.map exchanged

/-- A country on both sides of the line. -/
def surrounding : Table Int (List (Box Rat)) :=
  ⟨[(1, [⟨3 / 10, 3 / 10, 7 / 10, 7 / 10⟩])], by decide⟩

/-- A country south of the first segment and one south of the second. -/
def bothSouth : Table Int (List (Box Rat)) :=
  ⟨[(1, [⟨1 / 5, 1 / 2, 2 / 5, 7 / 10⟩]), (2, [⟨2 / 5, 1 / 2, 3 / 5, 7 / 10⟩])], by decide⟩

/-- A line going east through three segments. -/
def threeSegments : Line Rat :=
  [⟨1 / 5, 1 / 2, none⟩, ⟨2 / 5, 1 / 2, none⟩, ⟨3 / 5, 1 / 2, none⟩, ⟨4 / 5, 1 / 2, none⟩]

/-- A country south of the middle segment and north of the others, and one north of the middle one. -/
def winding : Table Int (List (Box Rat)) :=
  ⟨[(1, [⟨2 / 5, 1 / 2, 3 / 5, 7 / 10⟩, ⟨1 / 5, 3 / 10, 2 / 5, 1 / 2⟩,
      ⟨3 / 5, 3 / 10, 4 / 5, 1 / 2⟩]),
    (2, [⟨2 / 5, 3 / 10, 3 / 5, 1 / 2⟩])], by decide⟩

/-- The sides of a reversed line need not be those of the line, right for left: a country on both sides
is found on the right of each; two countries side by side are not sampled equally often from both ends;
and a country that wins by the right points and by the left ones is found on the right of each. -/
theorem reverse_not_exchanged :
    (Plain eastward surrounding ∧ ¬ Exchanges eastward surrounding [1]) ∧
      (Plain twoSegments bothSouth ∧ ¬ Exchanges twoSegments bothSouth [1, 2]) ∧
      (Plain threeSegments winding ∧ ¬ Exchanges threeSegments winding [1, 2]) := by
  have hplain : Plain eastward surrounding ∧ Plain twoSegments bothSouth ∧
      Plain threeSegments winding := by
    refine ⟨⟨?_, ?_, ?_, ?_⟩, ⟨?_, ?_, ?_, ?_⟩, ⟨?_, ?_, ?_, ?_⟩⟩ <;> decide +kernel
  obtain ⟨hsingle, htwo, hthree⟩ := hplain
  refine ⟨⟨hsingle, ?_⟩, ⟨htwo, ?_⟩, ⟨hthree, ?_⟩⟩
  · rw [Exchanges, ofLine, ofLine, candidates_of_sorted surrounding (by decide)]
    decide +kernel
  · rw [Exchanges, ofLine, ofLine, candidates_of_sorted bothSouth (by decide)]
    decide +kernel
  · rw [Exchanges, ofLine, ofLine, candidates_of_sorted winding (by decide)]
    decide +kernel

end Bordering
end BorderTiles
