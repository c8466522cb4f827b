import Darkroom.Proofs.Arithmetic.Exact
import Darkroom.Proofs.Filter.Complete

/-!
# Where the bounds of contrast show

The offset of brightness and the product with contrast are kept within a limit. With exact fractions,
and with the nearest integers in place of the bounded ones, the tables show what the limit is good for.

The product may be bounded: beyond the limit it is far outside of the range on either side
(`entryAt_bounded`). The offset may not, since a small contrast takes a distance from the limit back into
the range. A bounded distance from the middle is shorter than the true one and on the same side of it
(`distance_between`), so an entry comes out nearer to the middle than it should (`adjustedBy_between`), unless
the shorter distance leaves the range or both products are rounded alike (`adjustedBy_eq_iff`).

So an offset within the limit is safe for every contrast (`unseen_iff_offset`), and a contrast is safe for
every offset if it is zero or takes the limit out of the range (`unseen_iff_contrast`).
-/

namespace Darkroom

open Exact

namespace Contrast

/-! ## The steps with any bounds -/

/-- The middle of the range, around which values are scaled. -/
def middle (depth : Depth) : ℕ :=
  depth.maxValue / 2

def entryAt (depth : Depth) (n : ℤ) : ℕ :=
  Arith.clampNat depth.maxValue (n + middle depth)

section

variable {α : Type} [Arith α]

/-- The distance from the middle of a value that is moved. How the offset is made an integer is left
open, as it is bounded in one case and not in the other. -/
def distance (offsetOf : α → ℤ) (brightness : α) (depth : Depth) (v : ℤ) : ℤ :=
  v + offsetOf (brightness * Arith.ofNat depth.maxValue) - middle depth

/-- The entry of a table behind the power, where the offset and the product are made integers by functions
that may bound them or not. -/
def adjustedBy (offsetOf productOf : α → ℤ) (brightness contrast : α) (depth : Depth) (v : ℤ) : ℕ :=
  entryAt depth (productOf (Arith.ofInt (distance offsetOf brightness depth v) * contrast))

/-- The table behind the powers of all values. -/
def tableBy (offsetOf productOf : α → ℤ) (brightness contrast : α) (depth : Depth)
    (powers : ℕ → ℤ) : Array UInt16 :=
  Luts.tableOf depth fun v => adjustedBy offsetOf productOf brightness contrast depth (powers v)

/-- Powers that are values of a depth. Those of every gamma are, so what is said for all of them
holds for every table that can be made. -/
def InRange (depth : Depth) (powers : ℕ → ℤ) : Prop :=
  ∀ v ≤ depth.maxValue, 0 ≤ powers v ∧ powers v ≤ depth.maxValue

theorem adjustedBy_bounded (brightness contrast : α) (depth : Depth) (v : ℤ) :
    adjustedBy bounded bounded brightness contrast depth v
      = adjusted brightness contrast depth.maxValue v :=
  rfl

end

variable {depth : Depth} {brightness contrast : ℝ} {v n k : ℤ}

/-! ## Entries -/

theorem maxValue_eq (depth : Depth) : depth.maxValue = 2 * middle depth + 1 := by
  cases depth <;> rfl

theorem middle_range (depth : Depth) : 127 ≤ middle depth ∧ middle depth ≤ 32767 := by
  cases depth <;> decide

theorem middle_real (depth : Depth) : (127 : ℝ) ≤ middle depth ∧ (middle depth : ℝ) ≤ 32767 := by
  exact_mod_cast middle_range depth

theorem entryAt_le (depth : Depth) (n : ℤ) : entryAt depth n ≤ depth.maxValue :=
  Nat.min_le_right _ _

theorem entryAt_mono (depth : Depth) : Monotone (entryAt depth) := fun _ _ h =>
  min_le_min_right _ (Int.toNat_le_toNat (Int.add_le_add_right h _))

theorem entryAt_zero (depth : Depth) : entryAt depth 0 = middle depth := by
  have htop := maxValue_eq depth
  rw [entryAt, Arith.clampNat]
  omega

/-- The limit is so far outside of the range that no entry shows it. -/
theorem entryAt_bounded (depth : Depth) (n : ℤ) :
    entryAt depth (max (-limit) (min limit n)) = entryAt depth n := by
  have hlimit : limit = 1000000000000000 := rfl
  have htop := maxValue_eq depth
  have hmiddle := middle_range depth
  simp only [entryAt, Arith.clampNat]
  omega

/-- Of two distances on one side the shorter one has the same entry only if it is the same or has left the
range. -/
theorem entryAt_eq_iff (h : k ∈ Set.uIcc 0 n) :
    entryAt depth k = entryAt depth n ↔ k = n ∨ k ≤ -middle depth ∨ middle depth < k := by
  have htop := maxValue_eq depth
  have hmiddle := middle_range depth
  rw [Set.mem_uIcc] at h
  simp only [entryAt, Arith.clampNat]
  omega

/-! ## Bounded integers -/

theorem bounded_real (x : ℝ) : bounded x = max (-limit) (min limit (nearest x)) := by
  have hlimit : limit = 1000000000000000 := rfl
  show max (-limit) (min limit (within (nearest x))) = _
  rw [within]
  omega

/-- The bound of the product never shows. -/
theorem adjustedBy_bounded_product (offsetOf : ℝ → ℤ) (brightness contrast : ℝ) (depth : Depth)
    (v : ℤ) :
    adjustedBy offsetOf bounded brightness contrast depth v
      = adjustedBy offsetOf nearest brightness contrast depth v := by
  rw [adjustedBy, bounded_real, entryAt_bounded]
  rfl

theorem limit_real : (limit : ℝ) = 1000000000000000 := by
  norm_num [limit]

theorem abs_nearest_le_limit_iff {x : ℝ} : |nearest x| ≤ limit ↔ |x| < limit + 1 / 2 := by
  have hlimit : limit = 1000000000000000 := rfl
  have hover : limit + 1 ≤ nearest x ↔ limit + 1 / 2 ≤ x := by
    rw [le_nearest_iff (by omega), Int.cast_add, Int.cast_one, add_sub_assoc]
    norm_num
  have hunder : nearest x ≤ -(limit + 1) ↔ x ≤ -(limit + 1 / 2) := by
    rw [nearest_le_iff (by omega), Int.cast_neg, Int.cast_add, Int.cast_one, neg_add, add_assoc,
      neg_add]
    norm_num
  calc |nearest x| ≤ limit ↔ ¬nearest x ≤ -(limit + 1) ∧ ¬limit + 1 ≤ nearest x := by
        rw [abs_le]
        omega
    _ ↔ |x| < limit + 1 / 2 := by rw [hunder, hover, not_le, not_le, abs_lt]

/-! ## Distances -/

theorem distance_real (offsetOf : ℝ → ℤ) (brightness : ℝ) (depth : Depth) (v : ℤ) :
    distance offsetOf brightness depth v
      = v + offsetOf (brightness * depth.maxValue) - middle depth := by
  rw [distance, Arith.ofNat_real]

theorem distance_of_small (h : |brightness * depth.maxValue| < limit + 1 / 2) (v : ℤ) :
    distance bounded brightness depth v = distance nearest brightness depth v := by
  have hle := abs_le.mp (abs_nearest_le_limit_iff.mpr h)
  rw [distance_real, distance_real, bounded_real]
  omega

/-- A bounded distance is the true one, or it is that of the limit and shorter than the true one. -/
theorem distance_cases (brightness : ℝ) (depth : Depth) (v : ℤ) :
    distance bounded brightness depth v = distance nearest brightness depth v
    ∨ (distance bounded brightness depth v = v + limit - middle depth
        ∧ distance bounded brightness depth v < distance nearest brightness depth v)
    ∨ (distance bounded brightness depth v = v - limit - middle depth
        ∧ distance nearest brightness depth v < distance bounded brightness depth v) := by
  have hlimit : limit = 1000000000000000 := rfl
  rw [distance_real, distance_real, bounded_real]
  omega

/-! ## Products -/

theorem nearest_le_neg_middle_iff {x : ℝ} :
    nearest x ≤ -middle depth ↔ x ≤ 1 / 2 - middle depth := by
  have hmiddle := middle_range depth
  have hbelow := nearest_le_iff (n := -middle depth) (by omega) (x := x)
  push_cast at hbelow
  rw [hbelow, neg_add_eq_sub]

theorem middle_lt_nearest_iff {x : ℝ} :
    middle depth < nearest x ↔ middle depth + 1 / 2 ≤ x := by
  have habove := le_nearest_iff (n := middle depth + 1) (by omega) (x := x)
  push_cast at habove
  rw [← Int.add_one_le_iff, habove]
  constructor <;> intro h <;> linarith

variable (hv : 0 ≤ v ∧ v ≤ depth.maxValue)
include hv

theorem distance_between (brightness : ℝ) :
    distance bounded brightness depth v ∈ Set.uIcc 0 (distance nearest brightness depth v) := by
  have hlimit : limit = 1000000000000000 := rfl
  have htop := maxValue_eq depth
  have hmiddle := middle_range depth
  have hcases := distance_cases brightness depth v
  rw [Set.mem_uIcc]
  omega

/-- Behind the limit the bounded distance is shorter, but not zero. -/
theorem distance_of_large (h : ¬|brightness * depth.maxValue| < limit + 1 / 2) :
    (0 < distance bounded brightness depth v
        ∧ distance bounded brightness depth v < distance nearest brightness depth v)
      ∨ (distance nearest brightness depth v < distance bounded brightness depth v
        ∧ distance bounded brightness depth v < 0) := by
  have hlimit : limit = 1000000000000000 := rfl
  have htop := maxValue_eq depth
  have hmiddle := middle_range depth
  rw [← abs_nearest_le_limit_iff, abs_le] at h
  rw [distance_real, distance_real, bounded_real]
  omega

/-- The product of the bounded distance is rounded to an integer between zero and the true one. -/
theorem product_between (brightness contrast : ℝ) :
    nearest (distance bounded brightness depth v * contrast)
      ∈ Set.uIcc 0 (nearest (distance nearest brightness depth v * contrast)) := by
  have hreal : (distance bounded brightness depth v : ℝ)
      ∈ Set.uIcc 0 (distance nearest brightness depth v : ℝ) := by
    have hint := distance_between hv brightness
    rw [Set.mem_uIcc] at hint ⊢
    exact_mod_cast hint
  have hscaled : (distance bounded brightness depth v : ℝ) * contrast
      ∈ Set.uIcc 0 ((distance nearest brightness depth v : ℝ) * contrast) := by
    rw [← zero_mul contrast, ← Set.image_mul_const_uIcc]
    exact Set.mem_image_of_mem _ hreal
  have hrounded := nearest_mono.mapsTo_uIcc hscaled
  rwa [nearest_zero] at hrounded

/-- With the bounds an entry is nearer to the middle, never on the other side of it. -/
theorem adjustedBy_between (brightness contrast : ℝ) :
    adjustedBy bounded bounded brightness contrast depth v
      ∈ Set.uIcc (middle depth) (adjustedBy nearest nearest brightness contrast depth v) := by
  rw [adjustedBy_bounded_product, ← entryAt_zero depth]
  exact (entryAt_mono depth).mapsTo_uIcc (product_between hv brightness contrast)

/-- The bounds do not show exactly if both products are rounded alike, or that of the bounded distance has
left the range. -/
theorem adjustedBy_eq_iff (brightness contrast : ℝ) :
    adjustedBy bounded bounded brightness contrast depth v
        = adjustedBy nearest nearest brightness contrast depth v
      ↔ nearest (distance bounded brightness depth v * contrast)
          = nearest (distance nearest brightness depth v * contrast)
        ∨ distance bounded brightness depth v * contrast ≤ 1 / 2 - middle depth
        ∨ middle depth + 1 / 2 ≤ distance bounded brightness depth v * contrast := by
  rw [adjustedBy_bounded_product, ← nearest_le_neg_middle_iff, ← middle_lt_nearest_iff]
  exact entryAt_eq_iff (product_between hv brightness contrast)

omit hv

/-! ## Powers -/

/-- With exact fractions the power of a value is a value of the depth. -/
theorem inRange_powered (gamma : ℝ) (depth : Depth) :
    InRange depth (powered gamma depth.maxValue) := by
  intro v hv
  have htop := maxValue_eq depth
  have hmiddle := middle_range depth
  have hpos : (0 : ℝ) < depth.maxValue := by exact_mod_cast (by omega : 0 < depth.maxValue)
  have hleast : (0 : ℝ) < if (1 : ℝ) / 100 < gamma then gamma else 1 / 100 := by
    split <;> linarith
  set exponent : ℝ := 1 / if (1 : ℝ) / 100 < gamma then gamma else 1 / 100 with hexponent
  have hpowered : powered gamma depth.maxValue v
      = within (nearest (((v : ℝ) / depth.maxValue) ^ exponent * depth.maxValue)) := by
    simp only [powered, Arith.less_real, Arith.ofNat_real, Nat.cast_one, Nat.cast_ofNat,
      decide_eq_true_eq, ← hexponent]
    rfl
  have hshare : (0 : ℝ) ≤ v / depth.maxValue := by positivity
  have hshare' : (v : ℝ) / depth.maxValue ≤ 1 := (div_le_one hpos).mpr (by exact_mod_cast hv)
  have hpower' : ((v : ℝ) / depth.maxValue) ^ exponent ≤ 1 :=
    Real.rpow_le_one hshare hshare' (one_div_pos.mpr hleast).le
  have hlow := nearest_mono (mul_nonneg (Real.rpow_nonneg hshare exponent) hpos.le)
  have hhigh := nearest_mono (mul_le_of_le_one_left hpos.le hpower')
  rw [nearest_zero] at hlow
  rw [nearest_natCast] at hhigh
  rw [hpowered, within]
  omega

/-! ## Where the bounds never show -/

/-- That no table of a depth shows the bounds. It is asked for all powers and not only for those of
some gamma, since the bounds come after the power and know nothing of it. -/
def Unseen (brightness contrast : ℝ) (depth : Depth) : Prop :=
  ∀ powers, InRange depth powers →
    tableBy bounded bounded brightness contrast depth powers
      = tableBy nearest nearest brightness contrast depth powers

theorem tableBy_eq_iff {offsetOf offsetOf' productOf productOf' : ℝ → ℤ} {powers : ℕ → ℤ} :
    tableBy offsetOf productOf brightness contrast depth powers
        = tableBy offsetOf' productOf' brightness contrast depth powers
      ↔ ∀ v ≤ depth.maxValue, adjustedBy offsetOf productOf brightness contrast depth (powers v)
          = adjustedBy offsetOf' productOf' brightness contrast depth (powers v) :=
  Luts.tableOf_inj (fun _ => entryAt_le depth _) fun _ => entryAt_le depth _

/-- Every value of the depth is the power of some value, so it is enough to look at entries. -/
theorem unseen_iff : Unseen brightness contrast depth
    ↔ ∀ v : ℤ, 0 ≤ v ∧ v ≤ depth.maxValue →
      adjustedBy bounded bounded brightness contrast depth v
        = adjustedBy nearest nearest brightness contrast depth v := by
  constructor
  · intro h v hv
    exact tableBy_eq_iff.mp (h (fun _ => v) fun _ _ => hv) 0 (Nat.zero_le _)
  · intro h powers hpowers
    exact tableBy_eq_iff.mpr fun v hv => h (powers v) (hpowers v hv)

/-- Of two distances on one side the longer one can be scaled to a half. -/
theorem exists_half {near far : ℤ} (h : (0 < near ∧ near < far) ∨ (far < near ∧ near < 0)) :
    ∃ factor : ℝ, far * factor = 1 / 2 ∧ 0 < near * factor ∧ near * factor < 1 / 2 := by
  have hfar : (far : ℝ) ≠ 0 := by exact_mod_cast (by omega : far ≠ 0)
  have hratio : (0 : ℝ) < near / far ∧ (near : ℝ) / far < 1 := by
    rcases h with ⟨hpos, hlt⟩ | ⟨hlt, hneg⟩
    · have hpos' : (0 : ℝ) < near := by exact_mod_cast hpos
      have hlt' : (near : ℝ) < far := by exact_mod_cast hlt
      exact ⟨div_pos hpos' (hpos'.trans hlt'), (div_lt_one (hpos'.trans hlt')).mpr hlt'⟩
    · have hneg' : (near : ℝ) < 0 := by exact_mod_cast hneg
      have hlt' : (far : ℝ) < near := by exact_mod_cast hlt
      exact ⟨div_pos_of_neg_of_neg hneg' (hlt'.trans hneg'),
        (div_lt_one_of_neg (hlt'.trans hneg')).mpr hlt'⟩
  have hnear : (near : ℝ) * (1 / (2 * far)) = near / far / 2 := by
    field_simp
  refine ⟨1 / (2 * far), by field_simp, ?_, ?_⟩ <;> rw [hnear] <;> linarith

/-- Behind the limit there is a contrast for which the true product is a half, and goes up to one, where that
of the shorter distance goes down to zero. -/
theorem unseen_iff_offset (brightness : ℝ) (depth : Depth) :
    (∀ contrast, Unseen brightness contrast depth)
      ↔ |brightness * depth.maxValue| < limit + 1 / 2 := by
  constructor
  · intro h
    by_contra hlarge
    obtain ⟨hlow, -⟩ := middle_real depth
    have hblack : 0 ≤ (0 : ℤ) ∧ 0 ≤ (depth.maxValue : ℤ) := ⟨le_rfl, Int.natCast_nonneg _⟩
    obtain ⟨contrast, hhalf, hpos, hless⟩ := exists_half (distance_of_large hblack hlarge)
    have hentry := (adjustedBy_eq_iff hblack brightness contrast).mp (unseen_iff.mp (h contrast) 0 hblack)
    rcases hentry with hround | hdark | hbright
    · have hone : 1 ≤ nearest (1 / 2) := (le_nearest_iff one_pos).mpr (by norm_num)
      rw [← hhalf, ← hround, le_nearest_iff one_pos] at hone
      push_cast at hone
      linarith
    · linarith
    · linarith
  · intro h contrast
    refine unseen_iff.mpr fun v hv => (adjustedBy_eq_iff hv brightness contrast).mpr (.inl ?_)
    rw [distance_of_small h]

/-- A contrast that takes black or white out of the range when they are moved by the limit, or that
takes every distance to zero. Then it does not matter how far beyond the limit the offset was. -/
def Decisive (contrast : ℝ) (depth : Depth) : Prop :=
  contrast = 0 ∨ middle depth < nearest ((limit - middle depth) * contrast)
    ∨ middle depth < nearest ((limit - middle depth - 1) * -contrast)

theorem decisive_iff : Decisive contrast depth
    ↔ contrast = 0 ∨ middle depth + 1 / 2 ≤ (limit - middle depth) * contrast
      ∨ middle depth + 1 / 2 ≤ (limit - middle depth - 1) * -contrast := by
  rw [Decisive, middle_lt_nearest_iff, middle_lt_nearest_iff]

/-- There is a brightness for every offset. -/
theorem exists_brightness (depth : Depth) (n v : ℤ) : ∃ brightness : ℝ,
    distance nearest brightness depth v = v + n - middle depth
      ∧ distance bounded brightness depth v = v + max (-limit) (min limit n) - middle depth := by
  have htop := maxValue_eq depth
  have hne : (depth.maxValue : ℝ) ≠ 0 := by exact_mod_cast (by omega : depth.maxValue ≠ 0)
  refine ⟨n / depth.maxValue, ?_, ?_⟩
  · rw [distance_real, div_mul_cancel₀ _ hne, nearest_intCast]
  · rw [distance_real, div_mul_cancel₀ _ hne, bounded_real, nearest_intCast]

theorem exists_far {factor : ℝ} (h : 0 < factor) (start product : ℝ) :
    ∃ n : ℕ, limit ≤ n ∧ product ≤ (n - start) * factor := by
  obtain ⟨n, hn⟩ := exists_nat_ge (max (limit : ℝ) (product / factor + start))
  refine ⟨n, by exact_mod_cast (le_max_left _ _).trans hn, ?_⟩
  rw [← div_le_iff₀ h]
  linarith [(le_max_right _ _).trans hn]

/-- A decisive contrast takes every distance behind the limit to an end of the range. -/
theorem Decisive.leaves (h : Decisive contrast depth) (hne : contrast ≠ 0) {x : ℝ}
    (hx : (limit : ℝ) - middle depth ≤ x ∨ x ≤ -((limit : ℝ) - middle depth - 1)) :
    x * contrast ≤ 1 / 2 - middle depth ∨ middle depth + 1 / 2 ≤ x * contrast := by
  have hlimit := limit_real
  obtain ⟨hlow, hhigh⟩ := middle_real depth
  rcases decisive_iff.mp h with hzero | hpos | hneg
  · exact absurd hzero hne
  · have hcontrast : 0 < contrast := by
      refine pos_of_mul_pos_right ?_ (by linarith : (0 : ℝ) ≤ limit - middle depth)
      linarith
    rcases hx with hx | hx
    · exact .inr (hpos.trans (mul_le_mul_of_nonneg_right hx hcontrast.le))
    · left
      have hproduct := mul_le_mul_of_nonneg_right hx hcontrast.le
      -- Below the middle the shortest distance is one less, and so is the way to the end of the range.
      rcases le_total contrast 1 with hone | hone
      · linarith
      · have hsteep : (limit : ℝ) - middle depth - 1 ≤ (limit - middle depth - 1) * contrast :=
          le_mul_of_one_le_right (by linarith) hone
        linarith
  · have hcontrast : 0 < -contrast := by
      refine pos_of_mul_pos_right ?_ (by linarith : (0 : ℝ) ≤ limit - middle depth - 1)
      linarith
    rcases hx with hx | hx
    · left
      have hproduct := mul_le_mul_of_nonneg_right hx hcontrast.le
      linarith
    · right
      have hproduct := mul_le_mul_of_nonneg_right (neg_le_neg hx) hcontrast.le
      linarith

theorem Decisive.unseen (h : Decisive contrast depth) (brightness : ℝ) :
    Unseen brightness contrast depth := by
  have htop : (depth.maxValue : ℝ) = 2 * middle depth + 1 := by exact_mod_cast maxValue_eq depth
  refine unseen_iff.mpr fun v hv => (adjustedBy_eq_iff hv brightness contrast).mpr ?_
  have hv0 : (0 : ℝ) ≤ v := by exact_mod_cast hv.1
  have hv' : (v : ℝ) ≤ depth.maxValue := by exact_mod_cast hv.2
  by_cases hzero : contrast = 0
  · exact .inl (by rw [hzero, mul_zero, mul_zero])
  rcases distance_cases brightness depth v with hsame | ⟨habove, -⟩ | ⟨hbelow, -⟩
  · exact .inl (by rw [hsame])
  · refine .inr (h.leaves hzero (.inl ?_))
    rw [habove]
    push_cast
    linarith
  · refine .inr (h.leaves hzero (.inr ?_))
    rw [hbelow]
    push_cast
    linarith

/-- If a brightness takes a distance to the bright end and the bounds do not show, the limit takes it
there as well. -/
theorem bright_of_unseen (h : ∀ brightness, Unseen brightness contrast depth)
    (hv : 0 ≤ v ∧ v ≤ depth.maxValue) (n : ℤ)
    (hnear : 0 ≤ ((v + max (-limit) (min limit n) - middle depth : ℤ) : ℝ) * contrast)
    (hfar : middle depth + 1 / 2 ≤ ((v + n - middle depth : ℤ) : ℝ) * contrast) :
    middle depth + 1 / 2 ≤ ((v + max (-limit) (min limit n) - middle depth : ℤ) : ℝ) * contrast := by
  obtain ⟨hlow, -⟩ := middle_real depth
  obtain ⟨brightness, hdistance, hbounded⟩ := exists_brightness depth n v
  have hentry := unseen_iff.mp (h brightness) v hv
  rw [adjustedBy_eq_iff hv, hdistance, hbounded] at hentry
  rcases hentry with hround | hdark | hbright
  · rw [← middle_lt_nearest_iff] at hfar ⊢
    rwa [hround]
  · linarith
  · exact hbright

/-- A contrast that is not decisive keeps black or white inside the range when it is moved by the limit, but
there is a brightness that takes it to the bright end. -/
theorem unseen_iff_contrast (contrast : ℝ) (depth : Depth) :
    (∀ brightness, Unseen brightness contrast depth) ↔ Decisive contrast depth := by
  refine ⟨fun h => decisive_iff.mpr ?_, fun h => h.unseen⟩
  have hlimit : limit = 1000000000000000 := rfl
  have hreal := limit_real
  obtain ⟨hlow, hhigh⟩ := middle_real depth
  rcases lt_trichotomy contrast 0 with hneg | hzero | hpos
  · obtain ⟨n, hn, hfar⟩ := exists_far (neg_pos.mpr hneg) (middle depth + 1) (middle depth + 1 / 2)
    have hmoved : max (-limit) (min limit (-(n : ℤ))) = -limit := by omega
    have htop : (depth.maxValue : ℝ) = 2 * middle depth + 1 := by exact_mod_cast maxValue_eq depth
    have hwhite := bright_of_unseen h ⟨Int.natCast_nonneg _, le_refl (depth.maxValue : ℤ)⟩ (-n)
    rw [hmoved] at hwhite
    push_cast at hwhite
    rw [htop] at hwhite
    refine .inr (.inr ?_)
    have hproduct : 0 ≤ (limit - middle depth - 1) * -contrast :=
      mul_nonneg (by linarith) (neg_pos.mpr hneg).le
    linarith [hwhite (by linarith) (by linarith)]
  · exact .inl hzero
  · obtain ⟨n, hn, hfar⟩ := exists_far hpos (middle depth) (middle depth + 1 / 2)
    have hmoved : max (-limit) (min limit (n : ℤ)) = limit := by omega
    have hblack := bright_of_unseen h ⟨le_refl (0 : ℤ), Int.natCast_nonneg _⟩ n
    rw [hmoved] at hblack
    push_cast at hblack
    refine .inr (.inl ?_)
    have hproduct : 0 ≤ (limit - middle depth) * contrast := mul_nonneg (by linarith) hpos.le
    linarith [hblack (by linarith) (by linarith)]

/-! ## The tables of the filter -/

/-- What the two bounds do to the tables of a depth behind given powers. The fields go from a single
table to all of them: what the bound of the product does, when that of the offset is seen in a
table, and which contrasts and brightnesses are safe whatever the other number is. -/
structure Bounds (brightness contrast : ℝ) (depth : Depth) (powers : ℕ → ℤ) : Prop where
  /-- The bound of the product never shows, whatever the offset is. -/
  product (offsetOf : ℝ → ℤ) :
    tableBy offsetOf bounded brightness contrast depth powers
      = tableBy offsetOf nearest brightness contrast depth powers
  /-- That of the offset shows unless for each value both products are rounded alike or that of the
  bounded distance has left the range. -/
  offset_iff :
    tableBy bounded bounded brightness contrast depth powers
        = tableBy nearest nearest brightness contrast depth powers
      ↔ ∀ v ≤ depth.maxValue,
        nearest (distance bounded brightness depth (powers v) * contrast)
            = nearest (distance nearest brightness depth (powers v) * contrast)
          ∨ distance bounded brightness depth (powers v) * contrast ≤ 1 / 2 - middle depth
          ∨ middle depth + 1 / 2 ≤ distance bounded brightness depth (powers v) * contrast
  /-- An entry that shows it is too near to the middle. -/
  between : ∀ v ≤ depth.maxValue,
    adjustedBy bounded bounded brightness contrast depth (powers v)
      ∈ Set.uIcc (middle depth) (adjustedBy nearest nearest brightness contrast depth (powers v))
  /-- It shows with no contrast exactly if the offset is within the limit. -/
  anyContrast_iff : (∀ c, Unseen brightness c depth) ↔ |brightness * depth.maxValue| < limit + 1 / 2
  /-- It shows with no brightness exactly if the contrast takes every distance to zero, or the limit out of
  the range. -/
  anyBrightness_iff : (∀ b, Unseen b contrast depth)
    ↔ contrast = 0 ∨ middle depth + 1 / 2 ≤ (limit - middle depth) * contrast
      ∨ middle depth + 1 / 2 ≤ (limit - middle depth - 1) * -contrast
  /-- The powers of the filter are values of the depth. -/
  powers_inRange (gamma : ℝ) : InRange depth (powered gamma depth.maxValue)
  /-- The tables of the filter have both bounds. -/
  table_eq (settings : Contrast) : ∀ component ∉ (FilterSettings.contrast settings).untouched,
    (settings.luts depth).table component
      = some (tableBy bounded bounded settings.brightness settings.contrast depth
          (powered settings.gamma depth.maxValue))

/-- With exact fractions the bounds do to every table what `Bounds` says. An offset within the limit is safe
whatever the contrast is and a decisive contrast whatever the brightness is, and no others are. -/
theorem bounds_unseen (brightness contrast : ℝ) (depth : Depth) {powers : ℕ → ℤ}
    (hpowers : InRange depth powers) : Bounds brightness contrast depth powers where
  product offsetOf :=
    tableBy_eq_iff.mpr fun v _ => adjustedBy_bounded_product offsetOf brightness contrast depth _
  offset_iff := by
    rw [tableBy_eq_iff]
    exact forall₂_congr fun v hv => adjustedBy_eq_iff (hpowers v hv) brightness contrast
  between v hv := adjustedBy_between (hpowers v hv) brightness contrast
  anyContrast_iff := unseen_iff_offset brightness depth
  anyBrightness_iff := (unseen_iff_contrast contrast depth).trans decisive_iff
  powers_inRange gamma := inRange_powered gamma depth
  table_eq settings component hcomponent := by
    rw [table_luts_of_touched hcomponent depth]
    exact congrArg some (Luts.tableOf_congr fun v _ => (adjustedBy_bounded ..).symm)

/-- A large offset and a contrast that nearly takes it back: the product is one with the bounds and 255
without them. -/
theorem products_faintContrast {v : ℤ} (hv : 0 ≤ v ∧ v ≤ Depth.eight.maxValue) :
    nearest (distance bounded (2 ^ 50 : ℝ) .eight v * (1 / 2 ^ 50)) = 1
      ∧ nearest (distance nearest (2 ^ 50 : ℝ) .eight v * (1 / 2 ^ 50)) = 255 := by
  have hlimit : limit = 1000000000000000 := rfl
  have hmiddle : middle .eight = 127 := rfl
  have hoffset : nearest (2 ^ 50 * (Depth.eight.maxValue : ℝ)) = 287104476244869120 := by
    have hwhole : (2 : ℝ) ^ 50 * (Depth.eight.maxValue : ℝ) = (287104476244869120 : ℕ) := by
      norm_num [Depth.maxValue]
    rw [hwhole, nearest_natCast]
    rfl
  have hbounded : distance bounded (2 ^ 50 : ℝ) .eight v = v + 999999999999873 := by
    rw [distance_real, bounded_real, hoffset]
    omega
  have hnearest : distance nearest (2 ^ 50 : ℝ) .eight v = v + 287104476244868993 := by
    rw [distance_real, hoffset]
    omega
  have hlow : (0 : ℝ) ≤ v := by exact_mod_cast hv.1
  have hhigh : (v : ℝ) ≤ 255 := by exact_mod_cast hv.2
  rw [hbounded, hnearest]
  constructor
  · refine nearest_eq_of_pos one_pos ?_ ?_ <;> push_cast <;> linarith
  · refine nearest_eq_of_pos (by decide) ?_ ?_ <;> push_cast <;> linarith

/-- A brightness of 2^50 makes every value white, also with a contrast of 2^-50. With the bounds every
value comes out gray. -/
theorem bounds_unseen_faintContrast :
    InRange .eight (powered (1 : ℝ) 255)
      ∧ tableBy bounded bounded (2 ^ 50 : ℝ) (1 / 2 ^ 50) .eight (powered (1 : ℝ) 255)
          = Luts.tableOf .eight (fun _ => 128)
      ∧ tableBy nearest nearest (2 ^ 50 : ℝ) (1 / 2 ^ 50) .eight (powered (1 : ℝ) 255)
          = Luts.tableOf .eight (fun _ => 255)
      ∧ tableBy bounded bounded (2 ^ 50 : ℝ) (1 / 2 ^ 50) .eight (powered (1 : ℝ) 255)
          ≠ tableBy nearest nearest (2 ^ 50 : ℝ) (1 / 2 ^ 50) .eight (powered (1 : ℝ) 255) := by
  have hpowers : InRange .eight (powered (1 : ℝ) 255) := inRange_powered 1 .eight
  have htables := (bounds_unseen (2 ^ 50) (1 / 2 ^ 50) .eight hpowers).offset_iff
  refine ⟨hpowers, Luts.tableOf_congr fun v hv => ?_, Luts.tableOf_congr fun v hv => ?_, fun heq => ?_⟩
  · rw [adjustedBy_bounded_product, adjustedBy, Arith.ofInt_real, (products_faintContrast (hpowers v hv)).1]
    rfl
  · rw [adjustedBy, Arith.ofInt_real, (products_faintContrast (hpowers v hv)).2]
    rfl
  · obtain ⟨hgray, hwhite⟩ := products_faintContrast (hpowers 0 (Nat.zero_le _))
    have hblack := htables.mp heq 0 (Nat.zero_le _)
    rw [← nearest_le_neg_middle_iff, ← middle_lt_nearest_iff, hgray, hwhite] at hblack
    exact absurd hblack (by decide)

end Contrast

end Darkroom
