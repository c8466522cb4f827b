import Darkroom.Proofs.Decimal.Nearest

/-!
# Doubles that are not rounded

Natural numbers of at most 53 bits are doubles (`exactly_ofNat`), and so are their quotients by powers
of two (`Exactly.div_two_pow`) and their products that have no more bits (`ofNat_mul`). Such doubles
compare like the numbers that they are (`Exactly.le`).
-/

namespace Darkroom.Decimal

open Float.Model (UnpackedFloat)

/-- A double with a full significand is a given number above zero. Sums, products and quotients that
are such doubles again are not rounded, and no case of small exponents is left to look at. -/
def Exactly (x : Float) (v : ℚ) : Prop :=
  ∃ (m : ℕ) (q : ℤ) (hc : Canonical m q), x = ofCanonical .positive hc ∧ 2 ^ 52 ≤ m
    ∧ (m * 2 ^ q : ℚ) = v

/-! ## Numbers -/

/-- A decimal with a canonical value is read without rounding. -/
theorem exactly_ofScientific {D m : ℕ} {E q : ℤ} (hD : 0 < D) (hc : Canonical m q)
    (hfull : 2 ^ 52 ≤ m) (hval : (D : ℚ) * 10 ^ E = m * 2 ^ q) (hlow : -2048 ≤ E)
    (hhigh : E ≤ 2048) :
    Exactly (Float.ofScientific D (decide (E < 0)) E.natAbs) (m * 2 ^ q) :=
  ⟨m, q, hc, ofScientific_eq hD hc (near_self _ _) hval (by omega) hhigh, hfull, rfl⟩

theorem exactly_ofNat {n : ℕ} (hpos : 0 < n) (hlt : n < 2 ^ 53) : Exactly (Float.ofNat n) n := by
  have hval : (n : ℚ) * 10 ^ (0 : ℤ)
      = ((n * 2 ^ (52 - n.log2) : ℕ) : ℚ) * 2 ^ ((n.log2 : ℤ) - 52) := by
    rw [zpow_zero, mul_one, value_shifted hpos hlt]
  have hexactly := exactly_ofScientific hpos (canonical_shifted hpos hlt)
    (full_shifted hpos hlt).1 hval (by decide) (by decide)
  rwa [value_shifted hpos hlt] at hexactly

theorem exactly_two : Exactly 2.0 2 := by
  have hc : Canonical (2 ^ 52) (-51) :=
    ⟨by decide, by decide, by decide, by decide, .inl le_rfl⟩
  have hval : ((20 : ℕ) : ℚ) * 10 ^ (-1 : ℤ) = ((2 ^ 52 : ℕ) : ℚ) * 2 ^ (-51 : ℤ) := by
    norm_num [zpow_neg]
  have hexactly := exactly_ofScientific (by decide) hc le_rfl hval (by decide) (by decide)
  rw [← hval] at hexactly
  norm_num at hexactly
  exact hexactly

theorem exactly_half : Exactly 0.5 (1 / 2) := by
  have hc : Canonical (2 ^ 52) (-53) :=
    ⟨by decide, by decide, by decide, by decide, .inl le_rfl⟩
  have hval : ((5 : ℕ) : ℚ) * 10 ^ (-1 : ℤ) = ((2 ^ 52 : ℕ) : ℚ) * 2 ^ (-53 : ℤ) := by
    norm_num [zpow_neg]
  have hexactly := exactly_ofScientific (by decide) hc le_rfl hval (by decide) (by decide)
  rw [← hval] at hexactly
  norm_num at hexactly
  exact hexactly

theorem ofNat_zero : Float.ofNat 0 = .ofModel (.pack (.zero .positive)) := by
  rfl

theorem unpack_zero : (Float.Model.pack (.zero .positive)).unpack = .zero .positive :=
  UnpackedFloat.unpack_packedZero

/-! ## Quotients -/

/-- A quotient by a power of two has the significand of the dividend. -/
theorem Exactly.div_two_pow {x y : Float} {v : ℚ} {k : ℕ} (hx : Exactly x v)
    (hy : Exactly y (2 ^ k)) (hv : (2 : ℚ) ^ ((k : ℤ) - 1000) ≤ v) :
    Exactly (x / y) (v / 2 ^ k) := by
  obtain ⟨m, q, hc, rfl, hfull, rfl⟩ := hx
  obtain ⟨m', q', hc', rfl, -, hval'⟩ := hy
  have hexp : (k : ℤ) - 1000 < q + 53 := by
    have hm : (m : ℚ) < 2 ^ 53 := by exact_mod_cast hc.lt
    have hlt : (2 : ℚ) ^ ((k : ℤ) - 1000) < 2 ^ (q + 53) := by
      calc (2 : ℚ) ^ ((k : ℤ) - 1000) ≤ m * 2 ^ q := hv
        _ < 2 ^ 53 * 2 ^ q := by gcongr
        _ = 2 ^ (q + 53) := by rw [zpow_add₀ (by norm_num), mul_comm]; norm_num
    exact (zpow_lt_zpow_iff_right₀ (by norm_num)).mp hlt
  have hhigh := hc.high
  have hcanonical : Canonical m (q - k) := ⟨hc.pos, hc.lt, by omega, by omega, .inl hfull⟩
  have hquotient : (m * 2 ^ q : ℚ) / 2 ^ k = m * 2 ^ (q - k) := by
    rw [zpow_sub₀ (by norm_num), zpow_natCast, mul_div_assoc]
  refine ⟨m, q - k, hcanonical, ?_, hfull, hquotient.symm⟩
  rw [ofCanonical_div,
    div_eq hc.pos hc'.pos hcanonical (near_self _ _) (by rw [hval', hquotient]), ofCanonical]

theorem ofNat_zero_div {y : Float} {v : ℚ} (hy : Exactly y v) : Float.ofNat 0 / y = Float.ofNat 0 := by
  obtain ⟨m, q, hc, rfl, -, -⟩ := hy
  have hdiv : Float.ofModel (.pack (.zero .positive)) / ofCanonical .positive hc
      = .ofModel (.pack (UnpackedFloat.div .binary64
          (Float.Model.pack (.zero .positive)).unpack
          (Float.Model.pack (.finite .positive m q hc.pos)).unpack)) := rfl
  rw [ofNat_zero, hdiv, unpack_pack hc, unpack_zero]
  rfl

/-! ## Products -/

theorem Exactly.zero_mul {y : Float} {v : ℚ} (hy : Exactly y v) :
    Float.ofNat 0 * y = Float.ofNat 0 := by
  obtain ⟨m, q, hc, rfl, -, -⟩ := hy
  have hmul : Float.ofModel (.pack (.zero .positive)) * ofCanonical .positive hc
      = .ofModel (.pack (UnpackedFloat.mul .binary64
          (Float.Model.pack (.zero .positive)).unpack
          (Float.Model.pack (.finite .positive m q hc.pos)).unpack)) := rfl
  rw [ofNat_zero, hmul, unpack_pack hc, unpack_zero]
  rfl

theorem Exactly.mul_zero {x : Float} {v : ℚ} (hx : Exactly x v) :
    x * Float.ofNat 0 = Float.ofNat 0 := by
  obtain ⟨m, q, hc, rfl, -, -⟩ := hx
  have hmul : ofCanonical .positive hc * Float.ofModel (.pack (.zero .positive))
      = .ofModel (.pack (UnpackedFloat.mul .binary64
          (Float.Model.pack (.finite .positive m q hc.pos)).unpack
          (Float.Model.pack (.zero .positive)).unpack)) := rfl
  rw [ofNat_zero, hmul, unpack_pack hc, unpack_zero]
  rfl

/-- A product of natural numbers that is a double is not rounded. -/
theorem ofNat_mul {a b : ℕ} (ha : a < 2 ^ 53) (hb : b < 2 ^ 53) (hlt : a * b < 2 ^ 53) :
    Float.ofNat a * Float.ofNat b = Float.ofNat (a * b) := by
  rcases Nat.eq_zero_or_pos b with rfl | hbpos
  · rcases Nat.eq_zero_or_pos a with rfl | hapos
    · rfl
    · exact (exactly_ofNat hapos ha).mul_zero
  rcases Nat.eq_zero_or_pos a with rfl | hapos
  · rw [Nat.zero_mul]
    exact (exactly_ofNat hbpos hb).zero_mul
  obtain ⟨m, q, hc, hx, hfull, hval⟩ := exactly_ofNat hapos ha
  obtain ⟨m', q', hc', hy, -, hval'⟩ := exactly_ofNat hbpos hb
  obtain ⟨m'', q'', hc'', hz, -, hval''⟩ := exactly_ofNat (Nat.mul_pos hapos hbpos) hlt
  have hvalue : (m * 2 ^ q * (m' * 2 ^ q') : ℚ) = m'' * 2 ^ q'' := by
    rw [hval, hval', hval'', Nat.cast_mul]
  rw [hx, hy, hz, ofCanonical_mul, mul_eq hc.pos hc'.pos hc'' (near_self _ _)
    (hfull.trans (Nat.le_mul_of_pos_right _ hc'.pos)) hvalue, ofCanonical]

theorem ofNat_add_zero {a : ℕ} (ha : a < 2 ^ 53) :
    Float.ofNat a + Float.ofNat 0 = Float.ofNat a := by
  rcases Nat.eq_zero_or_pos a with rfl | hpos
  · rfl
  obtain ⟨m, q, hc, hx, -, -⟩ := exactly_ofNat hpos ha
  have hadd : ofCanonical .positive hc + Float.ofModel (.pack (.zero .positive))
      = .ofModel (.pack (UnpackedFloat.add .binary64
          (Float.Model.pack (.finite .positive m q hc.pos)).unpack
          (Float.Model.pack (.zero .positive)).unpack)) := rfl
  rw [hx, ofNat_zero, hadd, unpack_pack hc, unpack_zero]
  rfl

/-! ## Comparisons -/

theorem le_iff_unpack {x y : Float} : x ≤ y ↔ x.toModel.unpack.le y.toModel.unpack :=
  decide_eq_true_iff

theorem lt_iff_unpack {x y : Float} : x < y ↔ x.toModel.unpack.lt y.toModel.unpack :=
  decide_eq_true_iff

theorem Exactly.pos {x : Float} {v : ℚ} (hx : Exactly x v) : Float.ofNat 0 < x := by
  obtain ⟨m, q, hc, rfl, -, -⟩ := hx
  rw [lt_iff_unpack, ofNat_zero, ofCanonical, unpack_pack hc, unpack_zero]
  rfl

theorem not_zero_lt_zero : ¬Float.ofNat 0 < Float.ofNat 0 := by
  rw [lt_iff_unpack, ofNat_zero, unpack_zero]
  exact Bool.false_ne_true

theorem Exactly.le {x y : Float} {u v : ℚ} (hx : Exactly x u) (hy : Exactly y v) (h : u ≤ v) :
    x ≤ y := by
  obtain ⟨m₁, q₁, hc₁, rfl, hfull₁, rfl⟩ := hx
  obtain ⟨m₂, q₂, hc₂, rfl, -, rfl⟩ := hy
  have hle : ofCanonical .positive hc₁ ≤ ofCanonical .positive hc₂
      ↔ ((compare q₁ q₂).then (compare m₁ m₂)).isLE := by
    rw [le_iff_unpack, ofCanonical, ofCanonical, unpack_pack hc₁, unpack_pack hc₂]
    rfl
  rw [hle]
  rcases lt_trichotomy q₁ q₂ with hlt | rfl | hgt
  · rw [compare_lt_iff_lt.mpr hlt]
    rfl
  · rw [compare_eq_iff_eq.mpr rfl]
    exact Nat.isLE_compare.mpr (by exact_mod_cast le_of_mul_le_mul_right h (zpow_two_pos q₁))
  · -- With full significands the larger exponent belongs to the larger number.
    exfalso
    have hm₂ : (m₂ : ℚ) < 2 ^ 53 := by exact_mod_cast hc₂.lt
    have hm₁ : (2 : ℚ) ^ 52 ≤ m₁ := by exact_mod_cast hfull₁
    have hpos := zpow_two_pos q₂
    have hstep : (2 : ℚ) ^ q₂ * 2 ≤ 2 ^ q₁ := by
      rw [← zpow_add_one₀ (by norm_num)]
      exact zpow_le_zpow_right₀ (by norm_num) hgt
    have hgt : (m₂ : ℚ) * 2 ^ q₂ < m₁ * 2 ^ q₁ := by
      calc (m₂ : ℚ) * 2 ^ q₂ < 2 ^ 53 * 2 ^ q₂ := by gcongr
        _ = 2 ^ 52 * (2 ^ q₂ * 2) := by ring
        _ ≤ m₁ * 2 ^ q₁ := by gcongr
    exact absurd h (not_le.mpr hgt)

end Darkroom.Decimal
