import Darkroom.Proofs.Arithmetic.Exact
import Darkroom.Proofs.Decimal.Quotient
import Darkroom.Proofs.Filter.Tables
import Darkroom.Proofs.Tone.Curves.Conversion

/-!
# Free curves at 16 bits

A level at 8 bits is the first of 257 levels at 16 bits. With exact fractions the value of the place `r`
behind the level `j` weighs the values of `j` and of the next level with `257 - r` and `r`, and is a whole
number before it is rounded (`Curve.stretchedEntry_real`). So nothing is rounded, and a curve that does not
fall does not fall at 16 bits either (`Curve.weighed_mono`).

The way back takes the first of each 257 levels, where the next level has no weight, and divides it by 257
to the nearest. That restores the values in any arithmetic which keeps the first of the 257 levels exact
(`Curve.values_back`): with exact fractions, and with doubles as long as a whole number is rounded to itself
(`Curve.keepsFirst_double`).
-/

namespace Darkroom

namespace Curve

open Decimal (ofNat_mul ofNat_add_zero)

/-! ## Conversion in an arithmetic -/

/-- A curve at the other depth, not yet drawn, with the values of a free curve interpolated in
some arithmetic. Smooth curves have nothing to interpolate, and neither has the way to the
smaller depth. -/
def rescaledIn (α : Type) [Arith α] (target : Depth) (c : Curve) : Curve :=
  if c.kind = .free ∧ target = .sixteen then
    { c.rescaled target with values := stretched α c.values }
  else c.rescaled target

/-- A curve at another depth, with the same arithmetic. In running doubles this is the conversion
itself. -/
def convertedIn (α : Type) [Arith α] (source target : Depth) (c : Curve) : Curve :=
  if source = target then c else (c.rescaledIn α target).calculate target

variable {c : Curve}

theorem rescaled_sixteen (hfree : c.kind = .free) : c.rescaled .sixteen
    = { linear .sixteen with kind := .free, values := stretched Float c.values } := by
  simp only [rescaled, hfree]

theorem rescaled_eight (hfree : c.kind = .free) : c.rescaled .eight
    = { linear .eight with kind := .free, values := thinned c.values } := by
  simp only [rescaled, hfree]

/-- In doubles this is the conversion of curves. -/
theorem convertedIn_double (source target : Depth) (c : Curve) :
    c.convertedIn Float source target = c.converted source target := by
  have hrescaled : c.rescaledIn Float target = c.rescaled target := by
    rw [rescaledIn]
    split
    · rename_i h
      obtain ⟨hfree, rfl⟩ := h
      rw [rescaled_sixteen hfree]
    · rfl
  rw [convertedIn, converted, hrescaled]

/-! ## Weights -/

/-- The values of the level `j` and the next one, weighed at the place `r` between them. The last
level has no next one and is weighed with itself. -/
def weighed (values : Array UInt16) (j r : ℕ) : ℕ :=
  (257 - r) * (values.getD j 0).toNat + r * (values.getD (min (j + 1) 255) 0).toNat

variable {values : Array UInt16}

theorem Full.level_le (h : Full .eight values) (j : ℕ) : (values.getD j 0).toNat ≤ 255 := by
  rw [Array.getD_eq_getD_getElem?]
  cases hj : values[j]? with
  | none => exact Nat.zero_le _
  | some v => exact h.2 v (Array.mem_of_getElem? hj)

theorem Full.weighed_le (h : Full .eight values) (j : ℕ) {r : ℕ} (hr : r < 257) :
    weighed values j r ≤ 65535 :=
  calc weighed values j r ≤ (257 - r) * 255 + r * 255 :=
        Nat.add_le_add (Nat.mul_le_mul_left _ (h.level_le j))
          (Nat.mul_le_mul_left _ (h.level_le _))
    _ = 65535 := by omega

@[simp]
theorem weighed_first (values : Array UInt16) (j : ℕ) :
    weighed values j 0 = 257 * (values.getD j 0).toNat := by
  rw [weighed, Nat.zero_mul, Nat.add_zero]

/-- Towards a larger value the weighed ones go up by equal steps. -/
theorem weighed_of_le {j r : ℕ} (hr : r < 257)
    (h : (values.getD j 0).toNat ≤ (values.getD (min (j + 1) 255) 0).toNat) :
    weighed values j r = 257 * (values.getD j 0).toNat
      + r * ((values.getD (min (j + 1) 255) 0).toNat - (values.getD j 0).toNat) := by
  obtain ⟨step, hstep⟩ := Nat.exists_eq_add_of_le h
  obtain ⟨rest, hrest⟩ := Nat.exists_eq_add_of_le hr.le
  rw [weighed, hstep, Nat.add_sub_cancel_left]
  have hback : 257 - r = rest := by omega
  rw [hback, hrest]
  ring

/-- If values do not fall, the weighed ones do not fall from one place to a later one. -/
theorem weighed_mono
    (hmono : ∀ i j, i ≤ j → j ≤ 255 → (values.getD i 0).toNat ≤ (values.getD j 0).toNat)
    {j r k s : ℕ} (hr : r < 257) (hs : s < 257) (hle : 257 * j + r ≤ 257 * k + s)
    (hlast : 257 * k + s < 65536) : weighed values j r ≤ weighed values k s := by
  have hup : ∀ i ≤ 255, (values.getD i 0).toNat ≤ (values.getD (min (i + 1) 255) 0).toNat :=
    fun i hi => hmono i (min (i + 1) 255) (by omega) (by omega)
  have hk : k ≤ 255 := by omega
  rcases Nat.lt_or_ge j k with hjk | hkj
  · -- The values in front of level `k` stay below its own one.
    have hnext : (values.getD (min (j + 1) 255) 0).toNat ≤ (values.getD k 0).toNat :=
      hmono _ _ (by omega) hk
    have hhere : (values.getD j 0).toNat ≤ (values.getD k 0).toNat := hmono _ _ hjk.le hk
    calc weighed values j r
        ≤ (257 - r) * (values.getD k 0).toNat + r * (values.getD k 0).toNat :=
          Nat.add_le_add (Nat.mul_le_mul_left _ hhere) (Nat.mul_le_mul_left _ hnext)
      _ = 257 * (values.getD k 0).toNat := by
          rw [← Nat.add_mul, Nat.sub_add_cancel hr.le]
      _ ≤ weighed values k s := by
          rw [weighed_of_le hs (hup k hk)]
          exact Nat.le_add_right _ _
  · obtain rfl : j = k := by omega
    rw [weighed_of_le hr (hup j hk), weighed_of_le hs (hup j hk)]
    exact Nat.add_le_add_left (Nat.mul_le_mul_right _ (by omega)) _

/-! ## Exact fractions -/

/-- With exact fractions an interpolated value is whole before it is rounded. -/
theorem stretchedEntry_real (h : Full .eight values) (j : ℕ) {r : ℕ} (hr : r < 257) :
    stretchedEntry ℝ values (257 * j + r) = weighed values j r := by
  have hquotient : (257 * j + r) / 257 = j := by omega
  have hrest : (257 * j + r) % 257 = r := by omega
  have hsize : values.size - 1 = 255 := by rw [h.1]; rfl
  have hexact : ((1 - (r : ℝ) / 257) * (values.getD j 0).toNat
      + r / 257 * (values.getD (min (j + 1) 255) 0).toNat) * 257 = (weighed values j r : ℝ) := by
    rw [weighed, Nat.cast_add, Nat.cast_mul, Nat.cast_mul, Nat.cast_sub hr.le]
    push_cast
    ring
  have hentry : stretchedEntry ℝ values (257 * j + r) = roundClamp (weighed values j r : ℝ) 65535 := by
    rw [← hexact, stretchedEntry, hquotient, hrest, hsize]
    simp only [Arith.ofNat_real, Nat.cast_one, Nat.cast_ofNat]
  rw [hentry, roundClamp_natCast (h.weighed_le j hr) (by decide)]

theorem getElem?_stretched (h : Full .eight values) {j r : ℕ} (hr : r < 257)
    (hlast : 257 * j + r < 65536) :
    (stretched ℝ values)[257 * j + r]? = some (UInt16.ofNat (weighed values j r)) := by
  have hmax : Depth.sixteen.maxValue = 65535 := rfl
  have hlevel : 257 * j + r ≤ Depth.sixteen.maxValue := by omega
  rw [stretched, Luts.getElem?_tableOf hlevel, stretchedEntry_real h j hr]

theorem Full.toNat_stretched (h : Full .eight values) {j r : ℕ} (hr : r < 257)
    (hlast : 257 * j + r < 65536) :
    ((stretched ℝ values).getD (257 * j + r) 0).toNat = weighed values j r := by
  have hle := h.weighed_le j hr
  have hlt : weighed values j r < 2 ^ 16 := by omega
  rw [Array.getD_eq_getD_getElem?, getElem?_stretched h hr hlast, Option.getD_some,
    UInt16.toNat_ofNat_of_lt' hlt]

/-! ## And back -/

/-- An arithmetic that keeps the first of the 257 levels of each level exact. The way back looks at
these levels only, so an arithmetic with this property has the round trip, whatever it does in
between. -/
def KeepsFirst (α : Type) [Arith α] : Prop :=
  ∀ values, Full .eight values → ∀ j ≤ 255,
    stretchedEntry α values (257 * j) = 257 * (values.getD j 0).toNat

theorem keepsFirst_real : KeepsFirst ℝ := fun values h j _ => by
  have hfirst := stretchedEntry_real h j (r := 0) (by decide)
  rwa [Nat.add_zero, weighed_first] at hfirst

theorem thinned_stretched {α : Type} [Arith α] (hα : KeepsFirst α) (h : Full .eight values) :
    thinned (stretched α values) = values := by
  have hmax : Depth.sixteen.maxValue = 65535 := rfl
  have hsize : values.size = 256 := h.1
  have hstretched : (stretched α values).size = 65536 := Luts.size_tableOf .sixteen _
  have hcount : ((stretched α values).size + 256) / 257 = 256 := by rw [hstretched]
  refine Array.ext (Array.size_ofFn.trans (hcount.trans hsize.symm)) fun j hj hj' => ?_
  have hlevel : 257 * j ≤ Depth.sixteen.maxValue := by omega
  have hhere : values.getD j 0 = values[j] := by
    rw [Array.getD_eq_getD_getElem?, Array.getElem?_eq_getElem hj', Option.getD_some]
  have hvalue : values[j].toNat ≤ 255 := h.2 _ (Array.getElem_mem hj')
  have hfirst : (stretched α values).getD (257 * j) 0 = UInt16.ofNat (257 * values[j].toNat) := by
    rw [stretched, Array.getD_eq_getD_getElem?, Luts.getElem?_tableOf hlevel, Option.getD_some,
      hα values h j (by omega), hhere]
  have hthinned : (thinned (stretched α values))[j]
      = downscale ((stretched α values).getD (257 * j) 0) := Array.getElem_ofFn hj
  have hlt : 257 * values[j].toNat < 2 ^ 16 := by omega
  rw [hthinned, hfirst, ← UInt16.toNat_inj, toNat_downscale, UInt16.toNat_ofNat_of_lt' hlt]
  omega

theorem calculate_of_free (hfree : c.kind = .free) (depth : Depth) : c.calculate depth = c := by
  rw [← Tracing.calculate_catmullRom]
  exact Tracing.catmullRom.calculate_of_free hfree

/-- A free curve at 16 bits has the interpolated values, and empty slots but for the ends. -/
theorem convertedIn_sixteen (α : Type) [Arith α] (hfree : c.kind = .free) :
    c.convertedIn α .eight .sixteen
      = { linear .sixteen with kind := .free, values := stretched α c.values } := by
  have hrescaled : c.rescaledIn α .sixteen
      = { linear .sixteen with kind := .free, values := stretched α c.values } := by
    rw [rescaledIn, if_pos ⟨hfree, rfl⟩, rescaled_sixteen hfree]
  rw [convertedIn, if_neg (by decide), hrescaled, calculate_of_free rfl]

/-- A free curve at 8 bits has every 257th value. -/
theorem convertedIn_eight (α : Type) [Arith α] (hfree : c.kind = .free) :
    c.convertedIn α .sixteen .eight
      = { linear .eight with kind := .free, values := thinned c.values } := by
  have hrescaled : c.rescaledIn α .eight
      = { linear .eight with kind := .free, values := thinned c.values } := by
    rw [rescaledIn, if_neg (fun h => by cases h.2), rescaled_eight hfree]
  rw [convertedIn, if_neg (by decide), hrescaled, calculate_of_free rfl]

/-- To 16 bits and back a free curve has the values that it had. -/
theorem values_back {α : Type} [Arith α] (hα : KeepsFirst α) (h : c.WellFormed .eight)
    (hfree : c.kind = .free) :
    ((c.convertedIn α .eight .sixteen).convertedIn α .sixteen .eight).values = c.values := by
  rw [convertedIn_sixteen α hfree, convertedIn_eight α rfl]
  dsimp only
  rw [thinned_stretched hα (wellFormed_iff.mp h).1]

/-! ## Doubles -/

/-- Doubles keep the first of 257 levels exact, as long as whole numbers are rounded to themselves. Up to
the rounding all numbers are whole, and the next level has no weight. -/
theorem keepsFirst_double
    (hround : ∀ n ≤ 65535, Arith.round (Float.ofNat n) = n) : KeepsFirst Float := by
  intro values h j hj
  have hshare : Float.ofNat 0 / Float.ofNat 257 = Float.ofNat 0 := by decide +kernel
  have hwhole : Float.ofNat 1 - Float.ofNat 0 = Float.ofNat 1 := by decide +kernel
  have hquotient : 257 * j / 257 = j := by omega
  have hrest : 257 * j % 257 = 0 := by omega
  have ha := h.level_le j
  have hb := h.level_le (min (j + 1) (values.size - 1))
  have hentry : stretchedEntry Float values (257 * j)
      = roundClamp (Float.ofNat (257 * (values.getD j 0).toNat)) 65535 := by
    rw [stretchedEntry, hquotient, hrest]
    show roundClamp (((Float.ofNat 1 - Float.ofNat 0 / Float.ofNat 257)
        * Float.ofNat (values.getD j 0).toNat + Float.ofNat 0 / Float.ofNat 257
          * Float.ofNat (values.getD (min (j + 1) (values.size - 1)) 0).toNat)
        * Float.ofNat 257) 65535 = _
    rw [hshare, hwhole, ofNat_mul (by decide) (by omega) (by omega),
      ofNat_mul (by decide) (by omega) (by omega), Nat.one_mul, Nat.zero_mul,
      ofNat_add_zero (by omega), ofNat_mul (by omega) (by decide) (by omega), Nat.mul_comm]
  rw [hentry, roundClamp, hround _ (by omega), Arith.clampNat, Int.toNat_natCast]
  omega

end Curve

namespace Curves

open Curve (Full stretched)

def convertedIn (α : Type) [Arith α] (c : Curves) (depth : Depth) : Curves :=
  ⟨depth, c.channels.map (Curve.convertedIn α c.depth depth)⟩

theorem convertedIn_double (c : Curves) (depth : Depth) :
    c.convertedIn Float depth = c.converted depth := by
  rw [convertedIn, converted]
  exact congrArg (fun f => Curves.mk depth (c.channels.map f))
    (funext fun curve => Curve.convertedIn_double c.depth depth curve)

theorem get_convertedIn (α : Type) [Arith α] (c : Curves) (depth : Depth) (channel : Channel) :
    (c.convertedIn α depth).channels.get channel
      = (c.channels.get channel).convertedIn α c.depth depth :=
  PerChannel.get_map ..

theorem values_back {α : Type} [Arith α] (hα : Curve.KeepsFirst α) {c : Curves} (h : c.WellFormed)
    (hdepth : c.depth = .eight) {channel : Channel} (hfree : (c.channels.get channel).kind = .free) :
    (((c.convertedIn α .sixteen).convertedIn α .eight).channels.get channel).values
      = (c.channels.get channel).values := by
  have hcurve : (c.channels.get channel).WellFormed .eight := hdepth ▸ h channel
  have hmiddle : (c.convertedIn α .sixteen).depth = .sixteen := rfl
  rw [get_convertedIn, get_convertedIn, hmiddle, hdepth]
  exact Curve.values_back hα hcurve hfree

/-- With exact fractions a free curve at 16 bits runs straight from each of its 256 values to the next one,
and nothing is rounded; where the values do not fall, the curve does not. At 8 bits again it has the values
that it had, also with doubles as long as these round a whole number to itself. -/
theorem free_interpolated :
    (∀ values, Full .eight values →
      (stretched ℝ values).size = 65536
      ∧ (∀ j r, r < 257 → 257 * j + r < 65536 →
          (stretched ℝ values)[257 * j + r]? = some (UInt16.ofNat ((257 - r) * (values.getD j 0).toNat
            + r * (values.getD (min (j + 1) 255) 0).toNat))
          ∧ (257 - r) * (values.getD j 0).toNat + r * (values.getD (min (j + 1) 255) 0).toNat ≤ 65535)
      ∧ ((∀ i j, i ≤ j → j ≤ 255 → (values.getD i 0).toNat ≤ (values.getD j 0).toNat) →
          ∀ i k, i ≤ k → k < 65536 →
            ((stretched ℝ values).getD i 0).toNat ≤ ((stretched ℝ values).getD k 0).toNat))
    ∧ ∀ curves : Curves, curves.WellFormed → curves.depth = .eight → ∀ channel,
      (curves.channels.get channel).kind = .free →
        ((curves.convertedIn ℝ .sixteen).channels.get channel).values
          = stretched ℝ (curves.channels.get channel).values
        ∧ (((curves.convertedIn ℝ .sixteen).convertedIn ℝ .eight).channels.get channel).values
          = (curves.channels.get channel).values
        ∧ ((∀ n ≤ 65535, Arith.round (Float.ofNat n) = n) →
          (((curves.converted .sixteen).converted .eight).channels.get channel).values
            = (curves.channels.get channel).values) := by
  refine ⟨fun values h => ⟨Luts.size_tableOf .sixteen _, fun j r hr hlast =>
    ⟨Curve.getElem?_stretched h hr hlast, h.weighed_le j hr⟩, fun hmono i k hik hk => ?_⟩,
    fun curves h hdepth channel hfree => ⟨?_, values_back Curve.keepsFirst_real h hdepth hfree,
      fun hround => ?_⟩⟩
  · have hi : i % 257 < 257 := Nat.mod_lt _ (by decide)
    have hk' : k % 257 < 257 := Nat.mod_lt _ (by decide)
    rw [← Nat.div_add_mod i 257, ← Nat.div_add_mod k 257] at hik ⊢
    rw [← Nat.div_add_mod k 257] at hk
    rw [h.toNat_stretched hi (hik.trans_lt hk), h.toNat_stretched hk' hk]
    exact Curve.weighed_mono hmono hi hk' hik hk
  · rw [get_convertedIn, hdepth, Curve.convertedIn_sixteen ℝ hfree]
  · rw [← convertedIn_double, ← convertedIn_double]
    exact values_back (Curve.keepsFirst_double hround) h hdepth hfree

def threshold : Array UInt16 :=
  Luts.tableOf .eight fun v => if v < 128 then 0 else 255

def freeRed : Curves :=
  (new .eight).edit (.setKind .red .free)

/-- A hundred places behind the last black level the curve is at 25500, and the line comes back. -/
theorem free_interpolated_threshold :
    Full .eight threshold ∧ (stretched ℝ threshold)[257 * 127 + 100]? = some 25500
      ∧ freeRed.WellFormed ∧ freeRed.depth = .eight ∧ (freeRed.channels.get .red).kind = .free
      ∧ (((freeRed.convertedIn ℝ .sixteen).convertedIn ℝ .eight).channels.get .red).values
        = (freeRed.channels.get .red).values := by
  have hfull : Full .eight threshold := .tableOf fun v _ => by
    split <;> decide
  have hwellFormed : freeRed.WellFormed := wellFormed_edited .eight [.setKind .red .free]
  have hdepth : freeRed.depth = .eight := rfl
  have hfree : (freeRed.channels.get .red).kind = .free := rfl
  obtain ⟨-, hweighed, -⟩ := free_interpolated.1 threshold hfull
  refine ⟨hfull, ?_, hwellFormed, hdepth, hfree,
    (free_interpolated.2 freeRed hwellFormed hdepth .red hfree).2.1⟩
  have hdark : (threshold.getD 127 0).toNat = 0 :=
    Luts.toNat_getD_tableOf (by decide) (by decide) 0
  have hbright : (threshold.getD (min (127 + 1) 255) 0).toNat = 255 :=
    Luts.toNat_getD_tableOf (by decide) (by decide) 0
  rw [(hweighed 127 100 (by decide) (by decide)).1, hdark, hbright]
  rfl

end Curves

end Darkroom
