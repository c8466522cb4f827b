import Darkroom.Proofs.History.Exact
import Darkroom.Proofs.Image.FirstDifference

/-!
# What a verified image has in common with the replayed one

A replay is verified by its pixels. No filter changes whether an image has alpha, so the replayed image
is marked as the base image is (`keeps_run`), and an expected image that is accepted is the replayed
one, but for that mark (`verify_eq_ok_iff`). The mark does enter equality and the fingerprint. An
expected image of the same geometry that is refused is refused at the first pixel, row by row, in which
the replayed one differs from it (`verify_first_difference`).
-/

namespace Darkroom

namespace Replay

variable {registry : Registry} {base : Image}

theorem keeps_finish (registry : Registry) : ∀ (h : History) {r : Replay}, r.image.WellFormed →
    Image.Keeps [] r.image (finish registry r h).image ∧ (finish registry r h).image.WellFormed
  | [], r, hwf => ⟨.refl [] r.image, hwf⟩
  | a :: h, r, hwf => by
      have himage : (step registry r a).2.image = (effect registry r.image a).2.2 := by
        rw [step_eq]
      have hstep := keeps_effect hwf registry a
      have hnext := wellFormed_effect hwf registry a
      rw [← himage] at hstep hnext
      obtain ⟨hrest, hlast⟩ := keeps_finish registry h hnext
      exact ⟨hstep.trans hrest, hlast⟩

/-- A replay keeps the frame of the base image. -/
theorem keeps_run (hwf : base.WellFormed) (registry : Registry) (h : History) :
    Image.Keeps [] base (run registry base h).image ∧ (run registry base h).image.WellFormed :=
  keeps_finish registry h (r := start base) hwf

theorem verify_eq_ok {h : History} {expected : Image} :
    verify registry base h expected = .ok ()
      ↔ (run registry base h).image.firstDifference? expected = none := by
  rw [verify]
  cases (run registry base h).image.firstDifference? expected with
  | none => exact iff_of_true rfl rfl
  | some p => exact iff_of_false (by rintro ⟨⟩) (by rintro ⟨⟩)

/-- An expected image is accepted exactly if it is the replayed one but for the mark of alpha. One that
is marked as the base image is accepted exactly if it is the replayed one, and then it has the same
fingerprint. -/
theorem verify_eq_ok_iff (registry : Registry) {base expected : Image} (hbase : base.WellFormed)
    (hexpected : expected.WellFormed) (h : History) :
    let image := (run registry base h).image
    (verify registry base h expected = .ok () ↔ image = { expected with hasAlpha := image.hasAlpha })
      ∧ (expected.hasAlpha = base.hasAlpha →
        (verify registry base h expected = .ok () ↔ image = expected)
          ∧ (verify registry base h expected = .ok () →
            expected.contentHash = image.contentHash)) := by
  intro image
  obtain ⟨hkeeps, hwf⟩ := keeps_run hbase registry h
  have hiff : verify registry base h expected = .ok ()
      ↔ image = { expected with hasAlpha := image.hasAlpha } :=
    verify_eq_ok.trans (Image.firstDifference?_eq_none hwf hexpected)
  refine ⟨hiff, fun halpha => ?_⟩
  have hmark : image.hasAlpha = expected.hasAlpha := hkeeps.hasAlpha.trans halpha.symm
  have hequal : verify registry base h expected = .ok () ↔ image = expected := by
    rw [hiff, hmark]
  exact ⟨hequal, fun hok => by rw [hequal.mp hok]⟩

def onePixel (hasAlpha : Bool) : Image :=
  ⟨1, 1, .eight, hasAlpha, #[1, 2, 3, 255]⟩

theorem verify_eq_ok_iff_onePixel :
    (onePixel true).WellFormed
      ∧ verify .builtin (onePixel true) [] (onePixel true) = .ok ()
      ∧ (run .builtin (onePixel true) []).image = onePixel true := by
  have hwf : (onePixel true).WellFormed := Or.inr (by decide)
  obtain ⟨-, hsame⟩ := verify_eq_ok_iff .builtin hwf hwf []
  exact ⟨hwf, (hsame rfl).1.mpr rfl, rfl⟩

/-- An accepted image may be another one than the replayed image, with another fingerprint. -/
theorem verify_otherAlpha :
    (onePixel true).WellFormed ∧ (onePixel false).WellFormed
      ∧ verify .builtin (onePixel true) [] (onePixel false) = .ok ()
      ∧ (run .builtin (onePixel true) []).image ≠ onePixel false
      ∧ (onePixel false).contentHash ≠ (run .builtin (onePixel true) []).image.contentHash := by
  refine ⟨Or.inr (by decide), Or.inr (by decide), rfl, by decide, ?_⟩
  decide +kernel

/-! ## Where a replay is refused -/

theorem verify_eq_error {h : History} {expected : Image} {m : Mismatch} :
    verify registry base h expected = .error m
      ↔ (run registry base h).image.firstDifference? expected = some m.firstDifference
        ∧ (run registry base h).issues = m.issues := by
  rw [verify]
  obtain ⟨p, issues⟩ := m
  cases (run registry base h).image.firstDifference? expected with
  | none => exact iff_of_false (by rintro ⟨⟩) (by rintro ⟨⟨⟩, -⟩)
  | some q => simp only [Except.error.injEq, Mismatch.mk.injEq, Option.some.injEq]

/-- Images of one geometry have no difference exactly if all their bytes agree, and else their first
difference is the first pixel, row by row, whose bytes differ. It is the same for both orders, and the
origin for different geometries. A replay that is compared with an image of its geometry is accepted
exactly if all bytes agree, and is refused with its issues and with the first pixel in which the two
differ. -/
theorem verify_first_difference (registry : Registry) {a b : Image} (ha : a.WellFormed)
    (hb : b.WellFormed) (hsigned : a.dimensions.IsSigned) :
    (a.sameGeometry b →
        (a.firstDifference? b = none ↔ a.bytes = b.bytes)
          ∧ ∀ p, a.firstDifference? b = some p ↔ Image.DifferFirstAt a b p)
      ∧ a.firstDifference? b = b.firstDifference? a
      ∧ (a.sameGeometry b = false → a.firstDifference? b = some ⟨0, 0⟩)
      ∧ ∀ h : History,
        let r := run registry a h
        r.image.sameGeometry b →
          (verify registry a h b = .ok () ↔ r.image.bytes = b.bytes)
            ∧ ∀ m, verify registry a h b = .error m
              ↔ Image.DifferFirstAt r.image b m.firstDifference ∧ r.issues = m.issues := by
  refine ⟨fun hgeometry => ⟨?_, fun p => ?_⟩, Image.firstDifference?_comm a b,
    Image.firstDifference?_of_not_sameGeometry, ?_⟩
  · exact Image.firstDifference?_eq_none_iff_bytes ha hb hgeometry
  · exact Image.firstDifference?_eq_some ha hb hgeometry hsigned
  · intro h r hgeometry
    obtain ⟨hkeeps, hwell⟩ := keeps_run ha registry h
    rw [← hkeeps.dimensions] at hsigned
    refine ⟨?_, fun m => ?_⟩
    · rw [verify_eq_ok, Image.firstDifference?_eq_none_iff_bytes hwell hb hgeometry]
    · rw [verify_eq_error, Image.firstDifference?_eq_some hwell hb hgeometry hsigned]

/-- Two rows of two pixels, with a byte of the upper right and one of the lower left as given. A
difference in the upper one comes first. -/
def square (right lower : UInt8) : Image :=
  ⟨2, 2, .eight, true, #[1, 2, 3, 255, 4, 5, right, 255, 7, lower, 9, 255, 1, 1, 1, 255]⟩

/-- Of a difference in the upper row and one further left in the lower row, the upper one is reported. -/
theorem verify_first_difference_square :
    (square 6 8).WellFormed ∧ (square 0 0).WellFormed ∧ (square 6 8).dimensions.IsSigned
      ∧ Image.DifferFirstAt (square 6 8) (square 0 0) ⟨1, 0⟩
      ∧ verify .builtin (square 6 8) [] (square 0 0) = .error ⟨⟨1, 0⟩, []⟩ := by
  have hwell : (square 6 8).WellFormed := Or.inr (by decide)
  have hexpected : (square 0 0).WellFormed := Or.inr (by decide)
  have hsigned : (square 6 8).dimensions.IsSigned := by decide
  obtain ⟨hsame, -, -, hreplay⟩ := verify_first_difference .builtin hwell hexpected hsigned
  have hfirst : Image.DifferFirstAt (square 6 8) (square 0 0) ⟨1, 0⟩ := by
    obtain ⟨-, hdiffer⟩ := hsame rfl
    exact (hdiffer ⟨1, 0⟩).mp (by decide)
  obtain ⟨-, hrefused⟩ := hreplay [] rfl
  exact ⟨hwell, hexpected, hsigned, hfirst, (hrefused ⟨⟨1, 0⟩, []⟩).mpr ⟨hfirst, rfl⟩⟩

end Replay

end Darkroom
