import Darkroom.Proofs.Geometry
import Darkroom.Proofs.Image.Pixels
import Darkroom.Proofs.Image.Sharing
import Darkroom.Proofs.Image.Symmetry

/-!
# Copies of whole images

A copy goes through a rectangle of signed numbers, also where it is one of the whole image. A width or
a height from 2147483648 on wraps to a negative number there, the rectangle counts as empty, and the
copy is null (`WellFormed.copy_whole`). All other copies are the image itself, in bytes that nobody has
shown before and nobody else shows (`Counted.run_replace`).
-/

namespace Darkroom.Image

theorem WellFormed.copy_whole {image : Image} (h : image.WellFormed) (hnull : image.isNull = false) :
    image.copy none = if image.dimensions.IsSigned then image else null := by
  have hbounds := Rect.isEmpty_ofDimensions (h.isNull_eq_false_iff.mp hnull)
  have hcopied : Rect.copied image.dimensions none = Rect.ofDimensions image.dimensions := rfl
  rw [copy_eq_copied, hcopied, if_neg (Bool.eq_false_iff.mp hnull)]
  by_cases hsigned : image.dimensions.IsSigned
  · rw [if_neg (Bool.eq_false_iff.mp (hbounds.mpr hsigned)), if_pos rfl, if_pos hsigned]
  · have hempty := Bool.eq_false_iff.not_left.mp (mt hbounds.mp hsigned)
    rw [if_pos hempty, if_neg hsigned]

namespace Store

variable {s : Store} {name source : String} {new : Image} {edit : Image → Edit}

/-- A name is the only owner of the bytes that it shows. The count says so and so do the names, the
second of which is what a later write is about. -/
def OwnsAlone (s : Store) (name : String) (a : Nat) : Prop :=
  (s.handle name).address = some a ∧ s.owners a = 1
    ∧ ∀ other, other ≠ name → (s.handle other).address ≠ some a

def Unshown (s : Store) (a : Nat) : Prop :=
  ∀ other, (s.handle other).address ≠ some a

theorem Counted.unshown_next {held : List Handle} (h : Counted s held) : s.Unshown s.next := by
  intro other hnext
  exact Nat.lt_irrefl _ (h.lt_next_of_name hnext)

theorem address_replace (hnull : new.isNull = false) :
    ((s.replace name new).handle name).address = some s.next := by
  rw [Store.replace, handle_assign, if_pos rfl, Store.allocate, if_neg (Bool.eq_false_iff.mp hnull)]
  rfl

/-- An edit that writes nothing in place and gives a new image. The source is held meanwhile. -/
theorem run_of_replace (hplace : (edit (s.image source)).inPlace (s.image name) = false)
    (hchange : ((edit (s.image source)).change (s.image name)).1 = .replace new) :
    (s.run name source edit).1
      = ((s.retain (s.handle source)).replace name new).release (s.handle source) := by
  have hlook : (s.retain (s.handle source)).look (s.handle source) = s.image source :=
    look_retain _ _
  simp only [Store.run, hlook, image_retain, hplace, Bool.false_eq_true, if_false, hchange,
    Store.apply]

/-- The bytes of a new image are those to come, and its name owns them alone. -/
theorem Counted.run_replace (h : Counted s [])
    (hplace : (edit (s.image source)).inPlace (s.image name) = false)
    (hchange : ((edit (s.image source)).change (s.image name)).1 = .replace new)
    (hnull : new.isNull = false) : (s.run name source edit).1.OwnsAlone name s.next := by
  have hheld := h.hold source
  rw [run_of_replace hplace hchange]
  have haddress : (((s.retain (s.handle source)).replace name new).handle name).address
      = some s.next := by
    rw [address_replace hnull, next_retain]
  have hafter := (hheld.replace name new).release
  have howners : (((s.retain (s.handle source)).replace name new).release
      (s.handle source)).owners s.next = 1 := by
    rw [owners_release, owners_replace hheld haddress, if_neg (h.unshown_next source)]
  rw [← handle_release (s.handle source)] at haddress
  exact ⟨haddress, howners, (hafter.sole haddress howners).1⟩

end Store

/-- A copy of a whole image is this image if both its sizes are signed 32-bit numbers; from 2147483648
on it is null. Whatever was done with named images before, a name that is given a copy then shows the
image in bytes that no name showed before and no other name shows, and all other names show what they
showed. -/
theorem whole_copy {image : Image} (h : image.WellFormed) (hnull : image.isNull = false) :
    (image.copy none = if image.dimensions.IsSigned then image else null)
      ∧ ∀ commands : List Command, (∀ c ∈ commands, c.WellFormed) →
        let s := (Store.empty.performAll commands).1
        ∀ name source, s.image source = image →
          let t := (s.perform (.edit name source fun image => .copyFrom image none)).1
          (∀ other, other ≠ name → t.image other = s.image other)
            ∧ (image.dimensions.IsSigned →
              t.image name = image ∧ ∃ a, s.Unshown a ∧ t.OwnsAlone name a)
            ∧ (¬image.dimensions.IsSigned → t.image name = null) := by
  refine ⟨h.copy_whole hnull, fun commands hcommands => ?_⟩
  intro s name source himage t
  obtain ⟨⟨hcounted, -, hwell⟩, -⟩ := agree_empty.performAll hcommands
  have hshown : ∀ other, t.image other
      = if other = name then (s.image source).copy none else s.image other := by
    intro other
    refine (hcounted.run (hwell name) ?_).2.1 other
    exact hwell source
  rw [himage] at hshown
  have hcopy : t.image name = image.copy none := (hshown name).trans (if_pos rfl)
  refine ⟨fun other hother => (hshown other).trans (if_neg hother), fun hsigned => ?_, ?_⟩
  · have hwhole : image.copy none = image := (h.copy_whole hnull).trans (if_pos hsigned)
    refine ⟨hcopy.trans hwhole, s.next, hcounted.unshown_next, ?_⟩
    have hchange : (Edit.change (s.image name) (.copyFrom (s.image source) none)).1
        = .replace image := by
      rw [Edit.change, himage, hwhole]
    exact hcounted.run_replace rfl hchange hnull
  · intro hwrapped
    rw [hcopy, h.copy_whole hnull, if_neg hwrapped]

/-- A row of zeros that is one pixel too long for a rectangle. Its width becomes negative as a
signed number, so the rectangle of the whole image is empty. -/
def tooLong : Image :=
  zeros ⟨2147483648, 1⟩ .eight true

/-- The row that is too long is an image, and its copy is null. Two rows of three pixels are copied to
bytes of their own. -/
theorem whole_copy_tooLong :
    tooLong.WellFormed ∧ tooLong.isNull = false ∧ tooLong.dimensions = ⟨2147483648, 1⟩
      ∧ tooLong.copy none = null
      ∧ landscape.WellFormed ∧ landscape.isNull = false
      ∧ let s := (Store.empty.performAll [.edit "a" "" fun _ => .load landscape]).1
        let t := (s.perform (.edit "b" "a" fun image => .copyFrom image none)).1
        t.image "b" = landscape ∧ t.image "a" = landscape ∧ ∃ a, t.OwnsAlone "b" a := by
  have hwell : tooLong.WellFormed := by
    rw [tooLong, zeros]
    exact wellFormed_ofPixels _ _ _ _
  have hlen : (byteLength? ⟨2147483648, 1⟩ .eight).isSome := by decide
  have hdimensions : tooLong.dimensions = ⟨2147483648, 1⟩ := by
    rw [tooLong, zeros, ofPixels_eq hlen (by decide), dimensions]
  have hnull : tooLong.isNull = false := by
    rw [hwell.isNull_eq_false_iff, pixelCount, hdimensions]
    decide
  have hwrapped : ¬tooLong.dimensions.IsSigned := by
    rw [hdimensions]
    decide
  have hsmall : landscape.WellFormed := Or.inr (by decide)
  have hload : ∀ c ∈ [Command.edit "a" "" fun _ => .load landscape], c.WellFormed := by
    intro c hc
    rw [List.mem_singleton.mp hc]
    exact fun _ _ => hsmall
  obtain ⟨hcopy, -⟩ := whole_copy hwell hnull
  obtain ⟨-, hstored⟩ := whole_copy hsmall rfl
  obtain ⟨hothers, hcopied, -⟩ := hstored _ hload "b" "a" rfl
  obtain ⟨himage, a, -, howns⟩ := hcopied (by decide)
  exact ⟨hwell, hnull, hdimensions, hcopy.trans (if_neg hwrapped), hsmall, rfl, himage,
    hothers "a" (by decide), a, howns⟩

end Darkroom.Image
