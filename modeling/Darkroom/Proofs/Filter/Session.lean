import Darkroom.Filter.Session
import Darkroom.Proofs.Filter.Checked
import Darkroom.Proofs.Image.Sharing

/-!
# No index leaves an image in a session

All images of a session are well-formed, whatever their sizes and wherever rectangles and points lie
(`Sheet.WellFormed.work`). On well-formed images an operation with checked indices is the operation
(`Operation.checked_eq`). So a session with checked indices never stops, and ends where the session
does (`Sheet.workAllChecked_eq`).
-/

namespace Darkroom

theorem Image.wellFormed_ofBytes (d : Dimensions) (depth : Depth) (hasAlpha : Bool)
    (bytes : Array UInt8) : (Image.ofBytes d depth hasAlpha bytes).WellFormed := by
  rw [ofBytes]
  split
  · rename_i h
    obtain ⟨hlen, hpos⟩ := h
    have hsize := (byteLength?_eq_some.mp hlen).1
    rw [Dimensions.pixels] at hsize
    refine Or.inr ⟨UInt32.lt_iff_toNat_lt.mpr ?_, UInt32.lt_iff_toNat_lt.mpr ?_, hlen⟩
    · refine Nat.pos_of_ne_zero fun hw => Nat.ne_of_gt hpos ?_
      rw [hsize, show d.width.toNat = 0 from hw, Nat.zero_mul, Nat.zero_mul]
    · refine Nat.pos_of_ne_zero fun hh => Nat.ne_of_gt hpos ?_
      rw [hsize, show d.height.toNat = 0 from hh, Nat.mul_zero, Nat.zero_mul]
  · exact wellFormed_null

namespace Creation

theorem wellFormed_image (c : Creation) : c.image.WellFormed := by
  cases c with
  | null => exact Image.wellFormed_null
  | zeros d depth hasAlpha => exact Image.wellFormed_ofPixels _ _ _ _
  | ofBytes d depth hasAlpha bytes => exact Image.wellFormed_ofBytes _ _ _ _
  | filled d hasAlpha color => exact Image.wellFormed_ofPixels _ _ _ _

theorem checked_eq (c : Creation) : c.checked = some c.image := by
  cases c with
  | filled d hasAlpha color => exact Image.Checked.filled_eq d hasAlpha color
  | _ => rfl

end Creation

namespace Operation

variable {look : String → Image} {image : Image}

theorem wellFormed_left {f : Filter} {source : Image} {reference : Option Image}
    {progress : Progress} (h : image.WellFormed) (hsource : source.WellFormed) :
    (left image (f.apply source reference progress)).WellFormed := by
  cases happly : f.apply source reference progress with
  | error e => exact h
  | ok result => exact Filter.Checked.wellFormed_apply hsource happly

/-- An operation brings in well-formed images only. -/
theorem wellFormed_sources (hlook : ∀ name, (look name).WellFormed) (h : image.WellFormed)
    (operation : Operation) :
    ∀ source ∈ (operation.edit look image).sources, source.WellFormed := by
  intro source hsource
  cases operation with
  | create creation =>
    rw [List.mem_singleton.mp hsource]
    exact creation.wellFormed_image
  | share name | copy name _ | blit name _ _ | blend name _ _ =>
    rw [List.mem_singleton.mp hsource]
    exact hlook name
  | filter f name reference progress =>
    rw [List.mem_singleton.mp hsource]
    exact wellFormed_left h (hlook name)
  | _ => exact absurd hsource List.not_mem_nil

theorem wellFormed_result (hlook : ∀ name, (look name).WellFormed) (h : image.WellFormed)
    (operation : Operation) : (operation.result look image).WellFormed :=
  Image.Edit.wellFormed_result h
    (Image.Edit.wellFormed_of_sources (wellFormed_sources hlook h operation))

/-- An operation with checked indices is the operation. -/
theorem checked_eq (hlook : ∀ name, (look name).WellFormed) (h : image.WellFormed)
    {operation : Operation} (hrange : (operation.edit look image).InRange image) :
    operation.checked look image = some (operation.result look image) := by
  have hedit := Image.Edit.checked_eq h (wellFormed_sources hlook h operation) hrange
  cases operation with
  | create creation => exact creation.checked_eq
  | filter f source reference progress =>
    have hreference : ∀ other, reference.map look = some other → other.WellFormed := by
      intro other hother
      obtain ⟨name, -, rfl⟩ := Option.map_eq_some_iff.mp hother
      exact hlook name
    rw [checked, Filter.Checked.apply_eq f progress (hlook source) hreference]
    rfl
  | _ => exact hedit

end Operation

namespace Image.Sheet

variable {s : Sheet}

def WellFormed (s : Sheet) : Prop :=
  ∀ name, (s.image name).WellFormed

theorem wellFormed_empty : Sheet.empty.WellFormed :=
  fun _ => wellFormed_null

/-! ## One operation -/

theorem WellFormed.work (h : s.WellFormed) (step : String × Operation) : (s.work step).WellFormed := by
  intro name
  rw [Sheet.work, image_assign]
  split
  · exact Operation.wellFormed_result h (h step.1) step.2
  · exact h name

theorem workChecked_eq (h : s.WellFormed) {step : String × Operation}
    (hrange : (step.2.edit s.image (s.image step.1)).InRange (s.image step.1)) :
    s.workChecked step = some (s.work step) := by
  rw [workChecked, Operation.checked_eq h (h step.1) hrange]
  rfl

/-! ## Sessions -/

theorem workAllChecked_eq {steps : List (String × Operation)} (h : s.WellFormed)
    (hpermits : s.Permits steps) :
    s.workAllChecked steps = some (s.workAll steps) ∧ (s.workAll steps).WellFormed := by
  induction steps generalizing s with
  | nil => exact ⟨rfl, h⟩
  | cons step rest ih =>
    obtain ⟨hrange, hrest⟩ := hpermits
    obtain ⟨hrun, hwf⟩ := ih (h.work step) hrest
    refine ⟨?_, hwf⟩
    rw [workAllChecked, List.foldlM_cons, workChecked_eq h hrange]
    exact hrun

/-- A session from no images on never uses an index outside the bytes of an image, and each of its
images is null or has a positive size and exactly the bytes of its pixels. The beginning of a session is
a session, so this holds all the way through. -/
theorem no_index_outside {steps : List (String × Operation)}
    (hpermits : Sheet.empty.Permits steps) :
    Sheet.empty.workAllChecked steps = some (Sheet.empty.workAll steps)
      ∧ ∀ name image, (Sheet.empty.workAll steps).image name = image →
        image = ⟨0, 0, .eight, false, #[]⟩
          ∨ 0 < image.width ∧ 0 < image.height
            ∧ image.bytes.size
              = image.width.toNat * image.height.toNat * image.depth.pixelBytes := by
  obtain ⟨hrun, hwf⟩ := workAllChecked_eq wellFormed_empty hpermits
  refine ⟨hrun, ?_⟩
  rintro name image rfl
  have hsize := (hwf name).size_eq
  rcases hwf name with hnull | ⟨hw, hh, -⟩
  · exact Or.inl hnull
  · exact Or.inr ⟨hw, hh, hsize⟩

/-- A pixel of a red image is set, a part of it is turned and laid over another image. The
rectangles and points reach beyond the images, so that something is clipped. -/
def turnedPart : List (String × Operation) :=
  [("a", .create (.filled ⟨3, 2⟩ true (.opaqueOf 200 0 0 .eight))),
   ("a", .setPixel 2 1 (.opaqueOf 0 0 200 .eight)),
   ("b", .copy "a" (some ⟨1, -1, 5, 2⟩)),
   ("b", .rotate .quarter),
   ("b", .blend "a" ⟨-1, 0, 2, 2⟩ ⟨-1, 1⟩),
   ("c", .share "b"),
   ("c", .convertDepth .sixteen)]

theorem no_index_outside_turnedPart :
    Sheet.empty.Permits turnedPart
      ∧ Sheet.empty.workAllChecked turnedPart = some (Sheet.empty.workAll turnedPart)
      ∧ ((Sheet.empty.workAll turnedPart).image "b").dimensions = ⟨1, 2⟩
      ∧ ((Sheet.empty.workAll turnedPart).image "c").bytes.size = 1 * 2 * 8 := by
  have hpermits : Sheet.empty.Permits turnedPart :=
    ⟨trivial, ⟨by decide, by decide⟩, trivial, trivial, trivial, trivial, trivial, trivial⟩
  obtain ⟨hrun, -⟩ := no_index_outside hpermits
  refine ⟨hpermits, hrun, ?_, ?_⟩
  · decide +kernel
  · decide +kernel

end Image.Sheet

end Darkroom
