import Darkroom.Proofs.Repair.InPlace

/-!
# Repairs read outside of what they write

Whatever arithmetic it goes by, the repair of a rectangle writes the colors of its part inside the
image, and it reads beside that part, not farther than its reach. So to repair twice is to repair once
(`oneSpot_oneSpot`), and the repairs of two rectangles can be exchanged if neither part lies within the
reach of the other (`oneSpot_comm`). By exchanging neighbours in the list, every order of it gives the
same image (`everySpot_perm`).
-/

namespace Darkroom.Repair.InPlace

open Image (SameOff SameBeside)

section

variable (rule : Rule) (interpolation : Interpolation) (direction : Direction)
variable {image other : Image} {r a b : Rect} {x y : Nat}

/-! ## What is remade -/

/-- Only the alpha of a pixel is left of it, so to remake a pixel twice is to remake it once. -/
theorem remade_stored (old : Pixel) :
    (remade rule interpolation direction image r x y
        ((remade rule interpolation direction image r x y old).stored image.depth)).stored image.depth
      = (remade rule interpolation direction image r x y old).stored image.depth := by
  unfold remade
  cases interpolation.order? with
  | none =>
    dsimp only
    split
    · exact Pixel.stored_stored _ _
    · refine Pixel.ext_component fun c => ?_
      cases c <;> simp only [Pixel.component_stored] <;> try rfl
      exact Depth.stored_stored _ _
  | some order =>
    refine Pixel.ext_component fun c => ?_
    cases c <;> simp only [Pixel.component_stored] <;> try rfl
    exact Depth.stored_stored _ _

theorem alpha_remade (old : Pixel) :
    (remade rule interpolation direction image r x y old).alpha = old.alpha := by
  unfold remade
  cases interpolation.order? with
  | none =>
    dsimp only
    split <;> rfl
  | some order => rfl

theorem read_stored (depth : Depth) (p : Pixel) (c : Primary) :
    c.read (p.stored depth) = depth.stored (c.read p) := by
  cases c <;> rfl

/-- New colors depend on what is beside the rectangle, unless there are none. -/
theorem colors_remade (h : SameBeside interpolation.reach r image other)
    (hclip : r.IsClip image.dimensions) :
    (∀ x y old, remade rule interpolation direction image r x y old = old
        ∧ remade rule interpolation direction other r x y old = old)
      ∨ ∀ (x y : Nat) (old old' : Pixel), r.Covers x y → ∀ c : Primary,
        c.read (remade rule interpolation direction image r x y old)
          = c.read (remade rule interpolation direction other r x y old') := by
  have hring : ring image r = ring other r := ring_congr h (Nat.le_max_left 1 _) hclip
  unfold remade
  cases horder : interpolation.order? with
  | none =>
    by_cases hempty : (ring image r).isEmpty
    · left
      simp only [← hring, if_pos hempty, implies_true, and_self]
    · right
      intro x y old old' _ c
      simp only [← hring, if_neg hempty]
      cases c <;> rfl
  | some order =>
    right
    intro x y old old' hcovers c
    simp only [shade_congr h (Interpolation.order_le horder).2 hcovers]
    cases c <;> rfl

/-! ## One rectangle -/

theorem wellFormed_oneSpot (h : image.WellFormed) (rect : Rect) :
    (oneSpot rule interpolation direction image rect).WellFormed := by
  rw [oneSpot_eq_repainted rule interpolation direction h]
  exact h.repainted _ _

theorem sameOff_oneSpot (h : image.WellFormed) (rect : Rect) :
    SameOff (rect.clipped image.dimensions) image
      (oneSpot rule interpolation direction image rect) := by
  rw [oneSpot_eq_repainted rule interpolation direction h]
  exact h.sameOff_repainted _ _

theorem pixel_oneSpot (h : image.WellFormed) (rect : Rect) (hx : x < image.width.toNat)
    (hy : y < image.height.toNat) :
    (oneSpot rule interpolation direction image rect).pixel x y
      = if (rect.clipped image.dimensions).Covers x y then
          (remade rule interpolation direction image (rect.clipped image.dimensions) x y
            (image.pixel x y)).stored image.depth
        else image.pixel x y := by
  rw [oneSpot_eq_repainted rule interpolation direction h, h.pixel_repainted hx hy]

theorem alpha_oneSpot (h : image.WellFormed) (rect : Rect) (hx : x < image.width.toNat)
    (hy : y < image.height.toNat) :
    ((oneSpot rule interpolation direction image rect).pixel x y).alpha
      = (image.pixel x y).alpha := by
  rw [pixel_oneSpot rule interpolation direction h rect hx hy]
  split
  · exact (congrArg image.depth.stored (alpha_remade _ _ _ _)).trans
      (congrArg Pixel.alpha (image.stored_pixel x y))
  · rfl

theorem isClip_of_covers {d : Dimensions} {i j : Int} (h : (a.clipped d).Covers i j) :
    (a.clipped d).IsClip d :=
  Rect.isClip_clipped (Bool.eq_false_iff.mpr fun hempty => Rect.isEmpty_iff_covers.mp hempty i j h)

/-- Twice is once. -/
theorem oneSpot_oneSpot (h : image.WellFormed) (rect : Rect) :
    oneSpot rule interpolation direction (oneSpot rule interpolation direction image rect) rect
      = oneSpot rule interpolation direction image rect := by
  have hwf := wellFormed_oneSpot rule interpolation direction h rect
  have hsame := sameOff_oneSpot rule interpolation direction h rect
  rw [oneSpot_eq_repainted rule interpolation direction hwf, ← hsame.frame.1]
  refine hwf.repainted_eq_self fun x hx y hy hcovers => ?_
  rw [← hsame.frame.width] at hx
  rw [← hsame.frame.height] at hy
  rw [← remade_congr (hsame.beside _) (isClip_of_covers hcovers) hcovers,
    pixel_oneSpot rule interpolation direction h rect hx hy, if_pos hcovers, ← hsame.frame.2.1]
  exact remade_stored rule interpolation direction _

/-- The colors that a repair gives depend on what is beside the part inside the image, unless it
changes nothing, as the mean of no pixels does. -/
theorem colors_oneSpot (h : image.WellFormed) (h' : other.WellFormed) (rect : Rect)
    (hbeside : SameBeside interpolation.reach (rect.clipped image.dimensions) image other) :
    (oneSpot rule interpolation direction image rect = image
        ∧ oneSpot rule interpolation direction other rect = other)
      ∨ ∀ x < image.width.toNat, ∀ y < image.height.toNat,
        (rect.clipped image.dimensions).Covers x y → ∀ c : Primary,
          c.read ((oneSpot rule interpolation direction image rect).pixel x y)
            = c.read ((oneSpot rule interpolation direction other rect).pixel x y) := by
  obtain ⟨hdimensions, hdepth, -⟩ := hbeside.frame
  by_cases hempty : (rect.clipped image.dimensions).isEmpty
  · left
    rw [oneSpot, oneSpot, ← hdimensions, if_pos hempty, if_pos hempty]
    exact ⟨rfl, rfl⟩
  have hclip := Rect.isClip_clipped (Bool.eq_false_iff.mpr hempty)
  rcases colors_remade rule interpolation direction hbeside hclip with hold | hnew
  · left
    rw [oneSpot_eq_repainted _ _ _ h, oneSpot_eq_repainted _ _ _ h', ← hdimensions]
    constructor
    · refine h.repainted_eq_self fun x _ y _ _ => ?_
      rw [(hold _ _ _).1]
      exact image.stored_pixel x y
    · refine h'.repainted_eq_self fun x _ y _ _ => ?_
      rw [(hold _ _ _).2]
      exact other.stored_pixel x y
  · right
    intro x hx y hy hcovers c
    rw [pixel_oneSpot _ _ _ h rect hx hy, pixel_oneSpot _ _ _ h' rect (hbeside.frame.width ▸ hx)
      (hbeside.frame.height ▸ hy), ← hdimensions, ← hdepth, if_pos hcovers, if_pos hcovers,
      read_stored, read_stored, hnew x y _ _ hcovers c]

/-! ## Two rectangles -/

/-- Whether no pixel within reach of the part of `a` is in the part of `b`. Then the repair of `a`
cannot see that of `b`; the converse is another condition, as rectangles differ in size. -/
def Apart (n : Nat) (d : Dimensions) (a b : Rect) : Prop :=
  ∀ i j, (a.clipped d).GrownCovers n i j → ¬(b.clipped d).Covers i j

theorem grownCovers_of_covers {i j : Int} (n : Nat) (h : r.Covers i j) : r.GrownCovers n i j := by
  obtain ⟨⟨hleft, hright⟩, htop, hbottom⟩ := h
  exact ⟨Rect.isEmpty_eq_false.mpr ⟨by omega, by omega⟩, by omega, by omega⟩

/-- The repairs of two rectangles, the second of which is read beside the first. -/
theorem pixel_oneSpot_oneSpot (h : image.WellFormed)
    (hapart : Apart interpolation.reach image.dimensions b a) (hx : x < image.width.toNat)
    (hy : y < image.height.toNat) :
    (oneSpot rule interpolation direction (oneSpot rule interpolation direction image a) b).pixel x y
      = if (b.clipped image.dimensions).Covers x y then
          (oneSpot rule interpolation direction image b).pixel x y
        else (oneSpot rule interpolation direction image a).pixel x y := by
  have hwf := wellFormed_oneSpot rule interpolation direction h a
  have hsame := sameOff_oneSpot rule interpolation direction h a
  have hbeside : SameBeside interpolation.reach (b.clipped image.dimensions) image
      (oneSpot rule interpolation direction image a) :=
    ⟨hsame.frame, fun x hx y hy _ hnear => hsame.pixel x hx y hy (hapart x y hnear)⟩
  rw [pixel_oneSpot rule interpolation direction hwf b (hsame.frame.width ▸ hx)
    (hsame.frame.height ▸ hy), ← hsame.frame.1, ← hsame.frame.2.1]
  split
  · rename_i hcovers
    have hout := hapart x y (grownCovers_of_covers _ hcovers)
    rw [← hsame.pixel x hx y hy hout, pixel_oneSpot rule interpolation direction h b hx hy,
      if_pos hcovers, remade_congr hbeside (isClip_of_covers hcovers) hcovers]
  · rfl

theorem oneSpot_comm (h : image.WellFormed)
    (hab : Apart interpolation.reach image.dimensions a b)
    (hba : Apart interpolation.reach image.dimensions b a) :
    oneSpot rule interpolation direction (oneSpot rule interpolation direction image a) b
      = oneSpot rule interpolation direction (oneSpot rule interpolation direction image b) a := by
  have hwf := wellFormed_oneSpot rule interpolation direction h
  have hframe : ∀ rect rect', image.SameFrame (oneSpot rule interpolation direction
      (oneSpot rule interpolation direction image rect) rect') := fun rect rect' =>
    (sameOff_oneSpot rule interpolation direction h rect).frame.trans
      (sameOff_oneSpot rule interpolation direction (hwf rect) rect').frame
  refine (wellFormed_oneSpot _ _ _ (hwf a) b).ext_pixels (wellFormed_oneSpot _ _ _ (hwf b) a)
    ((hframe a b).symm.trans (hframe b a)) fun x hx y hy => ?_
  rw [← (hframe a b).width] at hx
  rw [← (hframe a b).height] at hy
  rw [pixel_oneSpot_oneSpot _ _ _ h hba hx hy, pixel_oneSpot_oneSpot _ _ _ h hab hx hy,
    pixel_oneSpot _ _ _ h a hx hy, pixel_oneSpot _ _ _ h b hx hy]
  by_cases hina : (a.clipped image.dimensions).Covers x y
  · have hinb := hab x y (grownCovers_of_covers _ hina)
    simp only [if_neg hinb, if_pos hina]
  · by_cases hinb : (b.clipped image.dimensions).Covers x y
    · simp only [if_neg hina, if_pos hinb]
    · simp only [if_neg hina, if_neg hinb]

end

/-! ## Lists of rectangles -/

def everySpot (rule : Rule) (interpolation : Interpolation) (direction : Direction) (image : Image)
    (spots : List Rect) : Image :=
  spots.foldl (oneSpot rule interpolation direction) image

section

variable (rule : Rule) (interpolation : Interpolation) (direction : Direction)
variable {image : Image} {spots spots' : List Rect} {x y : Nat}

theorem everySpot_cons (image : Image) (rect : Rect) (rest : List Rect) :
    everySpot rule interpolation direction image (rect :: rest)
      = everySpot rule interpolation direction
          (oneSpot rule interpolation direction image rect) rest :=
  (rfl)

/-- A run repairs rectangles from the first one on, and all of them if it still runs at its end. -/
theorem all_eq_everySpot (total : Nat) :
    ∀ (spots : List Rect) {image : Image}, image.WellFormed → ∀ (p : Progress) (done : Nat),
      ∃ first, first <+: spots
        ∧ (all rule interpolation direction (.ofDimensions image.dimensions) total image p done
            spots).1 = everySpot rule interpolation direction image first
        ∧ ((all rule interpolation direction (.ofDimensions image.dimensions) total image p done
            spots).2.isRunning → first = spots)
  | [], _, _, _, _ => ⟨[], List.prefix_refl [], rfl, fun _ => rfl⟩
  | rect :: spots, image, h, p, done => by
    rw [all_cons, ← Rect.clipped]
    cases hrunning : p.isRunning with
    | false =>
      rw [if_neg Bool.false_ne_true]
      exact ⟨[], List.nil_prefix, rfl, fun hend => absurd (hrunning ▸ hend) Bool.false_ne_true⟩
    | true =>
      rw [if_pos rfl]
      -- In both cases the rest goes on from the image with one more rectangle repaired.
      have hrest : ∀ p', ∃ first, first <+: rect :: spots
          ∧ (all rule interpolation direction (.ofDimensions image.dimensions) total
              (oneSpot rule interpolation direction image rect) p' (done + 1) spots).1
            = everySpot rule interpolation direction image first
          ∧ ((all rule interpolation direction (.ofDimensions image.dimensions) total
              (oneSpot rule interpolation direction image rect) p' (done + 1) spots).2.isRunning →
            first = rect :: spots) := by
        intro p'
        have hframe := (sameOff_oneSpot rule interpolation direction h rect).frame
        obtain ⟨first, hfirst, himage, hend⟩ := all_eq_everySpot total spots
          (wellFormed_oneSpot rule interpolation direction h rect) p' (done + 1)
        rw [← hframe.1] at himage hend
        exact ⟨rect :: first, List.cons_prefix_cons.mpr ⟨rfl, hfirst⟩, himage,
          fun hp => congrArg (rect :: ·) (hend hp)⟩
      by_cases hempty : (rect.clipped image.dimensions).isEmpty
      · have hone : oneSpot rule interpolation direction image rect = image := if_pos hempty
        rw [if_pos hempty]
        rw [hone] at hrest
        exact hrest p
      · have hone : oneSpot rule interpolation direction image rect
            = one rule interpolation direction image (rect.clipped image.dimensions) :=
          if_neg hempty
        rw [if_neg hempty]
        rw [hone] at hrest
        exact hrest _

theorem wellFormed_everySpot (h : image.WellFormed) (spots : List Rect) :
    (everySpot rule interpolation direction image spots).WellFormed := by
  induction spots generalizing image with
  | nil => exact h
  | cons rect rest ih => exact ih (wellFormed_oneSpot rule interpolation direction h rect)

/-- What a list of repairs leaves: the frame, alpha, and all pixels outside of the rectangles. -/
theorem kept_everySpot (h : image.WellFormed) (spots : List Rect) :
    image.SameFrame (everySpot rule interpolation direction image spots)
      ∧ ∀ x < image.width.toNat, ∀ y < image.height.toNat,
        ((everySpot rule interpolation direction image spots).pixel x y).alpha
            = (image.pixel x y).alpha
          ∧ ((∀ rect ∈ spots, ¬(rect.clipped image.dimensions).Covers x y) →
            (everySpot rule interpolation direction image spots).pixel x y = image.pixel x y) := by
  induction spots generalizing image with
  | nil => exact ⟨⟨rfl, rfl, rfl⟩, fun _ _ _ _ => ⟨rfl, fun _ => rfl⟩⟩
  | cons rect rest ih =>
    have hone := sameOff_oneSpot rule interpolation direction h rect
    obtain ⟨hframe, hpixels⟩ := ih (wellFormed_oneSpot rule interpolation direction h rect)
    refine ⟨hone.frame.trans hframe, fun x hx y hy => ?_⟩
    obtain ⟨halpha, hout⟩ := hpixels x (hone.frame.width ▸ hx) y (hone.frame.height ▸ hy)
    refine ⟨halpha.trans (alpha_oneSpot rule interpolation direction h rect hx hy), fun hnone => ?_⟩
    rw [← hone.frame.1] at hout
    exact (hout fun r hr => hnone r (List.mem_cons_of_mem rect hr)).trans
      (hone.pixel x hx y hy (hnone rect List.mem_cons_self)).symm

/-- Rectangles of which none is read where another one is written are repaired in any order. Equal
parts may occur more than once. -/
theorem everySpot_perm (h : image.WellFormed) (hperm : spots.Perm spots')
    (hapart : ∀ a ∈ spots, ∀ b ∈ spots, a.clipped image.dimensions ≠ b.clipped image.dimensions →
      Apart interpolation.reach image.dimensions a b) :
    everySpot rule interpolation direction image spots
      = everySpot rule interpolation direction image spots' := by
  induction hperm generalizing image with
  | nil => rfl
  | @cons rect rest rest' _ ih =>
    have hframe := (sameOff_oneSpot rule interpolation direction h rect).frame
    refine ih (wellFormed_oneSpot rule interpolation direction h rect) ?_
    rw [← hframe.1]
    exact fun a ha b hb => hapart a (List.mem_cons_of_mem rect ha) b (List.mem_cons_of_mem rect hb)
  | swap a b rest =>
    have hexchange : oneSpot rule interpolation direction
          (oneSpot rule interpolation direction image b) a
        = oneSpot rule interpolation direction
          (oneSpot rule interpolation direction image a) b := by
      by_cases hsame : a.clipped image.dimensions = b.clipped image.dimensions
      · have hone : ∀ next : Image, next.dimensions = image.dimensions →
            oneSpot rule interpolation direction next a
              = oneSpot rule interpolation direction next b := by
          intro next hnext
          rw [oneSpot, oneSpot, hnext, hsame]
        rw [hone image rfl, hone _ (sameOff_oneSpot rule interpolation direction h b).frame.1.symm]
      · exact oneSpot_comm rule interpolation direction h
          (hapart b (by simp) a (by simp) (Ne.symm hsame)) (hapart a (by simp) b (by simp) hsame)
    rw [everySpot_cons, everySpot_cons, everySpot_cons, everySpot_cons, hexchange]
  | @trans l l' l'' hl hl' ih ih' =>
    refine (ih h hapart).trans (ih' h fun a ha b hb => ?_)
    exact hapart a (hl.mem_iff.mpr ha) b (hl.mem_iff.mpr hb)

/-! ## Runs -/

theorem apply_singleton (image : Image) (rect : Rect) (p : Progress) :
    (apply rule ⟨interpolation, direction, [rect]⟩ image p).1
      = if p.isRunning then oneSpot rule interpolation direction image rect else image := by
  rw [apply, all_cons, ← Rect.clipped, oneSpot]
  split
  · split <;> rfl
  · rfl

/-- What a polynomial gives, kept inside the range of the depth. -/
theorem read_oneSpot (h : image.WellFormed) {order : Nat}
    (horder : interpolation.order? = some order) (rect : Rect)
    (hcovers : (rect.clipped image.dimensions).Covers x y) (c : Primary) :
    (c.read ((oneSpot rule interpolation direction image rect).pixel x y)).toNat
      = min (rule.value image.depth.maxValue (nearby rule order direction image
          (rect.clipped image.dimensions) c x y)).toNat image.depth.maxValue := by
  obtain ⟨⟨-, hx⟩, -, hy⟩ := (isClip_of_covers hcovers).holds_of_covers hcovers
  have hshade := shade_le rule order direction image (rect.clipped image.dimensions) c x y
  have hnew : c.read (remade rule interpolation direction image (rect.clipped image.dimensions) x y
      (image.pixel x y)) = shade rule order direction image (rect.clipped image.dimensions) c x y := by
    simp only [remade, horder]
    cases c <;> rfl
  rw [pixel_oneSpot rule interpolation direction h rect (Int.ofNat_lt.mp hx) (Int.ofNat_lt.mp hy),
    if_pos hcovers, read_stored, hnew, Depth.stored_of_le hshade, shade,
    kept_le _ _ (Depth.maxValue_lt _)]

end

/-- What repairs read and write, whatever the weights are and whatever comes of dividing by them. With
doubles these are the repairs of filters. A run keeps the frame, alpha, and every pixel outside of the
parts of its rectangles inside the image. The colors that it gives to a part are the same for any image
with the same pixels beside it, within reach, unless it changes neither image. A polynomial gives a
value that is kept inside the range, for neighbours as the image showed them before the run. A second
run changes nothing. If no part lies within reach of another one, the order of the list is the same to
runs that are not cancelled. -/
theorem reads_beside_writes_inside (rule : Rule) (interpolation : Interpolation)
    (direction : Direction) {image : Image} (h : image.WellFormed) :
    let clip (rect : Rect) : Rect := rect.clipped image.dimensions
    let run (image : Image) (spots : List Rect) (p : Progress) : Image × Progress :=
      apply rule ⟨interpolation, direction, spots⟩ image p
    (∀ (r : SpotRepair) p, apply .doubles r image p = r.apply image p)
      ∧ (∀ spots p, (run image spots p).1.WellFormed ∧ image.SameFrame (run image spots p).1
        ∧ ∀ x < image.width.toNat, ∀ y < image.height.toNat,
          ((run image spots p).1.pixel x y).alpha = (image.pixel x y).alpha
            ∧ ((∀ rect ∈ spots, ¬(clip rect).Covers x y) →
              (run image spots p).1.pixel x y = image.pixel x y))
      ∧ (∀ rect p other, other.WellFormed →
        SameBeside interpolation.reach (clip rect) image other →
          ((run image [rect] p).1 = image ∧ (run other [rect] p).1 = other)
            ∨ ∀ x < image.width.toNat, ∀ y < image.height.toNat, (clip rect).Covers x y →
              ∀ c : Primary, c.read ((run image [rect] p).1.pixel x y)
                = c.read ((run other [rect] p).1.pixel x y))
      ∧ (∀ order, interpolation.order? = some order → ∀ rect p, p.isRunning →
        ∀ x y : Nat, (clip rect).Covers x y → ∀ c : Primary,
          (c.read ((run image [rect] p).1.pixel x y)).toNat
            = min (rule.value image.depth.maxValue
                (nearby rule order direction image (clip rect) c x y)).toNat image.depth.maxValue)
      ∧ (∀ rect p p', p.isRunning →
        (run (run image [rect] p).1 [rect] p').1 = (run image [rect] p).1)
      ∧ ∀ spots spots' p p', spots.Perm spots' →
        (∀ a ∈ spots, ∀ b ∈ spots, clip a ≠ clip b →
          Apart interpolation.reach image.dimensions a b) →
        (run image spots p).2.isRunning → (run image spots' p').2.isRunning →
        (run image spots p).1 = (run image spots' p').1 := by
  intro clip run
  refine ⟨apply_doubles h, fun spots p => ?_, fun rect p other h' hbeside => ?_,
    fun order horder rect p hp x y hcovers c => ?_, fun rect p p' hp => ?_,
    fun spots spots' p p' hperm hapart hend hend' => ?_⟩
  · obtain ⟨first, hfirst, himage, -⟩ := all_eq_everySpot rule interpolation direction spots.length
      spots h p 0
    obtain ⟨hframe, hpixels⟩ := kept_everySpot rule interpolation direction h first
    change (run image spots p).1 = _ at himage
    rw [himage]
    refine ⟨wellFormed_everySpot rule interpolation direction h first, hframe, fun x hx y hy => ?_⟩
    obtain ⟨halpha, hout⟩ := hpixels x hx y hy
    exact ⟨halpha, fun hnone => hout fun rect hrect => hnone rect (hfirst.mem hrect)⟩
  · dsimp only [run]
    rw [apply_singleton, apply_singleton]
    split
    · exact colors_oneSpot rule interpolation direction h h' rect hbeside
    · exact Or.inl ⟨rfl, rfl⟩
  · dsimp only [run]
    rw [apply_singleton, if_pos hp]
    exact read_oneSpot rule interpolation direction h horder rect hcovers c
  · dsimp only [run]
    rw [apply_singleton, apply_singleton, if_pos hp]
    split
    · exact oneSpot_oneSpot rule interpolation direction h rect
    · rfl
  · obtain ⟨first, -, himage, hall⟩ := all_eq_everySpot rule interpolation direction spots.length
      spots h p 0
    obtain ⟨first', -, himage', hall'⟩ := all_eq_everySpot rule interpolation direction
      spots'.length spots' h p' 0
    change (run image spots p).1 = _ at himage
    change (run image spots' p').1 = _ at himage'
    rw [himage, himage', hall hend, hall' hend']
    exact everySpot_perm rule interpolation direction h hperm hapart

/-- Neighbours all count the same, and quotients are cut off. This rule can be run, as it has no
doubles. -/
def plain : Rule where
  Weight := Unit
  weight _ _ _ _ _ _ _ := ()
  value _ neighbours :=
    let sum : Nat := neighbours.foldl (fun total n => total + n.2) 0
    sum / neighbours.length
  mean values := UInt16.ofNat (values.foldl (fun total v => total + v.toNat) 0 / values.length)

def lighterRow : Image :=
  .ofPixels ⟨6, 1⟩ .eight true fun x _ =>
    let v := UInt16.ofNat (40 * x)
    ⟨v, v, v, 255⟩

def stainedRow : Image :=
  lighterRow.setPixel 1 0 ⟨⟨9, 9, 9, 255⟩, .eight⟩

/-- The stain is repaired to what is there without it, and a second spot, which reaches beyond the
row, is repaired before or after it. -/
theorem reads_beside_writes_inside_stainedRow :
    let left : Rect := ⟨1, 0, 1, 1⟩
    let right : Rect := ⟨4, 0, 9, 1⟩
    let run (image : Image) (spots : List Rect) : Image :=
      (apply plain ⟨.linear, .twoDim, spots⟩ image .start).1
    stainedRow.WellFormed
      ∧ (run stainedRow [left]).pixel 5 0 = stainedRow.pixel 5 0
      ∧ ((run stainedRow [left]).pixel 1 0).red.toNat = 40
      ∧ ((run stainedRow [left]).pixel 1 0).red = ((run lighterRow [left]).pixel 1 0).red
      ∧ run (run stainedRow [left]) [left] = run stainedRow [left]
      ∧ run stainedRow [left, right] = run stainedRow [right, left] := by
  intro left right run
  have hlighter : lighterRow.WellFormed := Image.wellFormed_ofPixels _ _ _ _
  have hstained : stainedRow.WellFormed := hlighter.mapPixels _
  have hdimensions : stainedRow.dimensions = ⟨6, 1⟩ := by decide +kernel
  have hleft : left.clipped stainedRow.dimensions = ⟨1, 0, 1, 1⟩ := by
    rw [hdimensions]
    decide
  have hright : right.clipped stainedRow.dimensions = ⟨4, 0, 2, 1⟩ := by
    rw [hdimensions]
    decide
  have hcovers : (left.clipped stainedRow.dimensions).Covers (1 : Nat) (0 : Nat) := by
    rw [hleft]
    decide
  obtain ⟨-, hkept, hbeside, hvalue, htwice, horder⟩ :=
    reads_beside_writes_inside plain .linear .twoDim hstained
  obtain ⟨-, -, hpixels⟩ := hkept [left] .start
  obtain ⟨-, hout⟩ := hpixels 5 (by decide +kernel) 0 (by decide +kernel)
  have hred := hvalue 1 rfl left .start rfl 1 0 hcovers .red
  have hforty : (plain.value stainedRow.depth.maxValue
      (nearby plain 1 .twoDim stainedRow (left.clipped stainedRow.dimensions) .red 1 0)) = 40 := by
    decide +kernel
  have hmax : stainedRow.depth.maxValue = 255 := by decide +kernel
  rw [hforty, hmax] at hred
  refine ⟨hstained, hout ?_, hred, ?_, htwice left .start .start rfl, ?_⟩
  · intro rect hrect
    rw [List.mem_singleton.mp hrect]
    dsimp only
    rw [hleft]
    decide
  · have hsame : SameBeside (Interpolation.reach .linear) (left.clipped stainedRow.dimensions)
        stainedRow lighterRow := by
      rw [hleft]
      exact ⟨⟨by decide +kernel, by decide +kernel, by decide +kernel⟩, by decide +kernel⟩
    rcases hbeside left .start lighterRow hlighter hsame with ⟨hunchanged, -⟩ | hsame
    · have hstain : (stainedRow.pixel 1 0).red.toNat = 9 := by decide +kernel
      change run stainedRow [left] = stainedRow at hunchanged
      change ((run stainedRow [left]).pixel 1 0).red.toNat = 40 at hred
      rw [hunchanged, hstain] at hred
      cases hred
    · exact hsame 1 (by decide +kernel) 0 (by decide +kernel) hcovers .red
  · have hapart : Apart (Interpolation.reach .linear) stainedRow.dimensions left right
        ∧ Apart (Interpolation.reach .linear) stainedRow.dimensions right left := by
      have hreach : Interpolation.reach .linear = 1 := rfl
      have hone : (1 : Int32).toInt = 1 := rfl
      have htwo : (2 : Int32).toInt = 2 := rfl
      have hfour : (4 : Int32).toInt = 4 := rfl
      simp only [Apart, Rect.GrownCovers, Rect.Covers, hleft, hright, hreach, hone, htwo, hfour]
      exact ⟨fun i j => by omega, fun i j => by omega⟩
    refine horder [left, right] [right, left] .start .start (List.Perm.swap right left []) ?_
      (by decide +kernel) (by decide +kernel)
    intro a ha b hb hne
    simp only [List.mem_cons, List.not_mem_nil, or_false] at ha hb
    rcases ha with rfl | rfl <;> rcases hb with rfl | rfl
    · exact absurd rfl hne
    · exact hapart.1
    · exact hapart.2
    · exact absurd rfl hne

end Darkroom.Repair.InPlace
