import Darkroom.Proofs.Filter.Apply
import Darkroom.Proofs.Filter.Checked
import Darkroom.Proofs.Image.Layered
import Darkroom.Proofs.Repair.Sweep

/-!
# Repairs in place are repaintings

The neighbours of a rectangle lie outside of it, so they show the same from the first pixel of a repair
to its last one, and the repair is one repainting by what its image showed in the beginning
(`one_eq_repainted`). With doubles it is the repair that filters carry out (`apply_doubles`).
-/

namespace Darkroom

namespace Image

/-- Images of one frame with the same pixels beside a rectangle, up to `n` pixels away. A repair of
the rectangle takes new colors from nowhere else, so it takes the same ones in both. -/
structure SameBeside (n : Nat) (r : Rect) (a b : Image) : Prop where
  frame : a.SameFrame b
  pixel : ∀ x < a.width.toNat, ∀ y < a.height.toNat, ¬r.Covers x y → r.GrownCovers n x y →
    a.pixel x y = b.pixel x y

theorem SameOff.beside {r : Rect} {a b : Image} (h : SameOff r a b) (n : Nat) : SameBeside n r a b :=
  ⟨h.frame, fun x hx y hy hout _ => h.pixel x hx y hy hout⟩

theorem repainted_congr {image : Image} (h : image.WellFormed) {r : Rect}
    {new new' : Nat → Nat → Pixel → Pixel}
    (hsame : ∀ x y : Nat, r.Covers x y →
      new x y (image.pixel x y) = new' x y (image.pixel x y)) :
    image.repainted r new = image.repainted r new' := by
  refine h.mapPixels_congr fun x _ y _ => ?_
  split
  · rw [hsame x y ‹_›]
  · rfl

end Image

/-- How far beside a rectangle it is looked for neighbours. Averages look at the ring alone, which
is one pixel wide. -/
def Interpolation.reach (interpolation : Interpolation) : Nat :=
  max 1 (interpolation.order?.getD 0)

theorem Interpolation.order_le {interpolation : Interpolation} {order : Nat}
    (h : interpolation.order? = some order) : order ≤ 3 ∧ order ≤ interpolation.reach := by
  refine ⟨?_, ?_⟩
  · cases interpolation <;> cases h <;> decide
  · rw [reach, h, Option.getD_some]
    exact Nat.le_max_right 1 order

namespace Repair.InPlace

open Image (SameOff SameBeside)

variable {rule : Rule} {order n : Nat} {direction : Direction} {image a b : Image} {r : Rect}
  {c : Primary} {x y : Nat}

/-! ## What neighbours show -/

/-- The values of a color in the neighbours of a pixel, with their weights, found on integers without
bounds. -/
def nearby (rule : Rule) (order : Nat) (direction : Direction) (image : Image) (r : Rect)
    (c : Primary) (x y : Nat) : List (rule.Weight × Nat) :=
  let s := spotOf r
  let place := weightAt (x - s.x) (y - s.y) direction
  (offsets s.width s.height order direction).zipIdx.filterMap fun q =>
    let position := near r x y q.1 direction
    (pixel? image position.1 position.2).map fun pixel =>
      (rule.weight s.width s.height order direction q.2 place.1 place.2, (c.read pixel).toNat)

def shade (rule : Rule) (order : Nat) (direction : Direction) (image : Image) (r : Rect)
    (c : Primary) (x y : Nat) : UInt16 :=
  let top := image.depth.maxValue
  kept top (rule.value top (nearby rule order direction image r c x y))

/-- What a repair makes of a pixel of its rectangle. The old pixel gives its alpha, and its colors
only if there is no neighbour in the image to take others from. -/
def remade (rule : Rule) (interpolation : Interpolation) (direction : Direction) (image : Image)
    (r : Rect) (x y : Nat) (old : Pixel) : Pixel :=
  match interpolation.order? with
  | none =>
    let pixels := ring image r
    if pixels.isEmpty then old
    else
      { old with
        red := rule.mean (pixels.map Pixel.red)
        green := rule.mean (pixels.map Pixel.green)
        blue := rule.mean (pixels.map Pixel.blue) }
  | some order =>
    { old with
      red := shade rule order direction image r .red x y
      green := shade rule order direction image r .green x y
      blue := shade rule order direction image r .blue x y }

theorem pixel?_congr (h : SameBeside n r a b) {i j : Int} (hout : ¬r.Covers i j)
    (hnear : r.GrownCovers n i j) : pixel? a i j = pixel? b i j := by
  have hwidth := h.frame.width
  have hheight := h.frame.height
  rw [pixel?, pixel?, ← hwidth, ← hheight]
  split
  · have hx : ((i.toNat : Nat) : Int) = i := Int.toNat_of_nonneg (by omega)
    have hy : ((j.toNat : Nat) : Int) = j := Int.toNat_of_nonneg (by omega)
    rw [h.pixel i.toNat (by omega) j.toNat (by omega) (by rwa [hx, hy]) (by rwa [hx, hy])]
  · rfl

theorem grownCovers_mono {m : Nat} (hm : m ≤ n) {i j : Int} (h : r.GrownCovers m i j) :
    r.GrownCovers n i j := by
  obtain ⟨hempty, hcolumn, hrow⟩ := h
  exact ⟨hempty, by omega, by omega⟩

theorem nearby_congr (h : SameBeside n r a b) (horder : order ≤ n) (hcovers : r.Covers x y) :
    nearby rule order direction a r c x y = nearby rule order direction b r c x y := by
  refine List.filterMap_congr fun q hq => ?_
  have hmem : q.1 ∈ offsets (spotOf r).width (spotOf r).height order direction :=
    (List.mem_zipIdx hq).2.2 ▸ List.getElem_mem _
  obtain ⟨hout, hnear⟩ := outside_near hcovers hmem
  dsimp only
  rw [pixel?_congr h hout (grownCovers_mono horder hnear)]

theorem shade_congr (h : SameBeside n r a b) (horder : order ≤ n) (hcovers : r.Covers x y) :
    shade rule order direction a r c x y = shade rule order direction b r c x y := by
  rw [shade, shade, nearby_congr h horder hcovers, h.frame.2.1]

theorem ring_congr (h : SameBeside n r a b) (hn : 1 ≤ n) (hclip : r.IsClip a.dimensions) :
    ring a r = ring b r := by
  have hclip' : r.IsClip b.dimensions := h.frame.1 ▸ hclip
  rw [ring_eq hclip, ring_eq hclip', ring_eq_filterMap, ring_eq_filterMap]
  refine List.filterMap_congr fun p hp => ?_
  obtain ⟨hout, hnear⟩ := outside_ringAt hclip hp
  exact pixel?_congr h hout (grownCovers_mono hn hnear)

/-- A repair depends on what is beside its rectangle, within its reach. -/
theorem remade_congr {interpolation : Interpolation}
    (h : SameBeside interpolation.reach r a b) (hclip : r.IsClip a.dimensions)
    (hcovers : r.Covers x y) (old : Pixel) :
    remade rule interpolation direction a r x y old
      = remade rule interpolation direction b r x y old := by
  have hring : ring a r = ring b r := ring_congr h (Nat.le_max_left 1 _) hclip
  unfold remade
  cases horder : interpolation.order? with
  | none => simp only [hring]
  | some order =>
    have hreach := (Interpolation.order_le horder).2
    simp only [shade_congr h hreach hcovers]

/-! ## Repainting -/

theorem kept_le (top : Nat) (value : Int) (htop : top < UInt16.size) :
    (kept top value).toNat = min value.toNat top := by
  rw [kept, UInt16.toNat_ofNat_of_lt' (Nat.lt_of_le_of_lt (Nat.min_le_right _ _) htop)]

theorem fits_write {depth : Depth} {p : Pixel} (hp : p.Fits depth) {v : UInt16}
    (hv : v.toNat ≤ depth.maxValue) (c : Primary) : (c.write p v).Fits depth := by
  intro k
  have hwritten : (c.write p v).component k = v ∨ (c.write p v).component k = p.component k := by
    cases c <;> cases k <;> first | exact Or.inl rfl | exact Or.inr rfl
  rcases hwritten with hnew | hold
  · rw [hnew]
    exact hv
  · rw [hold]
    exact hp k

theorem shade_le (rule : Rule) (order : Nat) (direction : Direction) (image : Image) (r : Rect)
    (c : Primary) (x y : Nat) :
    (shade rule order direction image r c x y).toNat ≤ image.depth.maxValue := by
  rw [shade, kept_le _ _ (Depth.maxValue_lt _)]
  exact Nat.min_le_right _ _

/-- The neighbours of a pixel, found at coordinates that wrap. -/
theorem neighbours_eq (hclip : r.IsClip image.dimensions) (horder : order ≤ 3)
    (hcovers : r.Covers x y) :
    neighbours rule order direction image r c (Int32.ofInt (x - (spotOf r).x))
        (Int32.ofInt (y - (spotOf r).y))
      = nearby rule order direction image r c x y := by
  obtain ⟨⟨hsx, hsy⟩, hsw, hsh⟩ := spotOf_eq hclip
  obtain ⟨⟨hx, hy, hwidth, hheight, hright, hbottom⟩, hsigned⟩ := hclip
  have hbound := hsigned.1
  have hbound' := hsigned.2
  obtain ⟨⟨hleft, hright'⟩, htop, hbottom'⟩ := hcovers
  have hcolumn : (Int32.ofInt ((x : Int) - (spotOf r).x)).toInt = x - (spotOf r).x := by
    rw [Int32.toInt_ofInt_of_le] <;> omega
  have hrow : (Int32.ofInt ((y : Int) - (spotOf r).y)).toInt = y - (spotOf r).y := by
    rw [Int32.toInt_ofInt_of_le] <;> omega
  have hplace : weightAt (Int32.ofInt ((x : Int) - (spotOf r).x)).toInt.toNat
      (Int32.ofInt ((y : Int) - (spotOf r).y)).toInt.toNat direction
      = weightAt (x - (spotOf r).x) (y - (spotOf r).y) direction := by
    rw [hcolumn, hrow]
    congr 1 <;> omega
  have hself : (r.x + Int32.ofInt ((x : Int) - (spotOf r).x)).toInt
      = ((x : Int)).bmod 4294967296 := by
    rw [toInt_add_ofInt]
    congr 1
    omega
  have hself' : (r.y + Int32.ofInt ((y : Int) - (spotOf r).y)).toInt
      = ((y : Int)).bmod 4294967296 := by
    rw [toInt_add_ofInt]
    congr 1
    omega
  refine List.filterMap_congr fun q hq => ?_
  have hmem : q.1 ∈ offsets (spotOf r).width (spotOf r).height order direction :=
    (List.mem_zipIdx hq).2.2 ▸ List.getElem_mem _
  have hpixel : pixelAt? image
      (neighbourAt r (Int32.ofInt ((x : Int) - (spotOf r).x)) (Int32.ofInt ((y : Int) - (spotOf r).y))
        q.1 direction).1
      (neighbourAt r (Int32.ofInt ((x : Int) - (spotOf r).x)) (Int32.ofInt ((y : Int) - (spotOf r).y))
        q.1 direction).2
      = pixel? image (near r x y q.1 direction).1 (near r x y q.1 direction).2 := by
    cases direction with
    | twoDim =>
      obtain ⟨hqx, hqy, -⟩ := mem_around hmem
      simp only [pixelAt?, neighbourAt, near, toInt_add_ofInt]
      exact pixel?_wrapped hsigned (by omega) (by omega)
    | vertical =>
      have hqy := mem_along hmem
      simp only [pixelAt?, neighbourAt, near, hself]
      rw [toInt_add_ofInt]
      exact pixel?_wrapped hsigned (by omega) (by omega)
    | horizontal =>
      have hqx := mem_along hmem
      simp only [pixelAt?, neighbourAt, near, hself']
      rw [toInt_add_ofInt]
      exact pixel?_wrapped hsigned (by omega) (by omega)
  dsimp only
  rw [hpixel, hplace]
  rfl

theorem rebuild_eq (h : image.WellFormed) (hclip : r.IsClip image.dimensions) (horder : order ≤ 3)
    (c : Primary) :
    rebuild rule order direction r image c
      = image.repainted r fun x y old =>
          c.write old (shade rule order direction image r c x y) := by
  obtain ⟨⟨hsx, hsy⟩, hsw, hsh⟩ := spotOf_eq hclip
  have hzero : (0 : Int32).toInt = 0 := rfl
  refine sweep_eq_repainted h hclip (f := fun x => Int32.ofInt ((x : Int) - (spotOf r).x))
    (g := fun y => Int32.ofInt ((y : Int) - (spotOf r).y))
    (between_eq_map (by omega) fun i => by omega) (between_eq_map (by omega) fun j => by omega) ?_
  intro next hwf hsame x hx y hy hcovers
  have hdepth := hsame.frame.2.1
  have hclip' : r.IsClip next.dimensions := hsame.frame.1 ▸ hclip
  obtain ⟨hwidth, hheight⟩ := hclip'.signed
  change next.width.toNat < _ at hwidth
  change next.height.toNat < _ at hheight
  have hcolumn : (r.x + Int32.ofInt ((x : Int) - (spotOf r).x)).toInt = x := by
    rw [toInt_add_ofInt, Int.bmod_eq_of_le] <;> omega
  have hrow : (r.y + Int32.ofInt ((y : Int) - (spotOf r).y)).toInt = y := by
    rw [toInt_add_ofInt, Int.bmod_eq_of_le] <;> omega
  rw [change_eq hwf hcolumn hrow hx hy, neighbours_eq hclip' horder hcovers,
    ← nearby_congr (hsame.beside order) (Nat.le_refl order) hcovers]
  refine congrArg next.mapPixels (funext fun i => funext fun j => ?_)
  split
  · rename_i hplace
    rw [hplace.1, hplace.2]
    rfl
  · rfl

/-- One more color of a repainted rectangle, which is repaired by what the image showed before. -/
theorem rebuild_repainted (h : image.WellFormed) (hclip : r.IsClip image.dimensions)
    (horder : order ≤ 3) {new : Nat → Nat → Pixel → Pixel}
    (hfits : ∀ x y, (new x y (image.pixel x y)).Fits image.depth) (c : Primary) :
    rebuild rule order direction r (image.repainted r new) c
      = image.repainted r fun x y old =>
          c.write (new x y old) (shade rule order direction image r c x y) := by
  have hsame := h.sameOff_repainted r new
  have hclip' : r.IsClip (image.repainted r new).dimensions := hsame.frame.1 ▸ hclip
  rw [rebuild_eq (h.repainted r new) hclip' horder, h.repainted_repainted hfits]
  refine Image.repainted_congr h fun x y hcovers => ?_
  rw [shade_congr (hsame.beside order) (Nat.le_refl order) hcovers]

theorem weighted_eq (h : image.WellFormed) (hclip : r.IsClip image.dimensions) (horder : order ≤ 3) :
    weighted rule order direction image r
      = image.repainted r fun x y old =>
          { old with
            red := shade rule order direction image r .red x y
            green := shade rule order direction image r .green x y
            blue := shade rule order direction image r .blue x y } := by
  have hshade := shade_le rule order direction image r
  have hblue := fun x y => fits_write (image.fits_pixel x y) (hshade .blue x y) .blue
  have hgreen := fun x y => fits_write (hblue x y) (hshade .green x y) .green
  rw [weighted, Primary.all, List.foldl_cons, List.foldl_cons, List.foldl_cons, List.foldl_nil,
    rebuild_eq h hclip horder, rebuild_repainted h hclip horder hblue,
    rebuild_repainted h hclip horder hgreen]
  rfl

theorem average_eq (h : image.WellFormed) (hclip : r.IsClip image.dimensions) :
    average rule image r
      = image.repainted r fun _ _ old =>
          if (ring image r).isEmpty then old
          else
            { old with
              red := rule.mean ((ring image r).map Pixel.red)
              green := rule.mean ((ring image r).map Pixel.green)
              blue := rule.mean ((ring image r).map Pixel.blue) } := by
  obtain ⟨⟨hsx, hsy⟩, hsw, hsh⟩ := spotOf_eq hclip
  have hcolumns := hclip.toInt_right
  have hrows := hclip.toInt_bottom
  rw [average]
  dsimp only
  split
  · refine (h.repainted_eq_self fun x _ y _ _ => ?_).symm
    exact image.stored_pixel x y
  · refine sweep_eq_repainted h hclip (f := fun x => Int32.ofInt x) (g := fun y => Int32.ofInt y)
      (between_eq_map (by omega) fun i => by omega) (between_eq_map (by omega) fun j => by omega) ?_
    intro next hwf hsame x hx y hy _
    have hclip' : r.IsClip next.dimensions := hsame.frame.1 ▸ hclip
    obtain ⟨hwidth, hheight⟩ := hclip'.signed
    change next.width.toNat < _ at hwidth
    change next.height.toNat < _ at hheight
    exact change_eq hwf (Int32.toInt_ofInt_of_le (by omega) (by omega))
      (Int32.toInt_ofInt_of_le (by omega) (by omega)) hx hy _

/-- A repair is one repainting by what the image shows beside the rectangle. -/
theorem one_eq_repainted (rule : Rule) (interpolation : Interpolation) (direction : Direction)
    (h : image.WellFormed) (hclip : r.IsClip image.dimensions) :
    one rule interpolation direction image r
      = image.repainted r (remade rule interpolation direction image r) := by
  rw [one]
  cases horder : interpolation.order? with
  | none =>
    dsimp only
    rw [average_eq h hclip]
    refine Image.repainted_congr h fun x y _ => ?_
    simp only [remade, horder]
  | some order =>
    dsimp only
    rw [weighted_eq h hclip (Interpolation.order_le horder).1]
    refine Image.repainted_congr h fun x y _ => ?_
    simp only [remade, horder]

theorem keeps_one (rule : Rule) (interpolation : Interpolation) (direction : Direction)
    (h : image.WellFormed) (hclip : r.IsClip image.dimensions) :
    (one rule interpolation direction image r).WellFormed
      ∧ SameOff r image (one rule interpolation direction image r) := by
  rw [one_eq_repainted rule interpolation direction h hclip]
  exact ⟨h.repainted r _, h.sameOff_repainted r _⟩

/-! ## The repair of filters -/

theorem covers_spotOf (hclip : r.IsClip image.dimensions) (x y : Nat) :
    (spotOf r).covers x y ↔ r.Covers x y := by
  rw [Filter.Checked.covers_iff, mem_positions_spotOf hclip]

theorem mean_doubles (color : Pixel → UInt16) (pixels : List Pixel) :
    Rule.doubles.mean (pixels.map color) = Repair.mean color pixels := by
  simp only [Rule.doubles, Repair.mean, List.length_map, List.foldl_map]

theorem weightsFor_corner (s : Spot) (order : Nat) (direction : Direction) :
    weightsFor ⟨0, 0, s.width, s.height⟩ order direction = weightsFor s order direction := by
  cases direction <;> rfl

theorem positions_weightsFor (s : Spot) (order : Nat) (direction : Direction) :
    (weightsFor s order direction).positions = offsets s.width s.height order direction := by
  cases direction <;> rfl

theorem nearby_doubles (hclip : r.IsClip image.dimensions) (hcovers : r.Covers x y)
    (color : Primary) :
    nearby .doubles order direction image r color x y
      = (Repair.neighbours image (spotOf r) direction (weightsFor (spotOf r) order direction)
          (x - (spotOf r).x) (y - (spotOf r).y)).map fun n => (n.1, (color.read n.2).toNat) := by
  obtain ⟨⟨hsx, hsy⟩, -⟩ := spotOf_eq hclip
  obtain ⟨⟨hleft, -⟩, htop, -⟩ := hcovers
  have hx : ((spotOf r).x : Int) + ((x - (spotOf r).x : Nat) : Int) = x := by omega
  have hy : ((spotOf r).y : Int) + ((y - (spotOf r).y : Nat) : Int) = y := by omega
  rw [nearby, Repair.neighbours, List.map_filterMap, positions_weightsFor]
  refine List.filterMap_congr fun q _ => ?_
  cases direction with
  | twoDim =>
    simp only [near, ← hsx, ← hsy, Option.map_map, Rule.doubles, weightsFor_corner, weightAt]
    rfl
  | vertical =>
    simp only [near, hx, ← hsy, Option.map_map, Rule.doubles, weightsFor_corner, weightAt]
    rfl
  | horizontal =>
    simp only [near, ← hsx, hy, Option.map_map, Rule.doubles, weightsFor_corner, weightAt]
    rfl

theorem one_doubles (h : image.WellFormed) (hclip : r.IsClip image.dimensions)
    (interpolation : Interpolation) :
    one .doubles interpolation direction image r
      = Repair.one interpolation direction image (spotOf r) := by
  rw [one_eq_repainted .doubles interpolation direction h hclip, Repair.one]
  cases horder : interpolation.order? with
  | none =>
    dsimp only
    rw [Repair.average, ← ring_eq hclip]
    dsimp only
    split
    · rename_i hring
      refine h.repainted_eq_self fun x _ y _ _ => ?_
      simp only [remade, horder, if_pos hring]
      exact image.stored_pixel x y
    · rename_i hring
      refine congrArg image.mapPixels (funext fun x => funext fun y => ?_)
      simp only [covers_spotOf hclip, remade, horder, if_neg hring, mean_doubles]
  | some order =>
    dsimp only
    rw [Repair.fitted]
    refine congrArg image.mapPixels (funext fun x => funext fun y => ?_)
    simp only [covers_spotOf hclip, remade, horder]
    split
    · rename_i hcovers
      simp only [shade, nearby_doubles hclip hcovers]
      rfl
    · rfl

/-! ## All spots -/

def oneSpot (rule : Rule) (interpolation : Interpolation) (direction : Direction) (image : Image)
    (rect : Rect) : Image :=
  let r := rect.clipped image.dimensions
  if r.isEmpty then image else one rule interpolation direction image r

theorem all_cons (rule : Rule) (interpolation : Interpolation) (direction : Direction)
    (bounds : Rect) (total : Nat) (image : Image) (p : Progress) (done : Nat) (rect : Rect)
    (rest : List Rect) :
    all rule interpolation direction bounds total image p done (rect :: rest)
      = if p.isRunning then
          if (rect.intersected bounds).isEmpty then
            all rule interpolation direction bounds total image p (done + 1) rest
          else
            all rule interpolation direction bounds total
              (one rule interpolation direction image (rect.intersected bounds))
              (p.postFraction (done + 1) total 0 100) (done + 1) rest
        else (image, p) :=
  (rfl)

/-- A repair of one rectangle is a repainting of the part inside the image. -/
theorem oneSpot_eq_repainted (rule : Rule) (interpolation : Interpolation) (direction : Direction)
    (h : image.WellFormed) (rect : Rect) :
    oneSpot rule interpolation direction image rect
      = image.repainted (rect.clipped image.dimensions)
          (remade rule interpolation direction image (rect.clipped image.dimensions)) := by
  rw [oneSpot]
  split
  · rename_i hempty
    refine (h.repainted_eq_self fun x _ y _ hcovers => ?_).symm
    exact absurd hcovers (Rect.isEmpty_iff_covers.mp hempty x y)
  · rename_i hempty
    exact one_eq_repainted rule interpolation direction h
      (Rect.isClip_clipped (Bool.eq_false_iff.mpr hempty))

theorem spot?_eq (image : Image) (rect : Rect) :
    spot? image rect
      = if (rect.clipped image.dimensions).isEmpty then none
        else some (spotOf (rect.clipped image.dimensions)) :=
  (rfl)

theorem all_doubles (interpolation : Interpolation) (direction : Direction) (total : Nat) :
    ∀ (spots : List Rect) {image : Image}, image.WellFormed → ∀ (p : Progress) (done : Nat),
      all .doubles interpolation direction (.ofDimensions image.dimensions) total image p done spots
        = Repair.all interpolation direction total image p done spots
  | [], _, _, _, _ => (rfl)
  | rect :: spots, image, h, p, done => by
    rw [all_cons, Repair.all_cons, spot?_eq, ← Rect.clipped]
    split
    · by_cases hempty : (rect.clipped image.dimensions).isEmpty
      · rw [if_pos hempty, if_pos hempty]
        exact all_doubles interpolation direction total spots h p (done + 1)
      · have hclip := Rect.isClip_clipped (Bool.eq_false_iff.mpr hempty)
        obtain ⟨hwf, hsame⟩ := keeps_one .doubles interpolation direction h hclip
        have hnext := all_doubles interpolation direction total spots hwf
          (p.postFraction (done + 1) total 0 100) (done + 1)
        rw [← hsame.frame.1] at hnext
        rw [if_neg hempty, if_neg hempty]
        dsimp only
        rw [← one_doubles h hclip]
        exact hnext
    · rfl

/-- With doubles, repairing in place is the repair that filters carry out. -/
theorem apply_doubles {image : Image} (h : image.WellFormed) (r : SpotRepair) (p : Progress) :
    apply .doubles r image p = r.apply image p :=
  all_doubles r.interpolation r.direction r.spots.length r.spots h p 0

end Repair.InPlace

end Darkroom
