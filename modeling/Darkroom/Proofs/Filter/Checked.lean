import Darkroom.Filter.Checked
import Darkroom.Proofs.Filter.Untouched
import Darkroom.Proofs.Image.CheckedValues

/-!
# No index leaves an image when a filter works on it

Rows are worked on in place, and what is done so far is a prefix of rows (`runRows_eq`). Measuring reads
all pixels, and a repair writes to a spot inside the image and reads from positions that are looked at
first. So a filter with checked indices gives what the filter gives (`apply_eq`).
-/

namespace Darkroom

/-! ## Rows -/

/-- A part of bytes that are put together of three. -/
theorem Bytes.update?_append (first last : Array UInt8) {old new : Array UInt8}
    {f : Array UInt8 → Option (Array UInt8)} (hsize : new.size = old.size) (hf : f old = some new) :
    update? (first ++ (old ++ last)) first.size old.size f = some (first ++ (new ++ last)) := by
  have hfit : first.size + old.size ≤ (first ++ (old ++ last)).size := by
    rw [Array.size_append, Array.size_append]
    omega
  have hread : (first ++ (old ++ last)).extract first.size (first.size + old.size) = old := by
    refine slice_eq hfit rfl fun i hi => ?_
    rw [Array.getElem?_append_right (Nat.le_add_right _ _), Nat.add_sub_cancel_left,
      Array.getElem?_append_left hi]
  obtain ⟨result, hput, hresult, hin, hout⟩ := put?_spec (hsize.symm ▸ hfit)
  have hnew : result = first ++ (new ++ last) := by
    refine eq_of_getElem? (by rw [hresult]; simp only [Array.size_append, hsize]) fun i hi => ?_
    by_cases hwithin : Within first.size new.size i
    · obtain ⟨k, rfl⟩ := Nat.exists_eq_add_of_le hwithin.1
      have hk : k < new.size := by
        have := hwithin.2
        omega
      rw [hin k hk, Array.getElem?_append_right (Nat.le_add_right _ _), Nat.add_sub_cancel_left,
        Array.getElem?_append_left hk]
    · rw [hout i hwithin]
      rcases Nat.lt_or_ge i first.size with hlt | hge
      · rw [Array.getElem?_append_left hlt, Array.getElem?_append_left hlt]
      · have hbehind : old.size ≤ i - first.size := by
          rw [Within] at hwithin
          omega
        rw [Array.getElem?_append_right hge, Array.getElem?_append_right hge,
          Array.getElem?_append_right hbehind, Array.getElem?_append_right (hsize ▸ hbehind), hsize]
  simp only [update?, slice?_eq hfit, hread, Option.bind_eq_bind, Option.bind_some, hf, hput, hnew]

namespace Image

theorem foldl_append_cons (first last : List Row) (row : Row) :
    (first ++ row :: last).foldl (· ++ ·) #[]
      = first.foldl (· ++ ·) #[] ++ (row ++ last.foldl (· ++ ·) #[]) := by
  rw [List.foldl_append, List.foldl_cons, foldl_append_eq, Array.append_assoc]

theorem withRows_rows {image : Image} (h : image.WellFormed) (hnull : image.isNull = false) :
    image.withRows image.rows = image := by
  have hstride : ∀ row ∈ image.rows, row.size = image.rowBytes := by
    intro row hrow
    obtain ⟨y, hy⟩ := List.mem_iff_getElem?.mp hrow
    obtain ⟨hlt, rfl⟩ := of_getElem?_rows hy
    exact h.size_row hlt
  have hsize : (image.withRows image.rows).bytes.size = image.bytes.size := by
    rw [size_withRows hstride, length_rows, h.bytes_size_eq_rows]
  have hnew : (image.withRows image.rows).WellFormed := h.of_frame hnull rfl rfl rfl hsize
  have hbytes : (image.withRows image.rows).bytes = image.bytes := by
    refine Bytes.eq_of_getElem? hsize fun i hi => ?_
    obtain ⟨-, hbyte⟩ := getElem?_bytes hnew hi
    obtain ⟨hy, hold⟩ := getElem?_bytes h (hsize ▸ hi)
    have hframe : (image.withRows image.rows).rowBytes = image.rowBytes := rfl
    rw [hbyte, hold, hframe, row_withRows hstride (getElem?_rows hy)]
  exact congrArg (fun bytes => { image with bytes }) hbytes

namespace Checked

variable {image : Image}

/-- The rows that are done stand in front of those that are left. -/
theorem runRows_eq (height : Nat) {stride : Nat} (band : Band) {op? : Nat → Row → Option Row} {op : RowOp}
    (hop : ∀ y row, row.size = stride → op? y row = some (op y row) ∧ (op y row).size = stride)
    (rest : List Row) {done : List Row} (work : RowWork)
    (hdone : ∀ row ∈ done, row.size = stride) (hrest : ∀ row ∈ rest, row.size = stride) :
    runRows height stride band op? work (List.range' done.length rest.length)
        ((done ++ rest).foldl (· ++ ·) #[])
      = some ((RowWork.run height band op work done.length rest).1,
          (done ++ (RowWork.run height band op work done.length rest).2).foldl (· ++ ·) #[]) := by
  induction rest generalizing done work with
  | nil => rfl
  | cons row rest ih =>
    obtain ⟨hstep, hsize⟩ := hop done.length row (hrest row List.mem_cons_self)
    have hrest' : ∀ r ∈ rest, r.size = stride := fun r hr => hrest r (List.mem_cons_of_mem _ hr)
    -- Whatever the row becomes, it belongs to the rows that are done.
    have hnext : ∀ (work : RowWork) (new : Row), new.size = stride →
        runRows height stride band op? work (List.range' (done.length + 1) rest.length)
            ((done ++ new :: rest).foldl (· ++ ·) #[])
          = some ((RowWork.run height band op work (done.length + 1) rest).1,
              (done ++ new :: (RowWork.run height band op work (done.length + 1) rest).2).foldl
                (· ++ ·) #[]) := by
      intro work new hnew
      have hdone' : ∀ r ∈ done ++ [new], r.size = stride := by
        intro r hr
        rcases List.mem_append.mp hr with hr | hr
        · exact hdone r hr
        · rw [List.mem_singleton.mp hr, hnew]
      have hrun := ih work hdone' hrest'
      simpa using hrun
    rw [List.length_cons, List.range'_succ, runRows, RowWork.run, RowWork.row]
    split
    · have hupdate := Bytes.update?_append (done.foldl (· ++ ·) #[]) (rest.foldl (· ++ ·) #[])
        (hsize.trans (hrest row List.mem_cons_self).symm) hstep
      rw [size_foldl_append hdone, hrest row List.mem_cons_self] at hupdate
      rw [foldl_append_cons, hupdate, Option.bind_eq_bind, Option.bind_some, ← foldl_append_cons]
      exact hnext _ _ hsize
    · exact hnext _ _ (hrest row List.mem_cons_self)

theorem processRows_eq (h : image.WellFormed) (progress : Progress) (band : Band)
    {op? : Nat → Row → Option Row} {op : RowOp}
    (hop : ∀ y row, row.size = image.rowBytes →
      op? y row = some (op y row) ∧ (op y row).size = image.rowBytes) :
    processRows image progress band op? = some (image.processRows progress band op) := by
  rw [processRows, Image.processRows]
  split
  · rfl
  rename_i hnull
  rw [Bool.not_eq_true] at hnull
  have hstride : 0 < image.rowBytes :=
    Nat.mul_pos (h.width_pos hnull) image.depth.pixelBytes_pos
  have hrows : image.bytes.size / image.rowBytes = image.rows.length := by
    rw [h.bytes_size_eq_rows, Nat.mul_div_cancel _ hstride, length_rows]
  have hrest : ∀ row ∈ image.rows, row.size = image.rowBytes := by
    intro row hrow
    obtain ⟨y, hy⟩ := List.mem_iff_getElem?.mp hrow
    obtain ⟨hlt, rfl⟩ := of_getElem?_rows hy
    exact h.size_row hlt
  have hbytes : image.rows.foldl (· ++ ·) #[] = image.bytes :=
    congrArg Image.bytes (withRows_rows h hnull)
  have hrun := runRows_eq image.height.toNat band hop image.rows ⟨0, progress⟩
    (fun row hrow => absurd hrow List.not_mem_nil) hrest
  rw [List.nil_append, List.length_nil, hbytes, ← List.range_eq_range', ← hrows] at hrun
  rw [hrun]
  rfl

theorem processPixels_eq (h : image.WellFormed) (progress : Progress) (band : Band)
    (f : Pixel → Pixel) :
    processPixels image progress band f
      = some (image.processRows progress band (pixelOp image.depth f)) :=
  processRows_eq h progress band fun y _ hrow =>
    ⟨eachPixel?_eq hrow f y, Array.size_ofFn.trans hrow⟩

end Checked

end Image

namespace Filter.Checked

/-! ## Measuring -/

variable {image : Image}

theorem pixels?_eq (h : image.WellFormed) :
    Bytes.pixels? image.depth image.bytes = some (Histogram.pixels image) := by
  have hcount : image.bytes.size / image.depth.pixelBytes = image.pixelCount := by
    rw [h.bytes_size, Nat.mul_div_cancel _ image.depth.pixelBytes_pos]
  rw [Bytes.pixels?, Histogram.pixels, hcount]
  refine Bytes.mapM_eq_some fun k hk => Bytes.pixel?_eq ?_
  rw [h.bytes_size]
  exact Image.chunk_fits (List.mem_range.mp hk) _

theorem histogram_eq (h : image.WellFormed) : histogram image = some (.ofImage image) := by
  rw [histogram, pixels?_eq h]
  rfl

theorem withoutClipping_eq (h : image.WellFormed) (m : Balance.Multipliers) :
    withoutClipping image m = some (Balance.withoutClipping image m) := by
  have hpeak : ∀ color : Pixel → UInt16,
      peak (Histogram.pixels image) color = Balance.peak image color := by
    intro color
    rw [peak, Histogram.pixels, List.foldl_map, Balance.peak]
  rw [withoutClipping, pixels?_eq h, Option.bind_eq_bind, Option.bind_some]
  simp only [hpeak]
  rfl

theorem luts_eq (h : image.WellFormed) (tables : Luts) (progress : Progress) (band : Image.Band) :
    luts tables image progress band = some (tables.apply image progress band) :=
  Image.Checked.processPixels_eq h progress band tables.mapPixel

theorem balance_eq (h : image.WellFormed) (w : WhiteBalance) (progress : Progress) :
    balance w image progress = some (w.apply image progress) := by
  rw [balance, WhiteBalance.apply]
  dsimp only
  split
  · rw [withoutClipping_eq h, Option.bind_eq_bind, Option.bind_some]
    exact Image.Checked.processPixels_eq h _ _ _
  · rw [Option.bind_eq_bind, Option.bind_some]
    exact Image.Checked.processPixels_eq h _ _ _

/-! ## Spots -/

theorem inside_eq (h : image.WellFormed) (x y : Int) :
    inside image x y = some (Repair.pixel? image x y) := by
  rw [inside, Repair.pixel?]
  split
  · rw [Image.Checked.pixel_eq h (by omega) (by omega), Option.map_some]
  · rfl

theorem ring_eq (h : image.WellFormed) (s : Repair.Spot) :
    ring image s = some (Repair.ring image s) := by
  rw [ring, Bytes.mapM_eq_some fun p _ => inside_eq h p.1 p.2, Option.bind_eq_bind,
    Option.bind_some, Repair.ring, ringAt]
  simp only [List.filterMap_map, List.filterMap_append, List.filterMap_flatMap, Function.id_comp]
  have hpair : ∀ a b : Int × Int, [a, b].filterMap (fun p => Repair.pixel? image p.1 p.2)
      = (Repair.pixel? image a.1 a.2).toList ++ (Repair.pixel? image b.1 b.2).toList := by
    intro a b
    cases ha : Repair.pixel? image a.1 a.2 <;> cases hb : Repair.pixel? image b.1 b.2 <;>
      simp [ha, hb]
  simp only [hpair]

/-- Where a spot lies. -/
theorem inside_of_spot? {rect : Rect} {s : Repair.Spot} (h : Repair.spot? image rect = some s) :
    s.x + s.width ≤ image.width.toNat ∧ s.y + s.height ≤ image.height.toNat := by
  rw [Repair.spot?] at h
  split at h
  · cases h
  · rename_i hempty
    obtain ⟨hx, hy, hwidth, hheight, hright, hbottom⟩ :=
      Rect.inside_intersected (Bool.eq_false_iff.mpr hempty)
    cases h
    change _ ≤ (image.width.toNat : Int) at hright
    change _ ≤ (image.height.toNat : Int) at hbottom
    dsimp only
    omega

theorem covers_iff {s : Repair.Spot} {x y : Nat} :
    s.covers x y ↔ (x, y) ∈ Image.positions s.x s.y s.width s.height := by
  rw [Image.Checked.mem_positions, Repair.Spot.covers]
  simp only [Bool.and_eq_true, decide_eq_true_eq, and_assoc]

/-- A spot inside an image is changed pixel by pixel. -/
theorem changeAt_spot (h : image.WellFormed) {s : Repair.Spot}
    (hx : s.x + s.width ≤ image.width.toNat) (hy : s.y + s.height ≤ image.height.toNat)
    {f : Nat → Nat → Pixel → Option Pixel} {g : Nat → Nat → Pixel}
    (hf : ∀ x y, f x y (image.pixel x y) = some (g x y)) :
    Image.Checked.changeAt image (Image.positions s.x s.y s.width s.height) f
      = some (image.mapPixels fun x y => if s.covers x y then g x y else image.pixel x y) := by
  refine Image.Checked.changeAt_eq h (Image.Checked.nodup_positions _ _ _ _) (fun p hp => ?_)
    (fun p hp => ?_) fun x y hout => ?_
  · rw [Image.Checked.mem_positions] at hp
    omega
  · rw [if_pos (covers_iff.mpr hp), hf]
  · rw [← covers_iff] at hout
    exact if_neg hout

theorem average_eq (h : image.WellFormed) {s : Repair.Spot}
    (hx : s.x + s.width ≤ image.width.toNat) (hy : s.y + s.height ≤ image.height.toNat) :
    average image s = some (Repair.average image s) := by
  rw [average, ring_eq h, Option.bind_eq_bind, Option.bind_some, Repair.average]
  dsimp only
  split
  · rfl
  · exact changeAt_spot h hx hy fun _ _ => rfl

theorem neighbours_eq (h : image.WellFormed) (s : Repair.Spot) (direction : Direction)
    (weights : Repair.Weights) (x y : Nat) :
    neighbours image s direction weights x y
      = some (Repair.neighbours image s direction weights x y) := by
  rw [neighbours, Repair.neighbours]
  cases direction <;>
    simp only [inside_eq h, Option.map_some, Bytes.mapM_eq_some fun _ _ => rfl,
      Option.bind_eq_bind, Option.bind_some, List.filterMap_map, Function.id_comp]

theorem fitted_eq (h : image.WellFormed) {s : Repair.Spot}
    (hx : s.x + s.width ≤ image.width.toNat) (hy : s.y + s.height ≤ image.height.toNat)
    (direction : Direction) (weights : Repair.Weights) :
    fitted image s direction weights = some (Repair.fitted image s direction weights) := by
  refine changeAt_spot h hx hy fun x y => ?_
  rw [neighbours_eq h]
  rfl

theorem one_eq (h : image.WellFormed) {s : Repair.Spot}
    (hx : s.x + s.width ≤ image.width.toNat) (hy : s.y + s.height ≤ image.height.toNat)
    (interpolation : Interpolation) (direction : Direction) :
    one interpolation direction image s = some (Repair.one interpolation direction image s) := by
  rw [one, Repair.one]
  cases interpolation.order? with
  | none => exact average_eq h hx hy
  | some order => exact fitted_eq h hx hy direction _

theorem wellFormed_one (h : image.WellFormed) (interpolation : Interpolation)
    (direction : Direction) (s : Repair.Spot) :
    (Repair.one interpolation direction image s).WellFormed := by
  rw [Repair.one]
  cases interpolation.order? with
  | none =>
    dsimp only
    rw [Repair.average]
    dsimp only
    split
    · exact h
    · exact h.mapPixels _
  | some order => exact h.mapPixels _

theorem all_cons (interpolation : Interpolation) (direction : Direction) (total : Nat)
    (image : Image) (progress : Progress) (done : Nat) (rect : Rect) (rest : List Rect) :
    all interpolation direction total image progress done (rect :: rest)
      = if progress.isRunning then
          match Repair.spot? image rect with
          | none => all interpolation direction total image progress (done + 1) rest
          | some s => do
            let image ← one interpolation direction image s
            all interpolation direction total image (progress.postFraction (done + 1) total 0 100)
              (done + 1) rest
        else some (image, progress) :=
  (rfl)

theorem all_eq (interpolation : Interpolation) (direction : Direction) (total : Nat) :
    ∀ (spots : List Rect) {image : Image}, image.WellFormed → ∀ (progress : Progress) (done : Nat),
    all interpolation direction total image progress done spots
      = some (Repair.all interpolation direction total image progress done spots)
  | [], _, _, _, _ => rfl
  | rect :: spots, image, h, progress, done => by
    rw [all_cons, Repair.all_cons]
    by_cases hrunning : progress.isRunning
    · rw [if_pos hrunning, if_pos hrunning]
      cases hspot : Repair.spot? image rect with
      | none => exact all_eq interpolation direction total spots h progress (done + 1)
      | some s =>
        obtain ⟨hx, hy⟩ := inside_of_spot? hspot
        dsimp only
        rw [one_eq h hx hy, Option.bind_eq_bind, Option.bind_some]
        exact all_eq interpolation direction total spots
          (wellFormed_one h interpolation direction s) _ (done + 1)
    · rw [if_neg hrunning, if_neg hrunning]

theorem wellFormed_all (interpolation : Interpolation) (direction : Direction) (total : Nat) :
    ∀ (spots : List Rect) {image : Image}, image.WellFormed → ∀ (progress : Progress) (done : Nat),
      (Repair.all interpolation direction total image progress done spots).1.WellFormed
  | [], _, h, _, _ => h
  | rect :: spots, image, h, progress, done => by
    rw [Repair.all_cons]
    split
    · cases Repair.spot? image rect with
      | none => exact wellFormed_all interpolation direction total spots h _ _
      | some s =>
        exact wellFormed_all interpolation direction total spots
          (wellFormed_one h interpolation direction s) _ _
    · exact h

/-! ## All kinds -/

/-- Work leaves a well-formed image behind; there is none to be done on the null image. -/
theorem wellFormed_apply {f : Filter} {source : Image} {reference : Option Image}
    {progress : Progress} {result : Filtered} (hsource : source.WellFormed)
    (happly : f.apply source reference progress = .ok result) : result.image.WellFormed := by
  rw [Filter.apply_eq_plan] at happly
  cases hplan : f.plan source reference with
  | error e =>
    rw [hplan] at happly
    cases happly
  | ok plan =>
    rw [hplan] at happly
    cases happly
    cases hnull : source.isNull with
    | false => exact (Plan.untouched hsource hnull hplan _).wellFormed hsource hnull
    | true =>
      rw [hsource.eq_null hnull, Plan.run]
      cases plan.work with
      | rows band op => exact Image.wellFormed_null
      | spots repair => exact wellFormed_all _ _ _ repair.spots Image.wellFormed_null _ 0

theorem measuring_eq {f : Filter} {source : Image} {reference : Option Image} {progress : Progress}
    (hsource : source.WellFormed) (hreference : ∀ image, reference = some image → image.WellFormed)
    {work? : Histogram → Progress → Option (Image × Progress)}
    {work : Histogram → Progress → Image × Progress}
    (hwork : ∀ h p, work? h p = some (work h p)) :
    measuring f source reference progress work? = some (f.measuring source reference progress work) := by
  rw [measuring, Filter.measuring]
  cases hmeasured : Filter.measured source reference with
  | error e => rfl
  | ok image =>
    have hwf : image.WellFormed := by
      cases reference with
      | none =>
        cases hmeasured
        exact hsource
      | some other =>
        rw [Filter.measured] at hmeasured
        split at hmeasured
        · cases hmeasured
        split at hmeasured
        · cases hmeasured
        · cases hmeasured
          exact hreference _ rfl
    dsimp only
    rw [histogram_eq hwf, Option.bind_eq_bind, Option.bind_some, hwork]
    rfl

theorem apply_eq (f : Filter) {source : Image} {reference : Option Image} (progress : Progress)
    (hsource : source.WellFormed) (hreference : ∀ image, reference = some image → image.WellFormed) :
    apply f source reference progress = some (f.apply source reference progress) := by
  rw [apply, Filter.apply]
  cases f.settings with
  | contrast settings =>
    dsimp only
    rw [luts_eq hsource]
    rfl
  | whiteBalance settings =>
    dsimp only
    rw [balance_eq hsource]
    rfl
  | curves settings =>
    dsimp only
    rw [luts_eq hsource]
    rfl
  | spotRepair settings =>
    dsimp only
    rw [all_eq _ _ _ _ hsource]
    rfl
  | autoExposure => exact measuring_eq hsource hreference fun h p => balance_eq hsource _ p
  | autoLevels => exact measuring_eq hsource hreference fun h p => luts_eq hsource _ p _
  | equalize => exact measuring_eq hsource hreference fun h p => luts_eq hsource _ p _
  | normalize => exact measuring_eq hsource hreference fun h p => luts_eq hsource _ p _

end Filter.Checked

end Darkroom
