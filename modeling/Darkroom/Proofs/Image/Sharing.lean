import Darkroom.Image.Store
import Darkroom.Proofs.Image.WellFormed

/-!
# Sharing does not show

Images of a store may share their bytes, and edits overwrite bytes. Still every name shows what it
would show if no two names shared anything (`performAll_eq`), and a command on one name never changes
what another one shows.

Two things carry this. The owners of bytes are counted exactly (`Counted`), so a count of one means
that nobody else shows them (`Counted.sole`); and whatever overwrites bytes has detached first
(`Edit.inPlace_of_overwrite`). What a detached name shows, and what the source of a placement shows,
is the same as before (`image_detach`, `look_detach`), so it does not matter that an edit reads them
later.
-/

namespace Darkroom.Image

/-! ## How an edit comes about -/

section Edits

variable {image : Image}

theorem mapPixels_of_isNull (hnull : image.isNull) (f : Nat → Nat → Pixel) :
    image.mapPixels f = image := by
  rw [mapPixels, if_pos hnull]

theorem setByte_of_isNull (hnull : image.isNull) (index : Nat) (value : UInt8) :
    image.setByte index value = image := by
  have hout : ¬index < image.bytes.size := by
    rw [isNull, Array.isEmpty_iff_size_eq_zero] at hnull
    omega
  simp only [setByte, Array.setIfInBounds, hout, dite_false]

theorem apply_write {new : Image} (h : image.isNull → new = image) :
    (Change.write image new).apply image = new := by
  cases hnull : image.isNull with
  | true => rw [h hnull, Change.write, if_pos hnull, Change.apply]
  | false => rw [Change.write, hnull, if_neg Bool.false_ne_true, Change.apply]

variable {join : Pixel → Pixel → Pixel} {source : Image} {rect : Rect} {corner : Point}

theorem apply_placement :
    (Edit.placement image source rect corner (place join image source rect corner)).1.apply image
      = (place join image source rect corner).toOption.getD image := by
  unfold place
  cases hfault : placeFault? image source with
  | some e => rfl
  | none =>
      cases hclip : clip rect corner source.dimensions image.dimensions with
      | none => simp [Edit.placement, hclip, Change.apply, Except.toOption]
      | some region => simp [Edit.placement, hclip, Change.apply, Except.toOption]

theorem placement_overwrites {new : Image}
    (h : (Edit.placement image source rect corner (place join image source rect corner)).1
      = .overwrite new) :
    (placeFault? image source).isNone
      ∧ (clip rect corner source.dimensions image.dimensions).isSome := by
  unfold place at h
  cases hfault : placeFault? image source with
  | some e =>
      rw [hfault] at h
      cases h
  | none =>
      refine ⟨rfl, ?_⟩
      cases hclip : clip rect corner source.dimensions image.dimensions with
      | none => simp [hfault, hclip, Edit.placement] at h
      | some region => rfl

theorem write_overwrites {new result : Image} (h : Change.write image new = .overwrite result) :
    image.isNull = false := by
  cases hnull : image.isNull with
  | true =>
      rw [Change.write, if_pos hnull] at h
      cases h
  | false => rfl

end Edits

/-- Whether an edit writes or not, it leaves the same image. -/
theorem Edit.apply_change (image : Image) (e : Edit) :
    (e.change image).1.apply image = e.result image := by
  cases e <;> rw [change, result]
  case load | copyFrom | crop | resize => rfl
  case setPixel x y color => exact apply_write fun hnull => mapPixels_of_isNull hnull _
  case fill color => exact apply_write fun hnull => mapPixels_of_isNull hnull _
  case flip axis => exact apply_write fun hnull => mapPixels_of_isNull hnull _
  case setByte index value => exact apply_write fun hnull => setByte_of_isNull hnull _ _
  case blit source rect corner => exact apply_placement
  case blend source rect corner => exact apply_placement
  case rotate rotation =>
    by_cases hnull : image.isNull
    · simp only [if_pos hnull, Change.apply, Image.rotate]
    · simp only [if_neg hnull, Change.apply]
  case upright orientation =>
    cases hnew : image.upright? orientation with
    | none => rfl
    | some new =>
        dsimp only
        split
        · refine apply_write fun hnull => ?_
          rw [upright?, if_pos hnull] at hnew
          cases hnew
        · rfl
  case removeAlpha background =>
    by_cases hkeep : image.isNull ∨ ¬image.hasAlpha
    · simp only [if_pos hkeep, Change.apply, Image.removeAlpha]
    · simp only [if_neg hkeep, Change.apply]
  case convertDepth depth =>
    by_cases hkeep : image.isNull ∨ image.depth = depth
    · simp only [if_pos hkeep, Change.apply, Image.convertDepth]
    · simp only [if_neg hkeep, Change.apply]

/-- Only edits in place overwrite anything. -/
theorem Edit.inPlace_of_overwrite {image new : Image} {e : Edit}
    (h : (e.change image).1 = .overwrite new) : e.inPlace image := by
  cases e <;> rw [change] at h <;> rw [inPlace]
  case load | copyFrom | crop | resize => cases h
  case setPixel | fill | flip | setByte => rw [write_overwrites h, Bool.not_false]
  case blit source rect corner => rw [Bool.and_eq_true]; exact placement_overwrites h
  case blend source rect corner => rw [Bool.and_eq_true]; exact placement_overwrites h
  case rotate rotation => split at h <;> cases h
  case convertDepth depth => split at h <;> cases h
  case upright orientation =>
    split at h
    · cases h
    · split at h
      · rename_i hflip
        rw [write_overwrites h]
        simpa using hflip
      · cases h
  case removeAlpha background =>
    split at h
    · cases h
    · rename_i hkeep
      simpa using hkeep

theorem placeFault?_isNone {image source : Image} (h : (placeFault? image source).isNone) :
    image.isNull = false := by
  cases hnull : image.isNull with
  | false => rfl
  | true =>
      rw [placeFault?, if_pos (Or.inl hnull)] at h
      cases h

/-- There are bytes to overwrite where an edit is in place. -/
theorem Edit.isNull_of_inPlace {image : Image} {e : Edit} (h : e.inPlace image) :
    image.isNull = false := by
  cases e <;> rw [inPlace] at h
  case load | copyFrom | crop | rotate | convertDepth | resize => cases h
  case setPixel | fill | setByte | flip => simpa using h
  case blit source rect corner =>
    rw [Bool.and_eq_true] at h
    exact placeFault?_isNone h.1
  case blend source rect corner =>
    rw [Bool.and_eq_true] at h
    exact placeFault?_isNone h.1
  case upright orientation =>
    rw [Bool.and_eq_true] at h
    simpa using h.1
  case removeAlpha background =>
    rw [Bool.and_eq_true] at h
    simpa using h.1

namespace Store

/-! ## Names -/

theorem lookup_filter_ne {α : Type} {name other : String} (h : other ≠ name) :
    ∀ l : List (String × α), (l.filter (·.1 != name)).lookup other = l.lookup other
  | [] => rfl
  | (n, x) :: l => by
      by_cases hn : n = name
      · subst hn
        simp [List.lookup_cons, beq_false_of_ne h, lookup_filter_ne h l]
      · simp [List.lookup_cons, hn, lookup_filter_ne h l]

theorem handle_bind (s : Store) (name other : String) (h : Handle) :
    (s.bind name h).handle other = if other = name then h else s.handle other := by
  unfold handle bind
  by_cases hother : other = name
  · simp [hother]
  · simp [hother, List.lookup_cons, beq_false_of_ne hother, lookup_filter_ne hother]

/-! ## Owners -/

/-- The addresses that are owned: by names, and by handles held besides. An operation holds a handle
for a while that no name has, and its owner has to be counted too. -/
def addresses (s : Store) (held : List Handle) : List (Option Nat) :=
  s.handles.map (·.2.address) ++ held.map (·.address)

/-- Every name is given once, the owners of bytes are counted, and bytes to come have none. From
this an owner that is the only one knows it, so writing in place is seen under no other name. -/
structure Counted (s : Store) (held : List Handle) : Prop where
  names : (s.handles.map Prod.fst).Nodup
  owners : ∀ a, s.owners a = (s.addresses held).count (some a)
  fresh : ∀ a, s.next ≤ a → s.owners a = 0

/-- What a name owns, and what all others own. -/
theorem count_handles (name : String) {address : Option Nat} (haddress : address ≠ none) :
    ∀ {l : List (String × Handle)}, (l.map Prod.fst).Nodup →
      (l.map (·.2.address)).count address
        = (if ((l.lookup name).getD .null).address = address then 1 else 0)
          + ((l.filter (·.1 != name)).map (·.2.address)).count address
  | [], _ => by simp [Handle.null, haddress.symm]
  | (n, x) :: l, hnodup => by
      rw [List.map_cons, List.nodup_cons] at hnodup
      by_cases hn : n = name
      · subst hn
        have hrest : l.filter (·.1 != n) = l := by
          refine List.filter_eq_self.mpr fun p hp => ?_
          have hne : p.1 ≠ n := fun h => hnodup.1 (List.mem_map.mpr ⟨p, hp, h⟩)
          simpa using hne
        simp [List.count_cons, hrest, Nat.add_comm]
      · have ih := count_handles name haddress hnodup.2
        simp [List.lookup_cons, List.count_cons, hn, beq_false_of_ne (Ne.symm hn), ih]
        omega

/-- The addresses that names other than one own. What is written under that name must not be at any
of them. -/
def otherAddresses (s : Store) (name : String) : List (Option Nat) :=
  (s.handles.filter (·.1 != name)).map (·.2.address)

section

variable {s : Store} {held : List Handle}

theorem Counted.split (h : Counted s held) (name : String) (a : Nat) :
    s.owners a = (if (s.handle name).address = some a then 1 else 0)
      + (s.otherAddresses name).count (some a) + (held.map (·.address)).count (some a) := by
  have hcount := count_handles name (Option.some_ne_none a) h.names
  rw [h.owners, addresses, List.count_append, hcount]
  rfl

theorem count_otherAddresses {name other : String} {a : Nat} (h : Counted s held)
    (hother : other ≠ name) (haddress : (s.handle other).address = some a) :
    0 < (s.otherAddresses name).count (some a) := by
  have hnodup : ((s.handles.filter (·.1 != name)).map Prod.fst).Nodup :=
    h.names.sublist (List.filter_sublist.map _)
  have hcount := count_handles other (Option.some_ne_none a) hnodup
  rw [lookup_filter_ne hother, ← handle, if_pos haddress] at hcount
  rw [otherAddresses, hcount]
  omega

/-- The only owner of bytes is the only one that shows them. -/
theorem Counted.sole {name : String} {a : Nat} (h : Counted s held)
    (haddress : (s.handle name).address = some a) (hsole : s.owners a = 1) :
    (∀ other, other ≠ name → (s.handle other).address ≠ some a)
      ∧ ∀ x ∈ held, x.address ≠ some a := by
  have hsplit := h.split name a
  rw [hsole, if_pos haddress] at hsplit
  constructor
  · intro other hother hshared
    have hpos := count_otherAddresses h hother hshared
    omega
  · intro x hx hshared
    have hpos : 0 < (held.map (·.address)).count (some a) :=
      List.count_pos_iff.mpr (List.mem_map.mpr ⟨x, hx, hshared⟩)
    omega

/-- Bytes that are shown have an owner, so they are not among those to come. -/
theorem Counted.lt_next_of_name {name : String} {a : Nat} (h : Counted s held)
    (haddress : (s.handle name).address = some a) : a < s.next := by
  refine Nat.lt_of_not_le fun hle => ?_
  have hsplit := h.split name a
  rw [h.fresh a hle, if_pos haddress] at hsplit
  omega

theorem Counted.lt_next_of_held {x : Handle} {a : Nat} (h : Counted s held) (hx : x ∈ held)
    (haddress : x.address = some a) : a < s.next := by
  refine Nat.lt_of_not_le fun hle => ?_
  have hsplit := h.split "" a
  have hpos : 0 < (held.map (·.address)).count (some a) :=
    List.count_pos_iff.mpr (List.mem_map.mpr ⟨x, hx, haddress⟩)
  rw [h.fresh a hle] at hsplit
  omega

/-! ## Handing out and taking back -/

theorem owners_retain (x : Handle) (a : Nat) :
    (s.retain x).owners a = s.owners a + (if x.address = some a then 1 else 0) := by
  unfold retain
  cases hx : x.address with
  | none => simp
  | some b =>
      by_cases hab : a = b
      · simp [update, hab]
      · simp [update, hab, Ne.symm hab]

theorem owners_release (x : Handle) (a : Nat) :
    (s.release x).owners a = s.owners a - (if x.address = some a then 1 else 0) := by
  unfold release
  cases hx : x.address with
  | none => simp
  | some b =>
      by_cases hab : a = b
      · simp [update, hab]
      · simp [update, hab, Ne.symm hab]

/-- Taking and letting go of a handle leave all but the owners as they are. -/
theorem handles_retain (x : Handle) : (s.retain x).handles = s.handles := by
  unfold retain
  split <;> rfl

theorem handles_release (x : Handle) : (s.release x).handles = s.handles := by
  unfold release
  split <;> rfl

theorem next_retain (x : Handle) : (s.retain x).next = s.next := by
  unfold retain
  split <;> rfl

theorem next_release (x : Handle) : (s.release x).next = s.next := by
  unfold release
  split <;> rfl

/-- The handle of a name may be held besides. -/
theorem Counted.hold (h : Counted s held) (name : String) :
    Counted (s.retain (s.handle name)) (s.handle name :: held) := by
  refine ⟨by rw [handles_retain]; exact h.names, fun a => ?_, fun a ha => ?_⟩
  · rw [owners_retain, h.owners, addresses, addresses, handles_retain]
    simp only [List.map_cons, List.count_append, List.count_cons, beq_iff_eq]
    omega
  · rw [next_retain] at ha
    rw [owners_retain, h.fresh a ha, if_neg]
    intro haddress
    exact absurd (h.lt_next_of_name haddress) (Nat.not_lt.mpr ha)

theorem Counted.release {x : Handle} (h : Counted s (x :: held)) : Counted (s.release x) held := by
  refine ⟨by rw [handles_release]; exact h.names, fun a => ?_, fun a ha => ?_⟩
  · rw [owners_release, h.owners, addresses, addresses, handles_release]
    simp only [List.map_cons, List.count_append, List.count_cons, beq_iff_eq]
    omega
  · rw [next_release] at ha
    rw [owners_release, h.fresh a ha, Nat.zero_sub]

theorem Counted.assign {x : Handle} (h : Counted s (x :: held)) (name : String) :
    Counted (s.assign name x) held := by
  refine ⟨?_, fun a => ?_, fun a ha => ?_⟩
  · rw [Store.assign, bind, handles_release, List.map_cons, List.nodup_cons]
    refine ⟨?_, h.names.sublist (List.filter_sublist.map _)⟩
    simp
  · have hsplit := h.split name a
    simp only [List.map_cons, List.count_cons, beq_iff_eq] at hsplit
    rw [Store.assign, bind, owners_release, hsplit, addresses, handles_release]
    simp only [List.map_cons, List.count_append, List.count_cons, beq_iff_eq, otherAddresses]
    omega
  · rw [Store.assign, bind, next_release] at ha
    rw [Store.assign, bind, owners_release, h.fresh a ha, Nat.zero_sub]

theorem Counted.allocate (h : Counted s held) (image : Image) :
    Counted (s.allocate image).1 ((s.allocate image).2 :: held) := by
  unfold Store.allocate
  split
  · refine ⟨h.names, fun a => ?_, h.fresh⟩
    rw [h.owners, addresses, addresses]
    simp [Handle.null]
  · refine ⟨h.names, fun a => ?_, fun a ha => ?_⟩
    · have howners := h.owners a
      rw [addresses, List.count_append] at howners
      by_cases ha : a = s.next
      · subst ha
        rw [h.fresh s.next (Nat.le_refl _)] at howners
        simp [addresses, update, Handle.ofFrame]
        omega
      · simp [addresses, update, Handle.ofFrame, ha, Ne.symm ha]
        exact howners
    · have hne : a ≠ s.next := by
        rintro rfl
        exact absurd ha (by simp)
      simp only [update, hne, if_false]
      exact h.fresh a (Nat.le_of_succ_le ha)

/-! ## What is shown -/

theorem look_of_bytes {s t : Store} {x : Handle}
    (h : ∀ a, x.address = some a → t.bytes a = s.bytes a) : t.look x = s.look x := by
  unfold look
  cases hx : x.address with
  | none => rfl
  | some a => simp only [h a hx]

theorem look_retain (x y : Handle) : (s.retain x).look y = s.look y := by
  refine look_of_bytes fun a _ => ?_
  unfold retain
  split <;> rfl

theorem look_release (x y : Handle) : (s.release x).look y = s.look y := by
  refine look_of_bytes fun a _ => ?_
  unfold release
  split <;> rfl

theorem handle_retain (x : Handle) (name : String) : (s.retain x).handle name = s.handle name := by
  rw [handle, handles_retain, handle]

theorem handle_release (x : Handle) (name : String) :
    (s.release x).handle name = s.handle name := by
  rw [handle, handles_release, handle]

theorem image_retain (x : Handle) (name : String) : (s.retain x).image name = s.image name := by
  rw [image, handle_retain, look_retain, image]

theorem image_release (x : Handle) (name : String) : (s.release x).image name = s.image name := by
  rw [image, handle_release, look_release, image]

theorem look_assign (name : String) (x y : Handle) : (s.assign name x).look y = s.look y :=
  look_release _ y

theorem handle_assign (name other : String) (x : Handle) :
    (s.assign name x).handle other = if other = name then x else s.handle other := by
  rw [Store.assign, handle_bind, handle_release]

theorem owners_assign (name : String) (x : Handle) (a : Nat) :
    (s.assign name x).owners a
      = s.owners a - (if (s.handle name).address = some a then 1 else 0) :=
  owners_release _ a

theorem image_assign (name other : String) (x : Handle) :
    (s.assign name x).image other = if other = name then s.look x else s.image other := by
  rw [image, look_assign, handle_assign]
  split <;> rfl

/-! ## Moving to new bytes -/

theorem look_allocate_new {image : Image} (h : image.WellFormed) :
    (s.allocate image).1.look (s.allocate image).2 = image := by
  unfold Store.allocate
  split
  · rename_i hnull
    rw [h.eq_null hnull]
    rfl
  · simp [look, Handle.ofFrame, update]

theorem look_allocate {x : Handle} (image : Image) (hx : x.address ≠ some s.next) :
    (s.allocate image).1.look x = s.look x := by
  refine look_of_bytes fun a ha => ?_
  unfold Store.allocate
  split
  · rfl
  · have hne : a ≠ s.next := fun h => hx (h ▸ ha)
    simp only [update, if_neg hne]

theorem handle_allocate (image : Image) (name : String) :
    (s.allocate image).1.handle name = s.handle name := by
  unfold Store.allocate
  split <;> rfl

theorem Counted.replace (h : Counted s held) (name : String) (image : Image) :
    Counted (s.replace name image) held :=
  (h.allocate image).assign name

theorem image_replace (h : Counted s held) {image : Image} (hwell : image.WellFormed)
    (name other : String) :
    (s.replace name image).image other = if other = name then image else s.image other := by
  rw [Store.replace, image_assign, look_allocate_new hwell]
  split
  · rfl
  · rw [Store.image, handle_allocate, look_allocate]
    · rfl
    · intro hnext
      exact Nat.lt_irrefl _ (h.lt_next_of_name hnext)

theorem look_replace (h : Counted s held) {x : Handle} (hx : x ∈ held) (name : String)
    (image : Image) : (s.replace name image).look x = s.look x := by
  rw [Store.replace, look_assign, look_allocate]
  intro hnext
  exact Nat.lt_irrefl _ (h.lt_next_of_held hx hnext)

/-- Who moved to new bytes is their only owner. -/
theorem owners_replace (h : Counted s held) {name : String} {image : Image} {a : Nat}
    (haddress : ((s.replace name image).handle name).address = some a) :
    (s.replace name image).owners a = 1 := by
  rw [Store.replace, handle_assign, if_pos rfl] at haddress
  rw [Store.replace, owners_assign, handle_allocate]
  unfold Store.allocate at haddress ⊢
  split at haddress
  · cases haddress
  · rename_i hnull
    rw [if_neg hnull]
    obtain rfl : s.next = a := Option.some.inj haddress
    have hold : (s.handle name).address ≠ some s.next := fun hnext =>
      Nat.lt_irrefl _ (h.lt_next_of_name hnext)
    simp only [update, if_neg hold]
    rfl

/-! ## Detaching and overwriting -/

section Detach

variable {name : String}

theorem Counted.detach (h : Counted s held) (name : String) : Counted (s.detach name) held := by
  unfold Store.detach
  repeat' split
  · exact h
  · exact h
  · exact h.replace name _

theorem image_detach (h : Counted s held) (hwell : (s.image name).WellFormed) (other : String) :
    (s.detach name).image other = s.image other := by
  unfold Store.detach
  repeat' split
  · rfl
  · rfl
  · rw [image_replace h hwell]
    split
    · rename_i hother
      rw [hother]
    · rfl

theorem look_detach (h : Counted s held) {x : Handle} (hx : x ∈ held) (name : String) :
    (s.detach name).look x = s.look x := by
  unfold Store.detach
  repeat' split
  · rfl
  · rfl
  · exact look_replace h hx name _

theorem owners_detach (h : Counted s held) {a : Nat}
    (haddress : ((s.detach name).handle name).address = some a) : (s.detach name).owners a = 1 := by
  unfold Store.detach at haddress ⊢
  split at haddress
  · rename_i hnone
    rw [hnone] at haddress
    cases haddress
  · rename_i b hb
    split at haddress
    · rename_i hsole
      rw [hb, Option.some.injEq] at haddress
      rw [if_pos hsole, ← haddress, hsole]
    · rename_i hshared
      rw [if_neg hshared]
      exact owners_replace h haddress

end Detach

/-- Overwriting the bytes of a sole owner changes what this name shows, and nothing else. -/
theorem image_write (h : Counted s held) {name : String} {a : Nat} (image : Image)
    (haddress : (s.handle name).address = some a) (hsole : s.owners a = 1) (other : String) :
    (s.write name image).image other = if other = name then image else s.image other := by
  unfold Store.write
  rw [haddress]
  dsimp only
  rw [Store.image, handle_bind]
  split
  · simp [look, bind, update, Handle.ofFrame]
  · rename_i hother
    refine look_of_bytes fun b hb => ?_
    have hne : b ≠ a := fun hba => (h.sole haddress hsole).1 other hother (hba ▸ hb)
    simp only [bind, update, if_neg hne]

theorem Counted.write (h : Counted s held) {name : String} {a : Nat} (image : Image)
    (haddress : (s.handle name).address = some a) : Counted (s.write name image) held := by
  unfold Store.write
  rw [haddress]
  refine ⟨?_, fun b => ?_, h.fresh⟩
  · simp only [bind, List.map_cons, List.nodup_cons]
    refine ⟨?_, h.names.sublist (List.filter_sublist.map _)⟩
    simp
  · have hsplit := h.split name b
    rw [haddress] at hsplit
    simp only [bind, addresses, Handle.ofFrame, List.map_cons, List.count_append, List.count_cons,
      beq_iff_eq, otherAddresses] at hsplit ⊢
    omega

/-! ## Commands -/

/-- A change, carried out by a name that owns alone what it overwrites. -/
theorem Counted.apply (h : Counted s held) {name : String} {image : Image} {c : Change}
    (himage : s.image name = image) (hwell : (c.apply image).WellFormed)
    (hsole : ∀ new, c = .overwrite new →
      ∃ a, (s.handle name).address = some a ∧ s.owners a = 1) :
    Counted (s.apply name c) held ∧ ∀ other,
      (s.apply name c).image other
        = if other = name then c.apply image else s.image other := by
  cases c with
  | keep =>
      refine ⟨h, fun other => ?_⟩
      split
      · rename_i hother
        rw [hother, ← himage]
        rfl
      · rfl
  | replace new => exact ⟨h.replace name new, image_replace h hwell name⟩
  | overwrite new =>
      obtain ⟨a, haddress, howner⟩ := hsole new rfl
      exact ⟨h.write new haddress, image_write h new haddress howner⟩

theorem address_of_image (s : Store) (name : String) (hnull : (s.image name).isNull = false) :
    ∃ a, (s.handle name).address = some a := by
  unfold image look at hnull
  cases haddress : (s.handle name).address with
  | none =>
      rw [haddress] at hnull
      cases hnull
  | some a => exact ⟨a, rfl⟩

/-- An edit of one name makes it show the edited image, and leaves all others alone. -/
theorem Counted.run (h : Counted s []) {name source : String} {edit : Image → Edit}
    (hname : (s.image name).WellFormed) (hedit : (edit (s.image source)).WellFormed) :
    Counted (s.run name source edit).1 []
      ∧ (∀ other, (s.run name source edit).1.image other
          = if other = name then (edit (s.image source)).result (s.image name)
            else s.image other)
      ∧ (s.run name source edit).2 = ((edit (s.image source)).change (s.image name)).2 := by
  have hheld := h.hold source
  have hlook : (s.retain (s.handle source)).look (s.handle source) = s.image source :=
    look_retain _ _
  unfold Store.run
  simp only [hlook, image_retain]
  -- The store after detaching shows what it showed before, so the edit is the same.
  generalize ht : (if (edit (s.image source)).inPlace (s.image name) = true then
    (s.retain (s.handle source)).detach name else s.retain (s.handle source)) = t
  have hcounted : Counted t [s.handle source] := by
    rw [← ht]
    split
    · exact hheld.detach name
    · exact hheld
  have himage : ∀ other, t.image other = s.image other := by
    intro other
    rw [← ht]
    split
    · rw [image_detach hheld (by rw [image_retain]; exact hname), image_retain]
    · rw [image_retain]
  have hsource : t.look (s.handle source) = s.image source := by
    rw [← ht]
    split
    · rw [look_detach hheld List.mem_cons_self, hlook]
    · exact hlook
  simp only [hsource, himage]
  have hchange := Edit.apply_change (s.image name) (edit (s.image source))
  have hwell := Edit.wellFormed_result hname hedit
  rw [← hchange] at hwell
  have hsole : ∀ new, ((edit (s.image source)).change (s.image name)).1 = .overwrite new →
      ∃ a, (t.handle name).address = some a ∧ t.owners a = 1 := by
    intro new hnew
    have hplace := Edit.inPlace_of_overwrite hnew
    obtain ⟨a, ha⟩ := address_of_image t name
      (by rw [himage]; exact Edit.isNull_of_inPlace hplace)
    rw [if_pos hplace] at ht
    refine ⟨a, ha, ?_⟩
    rw [← ht] at ha ⊢
    exact owners_detach hheld ha
  obtain ⟨hafter, hshown⟩ := hcounted.apply (himage name) hwell hsole
  refine ⟨hafter.release, fun other => ?_, trivial⟩
  rw [image_release, hshown, himage, hchange]

/-- Sharing makes one name show what another one shows, and leaves all others alone. -/
theorem Counted.share (h : Counted s []) (name source : String) :
    Counted (s.share name source) [] ∧ ∀ other,
      (s.share name source).image other
        = if other = name then s.image source else s.image other := by
  refine ⟨(h.hold source).assign name, fun other => ?_⟩
  rw [Store.share, image_assign, look_retain, image_retain]
  rfl

end

end Store

/-! ## Both services -/

theorem Sheet.image_assign (s : Sheet) (name other : String) (image : Image) :
    (s.assign name image).image other = if other = name then image else s.image other := by
  unfold Sheet.image Sheet.assign
  by_cases hother : other = name
  · simp [hother]
  · simp [hother, List.lookup_cons, beq_false_of_ne hother, Store.lookup_filter_ne hother]

def Command.WellFormed : Command → Prop
  | .share _ _ => True
  | .edit _ _ make => ∀ image : Image, image.WellFormed → (make image).WellFormed

/-- A store and a sheet that show the same well-formed images. The sheet holds plain values, so what
is proved of one command after the other there holds of shared bytes. -/
structure Agree (s : Store) (sheet : Sheet) : Prop where
  counted : s.Counted []
  image : ∀ name, s.image name = sheet.image name
  wellFormed : ∀ name, (s.image name).WellFormed

theorem agree_empty : Agree .empty .empty where
  counted := ⟨List.nodup_nil, fun _ => rfl, fun _ _ => rfl⟩
  image _ := rfl
  wellFormed _ := wellFormed_null

theorem Agree.perform {s : Store} {sheet : Sheet} {c : Command} (h : Agree s sheet)
    (hc : c.WellFormed) :
    Agree (s.perform c).1 (sheet.perform c).1 ∧ (s.perform c).2 = (sheet.perform c).2
      ∧ ∀ other, other ≠ c.name → (s.perform c).1.image other = s.image other := by
  cases c with
  | share name source =>
      simp only [Command.name]
      obtain ⟨hcounted, himage⟩ := h.counted.share name source
      refine ⟨⟨hcounted, fun other => ?_, fun other => ?_⟩, rfl, fun other hother => ?_⟩
      · rw [Store.perform, himage, Sheet.perform, Sheet.share, Sheet.image_assign, h.image, h.image]
      · rw [Store.perform, himage]
        split
        · exact h.wellFormed source
        · exact h.wellFormed other
      · rw [Store.perform, himage, if_neg hother]
  | edit name source make =>
      rw [Command.WellFormed] at hc
      simp only [Command.name]
      have hedit := hc (s.image source) (h.wellFormed source)
      obtain ⟨hcounted, himage, hreply⟩ := h.counted.run (h.wellFormed name) hedit
      refine ⟨⟨hcounted, fun other => ?_, fun other => ?_⟩, ?_, fun other hother => ?_⟩
      · rw [Store.perform, himage, Sheet.perform, Sheet.run, Sheet.image_assign, h.image, h.image,
          h.image]
      · rw [Store.perform, himage]
        split
        · exact Edit.wellFormed_result (h.wellFormed name) hedit
        · exact h.wellFormed other
      · rw [Store.perform, hreply, Sheet.perform, Sheet.run, h.image, h.image]
      · rw [Store.perform, himage, if_neg hother]

theorem Agree.performAll : ∀ {commands : List Command} {s : Store} {sheet : Sheet},
    Agree s sheet → (∀ c ∈ commands, c.WellFormed) →
      Agree (s.performAll commands).1 (sheet.performAll commands).1
        ∧ (s.performAll commands).2 = (sheet.performAll commands).2
  | [], _, _, h, _ => ⟨h, rfl⟩
  | c :: rest, s, sheet, h, hwell => by
      obtain ⟨hnext, hreply, -⟩ := h.perform (hwell c List.mem_cons_self)
      obtain ⟨hrest, hreplies⟩ := hnext.performAll fun d hd => hwell d (List.mem_cons_of_mem c hd)
      refine ⟨hrest, ?_⟩
      simp only [Store.performAll, Sheet.performAll, hreply, hreplies]

/-- Whatever is done with images that share their bytes, every name shows what it shows where
nothing is shared, every answer is the same, and a further command changes what its own name shows
and nothing else. -/
theorem performAll_eq {commands : List Command} (h : ∀ c ∈ commands, c.WellFormed) :
    (∀ name, (Store.empty.performAll commands).1.image name
        = (Sheet.empty.performAll commands).1.image name)
      ∧ (Store.empty.performAll commands).2 = (Sheet.empty.performAll commands).2
      ∧ ∀ c : Command, c.WellFormed → ∀ other, other ≠ c.name →
          ((Store.empty.performAll commands).1.perform c).1.image other
            = (Store.empty.performAll commands).1.image other := by
  obtain ⟨hagree, hreplies⟩ := agree_empty.performAll h
  exact ⟨hagree.image, hreplies, fun c hc => (hagree.perform hc).2.2⟩

/-- Two names share two pixels. The first pixel is copied over the second one under one of the
names, from the very bytes that it shares, and changed under the other. -/
def sharedPixels : List Command :=
  [.edit "a" "" fun _ => .load ⟨2, 1, .eight, true, #[1, 2, 3, 255, 4, 5, 6, 255]⟩,
    .share "b" "a",
    .edit "b" "a" fun source => .blit source ⟨0, 0, 1, 1⟩ ⟨1, 0⟩,
    .edit "a" "" fun _ => .setPixel 0 0 (.opaqueOf 9 8 7 .eight)]

theorem performAll_eq_sharedPixels :
    (∀ c ∈ sharedPixels, c.WellFormed)
      ∧ (Store.empty.performAll sharedPixels).1.image "a"
        = ⟨2, 1, .eight, true, #[7, 8, 9, 255, 4, 5, 6, 255]⟩
      ∧ (Store.empty.performAll sharedPixels).1.image "b"
        = ⟨2, 1, .eight, true, #[1, 2, 3, 255, 1, 2, 3, 255]⟩
      ∧ ((Store.empty.performAll sharedPixels).1.perform (.share "b" "c")).1.image "a"
        = (Store.empty.performAll sharedPixels).1.image "a" := by
  have hwell : ∀ c ∈ sharedPixels, c.WellFormed := by
    simp only [sharedPixels, List.forall_mem_cons, Command.WellFormed, Edit.WellFormed]
    refine ⟨fun _ _ => Or.inr (by decide), trivial, fun _ _ => trivial, fun _ _ => trivial, ?_⟩
    simp
  obtain ⟨himage, -, hothers⟩ := performAll_eq hwell
  refine ⟨hwell, ?_, ?_, hothers (.share "b" "c") trivial "a" (by decide)⟩
  · rw [himage]
    decide +kernel
  · rw [himage]
    decide +kernel

end Darkroom.Image
