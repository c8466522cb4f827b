import Darkroom.Image.Bytes
import Mathlib.Data.List.Nodup
import Mathlib.Tactic.Common

/-!
# Loops over bytes

A loop that changes bytes in place ends with given bytes if each of its steps puts these into a range,
reads no range that an earlier step has changed, and all ranges together make up the difference
(`foldlM_patches`). Nothing has to be known about the bytes in between. The loop over chunks is the
case where the ranges lie side by side (`eachChunk?_eq`).
-/

namespace Darkroom.Bytes

variable {bytes old target : Array UInt8} {start count : Nat}

/-! ## One access -/

def Within (start count i : Nat) : Prop :=
  start ≤ i ∧ i < start + count

theorem eq_of_getElem? {a b : Array UInt8} (hsize : a.size = b.size)
    (h : ∀ i < a.size, a[i]? = b[i]?) : a = b := by
  apply Array.ext_getElem?
  intro i
  by_cases hi : i < a.size
  · exact h i hi
  · rw [Array.getElem?_eq_none (by omega), Array.getElem?_eq_none (by omega)]

theorem slice?_eq (h : start + count ≤ bytes.size) :
    slice? bytes start count = some (bytes.extract start (start + count)) :=
  if_pos h

theorem getElem?_slice (h : start + count ≤ bytes.size) {i : Nat} (hi : i < count) :
    (bytes.extract start (start + count))[i]? = bytes[start + i]? := by
  rw [Array.getElem?_extract, if_pos]
  omega

theorem size_slice (h : start + count ≤ bytes.size) :
    (bytes.extract start (start + count)).size = count := by
  rw [Array.size_extract]
  omega

/-- Known bytes in the middle of others. -/
theorem slice_eq {part : Array UInt8} (h : start + count ≤ bytes.size) (hcount : part.size = count)
    (hpart : ∀ i < count, bytes[start + i]? = part[i]?) :
    bytes.extract start (start + count) = part := by
  have hsize := size_slice h
  refine eq_of_getElem? (hsize.trans hcount.symm) fun i hi => ?_
  rw [hsize] at hi
  rw [getElem?_slice h hi, hpart i hi]

theorem put?_spec {part : Array UInt8} (h : start + part.size ≤ bytes.size) :
    ∃ new, put? bytes start part = some new ∧ new.size = bytes.size
      ∧ (∀ i < part.size, new[start + i]? = part[i]?)
      ∧ ∀ i, ¬Within start part.size i → new[i]? = bytes[i]? := by
  refine ⟨_, if_pos h, Array.size_mapIdx, fun i hi => ?_, fun i hi => ?_⟩
  · have hold : start + i < bytes.size := by omega
    rw [Array.getElem?_mapIdx, Array.getElem?_eq_getElem hold, Array.getElem?_eq_getElem hi,
      Option.map_some, if_pos (Nat.le_add_right _ _), Nat.add_sub_cancel_left,
      Array.getD_eq_getD_getElem?, Array.getElem?_eq_getElem hi, Option.getD_some]
  · rw [Array.getElem?_mapIdx]
    cases hget : bytes[i]? with
    | none => rfl
    | some byte =>
      rw [Option.map_some]
      split
      · rename_i hle
        have hout : part.size ≤ i - start := by
          rw [Within] at hi
          omega
        rw [Array.getD_eq_getD_getElem?, Array.getElem?_eq_none hout, Option.getD_none]
      · rfl

/-! ## Steps that touch a range -/

/-- A step that puts bytes of `target` at the indices that it writes, whatever stands in the bytes
of `old` that it does not read. Steps with separate indices can be put one after the other, and
loops are such steps, so the whole loop is known by what each round reads and writes. -/
def Patches (step : Array UInt8 → Option (Array UInt8)) (reads writes : Nat → Prop)
    (old target : Array UInt8) : Prop :=
  ∀ bytes : Array UInt8, bytes.size = old.size → (∀ i, reads i → bytes[i]? = old[i]?) →
    ∃ new, step bytes = some new ∧ new.size = old.size
      ∧ (∀ i, writes i → new[i]? = target[i]?) ∧ ∀ i, ¬writes i → new[i]? = bytes[i]?

/-- Bytes that do not depend on what stood there. -/
theorem patches_put? (h : start + count ≤ old.size) (htarget : target.size = old.size) :
    Patches (put? · start (target.extract start (start + count))) (fun _ => False)
      (Within start count) old target := by
  intro bytes hsize _
  have hpart : (target.extract start (start + count)).size = count := size_slice (by omega)
  have hfit : start + (target.extract start (start + count)).size ≤ bytes.size := by omega
  obtain ⟨new, hput, hnew, hin, hout⟩ := put?_spec hfit
  refine ⟨new, hput, hnew.trans hsize, fun i hi => ?_, fun i hi => hout i (by rwa [hpart])⟩
  obtain ⟨k, rfl⟩ := Nat.exists_eq_add_of_le hi.1
  have hk : k < count := by
    have := hi.2
    omega
  rw [hin k (by omega), getElem?_slice (by omega) hk]

theorem slice_congr (hsize : bytes.size = old.size) (h : start + count ≤ old.size)
    (hsame : ∀ i, Within start count i → bytes[i]? = old[i]?) :
    bytes.extract start (start + count) = old.extract start (start + count) := by
  have hfit : start + count ≤ bytes.size := by omega
  refine slice_eq hfit (size_slice h) fun i hi => ?_
  rw [getElem?_slice h hi]
  exact hsame _ ⟨Nat.le_add_right _ _, by omega⟩

/-- Bytes that are computed from those that stood there. -/
theorem patches_update? {f : Array UInt8 → Option (Array UInt8)} (h : start + count ≤ old.size)
    (htarget : target.size = old.size)
    (hf : f (old.extract start (start + count)) = some (target.extract start (start + count))) :
    Patches (update? · start count f) (Within start count) (Within start count) old target := by
  intro bytes hsize hsame
  have hslice : start + count ≤ bytes.size := by omega
  have hstep : update? bytes start count f
      = put? bytes start (target.extract start (start + count)) := by
    simp only [update?, slice?_eq hslice, slice_congr hsize h hsame, Option.bind_eq_bind,
      Option.bind_some, hf]
  obtain ⟨new, hput, hnew⟩ := patches_put? h htarget bytes hsize fun _ => False.elim
  exact ⟨new, hstep.trans hput, hnew⟩

/-- A loop whose steps do not read what was written before them. -/
theorem foldlM_patches {ι : Type} {step : Array UInt8 → ι → Option (Array UInt8)}
    (reads writes : ι → Nat → Prop) {items : List ι} (htarget : target.size = old.size)
    (hpatch : ∀ k ∈ items, Patches (step · k) (reads k) (writes k) old target)
    (hapart : items.Pairwise fun j k => ∀ i, writes j i → ¬reads k i)
    (hrest : ∀ i < old.size, (∀ k ∈ items, ¬writes k i) → target[i]? = old[i]?) :
    items.foldlM step old = some target := by
  induction items generalizing old with
  | nil =>
    have hsame : target = old :=
      eq_of_getElem? htarget fun i hi => hrest i (htarget ▸ hi) fun k hk => absurd hk List.not_mem_nil
    rw [hsame]
    rfl
  | cons k items ih =>
    obtain ⟨new, hstep, hsize, hin, hout⟩ :=
      hpatch k List.mem_cons_self old rfl fun _ _ => rfl
    have hrun : (k :: items).foldlM step old = items.foldlM step new := by
      rw [List.foldlM_cons]
      exact congrArg (Option.bind · fun new => items.foldlM step new) hstep
    rw [List.pairwise_cons] at hapart
    rw [hrun]
    -- The later steps patch `new` as they patch `old`, since the first wrote nothing that they read.
    refine ih (htarget.trans hsize.symm) (fun j hj bytes hbytes hsame => ?_) hapart.2
      fun i hlt hi => ?_
    · rw [hsize] at hbytes ⊢
      refine hpatch j (List.mem_cons_of_mem _ hj) bytes hbytes fun i hread => ?_
      rw [hsame i hread, hout i fun hwrite => hapart.1 j hj i hwrite hread]
    · by_cases hwrite : writes k i
      · exact (hin i hwrite).symm
      · rw [hout i hwrite]
        refine hrest i (hsize ▸ hlt) fun j hj => ?_
        rcases List.mem_cons.mp hj with rfl | hj
        · exact hwrite
        · exact hi j hj

/-! ## Chunks -/

theorem within_mul (hpos : 0 < count) {a n i : Nat} :
    Within (a * count) (n * count) i ↔ Within a n (i / count) := by
  rw [Within, Within, Nat.le_div_iff_mul_le hpos, Nat.div_lt_iff_lt_mul hpos, ← Nat.add_mul]

theorem within_chunk (hpos : 0 < count) {k i : Nat} :
    Within (k * count) count i ↔ i / count = k := by
  have hone := within_mul hpos (a := k) (n := 1) (i := i)
  rw [Nat.one_mul] at hone
  rw [hone, Within]
  omega

/-- A loop over chunks is known chunk by chunk. -/
theorem eachChunk?_eq {n : Nat} {f : Nat → Array UInt8 → Option (Array UInt8)} (hpos : 0 < count)
    (hold : old.size = n * count) (htarget : target.size = old.size)
    (hf : ∀ k < n, f k (old.extract (k * count) (k * count + count))
      = some (target.extract (k * count) (k * count + count))) :
    eachChunk? count f old = some target := by
  have hfit : ∀ k < n, k * count + count ≤ old.size := by
    intro k hk
    rw [hold, ← Nat.succ_mul]
    exact Nat.mul_le_mul_right _ hk
  rw [eachChunk?, hold, Nat.mul_div_cancel _ hpos]
  refine foldlM_patches (fun k => Within (k * count) count) (fun k => Within (k * count) count)
    htarget (fun k hk => ?_) ?_ fun i hlt hi => ?_
  · rw [List.mem_range] at hk
    exact patches_update? (hfit k hk) htarget (hf k hk)
  · refine List.nodup_range.pairwise_of_forall_ne fun j _ k _ hne i hj hk => hne ?_
    rw [within_chunk hpos] at hj hk
    omega
  · refine absurd ((within_chunk hpos).mpr rfl) (hi (i / count) ?_)
    rw [hold, ← Nat.div_lt_iff_lt_mul hpos] at hlt
    exact List.mem_range.mpr hlt

/-! ## All of a list -/

theorem mapM_eq_some {α β : Type} {f : α → Option β} {g : α → β} {xs : List α}
    (h : ∀ x ∈ xs, f x = some (g x)) : xs.mapM f = some (xs.map g) := by
  induction xs with
  | nil => rfl
  | cons x xs ih =>
    have hrest := ih fun y hy => h y (List.mem_cons_of_mem _ hy)
    simp only [List.mapM_cons, h x List.mem_cons_self, hrest, List.map_cons]
    rfl

end Darkroom.Bytes
