import Darkroom.Archive.Sidecar
import Darkroom.Proofs.Archive.Action
import Darkroom.Proofs.Json.Reader

/-!
# Sidecars read back

The text of a sidecar of the present layout is read back exactly if every double in its history is
finite (`read_write`). Nothing but the digits of doubles can differ then, and not even they do if
each of these doubles is read back from a text of its own (`read_write_same`). NaN and the infinities
are written as `null` without complaint, and the text that results is no sidecar any more.
-/

namespace Darkroom

open Json

namespace History

def isFinite (h : History) : Bool :=
  h.all Action.isFinite

def doubles (h : History) : List Float :=
  h.flatMap fun a => a.parameters.filterMap fun p => p.value.double?

theorem isFinite_of_mem_doubles {h : History} (hfinite : h.isFinite) {x : Float}
    (hx : x ∈ h.doubles) : x.isFinite := by
  obtain ⟨a, ha, hx⟩ := List.mem_flatMap.mp hx
  obtain ⟨⟨name, value⟩, hp, hdouble⟩ := List.mem_filterMap.mp hx
  have hvalue := List.all_eq_true.mp (List.all_eq_true.mp hfinite a ha) _ hp
  cases value with
  | double y =>
    obtain rfl : y = x := Option.some.inj hdouble
    exact hvalue
  | _ => cases hdouble

theorem map_mapDouble_of_fixed {f : Float → Float} {h : History} (hfixed : ∀ x ∈ h.doubles, f x = x) :
    h.map (Action.mapDouble f) = h := by
  refine (List.map_congr_left fun a ha => ?_).trans (List.map_id _)
  refine Action.mapDouble_of_fixed fun p hp x hx => ?_
  exact hfixed x (List.mem_flatMap.mpr ⟨a, ha, List.mem_filterMap.mpr ⟨p, hp, hx⟩⟩)

end History

namespace Json

/-- Whether a double is read back from the text that is written for it alone. That is asked of
doubles one by one, as the parts of a text are read without regard to what stands around them. -/
def ReadsBack (x : Float) : Prop :=
  (read? (double x).indented.toList).bind ofJson? = some x

theorem readBack_eq {x : Float} (h : ReadsBack x) : readBack x = x := by
  rw [ReadsBack, indented, String.toList_ofList, read?_write (printable_double x),
    Option.bind_some] at h
  exact (congrArg (Option.getD · x) h).trans (Option.getD_some ..)

end Json

namespace Sidecar

def mapDouble (f : Float → Float) (s : Sidecar) : Sidecar :=
  { s with history := s.history.map (Action.mapDouble f) }

theorem printable_sidecar (s : Sidecar) : (toJson s).Printable := by
  have hhistory : (toJson s.history).Printable := printable_list fun a _ => printable_action a
  obtain ⟨version, baseHash, history⟩ := s
  cases baseHash with
  | none => exact printable_record (by simp [printable, hhistory])
  | some hash => exact printable_record (by simp [printable, hhistory])

theorem fields?_sidecar (s : Sidecar) :
    fields? ["version", "original_hash", "history"] (toJson s)
      = some [some (toJson s.version), s.baseHash.map toJson, some (toJson s.history)] := by
  obtain ⟨version, baseHash, history⟩ := s
  cases baseHash with
  | none => exact fields?_record (by simp)
  | some hash => exact fields?_record (by simp)

theorem ofJson?_sidecar (s : Sidecar) :
    ofJson? (toJson s)
      = if History.isFinite s.history then some (s.mapDouble readBack) else none := by
  have hhash : nullable (s.baseHash.map toJson) = some s.baseHash :=
    nullable_toJson (fun _ => Json.noConfusion) s.baseHash
  have hhistory : required (some (toJson s.history)) = if History.isFinite s.history then
      some (s.history.map (Action.mapDouble readBack)) else none :=
    readAll_map ofJson?_action s.history
  have hfields := fields?_sidecar s
  generalize toJson s = v at hfields ⊢
  unfold ofJson? instCoded
  dsimp only
  rw [hfields]
  dsimp only
  rw [required_toJson, hhash, hhistory]
  split <;> rfl

/-- A written sidecar is refused for a double that is not finite, and for nothing else but a later
layout. -/
theorem read_write (s : Sidecar) :
    read s.write = if History.isFinite s.history then
        if currentVersion < s.version then .error (.unsupportedVersion s.version)
        else .ok (s.mapDouble readBack)
      else .error .json := by
  have htext : Json.read? s.write.toList = some (toJson s) := by
    rw [write, indented, String.toList_ofList]
    exact read?_write (printable_sidecar s) .indented
  rw [read, htext, Option.bind_some, ofJson?_sidecar]
  by_cases h : History.isFinite s.history
  · rw [if_pos h, if_pos h]
    rfl
  · rw [if_neg h, if_neg h]

example : read (new [⟨"x", 1, .reproducible, none, [⟨"v", .double (0.0 / 0.0)⟩]⟩]).write
    = .error .json := by
  rw [read_write, if_neg (by decide +kernel)]

/-- The sidecar of a history, with the fingerprint of a base image or without one, is read back
exactly if every double in the history is finite. -/
theorem read_write_new (history : History) (base : Option Image) :
    let s := base.elim (new history) (new history).withBase
    read s.write
      = if History.isFinite history then .ok (s.mapDouble readBack) else .error .json := by
  cases base with
  | none => exact read_write (new history)
  | some base => exact read_write ((new history).withBase base)

/-- A sidecar of the present layout with finite doubles is read back as it is, if each of its doubles
is read back that stands by itself. -/
theorem read_write_same {s : Sidecar} (hversion : s.version = currentVersion)
    (hfinite : s.history.isFinite) (hdoubles : ∀ x ∈ s.history.doubles, x.isFinite → ReadsBack x) :
    read s.write = .ok s := by
  have hfixed : s.history.map (Action.mapDouble readBack) = s.history :=
    History.map_mapDouble_of_fixed fun x hx =>
      readBack_eq (hdoubles x hx (History.isFinite_of_mem_doubles hfinite hx))
  have hpresent : ¬currentVersion < s.version := by
    rw [hversion]
    exact UInt32.lt_irrefl _
  rw [read_write, if_pos hfinite, if_neg hpresent, mapDouble, hfixed]

/-- A gray pixel as the base image, and a value of each kind. -/
theorem read_write_same_kinds :
    let s : Sidecar := (new [
      ⟨"white balance", 2, .reproducible, some "Wärme\n\"6500 K\"", [
        ⟨"temperature", .double 6500.0⟩, ⟨"tint", .double (-0.25)⟩, ⟨"clip", .bool true⟩]⟩,
      ⟨"repair", 1, .documented, none, [
        ⟨"seed", .int (-9223372036854775808)⟩, ⟨"note", .string "\t🖼"⟩,
        ⟨"mask", .blob [0, 255]⟩, ⟨"path", .points [⟨-3, 4⟩]⟩,
        ⟨"areas", .rects [⟨0, 0, 2147483647, 1⟩]⟩, ⟨"seed", .points []⟩]⟩,
      ⟨"", 0, .complex, none, []⟩]).withBase (.filled ⟨1, 1⟩ false ⟨⟨128, 128, 128, 255⟩, .eight⟩)
    s.version = currentVersion ∧ s.history.isFinite
      ∧ (∀ x ∈ s.history.doubles, x.isFinite → ReadsBack x) ∧ read s.write = .ok s := by
  intro s
  have hfinite : s.history.isFinite := by decide +kernel
  have hdoubles : ∀ x ∈ s.history.doubles, x.isFinite → ReadsBack x := by
    have h : ∀ x ∈ [6500.0, -0.25], (read? (double x).indented.toList).bind ofJson? = some x := by
      decide +kernel
    exact fun x hx _ => h x hx
  exact ⟨rfl, hfinite, hdoubles, read_write_same rfl hfinite hdoubles⟩

end Sidecar

end Darkroom
