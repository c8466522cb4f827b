import Darkroom.Proofs.Filter.Untouched
import Darkroom.Proofs.History.Steps

/-!
# When a replay is exact

Whether a history is reproducible is said of its actions alone; whether its replay was exact is known
afterwards. The two are the same on every image that is not null (`isReproducible_iff_isExact`),
because nothing else can go wrong there: without a reference every kind of filter gives an image, for
any parameters, and the image is not null either.
-/

namespace Darkroom

namespace Replay

variable {registry : Registry} {image : Image} {a : Action}

theorem isSupported_eq (registry : Registry) (a : Action) :
    registry.isSupported a.identifier a.version = (registry.create? a).isSome := by
  rw [Registry.create?, Option.isSome_map, Registry.isSupported]

/-- A filter that is tried on an image gives an image in the same frame. -/
theorem effect_of_create {filter : Filter} (hwf : image.WellFormed) (hnull : image.isNull = false)
    (hcreate : registry.create? a = some filter) (hcategory : a.category ≠ .documented) :
    ∃ new, Image.Keeps filter.settings.untouched image new
      ∧ effect registry image a = (.applied,
        if a.category = .complex then some (.notReproducible a.category) else none, new) := by
  have hmeasured : Filter.measured image none = .ok image := rfl
  obtain ⟨plan, hplan⟩ := Filter.exists_plan hmeasured filter
  refine ⟨(plan.run image .start).image, Plan.untouched hwf hnull hplan _, ?_⟩
  have happly : filter.apply image none .start = .ok (plan.run image .start) := by
    rw [Filter.apply_eq_plan, hplan]
  unfold effect
  simp only [hcreate, hnull, happly]
  rw [if_neg hcategory, if_neg Bool.false_ne_true]

theorem image_of_isNull (hnull : image.isNull) : (effect registry image a).2.2 = image := by
  unfold effect
  split
  · rfl
  · split <;> rfl

/-- A step keeps the frame of the image, whatever becomes of the action. -/
theorem keeps_effect (hwf : image.WellFormed) (registry : Registry) (a : Action) :
    Image.Keeps [] image (effect registry image a).2.2 := by
  cases hnull : image.isNull with
  | true =>
      rw [image_of_isNull hnull]
      exact .refl [] image
  | false =>
      by_cases happlied : (effect registry image a).1 = .applied
      · have hpasses : passesOver registry a = false := by
          by_contra hpasses
          have hskipped := effect_of_passesOver (Bool.not_eq_false _ ▸ hpasses) image
          rw [happlied] at hskipped
          cases hskipped
        simp only [passesOver, isSupported_eq, Bool.or_eq_false_iff, decide_eq_false_iff_not,
          Bool.not_eq_false', Option.isSome_iff_exists] at hpasses
        obtain ⟨hcategory, filter, hcreate⟩ := hpasses
        obtain ⟨new, hkeeps, heffect⟩ := effect_of_create hwf hnull hcreate hcategory
        rw [heffect]
        exact hkeeps.frame
      · rw [image_of_not_applied happlied]
        exact .refl [] image

theorem wellFormed_effect (hwf : image.WellFormed) (registry : Registry) (a : Action) :
    (effect registry image a).2.2.WellFormed := by
  cases hnull : image.isNull with
  | true =>
      rw [image_of_isNull hnull]
      exact hwf
  | false => exact (keeps_effect hwf registry a).wellFormed hwf hnull

/-- A step on an image leaves no issue exactly if the action says that it is reproducible and there is
a filter for it. -/
theorem issue_eq_none_iff (hwf : image.WellFormed) (hnull : image.isNull = false) :
    (effect registry image a).2.1 = none
      ↔ a.category = .reproducible ∧ registry.isSupported a.identifier a.version := by
  rw [isSupported_eq]
  cases hcreate : registry.create? a with
  | none => simp [effect, hcreate]
  | some filter =>
      by_cases hcategory : a.category = .documented
      · simp [effect, hcreate, hcategory]
      · obtain ⟨new, -, heffect⟩ := effect_of_create hwf hnull hcreate hcategory
        rw [heffect]
        cases hkind : a.category <;> simp_all

/-- The issues of a replay on an image are those it had before exactly if the actions to come are
reproducible. The image stays one, which carries the induction. -/
theorem issues_finish_eq_nil_iff (registry : Registry) : ∀ (h : History) {r : Replay},
    r.image.WellFormed → r.image.isNull = false →
      ((finish registry r h).issues = [] ↔ r.issues = [] ∧ h.isReproducible registry)
  | [], _, _, _ => ⟨fun h => ⟨h, rfl⟩, And.left⟩
  | a :: h, r, hwf, hnull => by
      have hwf' := wellFormed_effect hwf registry a
      have hnull' : (effect registry r.image a).2.2.isNull = false := by
        rw [(keeps_effect hwf registry a).isNull, hnull]
      have himage : (step registry r a).2.image = (effect registry r.image a).2.2 := by
        rw [step_eq]
      have hissues : (step registry r a).2.issues = [] ↔ r.issues = []
          ∧ a.category = .reproducible ∧ registry.isSupported a.identifier a.version := by
        rw [step_eq, ← issue_eq_none_iff hwf hnull]
        simp [noted]
      have hall : History.isReproducible (a :: h) registry
          ↔ (a.category = .reproducible ∧ registry.isSupported a.identifier a.version)
            ∧ History.isReproducible h registry := by
        simp [History.isReproducible]
      have hrest := issues_finish_eq_nil_iff registry h (himage ▸ hwf') (himage ▸ hnull')
      rw [hissues, and_assoc] at hrest
      rw [hall]
      exact hrest

/-- What is said of the actions beforehand is what the replay on an image shows. -/
theorem isReproducible_iff_isExact (registry : Registry) {base : Image} (hwf : base.WellFormed)
    (hnull : base.isNull = false) (h : History) :
    h.isReproducible registry ↔ (run registry base h).isExact := by
  have hissues := issues_finish_eq_nil_iff registry h (r := start base) hwf hnull
  rw [isExact, List.isEmpty_iff, run, hissues]
  exact ⟨fun h => ⟨rfl, h⟩, And.right⟩

def laterContrast : Registry :=
  Registry.empty.registerVersions .contrast ⟨2, 3⟩

/-- An adjustment of contrast with parameters that mean nothing. A filter is made of it all the
same, as what cannot be understood is replaced by the default. -/
def odd : Action :=
  ⟨"digikam:BCGFilter", 2, .reproducible, none,
    [⟨"gamma", .string "steep"⟩, ⟨"channel", .int 9⟩, ⟨"contrast", .points []⟩]⟩

theorem isReproducible_iff_isExact_oddParameters :
    Filter.deepPair.WellFormed ∧ Filter.deepPair.isNull = false
      ∧ (run laterContrast Filter.deepPair [odd]).isExact
      ∧ ¬(run laterContrast Filter.deepPair [odd, { odd with version := 1 }]).isExact := by
  have hwf : Filter.deepPair.WellFormed := Or.inr (by decide)
  refine ⟨hwf, rfl, ?_⟩
  rw [← isReproducible_iff_isExact laterContrast hwf rfl,
    ← isReproducible_iff_isExact laterContrast hwf rfl]
  decide +kernel

end Replay

end Darkroom
