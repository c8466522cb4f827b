import Darkroom.Image.Rows

/-!
# Cancellation stays

A report may set the cancellation flag, through the observer, but never clears it
(`isRunning_of_post`); without an observer it never sets it (`Unobserved.post`). Work that looks at
the flag between its units therefore has done all of them if the flag is clear at its end, and then
its result does not depend on the reports: such work is `Steady`.
-/

namespace Darkroom

namespace Progress

theorem isRunning_of_deliver {p : Progress} {percent : Nat} (h : (p.deliver percent).isRunning) :
    p.isRunning := by
  unfold deliver at h
  split at h
  · exact h
  · split at h
    · exact h
    · simp only [isRunning, Bool.not_eq_eq_eq_not, Bool.not_true, Bool.or_eq_false_iff] at h ⊢
      exact h.1

theorem isRunning_of_post {p : Progress} {percent : Nat} (h : (p.post percent).isRunning) :
    p.isRunning := by
  unfold post at h
  simp only at h
  split at h
  · exact h
  · have hraised : (p.raise (min percent 100)).isRunning := isRunning_of_deliver h
    exact hraised

/-- Nobody hears of the progress, and nobody has asked for cancellation. Work that is not observed
cannot be cancelled in between, so it always comes to its end. -/
structure Unobserved (p : Progress) : Prop where
  observer : p.observer = none
  running : p.isRunning

theorem unobserved_start : Unobserved .start :=
  ⟨rfl, rfl⟩

theorem Unobserved.post {p : Progress} (h : p.Unobserved) (percent : Nat) :
    (p.post percent).Unobserved := by
  have hdeliver : (p.raise (min percent 100)).deliver (min percent 100)
      = p.raise (min percent 100) := by
    rw [deliver]
    simp only [raise, h.observer]
  rw [Progress.post]
  simp only [hdeliver]
  split
  · exact h
  · exact ⟨h.observer, h.running⟩

theorem Unobserved.postFraction {p : Progress} (h : p.Unobserved) (done total first last : Nat) :
    (p.postFraction done total first last).Unobserved := by
  rw [Progress.postFraction]
  split
  · exact h
  · exact h.post _

end Progress

/-! ## Steady work -/

/-- Work on an image that gives `result` whenever it is not cancelled, and that is only cancelled by
an observer. The progress that it starts from does not matter, so parts of a filter that each have a
share of the percentages can be put together. -/
structure Steady (work : Progress → Image × Progress) (result : Image) : Prop where
  running : ∀ {p : Progress}, (work p).2.isRunning → p.isRunning
  image : ∀ {p : Progress}, (work p).2.isRunning → (work p).1 = result
  unobserved : ∀ {p : Progress}, p.Unobserved → (work p).2.Unobserved

/-- A report before the work changes nothing of this. -/
theorem Steady.post {work : Progress → Image × Progress} {result : Image} (h : Steady work result)
    (percent : Nat) : Steady (fun p => work (p.post percent)) result where
  running hp := Progress.isRunning_of_post (h.running hp)
  image hp := h.image hp
  unobserved hp := h.unobserved (hp.post percent)

/-- Work that nobody observes gives its result. -/
theorem Steady.image_start {work : Progress → Image × Progress} {result : Image}
    (h : Steady work result) : (work .start).1 = result :=
  h.image (h.unobserved Progress.unobserved_start).running

namespace Image

/-! ## Rows -/

/-- The image with every row changed. It is what work on rows comes to, in whatever order they are
taken. -/
def everyRow (image : Image) (op : RowOp) : Image :=
  if image.isNull then image else image.withRows (image.rows.mapIdx op)

theorem RowWork.row_running {height : Nat} {band : Band} {op : RowOp} {work : RowWork} {y : Nat}
    {row : Row} (h : (work.row height band op y row).1.progress.isRunning) :
    work.progress.isRunning ∧ (work.row height band op y row).2 = op y row := by
  unfold RowWork.row at h ⊢
  split at h
  · rename_i hrunning
    exact ⟨hrunning, by rw [if_pos hrunning]⟩
  · rename_i hstopped
    exact absurd h hstopped

/-- Once a row is left out the rest is left out as well, so no row is if the work still runs at the
end. -/
theorem RowWork.run_running {height : Nat} {band : Band} {op : RowOp} :
    ∀ {rows : List Row} {work : RowWork} {y : Nat},
      (work.run height band op y rows).1.progress.isRunning →
        work.progress.isRunning
          ∧ (work.run height band op y rows).2 = rows.mapIdx fun i => op (y + i)
  | [], _, _, h => ⟨h, rfl⟩
  | row :: rows, work, y, h => by
      rw [RowWork.run] at h ⊢
      obtain ⟨hnext, hrest⟩ := RowWork.run_running h
      obtain ⟨hwork, hrow⟩ := RowWork.row_running hnext
      refine ⟨hwork, ?_⟩
      have hshift : (fun i => op (y + 1 + i)) = fun i => op (y + (i + 1)) := by
        funext i
        rw [Nat.add_assoc, Nat.add_comm 1 i]
      simp only [hrest, hrow, List.mapIdx_cons, hshift, Nat.add_zero]

theorem RowWork.row_unobserved {height : Nat} {band : Band} {op : RowOp} {work : RowWork} {y : Nat}
    {row : Row} (h : work.progress.Unobserved) :
    (work.row height band op y row).1.progress.Unobserved := by
  rw [RowWork.row, if_pos h.running]
  exact h.postFraction _ _ _ _

theorem RowWork.run_unobserved {height : Nat} {band : Band} {op : RowOp} :
    ∀ {rows : List Row} {work : RowWork} {y : Nat}, work.progress.Unobserved →
      (work.run height band op y rows).1.progress.Unobserved
  | [], _, _, h => h
  | row :: rows, work, y, h => by
      rw [RowWork.run]
      exact RowWork.run_unobserved (RowWork.row_unobserved h)

/-- Work row by row is steady. -/
theorem steady_processRows (image : Image) (band : Band) (op : RowOp) :
    Steady (fun p => image.processRows p band op) (image.everyRow op) := by
  unfold processRows everyRow
  by_cases hnull : image.isNull
  · simp only [if_pos hnull]
    exact ⟨fun h => h, fun _ => rfl, fun h => h⟩
  · simp only [if_neg hnull]
    refine ⟨fun h => (RowWork.run_running h).1, fun h => ?_, fun h => RowWork.run_unobserved h⟩
    rw [(RowWork.run_running h).2]
    simp only [Nat.zero_add]

end Image

end Darkroom
