import Darkroom.Filter.Watched
import Darkroom.Image.Store

/-!
# Runs on images that share their bytes

A filter is given its source under a name of its own, which shares the bytes of the source until the
first of them is overwritten.
-/

namespace Darkroom

/-- The image that the filter is at work on. There is none while the run only looks at images and at
the flag. -/
def WatchedRun.working? (w : WatchedRun) : Option Image :=
  match w.stage with
  | .reporting _ _ => some w.record.source
  | .rows pool => some (pool.image w.record.source)
  | .spots _ image _ _ | .patching _ image _ _ _ => some image
  | _ => none

def Image.Store.overwrite (s : Store) (name : String) (image : Image) : Store :=
  (s.detach name).write name image

/-- Follows the image that a filter is at work on. It is the source at first, and whenever it becomes
another one the target is overwritten. -/
def Image.Store.follow (s : Store) (source target : String) : Option Image → Option Image → Store
  | none, some _ => s.share target source
  | some old, some new => if new = old then s else s.overwrite target new
  | _, none => s

/-- A run with the store of its images. The store is what shares bytes, and the run does not know of
it. -/
structure StoredRun where
  run : WatchedRun
  store : Image.Store

namespace StoredRun

/-- One move, where the source is the image of one name, and the filter works on that of another. -/
def move (source target : String) (v : StoredRun) (m : Move) : StoredRun :=
  let run := v.run.move m
  ⟨run, v.store.follow source target v.run.working? run.working?⟩

def moves (source target : String) (v : StoredRun) (schedule : List Move) : StoredRun :=
  schedule.foldl (move source target) v

end StoredRun

end Darkroom
