import Darkroom.Archive.Action
import Darkroom.History.Basic
import Darkroom.Image.Fingerprint
import Darkroom.Json.Printer
import Darkroom.Json.Reader

/-!
# Sidecars

A sidecar keeps the history of an image in a file beside it, as indented JSON. It may hold the
fingerprint of the base image, against which an image can be checked. A sidecar of a later layout
than the present one is refused when it is read.
-/

namespace Darkroom

open Json

/-- What a sidecar holds. The fingerprint is of the image before the history, so that a replay can
be told from a replay on some other image. -/
structure Sidecar where
  version : UInt32
  baseHash : Option UInt64
  history : History

/-- Why a history cannot be read. A text that is no JSON and one of another shape are not told
apart. -/
inductive ArchiveError where
  /-- A text is not a sidecar. -/
  | json
  /-- A text is not a log. -/
  | log (error : LogError)
  /-- A sidecar has a later layout. -/
  | unsupportedVersion (version : UInt32)

/-- The wording of an error, where there is one. What is wrong with a text that is not a sidecar is
worded by the reader of JSON and not given here. -/
def ArchiveError.message? : ArchiveError → Option String
  | json => none
  | log error =>
    let reason := error.message
    some s!"history log error: {reason}"
  | unsupportedVersion version =>
    let v := version.toNat
    some s!"history sidecar version {v} is newer than this build supports"

namespace Sidecar

def currentVersion : UInt32 := 1

def new (history : History) : Sidecar :=
  ⟨currentVersion, none, history⟩

/-- Records the fingerprint of an image. It takes the place of one that was recorded before. -/
def withBase (s : Sidecar) (base : Image) : Sidecar :=
  { s with baseHash := some base.contentHash }

/-- Whether an image may be the base image: false only when it disagrees with the fingerprint. A
sidecar without a fingerprint goes with every image. -/
def matchesBase (s : Sidecar) (base : Image) : Bool :=
  s.baseHash.all (· == base.contentHash)

/-- Where the sidecar of an image is kept: beside the image, under the whole name of its file, so
that images that differ in the extension have sidecars of their own. -/
def path (image : String) : String :=
  image ++ ".history.json"

def sameAs (a b : Sidecar) : Bool :=
  a.version == b.version && a.baseHash == b.baseHash && History.sameAs a.history b.history

instance : Coded Sidecar where
  toJson s := record
    ([("version", toJson s.version)]
      ++ (match s.baseHash with
          | none => []
          | some hash => [("original_hash", toJson hash)])
      ++ [("history", toJson s.history)])
  ofJson? v :=
    match fields? ["version", "original_hash", "history"] v with
    | some [version, baseHash, history] => do
      let version ← required version
      let baseHash ← nullable baseHash
      let history ← required history
      pure ⟨version, baseHash, history⟩
    | _ => none

def write (s : Sidecar) : String :=
  (toJson s).indented

/-- Reads the text of a sidecar. The layout is looked at last, so a later one is only named as such
if the text has the members of the present one. -/
def read (text : String) : Except ArchiveError Sidecar :=
  match (Json.read? text.toList).bind ofJson? with
  | none => .error .json
  | some (s : Sidecar) =>
    if currentVersion < s.version then .error (.unsupportedVersion s.version) else .ok s

end Sidecar

namespace History

/-- The log of a history, which is an alternative to its sidecar. It has no fingerprint and no
layout number. -/
def writeLog (h : History) : List Char :=
  Action.writeAll h

def readLog (text : List Char) : Except ArchiveError History :=
  match Action.readAll text with
  | .error e => .error (.log e)
  | .ok h => .ok h

end History

end Darkroom
