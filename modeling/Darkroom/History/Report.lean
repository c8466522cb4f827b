import Darkroom.Decimal.Layout
import Darkroom.History.Diagnostics
import Darkroom.Text.Hex
import Darkroom.Text.Integer

/-!
# The report

Diagnostics as a table for people: a heading, one row a step, and a summary. Columns are padded with
blanks, counted in characters.
-/

namespace Darkroom.Report

/-- A text in a column, at its left end. A longer text is not cut, and moves the columns behind
it. -/
def padRight (width : Nat) (text : List Char) : List Char :=
  text ++ List.replicate (width - text.length) ' '

def padLeft (width : Nat) (text : List Char) : List Char :=
  List.replicate (width - text.length) ' ' ++ text

def number (n : Nat) : List Char :=
  Text.Integer.natDigits n

def statusWord : StepStatus → List Char
  | .applied => "applied".toList
  | .skipped => "skipped".toList
  | .failed => "failed".toList

/-- A part of a whole in percent; zero of an empty whole, such as the pixels of a null image. -/
def percent (part whole : Float) : Float :=
  if whole > 0.0 then part / whole * 100.0 else 0.0

/-- The last column: changed pixels, pixels, and their share. It is the only one that is not padded,
as nothing stands behind it. -/
def changes (m : StepMetrics) : List Char :=
  let share := percent (Float.ofNat m.changedPixels) (Float.ofNat m.pixelCount)
  number m.changedPixels ++ '/' :: number m.pixelCount ++ " px (".toList
    ++ Decimal.fixed share 1 ++ "%)".toList

def columns : List Char :=
  padRight 32 "Action".toList ++ ' ' :: padLeft 8 "Status".toList
    ++ ' ' :: padLeft 10 "Duration".toList ++ ' ' :: padLeft 8 "% Total".toList
    ++ "  Changed".toList

/-- The row of a step. A name that is too long moves the row to the right, and the other rows stay
where they are. -/
def row (total : Duration) (s : StepDiagnostics) : List Char :=
  let name := s.identifier.toList ++ " v".toList ++ Text.Integer.write s.version.toInt
  padRight 32 name ++ ' ' :: padLeft 8 (statusWord s.status)
    ++ ' ' :: padLeft 8 (Decimal.fixed s.duration.milliseconds 3) ++ "ms ".toList
    ++ padLeft 7 (Decimal.fixed (percent s.duration.milliseconds total.milliseconds) 1)
    ++ "%  ".toList ++ changes s.metrics

def lines (d : ReplayDiagnostics) : List (List Char) :=
  ["Replay Diagnostics Report".toList,
   List.replicate 60 '=',
   "Image: ".toList ++ d.dimensions.text.toList ++ " (".toList ++ number d.depth.bits
     ++ "-bit)".toList,
   "Total duration: ".toList ++ Decimal.fixed d.totalDuration.milliseconds 3 ++ "ms".toList,
   [],
   columns,
   List.replicate 80 '-']
  ++ d.steps.map (row d.totalDuration)
  ++ [[],
    "Applied: ".toList ++ number d.applied ++ '/' :: number d.steps.length
      ++ "  |  Result hash: ".toList ++ Text.Hex.word d.resultHash]

def text (d : ReplayDiagnostics) : List Char :=
  ['\n'].intercalate (lines d)

end Darkroom.Report
