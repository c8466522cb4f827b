import Darkroom.Raster.Format
import Darkroom.Text.Lines

/-!
# Folders of image files

A folder holds files by name. The format of a new file follows from the extension of its name.

A name is a path of parts between slashes. It names a file of the folder when, after steps that stay in
the folder (`./`), a single part is left that a file can have.
-/

namespace Darkroom

namespace FileName

/-- Whether a part of a path stays where it is. Empty parts come from slashes side by side. -/
def isStay (part : List Char) : Bool :=
  part.isEmpty || part == ['.']

/-- Whether a file can have this name: it is no step, has no slash and no zero character, and takes
at most 255 bytes. These are the rules of file systems, not of any format. -/
def isPlain (part : List Char) : Bool :=
  !isStay part && part != ['.', '.'] && !part.contains '/' && !part.contains '\x00'
    && (String.ofList part).utf8ByteSize ≤ 255

/-- The file of the folder that a name leads to. A name with any other step leads to none, even if
the steps would come back to the folder. -/
def entry? (name : String) : Option (List Char) :=
  let parts := match Text.splitOn '/' name.toList with
    | ['.'] :: rest => rest.dropWhile isStay
    | parts => parts
  match parts with
  | [part] => if isPlain part then some part else none
  | _ => none

/-- The last part of a name that does not stay. The extension is looked for in it, also if the name
leads out of the folder. -/
def last? (name : String) : Option (List Char) :=
  ((Text.splitOn '/' name.toList).filter fun part => !isStay part).getLast?

/-- The extension of a part: what follows the last point, unless the part starts with it, as the
names of hidden files do. -/
def extensionOf? (part : List Char) : Option String :=
  let (behind, before) := part.reverse.span (· ≠ '.')
  match before with
  | [] | ['.'] => none
  | _ => some (String.ofList behind.reverse)

def extension? (name : String) : Option String :=
  (last? name).bind extensionOf?

end FileName

/-- Files by name. A file that is saved again stands before the old one, and look-ups find the
first. -/
structure Folder where
  files : List (List Char × ImageFile)

namespace Folder

def empty : Folder :=
  ⟨[]⟩

/-- Saves an image. The extension is looked at first, then the image, and the name last, so this is
the order of the errors. -/
def save (folder : Folder) (name : String) (image : Image) : Except FileError Folder :=
  match (FileName.extension? name).bind FileFormat.ofExtension? with
  | none => .error .format
  | some format =>
    match format.write image with
    | .error e => .error e
    | .ok file =>
      match FileName.entry? name with
      | none => .error .name
      | some entry => .ok ⟨(entry, file) :: folder.files⟩

/-- Loads an image. The extension does not matter here: a file knows its own format, and a name that
leads to no file is not told apart from an odd one. -/
def load (folder : Folder) (name : String) : Except FileError Image :=
  match (FileName.entry? name).bind fun entry => folder.files.lookup entry with
  | none => .error .absent
  | some file => file.read

end Folder

end Darkroom
