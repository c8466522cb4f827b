import Darkroom.Image.Edit

/-!
# Named images that share their bytes

A handle is the frame of an image and the address of its bytes. Handles that were copied from one
another share an address, and the store counts the owners of each. Bytes are overwritten in place
only by a sole owner; any other handle first moves to bytes of its own.

`Sheet` is the same service without any sharing: names and independent images. A `Command` can be
carried out by both.
-/

namespace Darkroom.Image

/-- The frame of an image, and where its bytes are. The null image has no address. Handles that
share an address show the same bytes, each in a frame of its own. -/
structure Handle where
  width : UInt32
  height : UInt32
  depth : Depth
  hasAlpha : Bool
  address : Option Nat

/-- Named handles over shared bytes. Addresses are never used again, so an address that no handle
has keeps its bytes and is harmless. -/
structure Store where
  bytes : Nat → Array UInt8
  owners : Nat → Nat
  next : Nat
  handles : List (String × Handle)

namespace Handle

def null : Handle :=
  ⟨0, 0, .eight, false, none⟩

def ofFrame (image : Image) (address : Option Nat) : Handle :=
  ⟨image.width, image.height, image.depth, image.hasAlpha, address⟩

end Handle

namespace Store

def update {α : Type} (f : Nat → α) (a : Nat) (x : α) : Nat → α :=
  fun b => if b = a then x else f b

def empty : Store :=
  ⟨fun _ => #[], fun _ => 0, 0, []⟩

/-! ## Reading -/

/-- The handle of a name; a name that was never given is null. So every name has an image, and
reading never fails. -/
def handle (s : Store) (name : String) : Handle :=
  (s.handles.lookup name).getD .null

/-- The image that a handle shows, which is its frame with the bytes at its address. -/
def look (s : Store) (h : Handle) : Image :=
  match h.address with
  | none => .null
  | some a => ⟨h.width, h.height, h.depth, h.hasAlpha, s.bytes a⟩

def image (s : Store) (name : String) : Image :=
  s.look (s.handle name)

/-- Whether another owner shares the bytes of a name. An owner is a name or an edit that holds a
handle meanwhile. -/
def isShared (s : Store) (name : String) : Bool :=
  match (s.handle name).address with
  | none => false
  | some a => 1 < s.owners a

/-! ## Owners -/

/-- One more owner of the bytes of a handle. The null handle has no bytes, so nothing is counted for
it. -/
def retain (s : Store) (h : Handle) : Store :=
  match h.address with
  | none => s
  | some a => { s with owners := update s.owners a (s.owners a + 1) }

def release (s : Store) (h : Handle) : Store :=
  match h.address with
  | none => s
  | some a => { s with owners := update s.owners a (s.owners a - 1) }

/-- Gives a name to a handle that is already counted. The handle that had the name before is not let
go of here. -/
def bind (s : Store) (name : String) (h : Handle) : Store :=
  { s with handles := (name, h) :: s.handles.filter (fun p => p.1 != name) }

/-- Gives a name to a handle that is already counted, and lets go of the old one. -/
def assign (s : Store) (name : String) (h : Handle) : Store :=
  (s.release (s.handle name)).bind name h

/-- New bytes with a single owner. A null image is not stored at all, so its handle has no
address. -/
def allocate (s : Store) (image : Image) : Store × Handle :=
  if image.isNull then (s, .null)
  else
    ({ s with
       bytes := update s.bytes s.next image.bytes
       owners := update s.owners s.next 1
       next := s.next + 1 },
     .ofFrame image (some s.next))

/-! ## Writing -/

/-- Lets a name show an image with bytes of its own. Other names that shared the old bytes go on
showing them. -/
def replace (s : Store) (name : String) (image : Image) : Store :=
  let (s, h) := s.allocate image
  s.assign name h

/-- Gives a name bytes of its own, with the same content, unless it is already their sole owner.
After this they can be overwritten without anyone else noticing. -/
def detach (s : Store) (name : String) : Store :=
  match (s.handle name).address with
  | none => s
  | some a => if s.owners a = 1 then s else s.replace name (s.image name)

/-- Overwrites the bytes that a name shows, whoever else owns them. So it is used only where the
name is their sole owner. -/
def write (s : Store) (name : String) (image : Image) : Store :=
  match (s.handle name).address with
  | none => s
  | some a => { s with bytes := update s.bytes a image.bytes }.bind name (.ofFrame image (some a))

def share (s : Store) (name source : String) : Store :=
  let h := s.handle source
  (s.retain h).assign name h

def apply (s : Store) (name : String) : Change → Store
  | .keep => s
  | .overwrite image => s.write name image
  | .replace image => s.replace name image

/-- An edit of one name that may read another one, whose handle is held meanwhile. An edit in place
gets bytes of its own before it reads anything. -/
def run (s : Store) (name source : String) (edit : Image → Edit) : Store × Reply :=
  let held := s.handle source
  let s := s.retain held
  let s := if (edit (s.look held)).inPlace (s.image name) then s.detach name else s
  let (change, reply) := (edit (s.look held)).change (s.image name)
  ((s.apply name change).release held, reply)

end Store

/-- Named images without sharing. This is what a caller is to see of a store: sharing is to save
copies and nothing else. -/
structure Sheet where
  images : List (String × Image)

namespace Sheet

def empty : Sheet :=
  ⟨[]⟩

def image (s : Sheet) (name : String) : Image :=
  (s.images.lookup name).getD .null

def assign (s : Sheet) (name : String) (image : Image) : Sheet :=
  ⟨(name, image) :: s.images.filter (fun p => p.1 != name)⟩

def share (s : Sheet) (name source : String) : Sheet :=
  s.assign name (s.image source)

def run (s : Sheet) (name source : String) (edit : Image → Edit) : Sheet × Reply :=
  let edit := edit (s.image source)
  (s.assign name (edit.result (s.image name)), (edit.change (s.image name)).2)

end Sheet

/-! ## Sequences -/

/-- One use of named images. An edit is given as a function of the image of its source, as it may
have changed by the time the command is carried out. -/
inductive Command where
  | share (name source : String)
  | edit (name source : String) (edit : Image → Edit)

def Command.name : Command → String
  | share name _ => name
  | edit name _ _ => name

def Store.perform (s : Store) : Command → Store × Reply
  | .share name source => (s.share name source, .done)
  | .edit name source edit => s.run name source edit

/-- Carries out commands on images that share, with all answers. A failed edit does not stop the
commands after it. -/
def Store.performAll : Store → List Command → Store × List Reply
  | s, [] => (s, [])
  | s, c :: rest =>
    let (s, reply) := s.perform c
    let (s, replies) := s.performAll rest
    (s, reply :: replies)

/-- Carries out a command on independent images. It gives the same answers as the command on images
that share. -/
def Sheet.perform (s : Sheet) : Command → Sheet × Reply
  | .share name source => (s.share name source, .done)
  | .edit name source edit => s.run name source edit

def Sheet.performAll : Sheet → List Command → Sheet × List Reply
  | s, [] => (s, [])
  | s, c :: rest =>
    let (s, reply) := s.perform c
    let (s, replies) := s.performAll rest
    (s, reply :: replies)

end Darkroom.Image
