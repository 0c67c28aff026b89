import GromListing.FileName
import GromListing.HexFile.Merge
import GromListing.Text.Lines

/-!
# Loading

A file becomes an image by its name: one called `*.hex` is a hex file, which says itself where its
bytes belong, and any other is a raw image.
-/

set_option autoImplicit false

namespace GromListing.Image

/-- The hex file that bytes hold, which have to be text. -/
def hexFileOf (content : List UInt8) : Except Fault HexFile :=
  match String.fromUTF8? (ByteArray.mk content.toArray) with
  | some text => HexFile.ofLines (Text.lines text)
  | none => .error (.file .notText)

/-- The image in the file `name` with this content; `origin` is where a raw image begins. -/
def load (name : String) (origin : UInt16) (content : Except FileFault (List UInt8)) :
    Logged Image :=
  match content with
  | .error fault => .fail (.file fault)
  | .ok bytes =>
    if FileName.isHex name then do
      let file ← Logged.ofExcept (hexFileOf bytes)
      Logged.note (.recordsRead file.records.size name)
      file.image
    else
      Logged.ofExcept (Image.ofBytes origin bytes)

end GromListing.Image
