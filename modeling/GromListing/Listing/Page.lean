import GromListing.Listing.Sweep

/-!
# Pages

A page is the part of a sweep that is shown: a given number of instructions from a given start.
Bytes that are listed as data do not count. A page learns that it is full only when one more line
has been produced, and a notice that came with that line stands.
-/

set_option autoImplicit false

namespace GromListing.Listing

/-- What part of an image to list. -/
structure Range where
  /-- The first address; the image's first if absent. -/
  start : Option UInt16
  /-- The address to stop before; the image's end if absent. -/
  stop : Option UInt32
  /-- How many instructions to list at most; all if absent. -/
  count : Option Nat
  deriving DecidableEq

/-- The steps that are shown when `left` more instructions may be: all up to the first that comes
when none is left. -/
def upTo (left : Nat) : List Step → List Step
  | [] => []
  | step :: rest =>
    if left = 0 then []
    else step :: upTo (if step.line.isData then left else left - 1) rest

/-- Splits the steps of a sweep into lines shown and notices given. -/
def pageOf (count : Option Nat) (steps : List Step) : Logged (List Line) :=
  let shown := match count with
    | some count => upTo count steps
    | none => steps
  ⟨(steps.take (shown.length + 1)).filterMap (·.notice), .ok (shown.map (·.line))⟩

/-- Lists a range of an image, which has to begin inside the image. -/
def page (image : Image) (range : Range) : Logged (List Line) :=
  let start := range.start.getD image.origin
  if image.contains start.toUInt32 then
    pageOf range.count (sweep image start (range.stop.getD image.stop))
  else
    .fail (.startOutside start image.origin image.last)

end GromListing.Listing
