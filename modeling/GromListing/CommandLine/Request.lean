import GromListing.CommandLine.Argument
import GromListing.Listing.Page
import GromListing.Text.Number

/-!
# Requests

What a run is asked to do. There is exactly one file, each option stands at most once, and the
arguments count in order: the first one that is wrong, or that asks for help, settles the request.
-/

set_option autoImplicit false

namespace GromListing.CommandLine

structure Settings where
  file : String
  /-- Where a raw image begins. -/
  origin : UInt16
  range : Listing.Range
  showBytes : Bool
  verbose : Bool
  deriving DecidableEq

inductive Request
  | list (settings : Settings)
  | help
  | version
  | rejected
  deriving DecidableEq

/-- The settings as far as the arguments have been read. -/
structure Draft where
  file : Option String
  origin : Option UInt16
  start : Option UInt16
  stop : Option UInt32
  count : Option Nat
  showBytes : Bool
  verbose : Bool
  deriving DecidableEq

namespace Draft

def empty : Draft := ⟨none, none, none, none, none, false, false⟩

/-- Where a raw image begins if nothing else is said: at the cartridge GROMs. -/
def defaultOrigin : UInt16 := 0x6000

/-- Gives a value to a setting that has none yet. -/
def set (draft : Draft) (setting : Setting) (value : String) : Option Draft := do
  match setting with
  | .origin =>
    guard draft.origin.isNone
    let origin ← Number.decimalOrHex? 0x10000 value
    return { draft with origin := some (UInt16.ofNat origin) }
  | .start =>
    guard draft.start.isNone
    let start ← Number.decimalOrHex? 0x10000 value
    return { draft with start := some (UInt16.ofNat start) }
  | .stop =>
    guard draft.stop.isNone
    let stop ← Number.decimalOrHex? 0x100000000 value
    return { draft with stop := some (UInt32.ofNat stop) }
  | .count =>
    guard draft.count.isNone
    let count ← Number.decimal? 0x10000000000000000 value
    return { draft with count := some count }

/-- Takes in one item, or settles the request. -/
def add (draft : Draft) : Item → Except Request Draft
  | .switch .bytes =>
    if draft.showBytes then .error .rejected else .ok { draft with showBytes := true }
  | .switch .verbose =>
    if draft.verbose then .error .rejected else .ok { draft with verbose := true }
  | .switch .help => .error .help
  | .switch .version => .error .version
  | .setting setting value =>
    match draft.set setting value with
    | some draft => .ok draft
    | none => .error .rejected
  | .file name =>
    if draft.file.isSome then .error .rejected else .ok { draft with file := some name }
  | .invalid => .error .rejected

/-- The request that a draft amounts to when all arguments have been read. -/
def request (draft : Draft) : Request :=
  match draft.file with
  | some file =>
    .list ⟨file, draft.origin.getD defaultOrigin, ⟨draft.start, draft.stop, draft.count⟩,
      draft.showBytes, draft.verbose⟩
  | none => .rejected

end Draft

def request (arguments : List String) : Request :=
  match (items arguments).foldlM Draft.add Draft.empty with
  | .ok draft => draft.request
  | .error request => request

end GromListing.CommandLine
