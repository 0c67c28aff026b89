import GromListing.Fault

/-!
# Notices

What the program says besides the listing itself: warnings, progress, and details that only a
verbose run shows. Warnings and progress end with a carriage return, details do not.
-/

set_option autoImplicit false

namespace GromListing

inductive Notice
  /-- So many bytes of hex records fell on bytes that an earlier record had written. -/
  | overlap (writes : Nat)
  /-- So many bytes from `first` to `last` were written by no record. -/
  | gap (unset : Nat) (first last : UInt16)
  /-- Decoding ended at a truncated instruction with `remaining` bytes to go. -/
  | resync (cause : Truncation) (remaining : Nat)
  /-- The instruction at `addr` has an opcode that no row of the table covers. -/
  | unknownOpcode (opcode : UInt8) (addr : UInt16)
  | recordsRead (count : Nat) (path : String)
  | loaded (size : Nat) (path : String) (first last : UInt16)
  | listed (lines : Nat) (path : String)
  deriving DecidableEq

namespace Notice

/-- Whether only a verbose run shows the notice. -/
def isDetail : Notice → Bool
  | .unknownOpcode .. | .recordsRead .. | .loaded .. => true
  | _ => false

private def warning (message : String) : String := Text.red "WARNING" ++ ": " ++ message ++ "\r"

/-- The line that is printed, without the line feed. -/
def text : Notice → String
  | .overlap writes =>
    warning ("hex records overlap; " ++ toString writes ++
      " bytes were written more than once (last record wins)")
  | .gap unset first last =>
    warning ("hex file leaves " ++ toString unset ++ " bytes between " ++ Hex.word first ++
      " and " ++ Hex.word last ++ " unset; treating them as 00")
  | .resync cause remaining =>
    warning (cause.report.display ++ "; listing remaining " ++ toString remaining ++
      " bytes as data")
  | .unknownOpcode opcode addr =>
    "Unknown opcode " ++ Hex.byte opcode ++ " at " ++ Hex.word addr ++ "; resuming at next byte"
  | .recordsRead count path => "Read " ++ toString count ++ " hex records from " ++ path
  | .loaded size path first last =>
    "Loaded " ++ toString size ++ " bytes from " ++ path ++ " at " ++ Hex.word first ++ "-" ++
      Hex.word last
  | .listed lines path =>
    Text.blue "INFO" ++ ": Listed " ++ toString lines ++ " lines from " ++ path ++ "\r"

end Notice

/-- The result of a computation, and the notices given on the way to it, in order. A computation
that fails has given its notices all the same. -/
structure Logged (α : Type) where
  notices : List Notice
  result : Except Fault α

namespace Logged

def ok {α : Type} (a : α) : Logged α := ⟨[], .ok a⟩

def fail {α : Type} (fault : Fault) : Logged α := ⟨[], .error fault⟩

def ofExcept {α : Type} (result : Except Fault α) : Logged α := ⟨[], result⟩

def note (notice : Notice) : Logged Unit := ⟨[notice], .ok ()⟩

/-- Goes on with the result, if there is one. -/
def bind {α β : Type} (a : Logged α) (f : α → Logged β) : Logged β :=
  match a.result with
  | .ok value => ⟨a.notices ++ (f value).notices, (f value).result⟩
  | .error fault => ⟨a.notices, .error fault⟩

instance : Monad Logged where
  pure := ok
  bind := bind

end Logged

end GromListing
