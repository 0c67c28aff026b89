import GromListing.Cursor

/-!
# Calls of a cursor

The four ways to read from a cursor as data, and runs of them one after another. A run goes on after
a call that fails, with the cursor as that call left it. `Call.Spells` says what a call should answer
from the bytes that it finds.
-/

set_option autoImplicit false

namespace GromListing.Cursor

inductive Call
  | peek
  | byte
  | word
  /-- A size of one asks for a byte, and every other size for a word. -/
  | literal (size : UInt16)
  deriving DecidableEq

/-- What a call can answer. -/
inductive Value
  | byte (b : UInt8)
  | word (w : UInt16)
  | literal (v : Literal)
  deriving DecidableEq

/-- The bytes of a value, the high one first. -/
def Value.bytes : Value → List UInt8
  | .byte b | .literal (.byte b) => [b]
  | .word w | .literal (.word w) => [(w >>> 8).toUInt8, w.toUInt8]

namespace Call

def read : Call → Reader Value
  | peek => .byte <$> Reader.peek
  | byte => .byte <$> Reader.byte
  | word => .word <$> Reader.word
  | literal size => .literal <$> Reader.literal (.ofSize size)

/-- How many bytes have to be there. -/
def needs : Call → Nat
  | peek | byte => 1
  | word => 2
  | literal size => if size = 1 then 1 else 2

/-- The bytes spell the value that the call asks for, the high one first. -/
inductive Spells : Call → List UInt8 → Value → Prop
  | peek (b : UInt8) : Spells .peek [b] (.byte b)
  | byte (b : UInt8) : Spells .byte [b] (.byte b)
  | word {hi lo : UInt8} {w : UInt16} (h : w.toNat = 256 * hi.toNat + lo.toNat) :
    Spells .word [hi, lo] (.word w)
  | literalByte (b : UInt8) : Spells (.literal 1) [b] (.literal (.byte b))
  | literalWord {size : UInt16} {hi lo : UInt8} {w : UInt16} (hsize : size ≠ 1)
    (h : w.toNat = 256 * hi.toNat + lo.toNat) :
    Spells (.literal size) [hi, lo] (.literal (.word w))

/-- What a call takes of the bytes that it looks at. -/
def taking : Call → List UInt8 → List UInt8
  | peek, _ => []
  | _, code => code

end Call

/-- One call of a run: the cursor that it found, its answer, and the cursor that it left. -/
structure Event where
  call : Call
  before : Cursor
  answer : Except Truncation Value
  after : Cursor

def Call.event (call : Call) (c : Cursor) : Event :=
  match call.read c with
  | .ok v c' => ⟨call, c, .ok v, c'⟩
  | .error t c' => ⟨call, c, .error t, c'⟩

/-- What a call of a cursor over `bytes` should come to. -/
structure Event.Faithful (base : UInt16) (bytes : List UInt8) (e : Event) : Prop where
  /-- Of the bytes taken none is given back, and they are the first of all bytes. -/
  taken_mono : e.before.taken <+: e.after.taken ∧ e.after.taken <+: bytes
  /-- An answer is what the next bytes spell, as many as the call needs, and just these are taken. -/
  ok : ∀ v, e.answer = .ok v → ∃ code, code.length = e.call.needs ∧ e.call.Spells code v ∧
    e.before.taken ++ code <+: bytes ∧ e.after.taken = e.before.taken ++ e.call.taking code
  error_iff : (∃ t, e.answer = .error t) ↔ bytes.length < e.before.taken.length + e.call.needs
  /-- A failure asks for the byte after the last, and has taken all that are there. -/
  error : ∀ t, e.answer = .error t → t = ⟨base, bytes.length + 1, bytes.length⟩ ∧
    e.after.taken = bytes

/-- The bytes of the value that a call has read. -/
def Event.bytesRead (e : Event) : List UInt8 :=
  match e.answer with
  | .ok v => e.call.taking v.bytes
  | .error _ => []

/-- The calls one after another. -/
def run (c : Cursor) : List Call → List Event
  | [] => []
  | call :: calls => call.event c :: run (call.event c).after calls

end GromListing.Cursor
