import GromListing.Cursor.Call
import GromListing.Proofs.Reader.CodeWord

/-!
# Runs of a cursor

* `Over base bytes c`: the cursor stands somewhere in `bytes`, what it has taken before it and the
  rest behind it.
* `Call.read_cases`: one call answers what the next bytes spell, or takes all that are left.
* `Over.faithful`: so a call of a cursor over some bytes is faithful to them, and leaves a cursor
  over them. A cursor at their end fails in the same way for ever (`event_of_rest_nil`).
* `run_faithful`: both for every call of a run, and what a run without failures has read.
-/

set_option autoImplicit false

namespace GromListing

theorem Word.eq_ofBytes {hi lo : UInt8} {w : UInt16} (h : w.toNat = 256 * hi.toNat + lo.toNat) :
    w = ofBytes hi lo :=
  UInt16.toNat_inj.1 (h.trans (toNat_ofBytes hi lo).symm)

namespace Cursor

open Reader

variable {base : UInt16} {bytes code : List UInt8} {c : Cursor} {call : Call} {calls : List Call}
  {v : Value} {e : Event} {earlier later : List Event}

/-- The cursor stands in these bytes. -/
structure Over (base : UInt16) (bytes : List UInt8) (c : Cursor) : Prop where
  base_eq : c.base = base
  taken_append : c.taken ++ c.rest = bytes

theorem Over.start (base : UInt16) (bytes : List UInt8) : Over base bytes (start base bytes) :=
  ⟨rfl, rfl⟩

theorem Over.drained (h : c.Over base bytes) : c.drained = ⟨base, bytes, []⟩ := by
  rw [Cursor.drained, h.base_eq, h.taken_append]

theorem drained_of_rest_nil (h : c.rest = []) : c.drained = c := by
  obtain ⟨base, taken, rest⟩ := c
  obtain rfl : rest = [] := h
  rw [Cursor.drained, List.append_nil]

/-! ## One call -/

namespace Call

theorem needs_pos (call : Call) : 0 < call.needs := by
  cases call with
  | literal size =>
    rw [needs]
    split <;> decide
  | _ => decide

theorem Spells.length_eq (h : call.Spells code v) : code.length = call.needs := by
  cases h with
  | literalWord hsize => rw [needs, if_neg hsize]; rfl
  | _ => rfl

theorem Spells.bytes_eq (h : call.Spells code v) : v.bytes = code := by
  cases h with
  | word h => rw [Word.eq_ofBytes h, Value.bytes, Word.high_ofBytes, Word.low_ofBytes]
  | literalWord _ h => rw [Word.eq_ofBytes h, Value.bytes, Word.high_ofBytes, Word.low_ofBytes]
  | _ => rfl

theorem read_decides (hcall : call ≠ .peek) : Decides call.read call.needs := by
  cases call with
  | peek => exact absurd rfl hcall
  | byte => exact .map _ .byte
  | word => exact .map _ .word
  | literal size =>
    rw [read, Literal.Width.ofSize, needs]
    split
    · exact literal_byte_eq ▸ .map _ (.map _ .byte)
    · exact literal_word_eq ▸ .map _ (.map _ .word)

theorem spells_of_reads (hcall : call ≠ .peek) (h : Reads call.read base code v) :
    call.Spells code v := by
  cases call with
  | peek => exact absurd rfl hcall
  | byte =>
    obtain ⟨b, hread, rfl⟩ := (reads_map_iff .byte).1 h
    obtain rfl := reads_byte_iff.1 hread
    exact .byte b
  | word =>
    obtain ⟨w, hread, rfl⟩ := (reads_map_iff .word).1 h
    obtain ⟨hi, lo, rfl, rfl⟩ := reads_word_iff.1 hread
    exact .word (Word.toNat_ofBytes hi lo)
  | literal size =>
    obtain ⟨l, hread, rfl⟩ := (reads_map_iff (.literal _)).1 h
    by_cases hsize : size = 1
    · subst hsize
      obtain ⟨b, rfl, rfl⟩ := reads_literal_byte_iff.1 hread
      exact .literalByte b
    · rw [Literal.Width.ofSize, if_neg hsize] at hread
      obtain ⟨hi, lo, rfl, rfl⟩ := reads_literal_word_iff.1 hread
      exact .literalWord hsize (Word.toNat_ofBytes hi lo)

theorem taking_of_ne_peek (hcall : call ≠ .peek) (code : List UInt8) : call.taking code = code := by
  cases call with
  | peek => exact absurd rfl hcall
  | _ => rfl

/-- **One call.** The next bytes spell its answer, or they are too few and all of them are taken. -/
theorem read_cases (call : Call) (c : Cursor) :
    (∃ code v c', code <+: c.rest ∧ call.Spells code v ∧ call.read c = .ok v c' ∧
      c'.taken = c.taken ++ call.taking code ∧ c'.Over c.base (c.taken ++ c.rest)) ∨
    (c.rest.length < call.needs ∧ call.read c = c.short) := by
  by_cases hcall : call = .peek
  · subst hcall
    obtain ⟨base, taken, rest⟩ := c
    cases rest with
    | nil =>
      refine .inr ⟨Nat.one_pos, ?_⟩
      rw [short, drained_of_rest_nil rfl]
      rfl
    | cons b rest =>
      refine .inl ⟨[b], .byte b, _, ⟨rest, rfl⟩, .peek b, rfl, ?_, rfl, rfl⟩
      exact (List.append_nil taken).symm
  · rcases read_decides hcall c.base c.rest with ⟨code, v, rest, hrest, -, hread⟩ | ⟨hlt, hshort⟩
    · refine .inl ⟨code, v, ⟨c.base, c.taken ++ code, rest⟩, ⟨rest, hrest.symm⟩,
        spells_of_reads hcall hread, ?_, ?_, rfl, ?_⟩
      · rw [← hread.whole, ← hrest]
      · rw [taking_of_ne_peek hcall]
      · rw [List.append_assoc, ← hrest]
    · exact .inr ⟨hlt, hshort c.taken⟩

theorem event_of_ok {c' : Cursor} (h : call.read c = .ok v c') :
    call.event c = ⟨call, c, .ok v, c'⟩ := by
  rw [event, h]

theorem event_of_short (h : call.read c = c.short) :
    call.event c = ⟨call, c, .error c.drained.shortage, c.drained⟩ := by
  rw [event, h, short]

theorem call_event (call : Call) (c : Cursor) :
    (call.event c).call = call ∧ (call.event c).before = c := by
  unfold event
  split <;> exact ⟨rfl, rfl⟩

/-- At the end of the bytes every call fails, and leaves the cursor as it is. -/
theorem event_of_rest_nil (call : Call) (h : c.rest = []) :
    call.event c = ⟨call, c, .error c.shortage, c⟩ := by
  rcases call.read_cases c with ⟨code, v, c', hcode, hspells, -⟩ | ⟨-, hread⟩
  · rw [h, List.prefix_nil] at hcode
    have hlen := hcode ▸ hspells.length_eq
    exact absurd hlen (Nat.ne_of_lt call.needs_pos)
  · rw [event_of_short hread, drained_of_rest_nil h]

/-- What a call takes it has read, unless it fails. -/
theorem taken_event (h : call ≠ .peek → ∃ v, (call.event c).answer = .ok v) :
    (call.event c).after.taken = c.taken ++ (call.event c).bytesRead := by
  rcases call.read_cases c with ⟨code, v, c', -, hspells, hread, htaken, -⟩ | ⟨hlt, hread⟩
  · simp only [event_of_ok hread, Event.bytesRead, hspells.bytes_eq, htaken]
  · -- only a peek may have failed, with nothing left to take
    rw [event_of_short hread] at h ⊢
    by_cases hcall : call = .peek
    · subst hcall
      have hrest : c.rest = [] := List.length_eq_zero_iff.1 (Nat.lt_one_iff.1 hlt)
      rw [drained_of_rest_nil hrest, Event.bytesRead, List.append_nil]
    · obtain ⟨v, hv⟩ := h hcall
      cases hv

end Call

theorem Over.event (h : c.Over base bytes) (call : Call) : (call.event c).after.Over base bytes := by
  rcases call.read_cases c with ⟨code, v, c', -, -, hread, -, hover⟩ | ⟨-, hread⟩
  · rw [Call.event_of_ok hread]
    rwa [h.base_eq, h.taken_append] at hover
  · rw [Call.event_of_short hread, h.drained]
    exact ⟨rfl, List.append_nil bytes⟩

/-- **A call of a cursor over some bytes is faithful to them.** -/
theorem Over.faithful (h : c.Over base bytes) (call : Call) :
    (call.event c).Faithful base bytes := by
  have hlength := congrArg List.length h.taken_append
  rw [List.length_append] at hlength
  rcases call.read_cases c with ⟨code, v, c', hcode, hspells, hread, htaken, hover⟩ | ⟨hlt, hread⟩
  · have hneeds := hspells.length_eq
    have hle := hcode.length_le
    have hnext : c.taken ++ code <+: bytes :=
      h.taken_append ▸ (List.prefix_append_right_inj c.taken).2 hcode
    rw [Call.event_of_ok hread]
    refine ⟨⟨?_, ?_⟩, fun _ hv => ?_, ⟨?_, ?_⟩, nofun⟩
    · exact htaken ▸ List.prefix_append ..
    · rw [h.taken_append] at hover
      exact hover.taken_append ▸ List.prefix_append ..
    · cases hv
      exact ⟨code, hneeds, hspells, hnext, htaken⟩
    · rintro ⟨t, ht⟩
      cases ht
    · intro hlt
      simp only at hlt
      omega
  · rw [Call.event_of_short hread, h.drained]
    refine ⟨⟨h.taken_append ▸ List.prefix_append .., List.prefix_refl bytes⟩, nofun,
      ⟨fun _ => ?_, fun _ => ⟨_, rfl⟩⟩, fun t ht => ?_⟩
    · simp only
      omega
    · cases ht
      exact ⟨rfl, rfl⟩

/-! ## Runs -/

theorem call_run (c : Cursor) (calls : List Call) : (run c calls).map (·.call) = calls := by
  induction calls generalizing c with
  | nil => rfl
  | cons call calls ih => rw [run, List.map_cons, ih, (call.call_event c).1]

/-- Each call of a run goes on where the one before it stopped, and the rest of the run where it
stops itself. -/
theorem Over.exists_run_of_split (h : c.Over base bytes)
    (hrun : run c calls = earlier ++ e :: later) :
    ∃ (call : Call) (c' : Cursor) (rest : List Call),
      c'.Over base bytes ∧ e = call.event c' ∧ later = run e.after rest := by
  induction earlier generalizing c calls with
  | nil =>
    cases calls with
    | nil => cases hrun
    | cons call calls =>
      obtain ⟨rfl, rfl⟩ := List.cons.inj hrun
      exact ⟨call, c, calls, h, rfl, rfl⟩
  | cons d earlier ih =>
    cases calls with
    | nil => cases hrun
    | cons call calls =>
      obtain ⟨rfl, hrest⟩ := List.cons.inj hrun
      exact ih (h.event call) hrest

theorem taken_mono_of_mem_run (h : e ∈ run c calls) : c.taken <+: e.before.taken := by
  induction calls generalizing c with
  | nil => cases h
  | cons call calls ih =>
    rcases List.mem_cons.1 h with rfl | h
    · simp only [(call.call_event c).2, List.prefix_refl]
    · have hstep := ((Over.mk rfl rfl : c.Over c.base _).faithful call).taken_mono.1
      rw [(call.call_event c).2] at hstep
      exact hstep.trans (ih h)

theorem of_mem_run_of_rest_nil (hrest : c.rest = []) (h : e ∈ run c calls) :
    e.answer = .error c.shortage ∧ e.after = c := by
  induction calls with
  | nil => cases h
  | cons call calls ih =>
    rw [run, call.event_of_rest_nil hrest] at h
    rcases List.mem_cons.1 h with rfl | h
    · exact ⟨rfl, rfl⟩
    · exact ih h

theorem taken_of_split (hrun : run c calls = earlier ++ e :: later)
    (hok : ∀ x ∈ earlier ++ [e], x.call ≠ .peek → ∃ v, x.answer = .ok v) :
    e.after.taken = c.taken ++ (earlier ++ [e]).flatMap Event.bytesRead := by
  induction earlier generalizing c calls with
  | nil =>
    cases calls with
    | nil => cases hrun
    | cons call calls =>
      obtain ⟨rfl, -⟩ := List.cons.inj hrun
      have hfirst := hok _ List.mem_cons_self
      rw [(call.call_event c).1] at hfirst
      simpa using Call.taken_event hfirst
  | cons d earlier ih =>
    cases calls with
    | nil => cases hrun
    | cons call calls =>
      obtain ⟨rfl, hrest⟩ := List.cons.inj hrun
      have hfirst := hok _ List.mem_cons_self
      rw [(call.call_event c).1] at hfirst
      rw [ih hrest fun x hx => hok x (List.mem_cons_of_mem _ hx), Call.taken_event hfirst,
        List.cons_append, List.flatMap_cons, List.append_assoc]

/-- **A cursor is a faithful stream, over any run of calls.** Each call is faithful to the bytes, and
nothing that is taken is given back later. As long as no read fails, the values read are the bytes
taken, in order. Once a call fails every later one fails in the same way, with all bytes taken. And a
literal of two bytes is read just like a word, at any cursor. -/
theorem run_faithful (base : UInt16) (bytes : List UInt8) (calls : List Call) :
    let events := run (start base bytes) calls
    events.map (·.call) = calls ∧
    (∀ earlier e later, events = earlier ++ e :: later →
      e.Faithful base bytes ∧
      (∀ x ∈ later, e.after.taken <+: x.before.taken) ∧
      ((∀ x ∈ earlier ++ [e], x.call ≠ .peek → ∃ v, x.answer = .ok v) →
        e.after.taken = (earlier ++ [e]).flatMap Event.bytesRead) ∧
      ∀ t, e.answer = .error t →
        t.report = ⟨.truncated, some base, Text.red "Truncated Instruction" ++ " byte " ++
          toString (bytes.length + 1) ++ " needed but only " ++ toString bytes.length ++
          " supplied"⟩ ∧
        ∀ x ∈ later, x.answer = .error t ∧ x.after.taken = bytes) ∧
    ∀ size c, size ≠ 1 →
      Reader.literal (.ofSize size) c = (Literal.word <$> Reader.word) c := by
  intro events
  refine ⟨call_run _ calls, fun earlier e later hrun => ?_, fun size c hsize => ?_⟩
  · obtain ⟨call, c, rest, hover, rfl, rfl⟩ := (Over.start base bytes).exists_run_of_split hrun
    have hfaithful := hover.faithful call
    refine ⟨hfaithful, fun x hx => taken_mono_of_mem_run hx, taken_of_split hrun,
      fun t ht => ?_⟩
    obtain ⟨rfl, htaken⟩ := hfaithful.error t ht
    refine ⟨rfl, fun x hx => ?_⟩
    have hafter := hover.event call
    have hrest : (call.event c).after.rest = [] := by
      have hsplit := hafter.taken_append
      rwa [htaken, List.append_right_eq_self] at hsplit
    obtain ⟨hanswer, heq⟩ := of_mem_run_of_rest_nil hrest hx
    rw [hanswer, heq, shortage, hafter.base_eq, htaken, hrest]
    exact ⟨rfl, rfl⟩
  · rw [Literal.Width.ofSize, if_neg hsize, literal_word_eq]

/-- A peek, a byte, a literal of two bytes, and then a word where one byte is left. -/
theorem run_faithful_underrun :
    let events := run (start 0x6000 [0x12, 0x34, 0x56, 0x78])
      [.peek, .byte, .literal 0, .word, .peek]
    ∃ first second third fourth last, events = [first, second, third, fourth, last] ∧
      third.after.taken = [first, second, third].flatMap Event.bytesRead ∧
      third.after.taken = [0x12, 0x34, 0x56] ∧
      third.answer = .ok (.literal (.word 0x3456)) ∧
      fourth.answer = .error ⟨0x6000, 5, 4⟩ ∧ last.answer = .error ⟨0x6000, 5, 4⟩ ∧
      last.after.taken = [0x12, 0x34, 0x56, 0x78] := by
  intro events
  obtain ⟨-, hevents, -⟩ := run_faithful 0x6000 [0x12, 0x34, 0x56, 0x78]
    [.peek, .byte, .literal 0, .word, .peek]
  obtain ⟨-, -, htaken, -⟩ := hevents [_, _] _ [_, _] rfl
  obtain ⟨-, -, -, hfails⟩ := hevents [_, _, _] _ [_] rfl
  refine ⟨_, _, _, _, _, rfl, htaken ?_, rfl, rfl, rfl, ?_⟩
  · exact List.forall_mem_cons.2 ⟨fun _ => ⟨_, rfl⟩, List.forall_mem_cons.2 ⟨fun _ => ⟨_, rfl⟩,
      List.forall_mem_cons.2 ⟨fun _ => ⟨_, rfl⟩, fun _ hx => absurd hx List.not_mem_nil⟩⟩⟩
  · exact (hfails _ rfl).2 _ List.mem_cons_self

end Cursor

end GromListing
