import GromListing.Proofs.Listing.Extension
import GromListing.Proofs.Listing.Page
import GromListing.Proofs.Listing.Resync

/-!
# What a page tells of

A page is told what its sweep tells up to the line behind it, with which it learns that it is full:

* `pageOf_some`: the lines and the notices of a page of instructions and data. The notice of the data
  comes with a count of all instructions already, the data themselves with a larger one.
* `Announces image stop notices lines`: every byte that the notices say is listed as data is so
  listed, at the end of the lines.
* `page_announcement`: so a page announces what it lists, but for one count: that of all
  instructions before data.
-/

set_option autoImplicit false

namespace GromListing.Listing

/-- The notices are true of the lines: as many bytes before `stop` as a notice says are listed as
data stand at the end of the lines, and without lines of data there is no such notice. -/
def Announces (image : Image) (stop : Nat) (notices : List Notice) (lines : List Line) : Prop :=
  (∀ cause remaining, .resync cause remaining ∈ notices →
    (image.range (stop - remaining) stop).length = remaining ∧
      dataLines (stop - remaining) (image.range (stop - remaining) stop) <:+ lines) ∧
  ((∀ line ∈ lines, line.isData = false) → ∀ cause remaining, .resync cause remaining ∉ notices)

theorem announces_nil (image : Image) (stop : Nat) (lines : List Line) :
    Announces image stop [] lines :=
  ⟨fun _ _ hmem => absurd hmem List.not_mem_nil, fun _ _ _ => List.not_mem_nil⟩

/-! ## The notices of a page -/

/-- What is told of bytes that are too few for an instruction. -/
def tailNotices (addr : Nat) (bytes : List UInt8) : List Notice :=
  if bytes.length = 0 then [] else [resyncNotice (UInt16.ofNat addr) bytes.length]

theorem tailNotices_of_pos {addr : Nat} {bytes : List UInt8} (h : 0 < bytes.length) :
    tailNotices addr bytes = [resyncNotice (UInt16.ofNat addr) bytes.length] :=
  if_neg (Nat.ne_of_gt h)

theorem of_mem_tailNotices {addr remaining : Nat} {bytes : List UInt8} {cause : Truncation}
    (h : .resync cause remaining ∈ tailNotices addr bytes) :
    remaining = bytes.length ∧ 0 < bytes.length := by
  unfold tailNotices at h
  split at h
  · cases h
  · cases List.mem_singleton.1 h
    exact ⟨rfl, by omega⟩

theorem filterMap_notice_silent (lines : List Line) :
    (lines.map Step.silent).filterMap (·.notice) = [] :=
  List.filterMap_eq_nil_iff.2 fun _ hstep => notice_of_mem_silent hstep

/-- All that is told of such bytes is told with the first of them. -/
theorem filterMap_notice_take_tailSteps (k addr : Nat) (bytes : List UInt8) :
    ((tailSteps addr bytes).take (k + 1)).filterMap (·.notice) = tailNotices addr bytes := by
  cases bytes with
  | nil => rfl
  | cons first rest =>
    rw [tailSteps, List.take_succ_cons, ← List.map_take, List.filterMap_cons,
      filterMap_notice_silent]
    rfl

theorem filterMap_notice_take (code : List Line) (k addr : Nat) (bytes : List UInt8) :
    ((code.map Step.silent ++ tailSteps addr bytes).take (k + 1)).filterMap (·.notice) =
      if k < code.length then [] else tailNotices addr bytes := by
  rw [List.take_append, List.filterMap_append, ← List.map_take, filterMap_notice_silent,
    List.nil_append, List.length_map]
  split
  case isTrue hk => rw [Nat.sub_eq_zero_of_le hk, List.take_zero, List.filterMap_nil]
  case isFalse hk =>
    rw [Nat.succ_sub (Nat.le_of_not_lt hk), filterMap_notice_take_tailSteps]

section

variable {code : List Line} {addr : Nat} {bytes : List UInt8}

theorem pageOf_some (hcode : ∀ line ∈ code, line.isData = false) (k : Nat) :
    pageOf (some k) (code.map .silent ++ tailSteps addr bytes) =
      ⟨if k < code.length then [] else tailNotices addr bytes,
        .ok (if k ≤ code.length then code.take k else code ++ dataLines addr bytes)⟩ := by
  have hlines := map_line_upTo hcode (fun line hline => (isData_of_mem_dataLines hline).1) k _
    (map_line_append_tailSteps code addr bytes)
  have hlength := congrArg List.length hlines
  rw [List.length_map] at hlength
  -- fewer lines than instructions are shown just when the count is smaller
  have hfew : (if k ≤ code.length then code.take k else code ++ dataLines addr bytes).length <
      code.length ↔ k < code.length := by
    split
    · rw [List.length_take]
      omega
    · rw [List.length_append]
      omega
  rw [pageOf, filterMap_notice_take, hlines, hlength]
  simp only [hfew]

/-- An absent count is one that is not reached. -/
theorem exists_pageOf_eq (hcode : ∀ line ∈ code, line.isData = false) (count : Option Nat) :
    ∃ k, pageOf count (code.map .silent ++ tailSteps addr bytes) =
        ⟨if k < code.length then [] else tailNotices addr bytes,
          .ok (if k ≤ code.length then code.take k else code ++ dataLines addr bytes)⟩ ∧
      (count = some code.length ↔ k = code.length) := by
  cases count with
  | some k => exact ⟨k, pageOf_some hcode k, Option.some_inj⟩
  | none =>
    refine ⟨code.length + 1, ?_, by simp⟩
    have hlong : ¬code.length + 1 ≤ code.length := Nat.not_succ_le_self _
    rw [if_neg hlong, if_neg (mt Nat.le_of_lt hlong), pageOf]
    simp only [filterMap_notice_take, map_line_append_tailSteps]
    rw [if_neg (by simp)]

end

/-- Bytes that are listed as data are announced as they are listed. -/
theorem announces_tail {image : Image} {addr stop : Nat} (hfirst : image.origin.toNat ≤ addr)
    (hstop : stop ≤ image.origin.toNat + image.bytes.length) (insts : List Instruction) :
    Announces image stop (tailNotices addr (image.range addr stop))
      (insts.map .code ++ dataLines addr (image.range addr stop)) := by
  have hlength := Image.length_range hfirst hstop
  refine ⟨fun cause remaining hmem => ?_, fun hnone cause remaining hmem => ?_⟩
  · obtain ⟨rfl, hpos⟩ := of_mem_tailNotices hmem
    have haddr : stop - (image.range addr stop).length = addr := by omega
    rw [haddr]
    exact ⟨rfl, List.suffix_append ..⟩
  · obtain ⟨-, hpos⟩ := of_mem_tailNotices hmem
    rw [← countP_isData_append_dataLines insts addr, List.countP_pos_iff] at hpos
    obtain ⟨line, hline, hdata⟩ := hpos
    exact Bool.false_ne_true ((hnone line hline).symm.trans hdata)

/-- A page does not announce what it lists just when its count cuts off data and no instruction. -/
theorem announces_taken_iff {image : Image} {stop addr : Nat} {bytes : List UInt8}
    {code : List Line} (hcode : ∀ line ∈ code, line.isData = false)
    (htail : Announces image stop (tailNotices addr bytes) (code ++ dataLines addr bytes))
    (k : Nat) :
    Announces image stop (if k < code.length then [] else tailNotices addr bytes)
        (if k ≤ code.length then code.take k else code ++ dataLines addr bytes) ↔
      ¬(k = code.length ∧ 0 < bytes.length) := by
  rcases Nat.lt_trichotomy k code.length with hlt | rfl | hgt
  · rw [if_pos hlt]
    exact iff_of_true (announces_nil ..) fun hc => Nat.ne_of_lt hlt hc.1
  · rw [if_neg (Nat.lt_irrefl _), if_pos (Nat.le_refl _), List.take_length]
    by_cases hpos : 0 < bytes.length
    · rw [tailNotices_of_pos hpos]
      exact iff_of_false (fun h => h.2 hcode _ _ List.mem_cons_self) (not_not_intro ⟨rfl, hpos⟩)
    · rw [tailNotices, if_pos (Nat.eq_zero_of_not_pos hpos)]
      exact iff_of_true (announces_nil ..) fun hc => hpos hc.2
  · rw [if_neg (Nat.lt_asymm hgt), if_neg (Nat.not_le_of_lt hgt)]
    exact iff_of_true htail fun hc => Nat.ne_of_gt hgt hc.1

/-! ## Pages -/

theorem page_eq_of_result {image : Image} {range : Range} {lines : List Line}
    (h : (page image range).result = .ok lines) :
    page image range = pageOf range.count
      (sweep image (range.start.getD image.origin) (range.stop.getD image.stop)) := by
  by_cases hstart : image.contains (range.start.getD image.origin).toUInt32 = true
  · exact if_pos hstart
  · rw [page, if_neg hstart] at h
    cases h

/-- **A page announces the data it lists.** Where it says that bytes are listed as data, these are
its last lines; where it lists no data, it says no such thing. There is one exception: the count is
that of all instructions, and bytes follow that are too few for another one. Then the page is told
of them and ends before them. -/
theorem page_announcement (image : Image) (h : image.Fits) (start : Option UInt16)
    (stop : Option UInt32) (count : Option Nat) (lines : List Line)
    (hpage : (page image ⟨start, stop, count⟩).result = .ok lines) :
    let last := min (stop.getD image.stop).toNat image.stop.toNat
    let all := (sweep image (start.getD image.origin) (stop.getD image.stop)).map (·.line)
    let data := all.countP (·.isData)
    let notices := (page image ⟨start, stop, count⟩).notices
    let cut := count = some (decoded all).length ∧ 0 < data
    (Announces image last notices lines ↔ ¬cut) ∧
      (cut → lines = decoded all ∧ ∃ addr, notices = [.resync ⟨addr, data + 1, data⟩ data]) := by
  intro last all data notices cut
  obtain ⟨insts, addr, hfirst, hsteps⟩ :=
    exists_sweep_eq h (start.getD image.origin) (stop.getD image.stop)
  have hlast : last ≤ image.origin.toNat + image.bytes.length := h.stop_eq ▸ Nat.min_le_right ..
  have htail := announces_tail hfirst hlast insts
  change _ = _ ++ tailSteps addr (image.range addr last) at hsteps
  generalize image.range addr last = tail at hsteps htail
  have hall : all = insts.map .code ++ dataLines addr tail := by
    rw [← map_line_append_tailSteps, ← hsteps]
  have hdecoded : decoded all = insts.map .code := by
    rw [hall, decoded_append, decoded_code, decoded_dataLines, List.append_nil]
  have hdata : data = tail.length := by
    rw [← countP_isData_append_dataLines insts addr tail, ← hall]
  have hcode : ∀ line ∈ insts.map Line.code, line.isData = false :=
    fun line hline => isData_of_mem_code hline
  generalize insts.map Line.code = code at hsteps htail hdecoded hcode
  obtain ⟨k, hk, hcount⟩ := exists_pageOf_eq hcode count
  have hpageOf := (page_eq_of_result hpage).trans (hsteps ▸ hk)
  have hnotices : notices = _ := congrArg Logged.notices hpageOf
  have hlines : lines = _ := Except.ok.inj (hpage.symm.trans (congrArg Logged.result hpageOf))
  have hcut : cut ↔ k = code.length ∧ 0 < tail.length := by
    simp only [cut, hdecoded, hdata, hcount]
  rw [hcut, hdata, hdecoded, hnotices, hlines]
  refine ⟨announces_taken_iff hcode htail k, ?_⟩
  rintro ⟨rfl, hpos⟩
  rw [if_pos (Nat.le_refl _), List.take_length, if_neg (Nat.lt_irrefl _), tailNotices_of_pos hpos]
  exact ⟨rfl, _, rfl⟩

/-- A return and a branch cut short: with a count of two the bytes of the branch are announced and
listed. -/
theorem page_announcement_truncated :
    let image : Image := ⟨0x6000, #[0x00, 0x05, 0x12]⟩
    let lines : List Line := [.code ⟨0x6000, Opcode.lookup 0x00, false, [], [0x00]⟩,
      .data 0x6001 0x05, .data 0x6002 0x12]
    image.Fits ∧ (page image ⟨none, none, some 2⟩).result = .ok lines ∧
      (page image ⟨none, none, some 2⟩).notices = [resyncNotice 0x6001 2] ∧
      Announces image 0x6003 (page image ⟨none, none, some 2⟩).notices lines := by
  intro image lines
  have h : image.Fits := by decide
  have hresult : (page image ⟨none, none, some 2⟩).result = .ok lines :=
    (result_page_some 2 (by decide)).trans (congrArg Except.ok (by decide +kernel))
  obtain ⟨hannounces, -⟩ := page_announcement image h none none (some 2) lines hresult
  have hcount : (decoded ((sweep image 0x6000 0x6003).map (·.line))).length = 1 := by
    decide +kernel
  refine ⟨h, hresult, by decide +kernel, hannounces.2 fun hcut => ?_⟩
  exact absurd (Option.some.inj (hcut.1.trans (congrArg some hcount))) (by decide)

/-- With a count of one the bytes of the branch are announced, and the page ends before them. -/
theorem exists_page_announcing_unlisted :
    ¬∀ (image : Image) (start : Option UInt16) (stop : Option UInt32) (count : Option Nat)
      (lines : List Line), image.Fits → (page image ⟨start, stop, count⟩).result = .ok lines →
        Announces image (min (stop.getD image.stop).toNat image.stop.toNat)
          (page image ⟨start, stop, count⟩).notices lines := by
  intro h
  let image : Image := ⟨0x6000, #[0x00, 0x05, 0x12]⟩
  let lines : List Line := [.code ⟨0x6000, Opcode.lookup 0x00, false, [], [0x00]⟩]
  have hresult : (page image ⟨none, none, some 1⟩).result = .ok lines :=
    (result_page_some 1 (by decide)).trans (congrArg Except.ok (by decide +kernel))
  have hnotices : (page image ⟨none, none, some 1⟩).notices = [resyncNotice 0x6001 2] := by
    decide +kernel
  obtain ⟨-, hsilent⟩ := h image none none (some 1) lines (by decide) hresult
  rw [hnotices] at hsilent
  exact hsilent (by decide) _ _ List.mem_cons_self

end GromListing.Listing
