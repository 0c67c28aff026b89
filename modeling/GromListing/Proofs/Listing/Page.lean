import GromListing.Listing.Page
import GromListing.Proofs.Listing.Coverage

/-!
# Pages of a listing

* `map_line_upTo`: a count cuts off the instructions beyond it, and with them the data; a count that
  is not reached cuts off nothing.
* `drop_plainLines`: a listing can be cut after any of its instructions. What follows is the listing
  of the bytes that follow, so a sweep that starts there goes on as the first one did.
* `page_count`: both for pages of an image.
-/

set_option autoImplicit false

namespace GromListing.Listing

/-! ## Counting -/

theorem map_line_upTo {code data : List Line} (hcode : ∀ line ∈ code, line.isData = false)
    (hdata : ∀ line ∈ data, line.isData = true) (k : Nat) (steps : List Step)
    (h : steps.map (·.line) = code ++ data) :
    (upTo k steps).map (·.line) = if k ≤ code.length then code.take k else code ++ data := by
  induction steps generalizing k code data with
  | nil =>
    obtain ⟨rfl, rfl⟩ := List.append_eq_nil_iff.1 h.symm
    simp [upTo]
  | cons step rest ih =>
    rw [List.map_cons] at h
    cases k with
    | zero => simp [upTo]
    | succ k =>
      rw [upTo, if_neg k.succ_ne_zero, List.map_cons, Nat.add_sub_cancel]
      cases code with
      | nil =>
        -- data lines leave the count as it is
        obtain ⟨line, data, rfl⟩ : ∃ line data', data = line :: data' :=
          List.exists_cons_of_ne_nil fun hn => by simp [hn] at h
        obtain ⟨hline, hrest⟩ := List.cons.inj h
        have hstep : step.line.isData = true := hline ▸ hdata line List.mem_cons_self
        have htail := @ih [] data (List.forall_mem_nil _)
          (fun l hl => hdata l (List.mem_cons_of_mem _ hl)) (k + 1) hrest
        rw [if_pos hstep, htail, hline]
        simp
      | cons line code =>
        obtain ⟨hline, hrest⟩ := List.cons.inj h
        have hstep : step.line.isData = false := hline ▸ hcode line List.mem_cons_self
        rw [hstep, if_neg Bool.false_ne_true,
          ih (fun l hl => hcode l (List.mem_cons_of_mem _ hl)) hdata k hrest, hline]
        by_cases hk : k ≤ code.length
        · rw [if_pos hk, if_pos (by simpa using hk), List.take_succ_cons]
        · rw [if_neg hk, if_neg (by simpa using hk), List.cons_append]

/-! ## Going on from an instruction -/

theorem drop_plainLines (k addr : Nat) (bytes : List UInt8)
    (h : ∀ line ∈ (plainLines addr bytes).take k, line.isData = false) :
    let size := (((plainLines addr bytes).take k).flatMap Line.bytes).length
    (plainLines addr bytes).drop k = plainLines (addr + size) (bytes.drop size) := by
  induction k generalizing addr bytes with
  | zero => rfl
  | succ k ih =>
    cases hd : Instruction.decode (UInt16.ofNat addr) bytes with
    | ok inst =>
      rw [plainLines_of_ok hd, List.take_succ_cons] at h
      have hrest := ih _ _ fun line hl => h line (List.mem_cons_of_mem _ hl)
      simp only [plainLines_of_ok hd, List.take_succ_cons, List.drop_succ_cons, List.flatMap_cons,
        List.length_append, hrest, List.drop_drop, Nat.add_assoc]
      rfl
    | error t =>
      rw [plainLines_of_error hd] at h ⊢
      cases bytes with
      | nil => simp [dataLines, plainLines]
      | cons first rest => exact absurd (h _ List.mem_cons_self) Bool.noConfusion

/-- A sweep that starts right behind the first `k` lines of another one lists what that one lists
after them. -/
theorem sweep_resume {image : Image} (h : image.Fits) {start next : UInt16} (stop : UInt32)
    (k : Nat) (hstart : image.origin.toNat ≤ start.toNat)
    (hcode : ∀ line ∈ ((sweep image start stop).map (·.line)).take k, line.isData = false)
    (hnext : next.toNat = start.toNat +
      ((((sweep image start stop).map (·.line)).take k).flatMap Line.bytes).length) :
    (sweep image next stop).map (·.line) = ((sweep image start stop).map (·.line)).drop k := by
  rw [sweep_line_eq h start, Nat.max_eq_left hstart] at hcode hnext ⊢
  rw [sweep_line_eq h next, Nat.max_eq_left (by omega), drop_plainLines k _ _ hcode,
    Image.drop_range hstart, ← hnext]

theorem sweep_code_data {image : Image} (h : image.Fits) (start : UInt16) (stop : UInt32) :
    ∃ code data, (sweep image start stop).map (·.line) = code ++ data ∧
      (∀ line ∈ code, line.isData = false) ∧ ∀ line ∈ data, line.isData = true := by
  rw [sweep_line_eq h]
  obtain ⟨insts, at_, tail, he, -⟩ := plainLines_split (max start.toNat image.origin.toNat)
    (image.range (max start.toNat image.origin.toNat) (min stop.toNat image.stop.toNat))
  exact ⟨insts.map .code, dataLines at_ tail, he, fun line hl => isData_of_mem_code hl,
    fun line hl => (isData_of_mem_dataLines hl).1⟩

/-! ## Pages -/

section

variable {image : Image} {start : Option UInt16} {stop : Option UInt32}

theorem contains_iff (h : image.Fits) (addr : UInt16) :
    image.contains addr.toUInt32 = true ↔
      image.origin.toNat ≤ addr.toNat ∧ addr.toNat < image.origin.toNat + image.bytes.length := by
  rw [Image.contains, Extent.contains_iff, UInt16.toNat_toUInt32, ← h.stop_eq]
  rfl

theorem result_page_none (h : image.contains (start.getD image.origin).toUInt32 = true) :
    (page image ⟨start, stop, none⟩).result =
      .ok ((sweep image (start.getD image.origin) (stop.getD image.stop)).map (·.line)) := by
  simp only [page, h, if_true, pageOf]

theorem result_page_some (count : Nat)
    (h : image.contains (start.getD image.origin).toUInt32 = true) :
    (page image ⟨start, stop, some count⟩).result =
      .ok ((upTo count (sweep image (start.getD image.origin) (stop.getD image.stop))).map
        (·.line)) := by
  simp only [page, h, if_true, pageOf]

/-- A page fails in one way only. -/
theorem result_page_eq_error_iff {count : Option Nat} {fault : Fault} :
    (page image ⟨start, stop, count⟩).result = .error fault ↔
      image.contains (start.getD image.origin).toUInt32 = false ∧
        fault = .startOutside (start.getD image.origin) image.origin image.last := by
  cases hc : image.contains (start.getD image.origin).toUInt32 with
  | false =>
    have hpage : (page image ⟨start, stop, count⟩).result =
        .error (.startOutside (start.getD image.origin) image.origin image.last) := by
      simp only [page, hc, Bool.false_eq_true, if_false]
      rfl
    rw [hpage, Except.error.injEq, eq_comm]
    exact ⟨fun he => ⟨rfl, he⟩, And.right⟩
  | true =>
    cases count with
    | none => simp [result_page_none hc]
    | some k => simp [result_page_some k hc]

end

/-- **Counts and pages.** A listing fails, as a general fault, just when it would start outside the
image. Otherwise the listing without a count is instructions and then data; a count of no more than
the instructions shows so many of them, and a larger one shows everything. A listing that starts
right after the first `k` instructions shows what the whole listing shows after them, so pages put
one after another are the whole listing. -/
theorem page_count (image : Image) (h : image.Fits) (start : Option UInt16)
    (stop : Option UInt32) :
    let first := (start.getD image.origin).toNat
    let last := min (stop.getD image.stop).toNat image.stop.toNat
    let inside := image.origin.toNat ≤ first ∧ first < image.origin.toNat + image.bytes.length
    (∀ count, (∃ fault, (page image ⟨start, stop, count⟩).result = .error fault) ↔ ¬inside) ∧
    (∀ count fault, (page image ⟨start, stop, count⟩).result = .error fault →
      fault.report.kind = .general) ∧
    (inside → ∃ code data,
      (page image ⟨start, stop, none⟩).result = .ok (code ++ data) ∧
      (∀ line ∈ code, line.isData = false) ∧ (∀ line ∈ data, line.isData = true) ∧
      (∀ k, (page image ⟨start, stop, some k⟩).result =
        .ok (if k ≤ code.length then code.take k else code ++ data)) ∧
      ∀ k ≤ code.length,
        let next := first + ((code.take k).flatMap Line.bytes).length
        next < last → ∃ addr : UInt16, addr.toNat = next ∧ ∃ rest,
          (page image ⟨some addr, stop, none⟩).result = .ok rest ∧
          rest = (code ++ data).drop k ∧ code.take k ++ rest = code ++ data) := by
  intro first last inside
  have hinside : image.contains (start.getD image.origin).toUInt32 = true ↔ inside :=
    contains_iff h _
  refine ⟨fun count => ?_, fun count fault hf => ?_, fun hin => ?_⟩
  · simp only [result_page_eq_error_iff, exists_and_left, exists_eq, and_true, ← hinside,
      Bool.not_eq_true]
  · rw [(result_page_eq_error_iff.1 hf).2]
    rfl
  · have hc := hinside.2 hin
    obtain ⟨code, data, hlines, hcode, hdata⟩ :=
      sweep_code_data h (start.getD image.origin) (stop.getD image.stop)
    refine ⟨code, data, ?_, hcode, hdata, fun k => ?_, fun k hk => ?_⟩
    · rw [result_page_none hc, hlines]
    · rw [result_page_some k hc, map_line_upTo hcode hdata k _ hlines]
    · intro next hnext
      have hstop : image.stop.toNat ≤ 0x10000 := h.stop_eq ▸ h
      have htake : (code ++ data).take k = code.take k := List.take_append_of_le_length hk
      have hlt : next < 0x10000 := by omega
      have haddr : (UInt16.ofNat next).toNat = next := UInt16.toNat_ofNat_of_lt' hlt
      have hc' : image.contains (UInt16.ofNat next).toUInt32 = true := by
        rw [contains_iff h, haddr, ← h.stop_eq]
        omega
      have hrest := @sweep_resume image h _ (UInt16.ofNat next) (stop.getD image.stop) k hin.1
        (by
          rw [hlines, htake]
          exact fun line hl => hcode line (List.mem_of_mem_take hl))
        (by rw [hlines, htake, haddr])
      refine ⟨UInt16.ofNat next, haddr, _, @result_page_none image (some _) stop hc', ?_, ?_⟩
      · exact hlines ▸ hrest
      · rw [Option.getD_some, hrest, hlines, ← htake, List.take_append_drop]

/-- A return and a branch cut short: a count of one shows the return, a count of two everything, and
the page after the first is the bytes of the branch. -/
theorem page_count_truncated :
    let image : Image := ⟨0x6000, #[0x00, 0x05, 0x12]⟩
    let code : List Line := [.code ⟨0x6000, Opcode.lookup 0x00, false, [], [0x00]⟩]
    let data : List Line := [.data 0x6001 0x05, .data 0x6002 0x12]
    image.Fits ∧
      (∃ fault, (page image ⟨some 0x7000, none, none⟩).result = .error fault) ∧
      (page image ⟨none, none, some 1⟩).result = .ok code ∧
      (page image ⟨none, none, some 2⟩).result = .ok (code ++ data) ∧
      (page image ⟨some 0x6001, none, none⟩).result = .ok data := by
  intro image code data
  have h : image.Fits := by decide
  obtain ⟨houtside, -⟩ := page_count image h (some 0x7000) none
  obtain ⟨-, -, hinside⟩ := page_count image h none none
  obtain ⟨code', data', hall, hcode, hdata, hcount, hnext⟩ := hinside (by decide)
  have hlines : code' ++ data' = code ++ data :=
    (Except.ok.inj (hall.symm.trans (result_page_none (by decide)))).trans (by decide +kernel)
  have hlen : code'.length = code.length := by
    have hcount := congrArg (List.countP fun line => !line.isData) hlines
    rw [List.countP_append, List.countP_eq_length.2 (by simpa using hcode),
      List.countP_eq_zero.2 (by simpa using hdata)] at hcount
    exact hcount.trans (by decide)
  obtain ⟨rfl, rfl⟩ := List.append_inj hlines hlen
  obtain ⟨addr, haddr, rest, hrest, rfl, -⟩ := hnext 1 (by decide) (by decide)
  obtain rfl : addr = 0x6001 := UInt16.toNat_inj.1 haddr
  exact ⟨h, (houtside none).2 (by decide), hcount 1, hcount 2, hrest⟩

end GromListing.Listing
