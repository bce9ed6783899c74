import Vhost.Device

/-!
# The size of the dirty log

`vhost_get_log_size` is the number of log words the accelerator may write into: one past the
word of the last byte of every region and of every used ring. It is the least number of words
above the word of every such last byte (`vhostGetLogSize_le_iff`), so it grows with what the
table covers.

A region add on a memory region with dirty logging becomes a removal in `vhost_set_memory`,
so it is the effective add, not the listener's event, that never shrinks the log.

## Main results

* `vhostGetLogSize_le_iff` — the log size is the least bound on the words of the last bytes
* `vhostGetLogSize_mono_of_covers` — a table that covers more needs at least as many words
* `vhostSetMemorySection_logSize` — an effective add never shrinks the log size, and a
  removal never grows it
-/

set_option autoImplicit false

namespace Vhost

open VhostMemoryRegion

variable (G : LogGeometry)

/-- `vhost_get_log_size`. -/
def vhostGetLogSize (mem : List VhostMemoryRegion) (vqs : List VhostVirtqueue) : Nat :=
  let logSize := mem.foldl (fun logSize reg =>
    max logSize (rangeGetLast reg.guestPhysAddr reg.memorySize / G.chunk + 1)) 0
  vqs.foldl (fun logSize vq =>
    max logSize (sub64 (add64 vq.usedPhys vq.usedSize) 1 / G.chunk + 1)) logSize

private theorem foldl_max_le_iff {α : Type} (f : α → Nat) (n : Nat) :
    ∀ (l : List α) (init : Nat),
      l.foldl (fun acc x => max acc (f x)) init ≤ n ↔ init ≤ n ∧ ∀ x ∈ l, f x ≤ n
  | [], init => by simp
  | x :: l, init => by
    rw [List.foldl_cons, foldl_max_le_iff f n l, Nat.max_le, List.forall_mem_cons]
    tauto

variable {G}

/-- The log size bounds the word of the last byte of every region and every used ring, and is
the least number that does. -/
theorem vhostGetLogSize_le_iff {mem : List VhostMemoryRegion} {vqs : List VhostVirtqueue}
    {n : Nat} :
    vhostGetLogSize G mem vqs ≤ n ↔
      (∀ R ∈ mem, rangeGetLast R.guestPhysAddr R.memorySize / G.chunk < n) ∧
        ∀ vq ∈ vqs, rangeGetLast vq.usedPhys vq.usedSize / G.chunk < n := by
  simp only [vhostGetLogSize, foldl_max_le_iff, Nat.zero_le, true_and, Nat.succ_le_iff]
  rfl

theorem lt_vhostGetLogSize_of_mem {mem : List VhostMemoryRegion} {vqs : List VhostVirtqueue}
    {R : VhostMemoryRegion} (hR : R ∈ mem) :
    rangeGetLast R.guestPhysAddr R.memorySize / G.chunk < vhostGetLogSize G mem vqs :=
  (vhostGetLogSize_le_iff.mp le_rfl).1 R hR

theorem lt_vhostGetLogSize_of_vq {mem : List VhostMemoryRegion} {vqs : List VhostVirtqueue}
    {vq : VhostVirtqueue} (hvq : vq ∈ vqs) :
    rangeGetLast vq.usedPhys vq.usedSize / G.chunk < vhostGetLogSize G mem vqs :=
  (vhostGetLogSize_le_iff.mp le_rfl).2 vq hvq

/-- A device with a virtqueue needs a log of at least one word. -/
theorem vhostGetLogSize_pos {mem : List VhostMemoryRegion} {vqs : List VhostVirtqueue}
    (h : vqs ≠ []) : 0 < vhostGetLogSize G mem vqs := by
  obtain ⟨vq, hvq⟩ := List.exists_mem_of_ne_nil vqs h
  exact Nat.lt_of_le_of_lt (Nat.zero_le _) (lt_vhostGetLogSize_of_vq hvq)

/-- The guest address `a` lies in a region of the table. -/
def Covered (mem : List VhostMemoryRegion) (a : Nat) : Prop := ∃ R ∈ mem, R.Contains a

/-- A table whose regions do not wrap needs no more log words than any table of regions that
do not wrap and that covers every address it covers. -/
theorem vhostGetLogSize_mono_of_covers {T T' : List VhostMemoryRegion}
    (hT : ∀ R ∈ T, NoWrap R.guestPhysAddr R.memorySize)
    (hT' : ∀ R ∈ T', NoWrap R.guestPhysAddr R.memorySize)
    (hcov : ∀ a, Covered T a → Covered T' a) (vqs : List VhostVirtqueue) :
    vhostGetLogSize G T vqs ≤ vhostGetLogSize G T' vqs := by
  refine vhostGetLogSize_le_iff.mpr ⟨fun R hR => ?_, fun vq hvq => lt_vhostGetLogSize_of_vq hvq⟩
  have hN := hT R hR
  obtain ⟨R', hR', hc⟩ := hcov (R.guestEnd - 1) ⟨R, hR, Contains.of_last hN.1⟩
  have hN' := hT' R' hR'
  have hlast : rangeGetLast R.guestPhysAddr R.memorySize ≤ rangeGetLast R'.guestPhysAddr R'.memorySize := by
    rw [hN.rangeGetLast_eq, hN'.rangeGetLast_eq]
    unfold Contains guestEnd at hc
    omega
  exact Nat.lt_of_le_of_lt (Nat.div_le_div_right hlast) (lt_vhostGetLogSize_of_mem hR')

theorem covered_iff_translate_ne_none {mem : List VhostMemoryRegion} {a : Nat} :
    Covered mem a ↔ translate mem a ≠ none := by
  rw [Ne, translate_eq_none_iff]
  simp [Covered]

/-! ### The log size across a call of `vhost_set_memory` -/

/-- A call of `vhost_set_memory` on a valid table and a section that does not wrap: when it
adds the section (`region_add` on a memory region without dirty logging) the log size does
not shrink, and otherwise it does not grow. -/
theorem vhostSetMemorySection_logSize {mem : List VhostMemoryRegion} (hv : TableValid mem)
    {sec : MemoryRegionSection} (hsec : sec.NoWrap) (add : Bool) (vqs : List VhostVirtqueue) :
    ∃ c mem', vhostSetMemorySection mem sec add = some (c, mem') ∧
      if add && !sec.mr.logging then vhostGetLogSize G mem vqs ≤ vhostGetLogSize G mem' vqs
      else vhostGetLogSize G mem' vqs ≤ vhostGetLogSize G mem vqs := by
  obtain ⟨c, mem', hcall, hv', hmap⟩ := vhostSetMemorySection_spec hv hsec add
  have hwf : ∀ R ∈ mem, NoWrap R.guestPhysAddr R.memorySize := fun R hR => (hv.wellFormed R hR).1
  have hwf' : ∀ R ∈ mem', NoWrap R.guestPhysAddr R.memorySize := fun R hR => (hv'.wellFormed R hR).1
  refine ⟨c, mem', hcall, ?_⟩
  split_ifs with heff
  · refine vhostGetLogSize_mono_of_covers hwf hwf' (fun a ha => ?_) vqs
    rw [covered_iff_translate_ne_none, hmap, overrideMap] at *
    split_ifs <;> simp_all
  · refine vhostGetLogSize_mono_of_covers hwf' hwf (fun a ha => ?_) vqs
    rw [covered_iff_translate_ne_none, hmap, overrideMap] at ha
    rw [covered_iff_translate_ne_none]
    split_ifs at ha <;> simp_all

/-- The log size grows with what the table covers, so an effective add never shrinks it and
an effective removal never grows it. A `region_add` of a section of a memory region with
dirty logging is an effective removal. -/
theorem vhostGetLogSize_monotone :
    (∀ (T T' : List VhostMemoryRegion), (∀ R ∈ T, NoWrap R.guestPhysAddr R.memorySize) →
      (∀ R ∈ T', NoWrap R.guestPhysAddr R.memorySize) → (∀ a, Covered T a → Covered T' a) →
      ∀ vqs, vhostGetLogSize G T vqs ≤ vhostGetLogSize G T' vqs) ∧
    (∀ mem, TableValid mem → ∀ (sec : MemoryRegionSection), sec.NoWrap → ∀ add vqs,
      ∃ c mem', vhostSetMemorySection mem sec add = some (c, mem') ∧
        if add && !sec.mr.logging then vhostGetLogSize G mem vqs ≤ vhostGetLogSize G mem' vqs
        else vhostGetLogSize G mem' vqs ≤ vhostGetLogSize G mem vqs) :=
  ⟨fun _ _ hT hT' hcov vqs => vhostGetLogSize_mono_of_covers hT hT' hcov vqs,
    fun _ hv _ hsec add vqs => vhostSetMemorySection_logSize hv hsec add vqs⟩

/-- `vhostGetLogSize_monotone` on a region and a larger one, and on an add to an empty
table. -/
theorem vhostGetLogSize_monotone_grow :
    vhostGetLogSize .lp64 [⟨0, 0x40000, 0x80000000⟩] [] ≤
        vhostGetLogSize .lp64 [⟨0, 0x80000, 0x80000000⟩] [] ∧
      ∃ c mem', vhostSetMemorySection [] ⟨⟨0, 0x80000000, true, false⟩, true, 0, 0, 0x40000⟩ true =
          some (c, mem') ∧
        vhostGetLogSize .lp64 [] [] ≤ vhostGetLogSize .lp64 mem' [] :=
  ⟨vhostGetLogSize_monotone.1 _ _ (by decide) (by decide)
      (fun a ⟨R, hR, h⟩ => ⟨⟨0, 0x80000, 0x80000000⟩, List.mem_singleton_self _, by
        simp only [List.mem_singleton] at hR; subst hR
        simp only [VhostMemoryRegion.Contains, VhostMemoryRegion.guestEnd] at *; omega⟩) [],
    vhostGetLogSize_monotone.2 [] tableValid_nil _ (by decide) true []⟩

/-- A `region_add` can shrink the log: a section of a memory region with dirty logging is
removed from the table, here the upper half of a region of two log words. -/
theorem vhostSetMemorySection_logging_add_shrinks_log :
    TableValid [⟨0, 0x80000, 0x80000000⟩] ∧
      MemoryRegionSection.NoWrap ⟨⟨0, 0x80040000, true, true⟩, true, 0, 0x40000, 0x40000⟩ ∧
      vhostSetMemorySection [⟨0, 0x80000, 0x80000000⟩]
          ⟨⟨0, 0x80040000, true, true⟩, true, 0, 0x40000, 0x40000⟩ true =
        some (true, [⟨0, 0x40000, 0x80000000⟩]) ∧
      vhostGetLogSize .lp64 [⟨0, 0x80000, 0x80000000⟩] [] = 2 ∧
      vhostGetLogSize .lp64 [⟨0, 0x40000, 0x80000000⟩] [] = 1 :=
  ⟨tableValid_singleton (by decide), by decide, by decide, by decide, by decide⟩

end Vhost
