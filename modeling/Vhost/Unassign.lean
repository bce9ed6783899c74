import Vhost.Cut

/-!
# `vhost_dev_unassign_memory`

The code removes the guest range `[start_addr, start_addr + size)` from the table in one pass
over the array, compacting it in place: each region is kept, removed, shrunk (its tail is
removed), shifted (its head is removed), or split (the range lies strictly inside it; the upper
part goes to slot `n`, past the regions of the pass). Counters feed the `assert`s that at most
one region is shrunk, at most one shifted, and that a split excludes every other overlap.

The loop is `unassignIteration` folded over the table; `none` is a failed `assert`. The abstract
side is `VhostMemoryRegion.cut`, the pieces of a region outside the range.

## Main results

* `vhostDevUnassignMemory_eq` — on a table of well-formed, disjoint regions and a range that
  does not wrap, no `assert` fails and the result is the kept pieces with the upper part of a
  split region last
* `vhostDevUnassignMemory_perm` — the result is a reordering of `mem.flatMap (cut s z)`
-/

set_option autoImplicit false

namespace Vhost

open VhostMemoryRegion

/-- The locals of the loop of `vhost_dev_unassign_memory`: the regions written to
`regions[0 .. to)`, the counters `overlap_start`, `overlap_end`, `overlap_middle`, and the
upper part of a split region, which the code writes to `regions[n]` (`split` is nonzero
exactly when it is present). -/
structure UnassignLoop where
  kept : List VhostMemoryRegion
  overlapStart : Nat
  overlapEnd : Nat
  overlapMiddle : Nat
  split : Option VhostMemoryRegion
  deriving DecidableEq, Repr

/-- The loop's start: nothing written, all counters zero. -/
def UnassignLoop.init : UnassignLoop := ⟨[], 0, 0, 0, none⟩

/-- `reg->memory_size = start_addr - reg->guest_phys_addr`: keep the part below `startAddr`. -/
def shrinkRegion (reg : VhostMemoryRegion) (startAddr : Nat) : VhostMemoryRegion :=
  { reg with memorySize := sub64 startAddr reg.guestPhysAddr }

/-- The shift of the code, `reg->memory_size -= change; reg->guest_phys_addr += change;
reg->userspace_addr += change`. -/
def shiftRegion (reg : VhostMemoryRegion) (change : Nat) : VhostMemoryRegion :=
  ⟨add64 reg.guestPhysAddr change, sub64 reg.memorySize change, add64 reg.userspaceAddr change⟩

/-- One iteration of the loop of `vhost_dev_unassign_memory`, on the region `reg` cloned from
`regions[from]`; `none` when an `assert` fails. The split's `assert(nregions == n)` follows from
`assert(!overlap_middle)`, since only a removal lowers `nregions`. -/
def unassignIteration (startAddr size : Nat) (st : UnassignLoop) (reg : VhostMemoryRegion) :
    Option UnassignLoop :=
  if ¬ RangesOverlap reg.guestPhysAddr reg.memorySize startAddr size then
    some { st with kept := st.kept ++ [reg] }
  else if st.split.isSome then none
  else
    let reglast := rangeGetLast reg.guestPhysAddr reg.memorySize
    let memlast := rangeGetLast startAddr size
    let change := sub64 (add64 memlast 1) reg.guestPhysAddr
    if startAddr ≤ reg.guestPhysAddr ∧ reglast ≤ memlast then
      some { st with overlapMiddle := st.overlapMiddle + 1 }
    else if reglast ≤ memlast then
      if (shrinkRegion reg startAddr).memorySize = 0 ∨ st.overlapEnd ≠ 0 then none
      else some { st with kept := st.kept ++ [shrinkRegion reg startAddr],
                          overlapEnd := st.overlapEnd + 1 }
    else if startAddr ≤ reg.guestPhysAddr then
      if (shiftRegion reg change).memorySize = 0 ∨ st.overlapStart ≠ 0 then none
      else some { st with kept := st.kept ++ [shiftRegion reg change],
                          overlapStart := st.overlapStart + 1 }
    else if st.overlapStart ≠ 0 ∨ st.overlapEnd ≠ 0 ∨ st.overlapMiddle ≠ 0 then none
    else if (shrinkRegion reg startAddr).memorySize = 0 ∨
        (shiftRegion reg change).memorySize = 0 then none
    else some { st with kept := st.kept ++ [shrinkRegion reg startAddr],
                        split := some (shiftRegion reg change) }

/-- `vhost_dev_unassign_memory`: the table without `[startAddr, startAddr + size)`, or `none`
when an `assert` fails. The regions of the pass come first, then the upper part of a split. -/
def vhostDevUnassignMemory (mem : List VhostMemoryRegion) (startAddr size : Nat) :
    Option (List VhostMemoryRegion) :=
  (mem.foldlM (unassignIteration startAddr size) UnassignLoop.init).map
    fun st => st.kept ++ st.split.toList

/-! ### The branches on ranges that do not wrap -/

/-- The branch of the loop that a region takes for the range `[s, s + z)`. -/
inductive CutKind
  | keep | remove | shrink | shift | split
  deriving DecidableEq, Repr

namespace VhostMemoryRegion

variable (R : VhostMemoryRegion) (s z : Nat)

/-- The branch of `unassignIteration` that `R` takes, in plain arithmetic. -/
def cutKind : CutKind :=
  if ¬ (R.guestPhysAddr < s + z ∧ s < R.guestEnd) then .keep
  else if s ≤ R.guestPhysAddr ∧ R.guestEnd ≤ s + z then .remove
  else if R.guestEnd ≤ s + z then .shrink
  else if s ≤ R.guestPhysAddr then .shift
  else .split

/-- What the pass writes in the slot of `R`: all of `cut` except the upper part of a split. -/
def keptPart : List VhostMemoryRegion :=
  match R.cutKind s z with
  | .keep => [R]
  | .remove => []
  | .shrink => [R.lowPart s]
  | .shift => [R.highPart (s + z)]
  | .split => [R.lowPart s]

/-- What the pass writes to slot `n` for `R`. -/
def splitPart : List VhostMemoryRegion :=
  if R.cutKind s z = .split then [R.highPart (s + z)] else []

variable {R s z}

theorem cutKind_keep_iff : R.cutKind s z = .keep ↔ ¬ (R.guestPhysAddr < s + z ∧ s < R.guestEnd) := by
  unfold cutKind; split_ifs <;> simp_all

theorem cutKind_split_iff : R.cutKind s z = .split ↔ R.guestPhysAddr < s ∧ s + z < R.guestEnd := by
  unfold cutKind; split_ifs <;> simp only [reduceCtorEq, false_iff, true_iff] <;> omega

theorem cutKind_remove_iff : R.cutKind s z = .remove ↔
    (R.guestPhysAddr < s + z ∧ s < R.guestEnd) ∧ s ≤ R.guestPhysAddr ∧ R.guestEnd ≤ s + z := by
  unfold cutKind; split_ifs <;> simp only [reduceCtorEq, false_iff, true_iff] <;> omega

theorem cutKind_shrink_iff :
    R.cutKind s z = .shrink ↔ R.guestPhysAddr < s ∧ s < R.guestEnd ∧ R.guestEnd ≤ s + z := by
  unfold cutKind; split_ifs <;> simp only [reduceCtorEq, false_iff, true_iff] <;> omega

theorem cutKind_shift_iff :
    R.cutKind s z = .shift ↔ s ≤ R.guestPhysAddr ∧ R.guestPhysAddr < s + z ∧ s + z < R.guestEnd := by
  unfold cutKind; split_ifs <;> simp only [reduceCtorEq, false_iff, true_iff] <;> omega

/-- The slot of `R` and slot `n` together hold the pieces of `R`. -/
theorem keptPart_append_splitPart : R.keptPart s z ++ R.splitPart s z = R.cut s z := by
  unfold keptPart splitPart cut
  cases h : R.cutKind s z
  · simp [cutKind_keep_iff.mp h]
  · obtain ⟨h1, h2, h3⟩ := cutKind_remove_iff.mp h
    simp only [reduceCtorEq, if_false, List.append_nil]
    rw [if_pos h1, if_neg (by omega), if_neg (by omega)]; rfl
  · obtain ⟨h1, h2, h3⟩ := cutKind_shrink_iff.mp h
    simp only [reduceCtorEq, if_false, List.append_nil]
    rw [if_pos (by omega), if_pos h1, if_neg (by omega)]; rfl
  · obtain ⟨h1, h2, h3⟩ := cutKind_shift_iff.mp h
    simp only [reduceCtorEq, if_false, List.append_nil]
    rw [if_pos (by omega), if_neg (by omega), if_pos h3]; rfl
  · obtain ⟨h1, h2⟩ := cutKind_split_iff.mp h
    simp only [if_true]
    rw [if_pos (by omega), if_pos h1, if_pos h2]

end VhostMemoryRegion

/-! ### One iteration -/

section Iteration

variable {R : VhostMemoryRegion} {s z : Nat} {st : UnassignLoop}

private theorem overlap_iff (hR : R.WellFormed) (hN : NoWrap s z) :
    RangesOverlap R.guestPhysAddr R.memorySize s z ↔ R.guestPhysAddr < s + z ∧ s < R.guestEnd :=
  hR.1.rangesOverlap_iff hN

private theorem shrinkRegion_eq (h : R.guestPhysAddr ≤ s) (hs : s < 2 ^ 64) :
    shrinkRegion R s = R.lowPart s := by
  simp only [shrinkRegion, lowPart, sub64_of_le h hs]

private theorem shiftRegion_eq (hR : R.WellFormed) (hN : NoWrap s z)
    (h1 : R.guestPhysAddr < s + z) (h2 : s + z < R.guestEnd) :
    shiftRegion R (sub64 (add64 (rangeGetLast s z) 1) R.guestPhysAddr) = R.highPart (s + z) := by
  have h3 := hR.hostEnd_lt
  rw [hN.rangeGetLast_eq]
  unfold NoWrap at hN
  unfold guestEnd at h2
  simp only [shiftRegion, highPart, guestEnd, hostAddr, VhostMemoryRegion.mk.injEq]
  unfold add64 sub64
  omega

/-- A region the range does not meet is kept as it is. -/
theorem unassignIteration_keep (hR : R.WellFormed) (hN : NoWrap s z) (h : R.cutKind s z = .keep) :
    unassignIteration s z st R = some { st with kept := st.kept ++ [R] } := by
  rw [cutKind_keep_iff, ← overlap_iff hR hN] at h
  simp [unassignIteration, h]

/-- A region inside the range is dropped. -/
theorem unassignIteration_remove (hR : R.WellFormed) (hN : NoWrap s z)
    (h : R.cutKind s z = .remove) (hsplit : st.split = none) :
    unassignIteration s z st R = some { st with overlapMiddle := st.overlapMiddle + 1 } := by
  obtain ⟨hov, h2, h3⟩ := cutKind_remove_iff.mp h
  have hlast : rangeGetLast R.guestPhysAddr R.memorySize ≤ rangeGetLast s z := by
    rw [hR.1.rangeGetLast_eq, hN.rangeGetLast_eq]; unfold guestEnd at h3; omega
  rw [← overlap_iff hR hN] at hov
  simp [unassignIteration, hov, hsplit, h2, hlast]

/-- A region whose tail the range covers keeps its part below the range. -/
theorem unassignIteration_shrink (hR : R.WellFormed) (hN : NoWrap s z)
    (h : R.cutKind s z = .shrink) (hsplit : st.split = none) (hend : st.overlapEnd = 0) :
    unassignIteration s z st R =
      some { st with kept := st.kept ++ [R.lowPart s], overlapEnd := 1 } := by
  obtain ⟨h1, h2, h3⟩ := cutKind_shrink_iff.mp h
  have hE : R.guestEnd = R.guestPhysAddr + R.memorySize := rfl
  have hov : RangesOverlap R.guestPhysAddr R.memorySize s z :=
    (overlap_iff hR hN).mpr ⟨by omega, h2⟩
  have hlast : rangeGetLast R.guestPhysAddr R.memorySize ≤ rangeGetLast s z := by
    rw [hR.1.rangeGetLast_eq, hN.rangeGetLast_eq]; omega
  have hs : s < 2 ^ 64 := by unfold NoWrap at hN; omega
  have hpos : (R.lowPart s).memorySize ≠ 0 := by simp only [lowPart]; omega
  simp [unassignIteration, hov, hsplit, hlast, hend, Nat.not_le.mpr h1, shrinkRegion_eq h1.le hs,
    hpos]

/-- A region whose head the range covers keeps its part above the range. -/
theorem unassignIteration_shift (hR : R.WellFormed) (hN : NoWrap s z)
    (h : R.cutKind s z = .shift) (hsplit : st.split = none) (hstart : st.overlapStart = 0) :
    unassignIteration s z st R =
      some { st with kept := st.kept ++ [R.highPart (s + z)], overlapStart := 1 } := by
  obtain ⟨h1, h2, h3⟩ := cutKind_shift_iff.mp h
  have hE : R.guestEnd = R.guestPhysAddr + R.memorySize := rfl
  have hov : RangesOverlap R.guestPhysAddr R.memorySize s z :=
    (overlap_iff hR hN).mpr ⟨h2, by omega⟩
  have hlast : ¬ rangeGetLast R.guestPhysAddr R.memorySize ≤ rangeGetLast s z := by
    rw [hR.1.rangeGetLast_eq, hN.rangeGetLast_eq]; omega
  have hpos : (R.highPart (s + z)).memorySize ≠ 0 := by simp only [highPart]; omega
  simp [unassignIteration, hov, hsplit, hlast, hstart, h1, shiftRegion_eq hR hN h2 h3, hpos]

/-- A region that strictly contains the range is split; its upper part is set aside. -/
theorem unassignIteration_split (hR : R.WellFormed) (hN : NoWrap s z)
    (h : R.cutKind s z = .split) (hsplit : st.split = none) (hstart : st.overlapStart = 0)
    (hend : st.overlapEnd = 0) (hmid : st.overlapMiddle = 0) :
    unassignIteration s z st R =
      some { st with kept := st.kept ++ [R.lowPart s], split := some (R.highPart (s + z)) } := by
  obtain ⟨h1, h2⟩ := cutKind_split_iff.mp h
  have hE : R.guestEnd = R.guestPhysAddr + R.memorySize := rfl
  have hN' := hN
  unfold NoWrap at hN'
  have hov : RangesOverlap R.guestPhysAddr R.memorySize s z :=
    (overlap_iff hR hN).mpr ⟨by omega, by omega⟩
  have hlast : ¬ rangeGetLast R.guestPhysAddr R.memorySize ≤ rangeGetLast s z := by
    rw [hR.1.rangeGetLast_eq, hN.rangeGetLast_eq]; omega
  have hlow : (R.lowPart s).memorySize ≠ 0 := by simp only [lowPart]; omega
  have hhigh : (R.highPart (s + z)).memorySize ≠ 0 := by simp only [highPart]; omega
  simp [unassignIteration, hov, hsplit, hlast, hstart, hend, hmid, Nat.not_le.mpr h1,
    shrinkRegion_eq h1.le (by omega : s < 2 ^ 64), shiftRegion_eq hR hN (by omega) h2, hlow, hhigh]

end Iteration

/-! ### The whole loop -/

section Loop

variable {R R' : VhostMemoryRegion} {s z : Nat}

/-- A region disjoint from one that the range splits does not meet the range. -/
theorem VhostMemoryRegion.Disjoint.cutKind_keep_of_split (hd : R'.Disjoint R) (h : R.cutKind s z = .split) :
    R'.cutKind s z = .keep := by
  rw [cutKind_split_iff] at h
  rw [cutKind_keep_iff]
  unfold VhostMemoryRegion.Disjoint guestEnd at *; omega

/-- Disjoint regions do not both lose their tails: both would contain `s`. -/
theorem VhostMemoryRegion.Disjoint.not_shrink_shrink (hd : R'.Disjoint R)
    (h' : R'.cutKind s z = .shrink) : R.cutKind s z ≠ .shrink := by
  intro h
  rw [cutKind_shrink_iff] at h h'
  unfold VhostMemoryRegion.Disjoint guestEnd at *; omega

/-- Disjoint regions do not both lose their heads: both would contain `s + z - 1`. -/
theorem VhostMemoryRegion.Disjoint.not_shift_shift (hd : R'.Disjoint R)
    (h' : R'.cutKind s z = .shift) : R.cutKind s z ≠ .shift := by
  intro h
  rw [cutKind_shift_iff] at h h'
  unfold VhostMemoryRegion.Disjoint guestEnd at *; omega

/-- The loop state after the regions `P`, when no `assert` has failed. -/
def unassignPrefix (s z : Nat) (P : List VhostMemoryRegion) : UnassignLoop where
  kept := P.flatMap (·.keptPart s z)
  overlapStart := P.countP (·.cutKind s z = .shift)
  overlapEnd := P.countP (·.cutKind s z = .shrink)
  overlapMiddle := P.countP (·.cutKind s z = .remove)
  split := (P.flatMap (·.splitPart s z)).head?

theorem unassignPrefix_nil : unassignPrefix s z [] = UnassignLoop.init := rfl

private theorem flatMap_splitPart_eq_nil {P : List VhostMemoryRegion}
    (h : ∀ R' ∈ P, R'.cutKind s z ≠ .split) : P.flatMap (·.splitPart s z) = [] := by
  rw [List.flatMap_eq_nil_iff]
  intro R' hR'
  simp [splitPart, h R' hR']

/-- One iteration extends the prefix by one region, when that region is disjoint from the
regions before it. -/
theorem unassignIteration_prefix {P : List VhostMemoryRegion} (hR : R.WellFormed)
    (hN : NoWrap s z) (hP : ∀ R' ∈ P, R'.Disjoint R) :
    unassignIteration s z (unassignPrefix s z P) R = some (unassignPrefix s z (P ++ [R])) := by
  have hsplit (hk : R.cutKind s z ≠ .keep) : (unassignPrefix s z P).split = none := by
    simp only [unassignPrefix, flatMap_splitPart_eq_nil fun R' hR' hs' =>
      hk ((hP R' hR').symm.cutKind_keep_of_split hs'), List.head?_nil]
  have hcount {k : CutKind} (h : ∀ R' ∈ P, R'.cutKind s z ≠ k) :
      P.countP (·.cutKind s z = k) = 0 :=
    List.countP_eq_zero.mpr fun R' hR' => by simpa using h R' hR'
  cases hk : R.cutKind s z with
  | keep =>
    rw [unassignIteration_keep hR hN hk]
    simp [unassignPrefix, keptPart, splitPart, hk]
  | remove =>
    rw [unassignIteration_remove hR hN hk (hsplit (by simp [hk]))]
    simp [unassignPrefix, keptPart, splitPart, hk]
  | shrink =>
    have hend : (unassignPrefix s z P).overlapEnd = 0 :=
      hcount fun R' hR' h' => (hP R' hR').not_shrink_shrink h' hk
    rw [unassignIteration_shrink hR hN hk (hsplit (by simp [hk])) hend]
    simp only [unassignPrefix] at hend
    simp [unassignPrefix, keptPart, splitPart, hk, hend]
  | shift =>
    have hstart : (unassignPrefix s z P).overlapStart = 0 :=
      hcount fun R' hR' h' => (hP R' hR').not_shift_shift h' hk
    rw [unassignIteration_shift hR hN hk (hsplit (by simp [hk])) hstart]
    simp only [unassignPrefix] at hstart
    simp [unassignPrefix, keptPart, splitPart, hk, hstart]
  | split =>
    have hkeep : ∀ R' ∈ P, R'.cutKind s z = .keep := fun R' hR' =>
      (hP R' hR').cutKind_keep_of_split hk
    have hzero {k : CutKind} (hk' : k ≠ .keep) : P.countP (·.cutKind s z = k) = 0 :=
      hcount fun R' hR' h' => hk' (h' ▸ hkeep R' hR')
    have hnil : P.flatMap (·.splitPart s z) = [] :=
      flatMap_splitPart_eq_nil fun R' hR' h' => by simp [hkeep R' hR'] at h'
    rw [unassignIteration_split hR hN hk (hsplit (by simp [hk])) (hzero (by simp))
      (hzero (by simp)) (hzero (by simp))]
    have hRs : R.splitPart s z = [R.highPart (s + z)] := by simp [splitPart, hk]
    simp [unassignPrefix, keptPart, hk, hnil, hzero, hRs]

/-- The loop over the regions `Q`, started after `P`, reaches the prefix state of `P ++ Q`. -/
theorem foldlM_unassignIteration (hN : NoWrap s z) :
    ∀ {P Q : List VhostMemoryRegion}, (∀ R ∈ Q, R.WellFormed) →
      (P ++ Q).Pairwise VhostMemoryRegion.Disjoint →
      Q.foldlM (unassignIteration s z) (unassignPrefix s z P) = some (unassignPrefix s z (P ++ Q))
  | P, [], _, _ => by simp
  | P, R :: Q, hwf, hd => by
    have hP : ∀ R' ∈ P, R'.Disjoint R := fun R' hR' =>
      (List.pairwise_append.mp hd).2.2 R' hR' R (List.mem_cons_self R Q)
    rw [List.foldlM_cons, unassignIteration_prefix (hwf R (List.mem_cons_self R Q)) hN hP]
    have := foldlM_unassignIteration hN (P := P ++ [R]) (Q := Q)
      (fun R' hR' => hwf R' (List.mem_cons_of_mem R hR')) (by simpa using hd)
    simpa using this

/-- In a table of disjoint regions, the range splits at most one region. -/
theorem length_flatMap_splitPart_le {mem : List VhostMemoryRegion}
    (hd : mem.Pairwise VhostMemoryRegion.Disjoint) :
    (mem.flatMap (·.splitPart s z)).length ≤ 1 := by
  induction mem with
  | nil => simp
  | cons R rest ih =>
    rw [List.pairwise_cons] at hd
    by_cases hk : R.cutKind s z = .split
    · have hnil : rest.flatMap (·.splitPart s z) = [] :=
        flatMap_splitPart_eq_nil fun R' hR' h' => by
          simp [(hd.1 R' hR').symm.cutKind_keep_of_split hk] at h'
      rw [List.flatMap_cons, hnil]
      simp [splitPart, hk]
    · simpa [splitPart, hk] using ih hd.2

/-- `vhost_dev_unassign_memory` on a table of well-formed, disjoint regions and a range that
does not wrap: no `assert` fails, and the table becomes the kept pieces followed by the upper
part of a split region. -/
theorem vhostDevUnassignMemory_eq {mem : List VhostMemoryRegion} (hwf : ∀ R ∈ mem, R.WellFormed)
    (hd : mem.Pairwise VhostMemoryRegion.Disjoint) (hN : NoWrap s z) :
    vhostDevUnassignMemory mem s z =
      some (mem.flatMap (·.keptPart s z) ++ mem.flatMap (·.splitPart s z)) := by
  have hloop := foldlM_unassignIteration hN (P := []) hwf (by simpa using hd)
  rw [unassignPrefix_nil] at hloop
  simp only [vhostDevUnassignMemory, hloop, Option.map_some', List.nil_append, unassignPrefix,
    Option.some.injEq, List.append_cancel_left_eq]
  have hle := length_flatMap_splitPart_le (s := s) (z := z) hd
  generalize mem.flatMap (·.splitPart s z) = l at hle ⊢
  match l, hle with
  | [], _ => rfl
  | [_], _ => rfl

private theorem flatMap_append_perm {α β : Type} (l : List α) (f g : α → List β) :
    (l.flatMap f ++ l.flatMap g).Perm (l.flatMap fun a => f a ++ g a) := by
  induction l with
  | nil => simp
  | cons a l ih =>
    simp only [List.flatMap_cons, List.append_assoc]
    exact ((List.perm_append_comm_assoc _ _ _).trans (ih.append_left _)).append_left _

/-- The table after `vhost_dev_unassign_memory` is a reordering of the pieces of its regions
outside the range. -/
theorem vhostDevUnassignMemory_perm {mem mem' : List VhostMemoryRegion}
    (hwf : ∀ R ∈ mem, R.WellFormed) (hd : mem.Pairwise VhostMemoryRegion.Disjoint)
    (hN : NoWrap s z) (h : vhostDevUnassignMemory mem s z = some mem') :
    mem'.Perm (mem.flatMap (·.cut s z)) := by
  rw [vhostDevUnassignMemory_eq hwf hd hN, Option.some.injEq] at h
  subst h
  simpa only [keptPart_append_splitPart] using
    flatMap_append_perm mem (·.keptPart s z) (·.splitPart s z)

/-- On a table whose regions the range does not meet, `vhost_dev_unassign_memory` changes
nothing, whatever the regions. -/
theorem vhostDevUnassignMemory_of_not_overlap {mem : List VhostMemoryRegion}
    (h : ∀ R ∈ mem, ¬ RangesOverlap R.guestPhysAddr R.memorySize s z) :
    vhostDevUnassignMemory mem s z = some mem := by
  suffices hloop : ∀ (st : UnassignLoop) (Q : List VhostMemoryRegion),
      (∀ R ∈ Q, ¬ RangesOverlap R.guestPhysAddr R.memorySize s z) →
      Q.foldlM (unassignIteration s z) st = some { st with kept := st.kept ++ Q } by
    simp [vhostDevUnassignMemory, hloop _ mem h, UnassignLoop.init]
  intro st Q hQ
  induction Q generalizing st with
  | nil => simp
  | cons R Q ih =>
    rw [List.forall_mem_cons] at hQ
    simp [List.foldlM_cons, unassignIteration, hQ.1, ih _ hQ.2]

/-- `vhost_dev_unassign_memory` keeps a valid table valid, never fails an `assert` on it, and
unmaps exactly the removed range. -/
theorem vhostDevUnassignMemory_spec {mem : List VhostMemoryRegion} (hv : TableValid mem)
    (hN : NoWrap s z) :
    ∃ mem', vhostDevUnassignMemory mem s z = some mem' ∧ TableValid mem' ∧
      ∀ a v, Maps mem' a v ↔ ¬ (s ≤ a ∧ a < s + z) ∧ Maps mem a v := by
  obtain ⟨mem', hmem'⟩ : ∃ mem', vhostDevUnassignMemory mem s z = some mem' :=
    ⟨_, vhostDevUnassignMemory_eq hv.wellFormed hv.disjoint hN⟩
  have hp := vhostDevUnassignMemory_perm hv.wellFormed hv.disjoint hN hmem'
  exact ⟨mem', hmem', (hv.flatMap_cut hN).perm hp.symm, fun a v =>
    (Maps.perm hp).trans maps_flatMap_cut⟩

end Loop

end Vhost
