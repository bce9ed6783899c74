import Vhost.Unassign

/-!
# `vhost_dev_assign_memory`

The code adds the range `[start_addr, start_addr + size)`, backed from `uaddr` on, to a table
that it was just removed from. One pass over the array merges every region that the running
range continues, or that continues it, in both guest and host address: the first such region's
slot holds the running range, later ones are dropped. With no merge the range is appended.

The loop is `assignIteration` folded over the table. Its invariant, `AssignInv`, says what the
running range is made of; on a valid table that the range does not meet, the result is the
range merged with its two possible neighbours, and the other regions unchanged.

## Main results

* `assignIteration_eq` — one iteration in plain arithmetic
* `vhostDevAssignMemory_spec` — on a valid table that does not meet the range, no `assert`
  fails, the table stays valid, and it maps the range as the new mapping says and every other
  address as before
-/

set_option autoImplicit false

namespace Vhost

open VhostMemoryRegion

/-- The locals of the loop of `vhost_dev_assign_memory`: the regions written before the merged
slot (all of them while `merged` is `NULL`), whether a region was merged, the regions written
after the merged slot, and the running range `start_addr`, `size`, `uaddr`, which the merged
slot holds once there is one. -/
structure AssignLoop where
  before : List VhostMemoryRegion
  merged : Bool
  after : List VhostMemoryRegion
  range : VhostMemoryRegion
  deriving DecidableEq, Repr

/-- The region that the running range and `reg` merge into: from `s = MIN(start_addr,
reg->guest_phys_addr)` to `e = MAX(pmlast, prlast)`, so of size `e - s + 1`, from host address
`u = MIN(uaddr, reg->userspace_addr)` on. -/
def mergeRegion (range reg : VhostMemoryRegion) : VhostMemoryRegion :=
  let s := min range.guestPhysAddr reg.guestPhysAddr
  let e := max (rangeGetLast range.guestPhysAddr range.memorySize)
    (rangeGetLast reg.guestPhysAddr reg.memorySize)
  ⟨s, add64 (sub64 e s) 1, min range.userspaceAddr reg.userspaceAddr⟩

/-- One iteration of the loop of `vhost_dev_assign_memory` on the region `reg` cloned from
`regions[from]`; `none` when an `assert` fails. The `assert(to >= 0)` after `--to` holds since
the merged slot lies below `to`. -/
def assignIteration (st : AssignLoop) (reg : VhostMemoryRegion) : Option AssignLoop :=
  let prlast := rangeGetLast reg.guestPhysAddr reg.memorySize
  let pmlast := rangeGetLast st.range.guestPhysAddr st.range.memorySize
  let urlast := rangeGetLast reg.userspaceAddr reg.memorySize
  let umlast := rangeGetLast st.range.userspaceAddr st.range.memorySize
  if ¬ (prlast < st.range.guestPhysAddr ∨ pmlast < reg.guestPhysAddr) then none
  else if (add64 prlast 1 ≠ st.range.guestPhysAddr ∨ add64 urlast 1 ≠ st.range.userspaceAddr) ∧
      (add64 pmlast 1 ≠ reg.guestPhysAddr ∨ add64 umlast 1 ≠ reg.userspaceAddr) then
    some (if st.merged then { st with after := st.after ++ [reg] }
      else { st with before := st.before ++ [reg] })
  else if (mergeRegion st.range reg).memorySize = 0 then none
  else some { st with merged := true, range := mergeRegion st.range reg }

/-- `vhost_dev_assign_memory`: the table with `[startAddr, startAddr + size)` mapped from
`uaddr` on, merged with the regions it continues; `none` when an `assert` fails. -/
def vhostDevAssignMemory (mem : List VhostMemoryRegion) (startAddr size uaddr : Nat) :
    Option (List VhostMemoryRegion) := do
  let st ← mem.foldlM assignIteration ⟨[], false, [], ⟨startAddr, size, uaddr⟩⟩
  if ¬ st.merged ∧ st.range.memorySize = 0 then none
  else
    let table := st.before ++ [st.range] ++ st.after
    if table.length ≤ mem.length + 1 then some table else none

namespace VhostMemoryRegion

/-- `R` followed by `S`, as one region that starts where `R` starts. -/
def append (R S : VhostMemoryRegion) : VhostMemoryRegion :=
  ⟨R.guestPhysAddr, R.memorySize + S.memorySize, R.userspaceAddr⟩

variable {R S T : VhostMemoryRegion} {a : Nat}

theorem within_append_left : R.Within (R.append S) := by
  unfold Within append hostAddr guestEnd; dsimp only; omega

theorem Joinable.within_append_right (h : R.Joinable S) : S.Within (R.append S) := by
  unfold Joinable Within append hostAddr guestEnd at *; dsimp only; omega

@[simp] theorem append_guestPhysAddr : (R.append S).guestPhysAddr = R.guestPhysAddr := rfl

theorem Joinable.append_guestEnd (h : R.Joinable S) : (R.append S).guestEnd = S.guestEnd := by
  unfold Joinable append guestEnd at *; dsimp only; omega

theorem Joinable.contains_append (h : R.Joinable S) :
    (R.append S).Contains a ↔ R.Contains a ∨ S.Contains a := by
  unfold Joinable append Contains guestEnd at *; dsimp only; omega

theorem Joinable.wellFormed_append (h : R.Joinable S) (hR : R.WellFormed) (hS : S.WellFormed) :
    (R.append S).WellFormed := by
  unfold Joinable append WellFormed NoWrap guestEnd at *; dsimp only; omega

/-- The joined region is disjoint from a region that is disjoint from both parts. -/
theorem Joinable.disjoint_append (h : R.Joinable S) (hT : 0 < T.memorySize) (hR : T.Disjoint R)
    (hS : T.Disjoint S) : T.Disjoint (R.append S) := by
  unfold Joinable Disjoint append guestEnd at *; dsimp only; omega

/-- Two nonempty regions that `N` continues from share their last address. -/
theorem Joinable.not_disjoint_left (h : R.Joinable S) (h' : T.Joinable S) (hR : 0 < R.memorySize)
    (hT : 0 < T.memorySize) : ¬ R.Disjoint T := by
  unfold Joinable Disjoint guestEnd at *; omega

/-- Two nonempty regions that continue `N` share their first address. -/
theorem Joinable.not_disjoint_right (h : S.Joinable R) (h' : S.Joinable T) (hR : 0 < R.memorySize)
    (hT : 0 < T.memorySize) : ¬ R.Disjoint T := by
  unfold Joinable Disjoint guestEnd at *; omega

end VhostMemoryRegion

/-! ### One iteration in plain arithmetic -/

section Iteration

variable {st : AssignLoop} {R : VhostMemoryRegion}

private theorem add64_rangeGetLast {g z : Nat} (h : NoWrap g z) :
    add64 (rangeGetLast g z) 1 = g + z := by
  rw [h.rangeGetLast_eq, add64_of_lt (by unfold NoWrap at h; omega)]
  unfold NoWrap at h; omega

/-- Two well-formed regions that continue each other merge into the two joined regions. -/
theorem mergeRegion_eq {X : VhostMemoryRegion} (hR : R.WellFormed) (hX : X.WellFormed)
    (h : R.Joinable X ∨ X.Joinable R) :
    mergeRegion X R = if R.Joinable X then R.append X else X.append R := by
  have h1 := hR.1; have h2 := hX.1; have h3 := hR.2; have h4 := hX.2
  unfold mergeRegion
  rw [hR.1.rangeGetLast_eq, hX.1.rangeGetLast_eq]
  unfold NoWrap at h1 h2 h3 h4
  unfold Joinable guestEnd at h
  split_ifs with hj <;> unfold Joinable guestEnd at * <;>
    simp only [append, VhostMemoryRegion.mk.injEq, add64, sub64] <;> omega

/-- On well-formed regions, an iteration fails exactly when the region overlaps the running
range, merges when either continues the other, and otherwise keeps the region in its place. -/
theorem assignIteration_eq (hR : R.WellFormed) (hX : st.range.WellFormed) :
    assignIteration st R =
      if ¬ R.Disjoint st.range then none
      else if R.Joinable st.range then some { st with merged := true, range := R.append st.range }
      else if st.range.Joinable R then
        some { st with merged := true, range := st.range.append R }
      else some (if st.merged then { st with after := st.after ++ [R] }
        else { st with before := st.before ++ [R] }) := by
  have hRp := hR.size_pos
  have hXp := hX.size_pos
  have hD : (rangeGetLast R.guestPhysAddr R.memorySize < st.range.guestPhysAddr ∨
      rangeGetLast st.range.guestPhysAddr st.range.memorySize < R.guestPhysAddr) ↔
      R.Disjoint st.range := by
    rw [hR.1.rangeGetLast_eq, hX.1.rangeGetLast_eq]; unfold VhostMemoryRegion.Disjoint guestEnd; omega
  have hJ : ((add64 (rangeGetLast R.guestPhysAddr R.memorySize) 1 ≠ st.range.guestPhysAddr ∨
      add64 (rangeGetLast R.userspaceAddr R.memorySize) 1 ≠ st.range.userspaceAddr) ∧
      (add64 (rangeGetLast st.range.guestPhysAddr st.range.memorySize) 1 ≠ R.guestPhysAddr ∨
      add64 (rangeGetLast st.range.userspaceAddr st.range.memorySize) 1 ≠ R.userspaceAddr)) ↔
      ¬ (R.Joinable st.range ∨ st.range.Joinable R) := by
    rw [add64_rangeGetLast hR.1, add64_rangeGetLast hR.2, add64_rangeGetLast hX.1,
      add64_rangeGetLast hX.2]
    unfold Joinable guestEnd; omega
  unfold assignIteration
  simp only [hD, hJ]
  by_cases hd : R.Disjoint st.range
  · by_cases hj : R.Joinable st.range ∨ st.range.Joinable R
    · have hne := mergeRegion_eq hR hX hj
      by_cases h1 : R.Joinable st.range
      · have hpos : (R.append st.range).memorySize ≠ 0 := by simp only [append]; omega
        simp [hd, hj, h1, hne, hpos]
      · have h2 : st.range.Joinable R := hj.resolve_left h1
        have hpos : (st.range.append R).memorySize ≠ 0 := by simp only [append]; omega
        simp [hd, hj, h1, h2, hne, hpos]
    · simp [hd, hj, not_or.mp hj]
  · simp [hd]

end Iteration

/-! ### The loop invariant -/

section Loop

variable (N : VhostMemoryRegion)

/-- The region `R` merges with the new range `N`: one continues the other. -/
def MergesWith (R : VhostMemoryRegion) : Prop := R.Joinable N ∨ N.Joinable R

instance (R : VhostMemoryRegion) : Decidable (MergesWith N R) :=
  inferInstanceAs (Decidable (_ ∨ _))

/-- What the loop state is after the regions `P`, for the new range `N`: the regions kept so
far are those that do not merge with `N`, and the running range is `N` joined with those that
do, no larger, and separate from every kept region. -/
structure AssignInv (P : List VhostMemoryRegion) (st : AssignLoop) : Prop where
  kept : st.before ++ st.after = P.filter fun R => ¬ MergesWith N R
  merged : st.merged = P.any fun R => MergesWith N R
  after_nil : st.merged = false → st.after = []
  wellFormed : st.range.WellFormed
  new_within : N.Within st.range
  merged_within : ∀ M ∈ P, MergesWith N M → M.Within st.range
  start : st.range.guestPhysAddr = N.guestPhysAddr ∨
    ∃ M ∈ P, M.Joinable N ∧ st.range.guestPhysAddr = M.guestPhysAddr
  guestEnd : st.range.guestEnd = N.guestEnd ∨
    ∃ M ∈ P, N.Joinable M ∧ st.range.guestEnd = M.guestEnd
  cover : ∀ a, st.range.Contains a → N.Contains a ∨ ∃ M ∈ P, MergesWith N M ∧ M.Contains a
  separate : ∀ K ∈ P, ¬ MergesWith N K →
    K.Disjoint st.range ∧ ¬ K.Joinable st.range ∧ ¬ st.range.Joinable K

/-- The loop starts from the new range alone. -/
theorem assignInv_init (hN : N.WellFormed) : AssignInv N [] ⟨[], false, [], N⟩ where
  kept := rfl
  merged := rfl
  after_nil _ := rfl
  wellFormed := hN
  new_within := Within.refl
  merged_within := by simp
  start := .inl rfl
  guestEnd := .inl rfl
  cover _ h := .inl h
  separate := by simp

namespace AssignInv

variable {N} {P : List VhostMemoryRegion} {st : AssignLoop} {R : VhostMemoryRegion}

/-- A region disjoint from the new range and from the regions before it is disjoint from the
running range, which is made of those. -/
theorem disjoint_range (inv : AssignInv N P st) (hR : R.WellFormed) (hRN : R.Disjoint N)
    (hP : ∀ M ∈ P, M.Disjoint R) : R.Disjoint st.range := by
  by_contra h
  obtain ⟨a, hRa, hXa⟩ := exists_contains_of_not_disjoint hR.size_pos inv.wellFormed.size_pos h
  rcases inv.cover a hXa with hNa | ⟨M, hM, -, hMa⟩
  · exact hRN.not_contains hRa hNa
  · exact (hP M hM).not_contains hMa hRa

/-- A region that continues into the running range continues into the new range: the running
range starts where `N` starts or where a merged region starts, and the latter is excluded. -/
theorem joinable_new_of_range (inv : AssignInv N P st) (hP : ∀ M ∈ P, M.Separate R)
    (h : R.Joinable st.range) : R.Joinable N := by
  rcases inv.start with hs | ⟨M, hM, hMN, hs⟩
  · exact (inv.new_within.joinable_iff_of_start hs.symm).mpr h
  · exact absurd (((inv.merged_within M hM (.inl hMN)).joinable_iff_of_start hs.symm).mpr h)
      (hP M hM).2

theorem new_joinable_of_range (inv : AssignInv N P st) (hP : ∀ M ∈ P, M.Separate R)
    (h : st.range.Joinable R) : N.Joinable R := by
  rcases inv.guestEnd with he | ⟨M, hM, hNM, he⟩
  · exact (inv.new_within.joinable_iff_of_guestEnd he.symm).mpr h
  · exact absurd (((inv.merged_within M hM (.inr hNM)).joinable_iff_of_guestEnd he.symm).mpr h)
      (hP M hM).1

/-- A region that continues into `N` continues into the running range: no merged region can
also end where `N` starts, since it would overlap the region. -/
theorem range_joinable_of_new (inv : AssignInv N P st) (hR : R.WellFormed)
    (hP : ∀ M ∈ P, M.WellFormed ∧ M.Disjoint R) (h : R.Joinable N) : R.Joinable st.range := by
  rcases inv.start with hs | ⟨M, hM, hMN, hs⟩
  · exact (inv.new_within.joinable_iff_of_start hs.symm).mp h
  · exact absurd (hP M hM).2
      (hMN.not_disjoint_left h (hP M hM).1.size_pos hR.size_pos)

theorem joinable_range_of_new (inv : AssignInv N P st) (hR : R.WellFormed)
    (hP : ∀ M ∈ P, M.WellFormed ∧ M.Disjoint R) (h : N.Joinable R) : st.range.Joinable R := by
  rcases inv.guestEnd with he | ⟨M, hM, hNM, he⟩
  · exact (inv.new_within.joinable_iff_of_guestEnd he.symm).mp h
  · exact absurd (hP M hM).2
      (hNM.not_disjoint_right h (hP M hM).1.size_pos hR.size_pos)

/-- Keeping a region that does not merge preserves the invariant. -/
theorem keep (inv : AssignInv N P st) (hd : R.Disjoint st.range) (h1 : ¬ R.Joinable st.range)
    (h2 : ¬ st.range.Joinable R) (hJ : ¬ MergesWith N R) :
    AssignInv N (P ++ [R]) (if st.merged then { st with after := st.after ++ [R] }
      else { st with before := st.before ++ [R] }) where
  kept := by
    have hk := inv.kept
    cases hm : st.merged
    · simp only [inv.after_nil hm, List.append_nil, Bool.false_eq_true, if_false] at hk ⊢
      simp [hk, hJ]
    · simp only [if_true]
      rw [← List.append_assoc, hk]
      simp [hJ]
  merged := by split <;> simp [inv.merged, hJ]
  after_nil := by split <;> simp_all [inv.after_nil]
  wellFormed := by split <;> exact inv.wellFormed
  new_within := by split <;> exact inv.new_within
  merged_within := by
    split <;> exact fun M hM hMJ => by
      rcases List.mem_append.mp hM with hM | hM
      · exact inv.merged_within M hM hMJ
      · rw [List.mem_singleton.mp hM] at hMJ; exact absurd hMJ hJ
  start := by
    split <;> exact inv.start.imp_right fun ⟨M, hM, h⟩ => ⟨M, List.mem_append_left _ hM, h⟩
  guestEnd := by
    split <;> exact inv.guestEnd.imp_right fun ⟨M, hM, h⟩ => ⟨M, List.mem_append_left _ hM, h⟩
  cover := by
    split <;> exact fun a ha => (inv.cover a ha).imp_right
      fun ⟨M, hM, h⟩ => ⟨M, List.mem_append_left _ hM, h⟩
  separate := by
    split <;> exact fun K hK hKJ => by
      rcases List.mem_append.mp hK with hK | hK
      · exact inv.separate K hK hKJ
      · rw [List.mem_singleton.mp hK]; exact ⟨hd, h1, h2⟩

/-- Merging a region that continues into the running range preserves the invariant. -/
theorem mergeLeft (inv : AssignInv N P st) (hR : R.WellFormed)
    (hP : ∀ M ∈ P, M.WellFormed ∧ M.Disjoint R ∧ M.Separate R) (h1 : R.Joinable st.range)
    (hJN : R.Joinable N) :
    AssignInv N (P ++ [R]) { st with merged := true, range := R.append st.range } where
  kept := by rw [inv.kept]; simp [MergesWith, hJN]
  merged := by simp [MergesWith, hJN]
  after_nil := by simp
  wellFormed := h1.wellFormed_append hR inv.wellFormed
  new_within := inv.new_within.trans h1.within_append_right
  merged_within M hM hMJ := by
    rcases List.mem_append.mp hM with hM | hM
    · exact (inv.merged_within M hM hMJ).trans h1.within_append_right
    · rw [List.mem_singleton.mp hM]; exact within_append_left
  start := .inr ⟨R, List.mem_append_right _ (List.mem_singleton_self R), hJN, rfl⟩
  guestEnd := by
    rw [h1.append_guestEnd]
    exact inv.guestEnd.imp_right fun ⟨M, hM, h⟩ => ⟨M, List.mem_append_left _ hM, h⟩
  cover a ha := by
    rcases h1.contains_append.mp ha with hRa | hXa
    · exact .inr ⟨R, List.mem_append_right _ (List.mem_singleton_self R), .inl hJN, hRa⟩
    · exact (inv.cover a hXa).imp_right fun ⟨M, hM, h⟩ => ⟨M, List.mem_append_left _ hM, h⟩
  separate K hK hKJ := by
    rcases List.mem_append.mp hK with hK | hK
    · obtain ⟨hKd, hKj, hjK⟩ := inv.separate K hK hKJ
      obtain ⟨hKwf, hKR, hsep⟩ := hP K hK
      exact ⟨h1.disjoint_append hKwf.size_pos hKR hKd,
        fun h => hsep.1 (((within_append_left (S := st.range)).joinable_iff_of_start rfl).mpr h),
        fun h => hjK ((h1.within_append_right.joinable_iff_of_guestEnd
          h1.append_guestEnd.symm).mpr h)⟩
    · rw [List.mem_singleton.mp hK] at hKJ; exact absurd (.inl hJN) hKJ

/-- Merging a region that the running range continues into preserves the invariant. -/
theorem mergeRight (inv : AssignInv N P st) (hR : R.WellFormed)
    (hP : ∀ M ∈ P, M.WellFormed ∧ M.Disjoint R ∧ M.Separate R) (h2 : st.range.Joinable R)
    (hNJ : N.Joinable R) :
    AssignInv N (P ++ [R]) { st with merged := true, range := st.range.append R } where
  kept := by rw [inv.kept]; simp [MergesWith, hNJ]
  merged := by simp [MergesWith, hNJ]
  after_nil := by simp
  wellFormed := h2.wellFormed_append inv.wellFormed hR
  new_within := inv.new_within.trans within_append_left
  merged_within M hM hMJ := by
    rcases List.mem_append.mp hM with hM | hM
    · exact (inv.merged_within M hM hMJ).trans within_append_left
    · rw [List.mem_singleton.mp hM]; exact h2.within_append_right
  start := inv.start.imp_right fun ⟨M, hM, h⟩ => ⟨M, List.mem_append_left _ hM, h⟩
  guestEnd := .inr ⟨R, List.mem_append_right _ (List.mem_singleton_self R), hNJ,
    h2.append_guestEnd⟩
  cover a ha := by
    rcases h2.contains_append.mp ha with hXa | hRa
    · exact (inv.cover a hXa).imp_right fun ⟨M, hM, h⟩ => ⟨M, List.mem_append_left _ hM, h⟩
    · exact .inr ⟨R, List.mem_append_right _ (List.mem_singleton_self R), .inr hNJ, hRa⟩
  separate K hK hKJ := by
    rcases List.mem_append.mp hK with hK | hK
    · obtain ⟨hKd, hKj, hjK⟩ := inv.separate K hK hKJ
      obtain ⟨hKwf, hKR, hsep⟩ := hP K hK
      exact ⟨h2.disjoint_append hKwf.size_pos hKd hKR,
        fun h => hKj (((within_append_left (S := R)).joinable_iff_of_start rfl).mpr h),
        fun h => hsep.2 ((h2.within_append_right.joinable_iff_of_guestEnd
          h2.append_guestEnd.symm).mpr h)⟩
    · rw [List.mem_singleton.mp hK] at hKJ; exact absurd (.inr hNJ) hKJ

/-- One iteration on a region disjoint from the new range and from, and separate from, the
regions before it passes its `assert` and preserves the invariant. -/
theorem step (inv : AssignInv N P st) (hR : R.WellFormed) (hRN : R.Disjoint N)
    (hP : ∀ M ∈ P, M.WellFormed ∧ M.Disjoint R ∧ M.Separate R) :
    ∃ st', assignIteration st R = some st' ∧ AssignInv N (P ++ [R]) st' := by
  have hd := inv.disjoint_range hR hRN fun M hM => (hP M hM).2.1
  have hsep : ∀ M ∈ P, M.Separate R := fun M hM => (hP M hM).2.2
  have hwd : ∀ M ∈ P, M.WellFormed ∧ M.Disjoint R := fun M hM => ⟨(hP M hM).1, (hP M hM).2.1⟩
  rw [assignIteration_eq hR inv.wellFormed, if_neg (not_not.mpr hd)]
  by_cases h1 : R.Joinable st.range
  · exact ⟨_, by rw [if_pos h1], inv.mergeLeft hR hP h1 (inv.joinable_new_of_range hsep h1)⟩
  · by_cases h2 : st.range.Joinable R
    · exact ⟨_, by rw [if_neg h1, if_pos h2],
        inv.mergeRight hR hP h2 (inv.new_joinable_of_range hsep h2)⟩
    · refine ⟨_, by rw [if_neg h1, if_neg h2], inv.keep hd h1 h2 ?_⟩
      rintro (h | h)
      · exact h1 (inv.range_joinable_of_new hR hwd h)
      · exact h2 (inv.joinable_range_of_new hR hwd h)

end AssignInv

variable {N}

/-- The loop over `Q`, started after `P` in a state that satisfies the invariant, passes every
`assert` and ends in a state that satisfies the invariant for `P ++ Q`. -/
theorem foldlM_assignIteration :
    ∀ {P Q : List VhostMemoryRegion} {st : AssignLoop}, AssignInv N P st →
      (∀ M ∈ P ++ Q, M.WellFormed) → (∀ R ∈ Q, R.Disjoint N) →
      (P ++ Q).Pairwise (fun A B => A.Disjoint B ∧ A.Separate B) →
      ∃ st', Q.foldlM assignIteration st = some st' ∧ AssignInv N (P ++ Q) st'
  | P, [], st, inv, _, _, _ => ⟨st, rfl, by simpa using inv⟩
  | P, R :: Q, st, inv, hwf, hN, hpw => by
    have hP : ∀ M ∈ P, M.WellFormed ∧ M.Disjoint R ∧ M.Separate R := fun M hM =>
      ⟨hwf M (List.mem_append_left _ hM),
        (List.pairwise_append.mp hpw).2.2 M hM R (List.mem_cons_self R Q)⟩
    obtain ⟨st₁, h₁, inv₁⟩ := inv.step (hwf R (by simp)) (hN R (List.mem_cons_self R Q)) hP
    obtain ⟨st₂, h₂, inv₂⟩ := foldlM_assignIteration (Q := Q) inv₁ (by simpa using hwf)
      (fun R' hR' => hN R' (List.mem_cons_of_mem R hR')) (by simpa using hpw)
    exact ⟨st₂, by rw [List.foldlM_cons, h₁]; exact h₂, by simpa using inv₂⟩

/-- The table the loop leaves, `regions[0 .. to)`, is the running range and the regions that
do not merge with `N`, reordered. -/
theorem AssignInv.perm {mem : List VhostMemoryRegion} {st : AssignLoop} (inv : AssignInv N mem st) :
    (st.before ++ [st.range] ++ st.after).Perm
      (st.range :: mem.filter fun R => ¬ MergesWith N R) := by
  rw [← inv.kept, List.append_assoc, List.singleton_append]
  exact List.perm_middle

/-- The running range and the regions that do not merge with `N` form a valid table. -/
theorem AssignInv.tableValid {mem : List VhostMemoryRegion} {st : AssignLoop}
    (inv : AssignInv N mem st) (hv : TableValid mem) :
    TableValid (st.range :: mem.filter fun R => ¬ MergesWith N R) where
  wellFormed R hR := by
    rcases List.mem_cons.mp hR with rfl | hR
    · exact inv.wellFormed
    · exact hv.wellFormed R (List.mem_of_mem_filter hR)
  disjoint := List.pairwise_cons.mpr ⟨fun K hK =>
      (inv.separate K (List.mem_of_mem_filter hK) (by simpa using (List.mem_filter.mp hK).2)).1.symm,
    hv.disjoint.filter _⟩
  separate := List.pairwise_cons.mpr ⟨fun K hK => by
      obtain ⟨-, h1, h2⟩ :=
        inv.separate K (List.mem_of_mem_filter hK) (by simpa using (List.mem_filter.mp hK).2)
      exact ⟨h2, h1⟩,
    hv.separate.filter _⟩

/-- The running range maps `N` as `N` does and every merged region as that region does. -/
theorem AssignInv.maps_iff {mem : List VhostMemoryRegion} {st : AssignLoop}
    (inv : AssignInv N mem st) {a v : Nat} :
    Maps (st.range :: mem.filter fun R => ¬ MergesWith N R) a v ↔
      (N.Contains a ∧ N.hostAddr a = v) ∨ Maps mem a v := by
  rw [maps_cons]
  constructor
  · rintro (⟨ha, rfl⟩ | ⟨K, hK, hKa, rfl⟩)
    · rcases inv.cover a ha with hNa | ⟨M, hM, hMJ, hMa⟩
      · exact .inl ⟨hNa, inv.new_within.hostAddr_eq hNa⟩
      · exact .inr ⟨M, hM, hMa, (inv.merged_within M hM hMJ).hostAddr_eq hMa⟩
    · exact .inr ⟨K, List.mem_of_mem_filter hK, hKa, rfl⟩
  · rintro (⟨hNa, rfl⟩ | ⟨M, hM, hMa, rfl⟩)
    · exact .inl ⟨inv.new_within.contains hNa, (inv.new_within.hostAddr_eq hNa).symm⟩
    · by_cases hMJ : MergesWith N M
      · have hw := inv.merged_within M hM hMJ
        exact .inl ⟨hw.contains hMa, (hw.hostAddr_eq hMa).symm⟩
      · exact .inr ⟨M, List.mem_filter.mpr ⟨hM, by simpa using hMJ⟩, hMa, rfl⟩

/-- `vhost_dev_assign_memory` on a valid table that does not meet the new range `N`: no
`assert` fails, the table stays valid, it maps `N` as `N` says and every other address as
before, and it is the merge of `N` with its neighbours and the other regions, reordered. -/
theorem vhostDevAssignMemory_spec {mem : List VhostMemoryRegion} (hv : TableValid mem)
    (hN : N.WellFormed) (hdisj : ∀ R ∈ mem, R.Disjoint N) :
    ∃ mem' X, vhostDevAssignMemory mem N.guestPhysAddr N.memorySize N.userspaceAddr = some mem' ∧
      mem'.Perm (X :: mem.filter fun R => ¬ MergesWith N R) ∧ TableValid mem' ∧
      ∀ a v, Maps mem' a v ↔ (N.Contains a ∧ N.hostAddr a = v) ∨ Maps mem a v := by
  obtain ⟨st, hst, inv⟩ := foldlM_assignIteration (P := []) (assignInv_init N hN)
    (by simpa using hv.wellFormed) hdisj (by simpa using hv.disjoint.and hv.separate)
  rw [List.nil_append] at inv
  have hsize : st.range.memorySize ≠ 0 := inv.wellFormed.size_pos.ne'
  have hlen : (st.before ++ [st.range] ++ st.after).length ≤ mem.length + 1 := by
    rw [inv.perm.length_eq, List.length_cons]
    exact Nat.succ_le_succ (List.length_filter_le _ _)
  refine ⟨_, st.range, ?_, inv.perm, (inv.tableValid hv).perm inv.perm.symm,
    fun a v => (Maps.perm inv.perm).trans inv.maps_iff⟩
  have hinit : (⟨[], false, [], ⟨N.guestPhysAddr, N.memorySize, N.userspaceAddr⟩⟩ : AssignLoop) =
      ⟨[], false, [], N⟩ := rfl
  simp only [vhostDevAssignMemory, hinit, hst, Option.bind_eq_bind, Option.some_bind, hsize,
    and_false, if_false, hlen, if_true]

end Loop

end Vhost
