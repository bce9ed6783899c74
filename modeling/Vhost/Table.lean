import Vhost.Assign

/-!
# The region table side of `vhost_set_memory`

`vhost_set_memory` first brings `dev->mem` up to date with a memory section: it skips the work
when nothing changes (`vhost_dev_cmp_memory` for an add, `vhost_dev_find_reg` for a removal),
and otherwise removes the section's guest range and, for an add, maps it again. A section of a
memory region with dirty logging is always removed.

## Main definitions

* `MemoryRegionSection` — what the listener reads of a section
* `vhostDevFindReg`, `vhostDevCmpMemory` — the no-change checks
* `vhostSetMemoryRegions` — the table half of `vhost_set_memory`
* `overrideMap` — the map of a table after one add or removal
* `RegionTable`, `RegionTable.setMemory` — valid tables, and the update on them

## Main results

* `vhostSetMemoryRegions_spec` — one call keeps a valid table valid, fails no `assert`, and
  overrides its map on the section's range
* `vhostDevCmpMemory_eq_false_iff` — the fast path reads exactly whether one region already
  maps the range as asked
-/

set_option autoImplicit false

namespace Vhost

open VhostMemoryRegion

/-- What the listener reads of a `MemoryRegion`: its identity, the host address of its RAM
(`memory_region_get_ram_ptr`), whether it is RAM, and whether dirty logging is on for it. -/
structure MemoryRegion where
  id : Nat
  ramPtr : Nat
  isRam : Bool
  logging : Bool
  deriving DecidableEq, Repr

/-- A `MemoryRegionSection`: a range of an address space backed by part of a memory region.
`systemMemory` says whether its address space is `get_system_memory()`. -/
structure MemoryRegionSection where
  mr : MemoryRegion
  systemMemory : Bool
  offsetWithinRegion : Nat
  offsetWithinAddressSpace : Nat
  size : Nat
  deriving DecidableEq, Repr

namespace MemoryRegionSection

variable (sec : MemoryRegionSection)

/-- `memory_region_get_ram_ptr(section->mr) + section->offset_within_region`. -/
def ram : Nat := add64 sec.mr.ramPtr sec.offsetWithinRegion

/-- The section's guest range and its host range are nonempty and do not wrap. -/
def NoWrap : Prop := Vhost.NoWrap sec.offsetWithinAddressSpace sec.size ∧ Vhost.NoWrap sec.ram sec.size

instance : Decidable sec.NoWrap := inferInstanceAs (Decidable (_ ∧ _))

end MemoryRegionSection

/-- `vhost_dev_find_reg`: the first region that overlaps `[startAddr, startAddr + size)`. -/
def vhostDevFindReg (mem : List VhostMemoryRegion) (startAddr size : Nat) :
    Option VhostMemoryRegion :=
  mem.find? fun reg => decide (RangesOverlap reg.guestPhysAddr reg.memorySize startAddr size)

/-- `vhost_dev_cmp_memory`: whether the table must change so that it maps
`[startAddr, startAddr + size)` from `uaddr` on; `false` when the first overlapping region
already covers the range at that address. -/
def vhostDevCmpMemory (mem : List VhostMemoryRegion) (startAddr size uaddr : Nat) : Bool :=
  match vhostDevFindReg mem startAddr size with
  | none => true
  | some reg =>
    let reglast := rangeGetLast reg.guestPhysAddr reg.memorySize
    let memlast := rangeGetLast startAddr size
    if startAddr < reg.guestPhysAddr ∨ memlast > reglast then true
    else uaddr != sub64 (add64 reg.userspaceAddr startAddr) reg.guestPhysAddr

/-- The table half of `vhost_set_memory` for the range `[startAddr, startAddr + size)` backed
from `ram` on, once `add` has been cleared for a logging region: `none` when an `assert`
fails, else whether the code went past its no-change checks, and the new table. The code has
just grown the array with `g_realloc` to room for `nregions + 1` regions. -/
def vhostSetMemoryRegions (mem : List VhostMemoryRegion) (startAddr size ram : Nat) (add : Bool) :
    Option (Bool × List VhostMemoryRegion) :=
  if size = 0 then none
  else if add then
    if !vhostDevCmpMemory mem startAddr size ram then some (false, mem)
    else do
      let mem ← vhostDevUnassignMemory mem startAddr size
      let mem ← vhostDevAssignMemory mem startAddr size ram
      some (true, mem)
  else if vhostDevFindReg mem startAddr size = none then some (false, mem)
  else do
    let mem ← vhostDevUnassignMemory mem startAddr size
    let mem ← vhostDevUnassignMemory mem startAddr size
    some (true, mem)

/-- The table half of `vhost_set_memory` on a section: a section of a logging region is
removed even on `region_add`. -/
def vhostSetMemorySection (mem : List VhostMemoryRegion) (sec : MemoryRegionSection) (add : Bool) :
    Option (Bool × List VhostMemoryRegion) :=
  vhostSetMemoryRegions mem sec.offsetWithinAddressSpace sec.size sec.ram (add && !sec.mr.logging)

/-- The map of a table after `[start, start + size)` is mapped from `ram` on (`add`) or
unmapped. -/
def overrideMap (m : Nat → Option Nat) (start size ram : Nat) (add : Bool) : Nat → Option Nat :=
  fun a => if start ≤ a ∧ a < start + size then (if add then some (ram + (a - start)) else none)
    else m a

/-! ### The no-change checks -/

section Checks

variable {mem : List VhostMemoryRegion} {s z u : Nat}

theorem vhostDevFindReg_eq_none_iff :
    vhostDevFindReg mem s z = none ↔ ∀ R ∈ mem, ¬ RangesOverlap R.guestPhysAddr R.memorySize s z := by
  simp [vhostDevFindReg, List.find?_eq_none]

/-- On a valid table, a region overlaps the range exactly when it shares an address with it. -/
theorem overlap_iff_exists {R : VhostMemoryRegion} (hR : R.WellFormed) (hN : NoWrap s z) :
    RangesOverlap R.guestPhysAddr R.memorySize s z ↔ ∃ a, R.Contains a ∧ s ≤ a ∧ a < s + z := by
  rw [hR.1.rangesOverlap_iff hN]
  have hpos := hR.size_pos
  have hz := hN.1
  constructor
  · rintro ⟨h1, h2⟩
    exact ⟨max R.guestPhysAddr s, by unfold Contains guestEnd at *; omega⟩
  · rintro ⟨a, ⟨h1, h2⟩, h3, h4⟩
    unfold guestEnd at *; omega

/-- `vhost_dev_find_reg` finds nothing exactly when no region maps an address of the range. -/
theorem vhostDevFindReg_eq_none_iff_maps (hv : TableValid mem) (hN : NoWrap s z) :
    vhostDevFindReg mem s z = none ↔ ∀ a v, s ≤ a → a < s + z → ¬ Maps mem a v := by
  rw [vhostDevFindReg_eq_none_iff]
  constructor
  · rintro h a v h1 h2 ⟨R, hR, hRa, -⟩
    exact h R hR ((overlap_iff_exists (hv.wellFormed R hR) hN).mpr ⟨a, hRa, h1, h2⟩)
  · intro h R hR hov
    obtain ⟨a, hRa, h1, h2⟩ := (overlap_iff_exists (hv.wellFormed R hR) hN).mp hov
    exact h a _ h1 h2 ⟨R, hR, hRa, rfl⟩

/-- The fast path of an add: `vhost_dev_cmp_memory` says no change is needed exactly when one
region covers the range and maps its start to `u`. -/
theorem vhostDevCmpMemory_eq_false_iff (hv : TableValid mem) (hN : NoWrap s z) :
    vhostDevCmpMemory mem s z u = false ↔
      ∃ R ∈ mem, R.guestPhysAddr ≤ s ∧ s + z ≤ R.guestEnd ∧ u = R.hostAddr s := by
  have hz := hN.1
  unfold vhostDevCmpMemory
  split
  · rename_i hnone
    simp only [Bool.true_eq_false, false_iff, not_exists, not_and]
    intro R hR h1 h2 _
    exact vhostDevFindReg_eq_none_iff.mp hnone R hR
      ((hv.wellFormed R hR).1.rangesOverlap_iff hN |>.mpr (by unfold guestEnd at h2; omega))
  · rename_i R hfind
    have hRmem : R ∈ mem := List.mem_of_find?_eq_some hfind
    have hwf := hv.wellFormed R hRmem
    have hov : RangesOverlap R.guestPhysAddr R.memorySize s z := by
      simpa using List.find?_some hfind
    obtain ⟨a, hRa, ha⟩ := (overlap_iff_exists hwf hN).mp hov
    rw [hwf.1.rangesOverlap_iff hN] at hov
    rw [hwf.1.rangeGetLast_eq, hN.rangeGetLast_eq]
    have hE : R.guestEnd = R.guestPhysAddr + R.memorySize := rfl
    have hwf' := hwf.2.2
    dsimp only
    constructor
    · intro h
      split_ifs at h with hc
      simp only [bne_eq_false_iff_eq] at h
      rw [sub64_add64 (by omega) (by omega)] at h
      exact ⟨R, hRmem, by omega, by omega, by unfold hostAddr; omega⟩
    · rintro ⟨R', hR', h1, h2, rfl⟩
      have hR'R : R' = R :=
        eq_of_contains hv.disjoint hR' hRmem (a := a) (by unfold Contains; omega) hRa
      subst hR'R
      rw [if_neg (by omega), sub64_add64 (by omega) (by omega)]
      simp [hostAddr]
      omega

end Checks

/-! ### One call -/

section Step

variable {mem : List VhostMemoryRegion} {s z u : Nat}

/-- A table whose `Maps` relation is the old one overridden on the range has the overridden
map. -/
theorem translate_eq_overrideMap {mem' : List VhostMemoryRegion} {add : Bool} (hv : TableValid mem)
    (hv' : TableValid mem')
    (h : ∀ a v, Maps mem' a v ↔
      if s ≤ a ∧ a < s + z then add = true ∧ v = u + (a - s) else Maps mem a v) :
    translate mem' = overrideMap (translate mem) s z u add := by
  funext a
  refine Option.ext fun v => ?_
  show translate mem' a = some v ↔ overrideMap (translate mem) s z u add a = some v
  rw [translate_eq_some_iff hv'.disjoint, h, overrideMap]
  split_ifs <;> simp [translate_eq_some_iff hv.disjoint, *, eq_comm]

/-- After removing the range, no region of a table meets the region that maps it anew. -/
theorem disjoint_of_maps_not_mem {N : VhostMemoryRegion} (hv : TableValid mem) (hN : 0 < N.memorySize)
    (h : ∀ a v, Maps mem a v → ¬ N.Contains a) : ∀ R ∈ mem, R.Disjoint N := by
  intro R hR
  by_contra hRN
  obtain ⟨a, hRa, hNa⟩ := exists_contains_of_not_disjoint (hv.wellFormed R hR).size_pos hN hRN
  exact h a _ ⟨R, hR, hRa, rfl⟩ hNa

/-- Removing the range and mapping it again from `u` on overrides the map on the range. -/
theorem unassign_assign_spec (hv : TableValid mem) (hN : NoWrap s z) (hU : NoWrap u z) :
    ∃ mem', ((vhostDevUnassignMemory mem s z).bind fun m => vhostDevAssignMemory m s z u) = some mem' ∧
      TableValid mem' ∧ translate mem' = overrideMap (translate mem) s z u true := by
  obtain ⟨m₁, hm₁, hv₁, hmaps₁⟩ := vhostDevUnassignMemory_spec hv hN
  let N : VhostMemoryRegion := ⟨s, z, u⟩
  have hdisj : ∀ R ∈ m₁, R.Disjoint N := disjoint_of_maps_not_mem hv₁ hN.1 fun a v hm hNa =>
    ((hmaps₁ a v).mp hm).1 hNa
  obtain ⟨m₂, X, hm₂, -, hv₂, hmaps₂⟩ := vhostDevAssignMemory_spec hv₁ (N := N) ⟨hN, hU⟩ hdisj
  refine ⟨m₂, by simp [hm₁, hm₂], hv₂, translate_eq_overrideMap hv hv₂ fun a v => ?_⟩
  rw [hmaps₂, hmaps₁]
  split_ifs with ha
  · simp [N, Contains, guestEnd, hostAddr, ha, eq_comm]
  · simp [N, Contains, guestEnd, ha]

/-- The table half of `vhost_set_memory`, on a valid table and a range that does not wrap,
fails no `assert`, keeps the table valid, and maps the range from `u` on for an add and not at
all for a removal. -/
theorem vhostSetMemoryRegions_spec (hv : TableValid mem) (hN : NoWrap s z) (hU : NoWrap u z)
    (add : Bool) :
    ∃ c mem', vhostSetMemoryRegions mem s z u add = some (c, mem') ∧ TableValid mem' ∧
      translate mem' = overrideMap (translate mem) s z u add := by
  have hz : z ≠ 0 := hN.1.ne'
  unfold vhostSetMemoryRegions
  rw [if_neg hz]
  cases add with
  | true =>
    cases hcmp : vhostDevCmpMemory mem s z u with
    | false =>
      obtain ⟨R, hR, h1, h2, rfl⟩ := (vhostDevCmpMemory_eq_false_iff hv hN).mp hcmp
      refine ⟨false, mem, rfl, hv, translate_eq_overrideMap hv hv fun a v => ?_⟩
      split_ifs with ha
      · have hRa : R.Contains a := by unfold Contains; omega
        rw [maps_iff_of_contains hv.disjoint hR hRa]
        unfold hostAddr
        constructor <;> intro h <;> simp only [true_and] at * <;> omega
      · rfl
    | true =>
      obtain ⟨m₂, hm₂, hv₂, hmap⟩ := unassign_assign_spec hv hN hU
      refine ⟨true, m₂, ?_, hv₂, hmap⟩
      simp only [Bool.not_true, Bool.false_eq_true, if_false, if_true, Option.bind_eq_bind]
      rw [← Option.bind_assoc, hm₂]; rfl
  | false =>
    simp only [Bool.false_eq_true, if_false]
    split_ifs with hfind
    · refine ⟨false, mem, rfl, hv, translate_eq_overrideMap hv hv fun a v => ?_⟩
      split_ifs with ha
      · simpa using (vhostDevFindReg_eq_none_iff_maps hv hN).mp hfind a v ha.1 ha.2
      · rfl
    · obtain ⟨m₁, hm₁, hv₁, hmaps₁⟩ := vhostDevUnassignMemory_spec hv hN
      obtain ⟨m₂, hm₂, hv₂, hmaps₂⟩ := vhostDevUnassignMemory_spec hv₁ hN
      refine ⟨true, m₂, by simp [hm₁, hm₂], hv₂, translate_eq_overrideMap hv hv₂ fun a v => ?_⟩
      rw [hmaps₂, hmaps₁]
      split_ifs with ha <;> simp [ha]

/-- A table half that reports no change returns the table it was given. -/
theorem vhostSetMemoryRegions_unchanged {mem' : List VhostMemoryRegion} {add : Bool}
    (h : vhostSetMemoryRegions mem s z u add = some (false, mem')) : mem' = mem := by
  unfold vhostSetMemoryRegions at h
  split_ifs at h <;> simp_all [Option.bind_eq_some]

/-- The table half of `vhost_set_memory` on a section whose ranges do not wrap. -/

theorem vhostSetMemorySection_spec {sec : MemoryRegionSection} (hv : TableValid mem)
    (hsec : sec.NoWrap) (add : Bool) :
    ∃ c mem', vhostSetMemorySection mem sec add = some (c, mem') ∧ TableValid mem' ∧
      translate mem' = overrideMap (translate mem) sec.offsetWithinAddressSpace sec.size sec.ram
        (add && !sec.mr.logging) :=
  vhostSetMemoryRegions_spec hv hsec.1 hsec.2 _

end Step

/-! ### Runs of calls -/

/-- The tables along a sequence of `vhost_set_memory` calls, each a section and whether it is
added: `none` once an `assert` fails. -/
def setMemoryRun : List VhostMemoryRegion → List (MemoryRegionSection × Bool) →
    Option (List VhostMemoryRegion)
  | mem, [] => some mem
  | mem, (sec, add) :: rest => do
    let (_, mem) ← vhostSetMemorySection mem sec add
    setMemoryRun mem rest

section Run

theorem setMemoryRun_append (mem : List VhostMemoryRegion) (l₁ l₂ : List (MemoryRegionSection × Bool)) :
    setMemoryRun mem (l₁ ++ l₂) = (setMemoryRun mem l₁).bind fun T => setMemoryRun T l₂ := by
  induction l₁ generalizing mem with
  | nil => rfl
  | cons e rest ih =>
    obtain ⟨sec, add⟩ := e
    rw [List.cons_append]
    simp only [setMemoryRun, Option.bind_eq_bind, Option.bind_assoc]
    congr 1
    funext r
    exact ih r.2

/-- A run of calls on sections that do not wrap fails no `assert` and ends in a valid table. -/
theorem setMemoryRun_tableValid {mem : List VhostMemoryRegion} (hv : TableValid mem)
    {events : List (MemoryRegionSection × Bool)} (hev : ∀ e ∈ events, e.1.NoWrap) :
    ∃ T, setMemoryRun mem events = some T ∧ TableValid T := by
  induction events generalizing mem with
  | nil => exact ⟨mem, rfl, hv⟩
  | cons e rest ih =>
    obtain ⟨sec, add⟩ := e
    obtain ⟨c, m, hm, hvm, -⟩ := vhostSetMemorySection_spec hv (hev _ (List.mem_cons_self _ _)) add
    obtain ⟨T, hT, hvT⟩ := ih hvm fun e he => hev e (List.mem_cons_of_mem _ he)
    exact ⟨T, by simp [setMemoryRun, hm, hT], hvT⟩

/-- Along any run of calls on sections that do not wrap, starting from a valid table, no
`assert` fails, every table is valid, and each call overrides the map of the table before it
on the section's range: from the section's RAM on for an add of a region without dirty
logging, and not at all otherwise. -/
theorem setMemoryRun_spec {mem : List VhostMemoryRegion} (hv : TableValid mem)
    (events : List (MemoryRegionSection × Bool)) (hev : ∀ e ∈ events, e.1.NoWrap)
    (sec : MemoryRegionSection) (add : Bool) (hsec : sec.NoWrap) :
    ∃ T T', setMemoryRun mem events = some T ∧ setMemoryRun mem (events ++ [(sec, add)]) = some T' ∧
      TableValid T ∧ TableValid T' ∧
      translate T' = overrideMap (translate T) sec.offsetWithinAddressSpace sec.size sec.ram
        (add && !sec.mr.logging) := by
  obtain ⟨T, hT, hvT⟩ := setMemoryRun_tableValid hv hev
  obtain ⟨c, T', hT', hvT', hmap⟩ := vhostSetMemorySection_spec hvT hsec add
  refine ⟨T, T', hT, ?_, hvT, hvT', hmap⟩
  simp [setMemoryRun_append, hT, setMemoryRun, hT']

/-- `setMemoryRun_spec` on calls that stay within the `nregions + 1` slots `vhost_set_memory`
reallocates: a range of its own added to a one-region table, then the upper half of the first
region removed. -/
theorem setMemoryRun_spec_add_then_trim :
    ∃ T T', setMemoryRun [⟨0, 0x10000, 0x80000000⟩]
        [(⟨⟨1, 0x90000000, true, false⟩, true, 0, 0x20000, 0x4000⟩, true)] = some T ∧
      setMemoryRun [⟨0, 0x10000, 0x80000000⟩]
        ([(⟨⟨1, 0x90000000, true, false⟩, true, 0, 0x20000, 0x4000⟩, true)] ++
          [(⟨⟨0, 0x80000000, true, false⟩, true, 0x8000, 0x8000, 0x8000⟩, false)]) = some T' ∧
      TableValid T ∧ TableValid T' ∧
      translate T' = overrideMap (translate T) 0x8000 0x8000 (add64 0x80000000 0x8000) false :=
  setMemoryRun_spec (tableValid_singleton (by decide))
    _ (by decide) ⟨⟨0, 0x80000000, true, false⟩, true, 0x8000, 0x8000, 0x8000⟩ false (by decide)

end Run

/-! ### The fast paths agree with the slow path -/

section FastPath

variable {mem : List VhostMemoryRegion} {s z u : Nat}

theorem overrideMap_true_eq_self_iff {m : Nat → Option Nat} :
    overrideMap m s z u true = m ↔ ∀ a, s ≤ a → a < s + z → m a = some (u + (a - s)) := by
  constructor
  · intro h a h1 h2
    rw [← h]
    simp [overrideMap, h1, h2]
  · intro h
    funext a
    simp only [overrideMap, ↓reduceIte]
    split_ifs with ha
    · exact (h a ha.1 ha.2).symm
    · rfl

/-- In a merge-maximal table, a region that maps the start of the range as `u` does and whose
continuation the table maps on as `u` does covers the whole range: otherwise the region
holding the address right after it would continue it in both guest and host address. -/
theorem covers_of_maps {R : VhostMemoryRegion} (hv : TableValid mem) (hR : R ∈ mem)
    (hs : R.Contains s) (h : ∀ a, s ≤ a → a < s + z → Maps mem a (R.hostAddr s + (a - s))) :
    s + z ≤ R.guestEnd := by
  by_contra hlt
  have hE : R.guestEnd = R.guestPhysAddr + R.memorySize := rfl
  unfold Contains at hs
  obtain ⟨R', hR', hR'a, hv'⟩ := h R.guestEnd (by omega) (by omega)
  have hne : R ≠ R' := by rintro rfl; unfold Contains at hR'a; omega
  have hd := hv.disjoint.forall (fun _ _ => VhostMemoryRegion.Disjoint.symm) hR hR' hne
  have hsep := hv.separate.forall (fun _ _ => Separate.symm) hR hR' hne
  apply hsep.1
  unfold Joinable VhostMemoryRegion.Disjoint Contains guestEnd hostAddr at *
  constructor <;> omega

/-- On a merge-maximal table, the range is already mapped from `u` on exactly when one region
covers it and maps its start to `u`. -/
theorem maps_range_iff (hv : TableValid mem) (hN : NoWrap s z) :
    (∀ a, s ≤ a → a < s + z → translate mem a = some (u + (a - s))) ↔
      ∃ R ∈ mem, R.guestPhysAddr ≤ s ∧ s + z ≤ R.guestEnd ∧ u = R.hostAddr s := by
  simp only [translate_eq_some_iff hv.disjoint]
  constructor
  · intro h
    obtain ⟨R, hR, hRs, hRu⟩ := h s le_rfl (by have := hN.1; omega)
    have hu : R.hostAddr s = u := by simpa using hRu
    exact ⟨R, hR, hRs.1, covers_of_maps hv hR hRs (hu ▸ h), hu.symm⟩
  · rintro ⟨R, hR, h1, h2, rfl⟩ a ha1 ha2
    refine ⟨R, hR, by unfold Contains; omega, ?_⟩
    unfold hostAddr; omega

/-- The fast paths of `vhost_set_memory` agree with its slow path on a valid table:
`vhost_dev_cmp_memory` reports no change exactly when removing the range and mapping it again
from `u` on leaves the map as it was, and `vhost_dev_find_reg` finds nothing exactly when
removing the range leaves the table as it was. -/
theorem fastPath_agrees (hv : TableValid mem) (hN : NoWrap s z) (hU : NoWrap u z) :
    (vhostDevCmpMemory mem s z u = false ↔
      ((vhostDevUnassignMemory mem s z).bind fun m => vhostDevAssignMemory m s z u).map translate =
        some (translate mem)) ∧
    (vhostDevFindReg mem s z = none ↔ vhostDevUnassignMemory mem s z = some mem) := by
  constructor
  · obtain ⟨m₂, hm₂, -, hmap⟩ := unassign_assign_spec hv hN hU
    rw [hm₂, Option.map_some', Option.some_inj, hmap, overrideMap_true_eq_self_iff,
      maps_range_iff hv hN, vhostDevCmpMemory_eq_false_iff hv hN]
  · constructor
    · intro h
      refine vhostDevUnassignMemory_of_not_overlap fun R hR => ?_
      exact vhostDevFindReg_eq_none_iff.mp h R hR
    · intro h
      obtain ⟨m, hm, -, hmaps⟩ := vhostDevUnassignMemory_spec hv hN
      rw [h, Option.some_inj] at hm
      subst hm
      exact (vhostDevFindReg_eq_none_iff_maps hv hN).mpr fun a v h1 h2 hmv =>
        ((hmaps a v).mp hmv).1 ⟨h1, h2⟩

/-- `fastPath_agrees` on a range inside the one region of a table, at the host address the
region already maps it to. -/
theorem fastPath_agrees_inside :
    (vhostDevCmpMemory [⟨0, 0x10000, 0x80000000⟩] 0x4000 0x4000 0x80004000 = false ↔
      ((vhostDevUnassignMemory [⟨0, 0x10000, 0x80000000⟩] 0x4000 0x4000).bind fun m =>
          vhostDevAssignMemory m 0x4000 0x4000 0x80004000).map translate =
        some (translate [⟨0, 0x10000, 0x80000000⟩])) ∧
    (vhostDevFindReg [⟨0, 0x10000, 0x80000000⟩] 0x4000 0x4000 = none ↔
      vhostDevUnassignMemory [⟨0, 0x10000, 0x80000000⟩] 0x4000 0x4000 =
        some [⟨0, 0x10000, 0x80000000⟩]) :=
  fastPath_agrees (tableValid_singleton (by decide))
    (by decide) (by decide)

end FastPath

/-! ### Room in the table

`vhost_set_memory` grows `dev->mem` to `nregions + 1` slots before it edits the table. -/

section Room

/-- The table can outgrow the reallocated array: mapping a range inside the one region of a
table at another host address splits the region and adds the range, three regions in the
two slots, the last of them written to slot `nregions + 1`. -/
theorem vhostSetMemorySection_outgrows_realloc :
    TableValid [⟨0, 0x10000, 0x80000000⟩] ∧
      MemoryRegionSection.NoWrap ⟨⟨0, 0x90000000, true, false⟩, true, 0, 0x4000, 0x4000⟩ ∧
      vhostSetMemorySection [⟨0, 0x10000, 0x80000000⟩]
          ⟨⟨0, 0x90000000, true, false⟩, true, 0, 0x4000, 0x4000⟩ true =
        some (true, [⟨0, 0x4000, 0x80000000⟩, ⟨0x8000, 0x8000, 0x80008000⟩,
          ⟨0x4000, 0x4000, 0x90000000⟩]) :=
  ⟨tableValid_singleton (by decide),
    by decide, by decide⟩

end Room

end Vhost
