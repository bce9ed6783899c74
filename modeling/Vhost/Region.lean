import Vhost.Basic
import Mathlib.Data.List.Pairwise

/-!
# Memory regions and the region table

`dev->mem` is an unsorted array of `struct vhost_memory_region`: each entry says that the guest
range `[guest_phys_addr, guest_phys_addr + memory_size)` is backed by host memory from
`userspace_addr` on. The table is a list here; its length is `nregions`.

A table is *valid* when its regions are nonempty and do not wrap, their guest ranges do not
overlap, and no region continues another in both guest and host address (such a pair would
have been merged by `vhost_dev_assign_memory`). The table denotes a partial map from guest to
host addresses, `translate`.

## Main definitions

* `VhostMemoryRegion` — `struct vhost_memory_region`
* `VhostMemoryRegion.Joinable` — two regions the code merges
* `VhostMemoryRegion.Within` — a piece of a region, mapped as the region maps it
* `TableValid` — the region table invariant
* `translate` — the guest-to-host map of a table

## Main results

* `translate_eq_some_iff`, `translate_eq_none_iff` — `translate` on a table with disjoint
  regions does not depend on the order of the regions
* `Within.joinable_iff_of_guestEnd`, `Within.joinable_iff_of_start` — a piece that reaches
  an end of its region is joinable there exactly when the region is
-/

set_option autoImplicit false

namespace Vhost

/-- `struct vhost_memory_region`. Its `flags_padding` field is never read and is left out. -/
structure VhostMemoryRegion where
  guestPhysAddr : Nat
  memorySize : Nat
  userspaceAddr : Nat
  deriving DecidableEq, Repr

namespace VhostMemoryRegion

variable (R S T : VhostMemoryRegion) (a : Nat)

/-- One past the last guest address of `R`. -/
def guestEnd : Nat := R.guestPhysAddr + R.memorySize

/-- The guest address `a` lies in `R`. -/
def Contains : Prop := R.guestPhysAddr ≤ a ∧ a < R.guestEnd

instance : Decidable (R.Contains a) := inferInstanceAs (Decidable (_ ∧ _))

/-- The host address that `R` backs the guest address `a` with. -/
def hostAddr : Nat := R.userspaceAddr + (a - R.guestPhysAddr)

/-- `R` is nonempty and neither its guest range nor its host range wraps. -/
def WellFormed : Prop :=
  NoWrap R.guestPhysAddr R.memorySize ∧ NoWrap R.userspaceAddr R.memorySize

instance : Decidable R.WellFormed := inferInstanceAs (Decidable (_ ∧ _))

/-- The guest ranges of `R` and `S` do not overlap. -/
def Disjoint : Prop := R.guestEnd ≤ S.guestPhysAddr ∨ S.guestEnd ≤ R.guestPhysAddr

/-- `S` continues `R` in both guest and host address: `vhost_dev_assign_memory` merges them. -/
def Joinable : Prop :=
  R.guestEnd = S.guestPhysAddr ∧ R.userspaceAddr + R.memorySize = S.userspaceAddr

instance : Decidable (R.Disjoint S) := inferInstanceAs (Decidable (_ ∨ _))

instance : Decidable (R.Joinable S) := inferInstanceAs (Decidable (_ ∧ _))

/-- Neither of `R` and `S` continues the other. -/
def Separate : Prop := ¬ R.Joinable S ∧ ¬ S.Joinable R

/-- `R` is a piece of `S`: its guest range lies in that of `S`, and `S` backs it with the same
host addresses. -/
def Within : Prop :=
  S.guestPhysAddr ≤ R.guestPhysAddr ∧ R.guestEnd ≤ S.guestEnd ∧
    R.userspaceAddr = S.hostAddr R.guestPhysAddr

variable {R S T a}

theorem Disjoint.symm (h : R.Disjoint S) : S.Disjoint R := Or.symm h

theorem Separate.symm (h : R.Separate S) : S.Separate R := ⟨h.2, h.1⟩

/-- Two regions that share a guest address are not disjoint. -/
theorem Disjoint.not_contains (h : R.Disjoint S) (hR : R.Contains a) : ¬ S.Contains a := by
  unfold Disjoint guestEnd at h; unfold Contains guestEnd at *; omega

/-- Nonempty regions that are not disjoint share an address. -/
theorem exists_contains_of_not_disjoint (hR : 0 < R.memorySize) (hS : 0 < S.memorySize)
    (h : ¬ R.Disjoint S) :
    ∃ a, R.Contains a ∧ S.Contains a :=
  ⟨max R.guestPhysAddr S.guestPhysAddr, by unfold Disjoint guestEnd at h; unfold Contains guestEnd; omega⟩

theorem Contains.of_start (h : 0 < R.memorySize) : R.Contains R.guestPhysAddr := by
  unfold Contains guestEnd; omega

theorem Contains.of_last (h : 0 < R.memorySize) : R.Contains (R.guestEnd - 1) := by
  unfold Contains guestEnd; omega

theorem WellFormed.size_pos (h : R.WellFormed) : 0 < R.memorySize := h.1.1

theorem WellFormed.hostEnd_lt (h : R.WellFormed) : R.userspaceAddr + R.memorySize < 2 ^ 64 :=
  h.2.2

@[simp] theorem Within.refl : R.Within R := by
  unfold Within hostAddr; omega

theorem Within.contains (h : R.Within S) (ha : R.Contains a) : S.Contains a := by
  unfold Within Contains at *; omega

theorem Within.hostAddr_eq (h : R.Within S) (ha : R.Contains a) : R.hostAddr a = S.hostAddr a := by
  unfold Within Contains hostAddr guestEnd at *; omega

theorem Within.trans (h : R.Within S) (h' : S.Within T) : R.Within T := by
  unfold Within hostAddr guestEnd at *; omega

theorem Within.disjoint (h : R.Within S) (h' : S.Disjoint T) : R.Disjoint T := by
  unfold Within Disjoint guestEnd at *; omega

/-- A nonempty piece of a well-formed region is well-formed. -/
theorem Within.wellFormed (h : R.Within S) (hpos : 0 < R.memorySize) (hS : S.WellFormed) :
    R.WellFormed := by
  unfold Within WellFormed NoWrap hostAddr guestEnd at *; omega

/-- A piece that ends where its region ends is continued by what continues the region. -/
theorem Within.joinable_iff_of_guestEnd (h : R.Within S) (he : R.guestEnd = S.guestEnd) :
    R.Joinable T ↔ S.Joinable T := by
  unfold Within Joinable hostAddr guestEnd at *; omega

/-- A piece that starts where its region starts continues what the region continues. -/
theorem Within.joinable_iff_of_start (h : R.Within S) (hs : R.guestPhysAddr = S.guestPhysAddr) :
    T.Joinable R ↔ T.Joinable S := by
  unfold Within Joinable hostAddr guestEnd at *; omega

end VhostMemoryRegion

open VhostMemoryRegion

/-- The region table invariant. -/
structure TableValid (mem : List VhostMemoryRegion) : Prop where
  wellFormed : ∀ R ∈ mem, R.WellFormed
  disjoint : mem.Pairwise VhostMemoryRegion.Disjoint
  separate : mem.Pairwise VhostMemoryRegion.Separate

/-- In a table of disjoint regions, two regions that share an address are the same. -/
theorem eq_of_contains {mem : List VhostMemoryRegion} (hd : mem.Pairwise VhostMemoryRegion.Disjoint)
    {R S : VhostMemoryRegion} {a : Nat} (hR : R ∈ mem) (hS : S ∈ mem) (hRa : R.Contains a)
    (hSa : S.Contains a) : R = S := by
  by_contra hne
  exact (hd.forall (fun _ _ => VhostMemoryRegion.Disjoint.symm) hR hS hne).not_contains hRa hSa

/-- The empty table of `vhost_dev_init` is valid. -/
theorem tableValid_nil : TableValid [] := ⟨by simp, .nil, .nil⟩

theorem tableValid_singleton {R : VhostMemoryRegion} (hR : R.WellFormed) : TableValid [R] :=
  ⟨by simpa using hR, List.pairwise_singleton _ _, List.pairwise_singleton _ _⟩

/-- `map(T)`: the host address that the table backs guest address `a` with, read from the
first region that contains `a`. -/
def translate (mem : List VhostMemoryRegion) (a : Nat) : Option Nat :=
  (mem.find? fun R => decide (R.Contains a)).map fun R => R.hostAddr a

/-- The table maps `a` to `v`, through any of its regions. -/
def Maps (mem : List VhostMemoryRegion) (a v : Nat) : Prop :=
  ∃ R ∈ mem, R.Contains a ∧ R.hostAddr a = v

theorem translate_eq_none_iff {mem : List VhostMemoryRegion} {a : Nat} :
    translate mem a = none ↔ ∀ R ∈ mem, ¬ R.Contains a := by
  simp [translate, List.find?_eq_none]

/-- In a table with disjoint regions, the region that contains `a` decides where it maps. -/
theorem maps_iff_of_contains {mem : List VhostMemoryRegion}
    (hd : mem.Pairwise VhostMemoryRegion.Disjoint) {R : VhostMemoryRegion} {a v : Nat} (hR : R ∈ mem)
    (ha : R.Contains a) : Maps mem a v ↔ R.hostAddr a = v :=
  ⟨fun ⟨_, hS, hSa, hv⟩ => eq_of_contains hd hS hR hSa ha ▸ hv, fun hv => ⟨R, hR, ha, hv⟩⟩

theorem maps_cons {R : VhostMemoryRegion} {rest : List VhostMemoryRegion} {a v : Nat} :
    Maps (R :: rest) a v ↔ (R.Contains a ∧ R.hostAddr a = v) ∨ Maps rest a v := by
  simp [Maps]

/-- On a table with disjoint regions, `translate` reads the one region that contains `a`. -/
theorem translate_eq_some_iff {mem : List VhostMemoryRegion} {a v : Nat}
    (hd : mem.Pairwise VhostMemoryRegion.Disjoint) :
    translate mem a = some v ↔ Maps mem a v := by
  induction mem with
  | nil => simp [translate, Maps]
  | cons R rest ih =>
    rw [List.pairwise_cons] at hd
    rw [maps_cons]
    by_cases hR : R.Contains a
    · have hnot : ¬ Maps rest a v := fun ⟨S, hS, hSa, _⟩ => (hd.1 S hS).not_contains hR hSa
      simp [translate, List.find?_cons, hR, hnot]
    · have hrest : translate (R :: rest) a = translate rest a := by
        simp [translate, List.find?_cons, hR]
      rw [hrest, ih hd.2]
      simp [hR]

theorem Maps.perm {mem mem' : List VhostMemoryRegion} (hp : mem.Perm mem') {a v : Nat} :
    Maps mem a v ↔ Maps mem' a v := by
  simp only [Maps, hp.mem_iff]

/-- The table invariant does not depend on the order of the regions. -/
theorem TableValid.perm {mem mem' : List VhostMemoryRegion} (h : TableValid mem)
    (hp : mem.Perm mem') : TableValid mem' where
  wellFormed R hR := h.wellFormed R (hp.mem_iff.mpr hR)
  disjoint := (hp.pairwise_iff VhostMemoryRegion.Disjoint.symm).mp h.disjoint
  separate := (hp.pairwise_iff Separate.symm).mp h.separate

end Vhost
