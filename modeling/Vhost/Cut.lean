import Vhost.Region

/-!
# Removing a guest range from a table

What `vhost_dev_unassign_memory` is for, independently of how its loop is written: every region
loses its part inside the removed range `[s, s + z)`. A region keeps `cut`: itself when it does
not meet the range, else its part below `s` and its part from `s + z` on.

The pieces of a valid table form a valid table, and that table maps a guest address exactly
when the old one did and the address lies outside the range.

## Main results

* `mem_cut_within`, `mem_cut_not_contains` — a piece lies in its region and outside the range
* `TableValid.flatMap_cut` — the pieces of a valid table form a valid table
* `maps_flatMap_cut` — the pieces map what the table mapped, outside the range
-/

set_option autoImplicit false

namespace Vhost

namespace VhostMemoryRegion

variable (R : VhostMemoryRegion) (s z e : Nat)

/-- The part of `R` below `s`. -/
def lowPart : VhostMemoryRegion := { R with memorySize := s - R.guestPhysAddr }

/-- The part of `R` from `e` on. -/
def highPart : VhostMemoryRegion := ⟨e, R.guestEnd - e, R.hostAddr e⟩

/-- What is left of `R` once `[s, s + z)` is removed: `R` itself when it does not meet the
range, else its part below `s` and its part from `s + z` on, each when nonempty. -/
def cut : List VhostMemoryRegion :=
  if R.guestPhysAddr < s + z ∧ s < R.guestEnd then
    (if R.guestPhysAddr < s then [R.lowPart s] else []) ++
      (if s + z < R.guestEnd then [R.highPart (s + z)] else [])
  else [R]

variable {R s z e} {P P₁ P₂ R₁ R₂ : VhostMemoryRegion} {a v : Nat}

theorem mem_cut_iff : P ∈ R.cut s z ↔
    (¬ (R.guestPhysAddr < s + z ∧ s < R.guestEnd) ∧ P = R) ∨
      ((R.guestPhysAddr < s + z ∧ s < R.guestEnd) ∧
        ((R.guestPhysAddr < s ∧ P = R.lowPart s) ∨ (s + z < R.guestEnd ∧ P = R.highPart (s + z)))) := by
  unfold cut
  split_ifs <;> simp_all

theorem lowPart_within (h : s ≤ R.guestEnd) : (R.lowPart s).Within R := by
  unfold lowPart Within hostAddr guestEnd at *; dsimp only; omega

theorem highPart_within (h : R.guestPhysAddr ≤ e) (h' : e ≤ R.guestEnd) :
    (R.highPart e).Within R := by
  unfold highPart Within guestEnd at *; dsimp only; omega

/-- A piece lies in its region and is mapped as the region maps it. -/
theorem mem_cut_within (hP : P ∈ R.cut s z) : P.Within R := by
  rcases mem_cut_iff.mp hP with ⟨-, rfl⟩ | ⟨⟨h1, h2⟩, ⟨-, rfl⟩ | ⟨h3, rfl⟩⟩
  · exact Within.refl
  · exact lowPart_within h2.le
  · exact highPart_within h1.le h3.le

theorem mem_cut_size_pos (hR : 0 < R.memorySize) (hP : P ∈ R.cut s z) : 0 < P.memorySize := by
  rcases mem_cut_iff.mp hP with ⟨-, rfl⟩ | ⟨-, ⟨h, rfl⟩ | ⟨h, rfl⟩⟩
  · exact hR
  · unfold lowPart; dsimp only; omega
  · unfold highPart; dsimp only; omega

/-- No piece contains an address of the removed range. -/
theorem mem_cut_not_contains (hP : P ∈ R.cut s z) (h1 : s ≤ a) (h2 : a < s + z) :
    ¬ P.Contains a := by
  rcases mem_cut_iff.mp hP with ⟨h, rfl⟩ | ⟨-, ⟨-, rfl⟩ | ⟨-, rfl⟩⟩ <;>
    simp only [Contains, lowPart, highPart, guestEnd] at * <;> omega

/-- A piece starts where its region starts, or right after the range. -/
theorem mem_cut_start (hP : P ∈ R.cut s z) :
    P.guestPhysAddr = R.guestPhysAddr ∨ P.guestPhysAddr = s + z := by
  rcases mem_cut_iff.mp hP with ⟨-, rfl⟩ | ⟨-, ⟨-, rfl⟩ | ⟨-, rfl⟩⟩ <;> simp [lowPart, highPart]

/-- A piece ends where its region ends, or where the range starts. -/
theorem mem_cut_guestEnd (hP : P ∈ R.cut s z) : P.guestEnd = R.guestEnd ∨ P.guestEnd = s := by
  rcases mem_cut_iff.mp hP with ⟨-, rfl⟩ | ⟨-, ⟨h, rfl⟩ | ⟨h, rfl⟩⟩
  · exact .inl rfl
  · right; unfold lowPart guestEnd; dsimp only; omega
  · left; unfold highPart guestEnd at *; dsimp only; omega

/-- An address outside the range is in a piece of `R` exactly when it is in `R`, with the same
host address. -/
theorem exists_mem_cut_maps_iff :
    (∃ P ∈ R.cut s z, P.Contains a ∧ P.hostAddr a = v) ↔
      ¬ (s ≤ a ∧ a < s + z) ∧ R.Contains a ∧ R.hostAddr a = v := by
  constructor
  · rintro ⟨P, hP, hPa, rfl⟩
    exact ⟨fun ⟨h1, h2⟩ => mem_cut_not_contains hP h1 h2 hPa, (mem_cut_within hP).contains hPa,
      ((mem_cut_within hP).hostAddr_eq hPa).symm⟩
  · rintro ⟨hout, hRa, rfl⟩
    by_cases hov : R.guestPhysAddr < s + z ∧ s < R.guestEnd
    · unfold Contains at hRa
      by_cases hlow : a < s
      · refine ⟨R.lowPart s, mem_cut_iff.mpr (.inr ⟨hov, .inl ⟨by omega, rfl⟩⟩), ?_, ?_⟩
        · unfold Contains lowPart guestEnd at *; dsimp only; omega
        · exact (lowPart_within hov.2.le).hostAddr_eq (by
            unfold Contains lowPart guestEnd at *; dsimp only; omega)
      · have hw := highPart_within (R := R) (e := s + z) hov.1.le (by omega)
        have hc : (R.highPart (s + z)).Contains a := by
          unfold Contains highPart guestEnd at *; dsimp only; omega
        exact ⟨R.highPart (s + z), mem_cut_iff.mpr (.inr ⟨hov, .inr ⟨by omega, rfl⟩⟩), hc,
          hw.hostAddr_eq hc⟩
    · exact ⟨R, mem_cut_iff.mpr (.inl ⟨hov, rfl⟩), hRa, rfl⟩

/-- The pieces of one region are disjoint and neither continues the other. -/
theorem cut_pairwise (hz : 0 < z) :
    (R.cut s z).Pairwise fun P₁ P₂ => P₁.Disjoint P₂ ∧ P₁.Separate P₂ := by
  unfold cut
  split_ifs <;> simp [lowPart, highPart, Disjoint, Separate, Joinable, guestEnd] at *
  all_goals omega

/-- Pieces of two regions that neither continues the other do not continue each other either:
a piece ends inside its region only at `s`, and starts inside its region only at `s + z`, and
the range separates those two points. -/
theorem cut_not_joinable (hR₁ : 0 < R₁.memorySize) (hR₂ : 0 < R₂.memorySize) (hz : 0 < z)
    (hj : ¬ R₁.Joinable R₂) (hP₁ : P₁ ∈ R₁.cut s z) (hP₂ : P₂ ∈ R₂.cut s z) :
    ¬ P₁.Joinable P₂ := by
  intro h
  have h₁ := mem_cut_size_pos hR₁ hP₁
  have h₂ := mem_cut_size_pos hR₂ hP₂
  rcases mem_cut_guestEnd hP₁ with he | he <;> rcases mem_cut_start hP₂ with hs | hs
  · exact hj (((mem_cut_within hP₂).joinable_iff_of_start hs).mp
      (((mem_cut_within hP₁).joinable_iff_of_guestEnd he).mp h))
  · refine mem_cut_not_contains hP₁ (a := P₁.guestEnd - 1) ?_ ?_ (Contains.of_last h₁) <;>
      unfold Joinable at h <;> omega
  · refine mem_cut_not_contains hP₂ (a := P₂.guestPhysAddr) ?_ ?_ (Contains.of_start h₂) <;>
      unfold Joinable at h <;> omega
  · refine mem_cut_not_contains hP₂ (a := P₂.guestPhysAddr) ?_ ?_ (Contains.of_start h₂) <;>
      unfold Joinable at h <;> omega

end VhostMemoryRegion

open VhostMemoryRegion

variable {mem : List VhostMemoryRegion} {s z : Nat}

/-- The pieces of a valid table, for a range that does not wrap, form a valid table. -/
theorem TableValid.flatMap_cut (hv : TableValid mem) (hN : NoWrap s z) :
    TableValid (mem.flatMap (·.cut s z)) where
  wellFormed P hP := by
    obtain ⟨R, hR, hPR⟩ := List.mem_flatMap.mp hP
    have hwf := hv.wellFormed R hR
    exact (mem_cut_within hPR).wellFormed (mem_cut_size_pos hwf.size_pos hPR) hwf
  disjoint := by
    refine List.pairwise_flatMap.mpr ⟨fun R hR => ?_, hv.disjoint.imp fun hd P₁ h₁ P₂ h₂ => ?_⟩
    · exact (cut_pairwise hN.1).imp And.left
    · exact ((mem_cut_within h₂).disjoint ((mem_cut_within h₁).disjoint hd).symm).symm
  separate := by
    refine List.pairwise_flatMap.mpr ⟨fun R hR => ?_, ?_⟩
    · exact (cut_pairwise hN.1).imp And.right
    · refine hv.separate.imp_of_mem fun {R₁ R₂} h₁ h₂ hsep P₁ hP₁ P₂ hP₂ => ?_
      have w₁ := (hv.wellFormed R₁ h₁).size_pos
      have w₂ := (hv.wellFormed R₂ h₂).size_pos
      exact ⟨cut_not_joinable w₁ w₂ hN.1 hsep.1 hP₁ hP₂, cut_not_joinable w₂ w₁ hN.1 hsep.2 hP₂ hP₁⟩

/-- The pieces map an address exactly when the table did and the address is outside the
range. -/
theorem maps_flatMap_cut {a v : Nat} :
    Maps (mem.flatMap (·.cut s z)) a v ↔ ¬ (s ≤ a ∧ a < s + z) ∧ Maps mem a v := by
  simp only [Maps, List.mem_flatMap]
  constructor
  · rintro ⟨P, ⟨R, hR, hP⟩, hPa⟩
    obtain ⟨hout, hRa⟩ := exists_mem_cut_maps_iff.mp ⟨P, hP, hPa⟩
    exact ⟨hout, R, hR, hRa⟩
  · rintro ⟨hout, R, hR, hRa⟩
    obtain ⟨P, hP, hPa⟩ := exists_mem_cut_maps_iff.mpr ⟨hout, hRa⟩
    exact ⟨P, ⟨R, hR, hP⟩, hPa⟩

end Vhost
