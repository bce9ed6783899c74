import Mathlib.Algebra.Group.Nat.Basic
import Mathlib.Data.List.Basic

/-!
# `uint64_t` arithmetic, byte ranges and the log geometry

`vhost.c` computes guest-physical and host-virtual addresses as `uint64_t`. Addresses are
naturals here, and every operation of the code that can wrap is written with its `% 2 ^ 64`,
so that the model computes what the code computes on every input. Where addresses stay below
`2 ^ 64` and ranges do not wrap, the lemmas of this file give the plain arithmetic back.

## Main definitions

* `add64`, `sub64`, `mul64` — `uint64_t` addition, subtraction and multiplication
* `rangeGetLast`, `RangesOverlap` — the helpers of `range.h`
* `LogGeometry` — `VHOST_LOG_PAGE` and the width of `vhost_log_chunk_t`, with
  `VHOST_LOG_CHUNK` and `VHOST_LOG_BUFFER` derived from them
-/

set_option autoImplicit false

namespace Vhost

/-- `a + b` on `uint64_t`. -/
def add64 (a b : Nat) : Nat := (a + b) % 2 ^ 64

/-- `a - b` on `uint64_t`. -/
def sub64 (a b : Nat) : Nat := (a + (2 ^ 64 - b % 2 ^ 64)) % 2 ^ 64

/-- `a * b` on `uint64_t`. -/
def mul64 (a b : Nat) : Nat := (a * b) % 2 ^ 64

theorem add64_of_lt {a b : Nat} (h : a + b < 2 ^ 64) : add64 a b = a + b :=
  Nat.mod_eq_of_lt h

theorem sub64_of_le {a b : Nat} (h : b ≤ a) (ha : a < 2 ^ 64) : sub64 a b = a - b := by
  unfold sub64; omega

/-- `a + b - c` computed in `uint64_t` is exact when the true result is a `uint64_t`, even
if `a + b` wraps on the way. -/
theorem sub64_add64 {a b c : Nat} (hc : c ≤ b) (h : a + (b - c) < 2 ^ 64) :
    sub64 (add64 a b) c = a + b - c := by
  unfold sub64 add64; omega

/-- Modelled from the spec: `range_get_last` of `range.h` (not under src/), the last byte
`offset + len - 1` of the range `[offset, offset + len)`, computed in `uint64_t`. -/
def rangeGetLast (offset len : Nat) : Nat := sub64 (add64 offset len) 1

/-- Modelled from the spec: `ranges_overlap` of `range.h` (not under src/). The ranges
`[first1, first1 + len1)` and `[first2, first2 + len2)` overlap unless one ends before the
other begins, both ends taken as `rangeGetLast`. -/
def RangesOverlap (first1 len1 first2 len2 : Nat) : Prop :=
  ¬ (rangeGetLast first2 len2 < first1 ∨ rangeGetLast first1 len1 < first2)

instance (first1 len1 first2 len2 : Nat) : Decidable (RangesOverlap first1 len1 first2 len2) :=
  inferInstanceAs (Decidable (¬ (_ ∨ _)))

/-- A range `[offset, offset + len)` is nonempty and its last byte plus one is a `uint64_t`. -/
def NoWrap (offset len : Nat) : Prop := 0 < len ∧ offset + len < 2 ^ 64

instance (offset len : Nat) : Decidable (NoWrap offset len) :=
  inferInstanceAs (Decidable (_ ∧ _))

theorem rangeGetLast_of_le {offset len : Nat} (h : 0 < len) (h' : offset + len ≤ 2 ^ 64) :
    rangeGetLast offset len = offset + len - 1 := by
  unfold rangeGetLast sub64 add64; omega

theorem NoWrap.rangeGetLast_eq {offset len : Nat} (h : NoWrap offset len) :
    rangeGetLast offset len = offset + len - 1 :=
  rangeGetLast_of_le h.1 h.2.le

/-- For ranges that do not wrap, `ranges_overlap` is the overlap of the half-open ranges. -/
theorem NoWrap.rangesOverlap_iff {first1 len1 first2 len2 : Nat} (h1 : NoWrap first1 len1)
    (h2 : NoWrap first2 len2) :
    RangesOverlap first1 len1 first2 len2 ↔ first1 < first2 + len2 ∧ first2 < first1 + len1 := by
  unfold RangesOverlap
  rw [h1.rangeGetLast_eq, h2.rangeGetLast_eq]
  have := h1.1; have := h2.1
  omega

/-- The log geometry of `vhost.h` (not under src/), taken as a parameter: `VHOST_LOG_PAGE`,
the bytes of guest memory one log bit covers, and `sizeof (vhost_log_chunk_t)`, the bytes of
one log word. -/
structure LogGeometry where
  page : Nat
  wordBytes : Nat
  page_pos : 0 < page
  wordBytes_pos : 0 < wordBytes

namespace LogGeometry

/-- The geometry of a host where `vhost_log_chunk_t`, an `unsigned long`, has 8 bytes:
`VHOST_LOG_PAGE` is `0x1000`. -/
def lp64 : LogGeometry := ⟨0x1000, 8, by decide, by decide⟩

variable (G : LogGeometry)

/-- `VHOST_LOG_BITS`: the bits of one log word. -/
def bits : Nat := 8 * G.wordBytes

/-- `VHOST_LOG_CHUNK`: the bytes of guest memory that one log word covers. -/
def chunk : Nat := G.page * G.bits

/-- `VHOST_LOG_BUFFER` of `vhost_set_memory`: 4K bytes of slack, in log words. -/
def buffer : Nat := 0x1000 / G.wordBytes

theorem bits_pos : 0 < G.bits := by
  have := G.wordBytes_pos
  unfold bits; omega

theorem chunk_pos : 0 < G.chunk := Nat.mul_pos G.page_pos G.bits_pos

/-- The range `[0, n * VHOST_LOG_CHUNK - 1]` that `vhost_dev_log_resize` harvests, computed in
`uint64_t`, ends in the words of a log of `n > 0` words, also when the product wraps. -/
theorem sub64_mul64_chunk_div_lt {n : Nat} (hn : 0 < n) : sub64 (mul64 n G.chunk) 1 / G.chunk < n := by
  have hc := G.chunk_pos
  have h1 : 1 ≤ n * G.chunk := Nat.mul_pos hn hc
  rw [Nat.div_lt_iff_lt_mul hc]
  unfold sub64 mul64
  omega

end LogGeometry

end Vhost
