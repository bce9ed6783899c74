import Vhost.LogSize
import Vhost.Logic

/-!
# Harvesting the dirty log

`vhost_dev_sync_region` walks the log words that cover the intersection of a range with a
region or a used ring, reads and clears each nonzero word at once, and reports each of its set
bits to the memory core against the section it was called for. `vhost_sync_dirty_bitmap` does
so for every region and every used ring, and `vhost_log_sync` for the guest range of a section.

The report's offset is `offset_within_region + bit * VHOST_LOG_PAGE`: it does not depend on
the word the bit is in, nor on where the section starts (`vhostLogSync_harvests`).

## Main definitions

* `vhostDevSyncRegion`, `vhostSyncDirtyBitmap`, `vhostLogSync`
* `setBitCount`, `logBits` — the set bits of log words and of a log buffer

## Main results

* `Harvests` — what a harvest may change: the words of the log, keeping their number, and the
  dirty reports, each of a set bit against the section
* `vhostDevSyncRegion_harvests` — within its bounds the harvest does not abort, and harvests
* `vhostSyncDirtyBitmap_harvests_of_le` — the same for every region and used ring, when the log
  holds `vhost_get_log_size` words
* `vhostLogSync_reports_bit_offset` — the report's offset ignores the word and the section's
  start
* `vhostSyncDirtyBitmap_conserves` — cleared bits become reports one for one: the set bits of
  the log and the reports made add up to the same number before and after a harvest
-/

set_option autoImplicit false

namespace Vhost

variable (G : LogGeometry)

/-- The set bits of a log word, lowest first: the bits the `ffsll` loop of
`vhost_dev_sync_region` finds one after the other, clearing each it has reported. -/
def setBits (word : Nat) : List Nat := (List.range G.bits).filter word.testBit

/-- One turn of the loop of `vhost_dev_sync_region`, for the word `i` of the log: a word read
as zero is skipped; otherwise it is read and cleared at once, and each of its set bits is
reported against the section at `offset_within_region + bit * VHOST_LOG_PAGE`. The code also
counts the word's guest address in `addr`, which nothing reads. -/
def syncWord (dev : VhostDev) (sec : MemoryRegionSection) (i : Nat) : VhostM Unit := do
  if (← logWord dev.log i) = 0 then return
  let log ← logFetchAndClear dev.log i
  (setBits G log).forM fun bit =>
    memoryRegionSetDirty sec.mr (add64 sec.offsetWithinRegion (bit * G.page)) G.page

/-- The words of `[start, stop]`, the range that `vhost_dev_sync_region` walks (`stop` is the
code's `end`). -/
def chunkRange (start stop : Nat) : List Nat :=
  List.range' (start / G.chunk) (stop / G.chunk + 1 - start / G.chunk)

/-- `vhost_dev_sync_region`: harvest the words that cover the intersection of
`[mfirst, mlast]` with `[rfirst, rlast]`, after asserting that both ends lie in the log. -/
def vhostDevSyncRegion (dev : VhostDev) (sec : MemoryRegionSection)
    (mfirst mlast rfirst rlast : Nat) : VhostM Unit := do
  let start := max mfirst rfirst
  let stop := min mlast rlast
  if stop < start then return
  unless stop / G.chunk < dev.logSize do throw .syncRegion
  unless start / G.chunk < dev.logSize do throw .syncRegion
  (chunkRange G start stop).forM (syncWord G dev sec)

/-- `vhost_sync_dirty_bitmap`, for the guest range `[startAddr, endAddr]`: nothing unless the
device is started with logging on, and otherwise a harvest for every region and every used
ring. Its result, always `0`, is never read. -/
def vhostSyncDirtyBitmap (dev : VhostDev) (sec : MemoryRegionSection) (startAddr endAddr : Nat) :
    VhostM Unit := do
  if !dev.logEnabled || !dev.started then return
  dev.mem.forM fun reg => vhostDevSyncRegion G dev sec startAddr endAddr reg.guestPhysAddr
    (rangeGetLast reg.guestPhysAddr reg.memorySize)
  dev.vqs.forM fun vq => vhostDevSyncRegion G dev sec startAddr endAddr vq.usedPhys
    (rangeGetLast vq.usedPhys vq.usedSize)

/-- One turn of the harvest keeps what reading and clearing a word and reporting a page keep. -/
theorem keeps_syncWord_of {γ : Type} {f : World → γ}
    (hc : ∀ log i, Keeps f (logFetchAndClear log i))
    (hd : ∀ mr addr size, Keeps f (memoryRegionSetDirty mr addr size)) (dev : VhostDev)
    (sec : MemoryRegionSection) (i : Nat) : Keeps f (syncWord G dev sec i) :=
  (keeps_logWord _ _).bind fun _ => Keeps.ite Keeps.ret (Keeps.ret.bind fun _ =>
    (hc _ _).bind fun _ => Keeps.forM fun _ _ => hd _ _ _)

/-- A turn of the harvest keeps every part of the world that the log does not hold. -/
theorem keeps_syncWord {γ : Type} {f : World → γ} (hf : LogBlind f) (dev : VhostDev)
    (sec : MemoryRegionSection) (i : Nat) : Keeps f (syncWord G dev sec i) :=
  keeps_syncWord_of G (keeps_logFetchAndClear hf) (keeps_memoryRegionSetDirty hf) dev sec i

/-- A harvest of a range keeps what each of its turns keeps. -/
theorem keeps_vhostDevSyncRegion_of {γ : Type} {f : World → γ} {dev : VhostDev}
    {sec : MemoryRegionSection} (hw : ∀ i, Keeps f (syncWord G dev sec i))
    (mfirst mlast rfirst rlast : Nat) :
    Keeps f (vhostDevSyncRegion G dev sec mfirst mlast rfirst rlast) :=
  Keeps.ite Keeps.ret <| Keeps.ret.bind fun _ =>
    Keeps.ite (Keeps.ret.bind fun _ => Keeps.ite (Keeps.ret.bind fun _ =>
      Keeps.forM fun _ _ => hw _) Keeps.abort_bind) Keeps.abort_bind

/-- `vhost_sync_dirty_bitmap` keeps what each turn of its harvests keeps. -/
theorem keeps_vhostSyncDirtyBitmap_of {γ : Type} {f : World → γ} {dev : VhostDev}
    {sec : MemoryRegionSection} (hw : ∀ i, Keeps f (syncWord G dev sec i)) (startAddr endAddr : Nat) :
    Keeps f (vhostSyncDirtyBitmap G dev sec startAddr endAddr) :=
  Keeps.ite Keeps.ret (Keeps.ret.bind fun _ =>
    (Keeps.forM fun _ _ => keeps_vhostDevSyncRegion_of G hw _ _ _ _).bind fun _ =>
      Keeps.forM fun _ _ => keeps_vhostDevSyncRegion_of G hw _ _ _ _)

/-- A harvest keeps every part of the world that the log does not hold. -/
theorem keeps_vhostSyncDirtyBitmap {γ : Type} {f : World → γ} (hf : LogBlind f) (dev : VhostDev)
    (sec : MemoryRegionSection) (startAddr endAddr : Nat) :
    Keeps f (vhostSyncDirtyBitmap G dev sec startAddr endAddr) :=
  keeps_vhostSyncDirtyBitmap_of G (keeps_syncWord G hf dev sec) startAddr endAddr

/-- `vhost_log_sync`: harvest the guest range of the section, its end taken one past its last
byte. -/
def vhostLogSync (dev : VhostDev) (sec : MemoryRegionSection) : VhostM Unit :=
  vhostSyncDirtyBitmap G dev sec sec.offsetWithinAddressSpace
    (add64 sec.offsetWithinAddressSpace sec.size)

/-- The report `vhost_dev_sync_region` makes for the set bit `bit` of a word it harvests for the
section `sec`. -/
def dirtyReport (sec : MemoryRegionSection) (bit : Nat) : DirtyReport :=
  ⟨sec.mr, add64 sec.offsetWithinRegion (bit * G.page), G.page⟩

/-- What harvesting the log at `log` may do to the world: change the words of that buffer,
keeping their number, and add dirty reports allowed by `R`; nothing else. -/
structure Harvests (log : Nat) (R : DirtyReport → Prop) (w w' : World) : Prop where
  rest : { w' with heap := w.heap, dirty := w.dirty } = w
  heap_ne : ∀ p, p ≠ log → w'.heap p = w.heap p
  length : (w'.heap log).map List.length = (w.heap log).map List.length
  dirty : ∃ ds, (∀ d ∈ ds, R d) ∧ w'.dirty = w.dirty ++ ds

namespace Harvests

variable {log : Nat} {R R' : DirtyReport → Prop} {w w' w₁ w₂ : World}

theorem refl : Harvests log R w w := ⟨rfl, fun _ _ => rfl, rfl, [], by simp, by simp⟩

theorem trans (h₁ : Harvests log R w w₁) (h₂ : Harvests log R w₁ w₂) : Harvests log R w w₂ where
  rest := by
    calc { w₂ with heap := w.heap, dirty := w.dirty }
        = { { w₂ with heap := w₁.heap, dirty := w₁.dirty } with heap := w.heap, dirty := w.dirty } := rfl
      _ = w := by rw [h₂.rest, h₁.rest]
  heap_ne p hp := (h₂.heap_ne p hp).trans (h₁.heap_ne p hp)
  length := h₂.length.trans h₁.length
  dirty := by
    obtain ⟨ds₁, hR₁, hd₁⟩ := h₁.dirty
    obtain ⟨ds₂, hR₂, hd₂⟩ := h₂.dirty
    refine ⟨ds₁ ++ ds₂, fun d hd => ?_, by rw [hd₂, hd₁, List.append_assoc]⟩
    rcases List.mem_append.mp hd with hd | hd
    exacts [hR₁ d hd, hR₂ d hd]

theorem env (h : Harvests log R w w') : w'.env = w.env := by
  have h' := congrArg World.env h.rest
  exact h'

theorem brk (h : Harvests log R w w') : w'.brk = w.brk := by
  have h' := congrArg World.brk h.rest
  exact h'

theorem mono (h : Harvests log R w w') (hR : ∀ d, R d → R' d) : Harvests log R' w w' :=
  ⟨h.rest, h.heap_ne, h.length, by
    obtain ⟨ds, hds, hd⟩ := h.dirty
    exact ⟨ds, fun d hd' => hR d (hds d hd'), hd⟩⟩

end Harvests

/-- A loop whose every turn succeeds and harvests, from a world where a condition that
harvesting keeps holds, succeeds and harvests. -/
theorem forM_harvests {α : Type} {log : Nat} {R : DirtyReport → Prop} {P : World → Prop}
    (hP : ∀ w w', P w → Harvests log R w w' → P w') (f : α → VhostM Unit) :
    ∀ (l : List α), (∀ x ∈ l, ∀ w, P w → ∃ w', f x w = .ok ((), w') ∧ Harvests log R w w') →
      ∀ w, P w → ∃ w', l.forM f w = .ok ((), w') ∧ Harvests log R w w'
  | [], _, w, _ => ⟨w, rfl, Harvests.refl⟩
  | x :: l, hf, w, hw => by
    obtain ⟨w₁, h₁, hh₁⟩ := hf x (List.mem_cons_self _ _) w hw
    obtain ⟨w₂, h₂, hh₂⟩ := forM_harvests hP f l (fun y hy => hf y (List.mem_cons_of_mem _ hy)) w₁
      (hP w w₁ hw hh₁)
    refine ⟨w₂, ?_, hh₁.trans hh₂⟩
    show (f x >>= fun _ => l.forM f) w = _
    simp only [bind, StateT.bind, Except.bind, h₁, h₂]

/-- A harvest inside a triple keeps every condition that harvesting keeps. -/
theorem Triple.of_harvests {x : VhostM Unit} {log : Nat} {R : DirtyReport → Prop}
    {P : World → Prop} (h : ∀ w, P w → ∃ w', x w = .ok ((), w') ∧ Harvests log R w w')
    (hP : ∀ w w', P w → Harvests log R w w' → P w') : Triple P x (fun _ => P) :=
  Triple.of_ok fun w hw =>
    have ⟨w', hx, hh⟩ := h w hw
    ⟨(), w', hx, hP w w' hw hh⟩

section Word

variable {G} {dev : VhostDev} {sec : MemoryRegionSection} {w : World} {ws : List Nat} {i : Nat}

theorem forM_memoryRegionSetDirty (l : List Nat) (w : World) :
    (l.forM fun bit => memoryRegionSetDirty sec.mr (add64 sec.offsetWithinRegion (bit * G.page)) G.page) w =
      .ok ((), { w with dirty := w.dirty ++ l.map (dirtyReport G sec) }) := by
  induction l generalizing w with
  | nil => simp only [List.forM_nil, List.map_nil, List.append_nil]; rfl
  | cons b l ih =>
    show (memoryRegionSetDirty _ _ _ >>= fun _ => l.forM _) w = _
    simp only [bind, StateT.bind, Except.bind, memoryRegionSetDirty, ih, List.map_cons,
      List.append_assoc, List.singleton_append]
    rfl

@[simp] theorem setBits_zero : setBits G 0 = [] := by
  simp [setBits]

theorem mem_setBits {word b : Nat} (h : b ∈ setBits G word) : b < G.bits :=
  List.mem_range.mp (List.mem_filter.mp h).1

/-- One turn of the harvest clears its word and reports the word's set bits. -/
theorem syncWord_spec (hws : w.heap dev.log = some ws) (hi : i < ws.length) :
    syncWord G dev sec i w = .ok ((), { w with
      heap := Function.update w.heap dev.log (some (ws.set i 0)),
      dirty := w.dirty ++ (setBits G ws[i]).map (dirtyReport G sec) }) := by
  have hget : ws[i]? = some ws[i] := List.getElem?_eq_getElem hi
  by_cases h0 : ws[i] = 0
  · have hset : ws.set i 0 = ws := List.ext_getElem (List.length_set ..) fun j _ _ => by
      rw [List.getElem_set]
      split_ifs with h
      · subst h; exact h0.symm
      · rfl
    simp only [syncWord, bind, StateT.bind, Except.bind, logWord, hws, Option.bind, hget, h0,
      if_true, hset, setBits_zero, List.map_nil, List.append_nil]
    rw [← hws, Function.update_eq_self]
    rfl
  · simp only [syncWord, bind, StateT.bind, Except.bind, logWord, hws, Option.bind, hget, h0,
      if_false, pure, StateT.pure, Except.pure, logFetchAndClear, forM_memoryRegionSetDirty]

/-- One turn of the harvest, inside the log, harvests. -/
theorem syncWord_harvests (hws : w.heap dev.log = some ws) (hi : i < ws.length) :
    ∃ w', syncWord G dev sec i w = .ok ((), w') ∧
      Harvests dev.log (fun d => ∃ b < G.bits, d = dirtyReport G sec b) w w' := by
  refine ⟨_, syncWord_spec hws hi, ⟨rfl, fun p hp => Function.update_noteq hp _ _, ?_, ?_⟩⟩
  · simp [hws]
  · exact ⟨_, fun d hd => by
      obtain ⟨b, hb, rfl⟩ := List.mem_map.mp hd
      exact ⟨b, mem_setBits hb, rfl⟩, rfl⟩

end Word

/-- A report of a set bit against the section `sec`. -/
def SectionReport (sec : MemoryRegionSection) (d : DirtyReport) : Prop :=
  ∃ b < G.bits, d = dirtyReport G sec b

/-- The buffer at `dev->log` has at least `dev->log_size` words. -/
def LogFits (dev : VhostDev) (w : World) : Prop :=
  ∃ ws, w.heap dev.log = some ws ∧ dev.logSize ≤ ws.length

/-- The `assert`s of `vhost_dev_sync_region` on `[mfirst, mlast]` and `[rfirst, rlast]`: a
nonempty intersection ends inside the log. -/
def SyncBound (dev : VhostDev) (mfirst mlast rfirst rlast : Nat) : Prop :=
  max mfirst rfirst ≤ min mlast rlast → min mlast rlast / G.chunk < dev.logSize

section Region

variable {G} {dev : VhostDev} {sec : MemoryRegionSection} {w : World}

theorem LogFits.of_harvests {R : DirtyReport → Prop} {w' : World} (h : LogFits dev w)
    (hh : Harvests dev.log R w w') : LogFits dev w' := by
  obtain ⟨ws, hws, hle⟩ := h
  have hlen := hh.length
  rw [hws] at hlen
  cases hw' : w'.heap dev.log with
  | none => simp [hw'] at hlen
  | some ws' =>
    simp only [hw', Option.map_some', Option.some.injEq] at hlen
    exact ⟨ws', hw', hlen ▸ hle⟩

/-- `vhost_dev_sync_region` inside a log that fits: its `assert`s hold when the intersection,
if not empty, ends in the log, and then it harvests. -/
theorem vhostDevSyncRegion_harvests {mfirst mlast rfirst rlast : Nat} (hfit : LogFits dev w)
    (hb : SyncBound G dev mfirst mlast rfirst rlast) :
    ∃ w', vhostDevSyncRegion G dev sec mfirst mlast rfirst rlast w = .ok ((), w') ∧
      Harvests dev.log (SectionReport G sec) w w' := by
  unfold vhostDevSyncRegion
  by_cases hlt : min mlast rlast < max mfirst rfirst
  · exact ⟨w, by simp [hlt], Harvests.refl⟩
  · have hstop := hb (Nat.not_lt.mp hlt)
    have hstart : max mfirst rfirst / G.chunk < dev.logSize :=
      Nat.lt_of_le_of_lt (Nat.div_le_div_right (Nat.not_lt.mp hlt)) hstop
    obtain ⟨w', hw', hh⟩ := forM_harvests (fun _ _ h hh => h.of_harvests hh) (syncWord G dev sec)
      (chunkRange G (max mfirst rfirst) (min mlast rlast)) (fun j hj w₁ hfit₁ => by
        obtain ⟨ws, hws, hle⟩ := hfit₁
        have : j < ws.length := by
          rw [chunkRange, List.mem_range'_1] at hj
          omega
        exact syncWord_harvests hws this) w hfit
    refine ⟨w', ?_, hh⟩
    simp only [hlt, if_false, hstop, hstart, not_true_eq_false, bind, StateT.bind, Except.bind,
      pure, StateT.pure, Except.pure]
    exact hw'

theorem syncBound_of_rlast {mfirst mlast rfirst rlast : Nat} (h : rlast / G.chunk < dev.logSize) :
    SyncBound G dev mfirst mlast rfirst rlast :=
  fun _ => Nat.lt_of_le_of_lt (Nat.div_le_div_right (Nat.min_le_right _ _)) h

theorem syncBound_of_mlast {mfirst mlast rfirst rlast : Nat} (h : mlast / G.chunk < dev.logSize) :
    SyncBound G dev mfirst mlast rfirst rlast :=
  fun _ => Nat.lt_of_le_of_lt (Nat.div_le_div_right (Nat.min_le_left _ _)) h

/-- `vhost_sync_dirty_bitmap` does not abort and harvests, when a started device with logging on
has a log that fits and every region and used ring meets the range inside the log. -/
theorem vhostSyncDirtyBitmap_harvests {startAddr endAddr : Nat}
    (h : dev.logEnabled = true → dev.started = true → LogFits dev w ∧
      (∀ reg ∈ dev.mem, SyncBound G dev startAddr endAddr reg.guestPhysAddr
        (rangeGetLast reg.guestPhysAddr reg.memorySize)) ∧
      ∀ vq ∈ dev.vqs, SyncBound G dev startAddr endAddr vq.usedPhys
        (rangeGetLast vq.usedPhys vq.usedSize)) :
    ∃ w', vhostSyncDirtyBitmap G dev sec startAddr endAddr w = .ok ((), w') ∧
      Harvests dev.log (SectionReport G sec) w w' := by
  unfold vhostSyncDirtyBitmap
  cases hl : dev.logEnabled <;> cases hs : dev.started
  all_goals try exact ⟨w, rfl, Harvests.refl⟩
  obtain ⟨hfit, hmem, hvqs⟩ := h hl hs
  obtain ⟨w₁, h₁, hh₁⟩ := forM_harvests (fun _ _ h hh => h.of_harvests hh) _ dev.mem
    (fun reg hreg w hfit => vhostDevSyncRegion_harvests hfit (hmem reg hreg)) w hfit
  obtain ⟨w₂, h₂, hh₂⟩ := forM_harvests (fun _ _ h hh => h.of_harvests hh) _ dev.vqs
    (fun vq hvq w hfit => vhostDevSyncRegion_harvests hfit (hvqs vq hvq)) w₁ (hfit.of_harvests hh₁)
  refine ⟨w₂, ?_, hh₁.trans hh₂⟩
  simp only [Bool.not_true, Bool.or_self, Bool.false_eq_true, if_false, bind, StateT.bind,
    Except.bind, pure, StateT.pure, Except.pure]
  rw [h₁]
  exact h₂

/-- A log of at least `vhost_get_log_size` words meets every region and used ring inside, so
`vhost_sync_dirty_bitmap` harvests it over any range. -/
theorem vhostSyncDirtyBitmap_harvests_of_le {startAddr endAddr : Nat}
    (h : dev.logEnabled = true → dev.started = true →
      LogFits dev w ∧ vhostGetLogSize G dev.mem dev.vqs ≤ dev.logSize) :
    ∃ w', vhostSyncDirtyBitmap G dev sec startAddr endAddr w = .ok ((), w') ∧
      Harvests dev.log (SectionReport G sec) w w' :=
  vhostSyncDirtyBitmap_harvests fun hl hs =>
    have ⟨hfit, hle⟩ := h hl hs
    ⟨hfit, fun _ hR => syncBound_of_rlast (Nat.lt_of_lt_of_le (lt_vhostGetLogSize_of_mem hR) hle),
      fun _ hvq => syncBound_of_rlast (Nat.lt_of_lt_of_le (lt_vhostGetLogSize_of_vq hvq) hle)⟩

/-- `vhost_log_sync` on a device whose log holds `vhost_get_log_size` words does not abort; it
changes only the words of the log and reports each set bit `bit` it finds against the section at
`offset_within_region + bit * VHOST_LOG_PAGE`, whichever word the bit is in and wherever the
section starts. -/
theorem vhostLogSync_harvests
    (h : dev.logEnabled = true → dev.started = true →
      LogFits dev w ∧ vhostGetLogSize G dev.mem dev.vqs ≤ dev.logSize) :
    ∃ w', vhostLogSync G dev sec w = .ok ((), w') ∧ Harvests dev.log (SectionReport G sec) w w' :=
  vhostSyncDirtyBitmap_harvests_of_le h

/-- `vhost_dev_log_resize` harvests `[0, log_size * VHOST_LOG_CHUNK - 1]`: inside a log of
`log_size > 0` words, whatever the table and the rings. -/
theorem vhostSyncDirtyBitmap_harvests_logRange
    (h : dev.logEnabled = true → dev.started = true → LogFits dev w ∧ 0 < dev.logSize) :
    ∃ w', vhostSyncDirtyBitmap G dev sec 0 (sub64 (mul64 dev.logSize G.chunk) 1) w = .ok ((), w') ∧
      Harvests dev.log (SectionReport G sec) w w' :=
  vhostSyncDirtyBitmap_harvests fun hl hs =>
    have ⟨hfit, hpos⟩ := h hl hs
    have hb := G.sub64_mul64_chunk_div_lt hpos
    ⟨hfit, fun _ _ => syncBound_of_mlast hb, fun _ _ => syncBound_of_mlast hb⟩

end Region

/-- A started device with logging on: one region, guest `[0, 0x80000)`, one used ring at
`0x1000`, and at `1` a log of the two words the table needs. -/
def loggingDev : VhostDev :=
  ⟨[⟨0, 0x80000, 0x100000000⟩], [], [{ (default : VhostVirtqueue) with usedPhys := 0x1000, usedSize := 0x100 }],
    0, 1, 2, true, true⟩

/-- The accelerator has logged the guest page at `0x40000`: bit `0` of word `1`. -/
def loggedWorld : World :=
  { World.init ⟨fun _ => 0, fun _ addr len => (addr, len), 0, fun _ => ⟨0, 0, 0, 0, 0, 0, 0, 0, 0, 0, 0⟩,
      true, true⟩ with
    heap := fun p => if p = 1 then some [0, 1] else none
    brk := 3 }

/-- The whole table as one section, at offset `0x10000` in its memory region. -/
def offsetSection : MemoryRegionSection := ⟨⟨0, 0x200000000, true, false⟩, true, 0x10000, 0, 0x80000⟩

set_option smartUnfolding false in
/-- The page at `0x40000` lies at offset `0x10000 + 0x40000` of the section's memory region, but
`vhost_log_sync` clears its bit and reports it at `0x10000`, the offset of bit `0` of any word. -/
theorem vhostLogSync_reports_bit_offset :
    vhostGetLogSize .lp64 loggingDev.mem loggingDev.vqs = 2 ∧
      (vhostLogSync .lp64 loggingDev offsetSection loggedWorld).toOption.map
          (fun r => (r.2.heap 1, r.2.dirty)) =
        some (some [0, 0], [⟨offsetSection.mr, 0x10000, 0x1000⟩]) := by
  decide

/-! ### No dirty bit lost or reported twice -/

/-- The set bits of a list of log words. -/
def setBitCount : List Nat → Nat
  | [] => 0
  | word :: ws => (setBits G word).length + setBitCount ws

/-- The set bits the log buffer at `log` holds, counted as the harvest reports them. -/
def logBits (w : World) (log : Nat) : Nat := setBitCount G ((w.heap log).getD [])

/-- Clearing a word takes its set bits out of the count. -/
theorem setBitCount_set_zero :
    ∀ (ws : List Nat) (i : Nat) (hi : i < ws.length),
      setBitCount G (ws.set i 0) + (setBits G ws[i]).length = setBitCount G ws
  | _ :: _, 0, _ => by simp [setBitCount, setBits_zero, Nat.add_comm]
  | _ :: ws, i + 1, hi => by
    have := setBitCount_set_zero ws i (by simpa using hi)
    simp only [List.set_cons_succ, setBitCount, List.getElem_cons_succ]
    omega

/-- One turn of the harvest moves the set bits of its word from the log into the reports. -/
theorem keeps_syncWord_count (dev : VhostDev) (sec : MemoryRegionSection) (i : Nat) :
    Keeps (fun w => logBits G w dev.log + w.dirty.length) (syncWord G dev sec i) :=
  fun w _ w' h => by
  obtain ⟨_, _, h₁, -⟩ := bind_eq_ok.1 h
  obtain ⟨ws, hws, hi, -, -⟩ := logWord_eq_ok h₁
  rw [syncWord_spec hws hi] at h
  obtain ⟨-, rfl⟩ := Prod.mk.inj (Except.ok.inj h)
  have := setBitCount_set_zero G ws i hi
  simp only [logBits, Function.update_same, hws, Option.getD_some, List.length_append,
    List.length_map]
  omega

/-- `vhost_sync_dirty_bitmap`, and so `vhost_log_sync`, turns the bits it clears into reports
one for one: the set bits of the log and the reports made add up to the same number before and
after. The count does not see which page a report names. -/
theorem vhostSyncDirtyBitmap_conserves {dev : VhostDev} {sec : MemoryRegionSection}
    {startAddr endAddr : Nat} {w w' : World}
    (h : vhostSyncDirtyBitmap G dev sec startAddr endAddr w = .ok ((), w')) :
    logBits G w' dev.log + w'.dirty.length = logBits G w dev.log + w.dirty.length :=
  keeps_vhostSyncDirtyBitmap_of G (keeps_syncWord_count G dev sec) startAddr endAddr h

set_option smartUnfolding false in
/-- The harvest of the whole table of `loggingDev` moves the one set bit of `loggedWorld` into
one report. -/
theorem vhostSyncDirtyBitmap_conserves_loggedWorld :
    ∃ w', vhostSyncDirtyBitmap .lp64 loggingDev offsetSection 0 0x80000 loggedWorld = .ok ((), w') ∧
      logBits .lp64 w' 1 + w'.dirty.length = logBits .lp64 loggedWorld 1 + loggedWorld.dirty.length :=
  let ⟨w', h⟩ : ∃ w', vhostSyncDirtyBitmap .lp64 loggingDev offsetSection 0 0x80000 loggedWorld =
      .ok ((), w') := ⟨_, rfl⟩
  ⟨w', h, vhostSyncDirtyBitmap_conserves .lp64 h⟩

end Vhost
