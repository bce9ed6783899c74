import Vhost.Sync

/-!
# The memory listener

`vhost_region_add` and `vhost_region_del` track the sections of system RAM and call
`vhost_set_memory`. Once the table half (`vhostSetMemorySection`) has changed the table, a
started device checks that no ring moved, and pushes the table to the accelerator. With
logging on, the log must cover every region the accelerator may write: it grows before the
push and shrinks after it (`vhost_dev_log_resize`), and a resize harvests the old log for
every tracked section before freeing it.

## Main definitions

* `vhostDevLogResize`, `vhostVerifyRingMappings`, `vhostSetMemory`
* `vhostRegionAdd`, `vhostRegionDel`

## Main results

* `vhostSetMemory_inv` — what a `vhost_set_memory` that returns has done to the device, the
  accelerator and the host mappings
* `vhostSetMemory_mapped` — it keeps the rings and the host mappings, up to their order
-/

set_option autoImplicit false

namespace Vhost

variable (G : LogGeometry) {env : Env}

/-- `vhost_dev_log_resize`: a new log of `size` words (`NULL` for none), whose address the
accelerator reads through `&log_base`; the old log is harvested for every tracked section over
the range it covers, `[0, log_size * VHOST_LOG_CHUNK - 1]`, then freed. -/
def vhostDevLogResize (dev : VhostDev) (size : Nat) : VhostM VhostDev := do
  let log ← (if size ≠ 0 then gMalloc0 size else pure 0 : VhostM Nat)
  let r ← ioctlSetLogBase (.local log)
  unless 0 ≤ r do throw .logResize
  dev.memSections.forM fun sec =>
    vhostSyncDirtyBitmap G dev sec 0 (sub64 (mul64 dev.logSize G.chunk) 1)
  if dev.log ≠ 0 then gFree dev.log
  return { dev with log := log, logSize := size }

/-- `vhost_dev_log_resize` to `size > 0` words, from a world where the old log, if the device
harvests it, is a buffer of at least `log_size > 0` words: the new log is a fresh buffer of
`size` zero words at the break, and the only abort is the `assert` on `VHOST_SET_LOG_BASE`. -/
theorem vhostDevLogResize_triple {dev : VhostDev} {size : Nat} {w₀ : World} (hsize : 0 < size)
    (hlt : dev.log < w₀.brk)
    (hfit : dev.logEnabled = true → dev.started = true → LogFits dev w₀ ∧ 0 < dev.logSize) :
    Triple (· = w₀) (vhostDevLogResize G dev size)
      (fun dev' w => dev' = { dev with log := w₀.brk, logSize := size } ∧
        w.heap w₀.brk = some (List.replicate size 0) ∧ w₀.brk < w.brk ∧ w.env = w₀.env) := by
  -- what the steps after the allocation keep: the new buffer, and the old one while harvested
  let P : World → Prop := fun w => w.heap w₀.brk = some (List.replicate size 0) ∧
    w₀.brk < w.brk ∧ w.env = w₀.env ∧
    (dev.logEnabled = true → dev.started = true → LogFits dev w ∧ 0 < dev.logSize)
  have hne : w₀.brk ≠ dev.log := Nat.ne_of_gt hlt
  have hPq : ∀ w w', P w → Quiet w w' → P w' := fun w w' ⟨h₁, h₂, h₃, h₄⟩ hq => by
    refine ⟨hq.heap ▸ h₁, hq.brk ▸ h₂, hq.env ▸ h₃, fun hl hs => ?_⟩
    obtain ⟨⟨ws, hws, hle⟩, hpos⟩ := h₄ hl hs
    exact ⟨⟨ws, hq.heap ▸ hws, hle⟩, hpos⟩
  have hPh : ∀ sec w w', P w → Harvests dev.log (SectionReport G sec) w w' → P w' :=
    fun _ w w' ⟨h₁, h₂, h₃, h₄⟩ hh => ⟨(hh.heap_ne _ hne).trans h₁, hh.brk ▸ h₂, hh.env ▸ h₃,
      fun hl hs => ⟨(h₄ hl hs).1.of_harvests hh, (h₄ hl hs).2⟩⟩
  unfold vhostDevLogResize
  rw [if_pos (Nat.pos_iff_ne_zero.mp hsize)]
  dsimp only
  refine (triple_gMalloc0 size w₀).bind fun log => ?_
  refine Triple.conseq (P := fun w => P w ∧ log = w₀.brk) ?_ (fun w ⟨hlog, hw⟩ => ⟨?_, hlog⟩)
    (fun _ _ h => h)
  · refine Triple.intro_pure fun hlog => ?_
    subst hlog
    refine ((calm_ioctlSetLogBase _).triple P hPq fun _ hw => hw.2.2.1).bind fun r => ?_
    split
    · refine (Triple.ret (Q := fun _ => P) fun _ hw => hw.1).bind fun _ => ?_
      have hloop : Triple P (dev.memSections.forM fun sec =>
          vhostSyncDirtyBitmap G dev sec 0 (sub64 (mul64 dev.logSize G.chunk) 1)) (fun _ => P) :=
        Triple.forM fun sec _ => Triple.of_harvests (fun w hw =>
          vhostSyncDirtyBitmap_harvests_logRange hw.2.2.2) (hPh sec)
      refine hloop.bind fun _ => ?_
      split
      · refine Triple.ghost fun w₁ hw₁ => (triple_gFree _ w₁).bind fun _ => Triple.ret ?_
        rintro w ⟨he, hb, hh⟩
        exact ⟨rfl, (hh _ hne).trans hw₁.1, hb ▸ hw₁.2.1, he.trans hw₁.2.2.1⟩
      · exact (Triple.ret (Q := fun _ => P) fun _ hw => hw).bind fun _ =>
          Triple.ret fun _ hw => ⟨rfl, hw.1, hw.2.1, hw.2.2.1⟩
    · exact (Triple.abort (Q := fun _ _ => False) (by decide)).bind fun _ _ h => h.elim
  · subst hw
    exact ⟨Function.update_same _ _ _, by simp only; omega, rfl,
      fun hl hs => have ⟨⟨ws, hws, hle⟩, hpos⟩ := hfit hl hs
        ⟨⟨ws, (Function.update_noteq hne.symm _ _).trans hws, hle⟩, hpos⟩⟩

/-- `vhost_dev_log_resize` only replaces the log and points the accelerator at the new one: the
harvest of the old log in between never talks to the accelerator. -/
theorem vhostDevLogResize_accel {dev dev' : VhostDev} {size : Nat} {w w' : World}
    (h : vhostDevLogResize G dev size w = .ok (dev', w')) :
    ∃ log, dev' = { dev with log := log, logSize := size } ∧
      w'.accel = { w.accel with logBase := log } := by
  unfold vhostDevLogResize at h
  obtain ⟨log, w₁, h₁, h⟩ := bind_eq_ok.1 h
  have ha₁ : w₁.accel = w.accel := by
    split_ifs at h₁ <;> simp [gMalloc0] at h₁ <;> rw [← h₁.2]
  obtain ⟨r, w₂, h₂, h⟩ := bind_eq_ok.1 h
  rcases ioctl_accel (show ioctl (.setLogBase log) w₁ = .ok (r, w₂) from h₂) with ⟨rfl, ha₂⟩ | ⟨rfl, -, -⟩
  · rw [if_pos (Int.le_refl 0), pure_bind] at h
    obtain ⟨_, w₃, h₃, h⟩ := bind_eq_ok.1 h
    have ha₃ := Keeps.forM (fun _ _ => keeps_vhostSyncDirtyBitmap G logBlind_accel _ _ _ _) h₃
    split_ifs at h
    · obtain ⟨_, w₄, h₄, h⟩ := bind_eq_ok.1 h
      obtain ⟨rfl, rfl⟩ := pure_eq_ok.1 h
      simp only [gFree, Except.ok.injEq, Prod.mk.injEq] at h₄
      refine ⟨log, rfl, ?_⟩
      rw [← h₄.2]
      split_ifs <;> rw [ha₃, ha₂, ha₁] <;> rfl
    · obtain ⟨rfl, rfl⟩ := pure_eq_ok.1 (by simpa only [pure_bind] using h)
      exact ⟨log, rfl, by rw [ha₃, ha₂, ha₁]; rfl⟩
  · rw [if_neg (by decide)] at h
    obtain ⟨_, _, h, -⟩ := bind_eq_ok.1 h
    exact absurd h throw_ne_ok

theorem keeps_vhostDevLogResize {γ : Type} {f : World → γ} (hf : Blind f) (dev : VhostDev)
    (size : Nat) : Keeps f (vhostDevLogResize G dev size) :=
  (Keeps.ite (keeps_gMalloc0 hf _) Keeps.ret).bind fun _ =>
    (keeps_ioctlSetLogBase hf _).bind fun _ => Keeps.ite
      (Keeps.ret.bind fun _ => (Keeps.forM fun _ _ =>
        keeps_vhostSyncDirtyBitmap G hf.logBlind _ _ _ _).bind fun _ =>
          Keeps.ite ((keeps_gFree hf.logBlind _).bind fun _ => Keeps.ret)
            (Keeps.ret.bind fun _ => Keeps.ret))
      Keeps.abort_bind

/-- `vhost_dev_log_resize` keeps the rings of the device, whether it is started, and its table. -/
theorem returns_vhostDevLogResize (dev : VhostDev) (size : Nat) :
    Returns (fun d => d.vqs = dev.vqs ∧ d.started = dev.started ∧ d.mem = dev.mem)
      (vhostDevLogResize G dev size) :=
  fun _ _ _ h => by
  obtain ⟨_, rfl, -⟩ := vhostDevLogResize_accel G h
  exact ⟨rfl, rfl, rfl⟩

/-- The resizes of `vhost_set_memory`, made when the log is too small or too large: either
way the device keeps all but its log, and the accelerator all but its log base. -/
theorem vhostDevLogResize_ite_accel {c : Prop} [Decidable c] {dev dev' : VhostDev} {size : Nat}
    {w w' : World} (h : (if c then vhostDevLogResize G dev size else pure dev) w = .ok (dev', w')) :
    ∃ log logSize base, dev' = { dev with log := log, logSize := logSize } ∧
      w'.accel = { w.accel with logBase := base } := by
  split_ifs at h
  · obtain ⟨log, rfl, ha⟩ := vhostDevLogResize_accel G h
    exact ⟨log, size, log, rfl, ha⟩
  · obtain ⟨rfl, rfl⟩ := pure_eq_ok.1 h
    exact ⟨_, _, _, rfl, rfl⟩

/-- One turn of the loop of `vhost_verify_ring_mappings`, for a ring that overlaps the range:
the ring area is mapped again, and must come back whole and at the same host address. The
mapping is released only when it does. -/
def verifyRing (vq : VhostVirtqueue) : VhostM Int := do
  let (p, l) ← cpuPhysicalMemoryMap vq.ringPhys vq.ringSize
  if p = 0 ∨ l ≠ vq.ringSize then return -(enomem : Int)
  if p ≠ vq.ring then return -(ebusy : Int)
  cpuPhysicalMemoryUnmap p
  return 0

theorem calm_verifyRing (vq : VhostVirtqueue) : Calm env (fun _ => True) (verifyRing vq) :=
  (calm_cpuPhysicalMemoryMap _ _).bind fun _ _ => Calm.ite (fun _ => Calm.ret trivial) fun _ =>
    Calm.pure_bind <| Calm.ite (fun _ => Calm.ret trivial) fun _ =>
      Calm.pure_bind <| (calm_cpuPhysicalMemoryUnmap _).bind fun _ _ => Calm.ret trivial

theorem keeps_verifyRing {γ : Type} {f : World → γ} (hf : MapBlind f) (vq : VhostVirtqueue) :
    Keeps f (verifyRing vq) :=
  (keeps_cpuPhysicalMemoryMap hf _ _).bind fun _ => Keeps.ite Keeps.ret <| Keeps.ret.bind fun _ =>
    Keeps.ite Keeps.ret <| Keeps.ret.bind fun _ =>
      (keeps_cpuPhysicalMemoryUnmap hf _).bind fun _ => Keeps.ret

/-- A ring that passes the check has had its new mapping released again: the host mappings are
as they were, up to their order. -/
theorem verifyRing_mapped {vq : VhostVirtqueue} {w w' : World} {r : Int}
    (h : verifyRing vq w = .ok (r, w')) (hr : 0 ≤ r) : w'.mapped.Perm w.mapped := by
  obtain ⟨⟨p, l⟩, w₁, h₁, h⟩ := bind_eq_ok.1 h
  dsimp only at h
  by_cases hp : p = 0 ∨ l ≠ vq.ringSize
  · rw [if_pos hp, pure_eq_ok] at h
    exact absurd (h.1 ▸ neg_enomem_lt_zero) (Int.not_lt.2 hr)
  rw [if_neg hp, pure_bind] at h
  by_cases hv : p ≠ vq.ring
  · rw [if_pos hv, pure_eq_ok] at h
    exact absurd (h.1 ▸ show -(ebusy : Int) < 0 by decide) (Int.not_lt.2 hr)
  rw [if_neg hv, pure_bind] at h
  obtain ⟨_, w₂, h₂, h⟩ := bind_eq_ok.1 h
  obtain ⟨-, rfl⟩ := pure_eq_ok.1 h
  obtain ⟨-, rfl⟩ := Prod.mk.inj (Except.ok.inj h₂)
  rw [cpuPhysicalMemoryMap_mapped h₁ (not_or.1 hp).1]
  exact ((List.perm_append_singleton p _).symm.trans (List.perm_cons_erase (by simp))).cons_inv.symm

/-- `vhost_verify_ring_mappings`: every ring whose area overlaps `[startAddr, startAddr + size)`
is verified; the first that fails decides the result. -/
def vhostVerifyRingMappings (startAddr size : Nat) : List VhostVirtqueue → VhostM Int
  | [] => return 0
  | vq :: vqs => do
    if ¬ RangesOverlap startAddr size vq.ringPhys vq.ringSize then
      vhostVerifyRingMappings startAddr size vqs
    else
      let r ← verifyRing vq
      if r < 0 then return r
      vhostVerifyRingMappings startAddr size vqs

theorem calm_vhostVerifyRingMappings (startAddr size : Nat) :
    ∀ vqs, Calm env (fun _ => True) (vhostVerifyRingMappings startAddr size vqs)
  | [] => Calm.ret trivial
  | vq :: vqs => Calm.ite (fun _ => calm_vhostVerifyRingMappings startAddr size vqs) fun _ =>
    (calm_verifyRing vq).bind fun _ _ => Calm.ite (fun _ => Calm.ret trivial) fun _ =>
      Calm.pure_bind (calm_vhostVerifyRingMappings startAddr size vqs)

theorem keeps_vhostVerifyRingMappings {γ : Type} {f : World → γ} (hf : MapBlind f)
    (startAddr size : Nat) : ∀ vqs, Keeps f (vhostVerifyRingMappings startAddr size vqs)
  | [] => Keeps.ret
  | vq :: vqs => Keeps.ite (keeps_vhostVerifyRingMappings hf startAddr size vqs) <|
    (keeps_verifyRing hf vq).bind fun _ => Keeps.ite Keeps.ret <|
      Keeps.ret.bind fun _ => keeps_vhostVerifyRingMappings hf startAddr size vqs

theorem vhostVerifyRingMappings_mapped {startAddr size : Nat} :
    ∀ {vqs : List VhostVirtqueue} {w w' : World} {r : Int},
      vhostVerifyRingMappings startAddr size vqs w = .ok (r, w') → 0 ≤ r →
        w'.mapped.Perm w.mapped
  | [], _, _, _, h, _ => by
    obtain ⟨-, rfl⟩ := pure_eq_ok.1 h
    exact .refl _
  | vq :: vqs, w, w', r, h, hr => by
    rw [vhostVerifyRingMappings] at h
    split_ifs at h
    swap
    · exact vhostVerifyRingMappings_mapped h hr
    -- a ring that overlaps the range is checked, and the first that fails decides the result
    obtain ⟨r₁, w₁, h₁, h⟩ := bind_eq_ok.1 h
    by_cases hr₁ : r₁ < 0
    · rw [if_pos hr₁, pure_eq_ok] at h
      exact absurd (h.1 ▸ hr₁) (Int.not_lt.2 hr)
    rw [if_neg hr₁, pure_bind] at h
    exact (vhostVerifyRingMappings_mapped h hr).trans (verifyRing_mapped h₁ (Int.not_lt.1 hr₁))

/-- `vhost_set_memory`. The table half is `vhostSetMemorySection`; the rest pushes a changed
table to a started device, growing the log before the push and shrinking it after. -/
def vhostSetMemory (dev : VhostDev) (sec : MemoryRegionSection) (add : Bool) : VhostM VhostDev := do
  if sec.size = 0 then throw .setMemory
  let some (changed, mem) := vhostSetMemorySection dev.mem sec add | throw .regionTable
  let dev := { dev with mem := mem }
  if !changed || !dev.started then return dev
  let r ← vhostVerifyRingMappings sec.offsetWithinAddressSpace sec.size dev.vqs
  unless 0 ≤ r do throw .setMemory
  if !dev.logEnabled then
    let r ← ioctl (.setMemTable dev.mem)
    unless 0 ≤ r do throw .setMemory
    return dev
  let logSize := vhostGetLogSize G dev.mem dev.vqs
  let dev ← (if dev.logSize < logSize then vhostDevLogResize G dev (logSize + G.buffer)
    else pure dev : VhostM VhostDev)
  let r ← ioctl (.setMemTable dev.mem)
  unless 0 ≤ r do throw .setMemory
  if logSize + G.buffer < dev.logSize then vhostDevLogResize G dev logSize else return dev

/-- What a `vhost_set_memory` that returns has done: the table half gave the new table, and the
device has it. A device that is stopped, or whose table did not change, is all that changed.
Otherwise the rings that overlap the section passed the check, and the table was pushed: with
logging off, that is all; with logging on, the log was resized before the push when too small,
and after it when too large. -/
theorem vhostSetMemory_inv {dev dev' : VhostDev} {sec : MemoryRegionSection} {add : Bool}
    {w w' : World} (h : vhostSetMemory G dev sec add w = .ok (dev', w')) :
    ∃ changed mem, vhostSetMemorySection dev.mem sec add = some (changed, mem) ∧
      ((changed = false ∨ dev.started = false) ∧ dev' = { dev with mem := mem } ∧ w' = w ∨
        changed = true ∧ dev.started = true ∧ ∃ r w₁,
          vhostVerifyRingMappings sec.offsetWithinAddressSpace sec.size dev.vqs w = .ok (r, w₁) ∧
          0 ≤ r ∧
          (dev.logEnabled = false ∧ dev' = { dev with mem := mem } ∧
              ioctl (.setMemTable mem) w₁ = .ok (0, w') ∨
            dev.logEnabled = true ∧ ∃ dev₂ w₂ w₃,
              (if dev.logSize < vhostGetLogSize G mem dev.vqs then
                vhostDevLogResize G { dev with mem := mem } (vhostGetLogSize G mem dev.vqs + G.buffer)
              else pure { dev with mem := mem }) w₁ = .ok (dev₂, w₂) ∧
              ioctl (.setMemTable dev₂.mem) w₂ = .ok (0, w₃) ∧
              (if vhostGetLogSize G mem dev.vqs + G.buffer < dev₂.logSize then
                vhostDevLogResize G dev₂ (vhostGetLogSize G mem dev.vqs)
              else pure dev₂) w₃ = .ok (dev', w'))) := by
  unfold vhostSetMemory at h
  by_cases hz : sec.size = 0
  · rw [if_pos hz] at h
    exact absurd h (by simp [bind_eq_ok])
  rw [if_neg hz, pure_bind] at h
  rcases hs : vhostSetMemorySection dev.mem sec add with _ | ⟨changed, mem⟩
  · rw [hs] at h
    exact absurd h throw_ne_ok
  rw [hs] at h
  dsimp only at h
  refine ⟨changed, mem, rfl, ?_⟩
  by_cases hc : (!changed || !dev.started) = true
  · rw [if_pos hc] at h
    obtain ⟨rfl, rfl⟩ := pure_eq_ok.1 h
    exact .inl ⟨by simpa using hc, rfl, rfl⟩
  rw [if_neg hc, pure_bind] at h
  obtain ⟨hch, hst⟩ : changed = true ∧ dev.started = true := by simpa using hc
  obtain ⟨r₁, w₁, h₁, h⟩ := bind_eq_ok.1 h
  by_cases hr₁ : 0 ≤ r₁
  swap
  · rw [if_neg hr₁] at h
    exact absurd h (by simp [bind_eq_ok])
  rw [if_pos hr₁, pure_bind] at h
  refine .inr ⟨hch, hst, r₁, w₁, h₁, hr₁, ?_⟩
  by_cases hle : (!dev.logEnabled) = true
  · -- logging off: the table is pushed
    rw [if_pos hle] at h
    obtain ⟨r₂, w₂, h₂, h⟩ := bind_eq_ok.1 h
    rcases ioctl_accel h₂ with ⟨rfl, -⟩ | ⟨rfl, -, -⟩
    swap
    · rw [if_neg (by decide)] at h
      obtain ⟨_, _, h, -⟩ := bind_eq_ok.1 h
      exact absurd h throw_ne_ok
    rw [if_pos (Int.le_refl 0), pure_bind, pure_eq_ok] at h
    obtain ⟨rfl, rfl⟩ := h
    exact .inl ⟨by simpa using hle, rfl, h₂⟩
  -- logging on: the log grows before the push and shrinks after it
  rw [if_neg hle, pure_bind] at h
  obtain ⟨dev₂, w₂, h₂, h⟩ := bind_eq_ok.1 h
  obtain ⟨r₃, w₃, h₃, h⟩ := bind_eq_ok.1 h
  rcases ioctl_accel h₃ with ⟨rfl, -⟩ | ⟨rfl, -, -⟩
  swap
  · rw [if_neg (by decide)] at h
    obtain ⟨_, _, h, -⟩ := bind_eq_ok.1 h
    exact absurd h throw_ne_ok
  rw [if_pos (Int.le_refl 0), pure_bind] at h
  exact .inr ⟨by simpa using hle, dev₂, w₂, w₃, h₂, h₃, h⟩

/-- A `vhost_set_memory` that returns keeps the rings of the device and whether it is started,
and the host mappings up to their order. -/
theorem vhostSetMemory_mapped {dev dev' : VhostDev} {sec : MemoryRegionSection} {add : Bool}
    {w w' : World} (h : vhostSetMemory G dev sec add w = .ok (dev', w')) :
    dev'.vqs = dev.vqs ∧ dev'.started = dev.started ∧ w'.mapped.Perm w.mapped := by
  obtain ⟨_, _, -, ⟨-, rfl, rfl⟩ | ⟨-, -, _, _, h₁, hr₁, ⟨-, rfl, h₂⟩ | ⟨-, _, _, _, h₂, h₃, h₄⟩⟩⟩ :=
    vhostSetMemory_inv G h
  · exact ⟨rfl, rfl, .refl _⟩
  · exact ⟨rfl, rfl, keeps_ioctl blind_mapped _ h₂ ▸ vhostVerifyRingMappings_mapped h₁ hr₁⟩
  · obtain ⟨_, _, _, rfl, -⟩ := vhostDevLogResize_ite_accel G h₂
    obtain ⟨_, _, _, rfl, -⟩ := vhostDevLogResize_ite_accel G h₄
    refine ⟨rfl, rfl, ?_⟩
    rw [Keeps.ite (keeps_vhostDevLogResize G blind_mapped _ _) Keeps.ret h₄,
      keeps_ioctl blind_mapped _ h₃,
      Keeps.ite (keeps_vhostDevLogResize G blind_mapped _ _) Keeps.ret h₂]
    exact vhostVerifyRingMappings_mapped h₁ hr₁

/-- A `vhost_set_memory` that returns keeps every part of the world that neither the
accelerator's commands, the allocator, the harvests nor the mappings change. -/
theorem keeps_vhostSetMemory {γ : Type} {f : World → γ} (hf : Blind f) (hm : MapBlind f)
    (dev : VhostDev) (sec : MemoryRegionSection) (add : Bool) :
    Keeps f (vhostSetMemory G dev sec add) := fun _ _ _ h => by
  obtain ⟨_, _, -, ⟨-, -, rfl⟩ | ⟨-, -, _, _, h₁, -, ⟨-, -, h₂⟩ | ⟨-, _, _, _, h₂, h₃, h₄⟩⟩⟩ :=
    vhostSetMemory_inv G h
  · rfl
  · rw [keeps_ioctl hf _ h₂, keeps_vhostVerifyRingMappings hm _ _ _ h₁]
  · rw [Keeps.ite (keeps_vhostDevLogResize G hf _ _) Keeps.ret h₄, keeps_ioctl hf _ h₃,
      Keeps.ite (keeps_vhostDevLogResize G hf _ _) Keeps.ret h₂,
      keeps_vhostVerifyRingMappings hm _ _ _ h₁]

/-- `vhost_section`: a section of RAM in the system address space. -/
def vhostSection (sec : MemoryRegionSection) : Bool := sec.systemMemory && sec.mr.isRam

/-- `vhost_region_add`: the section is tracked, then added. -/
def vhostRegionAdd (dev : VhostDev) (sec : MemoryRegionSection) : VhostM VhostDev := do
  if !vhostSection sec then return dev
  vhostSetMemory G { dev with memSections := dev.memSections ++ [sec] } sec true

/-- `vhost_region_del`: the section is removed, then the first tracked section that starts at
the same guest address is forgotten. -/
def vhostRegionDel (dev : VhostDev) (sec : MemoryRegionSection) : VhostM VhostDev := do
  if !vhostSection sec then return dev
  let dev ← vhostSetMemory G dev sec false
  return { dev with memSections := dev.memSections.eraseP fun s =>
    s.offsetWithinAddressSpace = sec.offsetWithinAddressSpace }

end Vhost
