import Vhost.Run

/-!
# The accelerator tracks the started device

While the device is started, `vhost.c` keeps the in-kernel accelerator in step with it: the
memory table, the feature word and the addresses of every ring that the accelerator holds are
the ones the device's own state asks for. `vhost_set_memory` pushes every new table of a started
device, `vhost_migration_log` pushes the features and ring addresses of the new log flag before
it records the flag, and `vhost_dev_start` pushes all of them before it marks the device
started. The harvests of the log, the accelerator's own writes to it and the resizes of the log
change none of them.

This holds for the runs the callers of `vhost.c` make, which start the device only when it is
stopped. A `vhost_dev_start` on a started device that fails halfway leaves the device marked
started with rings that no longer match what it pushed.

## Main definitions

* `Tracks` — what the accelerator of a started device holds
* `AccelInv` — the invariant: a started device is tracked
* `startsStopped` — the callers' contract, along a run

## Main results

* `vhostStep_accelInv` — every event keeps the invariant, a start on a stopped device included
* `vhostRun_of_step` — what every event keeps holds along every run that keeps the contract
* `vhostRun_tracks` — along every run from `vhost_dev_init` that keeps the contract, a started
  device is tracked
-/

set_option autoImplicit false

namespace Vhost

variable (G : LogGeometry)

/-- What the accelerator of a started device holds: the device's memory table, and the feature
word and ring addresses that the device's log flag pushes. -/
structure Tracks (dev : VhostDev) (a : Accel) : Prop where
  memTable : a.memTable = dev.mem
  configured : LogConfigured dev dev.logEnabled a

/-- The invariant of the accelerator: a started device is tracked by it. -/
def AccelInv (dev : VhostDev) (w : World) : Prop := dev.started = true → Tracks dev w.accel

theorem AccelInv.of_accel {dev : VhostDev} {w w' : World} (hi : AccelInv dev w)
    (ha : w'.accel = w.accel) : AccelInv dev w' := fun hs => ha ▸ hi hs

/-! ### One call at a time -/

/-- A `vhost_set_memory` that returns keeps the invariant: a started device whose table changed
has pushed the new table, after at most a resize of the log; otherwise the table is the one the
accelerator holds already, or the device is stopped. -/
theorem vhostSetMemory_accelInv {dev dev' : VhostDev} {sec : MemoryRegionSection} {add : Bool}
    {w w' : World} (hi : AccelInv dev w) (h : vhostSetMemory G dev sec add w = .ok (dev', w')) :
    AccelInv dev' w' := by
  obtain ⟨changed, mem, hs, ⟨hcs, rfl, rfl⟩ | ⟨-, hst, _, w₁, h₁, -, hpush⟩⟩ :=
    vhostSetMemory_inv G h
  · -- a started device whose table did not change
    intro hst
    obtain rfl : changed = false := hcs.resolve_right (by simp [show dev.started = true from hst])
    obtain rfl := vhostSetMemoryRegions_unchanged hs
    exact ⟨(hi hst).memTable, (hi hst).configured.features, (hi hst).configured.vringAddr⟩
  -- the new table was pushed; besides, at most the log base changed
  have lc := (hi hst).configured
  have ha₁ := keeps_vhostVerifyRingMappings mapBlind_accel _ _ _ h₁
  rcases hpush with ⟨-, rfl, h₂⟩ | ⟨-, _, w₂, w₃, h₂, h₃, h₄⟩
  · rcases ioctl_accel h₂ with ⟨-, ha₂⟩ | ⟨h0, -⟩
    · intro _
      rw [ha₂, ha₁]
      exact ⟨rfl, lc.features, lc.vringAddr⟩
    · exact absurd h0 (by decide)
  · obtain ⟨_, _, _, rfl, ha₂⟩ := vhostDevLogResize_ite_accel G h₂
    obtain ⟨_, _, _, rfl, ha₄⟩ := vhostDevLogResize_ite_accel G h₄
    rcases ioctl_accel h₃ with ⟨-, ha₃⟩ | ⟨h0, -⟩
    · intro _
      rw [ha₄, ha₃, ha₂, ha₁]
      exact ⟨rfl, lc.features, lc.vringAddr⟩
    · exact absurd h0 (by decide)

/-- A `vhost_migration_log` that does not fail keeps the invariant: on a started device, the new
log flag's features and ring addresses are pushed before the flag is recorded. -/
theorem vhostMigrationLog_accelInv {dev dev' : VhostDev} {enable : Bool} {w w' : World} {r : Int}
    (hi : AccelInv dev w) (h : vhostMigrationLog G dev enable w = .ok ((r, dev'), w'))
    (hr : ¬ r < 0) : AccelInv dev' w' := by
  unfold vhostMigrationLog at h
  by_cases h₁ : enable = dev.logEnabled
  · rw [if_pos h₁, pure_eq_ok] at h
    obtain ⟨hp, rfl⟩ := h
    obtain ⟨-, rfl⟩ := Prod.mk.inj hp
    exact hi
  rw [if_neg h₁] at h
  by_cases h₂ : (!dev.started) = true
  · rw [if_pos h₂, pure_eq_ok] at h
    obtain ⟨hp, rfl⟩ := h
    obtain ⟨-, rfl⟩ := Prod.mk.inj hp
    exact fun hs => absurd hs (by simpa using h₂)
  rw [if_neg h₂] at h
  have ht := hi (by simpa using h₂)
  by_cases h₃ : (!enable) = true
  · -- off: the log flag is cleared on the accelerator, then the log is freed
    rw [if_pos h₃] at h
    obtain ⟨r₁, w₁, h₁', h⟩ := bind_eq_ok.1 h
    by_cases hr₁ : r₁ < 0
    · rw [if_pos hr₁, pure_eq_ok] at h
      exact absurd ((Prod.mk.inj h.1).1 ▸ hr₁) hr
    rw [if_neg hr₁, pure_bind] at h
    dsimp only at h
    obtain ⟨hp, ha⟩ : ((0 : Int), { dev with log := 0, logSize := 0, logEnabled := enable }) =
        (r, dev') ∧ w'.accel = w₁.accel := by
      split_ifs at h
      · obtain ⟨_, w₂, h₂', h⟩ := bind_eq_ok.1 h
        obtain ⟨hp, rfl⟩ := pure_eq_ok.1 h
        exact ⟨hp, keeps_gFree logBlind_accel _ h₂'⟩
      · rw [pure_bind, pure_eq_ok] at h
        obtain ⟨hp, rfl⟩ := h
        exact ⟨hp, rfl⟩
    obtain ⟨-, rfl⟩ := Prod.mk.inj hp
    obtain ⟨hm, hc⟩ := vhostDevSetLog_configured h₁' hr₁
    obtain rfl : enable = false := by simpa using h₃
    intro _
    rw [ha]
    exact ⟨hm.trans ht.memTable, hc.features, hc.vringAddr⟩
  · -- on: the log is allocated at its size, then the log flag is set on the accelerator
    rw [if_neg h₃] at h
    obtain ⟨dev₂, w₂, h₂', h⟩ := bind_eq_ok.1 h
    obtain ⟨log, rfl, ha₂⟩ := vhostDevLogResize_accel G h₂'
    obtain ⟨r₁, w₃, h₃', h⟩ := bind_eq_ok.1 h
    by_cases hr₁ : r₁ < 0
    · rw [if_pos hr₁, pure_eq_ok] at h
      exact absurd ((Prod.mk.inj h.1).1 ▸ hr₁) hr
    rw [if_neg hr₁, pure_bind, pure_eq_ok] at h
    obtain ⟨hp, rfl⟩ := h
    obtain ⟨-, rfl⟩ := Prod.mk.inj hp
    obtain ⟨hm, hc⟩ := vhostDevSetLog_configured h₃' hr₁
    obtain rfl : enable = true := by simpa using h₃
    exact fun _ => ⟨hm.trans (by rw [ha₂]; exact ht.memTable), hc.features, hc.vringAddr⟩

/-- A `vhost_dev_start` that starts a stopped device has pushed its features, its table and the
addresses of every ring, as the rings now are; pushing the log base changes none of them. -/
theorem vhostDevStart_tracks {hdev dev' : VhostDev} {w w' : World} {r : Int}
    (h : vhostDevStart G hdev w = .ok ((r, dev'), w')) (hs : hdev.started = false)
    (hs' : dev'.started = true) : Tracks dev' w'.accel := by
  obtain ⟨w₁, w₂, vqs, _, _, -, hq, rfl, ha₁, -, -, -, ha, -⟩ :=
    vhostDevStart_inv_started G h hs hs'
  have hs := startQueues_none hq
  refine ⟨(congrArg Accel.memTable ha).trans ?_, ⟨(congrArg Accel.features ha).trans ?_,
    fun i hi => (congrFun (congrArg Accel.vringAddr ha) i).trans ?_⟩⟩
  · rw [hs.memTable, ha₁]; rfl
  · rw [hs.features, ha₁]; rfl
  · simpa using hs.vringAddr i hi

/-- Every event keeps the invariant, `vhost_dev_start` when the device is stopped. -/
theorem vhostStep_accelInv {dev dev' : VhostDev} {w w' : World} {e : VhostEvent}
    (hi : AccelInv dev w) (hstart : e = .devStart → dev.started = false)
    (h : vhostStep G dev e w = .ok (dev', w')) : AccelInv dev' w' := by
  cases vhostStep_spec G h with
  | skipAdd _ | skipDel _ => exact hi
  | add _ h =>
    refine vhostSetMemory_accelInv G ?_ h
    exact fun hs => ⟨(hi hs).memTable, (hi hs).configured.features, (hi hs).configured.vringAddr⟩
  | del _ h =>
    have hi₁ := vhostSetMemory_accelInv G hi h
    exact fun hs =>
      ⟨(hi₁ hs).memTable, (hi₁ hs).configured.features, (hi₁ hs).configured.vringAddr⟩
  | logSync h => exact hi.of_accel (keeps_vhostSyncDirtyBitmap G logBlind_accel _ _ _ _ h)
  | logStart hr h | logStop hr h => exact vhostMigrationLog_accelInv G hi h hr
  | devStart h => exact vhostDevStart_tracks G h (hstart rfl)
  | devStop h =>
    intro hs
    rw [vhostDevStop_started G h] at hs
    exact absurd hs Bool.false_ne_true
  | accelDirty h => exact hi.of_accel (keeps_accelLogDirty G logBlind_accel _ h)

/-! ### Runs -/

/-- Whether the run `es` from `dev` in `w` makes every `vhost_dev_start` on a stopped device, as
the callers of `vhost.c` do. The run is followed up to where it stops. -/
def startsStopped (dev : VhostDev) (w : World) : List VhostEvent → Bool
  | [] => true
  | e :: es => (e != .devStart || !dev.started) &&
    match vhostStep G dev e w with
    | .ok (dev', w') => startsStopped dev' w' es
    | .error _ => true

/-- An invariant that every event keeps, a `vhost_dev_start` on a stopped device included, holds
along every run that keeps the contract. -/
theorem vhostRun_of_step {I : VhostDev → World → Prop}
    (hstep : ∀ {dev dev' : VhostDev} {w w' : World} {e : VhostEvent}, I dev w →
      (e = .devStart → dev.started = false) → vhostStep G dev e w = .ok (dev', w') → I dev' w') :
    ∀ {es : List VhostEvent} {dev dev' : VhostDev} {w w' : World},
      I dev w → startsStopped G dev w es = true → vhostRun G dev es w = .ok (dev', w') → I dev' w'
  | [], _, _, _, _, hi, _, h => by
    obtain ⟨rfl, rfl⟩ := pure_eq_ok.1 h
    exact hi
  | e :: es, dev, _, w, _, hi, hc, h => by
    obtain ⟨dev₁, w₁, h₁, h⟩ := bind_eq_ok.1 h
    simp only [startsStopped, h₁, Bool.and_eq_true, Bool.or_eq_true, bne_iff_ne, ne_eq,
      Bool.not_eq_true'] at hc
    exact vhostRun_of_step hstep (hstep hi (fun he => hc.1.resolve_left (not_not.2 he)) h₁) hc.2 h

/-- Runs that keep the contract keep the invariant. -/
theorem vhostRun_accelInv {es : List VhostEvent} {dev dev' : VhostDev} {w w' : World}
    (hi : AccelInv dev w) (hc : startsStopped G dev w es = true)
    (h : vhostRun G dev es w = .ok (dev', w')) : AccelInv dev' w' :=
  vhostRun_of_step G (vhostStep_accelInv G) hi hc h

/-- `vhost_dev_init` leaves the device stopped. -/
theorem vhostDevInit_accelInv {env : Env} {hdev dev : VhostDev} {w : World}
    (h : vhostDevInit hdev (World.init env) = .ok ((0, dev), w)) : AccelInv dev w := by
  obtain ⟨rfl, -⟩ := vhostDevInit_eq h
  exact nofun

/-- Along every run from `vhost_dev_init` in which every `vhost_dev_start` is made on a stopped
device, a started device's accelerator holds the device's memory table, and the feature word and
ring addresses that its log flag pushes. -/
theorem vhostRun_tracks {env : Env} {hdev dev₀ : VhostDev} {w₀ : World}
    (hinit : vhostDevInit hdev (World.init env) = .ok ((0, dev₀), w₀)) {es : List VhostEvent}
    (hc : startsStopped G dev₀ w₀ es = true) :
    ∀ dev w, vhostRun G dev₀ es w₀ = .ok (dev, w) → dev.started = true → Tracks dev w.accel :=
  fun _ _ h => vhostRun_accelInv G (vhostDevInit_accelInv hinit) hc h

set_option smartUnfolding false in
/-- The one-queue device of `Vhost.Run`, given its RAM, started, logged, given more RAM, and
logged no more: the run keeps the contract and ends with the device started. -/
theorem vhostRun_tracks_oneQueue :
    startsStopped .lp64 oneQueueDev
        { World.init oneQueueEnv with calls := 2, accel := Accel.init.apply .setOwner }
        [.regionAdd lowSection, .devStart, .logGlobalStart, .regionAdd highSection,
          .logGlobalStop] = true ∧
      (vhostRun .lp64 oneQueueDev
          [.regionAdd lowSection, .devStart, .logGlobalStart, .regionAdd highSection,
            .logGlobalStop]
          { World.init oneQueueEnv with calls := 2, accel := Accel.init.apply .setOwner }).toOption.map
        (·.1.started) = some true ∧
      ∀ dev w, vhostRun .lp64 oneQueueDev
          [.regionAdd lowSection, .devStart, .logGlobalStart, .regionAdd highSection,
            .logGlobalStop]
          { World.init oneQueueEnv with calls := 2, accel := Accel.init.apply .setOwner } =
            .ok (dev, w) → dev.started = true → Tracks dev w.accel := by
  have hinit : vhostDevInit oneQueueDev (World.init oneQueueEnv) =
      .ok ((0, oneQueueDev), { World.init oneQueueEnv with
        calls := 2
        accel := Accel.init.apply .setOwner }) := rfl
  refine ⟨?hc, by decide, vhostRun_tracks .lp64 hinit ?hc⟩
  decide

end Vhost
