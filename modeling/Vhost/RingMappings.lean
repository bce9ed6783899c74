import Vhost.AccelInvariant
import Mathlib.Data.Multiset.Basic

/-!
# The rings stay mapped while the device runs

`vhost_virtqueue_init` maps the descriptor table, the available and used rings and the ring area
of each virtqueue into the process with `cpu_physical_memory_map`, and hands their host
addresses to the accelerator, which works on the rings there until `vhost_dev_stop` unmaps them
through `vhost_virtqueue_cleanup`. The mappings the process holds are counted here as a
multiset: the order in which the code maps and unmaps does not matter, how often it holds each
address does.

Two results over whole runs. Along every run that starts the device only when it is stopped,
a started device has the areas of all its rings mapped: the accelerator never works on a ring
that was unmapped under it. Along every run whose starts moreover all succeed, the mappings are
exactly those areas while the device is started and none while it is stopped: nothing leaks,
and `vhost_dev_stop` releases all that `vhost_dev_start` took. A start that fails halfway keeps
mappings it made, so the second result needs its condition.

## Main definitions

* `World.mappings` — the host mappings held, as a multiset
* `MappingStep` — what one event can do to the rings and the mappings
* `RingsMapped`, `MappingsExact` — the two invariants
* `startsCleanly` — the runs whose every start is made on a stopped device and succeeds

## Main results

* `vhostStep_mappingStep` — every event is one of the steps `MappingStep` allows
* `vhostRun_ringsMapped` — along every run keeping the callers' contract, a started device has
  its ring areas mapped
* `vhostRun_of_cleanStep` — an invariant every event keeps holds along every run whose starts
  succeed
* `vhostRun_mappings` — along every run whose starts succeed, the mappings are the ring areas of
  the started device, and none when it is stopped
-/

set_option autoImplicit false

namespace Vhost

variable (G : LogGeometry)

/-- The host mappings the process holds, in no order. -/
def World.mappings (w : World) : Multiset Nat := w.mapped

theorem World.mappings_eq {w w' : World} (h : w'.mapped = w.mapped) : w'.mappings = w.mappings :=
  congrArg Multiset.ofList h

/-! ### Releasing the rings -/

/-- `vhost_virtqueue_cleanup` releases the four areas of its ring. -/
theorem vhostVirtqueueCleanup_mappings {vq : VhostVirtqueue} {idx : Nat} {w w' : World}
    (h : vhostVirtqueueCleanup vq idx w = .ok ((), w')) :
    w'.mappings = w.mappings - (vq.areas : Multiset Nat) := by
  -- the areas are unmapped from the last mapped
  have hrev : (vq.areas : Multiset Nat) = ([vq.ring, vq.used, vq.avail, vq.desc] : List Nat) :=
    Multiset.coe_eq_coe.2 (List.reverse_perm [vq.ring, vq.used, vq.avail, vq.desc])
  rw [hrev, World.mappings, World.mappings, vhostVirtqueueCleanup_mapped h]
  simp only [Multiset.coe_erase, ← Multiset.cons_coe, Multiset.sub_cons, Multiset.coe_nil,
    Multiset.sub_zero]

theorem forM_vhostVirtqueueCleanup_mappings :
    ∀ {l : List (Nat × VhostVirtqueue)} {w w' : World},
      (l.forM (fun (i, vq) => vhostVirtqueueCleanup vq i) : VhostM PUnit) w = .ok ((), w') →
        w'.mappings = w.mappings - (ringAreas (l.map Prod.snd) : Multiset Nat)
  | [], _, _, h => by
    obtain ⟨-, rfl⟩ := pure_eq_ok.1 h
    simp [ringAreas]
  | (i, vq) :: l, w, w', h => by
    obtain ⟨_, w₁, h₁, h⟩ := bind_eq_ok.1 h
    rw [forM_vhostVirtqueueCleanup_mappings h, vhostVirtqueueCleanup_mappings h₁, tsub_tsub]
    simp [ringAreas]

/-- `vhost_dev_stop` releases the areas of every ring of the device, and maps nothing. -/
theorem vhostDevStop_mappings {hdev dev' : VhostDev} {w w' : World}
    (h : vhostDevStop G hdev w = .ok (dev', w')) :
    w'.mappings = w.mappings - (ringAreas hdev.vqs : Multiset Nat) := by
  unfold vhostDevStop at h
  obtain ⟨_, w₁, h₁, h⟩ := bind_eq_ok.1 h
  obtain ⟨_, w₂, h₂, h⟩ := bind_eq_ok.1 h
  obtain ⟨_, w₃, h₃, h⟩ := bind_eq_ok.1 h
  -- the harvests, the unbinding of the notifiers and the freeing of the log map nothing
  have hm : w'.mapped = w₁.mapped := by
    rw [Keeps.ite (Keeps.ret.bind fun _ => (keeps_gFree blind_mapped.logBlind _).bind fun _ => Keeps.ret)
      Keeps.abort_bind h, keeps_mapped_setGuestNotifiers _ h₃,
      Keeps.forM (fun _ _ => keeps_vhostSyncDirtyBitmap G blind_mapped.logBlind _ _ _ _) h₂]
  rw [World.mappings_eq hm, forM_vhostVirtqueueCleanup_mappings h₁, List.enum_map_snd]

/-! ### What one event does to the mappings -/

/-- What one event can do to the rings of the device and the host mappings: a start that starts
the device maps the areas of its new rings; a start that fails leaves it stopped; a stop leaves
it stopped and releases the areas of its rings; and an event may leave the rings, whether the
device is started and the mappings all as they were. -/
inductive MappingStep (dev dev' : VhostDev) (w w' : World) : VhostEvent → Prop
  | start : dev'.started = true → w'.mappings = w.mappings + (ringAreas dev'.vqs : Multiset Nat) →
      MappingStep dev dev' w w' .devStart
  | failedStart : dev'.started = false → MappingStep dev dev' w w' .devStart
  | stop : dev'.started = false →
      w'.mappings = w.mappings - (ringAreas dev.vqs : Multiset Nat) → MappingStep dev dev' w w' .devStop
  | frame {e : VhostEvent} : dev'.vqs = dev.vqs → dev'.started = dev.started →
      w'.mappings = w.mappings → MappingStep dev dev' w w' e

/-- Every event, a `vhost_dev_start` on a stopped device included, is one of the steps of
`MappingStep`: only starts and stops map or unmap for good, and the check of the rings in
`vhost_set_memory` releases each mapping it makes. -/
theorem vhostStep_mappingStep {dev dev' : VhostDev} {w w' : World} {e : VhostEvent}
    (hstart : e = .devStart → dev.started = false) (h : vhostStep G dev e w = .ok (dev', w')) :
    MappingStep dev dev' w w' e := by
  cases vhostStep_spec G h with
  | skipAdd _ | skipDel _ => exact .frame rfl rfl rfl
  | add _ h | del _ h =>
    obtain ⟨hv, hs, hm⟩ := vhostSetMemory_mapped G h
    exact .frame hv hs (Multiset.coe_eq_coe.2 hm)
  | logSync h =>
    exact .frame rfl rfl
      (World.mappings_eq (keeps_vhostSyncDirtyBitmap G blind_mapped.logBlind _ _ _ _ h))
  | logStart _ h | logStop _ h =>
    obtain ⟨hv, hs, -⟩ := returns_vhostMigrationLog G _ _ h
    exact .frame hv hs (World.mappings_eq (keeps_vhostMigrationLog G blind_mapped _ _ h))
  | @devStart _ dev' _ h =>
    cases hs' : dev'.started
    · exact .failedStart hs'
    · refine .start hs' ?_
      rw [World.mappings, vhostDevStart_mapped G h (hstart rfl) hs', ← Multiset.coe_add]
      rfl
  | devStop h => exact .stop (vhostDevStop_started G h) (vhostDevStop_mappings G h)
  | accelDirty h =>
    exact .frame rfl rfl (World.mappings_eq (keeps_accelLogDirty G blind_mapped.logBlind _ h))

/-! ### The rings of a started device are mapped -/

/-- The invariant: a started device has the areas of all its rings mapped. -/
def RingsMapped (dev : VhostDev) (w : World) : Prop :=
  dev.started = true → (ringAreas dev.vqs : Multiset Nat) ≤ w.mappings

theorem MappingStep.ringsMapped {dev dev' : VhostDev} {w w' : World} {e : VhostEvent}
    (hs : MappingStep dev dev' w w' e) (hi : RingsMapped dev w) : RingsMapped dev' w' := by
  cases hs with
  | start _ hm => exact fun _ => hm ▸ Multiset.le_add_left _ _
  | failedStart hs' | stop hs' _ => exact fun h => absurd (hs'.symm.trans h) Bool.false_ne_true
  | frame hv hs hm => exact fun h => by rw [hv, hm]; exact hi (hs ▸ h)

/-- Along every run from `vhost_dev_init` in which every `vhost_dev_start` is made on a stopped
device, a started device holds the areas of all its rings mapped: none of the rings the
accelerator works on has been unmapped under it. -/
theorem vhostRun_ringsMapped {env : Env} {hdev dev₀ : VhostDev} {w₀ : World}
    (hinit : vhostDevInit hdev (World.init env) = .ok ((0, dev₀), w₀)) {es : List VhostEvent}
    (hc : startsStopped G dev₀ w₀ es = true) :
    ∀ dev w, vhostRun G dev₀ es w₀ = .ok (dev, w) → dev.started = true →
      (ringAreas dev.vqs : Multiset Nat) ≤ w.mappings :=
  fun _ _ h => vhostRun_of_step G (fun hi hs h => (vhostStep_mappingStep G hs h).ringsMapped hi)
    (by obtain ⟨rfl, -⟩ := vhostDevInit_eq hinit; exact nofun) hc h

set_option smartUnfolding false in
/-- The one-queue device of `Vhost.Run`, given its RAM, started, logged, given more RAM, and
logged no more: the run keeps the contract and ends with the device started. -/
theorem vhostRun_ringsMapped_oneQueue :
    startsStopped .lp64 oneQueueDev
        { World.init oneQueueEnv with calls := 2, accel := Accel.init.apply .setOwner }
        [.regionAdd lowSection, .devStart, .logGlobalStart, .regionAdd highSection,
          .logGlobalStop] = true ∧
      (vhostRun .lp64 oneQueueDev
          [.regionAdd lowSection, .devStart, .logGlobalStart, .regionAdd highSection,
            .logGlobalStop]
          { World.init oneQueueEnv with calls := 2, accel := Accel.init.apply .setOwner }).toOption.map
        (·.1.started) = some true ∧
      ∀ dev w, vhostRun .lp64 oneQueueDev
          [.regionAdd lowSection, .devStart, .logGlobalStart, .regionAdd highSection,
            .logGlobalStop]
          { World.init oneQueueEnv with calls := 2, accel := Accel.init.apply .setOwner } =
            .ok (dev, w) → dev.started = true → (ringAreas dev.vqs : Multiset Nat) ≤ w.mappings := by
  have hinit : vhostDevInit oneQueueDev (World.init oneQueueEnv) =
      .ok ((0, oneQueueDev), { World.init oneQueueEnv with
        calls := 2
        accel := Accel.init.apply .setOwner }) := rfl
  refine ⟨?hc, by decide, vhostRun_ringsMapped .lp64 hinit ?hc⟩
  decide

/-! ### Nothing leaks when every start succeeds -/

/-- The invariant of runs whose starts succeed: the mappings are the areas of the rings of a
started device, and none when it is stopped. -/
def MappingsExact (dev : VhostDev) (w : World) : Prop :=
  w.mappings = if dev.started then (ringAreas dev.vqs : Multiset Nat) else 0

theorem MappingStep.mappingsExact {dev dev' : VhostDev} {w w' : World} {e : VhostEvent}
    (hs : MappingStep dev dev' w w' e) (hi : MappingsExact dev w)
    (hclean : e = .devStart → dev.started = false ∧ dev'.started = true) :
    MappingsExact dev' w' := by
  cases hs with
  | start hs' hm =>
    rw [MappingsExact, hm, hi, if_neg (show ¬dev.started = true by simp [(hclean rfl).1]),
      if_pos hs', zero_add]
  | failedStart hs' => exact absurd (hs'.symm.trans (hclean rfl).2) Bool.false_ne_true
  | stop hs' hm =>
    rw [MappingsExact, hm, hi, if_neg (show ¬dev'.started = true by simp [hs'])]
    split_ifs
    · simpa only [zero_add] using add_tsub_cancel_right (0 : Multiset Nat) (ringAreas dev.vqs)
    · exact Multiset.zero_sub _
  | frame hv hs hm => rw [MappingsExact, hm, hi, hv, hs]

/-- Whether every `vhost_dev_start` of the run `es` from `dev` in `w` is made on a stopped device
and starts it. The run is followed up to where it stops. -/
def startsCleanly (dev : VhostDev) (w : World) : List VhostEvent → Bool
  | [] => true
  | e :: es =>
    match vhostStep G dev e w with
    | .ok (dev', w') => (e != .devStart || !dev.started && dev'.started) && startsCleanly dev' w' es
    | .error _ => true

/-- An invariant that every event keeps, a `vhost_dev_start` that starts a stopped device
included, holds along every run whose starts all do. -/
theorem vhostRun_of_cleanStep {I : VhostDev → World → Prop}
    (hstep : ∀ {dev dev' : VhostDev} {w w' : World} {e : VhostEvent}, I dev w →
      (e = .devStart → dev.started = false ∧ dev'.started = true) →
      vhostStep G dev e w = .ok (dev', w') → I dev' w') :
    ∀ {es : List VhostEvent} {dev dev' : VhostDev} {w w' : World},
      I dev w → startsCleanly G dev w es = true → vhostRun G dev es w = .ok (dev', w') → I dev' w'
  | [], _, _, _, _, hi, _, h => by
    obtain ⟨rfl, rfl⟩ := pure_eq_ok.1 h
    exact hi
  | e :: es, dev, _, w, _, hi, hc, h => by
    obtain ⟨dev₁, w₁, h₁, h⟩ := bind_eq_ok.1 h
    simp only [startsCleanly, h₁, Bool.and_eq_true, Bool.or_eq_true, bne_iff_ne, ne_eq,
      Bool.not_eq_true'] at hc
    exact vhostRun_of_cleanStep hstep
      (hstep hi (fun he => by simpa using hc.1.resolve_left (not_not.2 he)) h₁) hc.2 h

/-- Along every run from `vhost_dev_init` in which every `vhost_dev_start` is made on a stopped
device and succeeds, the process holds exactly the areas of the device's rings mapped while it
is started, and nothing while it is stopped: no mapping leaks, and `vhost_dev_stop` releases all
that `vhost_dev_start` took. -/
theorem vhostRun_mappings {env : Env} {hdev dev₀ : VhostDev} {w₀ : World}
    (hinit : vhostDevInit hdev (World.init env) = .ok ((0, dev₀), w₀)) {es : List VhostEvent}
    (hc : startsCleanly G dev₀ w₀ es = true) :
    ∀ dev w, vhostRun G dev₀ es w₀ = .ok (dev, w) →
      w.mappings = if dev.started then (ringAreas dev.vqs : Multiset Nat) else 0 :=
  fun _ _ h => vhostRun_of_cleanStep G
    (fun hi hclean h => (vhostStep_mappingStep G (fun he => (hclean he).1) h).mappingsExact hi hclean)
    (by obtain ⟨rfl, rfl⟩ := vhostDevInit_eq hinit; rfl) hc h

set_option smartUnfolding false in
/-- The one-queue device of `Vhost.Run`, given its RAM, started, logged and stopped: every start
of the run succeeds. -/
theorem vhostRun_mappings_oneQueue :
    startsCleanly .lp64 oneQueueDev
        { World.init oneQueueEnv with calls := 2, accel := Accel.init.apply .setOwner }
        [.regionAdd lowSection, .devStart, .logGlobalStart, .devStop] = true ∧
      (vhostRun .lp64 oneQueueDev [.regionAdd lowSection, .devStart, .logGlobalStart, .devStop]
          { World.init oneQueueEnv with calls := 2, accel := Accel.init.apply .setOwner }).toOption.map
        (fun r => (r.1.started, r.2.mapped)) = some (false, []) ∧
      ∀ dev w, vhostRun .lp64 oneQueueDev [.regionAdd lowSection, .devStart, .logGlobalStart, .devStop]
          { World.init oneQueueEnv with calls := 2, accel := Accel.init.apply .setOwner } =
            .ok (dev, w) →
          w.mappings = if dev.started then (ringAreas dev.vqs : Multiset Nat) else 0 := by
  have hinit : vhostDevInit oneQueueDev (World.init oneQueueEnv) =
      .ok ((0, oneQueueDev), { World.init oneQueueEnv with
        calls := 2
        accel := Accel.init.apply .setOwner }) := rfl
  refine ⟨?hc, by decide, vhostRun_mappings .lp64 hinit ?hc⟩
  decide

end Vhost
