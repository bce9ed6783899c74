import Vhost.RingMappings

/-!
# What the device hands over when it starts and stops

`vhost_dev_start` hands the rings to the accelerator and `vhost_dev_stop` takes them back, and
two things go across with them.

The available index of every ring: `vhost_virtqueue_init` gives the accelerator the index the
guest's virtqueue holds (`VHOST_SET_VRING_BASE`), and `vhost_virtqueue_cleanup` gives the
virtqueue the index the accelerator reached (`VHOST_GET_VRING_BASE`). Whatever the accelerator
did in between, the guest's virtqueue goes on where the accelerator stopped: no request of a ring
is lost or handled twice across a start and a stop.

The guest notifiers: `vhost_dev_start` binds them before anything else and `vhost_dev_stop`
unbinds them last but for the log. Along every run that starts the device only when it is
stopped, a started device has them bound; when moreover every start succeeds, they are bound
exactly while the device is started. A start that fails after binding them unbinds them again,
but does not check that the binding let go.

## Main definitions

* `NotifierStep` — what one event can do to the guest notifiers

## Main results

* `vhostDevStop_lastAvailIdx` — a stop gives every ring the index the accelerator holds
* `vhostDevStartStop_handover` — a start gives the accelerator the guest's indices, a stop
  gives the guest the accelerator's
* `vhostStep_notifierStep` — every event is one of the steps `NotifierStep` allows
* `vhostRun_notifiersBound`, `vhostRun_guestNotifiers` — the guest notifiers along runs
-/

set_option autoImplicit false

namespace Vhost

variable (G : LogGeometry)

/-! ### The available indices -/

/-- A `vhost_virtqueue_cleanup` that returns has given the guest's virtqueue the available index
the accelerator holds for the ring, and left the accelerator as it was. -/
theorem vhostVirtqueueCleanup_lastAvailIdx {vq : VhostVirtqueue} {idx : Nat} {w w' : World}
    (h : vhostVirtqueueCleanup vq idx w = .ok ((), w')) :
    w'.accel = w.accel ∧
      w'.lastAvailIdx = Function.update w.lastAvailIdx idx (w.accel.vringBase idx) := by
  obtain ⟨⟨r, num⟩, w₁, h₁, h⟩ := bind_eq_ok.1 h
  dsimp only at h
  obtain ⟨_, w₂, h₂, h⟩ := bind_eq_ok.1 h
  by_cases hr : 0 ≤ r
  swap
  · rw [if_neg hr] at h
    obtain ⟨_, _, h, -⟩ := bind_eq_ok.1 h
    exact absurd h throw_ne_ok
  rw [if_pos hr, pure_bind] at h
  -- the command did not fail, so the index is the accelerator's
  unfold ioctlGetVringBase at h₁
  split_ifs at h₁
  swap
  · obtain ⟨hp, -⟩ := Prod.mk.inj (Except.ok.inj h₁)
    exact absurd ((Prod.mk.inj hp).1 ▸ hr) (by decide)
  obtain ⟨hp, rfl⟩ := Prod.mk.inj (Except.ok.inj h₁)
  obtain ⟨-, rfl⟩ := Prod.mk.inj hp
  obtain ⟨-, rfl⟩ := Prod.mk.inj (Except.ok.inj h₂)
  -- the four unmappings keep both
  obtain ⟨_, w₃, h₃, h⟩ := bind_eq_ok.1 h
  obtain ⟨_, w₄, h₄, h⟩ := bind_eq_ok.1 h
  obtain ⟨_, w₅, h₅, h⟩ := bind_eq_ok.1 h
  have hk : ∀ {γ : Type} (f : World → γ), MapBlind f → f w' = f w₃ := fun f hf => by
    rw [keeps_cpuPhysicalMemoryUnmap hf _ h, keeps_cpuPhysicalMemoryUnmap hf _ h₅,
      keeps_cpuPhysicalMemoryUnmap hf _ h₄]
  exact ⟨by rw [hk _ mapBlind_accel, keeps_cpuPhysicalMemoryUnmap mapBlind_accel _ h₃],
    by rw [hk _ mapBlind_lastAvailIdx, keeps_cpuPhysicalMemoryUnmap mapBlind_lastAvailIdx _ h₃]⟩

/-- The loop of `vhost_dev_stop` gives each ring it cleans up the accelerator's index, and leaves
the other rings' indices and the accelerator alone. -/
theorem forM_vhostVirtqueueCleanup_lastAvailIdx :
    ∀ {l : List (Nat × VhostVirtqueue)} {w w' : World},
      (l.forM (fun (i, vq) => vhostVirtqueueCleanup vq i) : VhostM PUnit) w = .ok ((), w') →
        w'.accel = w.accel ∧ ∀ j, w'.lastAvailIdx j =
          if j ∈ l.map Prod.fst then w.accel.vringBase j else w.lastAvailIdx j
  | [], _, _, h => by
    obtain ⟨-, rfl⟩ := pure_eq_ok.1 h
    exact ⟨rfl, fun _ => by simp⟩
  | (i, vq) :: l, w, w', h => by
    obtain ⟨_, w₁, h₁, h⟩ := bind_eq_ok.1 h
    obtain ⟨ha₁, hl₁⟩ := vhostVirtqueueCleanup_lastAvailIdx h₁
    obtain ⟨ha, hl⟩ := forM_vhostVirtqueueCleanup_lastAvailIdx h
    refine ⟨ha.trans ha₁, fun j => ?_⟩
    rw [hl, hl₁, ha₁]
    by_cases hj : j = i
    · subst hj
      simp
    · simp only [List.map_cons, List.mem_cons, hj, false_or, Function.update_noteq hj]

/-- `vhost_dev_stop` gives every ring of the device the available index the accelerator holds
for it, whatever the accelerator did while the device ran. -/
theorem vhostDevStop_lastAvailIdx {hdev dev' : VhostDev} {w w' : World}
    (h : vhostDevStop G hdev w = .ok (dev', w')) :
    ∀ i < hdev.vqs.length, w'.lastAvailIdx i = w.accel.vringBase i := by
  unfold vhostDevStop at h
  obtain ⟨_, w₁, h₁, h⟩ := bind_eq_ok.1 h
  obtain ⟨_, w₂, h₂, h⟩ := bind_eq_ok.1 h
  obtain ⟨_, w₃, h₃, h⟩ := bind_eq_ok.1 h
  -- the harvests, the unbinding of the notifiers and the freeing of the log keep the indices
  have hl : w'.lastAvailIdx = w₁.lastAvailIdx := by
    rw [Keeps.ite (Keeps.ret.bind fun _ =>
        (keeps_gFree blind_lastAvailIdx.logBlind _).bind fun _ => Keeps.ret) Keeps.abort_bind h,
      (setGuestNotifiers_frame h₃).1,
      Keeps.forM (fun _ _ => keeps_vhostSyncDirtyBitmap G blind_lastAvailIdx.logBlind _ _ _ _) h₂]
  intro i hi
  rw [hl, (forM_vhostVirtqueueCleanup_lastAvailIdx h₁).2 i,
    if_pos (by simp [List.enum_map_fst, hi])]

/-- `vhost_dev_start` that starts a stopped device keeps its number of rings and gives the
accelerator, for every ring, the available index the guest's virtqueue holds. -/
theorem vhostDevStart_vringBase {hdev dev' : VhostDev} {w w' : World} {r : Int}
    (h : vhostDevStart G hdev w = .ok ((r, dev'), w')) (hs : hdev.started = false)
    (hs' : dev'.started = true) :
    dev'.vqs.length = hdev.vqs.length ∧
      ∀ i < hdev.vqs.length, w'.accel.vringBase i = w.lastAvailIdx i := by
  obtain ⟨w₁, w₂, _, _, _, -, hq, rfl, -, -, hl₁, -, ha, -⟩ := vhostDevStart_inv_started G h hs hs'
  have hr := startQueues_none hq
  refine ⟨hr.length, fun i hi => ?_⟩
  calc w'.accel.vringBase i = w₂.accel.vringBase i := congrFun (congrArg Accel.vringBase ha) i
    _ = w₁.lastAvailIdx i := by simpa using hr.vringBase i (hr.length ▸ hi)
    _ = w.lastAvailIdx i := by rw [hl₁]

/-- The available index of every ring goes to the accelerator when a stopped device starts, and
back when it stops: `vhost_dev_start` gives the accelerator the index the guest's virtqueue
holds, and `vhost_dev_stop`, whatever the accelerator did in between, gives the guest's virtqueue
the index the accelerator reached. No request is lost or handled twice across the two. -/
theorem vhostDevStartStop_handover {hdev dev₁ dev₂ : VhostDev} {w w₁ w₂ w₃ : World} {r : Int}
    (hs : hdev.started = false) (h₁ : vhostDevStart G hdev w = .ok ((r, dev₁), w₁))
    (hs₁ : dev₁.started = true) (h₂ : vhostDevStop G dev₁ w₂ = .ok (dev₂, w₃)) :
    ∀ i < hdev.vqs.length,
      w₁.accel.vringBase i = w.lastAvailIdx i ∧ w₃.lastAvailIdx i = w₂.accel.vringBase i :=
  have ⟨hlen, hbase⟩ := vhostDevStart_vringBase G h₁ hs hs₁
  fun i hi => ⟨hbase i hi, vhostDevStop_lastAvailIdx G h₂ i (hlen ▸ hi)⟩

set_option smartUnfolding false in
/-- The one-queue device of `Vhost.Run` after `vhost_dev_init`, started, and stopped once its
accelerator reached the index `7` of its ring: the guest's virtqueue goes on at `7`. -/
theorem vhostDevStartStop_handover_oneQueue :
    ∃ dev₁ w₁ dev₂ w₃, vhostDevStart .lp64 oneQueueDev
        { World.init oneQueueEnv with calls := 2, accel := Accel.init.apply .setOwner } =
          .ok ((0, dev₁), w₁) ∧ dev₁.started = true ∧
      vhostDevStop .lp64 dev₁ { w₁ with accel := { w₁.accel with vringBase := fun _ => 7 } } =
        .ok (dev₂, w₃) ∧
      ∀ i < oneQueueDev.vqs.length, w₁.accel.vringBase i =
          ({ World.init oneQueueEnv with calls := 2, accel := Accel.init.apply .setOwner } :
            World).lastAvailIdx i ∧
        w₃.lastAvailIdx i = 7 := by
  obtain ⟨dev₁, w₁, h₁⟩ : ∃ dev₁ w₁, vhostDevStart .lp64 oneQueueDev
      { World.init oneQueueEnv with calls := 2, accel := Accel.init.apply .setOwner } =
        .ok ((0, dev₁), w₁) := ⟨_, _, rfl⟩
  -- both runs evaluated at once, so that the started device is never written out
  have hc : (match vhostDevStart .lp64 oneQueueDev
      { World.init oneQueueEnv with calls := 2, accel := Accel.init.apply .setOwner } with
    | .ok ((_, dev₁), w₁) => dev₁.started && (vhostDevStop .lp64 dev₁
        { w₁ with accel := { w₁.accel with vringBase := fun _ => 7 } }).isOk
    | .error _ => false) = true := by decide
  rw [h₁, Bool.and_eq_true] at hc
  obtain ⟨hs₁, hok⟩ := hc
  cases h₂ : vhostDevStop .lp64 dev₁ { w₁ with accel := { w₁.accel with vringBase := fun _ => 7 } }
  case error => rw [h₂] at hok; exact absurd hok Bool.false_ne_true
  case ok r₂ =>
    exact ⟨dev₁, w₁, r₂.1, r₂.2, h₁, hs₁, h₂, vhostDevStartStop_handover .lp64 rfl h₁ hs₁ h₂⟩

/-! ### The guest notifiers -/

section Notifiers

variable {G}

/-- A `vhost_dev_start` that starts a stopped device has bound the guest notifiers. -/
theorem vhostDevStart_guestNotifiers {hdev dev' : VhostDev} {w w' : World} {r : Int}
    (h : vhostDevStart G hdev w = .ok ((r, dev'), w')) (hs : hdev.started = false)
    (hs' : dev'.started = true) : w'.guestNotifiers = true := by
  obtain ⟨w₁, w₂, _, _, _, -, hq, -, -, -, -, hg₁, -, hf, -⟩ := vhostDevStart_inv_started G h hs hs'
  rw [hf _ blind_guestNotifiers,
    (startQueues_none hq).frame _ blind_guestNotifiers mapBlind_guestNotifiers, hg₁]

/-- A `vhost_dev_stop` that returns has unbound the guest notifiers: it asserts the unbinding. -/
theorem vhostDevStop_guestNotifiers {hdev dev' : VhostDev} {w w' : World}
    (h : vhostDevStop G hdev w = .ok (dev', w')) : w'.guestNotifiers = false := by
  unfold vhostDevStop at h
  iterate 2 obtain ⟨_, _, -, h⟩ := bind_eq_ok.1 h
  obtain ⟨r, w₃, h₃, h⟩ := bind_eq_ok.1 h
  by_cases hr : 0 ≤ r
  swap
  · rw [if_neg hr] at h
    obtain ⟨_, _, h, -⟩ := bind_eq_ok.1 h
    exact absurd h throw_ne_ok
  rw [if_pos hr, pure_bind] at h
  obtain ⟨_, w₄, h₄, h⟩ := bind_eq_ok.1 h
  obtain ⟨-, rfl⟩ := pure_eq_ok.1 h
  rw [keeps_gFree blind_guestNotifiers.logBlind _ h₄]
  exact (setGuestNotifiers_frame h₃).2 (Int.not_lt.2 hr)

/-- What one event can do to the guest notifiers: a start that starts the device has bound them,
a start that fails leaves the device stopped, a stop has unbound them, and any other event
leaves them, and whether the device is started, as they were. -/
inductive NotifierStep (dev dev' : VhostDev) (w w' : World) : VhostEvent → Prop
  | start : dev'.started = true → w'.guestNotifiers = true → NotifierStep dev dev' w w' .devStart
  | failedStart : dev'.started = false → NotifierStep dev dev' w w' .devStart
  | stop : dev'.started = false → w'.guestNotifiers = false → NotifierStep dev dev' w w' .devStop
  | frame {e : VhostEvent} : dev'.started = dev.started → w'.guestNotifiers = w.guestNotifiers →
      NotifierStep dev dev' w w' e

/-- Every event, a `vhost_dev_start` on a stopped device included, is one of the steps of
`NotifierStep`: only starts and stops touch the guest notifiers. -/
theorem vhostStep_notifierStep {dev dev' : VhostDev} {w w' : World} {e : VhostEvent}
    (hstart : e = .devStart → dev.started = false) (h : vhostStep G dev e w = .ok (dev', w')) :
    NotifierStep dev dev' w w' e := by
  cases vhostStep_spec G h with
  | skipAdd _ | skipDel _ => exact .frame rfl rfl
  | add _ h | del _ h =>
    exact .frame (vhostSetMemory_mapped G h).2.1
      (keeps_vhostSetMemory G blind_guestNotifiers mapBlind_guestNotifiers _ _ _ h)
  | logSync h =>
    exact .frame rfl (keeps_vhostSyncDirtyBitmap G blind_guestNotifiers.logBlind _ _ _ _ h)
  | logStart _ h | logStop _ h =>
    exact .frame (returns_vhostMigrationLog G _ _ h).2.1
      (keeps_vhostMigrationLog G blind_guestNotifiers _ _ h)
  | @devStart _ dev' _ h =>
    cases hs' : dev'.started
    · exact .failedStart hs'
    · exact .start hs' (vhostDevStart_guestNotifiers h (hstart rfl) hs')
  | devStop h => exact .stop (vhostDevStop_started G h) (vhostDevStop_guestNotifiers h)
  | accelDirty h => exact .frame rfl (keeps_accelLogDirty G blind_guestNotifiers.logBlind _ h)

/-- The invariant of runs that keep the callers' contract: a started device has its guest
notifiers bound. -/
def NotifiersBound (dev : VhostDev) (w : World) : Prop :=
  dev.started = true → w.guestNotifiers = true

theorem NotifierStep.notifiersBound {dev dev' : VhostDev} {w w' : World} {e : VhostEvent}
    (hs : NotifierStep dev dev' w w' e) (hi : NotifiersBound dev w) : NotifiersBound dev' w' := by
  cases hs with
  | start _ hg => exact fun _ => hg
  | failedStart hs' | stop hs' _ => exact fun h => absurd (hs'.symm.trans h) Bool.false_ne_true
  | frame hs hg => exact fun h => hg.trans (hi (hs ▸ h))

/-- The invariant of runs whose starts succeed: the guest notifiers are bound exactly while the
device is started. -/
def NotifiersExact (dev : VhostDev) (w : World) : Prop := w.guestNotifiers = dev.started

theorem NotifierStep.notifiersExact {dev dev' : VhostDev} {w w' : World} {e : VhostEvent}
    (hs : NotifierStep dev dev' w w' e) (hi : NotifiersExact dev w)
    (hclean : e = .devStart → dev.started = false ∧ dev'.started = true) :
    NotifiersExact dev' w' := by
  cases hs with
  | start hs' hg => exact hg.trans hs'.symm
  | failedStart hs' => exact absurd (hs'.symm.trans (hclean rfl).2) Bool.false_ne_true
  | stop hs' hg => exact hg.trans hs'.symm
  | frame hs hg => exact hg.trans (hi.trans hs.symm)

end Notifiers

/-- Along every run from `vhost_dev_init` in which every `vhost_dev_start` is made on a stopped
device, a started device has its guest notifiers bound: the guest hears from the accelerator
whenever the device runs. -/
theorem vhostRun_notifiersBound {env : Env} {hdev dev₀ : VhostDev} {w₀ : World}
    (hinit : vhostDevInit hdev (World.init env) = .ok ((0, dev₀), w₀)) {es : List VhostEvent}
    (hc : startsStopped G dev₀ w₀ es = true) :
    ∀ dev w, vhostRun G dev₀ es w₀ = .ok (dev, w) → dev.started = true →
      w.guestNotifiers = true :=
  fun _ _ h => vhostRun_of_step G
    (fun hi hstart h => (vhostStep_notifierStep hstart h).notifiersBound hi)
    (by obtain ⟨rfl, -⟩ := vhostDevInit_eq hinit; exact nofun) hc h

set_option smartUnfolding false in
/-- The run of `vhostRun_tracks_oneQueue` keeps the callers' contract. -/
theorem vhostRun_notifiersBound_oneQueue :
    startsStopped .lp64 oneQueueDev
        { World.init oneQueueEnv with calls := 2, accel := Accel.init.apply .setOwner }
        [.regionAdd lowSection, .devStart, .logGlobalStart, .regionAdd highSection,
          .logGlobalStop] = true ∧
      (vhostRun .lp64 oneQueueDev [.regionAdd lowSection, .devStart, .logGlobalStart,
          .regionAdd highSection, .logGlobalStop]
          { World.init oneQueueEnv with calls := 2, accel := Accel.init.apply .setOwner }).toOption.map
        (fun r => (r.1.started, r.2.guestNotifiers)) = some (true, true) ∧
      ∀ dev w, vhostRun .lp64 oneQueueDev [.regionAdd lowSection, .devStart, .logGlobalStart,
          .regionAdd highSection, .logGlobalStop]
          { World.init oneQueueEnv with calls := 2, accel := Accel.init.apply .setOwner } =
            .ok (dev, w) → dev.started = true → w.guestNotifiers = true := by
  have hinit : vhostDevInit oneQueueDev (World.init oneQueueEnv) =
      .ok ((0, oneQueueDev), { World.init oneQueueEnv with
        calls := 2
        accel := Accel.init.apply .setOwner }) := rfl
  refine ⟨?hc, by decide, vhostRun_notifiersBound .lp64 hinit ?hc⟩
  decide

/-- Along every run from `vhost_dev_init` in which every `vhost_dev_start` is made on a stopped
device and succeeds, the guest notifiers are bound exactly while the device is started: none
stays bound once `vhost_dev_stop` returned. -/
theorem vhostRun_guestNotifiers {env : Env} {hdev dev₀ : VhostDev} {w₀ : World}
    (hinit : vhostDevInit hdev (World.init env) = .ok ((0, dev₀), w₀)) {es : List VhostEvent}
    (hc : startsCleanly G dev₀ w₀ es = true) :
    ∀ dev w, vhostRun G dev₀ es w₀ = .ok (dev, w) → w.guestNotifiers = dev.started :=
  fun _ _ h => vhostRun_of_cleanStep G
    (fun hi hclean h =>
      (vhostStep_notifierStep (fun he => (hclean he).1) h).notifiersExact hi hclean)
    (by obtain ⟨rfl, rfl⟩ := vhostDevInit_eq hinit; rfl) hc h

set_option smartUnfolding false in
/-- The run of `vhostRun_mappings_oneQueue`: every start of it succeeds. -/
theorem vhostRun_guestNotifiers_oneQueue :
    startsCleanly .lp64 oneQueueDev
        { World.init oneQueueEnv with calls := 2, accel := Accel.init.apply .setOwner }
        [.regionAdd lowSection, .devStart, .logGlobalStart, .devStop] = true ∧
      (vhostRun .lp64 oneQueueDev [.regionAdd lowSection, .devStart, .logGlobalStart, .devStop]
          { World.init oneQueueEnv with calls := 2, accel := Accel.init.apply .setOwner }).toOption.map
        (fun r => (r.1.started, r.2.guestNotifiers)) = some (false, false) ∧
      ∀ dev w, vhostRun .lp64 oneQueueDev [.regionAdd lowSection, .devStart, .logGlobalStart,
          .devStop] { World.init oneQueueEnv with calls := 2, accel := Accel.init.apply .setOwner } =
            .ok (dev, w) → w.guestNotifiers = dev.started := by
  have hinit : vhostDevInit oneQueueDev (World.init oneQueueEnv) =
      .ok ((0, oneQueueDev), { World.init oneQueueEnv with
        calls := 2
        accel := Accel.init.apply .setOwner }) := rfl
  refine ⟨?hc, by decide, vhostRun_guestNotifiers .lp64 hinit ?hc⟩
  decide

end Vhost
