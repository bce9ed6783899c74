import Vhost.Lifecycle

/-!
# Runs of the device

After `vhost_dev_init`, the rest of QEMU calls into `vhost.c` through the memory listener
(`region_add`, `region_del`, `log_sync`, `log_global_start`, `log_global_stop`) and through
`vhost_dev_start` and `vhost_dev_stop`; meanwhile the accelerator marks the pages it writes in
the log at its log base. A run is a sequence of these events; the invariants of the later
modules hold along every run from `vhost_dev_init` that does not abort.

## Main definitions

* `VhostEvent`, `vhostStep`, `vhostRun`
* `accelLogDirty` — the accelerator logging a write
* `StepSpec` — what one event that returns has done, call by call
* `vhostRunFrom` — a run from `vhost_dev_init`

## Main results

* `vhostStep_spec` — every event that returns is one of the steps of `StepSpec`
-/

set_option autoImplicit false

namespace Vhost

variable (G : LogGeometry)

/-- What can happen to an initialised device. -/
inductive VhostEvent
  | regionAdd (sec : MemoryRegionSection)
  | regionDel (sec : MemoryRegionSection)
  | logSync (sec : MemoryRegionSection)
  | logGlobalStart
  | logGlobalStop
  | devStart
  | devStop
  | accelDirty (addr : Nat)
  deriving DecidableEq, Repr

/-- The accelerator wrote the guest page at `addr` and sets its bit in the log at its log
base; a write outside the buffer there reaches no log. -/
def accelLogDirty (addr : Nat) : VhostM Unit := fun w =>
  let i := addr / G.chunk
  let bit := addr % G.chunk / G.page
  match w.heap w.accel.logBase with
  | some ws =>
    if i < ws.length then
      let ws := ws.set i (ws.getD i 0 ||| 1 <<< bit)
      .ok ((), { w with heap := Function.update w.heap w.accel.logBase (some ws) })
    else .ok ((), w)
  | none => .ok ((), w)

/-- The accelerator's write to the log keeps every part of the world that the log does not
hold. -/
theorem keeps_accelLogDirty {γ : Type} {f : World → γ} (hf : LogBlind f) (addr : Nat) :
    Keeps f (accelLogDirty G addr) := fun w _ _ h => by
  unfold accelLogDirty at h
  dsimp only at h
  split at h
  · split_ifs at h <;> rw [← (Prod.mk.inj (Except.ok.inj h)).2]
    exact hf w _ w.dirty
  · rw [← (Prod.mk.inj (Except.ok.inj h)).2]

/-- One event. A failed `vhost_dev_start` leaves the device as the code left it. -/
def vhostStep (dev : VhostDev) : VhostEvent → VhostM VhostDev
  | .regionAdd sec => vhostRegionAdd G dev sec
  | .regionDel sec => vhostRegionDel G dev sec
  | .logSync sec => do vhostLogSync G dev sec; return dev
  | .logGlobalStart => vhostLogGlobalStart G dev
  | .logGlobalStop => vhostLogGlobalStop G dev
  | .devStart => return (← vhostDevStart G dev).2
  | .devStop => vhostDevStop G dev
  | .accelDirty addr => do accelLogDirty G addr; return dev

/-- What one event that returns has done, call by call. A region event on a section that
`vhost_section` rejects does nothing, and `vhost_log_global_start` and `vhost_log_global_stop`
return only when `vhost_migration_log` does not fail: they `abort()` otherwise. -/
inductive StepSpec (dev : VhostDev) (w : World) : VhostEvent → VhostDev → World → Prop
  | skipAdd {sec : MemoryRegionSection} : vhostSection sec = false →
      StepSpec dev w (.regionAdd sec) dev w
  | add {sec : MemoryRegionSection} {dev' : VhostDev} {w' : World} : vhostSection sec = true →
      vhostSetMemory G { dev with memSections := dev.memSections ++ [sec] } sec true w =
        .ok (dev', w') → StepSpec dev w (.regionAdd sec) dev' w'
  | skipDel {sec : MemoryRegionSection} : vhostSection sec = false →
      StepSpec dev w (.regionDel sec) dev w
  | del {sec : MemoryRegionSection} {dev' : VhostDev} {w' : World} : vhostSection sec = true →
      vhostSetMemory G dev sec false w = .ok (dev', w') →
      StepSpec dev w (.regionDel sec) { dev' with memSections := dev'.memSections.eraseP fun s =>
        s.offsetWithinAddressSpace = sec.offsetWithinAddressSpace } w'
  | logSync {sec : MemoryRegionSection} {w' : World} : vhostLogSync G dev sec w = .ok ((), w') →
      StepSpec dev w (.logSync sec) dev w'
  | logStart {r : Int} {dev' : VhostDev} {w' : World} : ¬r < 0 →
      vhostMigrationLog G dev true w = .ok ((r, dev'), w') → StepSpec dev w .logGlobalStart dev' w'
  | logStop {r : Int} {dev' : VhostDev} {w' : World} : ¬r < 0 →
      vhostMigrationLog G dev false w = .ok ((r, dev'), w') → StepSpec dev w .logGlobalStop dev' w'
  | devStart {r : Int} {dev' : VhostDev} {w' : World} :
      vhostDevStart G dev w = .ok ((r, dev'), w') → StepSpec dev w .devStart dev' w'
  | devStop {dev' : VhostDev} {w' : World} : vhostDevStop G dev w = .ok (dev', w') →
      StepSpec dev w .devStop dev' w'
  | accelDirty {addr : Nat} {w' : World} : accelLogDirty G addr w = .ok ((), w') →
      StepSpec dev w (.accelDirty addr) dev w'

/-- Every event that returns is one of the steps of `StepSpec`. -/
theorem vhostStep_spec {dev dev' : VhostDev} {w w' : World} {e : VhostEvent}
    (h : vhostStep G dev e w = .ok (dev', w')) : StepSpec G dev w e dev' w' := by
  cases e with
  | regionAdd sec =>
    dsimp only [vhostStep, vhostRegionAdd] at h
    by_cases hs : vhostSection sec = true
    · rw [if_neg (by simp [hs]), pure_bind] at h
      exact .add hs h
    · rw [if_pos (by simpa using hs)] at h
      obtain ⟨rfl, rfl⟩ := pure_eq_ok.1 h
      exact .skipAdd (by simpa using hs)
  | regionDel sec =>
    dsimp only [vhostStep, vhostRegionDel] at h
    by_cases hs : vhostSection sec = true
    · rw [if_neg (by simp [hs]), pure_bind] at h
      obtain ⟨_, _, h₁, h⟩ := bind_eq_ok.1 h
      obtain ⟨rfl, rfl⟩ := pure_eq_ok.1 h
      exact .del hs h₁
    · rw [if_pos (by simpa using hs)] at h
      obtain ⟨rfl, rfl⟩ := pure_eq_ok.1 h
      exact .skipDel (by simpa using hs)
  | logSync sec =>
    obtain ⟨_, _, h₁, h⟩ := bind_eq_ok.1 h
    obtain ⟨rfl, rfl⟩ := pure_eq_ok.1 h
    exact .logSync h₁
  | logGlobalStart | logGlobalStop =>
    obtain ⟨⟨r, dev₁⟩, w₁, h₁, h⟩ := bind_eq_ok.1 h
    dsimp only at h
    split_ifs at h with hr
    · obtain ⟨_, _, h, -⟩ := bind_eq_ok.1 h
      exact absurd h throw_ne_ok
    · obtain ⟨rfl, rfl⟩ := pure_eq_ok.1 (by simpa only [pure_bind] using h)
      first
        | exact .logStart hr h₁
        | exact .logStop hr h₁
  | devStart =>
    obtain ⟨_, _, h₁, h⟩ := bind_eq_ok.1 h
    obtain ⟨rfl, rfl⟩ := pure_eq_ok.1 h
    exact .devStart h₁
  | devStop => exact .devStop h
  | accelDirty addr =>
    obtain ⟨_, _, h₁, h⟩ := bind_eq_ok.1 h
    obtain ⟨rfl, rfl⟩ := pure_eq_ok.1 h
    exact .accelDirty h₁

/-- A run of events. -/
def vhostRun (dev : VhostDev) : List VhostEvent → VhostM VhostDev
  | [] => return dev
  | e :: es => do vhostRun (← vhostStep G dev e) es

/-- `vhost_dev_init` on the caller's device in the initial world of `env`, then the events:
nothing when the initialisation fails or a step aborts. -/
def vhostRunFrom (env : Env) (hdev : VhostDev) (es : List VhostEvent) : Option (VhostDev × World) :=
  match vhostDevInit hdev (World.init env) with
  | .ok ((0, dev), w) => (vhostRun G dev es w).toOption
  | _ => none

variable {G}

/-! ### Runs that the code gets wrong

A guest with one virtqueue whose rings lie in its first 16 KiB, and its RAM in two sections of
one log word each, backed by two memory regions. -/

/-- Every call succeeds, guest memory is mapped 4 GiB up in the host and whole, and every
virtqueue has its rings in the guest's first 16 KiB, its used ring in `[0x3000, 0x3100)`. -/
def oneQueueEnv : Env where
  errno _ := 0
  map _ addr len := (addr + 0x100000000, len)
  features := 0
  queue _ := ⟨256, 0x1000, 0x1000, 0x2000, 0x100, 0x3000, 0x100, 0x1000, 0x2100, 5, 6⟩
  hasSetGuestNotifiers := true
  hasSetHostNotifier := true

/-- The caller's device before `vhost_dev_init`: one virtqueue, nothing acked. -/
def oneQueueDev : VhostDev := ⟨[], [], [default], 0, 0, 0, false, false⟩

/-- The first log word of guest RAM, `[0, 0x40000)`, in a memory region of its own. -/
def lowSection : MemoryRegionSection := ⟨⟨0, 0x200000000, true, false⟩, true, 0, 0, 0x40000⟩

/-- The second log word of guest RAM, `[0x40000, 0x80000)`, in another memory region. -/
def highSection : MemoryRegionSection := ⟨⟨1, 0x300000000, true, false⟩, true, 0, 0x40000, 0x40000⟩

set_option smartUnfolding false in
/-- `vhost_dev_start` hands `VHOST_SET_LOG_BASE` the log's address as the pointer to the base,
so the accelerator reads the first word of the zeroed log: on a device started with logging
on, the accelerator's log base is `0`, not the log at `1`. -/
theorem vhostDevStart_logBase_is_first_word :
    (vhostRunFrom .lp64 oneQueueEnv oneQueueDev [.regionAdd lowSection, .logGlobalStart, .devStart]).map
        (fun r => (r.1.started, r.1.logEnabled, r.1.log, r.2.accel.logBase)) =
      some (true, true, 1, 0) := by
  decide

set_option smartUnfolding false in
/-- A `vhost_dev_start` that fails keeps what it acquired. When `VHOST_SET_LOG_BASE` fails
(the fifteenth call, with `EIO`), the call returns `-EIO` with the device stopped but still
holding the log it allocated. When the mapping of the descriptor table comes back short, the
call returns `-ENOMEM` with that mapping never released. -/
theorem vhostDevStart_failure_keeps_resources :
    ((vhostRunFrom .lp64 { oneQueueEnv with errno := fun n => if n = 14 then 5 else 0 } oneQueueDev
        [.regionAdd lowSection, .logGlobalStart]).bind
      fun r => (vhostDevStart .lp64 r.1 r.2).toOption).map
        (fun r => (r.1.1, r.1.2.started, r.1.2.log, (r.2.heap r.1.2.log).isSome)) =
      some (-5, false, 1, true) ∧
    ((vhostRunFrom .lp64 { oneQueueEnv with map := fun _ addr len =>
        if addr = 0x1000 ∧ len = 0x1000 then (addr + 0x100000000, len - 1)
        else (addr + 0x100000000, len) } oneQueueDev [.regionAdd lowSection]).bind
      fun r => (vhostDevStart .lp64 r.1 r.2).toOption).map
        (fun r => (r.1.1, r.1.2.started, r.2.mapped)) =
      some (-12, false, [0x100001000]) := by
  decide

set_option smartUnfolding false in
/-- `vhost_dev_stop` harvests the log for every tracked section over the whole address space,
so the first section takes every dirty bit. The accelerator marks the first page of the high
section dirty, and the stop reports it against the low section's memory region, at its offset
`0`; nothing is reported against the high section. -/
theorem vhostDevStop_reports_against_first_section :
    ((vhostRunFrom .lp64 oneQueueEnv oneQueueDev
        [.regionAdd lowSection, .regionAdd highSection, .devStart, .logGlobalStart,
          .accelDirty 0x40000]).bind
      fun r => (vhostDevStop .lp64 r.1 r.2).toOption).map (fun r => r.2.dirty) =
      some [⟨lowSection.mr, 0, 0x1000⟩] := by
  decide

end Vhost
