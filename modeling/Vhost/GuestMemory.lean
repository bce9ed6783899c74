import Vhost.AccelInvariant

/-!
# The table refines the guest memory the listener describes

The memory listener tells `vhost.c` which sections of guest memory are added and removed, and
`vhost_set_memory` keeps `dev->mem` as a table of regions for them, splitting and merging regions
as it goes; while the device is started it pushes the table to the accelerator. What the table
means is a map from guest addresses to host addresses, read through `translate`. The abstract
model `guestMemory` builds that map from the listener's events alone: a region event on a RAM
section of the system address space overrides the section's range, mapped to the section's RAM
for an add of a region without dirty logging and unmapped otherwise (a dirty-logged region is
left to the emulated path). Every other event leaves it alone.

Along every run from `vhost_dev_init` whose sections do not wrap around the address space, the
device's table is valid and translates every guest address as `guestMemory` says, whatever the
starts, stops, log switches and harvests in between; while the device is started, so does the
table the accelerator holds.

## Main definitions

* `guestStep`, `guestMemory` — the guest memory map the listener's events describe
* `VhostEvent.NoWrap` — the section of a region event does not wrap

## Main results

* `vhostStep_table` — one event keeps the table valid and acts on its map as `guestStep`
* `vhostRun_guestMemory` — along every run, the device's table refines the guest memory map
* `vhostRun_accelMemory` — while the device is started, so does the accelerator's table
-/

set_option autoImplicit false

namespace Vhost

variable (G : LogGeometry)

/-- One event on the guest memory map: a region event on a RAM section of the system address
space maps the section's range to its RAM when it adds a region without dirty logging, and
unmaps it otherwise; every other event leaves the map alone. -/
def guestStep (m : Nat → Option Nat) : VhostEvent → Nat → Option Nat
  | .regionAdd sec => if vhostSection sec then
      overrideMap m sec.offsetWithinAddressSpace sec.size sec.ram !sec.mr.logging else m
  | .regionDel sec => if vhostSection sec then
      overrideMap m sec.offsetWithinAddressSpace sec.size sec.ram false else m
  | _ => m

/-- The guest memory map after the events `es`, from the map `m`. -/
def guestMemory (m : Nat → Option Nat) (es : List VhostEvent) : Nat → Option Nat :=
  es.foldl guestStep m

/-- The section of a region event wraps around the address space neither in guest nor in host
addresses; the other events have no section to add or remove. -/
def VhostEvent.NoWrap : VhostEvent → Prop
  | .regionAdd sec | .regionDel sec => sec.NoWrap
  | _ => True

instance (e : VhostEvent) : Decidable e.NoWrap := by
  cases e <;> dsimp only [VhostEvent.NoWrap] <;> infer_instance

/-! ### Only `vhost_set_memory` changes the table -/

theorem returns_mem_vhostDevStart (hdev : VhostDev) :
    Returns (fun r => r.2.mem = hdev.mem) (vhostDevStart G hdev) := by
  unfold vhostDevStart
  refine Returns.bind fun _ => Returns.ite (Returns.ret rfl) (Returns.bind fun _ => ?_)
  refine Returns.bind fun _ => Returns.ite (Returns.ret rfl) (Returns.bind fun _ => ?_)
  refine Returns.bind fun _ => Returns.ite (Returns.bind fun _ => Returns.ret rfl)
    (Returns.bind fun _ => ?_)
  refine Returns.bind fun _ => Returns.ite
    (Returns.bind fun _ => Returns.bind fun _ => Returns.ret rfl) (Returns.bind fun _ => ?_)
  refine Returns.bind fun ⟨_, failed⟩ => ?_
  cases failed
  · refine Returns.bind fun _ => Returns.ite (Returns.ret rfl) (Returns.bind fun _ => ?_)
    exact Returns.bind fun _ => Returns.bind fun _ => Returns.ite
      (Returns.bind fun _ => Returns.bind fun _ => Returns.bind fun _ => Returns.ret rfl)
      (Returns.bind fun _ => Returns.ret rfl)
  · exact Returns.bind fun _ => Returns.bind fun _ => Returns.ret rfl

theorem returns_mem_vhostDevStop (hdev : VhostDev) :
    Returns (fun d => d.mem = hdev.mem) (vhostDevStop G hdev) :=
  have tail : Returns (fun d => d.mem = hdev.mem)
      (gFree hdev.log >>= fun _ => pure { hdev with started := false, log := 0, logSize := 0 }) :=
    Returns.bind fun _ => Returns.ret rfl
  Returns.bind fun _ => Returns.bind fun _ => Returns.bind fun _ => Returns.ite
    (Returns.bind fun _ => tail) (Returns.bind fun _ => tail)

variable {G}

/-- `vhost_set_memory` gives the device the table its table half computes; the resizes of the
log after it keep it. -/
theorem vhostSetMemory_mem {dev dev' : VhostDev} {sec : MemoryRegionSection} {add : Bool}
    {w w' : World} (h : vhostSetMemory G dev sec add w = .ok (dev', w')) :
    ∃ changed, vhostSetMemorySection dev.mem sec add = some (changed, dev'.mem) := by
  obtain ⟨changed, mem, hs, ⟨-, rfl, -⟩ | ⟨-, -, _, _, -, -, ⟨-, rfl, -⟩ |
    ⟨-, _, _, _, h₂, -, h₄⟩⟩⟩ := vhostSetMemory_inv G h
  · exact ⟨changed, hs⟩
  · exact ⟨changed, hs⟩
  · obtain ⟨_, _, _, rfl, -⟩ := vhostDevLogResize_ite_accel G h₂
    obtain ⟨_, _, _, rfl, -⟩ := vhostDevLogResize_ite_accel G h₄
    exact ⟨changed, hs⟩

/-! ### The refinement -/

section Table

variable {dev dev' : VhostDev} {w w' : World}

/-- The table half of a region event on a section that does not wrap keeps the table valid and
overrides its map on the section's range. -/
theorem vhostSetMemory_table {sec : MemoryRegionSection} {add : Bool} (hv : TableValid dev.mem)
    (hsec : sec.NoWrap) (h : vhostSetMemory G dev sec add w = .ok (dev', w')) :
    TableValid dev'.mem ∧ translate dev'.mem = overrideMap (translate dev.mem)
      sec.offsetWithinAddressSpace sec.size sec.ram (add && !sec.mr.logging) := by
  obtain ⟨_, hm⟩ := vhostSetMemory_mem h
  obtain ⟨_, _, hm', hv', ht⟩ := vhostSetMemorySection_spec hv hsec add
  obtain ⟨-, rfl⟩ := Prod.mk.inj (Option.some.inj (hm'.symm.trans hm))
  exact ⟨hv', ht⟩

/-- One event keeps the table valid and acts on its map as `guestStep` says. -/
theorem vhostStep_table {e : VhostEvent} (hv : TableValid dev.mem) (he : e.NoWrap)
    (h : vhostStep G dev e w = .ok (dev', w')) :
    TableValid dev'.mem ∧ translate dev'.mem = guestStep (translate dev.mem) e := by
  -- the events that leave the table alone
  have keep : dev'.mem = dev.mem → guestStep (translate dev.mem) e = translate dev.mem →
      TableValid dev'.mem ∧ translate dev'.mem = guestStep (translate dev.mem) e :=
    fun hm hg => by rw [hm, hg]; exact ⟨hv, rfl⟩
  cases vhostStep_spec G h with
  | skipAdd hs | skipDel hs => exact keep rfl (if_neg (by simp [hs]))
  | @add sec _ _ hs h =>
    rw [guestStep, if_pos hs]
    exact vhostSetMemory_table
      (hv : TableValid { dev with memSections := dev.memSections ++ [sec] }.mem) he h
  | del hs h =>
    rw [guestStep, if_pos hs]
    exact vhostSetMemory_table hv he h
  | logSync _ | accelDirty _ => exact keep rfl rfl
  | logStart _ h | logStop _ h => exact keep (returns_vhostMigrationLog G _ _ h).2.2 rfl
  | devStart h => exact keep (returns_mem_vhostDevStart G _ h) rfl
  | devStop h => exact keep (returns_mem_vhostDevStop G _ h) rfl

/-- A run whose sections do not wrap keeps the table valid and acts on its map as the events
say. -/
theorem vhostRun_table : ∀ {es : List VhostEvent} {dev dev' : VhostDev} {w w' : World},
    (∀ e ∈ es, e.NoWrap) → TableValid dev.mem → vhostRun G dev es w = .ok (dev', w') →
      TableValid dev'.mem ∧ translate dev'.mem = guestMemory (translate dev.mem) es
  | [], _, _, _, _, _, hv, h => by
    obtain ⟨rfl, rfl⟩ := pure_eq_ok.1 h
    exact ⟨hv, rfl⟩
  | e :: _, _, _, _, _, hes, hv, h => by
    obtain ⟨_, _, h₁, h⟩ := bind_eq_ok.1 h
    obtain ⟨hv₁, ht₁⟩ := vhostStep_table hv (hes e (List.mem_cons_self _ _)) h₁
    rw [guestMemory, List.foldl_cons, ← ht₁]
    exact vhostRun_table (fun e he => hes e (List.mem_cons_of_mem _ he)) hv₁ h

end Table

/-! ### Along whole runs -/

variable (G)

/-- Along every run from `vhost_dev_init` whose region sections do not wrap, the device's table
is valid (well-formed regions, pairwise disjoint and not joinable) and maps every guest address
to the host address the listener's events give it, or to nothing: the table refines the guest
memory map, whatever the starts, stops, log switches and harvests in between. -/
theorem vhostRun_guestMemory {env : Env} {hdev dev₀ : VhostDev} {w₀ : World}
    (hinit : vhostDevInit hdev (World.init env) = .ok ((0, dev₀), w₀)) {es : List VhostEvent}
    (hes : ∀ e ∈ es, e.NoWrap) :
    ∀ dev w, vhostRun G dev₀ es w₀ = .ok (dev, w) →
      TableValid dev.mem ∧ translate dev.mem = guestMemory (fun _ => none) es := by
  obtain ⟨rfl, -⟩ := vhostDevInit_eq hinit
  exact fun _ _ h => vhostRun_table hes tableValid_nil h

set_option smartUnfolding false in
/-- The one-queue device of `Vhost.Run`, given two sections of RAM, started, with logging
switched on and off around the second section's removal. -/
theorem vhostRun_guestMemory_oneQueue :
    (∀ e ∈ [.regionAdd lowSection, .devStart, .regionAdd highSection, .logGlobalStart,
      .regionDel highSection, .logGlobalStop], VhostEvent.NoWrap e) ∧
      (vhostRun .lp64 oneQueueDev [.regionAdd lowSection, .devStart,
          .regionAdd highSection, .logGlobalStart, .regionDel highSection, .logGlobalStop]
          { World.init oneQueueEnv with calls := 2, accel := Accel.init.apply .setOwner }).toOption.map
        (·.1.started) = some true ∧
      ∀ dev w, vhostRun .lp64 oneQueueDev [.regionAdd lowSection, .devStart,
          .regionAdd highSection, .logGlobalStart, .regionDel highSection, .logGlobalStop]
          { World.init oneQueueEnv with calls := 2, accel := Accel.init.apply .setOwner } =
            .ok (dev, w) →
          TableValid dev.mem ∧ translate dev.mem = guestMemory (fun _ => none)
            [.regionAdd lowSection, .devStart, .regionAdd highSection, .logGlobalStart,
              .regionDel highSection, .logGlobalStop] := by
  have hinit : vhostDevInit oneQueueDev (World.init oneQueueEnv) =
      .ok ((0, oneQueueDev), { World.init oneQueueEnv with
        calls := 2
        accel := Accel.init.apply .setOwner }) := rfl
  refine ⟨?hes, by decide, vhostRun_guestMemory .lp64 hinit ?hes⟩
  decide

/-- Along every run from `vhost_dev_init` whose region sections do not wrap and which starts
the device only when it is stopped, the accelerator of a started device holds a valid table
that maps guest memory exactly as the listener's events describe: it never reads guest memory
through a region that was removed, nor misses one that was added. -/
theorem vhostRun_accelMemory {env : Env} {hdev dev₀ : VhostDev} {w₀ : World}
    (hinit : vhostDevInit hdev (World.init env) = .ok ((0, dev₀), w₀)) {es : List VhostEvent}
    (hes : ∀ e ∈ es, e.NoWrap) (hc : startsStopped G dev₀ w₀ es = true) :
    ∀ dev w, vhostRun G dev₀ es w₀ = .ok (dev, w) → dev.started = true →
      TableValid w.accel.memTable ∧
        translate w.accel.memTable = guestMemory (fun _ => none) es := fun _ _ h hs => by
  rw [(vhostRun_accelInv G (vhostDevInit_accelInv hinit) hc h hs).memTable]
  obtain ⟨rfl, -⟩ := vhostDevInit_eq hinit
  exact vhostRun_table hes tableValid_nil h

set_option smartUnfolding false in
/-- The run of `vhostRun_guestMemory_oneQueue` keeps the callers' contract. -/
theorem vhostRun_accelMemory_oneQueue :
    (∀ e ∈ [.regionAdd lowSection, .devStart, .regionAdd highSection, .logGlobalStart,
      .regionDel highSection, .logGlobalStop], VhostEvent.NoWrap e) ∧
      startsStopped .lp64 oneQueueDev
        { World.init oneQueueEnv with calls := 2, accel := Accel.init.apply .setOwner }
        [.regionAdd lowSection, .devStart, .regionAdd highSection, .logGlobalStart,
          .regionDel highSection, .logGlobalStop] = true ∧
      (vhostRun .lp64 oneQueueDev [.regionAdd lowSection, .devStart,
          .regionAdd highSection, .logGlobalStart, .regionDel highSection, .logGlobalStop]
          { World.init oneQueueEnv with calls := 2, accel := Accel.init.apply .setOwner }).toOption.map
        (·.1.started) = some true ∧
      ∀ dev w, vhostRun .lp64 oneQueueDev [.regionAdd lowSection, .devStart,
          .regionAdd highSection, .logGlobalStart, .regionDel highSection, .logGlobalStop]
          { World.init oneQueueEnv with calls := 2, accel := Accel.init.apply .setOwner } =
            .ok (dev, w) → dev.started = true →
          TableValid w.accel.memTable ∧ translate w.accel.memTable = guestMemory (fun _ => none)
            [.regionAdd lowSection, .devStart, .regionAdd highSection, .logGlobalStart,
              .regionDel highSection, .logGlobalStop] := by
  have hinit : vhostDevInit oneQueueDev (World.init oneQueueEnv) =
      .ok ((0, oneQueueDev), { World.init oneQueueEnv with
        calls := 2
        accel := Accel.init.apply .setOwner }) := rfl
  refine ⟨?hes, ?hc, by decide, vhostRun_accelMemory .lp64 hinit ?hes ?hc⟩
  all_goals decide

end Vhost
