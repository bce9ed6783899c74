import Vhost.Table

/-!
# The device, the accelerator and the world around them

`vhost.c` drives an in-kernel accelerator through `ioctl`s on `dev->control`, maps the rings
of the guest's virtqueues with `cpu_physical_memory_map`, allocates the dirty log with
`g_malloc0`, and tells the memory core about dirty pages with `memory_region_set_dirty`. The
device is `struct vhost_dev`; everything it talks to is the `World`.

The world answers as an environment `Env` says, fixed for a run: which call fails and with
which `errno`, what each mapping call returns, what the accelerator supports, and how the
guest laid out its virtqueues. Every theorem about a run holds for every environment unless it
says otherwise, so a theorem about a run is a theorem about every way the kernel and the
collaborators can answer.

A function of `vhost.c` is a computation in `VhostM`: it changes the world, and stops with an
`Abort` when one of the code's `assert`s or `abort()`s fires. The device is passed in and
returned, as the code mutates it through its pointer.

## Main definitions

* `VhostVirtqueue`, `VhostDev` — `struct vhost_virtqueue`, `struct vhost_dev`
* `VhostIoctl`, `Accel` — the commands of the control channel and the state they set
* `Env`, `World` — the environment of a run and the state of everything but the device
* `VhostM` — computations that change the world and may abort
* `ioctl`, `ioctlSetLogBase`, `cpuPhysicalMemoryMap`, `gMalloc0`, `gFree`,
  `memoryRegionSetDirty` — the calls `vhost.c` makes into the world
-/

set_option autoImplicit false

namespace Vhost

/-- `VHOST_F_LOG_ALL` of `<linux/vhost.h>`: the feature bit that turns dirty logging on. -/
def vhostFLogAll : Nat := 26

/-- `VHOST_VRING_F_LOG` of `<linux/vhost.h>`: the ring flag that logs writes to the used
ring. -/
def vhostVringFLog : Nat := 0

/-- `struct vhost_virtqueue`: the host addresses of the mapped rings, and the guest addresses
and sizes of the used ring and of the ring area. `num` is only written, and is left out. -/
structure VhostVirtqueue where
  desc : Nat
  avail : Nat
  used : Nat
  ring : Nat
  usedPhys : Nat
  usedSize : Nat
  ringPhys : Nat
  ringSize : Nat
  deriving DecidableEq, Repr, Inhabited

/-- `struct vhost_dev`, the fields that `vhost.c` reads. `nvqs` is the length of `vqs`, and
`n_mem_sections` that of `memSections`; `log` is the address of the log buffer, `0` for
`NULL`. `control`, `features`, `force` and the listener are left out. -/
structure VhostDev where
  mem : List VhostMemoryRegion
  memSections : List MemoryRegionSection
  vqs : List VhostVirtqueue
  ackedFeatures : Nat
  log : Nat
  logSize : Nat
  logEnabled : Bool
  started : Bool
  deriving DecidableEq, Repr

/-- `struct vhost_vring_addr`. -/
structure VhostVringAddr where
  index : Nat
  descUserAddr : Nat
  availUserAddr : Nat
  usedUserAddr : Nat
  logGuestAddr : Nat
  flags : Nat
  deriving DecidableEq, Repr

/-- The control-channel commands that set state in the accelerator, with the values it reads
from their arguments. -/
inductive VhostIoctl
  | setOwner
  | setFeatures (features : Nat)
  | setMemTable (mem : List VhostMemoryRegion)
  | setLogBase (base : Nat)
  | setVringNum (index num : Nat)
  | setVringBase (index num : Nat)
  | setVringAddr (addr : VhostVringAddr)
  | setVringKick (index fd : Nat)
  | setVringCall (index fd : Nat)
  deriving DecidableEq, Repr

/-- What the accelerator holds, as the commands of the control channel last set it. -/
structure Accel where
  owned : Bool
  features : Nat
  memTable : List VhostMemoryRegion
  logBase : Nat
  vringNum : Nat → Nat
  vringBase : Nat → Nat
  vringAddr : Nat → Option VhostVringAddr
  vringKick : Nat → Nat
  vringCall : Nat → Nat

/-- The accelerator takes a command that succeeds. -/
def Accel.apply (a : Accel) : VhostIoctl → Accel
  | .setOwner => { a with owned := true }
  | .setFeatures features => { a with features := features }
  | .setMemTable mem => { a with memTable := mem }
  | .setLogBase base => { a with logBase := base }
  | .setVringNum index num => { a with vringNum := Function.update a.vringNum index num }
  | .setVringBase index num => { a with vringBase := Function.update a.vringBase index num }
  | .setVringAddr addr => { a with vringAddr := Function.update a.vringAddr addr.index (some addr) }
  | .setVringKick index fd => { a with vringKick := Function.update a.vringKick index fd }
  | .setVringCall index fd => { a with vringCall := Function.update a.vringCall index fd }

/-- What `virtio_queue_get_*` report for one virtqueue of the guest: its size, the guest
addresses and sizes of its descriptor table, available ring, used ring and ring area, and the
descriptors of its host and guest notifiers. -/
structure VirtQueueInfo where
  num : Nat
  descAddr : Nat
  descSize : Nat
  availAddr : Nat
  availSize : Nat
  usedAddr : Nat
  usedSize : Nat
  ringAddr : Nat
  ringSize : Nat
  hostNotifier : Nat
  guestNotifier : Nat
  deriving DecidableEq, Repr

/-- The environment of a run: the `errno` of each fallible call (`0` when the call succeeds),
what each call of `cpu_physical_memory_map` returns (address, `0` for `NULL`, and length) for
the call's index, address and length, the features `VHOST_GET_FEATURES` reports, the guest's
virtqueues, and whether the binding has `set_guest_notifiers` and `set_host_notifier`. -/
structure Env where
  errno : Nat → Nat
  map : Nat → Nat → Nat → Nat × Nat
  features : Nat
  queue : Nat → VirtQueueInfo
  hasSetGuestNotifiers : Bool
  hasSetHostNotifier : Bool

/-- A call to `memory_region_set_dirty`. -/
structure DirtyReport where
  mr : MemoryRegion
  addr : Nat
  size : Nat
  deriving DecidableEq, Repr

/-- Everything but the device: the environment, how many calls into the world were made, the
last `errno`, the accelerator, the log buffers that `g_malloc0` handed out (by address, as
lists of words) and the next address it hands out, the host addresses mapped and not yet
unmapped, the notifiers the binding has set, the available index of each virtqueue that
`virtio_queue_set_last_avail_idx` last stored, and the `memory_region_set_dirty` calls so
far. -/
structure World where
  env : Env
  calls : Nat
  errno : Nat
  accel : Accel
  heap : Nat → Option (List Nat)
  brk : Nat
  mapped : List Nat
  guestNotifiers : Bool
  hostNotifiers : Nat → Bool
  lastAvailIdx : Nat → Nat
  dirty : List DirtyReport

/-- The accelerator as the kernel creates it: no owner, no features, no table, no log. -/
def Accel.init : Accel :=
  ⟨false, 0, [], 0, fun _ => 0, fun _ => 0, fun _ => none, fun _ => 0, fun _ => 0⟩

/-- The world when the device is created: nothing called, allocated, mapped or reported yet.
Address `0` is `NULL`, so allocation starts at `1`. -/
def World.init (env : Env) : World :=
  ⟨env, 0, 0, Accel.init, fun _ => none, 1, [], false, fun _ => false, fun _ => 0, []⟩

/-- The `assert`s and `abort()`s of `vhost.c`, named by the function they are in. A run that
reaches one stops there. A read or write of the log outside its buffer stops the run as well,
named by the function that makes it. -/
inductive Abort
  | regionTable
  | setMemory
  | syncRegion
  | logResize
  | setLog
  | migrationLog
  | virtqueueCleanup
  | notifiers
  | devStop
  deriving DecidableEq, Repr

/-- A computation of `vhost.c`: it changes the world, and may stop at an `assert`. -/
abbrev VhostM := StateT World (Except Abort)

section Returns

variable {α β : Type} {w w' : World}

/-- A bind returns when its first part returns and the rest returns from there. -/
theorem bind_eq_ok {x : VhostM α} {f : α → VhostM β} {b : β} :
    (x >>= f) w = .ok (b, w') ↔ ∃ a w₁, x w = .ok (a, w₁) ∧ f a w₁ = .ok (b, w') := by
  rw [show (x >>= f) w = (x w).bind fun p => f p.1 p.2 from rfl]
  rcases x w with e | ⟨a, w₁⟩ <;> simp [Except.bind, and_assoc]

/-- What follows a part that returned returns as well. -/
theorem ok_of_bind {x : VhostM α} {f : α → VhostM β} {b : β} (h : (x >>= f) w = .ok (b, w')) :
    ∃ a w₁, f a w₁ = .ok (b, w') :=
  let ⟨a, w₁, _, h⟩ := bind_eq_ok.1 h
  ⟨a, w₁, h⟩

@[simp] theorem pure_eq_ok {a b : α} : (pure a : VhostM α) w = .ok (b, w') ↔ a = b ∧ w = w' := by
  simp [pure, StateT.pure, Except.pure]

@[simp] theorem throw_ne_ok {e : Abort} {p : α × World} : (throw e : VhostM α) w ≠ .ok p :=
  nofun

end Returns

/-! ### Calls into the world -/

/-- `EFAULT`: the accelerator could not read the argument of a command. -/
def efault : Nat := 14

/-- `ENOMEM`. -/
def enomem : Nat := 12

theorem neg_enomem_lt_zero : -(enomem : Int) < 0 := by decide

/-- `ENOSYS`. -/
def enosys : Nat := 38

/-- `EBUSY`. -/
def ebusy : Nat := 16

/-- `ioctl(dev->control, cmd, arg)` for a command that sets state in the accelerator: the
call fails, returning `-1` and setting `errno`, when the environment says so; otherwise it
returns `0`, the accelerator having taken the command. -/
def ioctl (cmd : VhostIoctl) : VhostM Int := fun w =>
  if w.env.errno w.calls = 0 then
    .ok (0, { w with calls := w.calls + 1, accel := w.accel.apply cmd })
  else .ok (-1, { w with calls := w.calls + 1, errno := w.env.errno w.calls })

/-- A command either takes effect and returns `0`, or fails with `-1`, sets a nonzero `errno`
and leaves the accelerator as it was. -/
theorem ioctl_accel {cmd : VhostIoctl} {w w' : World} {r : Int} (h : ioctl cmd w = .ok (r, w')) :
    (r = 0 ∧ w'.accel = w.accel.apply cmd) ∨ (r = -1 ∧ w'.accel = w.accel ∧ w'.errno ≠ 0) := by
  unfold ioctl at h
  split_ifs at h with he <;> simp only [Except.ok.injEq, Prod.mk.injEq] at h <;>
    obtain ⟨rfl, rfl⟩ := h
  exacts [.inl ⟨rfl, rfl⟩, .inr ⟨rfl, rfl, he⟩]

/-- `ioctl(dev->control, VHOST_GET_FEATURES, &features)`. -/
def ioctlGetFeatures : VhostM (Int × Nat) := fun w =>
  if w.env.errno w.calls = 0 then .ok ((0, w.env.features), { w with calls := w.calls + 1 })
  else .ok ((-1, 0), { w with calls := w.calls + 1, errno := w.env.errno w.calls })

/-- `ioctl(dev->control, VHOST_GET_VRING_BASE, &state)`: the available index the accelerator
holds for the ring. -/
def ioctlGetVringBase (index : Nat) : VhostM (Int × Nat) := fun w =>
  if w.env.errno w.calls = 0 then
    .ok ((0, w.accel.vringBase index), { w with calls := w.calls + 1 })
  else .ok ((-1, 0), { w with calls := w.calls + 1, errno := w.env.errno w.calls })

/-- Where the process keeps the `uint64_t` that `VHOST_SET_LOG_BASE` reads the log base from:
a local variable holding it (`&log_base`), or an address the process passes as the pointer. -/
inductive LogBaseArg
  | local (base : Nat)
  | address (addr : Nat)
  deriving DecidableEq, Repr

/-- The `uint64_t` the accelerator reads through the argument: the local's value, or the first
word of the buffer at the address; nothing when no buffer is there. -/
def readU64 (w : World) : LogBaseArg → Option Nat
  | .local base => some base
  | .address addr => (w.heap addr).bind List.head?

/-- `ioctl(dev->control, VHOST_SET_LOG_BASE, arg)`: the accelerator reads the base through the
pointer, and fails with `EFAULT` when it cannot. -/
def ioctlSetLogBase (arg : LogBaseArg) : VhostM Int := fun w =>
  match readU64 w arg with
  | some base => ioctl (.setLogBase base) w
  | none => .ok (-1, { w with calls := w.calls + 1, errno := efault })

/-- `VHOST_SET_LOG_BASE` changes nothing in the accelerator but its log base. -/
theorem ioctlSetLogBase_accel {arg : LogBaseArg} {w w' : World} {r : Int}
    (h : ioctlSetLogBase arg w = .ok (r, w')) : ∃ base, w'.accel = { w.accel with logBase := base } := by
  unfold ioctlSetLogBase at h
  split at h
  · rcases ioctl_accel h with ⟨-, ha⟩ | ⟨-, ha, -⟩ <;> exact ⟨_, ha⟩
  · exact ⟨w.accel.logBase, by rw [← (Prod.mk.inj (Except.ok.inj h)).2]⟩

/-- The `errno` of the last call that failed. -/
def getErrno : VhostM Nat := fun w => .ok (w.errno, w)

/-- `return -errno;` returns the `errno` of the last call that failed. -/
theorem getErrno_neg_ret {β : Type} {b b' : β} {w w' : World} {r : Int}
    (h : (getErrno >>= fun e => pure (-(e : Int), b)) w = .ok ((r, b'), w')) :
    r = -(w.errno : Int) := by
  obtain ⟨e, w₁, h₁, h⟩ := bind_eq_ok.1 h
  obtain ⟨rfl, rfl⟩ := Prod.mk.inj (Except.ok.inj h₁)
  exact (Prod.mk.inj (pure_eq_ok.1 h).1).1.symm

/-- What the environment says, read by the code through its collaborators. -/
def getEnv : VhostM Env := fun w => .ok (w.env, w)

theorem getEnv_eq_ok {e : Env} {w w' : World} : getEnv w = .ok (e, w') ↔ e = w.env ∧ w = w' := by
  simp [getEnv, eq_comm]

/-- `virtio_queue_get_last_avail_idx(vdev, n)`. -/
def virtioQueueGetLastAvailIdx (n : Nat) : VhostM Nat := fun w => .ok (w.lastAvailIdx n, w)

/-- `cpu_physical_memory_map(addr, &len, is_write)`: what the environment returns for this
call, a host address (`0` for `NULL`) and the length it could map; a mapping that is not
`NULL` stays recorded until it is unmapped. -/
def cpuPhysicalMemoryMap (addr len : Nat) : VhostM (Nat × Nat) := fun w =>
  let r := w.env.map w.calls addr len
  .ok (r, { w with calls := w.calls + 1, mapped := if r.1 = 0 then w.mapped else w.mapped ++ [r.1] })

/-- A mapping that is not `NULL` is recorded last. -/
theorem cpuPhysicalMemoryMap_mapped {addr len p l : Nat} {w w' : World}
    (h : cpuPhysicalMemoryMap addr len w = .ok ((p, l), w')) (hp : p ≠ 0) :
    w'.mapped = w.mapped ++ [p] := by
  obtain ⟨hr, rfl⟩ := Prod.mk.inj (Except.ok.inj h)
  simp only [hr, if_neg hp]

/-- `cpu_physical_memory_unmap(buffer, len, is_write, access_len)`. -/
def cpuPhysicalMemoryUnmap (buffer : Nat) : VhostM Unit := fun w =>
  .ok ((), { w with mapped := w.mapped.erase buffer })

/-- `g_malloc0(n)`: a fresh buffer of `n` zero words. -/
def gMalloc0 (n : Nat) : VhostM Nat := fun w =>
  .ok (w.brk,
    { w with brk := w.brk + n + 1, heap := Function.update w.heap w.brk (some (List.replicate n 0)) })

/-- `g_free(p)`; `g_free(NULL)` does nothing. -/
def gFree (p : Nat) : VhostM Unit := fun w =>
  .ok ((), if p = 0 then w else { w with heap := Function.update w.heap p none })

/-- `memory_region_set_dirty(mr, addr, size)`. -/
def memoryRegionSetDirty (mr : MemoryRegion) (addr size : Nat) : VhostM Unit := fun w =>
  .ok ((), { w with dirty := w.dirty ++ [⟨mr, addr, size⟩] })

/-- `vdev->binding->set_guest_notifiers(opaque, assign)`: `0`, or `-errno` when the
environment fails the call. -/
def setGuestNotifiers (assign : Bool) : VhostM Int := fun w =>
  if w.env.errno w.calls = 0 then .ok (0, { w with calls := w.calls + 1, guestNotifiers := assign })
  else .ok (-(w.env.errno w.calls : Int), { w with calls := w.calls + 1 })

theorem setGuestNotifiers_accel {assign : Bool} {w w' : World} {r : Int}
    (h : setGuestNotifiers assign w = .ok (r, w')) : w'.accel = w.accel := by
  unfold setGuestNotifiers at h
  split_ifs at h <;> rw [← (Prod.mk.inj (Except.ok.inj h)).2]

/-- The binding's call changes only the call counter and whether the guest notifiers are
bound; when it does not fail, they are bound or unbound as asked. -/
theorem setGuestNotifiers_frame {assign : Bool} {w w' : World} {r : Int}
    (h : setGuestNotifiers assign w = .ok (r, w')) :
    w' = { w with calls := w'.calls, guestNotifiers := w'.guestNotifiers } ∧
      (¬r < 0 → w'.guestNotifiers = assign) := by
  unfold setGuestNotifiers at h
  split_ifs at h with he <;> obtain ⟨rfl, rfl⟩ := Prod.mk.inj (Except.ok.inj h)
  · exact ⟨rfl, fun _ => rfl⟩
  · exact ⟨rfl, fun hr => (hr (by omega)).elim⟩

/-- `vdev->binding->set_host_notifier(opaque, n, assign)`. -/
def setHostNotifier (n : Nat) (assign : Bool) : VhostM Int := fun w =>
  if w.env.errno w.calls = 0 then
    .ok (0, { w with calls := w.calls + 1, hostNotifiers := Function.update w.hostNotifiers n assign })
  else .ok (-(w.env.errno w.calls : Int), { w with calls := w.calls + 1 })

/-- The binding either sets the notifier of ring `n` as asked and returns `0`, or returns a
negative error and leaves the notifiers as they were. -/
theorem setHostNotifier_spec {n : Nat} {assign : Bool} {w w' : World} {r : Int}
    (h : setHostNotifier n assign w = .ok (r, w')) :
    (r = 0 ∧ w'.hostNotifiers = Function.update w.hostNotifiers n assign) ∨
      (r < 0 ∧ w'.hostNotifiers = w.hostNotifiers) := by
  unfold setHostNotifier at h
  split_ifs at h with he <;> obtain ⟨rfl, rfl⟩ := Prod.mk.inj (Except.ok.inj h)
  exacts [.inl ⟨rfl, rfl⟩, .inr ⟨by omega, rfl⟩]

/-- `virtio_queue_set_last_avail_idx(vdev, n, idx)`. -/
def virtioQueueSetLastAvailIdx (n idx : Nat) : VhostM Unit := fun w =>
  .ok ((), { w with lastAvailIdx := Function.update w.lastAvailIdx n idx })

/-- The word `i` of the log buffer at `log`, which must be inside the buffer. -/
def logWord (log i : Nat) : VhostM Nat := fun w =>
  match (w.heap log).bind (·[i]?) with
  | some v => .ok (v, w)
  | none => .error .syncRegion

/-- A read of the log that returns is inside the buffer and changes nothing. -/
theorem logWord_eq_ok {log i v : Nat} {w w' : World} (h : logWord log i w = .ok (v, w')) :
    ∃ ws, w.heap log = some ws ∧ ∃ hi : i < ws.length, ws[i] = v ∧ w' = w := by
  unfold logWord at h
  split at h
  · rename_i hv
    obtain ⟨rfl, rfl⟩ := Prod.mk.inj (Except.ok.inj h)
    obtain ⟨ws, hws, hv⟩ := Option.bind_eq_some.1 hv
    obtain ⟨hi, rfl⟩ := List.getElem?_eq_some_iff.1 hv
    exact ⟨ws, hws, hi, rfl, rfl⟩
  · exact absurd h nofun

/-- `__sync_fetch_and_and(from, 0)` on the word `i` of the log buffer at `log`: the word,
which is cleared. -/
def logFetchAndClear (log i : Nat) : VhostM Nat := fun w =>
  match w.heap log with
  | some ws =>
    match ws[i]? with
    | some v => .ok (v, { w with heap := Function.update w.heap log (some (ws.set i 0)) })
    | none => .error .syncRegion
  | none => .error .syncRegion

end Vhost
