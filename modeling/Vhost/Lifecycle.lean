import Vhost.SetLog

/-!
# Starting and stopping the device

`vhost_dev_start` binds the guest notifiers, pushes the features and the table, binds every
virtqueue with `vhost_virtqueue_init`, and with logging on allocates the log and pushes its
base. A step that fails unwinds the steps before it, in reverse. `vhost_dev_stop` unbinds the
virtqueues, harvests the log for every tracked section over the whole address space, unbinds
the guest notifiers and frees the log.

## Main definitions

* `vhostVirtqueueInit`, `vhostVirtqueueCleanup`
* `vhostDevInit`
* `vhostDevStart`, `vhostDevStop`
* `VhostVirtqueue.areas`, `ringAreas` — the host areas a virtqueue, and the device, map

## Main results

* `vhostVirtqueueInit_ok`, `startQueues_none` — what binding one ring, and all of them, pushes
  and maps
* `vhostDevStart_inv_started` — what a start that starts a stopped device went through
-/

set_option autoImplicit false

namespace Vhost

variable (G : LogGeometry) {env : Env}

/-- The used ring of a virtqueue of the device: guest address and size. -/
def VhostVirtqueue.usedRange (vq : VhostVirtqueue) : Nat × Nat := (vq.usedPhys, vq.usedSize)

/-- The used ring the guest has for a virtqueue. -/
def VirtQueueInfo.usedRange (q : VirtQueueInfo) : Nat × Nat := (q.usedAddr, q.usedSize)

/-- The host areas `vhost_virtqueue_init` maps for a virtqueue, in its order: the descriptor
table, the available ring, the used ring and the ring area. -/
def VhostVirtqueue.areas (vq : VhostVirtqueue) : List Nat := [vq.desc, vq.avail, vq.used, vq.ring]

/-- The host areas of the virtqueues `vqs`, in the order `vhost_dev_start` maps them. -/
def ringAreas (vqs : List VhostVirtqueue) : List Nat := vqs.flatMap VhostVirtqueue.areas

/-- What `vhost_virtqueue_init` leaves in the used ring of the virtqueue `vq` it was given,
where the guest has the ring `q`: the old ring or the guest's, and the guest's when the call
succeeded. -/
def InitUsed (q : VirtQueueInfo) (vq : VhostVirtqueue) (res : Int × VhostVirtqueue) : Prop :=
  (res.2.usedRange = vq.usedRange ∨ res.2.usedRange = q.usedRange) ∧
    (¬ res.1 < 0 → res.2.usedRange = q.usedRange)

/-- `vhost_virtqueue_init` for the ring `idx`, with the logging state `enableLog` of the device:
the error, and the virtqueue as the code left it, also on failure. A mapping that comes back
`NULL` or short fails the call; the mappings made before it are released, in reverse. -/
def vhostVirtqueueInit (enableLog : Bool) (vq : VhostVirtqueue) (idx : Nat) :
    VhostM (Int × VhostVirtqueue) := do
  let q := (← getEnv).queue idx
  let r ← ioctl (.setVringNum idx q.num)
  if r ≠ 0 then return (-((← getErrno) : Int), vq)
  let r ← ioctl (.setVringBase idx (← virtioQueueGetLastAvailIdx idx))
  if r ≠ 0 then return (-((← getErrno) : Int), vq)
  let (desc, l) ← cpuPhysicalMemoryMap q.descAddr q.descSize
  let vq := { vq with desc := desc }
  if desc = 0 ∨ l ≠ q.descSize then return (-(enomem : Int), vq)
  let (avail, l) ← cpuPhysicalMemoryMap q.availAddr q.availSize
  let vq := { vq with avail := avail }
  if avail = 0 ∨ l ≠ q.availSize then
    cpuPhysicalMemoryUnmap vq.desc
    return (-(enomem : Int), vq)
  let vq := { vq with usedSize := q.usedSize, usedPhys := q.usedAddr }
  let (used, l) ← cpuPhysicalMemoryMap q.usedAddr q.usedSize
  let vq := { vq with used := used }
  if used = 0 ∨ l ≠ q.usedSize then
    cpuPhysicalMemoryUnmap vq.avail
    cpuPhysicalMemoryUnmap vq.desc
    return (-(enomem : Int), vq)
  let vq := { vq with ringSize := q.ringSize, ringPhys := q.ringAddr }
  let (ring, l) ← cpuPhysicalMemoryMap q.ringAddr q.ringSize
  let vq := { vq with ring := ring }
  if ring = 0 ∨ l ≠ q.ringSize then
    cpuPhysicalMemoryUnmap vq.used
    cpuPhysicalMemoryUnmap vq.avail
    cpuPhysicalMemoryUnmap vq.desc
    return (-(enomem : Int), vq)
  let r ← vhostVirtqueueSetAddr vq idx enableLog
  let r ← if r < 0 then pure (-((← getErrno) : Int))
    else do
      let r ← ioctl (.setVringKick idx q.hostNotifier)
      if r ≠ 0 then pure (-((← getErrno) : Int))
      else do
        let r ← ioctl (.setVringCall idx q.guestNotifier)
        if r ≠ 0 then pure (-((← getErrno) : Int)) else pure 0
  if r = 0 then return (0, vq)
  cpuPhysicalMemoryUnmap vq.ring
  cpuPhysicalMemoryUnmap vq.used
  cpuPhysicalMemoryUnmap vq.avail
  cpuPhysicalMemoryUnmap vq.desc
  return (r, vq)

theorem calm_vhostVirtqueueInit (enableLog : Bool) (vq : VhostVirtqueue) (idx : Nat) :
    Calm env (InitUsed (env.queue idx) vq) (vhostVirtqueueInit enableLog vq idx) := by
  unfold vhostVirtqueueInit
  refine calm_getEnv.bind fun e h => ?_
  subst e
  dsimp only
  -- the two commands before the used ring is taken return `-errno`, which is negative
  have herr : ∀ e : Nat, 0 < e → InitUsed (env.queue idx) vq (-(e : Int), vq) :=
    fun _ he => ⟨.inl rfl, fun h => absurd (by omega) h⟩
  refine Calm.ioctl_errno ((calm_virtioQueueGetLastAvailIdx _).bind fun _ _ =>
    Calm.ioctl_errno ?_ herr) herr
  repeat' first
    | exact calm_ioctl _
    | exact calm_getErrno
    | exact calm_cpuPhysicalMemoryMap _ _
    | exact calm_cpuPhysicalMemoryUnmap _
    | apply Calm.bind
    | apply Calm.ite
    | exact calm_pushCommand _
    | exact Calm.ret (R := fun _ => True) trivial
    | exact Calm.ret ⟨.inr rfl, fun _ => rfl⟩
    | exact Calm.ret ⟨.inl rfl, fun h => absurd neg_enomem_lt_zero h⟩
    | intro _

/-- A `vhost_virtqueue_init` that does not fail returns `0` and has pushed, in order, the ring's
size, its base, its addresses with the log flag it was given, and its notifiers; nothing else of
the accelerator changed. It has mapped the four areas of the ring, and they stay mapped. Every
other exit returns `-errno` after a failed command, with `errno` set, or `-ENOMEM`. -/
theorem vhostVirtqueueInit_ok {e : Bool} {vq vq' : VhostVirtqueue} {idx : Nat} {r : Int}
    {w w' : World} (h : vhostVirtqueueInit e vq idx w = .ok ((r, vq'), w')) (hr : ¬ r < 0) :
    r = 0 ∧ w'.accel = ((((w.accel.apply (.setVringNum idx (w.env.queue idx).num)).apply
      (.setVringBase idx (w.lastAvailIdx idx))).apply (.setVringAddr (vringAddrOf vq' idx e))).apply
      (.setVringKick idx (w.env.queue idx).hostNotifier)).apply
      (.setVringCall idx (w.env.queue idx).guestNotifier) ∧ w'.mapped = w.mapped ++ vq'.areas ∧
      ∀ {γ : Type} (f : World → γ), Blind f → MapBlind f → f w' = f w := by
  unfold vhostVirtqueueInit at h
  obtain ⟨_, w₁, h₁, h⟩ := bind_eq_ok.1 h
  obtain ⟨rfl, rfl⟩ := getEnv_eq_ok.1 h₁
  -- `VHOST_SET_VRING_NUM` and `VHOST_SET_VRING_BASE`
  obtain ⟨r₁, w₂, h₂, h⟩ := bind_eq_ok.1 h
  rcases ioctl_accel h₂ with ⟨rfl, ha₂⟩ | ⟨rfl, -, he⟩
  swap
  · rw [if_pos (by decide)] at h
    exact (hr (getErrno_neg_ret h ▸ by omega)).elim
  rw [if_neg (by decide), pure_bind] at h
  obtain ⟨base, w₃, h₃, h⟩ := bind_eq_ok.1 h
  obtain ⟨r₂, w₄, h₄, h⟩ := bind_eq_ok.1 h
  rcases ioctl_accel h₄ with ⟨rfl, ha₄⟩ | ⟨rfl, -, he⟩
  swap
  · rw [if_pos (by decide)] at h
    exact (hr (getErrno_neg_ret h ▸ by omega)).elim
  rw [if_neg (by decide), pure_bind] at h
  -- the four mappings, each released again in reverse when a later one fails
  obtain ⟨⟨desc, l₁⟩, w₅, h₅, h⟩ := bind_eq_ok.1 h
  dsimp only at h
  by_cases hd : desc = 0 ∨ l₁ ≠ (w.env.queue idx).descSize
  · rw [if_pos hd] at h
    exact (hr ((Prod.mk.inj (pure_eq_ok.1 h).1).1 ▸ neg_enomem_lt_zero)).elim
  rw [if_neg hd, pure_bind] at h
  obtain ⟨⟨avail, l₂⟩, w₆, h₆, h⟩ := bind_eq_ok.1 h
  dsimp only at h
  by_cases hv : avail = 0 ∨ l₂ ≠ (w.env.queue idx).availSize
  · rw [if_pos hv] at h
    obtain ⟨_, _, h⟩ := ok_of_bind h
    exact (hr ((Prod.mk.inj (pure_eq_ok.1 h).1).1 ▸ neg_enomem_lt_zero)).elim
  rw [if_neg hv, pure_bind] at h
  obtain ⟨⟨used, l₃⟩, w₇, h₇, h⟩ := bind_eq_ok.1 h
  dsimp only at h
  by_cases hu : used = 0 ∨ l₃ ≠ (w.env.queue idx).usedSize
  · rw [if_pos hu] at h
    iterate 2 obtain ⟨_, _, h⟩ := ok_of_bind h
    exact (hr ((Prod.mk.inj (pure_eq_ok.1 h).1).1 ▸ neg_enomem_lt_zero)).elim
  rw [if_neg hu, pure_bind] at h
  obtain ⟨⟨ring, l₄⟩, w₈, h₈, h⟩ := bind_eq_ok.1 h
  dsimp only at h
  by_cases hg : ring = 0 ∨ l₄ ≠ (w.env.queue idx).ringSize
  · rw [if_pos hg] at h
    iterate 3 obtain ⟨_, _, h⟩ := ok_of_bind h
    exact (hr ((Prod.mk.inj (pure_eq_ok.1 h).1).1 ▸ neg_enomem_lt_zero)).elim
  rw [if_neg hg, pure_bind] at h
  -- the addresses and the two notifiers; a failure returns `-errno` after the unmappings
  obtain ⟨r₃, w₉, h₉, h⟩ := bind_eq_ok.1 h
  rcases pushCommand_accel h₉ with ⟨rfl, ha₉⟩ | ⟨hr₃, -, he⟩
  swap
  · rw [if_pos hr₃] at h
    obtain ⟨_, _, h₁, h⟩ := bind_eq_ok.1 h
    obtain ⟨rfl, rfl⟩ := Prod.mk.inj (Except.ok.inj h₁)
    rw [pure_bind, if_neg (by omega)] at h
    iterate 5 obtain ⟨_, _, h⟩ := ok_of_bind h
    exact (hr ((Prod.mk.inj (pure_eq_ok.1 h).1).1 ▸ by omega)).elim
  rw [if_neg (Int.lt_irrefl 0)] at h
  obtain ⟨r₄, w₁₀, h₁₀, h⟩ := bind_eq_ok.1 h
  rcases ioctl_accel h₁₀ with ⟨rfl, ha₁₀⟩ | ⟨rfl, -, he⟩
  swap
  · rw [if_pos (by decide)] at h
    obtain ⟨_, _, h₁, h⟩ := bind_eq_ok.1 h
    obtain ⟨rfl, rfl⟩ := Prod.mk.inj (Except.ok.inj h₁)
    rw [pure_bind, if_neg (by omega)] at h
    iterate 5 obtain ⟨_, _, h⟩ := ok_of_bind h
    exact (hr ((Prod.mk.inj (pure_eq_ok.1 h).1).1 ▸ by omega)).elim
  rw [if_neg (by decide)] at h
  obtain ⟨r₅, w₁₁, h₁₁, h⟩ := bind_eq_ok.1 h
  rcases ioctl_accel h₁₁ with ⟨rfl, ha₁₁⟩ | ⟨rfl, -, he⟩
  swap
  · rw [if_pos (by decide)] at h
    obtain ⟨_, _, h₁, h⟩ := bind_eq_ok.1 h
    obtain ⟨rfl, rfl⟩ := Prod.mk.inj (Except.ok.inj h₁)
    rw [pure_bind, if_neg (by omega)] at h
    iterate 5 obtain ⟨_, _, h⟩ := ok_of_bind h
    exact (hr ((Prod.mk.inj (pure_eq_ok.1 h).1).1 ▸ by omega)).elim
  rw [if_neg (by decide), pure_bind, if_pos rfl, pure_eq_ok] at h
  obtain ⟨hp, rfl⟩ := h
  obtain ⟨rfl, rfl⟩ := Prod.mk.inj hp
  obtain ⟨rfl, rfl⟩ := Prod.mk.inj (Except.ok.inj h₃)
  refine ⟨rfl, ?_, ?_, fun f hf hm => ?_⟩
  · rw [ha₁₁, ha₁₀, ha₉, keeps_cpuPhysicalMemoryMap mapBlind_accel _ _ h₈,
      keeps_cpuPhysicalMemoryMap mapBlind_accel _ _ h₇, keeps_cpuPhysicalMemoryMap mapBlind_accel _ _ h₆,
      keeps_cpuPhysicalMemoryMap mapBlind_accel _ _ h₅, ha₄, ha₂,
      keeps_ioctl blind_lastAvailIdx _ h₂]
  · rw [keeps_ioctl blind_mapped _ h₁₁, keeps_ioctl blind_mapped _ h₁₀,
      keeps_pushCommand blind_mapped _ h₉, cpuPhysicalMemoryMap_mapped h₈ (not_or.1 hg).1,
      cpuPhysicalMemoryMap_mapped h₇ (not_or.1 hu).1, cpuPhysicalMemoryMap_mapped h₆ (not_or.1 hv).1,
      cpuPhysicalMemoryMap_mapped h₅ (not_or.1 hd).1, keeps_ioctl blind_mapped _ h₄,
      keeps_ioctl blind_mapped _ h₂]
    simp [VhostVirtqueue.areas]
  · rw [keeps_ioctl hf _ h₁₁, keeps_ioctl hf _ h₁₀, keeps_pushCommand hf _ h₉,
      keeps_cpuPhysicalMemoryMap hm _ _ h₈, keeps_cpuPhysicalMemoryMap hm _ _ h₇,
      keeps_cpuPhysicalMemoryMap hm _ _ h₆, keeps_cpuPhysicalMemoryMap hm _ _ h₅,
      keeps_ioctl hf _ h₄, keeps_ioctl hf _ h₂]

/-- `vhost_virtqueue_cleanup`: the available index the accelerator reached goes back to the
guest's virtqueue (`0` when the command fails, before the `assert` fires), and the four areas
are unmapped. -/
def vhostVirtqueueCleanup (vq : VhostVirtqueue) (idx : Nat) : VhostM Unit := do
  let (r, num) ← ioctlGetVringBase idx
  virtioQueueSetLastAvailIdx idx num
  unless 0 ≤ r do throw .virtqueueCleanup
  cpuPhysicalMemoryUnmap vq.ring
  cpuPhysicalMemoryUnmap vq.used
  cpuPhysicalMemoryUnmap vq.avail
  cpuPhysicalMemoryUnmap vq.desc

/-- A `vhost_virtqueue_cleanup` that returns has unmapped the four areas of the ring, from the
last mapped. -/
theorem vhostVirtqueueCleanup_mapped {vq : VhostVirtqueue} {idx : Nat} {w w' : World}
    (h : vhostVirtqueueCleanup vq idx w = .ok ((), w')) :
    w'.mapped = (((w.mapped.erase vq.ring).erase vq.used).erase vq.avail).erase vq.desc := by
  obtain ⟨⟨r, num⟩, w₁, h₁, h⟩ := bind_eq_ok.1 h
  dsimp only at h
  obtain ⟨_, w₂, h₂, h⟩ := bind_eq_ok.1 h
  by_cases hr : 0 ≤ r
  swap
  · rw [if_neg hr] at h
    obtain ⟨_, _, h, -⟩ := bind_eq_ok.1 h
    exact absurd h throw_ne_ok
  rw [if_pos hr, pure_bind] at h
  obtain ⟨_, w₃, h₃, h⟩ := bind_eq_ok.1 h
  obtain ⟨_, w₄, h₄, h⟩ := bind_eq_ok.1 h
  obtain ⟨_, w₅, h₅, h⟩ := bind_eq_ok.1 h
  obtain ⟨-, rfl⟩ := Prod.mk.inj (Except.ok.inj h)
  obtain ⟨-, rfl⟩ := Prod.mk.inj (Except.ok.inj h₅)
  obtain ⟨-, rfl⟩ := Prod.mk.inj (Except.ok.inj h₄)
  obtain ⟨-, rfl⟩ := Prod.mk.inj (Except.ok.inj h₃)
  rw [← keeps_ioctlGetVringBase blind_mapped _ h₁, ← keeps_mapped_virtioQueueSetLastAvailIdx _ _ h₂]

theorem calm_vhostVirtqueueCleanup (vq : VhostVirtqueue) (idx : Nat) :
    Calm env (fun _ => True) (vhostVirtqueueCleanup vq idx) :=
  (calm_ioctlGetVringBase _).bind fun (_, _) _ => (calm_virtioQueueSetLastAvailIdx _ _).bind fun _ _ =>
    Calm.ite (fun _ => Calm.pure_bind <| (calm_cpuPhysicalMemoryUnmap _).bind fun _ _ =>
      (calm_cpuPhysicalMemoryUnmap _).bind fun _ _ => (calm_cpuPhysicalMemoryUnmap _).bind fun _ _ =>
        calm_cpuPhysicalMemoryUnmap _) fun _ => Calm.abort_bind nofun

/-- `vhost_dev_init` on an open control descriptor: the accelerator gets an owner and reports
its features, and the device starts with an empty table, no log, logging off and stopped. The
virtqueues and the acked features are the caller's. -/
def vhostDevInit (hdev : VhostDev) : VhostM (Int × VhostDev) := do
  let r ← ioctl .setOwner
  if r < 0 then return (-((← getErrno) : Int), hdev)
  let (r, _) ← ioctlGetFeatures
  if r < 0 then return (-((← getErrno) : Int), hdev)
  return (0, { hdev with
    mem := [], memSections := [], log := 0, logSize := 0, logEnabled := false, started := false })

/-- A `vhost_dev_init` that succeeds on a new device has made two calls, given the accelerator an
owner, and left the device stopped with an empty table and no log. -/
theorem vhostDevInit_eq {env : Env} {hdev dev : VhostDev} {w : World}
    (h : vhostDevInit hdev (World.init env) = .ok ((0, dev), w)) :
    dev = { hdev with
      mem := [], memSections := [], log := 0, logSize := 0, logEnabled := false, started := false } ∧
      w = { World.init env with calls := 2, accel := Accel.init.apply .setOwner } := by
  unfold vhostDevInit at h
  by_cases h₁ : env.errno 0 = 0 <;> by_cases h₂ : env.errno 1 = 0 <;>
    simp [bind, StateT.bind, Except.bind, ioctl, ioctlGetFeatures, getErrno, World.init, pure,
      StateT.pure, Except.pure, Int.ofNat_eq_zero, h₁, h₂] at h
  obtain ⟨rfl, rfl⟩ := h
  exact ⟨rfl, rfl⟩

/-- The loop of `vhost_dev_start` from the ring `i` on: the rings as `vhost_virtqueue_init`
left them, and the index and error of the first that failed. -/
def startQueues (enableLog : Bool) : List VhostVirtqueue → Nat →
    VhostM (List VhostVirtqueue × Option (Nat × Int))
  | [], _ => return ([], none)
  | vq :: vqs, i => do
    let (r, vq) ← vhostVirtqueueInit enableLog vq i
    if r < 0 then return (vq :: vqs, some (i, r))
    let (vqs, failed) ← startQueues enableLog vqs (i + 1)
    return (vq :: vqs, failed)

/-- The used rings of `vqs`, the rings `i`, `i + 1`, ... of the device, are where the guest has
them. -/
def UsedFrom (env : Env) : Nat → List VhostVirtqueue → Prop
  | _, [] => True
  | i, vq :: vqs => vq.usedRange = (env.queue i).usedRange ∧ UsedFrom env (i + 1) vqs

/-- What the loop of `vhost_dev_start` from the ring `i` leaves in the used rings of `vqs`: as
many virtqueues, the used rings that were the guest's still so, and all of them so when no ring
failed. -/
def StartUsed (env : Env) (i : Nat) (vqs : List VhostVirtqueue)
    (res : List VhostVirtqueue × Option (Nat × Int)) : Prop :=
  res.1.length = vqs.length ∧ (UsedFrom env i vqs → UsedFrom env i res.1) ∧
    (res.2 = none → UsedFrom env i res.1)

theorem calm_startQueues (enableLog : Bool) :
    ∀ (vqs : List VhostVirtqueue) (i : Nat),
      Calm env (StartUsed env i vqs) (startQueues enableLog vqs i)
  | [], _ => Calm.ret ⟨rfl, id, fun _ => trivial⟩
  | vq :: vqs, i => (calm_vhostVirtqueueInit enableLog vq i).bind fun _ ⟨hor, hok⟩ =>
    Calm.ite (fun _ => Calm.ret ⟨rfl, fun h => ⟨hor.elim (·.trans h.1) id, h.2⟩, nofun⟩) fun hr =>
      Calm.pure_bind <| (calm_startQueues enableLog vqs (i + 1)).bind
        fun _ ⟨hlen, hkeep, hnone⟩ => Calm.ret
          ⟨congrArg (· + 1) hlen, fun h => ⟨hok hr, hkeep h.2⟩, fun h => ⟨hok hr, hnone h⟩⟩

/-- What the loop of `vhost_dev_start` from the ring `i` leaves when no ring fails: as many
virtqueues; an accelerator holding, for every ring it bound, the ring's addresses with the log
flag it was given, as the loop left the virtqueues, and the available index the guest had for it;
the features, the table and the rings below `i` as they were. The areas of every ring are mapped,
after the mappings there were, and nothing else changed that the commands and the mappings do
not change. -/
structure StartedRings (e : Bool) (i : Nat) (vqs vqs' : List VhostVirtqueue) (w w' : World) :
    Prop where
  length : vqs'.length = vqs.length
  features : w'.accel.features = w.accel.features
  memTable : w'.accel.memTable = w.accel.memTable
  below : ∀ j < i,
    w'.accel.vringAddr j = w.accel.vringAddr j ∧ w'.accel.vringBase j = w.accel.vringBase j
  vringAddr : ∀ k (hk : k < vqs'.length),
    w'.accel.vringAddr (i + k) = some (vringAddrOf vqs'[k] (i + k) e)
  vringBase : ∀ k < vqs'.length, w'.accel.vringBase (i + k) = w.lastAvailIdx (i + k)
  mapped : w'.mapped = w.mapped ++ ringAreas vqs'
  frame : ∀ {γ : Type} (f : World → γ), Blind f → MapBlind f → f w' = f w

theorem startQueues_none {e : Bool} : ∀ {vqs vqs' : List VhostVirtqueue} {i : Nat} {w w' : World},
    startQueues e vqs i w = .ok ((vqs', none), w') → StartedRings e i vqs vqs' w w'
  | [], _, _, _, _, h => by
    obtain ⟨hp, rfl⟩ := pure_eq_ok.1 h
    obtain ⟨rfl, -⟩ := Prod.mk.inj hp.symm
    exact ⟨rfl, rfl, rfl, fun _ _ => ⟨rfl, rfl⟩, fun _ hk => absurd hk (Nat.not_lt_zero _),
      fun _ hk => absurd hk (Nat.not_lt_zero _), by simp [ringAreas], fun _ _ _ => rfl⟩
  | vq :: vqs, vqs', i, w, w', h => by
    obtain ⟨⟨r, vq₁⟩, w₁, h₁, h⟩ := bind_eq_ok.1 h
    dsimp only at h
    by_cases hr : r < 0
    · rw [if_pos hr, pure_eq_ok] at h
      exact absurd (Prod.mk.inj h.1).2 nofun
    rw [if_neg hr, pure_bind] at h
    obtain ⟨-, ha₁, hp₁, hf₁⟩ := vhostVirtqueueInit_ok h₁ hr
    obtain ⟨⟨vqs₂, failed⟩, w₂, h₂, h⟩ := bind_eq_ok.1 h
    obtain ⟨hp, rfl⟩ := pure_eq_ok.1 h
    obtain ⟨rfl, rfl⟩ := Prod.mk.inj hp
    have hs := startQueues_none h₂
    have hl₁ : w₁.lastAvailIdx = w.lastAvailIdx := hf₁ _ blind_lastAvailIdx mapBlind_lastAvailIdx
    refine ⟨by simp [hs.length], by simp [hs.features, ha₁, Accel.apply],
      by simp [hs.memTable, ha₁, Accel.apply], fun j hj => ?_, fun k hk' => ?_, fun k hk' => ?_,
      by simp [hs.mapped, hp₁, ringAreas], fun f hf hm => (hs.frame f hf hm).trans (hf₁ f hf hm)⟩
    · rw [(hs.below j (by omega)).1, (hs.below j (by omega)).2, ha₁]
      simp [Accel.apply, Function.update_noteq (Nat.ne_of_lt hj)]
    · rcases k with _ | k
      · rw [Nat.add_zero, (hs.below i (by omega)).1, ha₁]
        simp [Accel.apply]
      · simpa [Nat.add_right_comm i 1 k, ← Nat.add_assoc] using hs.vringAddr k (by simpa using hk')
    · rcases k with _ | k
      · rw [Nat.add_zero, (hs.below i (by omega)).2, ha₁]
        simp [Accel.apply]
      · simpa [Nat.add_right_comm i 1 k, ← Nat.add_assoc, hl₁] using
          hs.vringBase k (by simpa using hk')

/-- The unwinding loop `while (--i >= 0)` of `vhost_dev_start`: the rings below `i` are
cleaned up, from the last. -/
def cleanupQueues (hdev : VhostDev) : Nat → VhostM Unit
  | 0 => return
  | i + 1 => do
    vhostVirtqueueCleanup (hdev.vqs.getD i default) i
    cleanupQueues hdev i

theorem calm_cleanupQueues (hdev : VhostDev) : ∀ i, Calm env (fun _ => True) (cleanupQueues hdev i)
  | 0 => Calm.ret trivial
  | i + 1 => (calm_vhostVirtqueueCleanup _ _).bind fun _ _ => calm_cleanupQueues hdev i

/-- `vhost_dev_start`. With logging on, the log is allocated at the size the table and the
rings need, and `VHOST_SET_LOG_BASE` is passed the log's address itself, as the pointer to the
base. -/
def vhostDevStart (hdev : VhostDev) : VhostM (Int × VhostDev) := do
  if !(← getEnv).hasSetGuestNotifiers then return (-(enosys : Int), hdev)
  let r ← setGuestNotifiers true
  if r < 0 then return (r, hdev)
  let r ← vhostDevSetFeatures hdev hdev.logEnabled
  if r < 0 then
    let _ ← setGuestNotifiers false
    return (r, hdev)
  let r ← ioctl (.setMemTable hdev.mem)
  if r < 0 then
    let r := -((← getErrno) : Int)
    let _ ← setGuestNotifiers false
    return (r, hdev)
  let (vqs, failed) ← startQueues hdev.logEnabled hdev.vqs 0
  let hdev := { hdev with vqs := vqs }
  if let some (i, r) := failed then
    cleanupQueues hdev i
    let _ ← setGuestNotifiers false
    return (r, hdev)
  if !hdev.logEnabled then return (0, { hdev with started := true })
  let logSize := vhostGetLogSize G hdev.mem hdev.vqs
  let log ← (if logSize ≠ 0 then gMalloc0 logSize else pure 0 : VhostM Nat)
  let hdev := { hdev with logSize := logSize, log := log }
  let r ← ioctlSetLogBase (.address hdev.log)
  if r < 0 then
    let r := -((← getErrno) : Int)
    cleanupQueues hdev hdev.vqs.length
    let _ ← setGuestNotifiers false
    return (r, hdev)
  return (0, { hdev with started := true })

/-- A `vhost_dev_start` that starts a stopped device went through every step: the guest notifiers
were bound, the features and the table pushed, and every ring bound, with neither a mapping nor
an allocation in between. With logging off, that is all. With logging on, the log was then
allocated at the size the table and the rings need, and its base pushed; this changes nothing
of the accelerator but its log base, and maps nothing. -/
theorem vhostDevStart_inv_started {hdev dev' : VhostDev} {w w' : World} {r : Int}
    (h : vhostDevStart G hdev w = .ok ((r, dev'), w')) (hs : hdev.started = false)
    (hs' : dev'.started = true) :
    ∃ w₁ w₂ vqs log logSize, Quiet w w₁ ∧
      startQueues hdev.logEnabled hdev.vqs 0 w₁ = .ok ((vqs, none), w₂) ∧
      dev' = { hdev with vqs := vqs, log := log, logSize := logSize, started := true } ∧
      w₁.accel = (w.accel.apply (.setFeatures (featuresOf hdev hdev.logEnabled))).apply
        (.setMemTable hdev.mem) ∧ w₁.mapped = w.mapped ∧ w₁.lastAvailIdx = w.lastAvailIdx ∧
      w₁.guestNotifiers = true ∧ { w'.accel with logBase := w₂.accel.logBase } = w₂.accel ∧
      (∀ {γ : Type} (f : World → γ), Blind f → f w' = f w₂) ∧
      (hdev.logEnabled = false ∧ log = hdev.log ∧ w' = w₂ ∨
        hdev.logEnabled = true ∧ logSize = vhostGetLogSize G hdev.mem vqs ∧ ∃ w₃,
          (if logSize ≠ 0 then gMalloc0 logSize else pure 0) w₂ = .ok (log, w₃) ∧ Quiet w₃ w') := by
  -- every early return gives back a device that is still stopped
  have early : ∀ {d : VhostDev} {r₀ : Int} {w₀ : World}, d.started = false →
      (pure (r₀, d) : VhostM (Int × VhostDev)) w₀ ≠ .ok ((r, dev'), w') := fun hd hp =>
    absurd ((Prod.mk.inj (pure_eq_ok.1 hp).1).2 ▸ hs') (by simp [hd])
  unfold vhostDevStart at h
  obtain ⟨_, w₁, h₁, h⟩ := bind_eq_ok.1 h
  obtain ⟨rfl, rfl⟩ := getEnv_eq_ok.1 h₁
  by_cases hn : (!w.env.hasSetGuestNotifiers) = true
  · rw [if_pos hn] at h
    exact absurd h (early hs)
  rw [if_neg hn, pure_bind] at h
  obtain ⟨r₁, w₂, h₂, h⟩ := bind_eq_ok.1 h
  by_cases hr₁ : r₁ < 0
  · rw [if_pos hr₁] at h
    exact absurd h (early hs)
  rw [if_neg hr₁] at h
  simp only [pure_bind] at h
  obtain ⟨r₂, w₃, h₃, h⟩ := bind_eq_ok.1 h
  rcases pushCommand_accel h₃ with ⟨rfl, ha₃⟩ | ⟨hr₂, -, -⟩
  swap
  · rw [if_pos hr₂] at h
    obtain ⟨_, _, h⟩ := ok_of_bind h
    exact absurd h (early hs)
  rw [if_neg (Int.lt_irrefl 0)] at h
  obtain ⟨r₃, w₄, h₄, h⟩ := bind_eq_ok.1 h
  rcases ioctl_accel h₄ with ⟨rfl, ha₄⟩ | ⟨rfl, -, -⟩
  swap
  · rw [if_pos (by decide)] at h
    iterate 2 obtain ⟨_, _, h⟩ := ok_of_bind h
    exact absurd h (early hs)
  rw [if_neg (Int.lt_irrefl 0)] at h
  obtain ⟨⟨vqs, failed⟩, w₅, h₅, h⟩ := bind_eq_ok.1 h
  rcases failed with _ | ⟨i, r₄⟩
  swap
  · iterate 2 obtain ⟨_, _, h⟩ := ok_of_bind h
    exact absurd h (early hs)
  have ha₄' := ha₄.trans (by rw [ha₃, setGuestNotifiers_accel h₂])
  have hm₄ : w₄.mapped = w.mapped := by
    rw [keeps_ioctl blind_mapped _ h₄, keeps_pushCommand blind_mapped _ h₃,
      keeps_mapped_setGuestNotifiers _ h₂]
  have hl₄ : w₄.lastAvailIdx = w.lastAvailIdx := (keeps_ioctl blind_lastAvailIdx _ h₄).trans
    ((keeps_pushCommand blind_lastAvailIdx _ h₃).trans (by rw [(setGuestNotifiers_frame h₂).1]))
  have hg₄ : w₄.guestNotifiers = true := (keeps_ioctl blind_guestNotifiers _ h₄).trans
    ((keeps_pushCommand blind_guestNotifiers _ h₃).trans ((setGuestNotifiers_frame h₂).2 hr₁))
  have hq₄ : Quiet w w₄ := ((calm_setGuestNotifiers _).quiet h₂).trans
    (((calm_pushCommand _).quiet h₃).trans ((calm_ioctl _).quiet h₄))
  dsimp only at h
  by_cases hle : (!hdev.logEnabled) = true
  · rw [if_pos hle] at h
    obtain ⟨hp, rfl⟩ := pure_eq_ok.1 h
    obtain ⟨-, rfl⟩ := Prod.mk.inj hp
    exact ⟨w₄, _, vqs, _, _, hq₄, h₅, rfl, ha₄', hm₄, hl₄, hg₄, rfl, fun _ _ => rfl,
      .inl ⟨by simpa using hle, rfl, rfl⟩⟩
  -- logging on: the log and its base
  rw [if_neg hle] at h
  obtain ⟨log, w₆, h₆, h⟩ := bind_eq_ok.1 h
  have ha₆ : w₆.accel = w₅.accel := by
    split_ifs at h₆ <;> rw [← (Prod.mk.inj (Except.ok.inj h₆)).2]
  obtain ⟨r₅, w₇, h₇, h⟩ := bind_eq_ok.1 h
  obtain ⟨base, ha₇⟩ := ioctlSetLogBase_accel h₇
  by_cases hr₅ : r₅ < 0
  · rw [if_pos hr₅] at h
    iterate 3 obtain ⟨_, _, h⟩ := ok_of_bind h
    exact absurd h (early hs)
  rw [if_neg hr₅] at h
  obtain ⟨hp, rfl⟩ := pure_eq_ok.1 h
  obtain ⟨-, rfl⟩ := Prod.mk.inj hp
  exact ⟨w₄, w₅, vqs, _, _, hq₄, h₅, rfl, ha₄', hm₄, hl₄, hg₄, by rw [ha₇, ha₆],
    fun _ hf => (keeps_ioctlSetLogBase hf _ h₇).trans (Keeps.ite (keeps_gMalloc0 hf _) Keeps.ret h₆),
    .inr ⟨by simpa using hle, rfl, w₆, h₆, (calm_ioctlSetLogBase _).quiet h₇⟩⟩

/-- A `vhost_dev_start` that starts a stopped device has mapped the areas of every ring, as the
rings now are, and nothing else. -/
theorem vhostDevStart_mapped {hdev dev' : VhostDev} {w w' : World} {r : Int}
    (h : vhostDevStart G hdev w = .ok ((r, dev'), w')) (hs : hdev.started = false)
    (hs' : dev'.started = true) : w'.mapped = w.mapped ++ ringAreas dev'.vqs := by
  obtain ⟨w₁, w₂, vqs, _, _, -, hq, rfl, -, hm₁, -, -, -, hf, -⟩ :=
    vhostDevStart_inv_started G h hs hs'
  rw [hf _ blind_mapped, (startQueues_none hq).mapped, hm₁]

/-- `vhost_dev_stop`: the accelerator's available indices go back to the guest, every tracked
section is harvested over the whole address space, the guest notifiers are unbound (asserted),
and the log is freed. -/
def vhostDevStop (hdev : VhostDev) : VhostM VhostDev := do
  hdev.vqs.enum.forM fun (i, vq) => vhostVirtqueueCleanup vq i
  hdev.memSections.forM fun sec => vhostSyncDirtyBitmap G hdev sec 0 (2 ^ 64 - 1)
  let r ← setGuestNotifiers false
  unless 0 ≤ r do throw .devStop
  gFree hdev.log
  return { hdev with started := false, log := 0, logSize := 0 }

/-- A `vhost_dev_stop` that returns leaves the device stopped. -/
theorem vhostDevStop_started {hdev dev' : VhostDev} {w w' : World}
    (h : vhostDevStop G hdev w = .ok (dev', w')) : dev'.started = false := by
  unfold vhostDevStop at h
  iterate 3 obtain ⟨_, _, h⟩ := ok_of_bind h
  dsimp only at h
  split_ifs at h
  · rw [pure_bind] at h
    obtain ⟨_, _, h⟩ := ok_of_bind h
    rw [← (pure_eq_ok.1 h).1]
  · obtain ⟨_, _, h, -⟩ := bind_eq_ok.1 h
    exact absurd h throw_ne_ok

end Vhost
