import Vhost.Run

/-!
# The log covers what the accelerator may write

While the device is started with logging on, the accelerator logs its writes to the guest in
`dev->log`, and the harvests read that buffer back. `vhost_set_memory` keeps it large enough for
the table, growing it before it pushes a larger table and shrinking it after it pushes a smaller
one; `vhost_migration_log` and `vhost_dev_start` allocate it at the size the table and the rings
need. So in every state a run reaches, a started device with logging on has a log of `log_size`
words with `need ≤ log_size ≤ need + VHOST_LOG_BUFFER`, where `need` is `vhost_get_log_size`;
and no harvest of a run stops at the `assert`s of `vhost_dev_sync_region` nor reads outside its
buffer, the harvest of the old log in `vhost_dev_log_resize` and the one in `vhost_dev_stop`
included. This needs one virtqueue at least: without one, a table of no region needs no log.

## Main definitions

* `LogCovers`, `LogSized` — the log is a buffer of `log_size` words, at least (and at most
  `VHOST_LOG_BUFFER` more than) what the table and the rings need
* `LogInv` — the invariant that holds along runs
* `SameShape` — a change of the world that every harvest and every calm call makes

## Main results

* `vhostStep_triple` — every event keeps `LogInv` and stops at no harvest `assert`
* `vhostRun_logSized` — the same for whole runs from `vhost_dev_init`
-/

set_option autoImplicit false

namespace Vhost

variable (G : LogGeometry)

/-- The log is a buffer of `log_size` words, at least what the table and the rings need. -/
structure LogCovers (dev : VhostDev) (w : World) : Prop where
  buffer : ∃ ws, w.heap dev.log = some ws ∧ ws.length = dev.logSize
  need_le : vhostGetLogSize G dev.mem dev.vqs ≤ dev.logSize

/-- The log covers the table and the rings, with at most `VHOST_LOG_BUFFER` words to spare. -/
structure LogSized (dev : VhostDev) (w : World) extends LogCovers G dev w : Prop where
  le_need_add : dev.logSize ≤ vhostGetLogSize G dev.mem dev.vqs + G.buffer

/-- What holds in every state a run reaches from a device with a virtqueue: the log was handed
out by the allocator, a started device has its used rings where the guest has them, and a started
device with logging on has a log sized for its table and rings. -/
structure LogInv (dev : VhostDev) (w : World) : Prop where
  vqs_ne : dev.vqs ≠ []
  log_lt : dev.log < w.brk
  used : dev.started = true → UsedFrom w.env 0 dev.vqs
  sized : dev.started = true → dev.logEnabled = true → LogSized G dev w

/-- `w'` has the environment and the allocator of `w`, and buffers of the same lengths. -/
structure SameShape (w w' : World) : Prop where
  env : w'.env = w.env
  brk : w'.brk = w.brk
  length : ∀ p, (w'.heap p).map List.length = (w.heap p).map List.length

theorem Quiet.sameShape {w w' : World} (h : Quiet w w') : SameShape w w' :=
  ⟨h.env, h.brk, fun p => by rw [h.heap]⟩

theorem Harvests.sameShape {log : Nat} {R : DirtyReport → Prop} {w w' : World}
    (h : Harvests log R w w') : SameShape w w' := by
  refine ⟨h.env, h.brk, fun p => ?_⟩
  by_cases hp : p = log
  · exact hp ▸ h.length
  · rw [h.heap_ne p hp]

section Shape

variable {G} {dev : VhostDev} {w w' : World}

theorem LogCovers.of_sameShape (h : LogCovers G dev w) (hs : SameShape w w') : LogCovers G dev w' := by
  obtain ⟨⟨ws, hws, hlen⟩, hneed⟩ := h
  have hl := hs.length dev.log
  rw [hws] at hl
  cases hw' : w'.heap dev.log with
  | none => simp [hw'] at hl
  | some ws' =>
    simp only [hw', Option.map_some', Option.some.injEq] at hl
    exact ⟨⟨ws', hw', hl.trans hlen⟩, hneed⟩

theorem LogInv.of_sameShape (h : LogInv G dev w) (hs : SameShape w w') : LogInv G dev w' where
  vqs_ne := h.vqs_ne
  log_lt := hs.brk ▸ h.log_lt
  used hst := hs.env ▸ h.used hst
  sized hst hl := ⟨(h.sized hst hl).toLogCovers.of_sameShape hs, (h.sized hst hl).le_need_add⟩

/-- The invariant does not read the tracked sections. -/
theorem LogInv.with_memSections (h : LogInv G dev w) (secs : List MemoryRegionSection) :
    LogInv G { dev with memSections := secs } w :=
  ⟨h.vqs_ne, h.log_lt, h.used, fun hs hl =>
    have hsz := h.sized hs hl
    ⟨⟨hsz.buffer, hsz.need_le⟩, hsz.le_need_add⟩⟩

theorem LogCovers.logFits (h : LogCovers G dev w) : LogFits dev w :=
  have ⟨ws, hws, hlen⟩ := h.buffer
  ⟨ws, hws, hlen.ge⟩

/-- A device with a virtqueue needs a log word, so a covering log is not empty. -/
theorem LogCovers.logSize_pos (h : LogCovers G dev w) (hne : dev.vqs ≠ []) : 0 < dev.logSize :=
  Nat.lt_of_lt_of_le (vhostGetLogSize_pos hne) h.need_le

/-- A fresh buffer of exactly the words the table and the rings need. -/
theorem logSized_of_fresh (hw : w.heap dev.log = some (List.replicate dev.logSize 0))
    (hsize : dev.logSize = vhostGetLogSize G dev.mem dev.vqs) : LogSized G dev w :=
  ⟨⟨⟨_, hw, List.length_replicate _ _⟩, hsize.ge⟩, hsize ▸ Nat.le_add_right _ _⟩

end Shape

/-! ### The log size depends on the used rings only -/

private theorem foldl_usedRange_congr (F : Nat → Nat × Nat → Nat) :
    ∀ (vqs vqs' : List VhostVirtqueue) (init : Nat),
      vqs.map VhostVirtqueue.usedRange = vqs'.map VhostVirtqueue.usedRange →
      vqs.foldl (fun acc vq => F acc vq.usedRange) init =
        vqs'.foldl (fun acc vq => F acc vq.usedRange) init
  | [], [], _, _ => rfl
  | vq :: vqs, vq' :: vqs', init, h => by
    simp only [List.map_cons, List.cons.injEq] at h
    simp only [List.foldl_cons, h.1]
    exact foldl_usedRange_congr F vqs vqs' _ h.2

theorem vhostGetLogSize_congr_used {mem : List VhostMemoryRegion} {vqs vqs' : List VhostVirtqueue}
    (h : vqs.map VhostVirtqueue.usedRange = vqs'.map VhostVirtqueue.usedRange) :
    vhostGetLogSize G mem vqs = vhostGetLogSize G mem vqs' :=
  foldl_usedRange_congr (fun acc u => max acc (sub64 (add64 u.1 u.2) 1 / G.chunk + 1)) vqs vqs' _ h

/-- Two lists of rings `i`, `i + 1`, ... that both have the guest's used rings have the same
used rings. -/
theorem UsedFrom.map_usedRange {env : Env} :
    ∀ {i : Nat} {vqs vqs' : List VhostVirtqueue}, UsedFrom env i vqs → UsedFrom env i vqs' →
      vqs.length = vqs'.length →
      vqs.map VhostVirtqueue.usedRange = vqs'.map VhostVirtqueue.usedRange
  | _, [], [], _, _, _ => rfl
  | _, _ :: _, _ :: _, ⟨h, hs⟩, ⟨h', hs'⟩, hl => by
    rw [List.map_cons, List.map_cons, h, h', map_usedRange hs hs' (Nat.succ.inj hl)]

/-- Rings whose used rings are the guest's, as the device's are when it is started, need the same
log. -/
theorem LogInv.with_vqs {G : LogGeometry} {dev : VhostDev} {w : World} (h : LogInv G dev w)
    {vqs : List VhostVirtqueue} (hne : vqs ≠ [])
    (hlen : vqs.length = dev.vqs.length) (hused : dev.started = true → UsedFrom w.env 0 vqs) :
    LogInv G { dev with vqs := vqs } w := by
  refine ⟨hne, h.log_lt, hused, fun hs hl => ?_⟩
  have hsz := h.sized hs hl
  have hneed : vhostGetLogSize G dev.mem vqs = vhostGetLogSize G dev.mem dev.vqs :=
    vhostGetLogSize_congr_used G (UsedFrom.map_usedRange (hused hs) (h.used hs) hlen)
  exact ⟨⟨hsz.buffer, hneed ▸ hsz.need_le⟩, hneed ▸ hsz.le_need_add⟩

/-! ### The events -/

section Steps

variable {G} {dev : VhostDev}

theorem LogInv.quiet : ∀ w w', LogInv G dev w → Quiet w w' → LogInv G dev w' :=
  fun _ _ h hq => h.of_sameShape hq.sameShape

/-- `vhost_set_memory` keeps the invariant, growing the log before the push and shrinking it
after, and every harvest of the old log it makes stays inside that log. -/
theorem vhostSetMemory_triple (sec : MemoryRegionSection) (add : Bool) :
    Triple (LogInv G dev) (vhostSetMemory G dev sec add) (fun dev' => LogInv G dev') := by
  refine Triple.assume (fun _ h => h.vqs_ne) fun hvne => ?_
  unfold vhostSetMemory
  dsimp only
  refine Triple.ite (fun _ => Triple.abort_bind (by decide)) fun _ => Triple.pure_bind ?_
  split
  · rename_i changed mem hsec
    refine Triple.ite (fun hret => ?_) fun hgo => ?_
    · refine Triple.ret fun w h => ?_
      rcases Bool.or_eq_true_iff.mp hret with hc | hs
      · obtain rfl : changed = false := by simpa using hc
        obtain rfl : mem = dev.mem := vhostSetMemoryRegions_unchanged hsec
        exact h
      · exact ⟨h.vqs_ne, h.log_lt, fun h' => by simp_all, fun h' => by simp_all⟩
    obtain ⟨hc, hs⟩ : changed = true ∧ dev.started = true := by simpa using hgo
    refine Triple.pure_bind ?_
    refine (Calm.keeps (fun _ => calm_vhostVerifyRingMappings _ _ _) LogInv.quiet).bind
      fun _ => Triple.ite (fun _ => Triple.pure_bind ?_) fun _ => Triple.abort_bind (by decide)
    refine Triple.ite (fun hl => ?_) fun hl => ?_
    · -- logging off: the table is pushed as it is
      refine (Calm.keeps (fun _ => calm_ioctl _) LogInv.quiet).bind fun _ => Triple.ite
        (fun _ => Triple.pure_bind (Triple.ret fun w h => ⟨h.vqs_ne, h.log_lt, fun _ => h.used hs,
          fun _ hl' => by simp_all⟩)) fun _ => Triple.abort_bind (by decide)
    -- logging on: between the two resizes the log covers the new table
    replace hl : dev.logEnabled = true := by simpa using hl
    have hne : 0 < vhostGetLogSize G mem dev.vqs := vhostGetLogSize_pos hvne
    let M : VhostDev → World → Prop := fun dev₂ w => dev₂.mem = mem ∧ dev₂.vqs = dev.vqs ∧
      dev₂.started = true ∧ dev₂.logEnabled = true ∧ dev₂.log < w.brk ∧
      UsedFrom w.env 0 dev.vqs ∧ LogCovers G dev₂ w
    have hM : ∀ dev₂ w w', M dev₂ w → Quiet w w' → M dev₂ w' :=
      fun _ _ _ ⟨h₁, h₂, h₃, h₄, h₅, h₆, h₇⟩ hq =>
        ⟨h₁, h₂, h₃, h₄, hq.brk ▸ h₅, hq.env ▸ h₆, h₇.of_sameShape hq.sameShape⟩
    refine Triple.pure_bind (Triple.bind (Q := M) ?_ fun dev₂ => ?_)
    · refine Triple.ite (fun _ => ?_) fun hgrow => ?_
      · refine Triple.ghost fun w₁ h₁ =>
          (vhostDevLogResize_triple G (Nat.add_pos_left hne _) ?_ ?_).conseq (fun _ h => h) ?_
        · exact h₁.log_lt
        · have hc := (h₁.sized hs hl).toLogCovers
          exact fun _ _ => ⟨hc.logFits, hc.logSize_pos hvne⟩
        rintro _ w ⟨rfl, hheap, hbrk, henv⟩
        exact ⟨rfl, rfl, hs, hl, hbrk, henv ▸ h₁.used hs,
          ⟨_, hheap, List.length_replicate _ _⟩, Nat.le_add_right _ _⟩
      · exact Triple.ret fun w h => ⟨rfl, rfl, hs, hl, h.log_lt, h.used hs,
          (h.sized hs hl).buffer, Nat.not_lt.mp hgrow⟩
    refine (Calm.keeps (fun _ => calm_ioctl _) (hM dev₂)).bind fun _ =>
      Triple.ite (fun _ => Triple.pure_bind ?_) fun _ => Triple.abort_bind (by decide)
    refine Triple.ite (fun _ => ?_) fun hshrink => ?_
    · refine Triple.ghost fun w₁ h₁ => ?_
      obtain ⟨hmem, hvqs, -, -, hlt, hused, hc⟩ := h₁
      refine (vhostDevLogResize_triple G hne hlt ?_).conseq (fun _ h => h) ?_
      · exact fun _ _ => ⟨hc.logFits, hc.logSize_pos (hvqs ▸ hvne)⟩
      rintro _ w ⟨rfl, hheap, hbrk, henv⟩
      refine ⟨hvqs ▸ hvne, hbrk, fun _ => by simpa [hvqs, henv] using hused, fun _ _ => ?_⟩
      exact logSized_of_fresh hheap (by simp [hmem, hvqs])
    · exact Triple.ret fun w ⟨hmem, hvqs, _, _, hlt, hused, hc⟩ =>
        ⟨hvqs ▸ hvne, hlt, fun _ => hvqs ▸ hused, fun _ _ =>
          ⟨hc, by rw [hmem, hvqs]; exact Nat.not_lt.mp hshrink⟩⟩
  · exact Triple.abort (by decide)

theorem vhostRegionAdd_triple (sec : MemoryRegionSection) :
    Triple (LogInv G dev) (vhostRegionAdd G dev sec) (fun dev' => LogInv G dev') := by
  unfold vhostRegionAdd
  dsimp only
  exact Triple.ite (fun _ => Triple.ret fun _ h => h) fun _ => Triple.pure_bind
    ((vhostSetMemory_triple sec true).conseq (fun _ h => h.with_memSections _) fun _ _ h => h)

theorem vhostRegionDel_triple (sec : MemoryRegionSection) :
    Triple (LogInv G dev) (vhostRegionDel G dev sec) (fun dev' => LogInv G dev') := by
  unfold vhostRegionDel
  dsimp only
  exact Triple.ite (fun _ => Triple.ret fun _ h => h) fun _ => Triple.pure_bind
    ((vhostSetMemory_triple sec false).bind fun _ => Triple.ret fun _ h => h.with_memSections _)

/-- `vhost_log_sync` harvests inside the log. -/
theorem vhostLogSync_triple (sec : MemoryRegionSection) :
    Triple (LogInv G dev) (vhostLogSync G dev sec) (fun _ => LogInv G dev) :=
  Triple.of_harvests (fun _ h => vhostLogSync_harvests fun hl hs =>
      have hsz := h.sized hs hl
      ⟨hsz.toLogCovers.logFits, hsz.need_le⟩)
    fun _ _ h hh => h.of_sameShape hh.sameShape

/-- `vhost_migration_log` keeps the invariant: turning logging on allocates the log at the size
the table and the rings need, before the rings are told to log. -/
theorem vhostMigrationLog_triple (enable : Bool) :
    Triple (LogInv G dev) (vhostMigrationLog G dev enable) (fun r => LogInv G r.2) := by
  refine Triple.assume (fun _ h => h.vqs_ne) fun hvne => ?_
  unfold vhostMigrationLog
  dsimp only
  refine Triple.ite (fun _ => Triple.ret fun _ h => h) fun hen => ?_
  refine Triple.ite (fun _ => Triple.ret fun _ h => ⟨h.vqs_ne, h.log_lt, fun hs => by simp_all,
    fun hs => by simp_all⟩) fun hst => ?_
  replace hst : dev.started = true := by simpa using hst
  refine Triple.ite (fun hoff => ?_) fun hon => ?_
  · -- off: the rings stop logging, then the log is freed
    refine (Calm.keeps (fun _ => calm_vhostDevSetLog _ _) LogInv.quiet).bind fun r =>
      Triple.ite (fun _ => Triple.ret fun _ h => h) fun _ => ?_
    refine Triple.pure_bind (Triple.ghost fun w₁ h₁ => ?_)
    have hfin : ∀ w, w.env = w₁.env → w.brk = w₁.brk →
        LogInv G { dev with log := 0, logSize := 0, logEnabled := enable } w := fun w he hb =>
      ⟨hvne, hb ▸ Nat.lt_of_le_of_lt (Nat.zero_le _) h₁.log_lt, fun _ => he ▸ h₁.used hst,
        fun _ hl => by simp_all⟩
    exact Triple.ite (fun _ => (triple_gFree _ w₁).bind fun _ => Triple.ret fun w h => hfin w h.1 h.2.1)
      fun _ => Triple.pure_bind (Triple.ret fun w h => hfin w (h ▸ rfl) (h ▸ rfl))
  · -- on: a log of the words the table and the rings need, then the rings start logging
    have hl : dev.logEnabled = false := by cases enable <;> simp_all
    refine Triple.ghost fun w₁ h₁ => ?_
    refine Triple.bind (vhostDevLogResize_triple G (vhostGetLogSize_pos hvne) ?_ ?_) fun dev₂ => ?_
    · exact h₁.log_lt
    · exact fun h => absurd h (by simp [hl])
    refine Triple.assume (fun _ h => h.1) fun hdev₂ => ?_
    subst hdev₂
    let P : World → Prop := fun w => w.heap w₁.brk =
        some (List.replicate (vhostGetLogSize G dev.mem dev.vqs) 0) ∧ w₁.brk < w.brk ∧
      UsedFrom w.env 0 dev.vqs
    refine Triple.conseq (P := P) ?_ (fun w h => ⟨h.2.1, h.2.2.1, h.2.2.2 ▸ h₁.used hst⟩)
      fun _ _ h => h
    refine (Calm.keeps (fun _ => calm_vhostDevSetLog _ _) fun w w' h hq =>
      ⟨hq.heap ▸ h.1, hq.brk ▸ h.2.1, hq.env ▸ h.2.2⟩).bind fun r => Triple.ite
      (fun _ => Triple.ret fun w h => ⟨hvne, h.2.1, fun _ => h.2.2, fun _ h' => by simp_all⟩)
      fun _ => Triple.ret fun w h => ⟨hvne, h.2.1, fun _ => h.2.2,
        fun _ _ => logSized_of_fresh h.1 rfl⟩

/-- `vhost_dev_start` keeps the invariant: a start that fails leaves the log as it was, or, when
`VHOST_SET_LOG_BASE` fails, a fresh log of the words the table and the rings need; a start that
succeeds with logging on allocates that log. -/
theorem vhostDevStart_triple :
    Triple (LogInv G dev) (vhostDevStart G dev) (fun r => LogInv G r.2) := by
  refine Triple.assume (fun _ h => h.vqs_ne) fun hvne => Triple.ghost fun w₀ h₀ => ?_
  -- the environment is fixed from here on
  let P : World → Prop := fun w => LogInv G dev w ∧ w.env = w₀.env
  have hP : ∀ w w', P w → Quiet w w' → P w' := fun _ _ h hq =>
    ⟨h.1.of_sameShape hq.sameShape, hq.env.trans h.2⟩
  refine Triple.conseq (P := P) ?_ (fun _ hw => hw ▸ ⟨h₀, rfl⟩) fun _ _ h => h
  unfold vhostDevStart
  dsimp only
  -- the steps before the rings: each returns the device as it was
  refine (Calm.keeps (fun _ => calm_getEnv.mono fun _ _ => trivial) hP).bind fun _ =>
    Triple.ite (fun _ => Triple.ret fun _ h => h.1) fun _ => Triple.pure_bind ?_
  refine (Calm.keeps (fun _ => calm_setGuestNotifiers _) hP).bind fun _ =>
    Triple.ite (fun _ => Triple.ret fun _ h => h.1) fun _ => Triple.pure_bind ?_
  refine (Calm.keeps (fun _ => calm_pushCommand _) hP).bind fun _ => Triple.ite
    (fun _ => (Calm.keeps (fun _ => calm_setGuestNotifiers _) hP).bind fun _ =>
      Triple.ret fun _ h => h.1) fun _ => Triple.pure_bind ?_
  refine (Calm.keeps (fun _ => calm_ioctl _) hP).bind fun _ => Triple.ite
    (fun _ => (Calm.keeps (fun _ => calm_getErrno) hP).bind fun _ =>
      (Calm.keeps (fun _ => calm_setGuestNotifiers _) hP).bind fun _ => Triple.ret fun _ h => h.1)
    fun _ => ?_
  refine Triple.pure_bind (((calm_startQueues dev.logEnabled dev.vqs 0).triple P hP
    fun _ h => h.2).bind fun ⟨vqs, failed⟩ => ?_)
  refine Triple.intro_pure fun ⟨hlen, hkeep, hnone⟩ => ?_
  have hvne' : vqs ≠ [] := fun h => hvne (List.length_eq_zero.mp (hlen ▸ h ▸ rfl))
  dsimp only
  split
  · -- a ring failed: the rings before it are cleaned up
    refine (Calm.keeps (fun _ => calm_cleanupQueues _ _) hP).bind fun _ =>
      (Calm.keeps (fun _ => calm_setGuestNotifiers _) hP).bind fun _ => Triple.ret fun _ h => ?_
    exact h.1.with_vqs hvne' hlen fun hs => h.2 ▸ hkeep (h₀.used hs)
  -- every ring started: their used rings are the guest's
  rename_i hsome
  have hused : UsedFrom w₀.env 0 vqs :=
    hnone (Option.eq_none_iff_forall_not_mem.mpr fun ⟨i, r⟩ h => hsome i r h)
  refine Triple.pure_bind (Triple.ite (fun _ => Triple.ret fun _ h => ⟨hvne', h.1.log_lt,
    fun _ => h.2 ▸ hused, fun _ hl => by simp_all⟩) fun hl => ?_)
  replace hl : dev.logEnabled = true := by simpa using hl
  have hne : 0 < vhostGetLogSize G dev.mem vqs := vhostGetLogSize_pos hvne'
  refine Triple.pure_bind ?_
  rw [if_pos (Nat.pos_iff_ne_zero.mp hne)]
  refine Triple.ghost fun w₁ h₁ => (triple_gMalloc0 _ w₁).bind fun log => ?_
  -- the fresh log, whatever the accelerator is told
  let P' : World → Prop := fun w => w.heap w₁.brk =
      some (List.replicate (vhostGetLogSize G dev.mem vqs) 0) ∧ w₁.brk < w.brk ∧ w.env = w₀.env
  have hP' : ∀ w w', P' w → Quiet w w' → P' w' := fun _ _ h hq =>
    ⟨hq.heap ▸ h.1, hq.brk ▸ h.2.1, hq.env.trans h.2.2⟩
  refine Triple.conseq (P := fun w => P' w ∧ log = w₁.brk) ?_
    (fun w ⟨hlog, hw⟩ => ⟨by subst hw; exact ⟨Function.update_same _ _ _, by simp only; omega,
      h₁.2⟩, hlog⟩) fun _ _ h => h
  refine Triple.intro_pure fun hlog => ?_
  subst hlog
  have hfin : ∀ w, P' w → ∀ started : Bool, LogInv G
      { dev with
        vqs := vqs
        log := w₁.brk
        logSize := vhostGetLogSize G dev.mem vqs
        started := started } w := fun w h _ =>
    ⟨hvne', h.2.1, fun _ => h.2.2 ▸ hused, fun _ _ => logSized_of_fresh h.1 rfl⟩
  refine (Calm.keeps (fun _ => calm_ioctlSetLogBase _) hP').bind fun _ => Triple.ite
    (fun _ => (Calm.keeps (fun _ => calm_getErrno) hP').bind fun _ =>
      (Calm.keeps (fun _ => calm_cleanupQueues _ _) hP').bind fun _ =>
      (Calm.keeps (fun _ => calm_setGuestNotifiers _) hP').bind fun _ =>
      Triple.ret fun w h => hfin w h _)
    fun _ => Triple.pure_bind (Triple.ret fun w h => hfin w h _)

/-- `vhost_dev_stop` harvests inside the log, whose words cover every region and used ring, over
the whole address space, then frees it. -/
theorem vhostDevStop_triple :
    Triple (LogInv G dev) (vhostDevStop G dev) (fun dev' => LogInv G dev') := by
  unfold vhostDevStop
  dsimp only
  refine (Calm.keeps (fun _ => Calm.forM fun ⟨i, vq⟩ _ => calm_vhostVirtqueueCleanup vq i)
    LogInv.quiet).bind fun _ => ?_
  have hloop : Triple (LogInv G dev) (dev.memSections.forM fun sec =>
      vhostSyncDirtyBitmap G dev sec 0 (2 ^ 64 - 1)) (fun _ => LogInv G dev) :=
    Triple.forM fun _ _ => Triple.of_harvests (fun _ h => vhostSyncDirtyBitmap_harvests_of_le
      fun hl hs => ⟨(h.sized hs hl).toLogCovers.logFits, (h.sized hs hl).need_le⟩)
      fun _ _ h hh => h.of_sameShape hh.sameShape
  refine hloop.bind fun _ => (Calm.keeps (fun _ => calm_setGuestNotifiers _) LogInv.quiet).bind
    fun _ => Triple.ite (fun _ => ?_) fun _ => Triple.abort_bind (by decide)
  exact Triple.pure_bind (Triple.ghost fun w₁ h₁ => (triple_gFree _ w₁).bind fun _ =>
    Triple.ret fun _ h => ⟨h₁.vqs_ne, h.2.1 ▸ Nat.lt_of_le_of_lt (Nat.zero_le _) h₁.log_lt,
      nofun, nofun⟩)

/-- The accelerator's write to the log changes a word of the buffer at its log base, if any. -/
theorem accelLogDirty_sameShape (addr : Nat) (w : World) :
    ∃ w', accelLogDirty G addr w = .ok ((), w') ∧ SameShape w w' := by
  unfold accelLogDirty
  dsimp only
  split
  · split
    · refine ⟨_, rfl, rfl, rfl, fun p => ?_⟩
      by_cases hp : p = w.accel.logBase
      · subst hp
        simp [*]
      · simp only [Function.update_noteq hp]
    · exact ⟨w, rfl, rfl, rfl, fun _ => rfl⟩
  · exact ⟨w, rfl, rfl, rfl, fun _ => rfl⟩

theorem vhostLogGlobal_triple (enable : Bool) :
    Triple (LogInv G dev) (if enable then vhostLogGlobalStart G dev else vhostLogGlobalStop G dev)
      (fun dev' => LogInv G dev') := by
  cases enable <;> dsimp only [vhostLogGlobalStart, vhostLogGlobalStop] <;>
  · refine (vhostMigrationLog_triple _).bind fun ⟨r, d⟩ => ?_
    exact Triple.ite (fun _ => Triple.abort_bind (by decide))
      fun _ => Triple.pure_bind (Triple.ret fun _ h => h)

/-- Every event keeps the invariant and stops at no `assert` of the harvest. -/
theorem vhostStep_triple (e : VhostEvent) :
    Triple (LogInv G dev) (vhostStep G dev e) (fun dev' => LogInv G dev') := by
  cases e with
  | regionAdd sec => exact vhostRegionAdd_triple sec
  | regionDel sec => exact vhostRegionDel_triple sec
  | logSync sec => exact (vhostLogSync_triple sec).bind fun _ => Triple.ret fun _ h => h
  | logGlobalStart => exact vhostLogGlobal_triple true
  | logGlobalStop => exact vhostLogGlobal_triple false
  | devStart => exact vhostDevStart_triple.bind fun _ => Triple.ret fun _ h => h
  | devStop => exact vhostDevStop_triple
  | accelDirty addr =>
    refine Triple.bind (Triple.of_ok fun w h => ?_) fun _ => Triple.ret fun _ h => h
    obtain ⟨w', hx, hs⟩ := accelLogDirty_sameShape addr w
    exact ⟨(), w', hx, h.of_sameShape hs⟩

end Steps

/-- A run of events keeps the invariant and stops at no `assert` of the harvest. -/
theorem vhostRun_triple : ∀ (es : List VhostEvent) (dev : VhostDev),
    Triple (LogInv G dev) (vhostRun G dev es) (fun dev' => LogInv G dev')
  | [], _ => Triple.ret fun _ h => h
  | e :: es, _ => (vhostStep_triple e).bind fun dev' => vhostRun_triple es dev'

/-- `vhost_dev_init` that succeeds leaves a device with its virtqueues, no log, stopped. -/
theorem vhostDevInit_logInv {env : Env} {hdev dev : VhostDev} {w : World} (hq : hdev.vqs ≠ [])
    (h : vhostDevInit hdev (World.init env) = .ok ((0, dev), w)) : LogInv G dev w := by
  unfold vhostDevInit at h
  by_cases h₁ : env.errno 0 = 0 <;> by_cases h₂ : env.errno 1 = 0 <;>
    simp [bind, StateT.bind, Except.bind, ioctl, ioctlGetFeatures, getErrno, World.init, pure,
      StateT.pure, Except.pure, Int.ofNat_eq_zero, h₁, h₂] at h
  · obtain ⟨rfl, rfl⟩ := h
    exact ⟨hq, Nat.one_pos, nofun, nofun⟩

/-- From `vhost_dev_init` on a device with a virtqueue, a run of events never stops at an `assert`
of `vhost_dev_sync_region` nor reads outside the log it harvests, and when the device it ends with
is started with logging on, its log is a buffer of `log_size` words with
`need ≤ log_size ≤ need + VHOST_LOG_BUFFER`. -/
theorem vhostRun_logSized {env : Env} {hdev dev₀ : VhostDev} {w₀ : World} (hq : hdev.vqs ≠ [])
    (hinit : vhostDevInit hdev (World.init env) = .ok ((0, dev₀), w₀)) (es : List VhostEvent) :
    vhostRun G dev₀ es w₀ ≠ .error .syncRegion ∧
      ∀ dev w, vhostRun G dev₀ es w₀ = .ok (dev, w) → dev.started = true →
        dev.logEnabled = true → LogSized G dev w :=
  have h₀ := vhostDevInit_logInv G hq hinit
  ⟨(vhostRun_triple G es dev₀).ne_error h₀, fun _ _ hrun hs hl =>
    ((vhostRun_triple G es dev₀).post h₀ hrun).sized hs hl⟩

set_option smartUnfolding false in
/-- The one-queue device of the runs of `Vhost.Run`, initialised, then given its RAM, logging and
a start: the run ends with the device started, logging, and a log of one word. -/
theorem vhostRun_logSized_oneQueue :
    vhostDevInit oneQueueDev (World.init oneQueueEnv) =
        .ok ((0, oneQueueDev), { World.init oneQueueEnv with
          calls := 2
          accel := Accel.init.apply .setOwner }) ∧
      (vhostRun .lp64 oneQueueDev [.regionAdd lowSection, .logGlobalStart, .devStart]
          { World.init oneQueueEnv with calls := 2, accel := Accel.init.apply .setOwner }).toOption.map
        (fun r => (r.1.started, r.1.logEnabled, r.1.logSize)) = some (true, true, 1) ∧
      vhostRun .lp64 oneQueueDev [.regionAdd lowSection, .logGlobalStart, .devStart]
          { World.init oneQueueEnv with calls := 2, accel := Accel.init.apply .setOwner } ≠
        .error .syncRegion ∧
      ∀ dev w, vhostRun .lp64 oneQueueDev [.regionAdd lowSection, .logGlobalStart, .devStart]
          { World.init oneQueueEnv with calls := 2, accel := Accel.init.apply .setOwner } =
            .ok (dev, w) → dev.started = true → dev.logEnabled = true → LogSized .lp64 dev w :=
  have hinit : vhostDevInit oneQueueDev (World.init oneQueueEnv) =
      .ok ((0, oneQueueDev), { World.init oneQueueEnv with
        calls := 2
        accel := Accel.init.apply .setOwner }) := rfl
  ⟨hinit, by decide, vhostRun_logSized .lp64 (by decide) hinit _⟩

end Vhost
