import Vhost.SetMemory
import Mathlib.Data.List.GetD

/-!
# Turning dirty logging on and off

`vhost_dev_set_log` pushes the feature word with or without `VHOST_F_LOG_ALL`, then every
ring's addresses with or without `VHOST_VRING_F_LOG`. When the accelerator refuses one of them,
the code puts back what it changed: the rings up to the one that failed, then the features,
each with the logging state the device still has, asserting that these pushes succeed.
`vhost_migration_log` switches logging on a started device, allocating the log first or
freeing it after.

## Main definitions

* `pushCommand` — the call both `vhost_virtqueue_set_addr` and `vhost_dev_set_features` make
* `vhostVirtqueueSetAddr`, `vhostDevSetFeatures`, `vhostDevSetLog`
* `vhostMigrationLog`, `vhostLogGlobalStart`, `vhostLogGlobalStop`
* `LogConfigured` — the accelerator holds what a log flag pushes
* `LoggingConfigured`, `logFlag` — the feature word and the rings' log bits of a log flag
* `restoredVringAddr` — the ring addresses after the unwinding

## Main results

* `vhostDevSetLog_spec` — `vhost_dev_set_log` pushes everything and returns `0`, or returns a
  negative error after putting back what it changed
* `vhostMigrationLog_failure` — a failed `vhost_migration_log` keeps the log flag and the
  accelerator's logging configuration
* `vhostDevSetLog_returns_error` — when one call fails, `vhost_dev_set_log` returns its error
  and keeps the accelerator's logging configuration, as a failed `vhost_migration_log` does
* `vhostDevSetLog_repushes_stale_ring` — the ring addresses it keeps only when they were the
  device's own
-/

set_option autoImplicit false

namespace Vhost

variable (G : LogGeometry) {env : Env}

/-- The addresses `vhost_virtqueue_set_addr` pushes for the ring `idx`. -/
def vringAddrOf (vq : VhostVirtqueue) (idx : Nat) (enableLog : Bool) : VhostVringAddr :=
  ⟨idx, vq.desc, vq.avail, vq.used, vq.usedPhys, if enableLog then 1 <<< vhostVringFLog else 0⟩

@[simp] theorem vringAddrOf_index (vq : VhostVirtqueue) (idx : Nat) (enableLog : Bool) :
    (vringAddrOf vq idx enableLog).index = idx := rfl

/-- What `vhost_virtqueue_set_addr` and `vhost_dev_set_features` both do: push one command,
and return `0`, or `-errno` when the accelerator refuses it. -/
def pushCommand (cmd : VhostIoctl) : VhostM Int := do
  let r ← ioctl cmd
  if r < 0 then return -((← getErrno) : Int)
  return 0

theorem calm_pushCommand (cmd : VhostIoctl) : Calm env (fun _ => True) (pushCommand cmd) :=
  (calm_ioctl cmd).bind fun _ _ => Calm.ite (fun _ => calm_getErrno.bind fun _ _ => Calm.ret trivial)
    fun _ => Calm.pure_bind (Calm.ret trivial)

theorem keeps_pushCommand {γ : Type} {f : World → γ} (hf : Blind f) (cmd : VhostIoctl) :
    Keeps f (pushCommand cmd) :=
  (keeps_ioctl hf cmd).bind fun _ =>
    Keeps.ite (keeps_getErrno.bind fun _ => Keeps.ret) (Keeps.ret.bind fun _ => Keeps.ret)

/-- A push either takes effect and returns `0`, or returns a negative error and leaves the
accelerator as it was. -/
theorem pushCommand_accel {cmd : VhostIoctl} {w w' : World} {r : Int}
    (h : pushCommand cmd w = .ok (r, w')) :
    (r = 0 ∧ w'.accel = w.accel.apply cmd) ∨ (r < 0 ∧ w'.accel = w.accel ∧ w'.errno ≠ 0) := by
  obtain ⟨r₁, w₁, h₁, h⟩ := bind_eq_ok.1 h
  rcases ioctl_accel h₁ with ⟨rfl, ha⟩ | ⟨rfl, ha, he⟩
  · rw [if_neg (Int.lt_irrefl 0), pure_bind, pure_eq_ok] at h
    exact .inl ⟨h.1.symm, h.2 ▸ ha⟩
  · rw [if_pos (by decide)] at h
    obtain ⟨e, w₂, h₂, h⟩ := bind_eq_ok.1 h
    obtain ⟨rfl, rfl⟩ := Prod.mk.inj (Except.ok.inj h₂)
    obtain ⟨rfl, rfl⟩ := pure_eq_ok.1 h
    exact .inr ⟨by omega, ha, he⟩

/-- A push at a call that succeeds. -/
theorem pushCommand_ok {cmd : VhostIoctl} {w : World} (h : w.env.errno w.calls = 0) :
    pushCommand cmd w = .ok (0, { w with calls := w.calls + 1, accel := w.accel.apply cmd }) :=
  bind_eq_ok.2 ⟨0, _, by rw [ioctl, if_pos h], by rw [if_neg (Int.lt_irrefl 0)]; rfl⟩

/-- A push at a call that fails returns the call's `-errno`. -/
theorem pushCommand_err {cmd : VhostIoctl} {w : World} (h : w.env.errno w.calls ≠ 0) :
    pushCommand cmd w =
      .ok (-(w.env.errno w.calls : Int), { w with calls := w.calls + 1, errno := w.env.errno w.calls }) :=
  bind_eq_ok.2 ⟨-1, _, by rw [ioctl, if_neg h], by rw [if_pos (by decide)]; rfl⟩

/-- `vhost_virtqueue_set_addr`. -/
def vhostVirtqueueSetAddr (vq : VhostVirtqueue) (idx : Nat) (enableLog : Bool) : VhostM Int :=
  pushCommand (.setVringAddr (vringAddrOf vq idx enableLog))

/-- The feature word `vhost_dev_set_features` pushes. -/
def featuresOf (dev : VhostDev) (enableLog : Bool) : Nat :=
  if enableLog then dev.ackedFeatures ||| 1 <<< vhostFLogAll else dev.ackedFeatures

/-- `vhost_dev_set_features`. -/
def vhostDevSetFeatures (dev : VhostDev) (enableLog : Bool) : VhostM Int :=
  pushCommand (.setFeatures (featuresOf dev enableLog))

/-- The loop of `vhost_dev_set_log` from the ring `i` on: the index and the error of the first
ring whose addresses the accelerator refuses. -/
def setLogLoop (enableLog : Bool) : List VhostVirtqueue → Nat → VhostM (Option (Nat × Int))
  | [], _ => return none
  | vq :: vqs, i => do
    let r ← vhostVirtqueueSetAddr vq i enableLog
    if r < 0 then return some (i, r)
    setLogLoop enableLog vqs (i + 1)

theorem calm_setLogLoop (enableLog : Bool) :
    ∀ (vqs : List VhostVirtqueue) (i : Nat), Calm env (fun _ => True) (setLogLoop enableLog vqs i)
  | [], _ => Calm.ret trivial
  | _ :: vqs, i => (calm_pushCommand _).bind fun _ _ => Calm.ite (fun _ => Calm.ret trivial)
    fun _ => Calm.pure_bind (calm_setLogLoop enableLog vqs (i + 1))

theorem keeps_setLogLoop {γ : Type} {f : World → γ} (hf : Blind f) (enableLog : Bool) :
    ∀ (vqs : List VhostVirtqueue) (i : Nat), Keeps f (setLogLoop enableLog vqs i)
  | [], _ => Keeps.ret
  | _ :: vqs, i => (keeps_pushCommand hf _).bind fun _ =>
    Keeps.ite Keeps.ret (Keeps.ret.bind fun _ => keeps_setLogLoop hf enableLog vqs (i + 1))

/-- The unwinding loop of `vhost_dev_set_log`, `for (; i >= 0; --i)`: the rings `i` down to
`0` get their addresses back with the logging state of the device, each push asserted. -/
def setLogUnwind (dev : VhostDev) : Nat → VhostM Unit
  | 0 => do
    let t ← vhostVirtqueueSetAddr (dev.vqs.getD 0 default) 0 dev.logEnabled
    unless 0 ≤ t do throw .setLog
  | i + 1 => do
    let t ← vhostVirtqueueSetAddr (dev.vqs.getD (i + 1) default) (i + 1) dev.logEnabled
    unless 0 ≤ t do throw .setLog
    setLogUnwind dev i

theorem calm_setLogUnwind (dev : VhostDev) :
    ∀ i, Calm env (fun _ => True) (setLogUnwind dev i)
  | 0 => (calm_pushCommand _).bind fun _ _ => Calm.ite (fun _ => Calm.ret trivial)
    fun _ => Calm.abort nofun
  | i + 1 => (calm_pushCommand _).bind fun _ _ => Calm.ite
    (fun _ => Calm.pure_bind (calm_setLogUnwind dev i)) fun _ => Calm.abort_bind nofun

theorem keeps_setLogUnwind {γ : Type} {f : World → γ} (hf : Blind f) (dev : VhostDev) :
    ∀ i, Keeps f (setLogUnwind dev i)
  | 0 => (keeps_pushCommand hf _).bind fun _ => Keeps.ite Keeps.ret Keeps.abort
  | i + 1 => (keeps_pushCommand hf _).bind fun _ =>
    Keeps.ite (Keeps.ret.bind fun _ => keeps_setLogUnwind hf dev i) Keeps.abort_bind

/-- `vhost_dev_set_log`. -/
def vhostDevSetLog (dev : VhostDev) (enableLog : Bool) : VhostM Int := do
  let r ← vhostDevSetFeatures dev enableLog
  if r < 0 then return r
  match ← setLogLoop enableLog dev.vqs 0 with
  | none => return 0
  | some (i, r) =>
    setLogUnwind dev i
    let t ← vhostDevSetFeatures dev dev.logEnabled
    unless 0 ≤ t do throw .setLog
    return r

theorem calm_vhostDevSetLog (dev : VhostDev) (enableLog : Bool) :
    Calm env (fun _ => True) (vhostDevSetLog dev enableLog) :=
  (calm_pushCommand _).bind fun _ _ => Calm.ite (fun _ => Calm.ret trivial) fun _ =>
    Calm.pure_bind <| (calm_setLogLoop _ _ _).bind fun o _ => match o with
    | none => Calm.ret trivial
    | some (i, _) => (calm_setLogUnwind _ i).bind fun _ _ => (calm_pushCommand _).bind fun _ _ =>
        Calm.ite (fun _ => Calm.pure_bind (Calm.ret trivial)) fun _ => Calm.abort_bind nofun

theorem keeps_vhostDevSetLog {γ : Type} {f : World → γ} (hf : Blind f) (dev : VhostDev)
    (enableLog : Bool) : Keeps f (vhostDevSetLog dev enableLog) :=
  (keeps_pushCommand hf _).bind fun _ => Keeps.ite Keeps.ret <|
    Keeps.ret.bind fun _ => (keeps_setLogLoop hf _ _ _).bind fun o => match o with
    | none => Keeps.ret
    | some (i, _) => (keeps_setLogUnwind hf _ i).bind fun _ =>
        (keeps_pushCommand hf _).bind fun _ => Keeps.ite (Keeps.ret.bind fun _ => Keeps.ret)
          Keeps.abort_bind

/-! ### What `vhost_dev_set_log` leaves in the accelerator -/

/-- The accelerator holds what `vhost_dev_set_log (dev, enableLog)` pushes: the feature word,
and for every ring its addresses with the log flag `enableLog`. -/
structure LogConfigured (dev : VhostDev) (enableLog : Bool) (a : Accel) : Prop where
  features : a.features = featuresOf dev enableLog
  vringAddr : ∀ i (hi : i < dev.vqs.length),
    a.vringAddr i = some (vringAddrOf dev.vqs[i] i enableLog)

/-- The `VHOST_VRING_F_LOG` bit of the addresses the accelerator holds for the ring `i`. -/
def logFlag (a : Accel) (i : Nat) : Option Bool :=
  (a.vringAddr i).map fun addr => addr.flags.testBit vhostVringFLog

@[simp] theorem vringAddrOf_logFlag (vq : VhostVirtqueue) (idx : Nat) (enableLog : Bool) :
    (vringAddrOf vq idx enableLog).flags.testBit vhostVringFLog = enableLog := by
  rw [show (vringAddrOf vq idx enableLog).flags = if enableLog then 1 <<< vhostVringFLog else 0
    from rfl]
  cases enableLog <;> decide

/-- The accelerator's logging configuration is that of the log flag `enableLog`: the feature
word `vhost_dev_set_features` pushes with it, and every ring's `VHOST_VRING_F_LOG` bit equal to
it. The ring addresses themselves are left free. -/
structure LoggingConfigured (dev : VhostDev) (enableLog : Bool) (a : Accel) : Prop where
  features : a.features = featuresOf dev enableLog
  flags : ∀ i < dev.vqs.length, logFlag a i = some enableLog

/-- An accelerator that holds what a log flag pushes has that flag's logging configuration. -/
theorem LogConfigured.loggingConfigured {dev : VhostDev} {e : Bool} {a : Accel}
    (h : LogConfigured dev e a) : LoggingConfigured dev e a :=
  ⟨h.features, fun i hi => by simp [Vhost.logFlag, h.vringAddr i hi]⟩

/-- The ring addresses once the rings below `p` have been pushed again with the device's log
flag, as the unwinding of `vhost_dev_set_log` does: those rings hold the addresses the device
has for them, the others what `addr` held. -/
def restoredVringAddr (dev : VhostDev) (addr : Nat → Option VhostVringAddr) (p : Nat) :
    Nat → Option VhostVringAddr := fun j =>
  if j < p then some (vringAddrOf (dev.vqs.getD j default) j dev.logEnabled) else addr j

@[simp] theorem restoredVringAddr_zero (dev : VhostDev) (addr : Nat → Option VhostVringAddr) :
    restoredVringAddr dev addr 0 = addr :=
  funext fun j => if_neg (Nat.not_lt_zero j)

/-- Pushing the rings below `p` again with the device's own log flag keeps the logging
configuration of that flag. -/
theorem LoggingConfigured.repush {dev : VhostDev} {a : Accel} {p : Nat}
    (hc : LoggingConfigured dev dev.logEnabled a) (hp : p ≤ dev.vqs.length) (i : Nat) :
    logFlag { a with vringAddr := restoredVringAddr dev a.vringAddr p } i = logFlag a i := by
  by_cases hi : i < p
  · simp only [Vhost.logFlag, restoredVringAddr, if_pos hi, Option.map_some', vringAddrOf_logFlag]
    exact (hc.flags i (by omega)).symm
  · simp only [Vhost.logFlag, restoredVringAddr, if_neg hi]

/-- The loop, when every ring takes its addresses, gives the rings from `i` on the addresses of
`vqs` with the log flag `enableLog` and changes nothing else. -/
theorem setLogLoop_none {e : Bool} : ∀ {vqs : List VhostVirtqueue} {i : Nat} {w w' : World},
    setLogLoop e vqs i w = .ok (none, w') →
      w'.accel = { w.accel with vringAddr := (fun j =>
        if i ≤ j ∧ j < i + vqs.length then some (vringAddrOf (vqs.getD (j - i) default) j e)
        else w.accel.vringAddr j) }
  | [], i, w, w', h => by
    simp only [setLogLoop, pure_eq_ok, true_and] at h
    subst h
    have hj : ∀ j, ¬(i ≤ j ∧ j < i + 0) := fun j => by omega
    simp only [List.length_nil, hj, if_false]
  | vq :: vqs, i, w, w', h => by
    obtain ⟨r, w₁, h₁, h⟩ := bind_eq_ok.1 h
    rcases pushCommand_accel h₁ with ⟨rfl, ha⟩ | ⟨hr, -⟩
    · rw [setLogLoop_none (by simpa using h), ha]
      refine congrArg (fun f => ({ w.accel with vringAddr := f } : Accel)) (funext fun j => ?_)
      rcases lt_trichotomy j i with hj | rfl | hj
      · simp [Accel.apply, Function.update_noteq hj.ne, show ¬ i ≤ j by omega,
          show ¬ i + 1 ≤ j by omega]
      · simp [Accel.apply]
      · obtain ⟨k, rfl⟩ : ∃ k, j = i + 1 + k := ⟨j - (i + 1), by omega⟩
        simp [Accel.apply, Function.update_noteq (show i + 1 + k ≠ i by omega),
          show i + 1 + k - i = k + 1 by omega,
          show i ≤ i + 1 + k ∧ i + 1 + k < i + (vqs.length + 1) ↔ k < vqs.length by omega]
    · simp [hr] at h

/-- The loop stops at the first ring the accelerator refuses, `k`, with a negative error, having
changed only the addresses of the rings before `k`. -/
theorem setLogLoop_some {e : Bool} : ∀ {vqs : List VhostVirtqueue} {i k : Nat} {r : Int}
    {w w' : World}, setLogLoop e vqs i w = .ok (some (k, r), w') →
      r < 0 ∧ i ≤ k ∧ k < i + vqs.length ∧
        ∃ f, w'.accel = { w.accel with vringAddr := f } ∧ ∀ j, k ≤ j → f j = w.accel.vringAddr j
  | [], _, _, _, _, _, h => by simp [setLogLoop] at h
  | vq :: vqs, i, k, r, w, w', h => by
    obtain ⟨r₁, w₁, h₁, h⟩ := bind_eq_ok.1 h
    rcases pushCommand_accel h₁ with ⟨rfl, ha⟩ | ⟨hr, ha, -⟩
    · obtain ⟨hr, hik, hk, f, hf, hfk⟩ := setLogLoop_some (by simpa using h)
      refine ⟨hr, by omega, by simp; omega, f, by rw [hf, ha]; rfl, fun j hj => ?_⟩
      simp [hfk j hj, ha, Accel.apply, Function.update_noteq (show j ≠ i by omega)]
    · simp only [hr, if_true, pure_eq_ok, Option.some.injEq, Prod.mk.injEq] at h
      obtain ⟨⟨rfl, rfl⟩, rfl⟩ := h
      exact ⟨hr, le_rfl, by simp, _, ha, fun _ _ => rfl⟩

/-- The unwinding from ring `k`, when every push succeeds as it asserts, gives the rings `0` to
`k` their addresses with the log flag of the device. -/
theorem setLogUnwind_accel {dev : VhostDev} : ∀ {k : Nat} {w w' : World},
    setLogUnwind dev k w = .ok ((), w') →
      w'.accel = { w.accel with vringAddr := (fun j =>
        if j ≤ k then some (vringAddrOf (dev.vqs.getD j default) j dev.logEnabled)
        else w.accel.vringAddr j) }
  | 0, w, w', h => by
    obtain ⟨t, w₁, h₁, h⟩ := bind_eq_ok.1 h
    rcases pushCommand_accel h₁ with ⟨rfl, ha⟩ | ⟨ht, -⟩
    · rw [if_pos (Int.le_refl 0), pure_eq_ok] at h
      rw [← h.2, ha]
      refine congrArg (fun f => ({ w.accel with vringAddr := f } : Accel)) (funext fun j => ?_)
      rcases Nat.eq_zero_or_pos j with rfl | hj
      · simp [Accel.apply]
      · simp [Accel.apply, Function.update_noteq hj.ne', show ¬ j ≤ 0 by omega]
    · simp [Int.not_le.2 ht, bind_eq_ok] at h
  | k + 1, w, w', h => by
    obtain ⟨t, w₁, h₁, h⟩ := bind_eq_ok.1 h
    rcases pushCommand_accel h₁ with ⟨rfl, ha⟩ | ⟨ht, -⟩
    · rw [if_pos (Int.le_refl 0)] at h
      rw [setLogUnwind_accel h, ha]
      refine congrArg (fun f => ({ w.accel with vringAddr := f } : Accel)) (funext fun j => ?_)
      rcases lt_trichotomy j (k + 1) with hj | rfl | hj
      · simp [Accel.apply, Function.update_noteq hj.ne, show j ≤ k by omega, hj.le]
      · simp [Accel.apply]
      · simp [Accel.apply, Function.update_noteq hj.ne', show ¬ j ≤ k by omega, show ¬ j ≤ k + 1 by omega]
    · simp [Int.not_le.2 ht, bind_eq_ok] at h

/-- The loop of `vhost_dev_set_log` from the ring `i`, when the calls before the `k`-th push
succeed and that push fails: it stops at the ring `i + k` with the error of that call, after
`k + 1` calls. -/
theorem setLogLoop_fails {e : Bool} : ∀ {vqs : List VhostVirtqueue} {i k : Nat} {w : World},
    k < vqs.length → (∀ m < k, w.env.errno (w.calls + m) = 0) → w.env.errno (w.calls + k) ≠ 0 →
      ∃ w', setLogLoop e vqs i w = .ok (some (i + k, -(w.env.errno (w.calls + k) : Int)), w') ∧
        w'.env = w.env ∧ w'.calls = w.calls + k + 1
  | [], _, _, _, hk, _, _ => absurd hk (Nat.not_lt_zero _)
  | _ :: _, i, 0, w, _, _, hf =>
    ⟨{ w with calls := w.calls + 1, errno := w.env.errno w.calls },
      bind_eq_ok.2 ⟨_, _, pushCommand_err hf, by
        rw [if_pos (by have : w.env.errno w.calls ≠ 0 := hf; omega)]; rfl⟩, rfl, rfl⟩
  | _ :: vqs, i, k + 1, w, hk, hs, hf => by
    obtain ⟨w', h, he, hc⟩ := setLogLoop_fails (e := e) (i := i + 1)
      (w := { w with calls := w.calls + 1, accel := w.accel.apply _ })
      (show k < vqs.length by simpa using hk)
      (fun m hm => by simpa [Nat.add_right_comm, Nat.add_assoc] using hs (m + 1) (by omega))
      (by simpa [Nat.add_right_comm, Nat.add_assoc] using hf)
    refine ⟨w', bind_eq_ok.2 ⟨0, _, pushCommand_ok (hs 0 (Nat.succ_pos k)), ?_⟩, he, by
      simp only at hc; omega⟩
    rw [if_neg (Int.lt_irrefl 0)]
    simpa [Nat.add_right_comm, Nat.add_assoc] using h

/-- The unwinding from the ring `k`, when its `k + 1` calls succeed, returns after them. -/
theorem setLogUnwind_ok (dev : VhostDev) : ∀ {k : Nat} {w : World},
    (∀ m ≤ k, w.env.errno (w.calls + m) = 0) →
      ∃ w', setLogUnwind dev k w = .ok ((), w') ∧ w'.env = w.env ∧ w'.calls = w.calls + k + 1
  | 0, w, hs => ⟨{ w with calls := w.calls + 1, accel := w.accel.apply _ },
      bind_eq_ok.2 ⟨0, _, pushCommand_ok (hs 0 le_rfl), by rw [if_pos (Int.le_refl 0)]; rfl⟩, rfl, rfl⟩
  | k + 1, w, hs => by
    obtain ⟨w', h, he, hc⟩ := setLogUnwind_ok dev (k := k)
      (w := { w with calls := w.calls + 1, accel := w.accel.apply _ })
      (fun m hm => by simpa [Nat.add_right_comm, Nat.add_assoc] using hs (m + 1) (by omega))
    refine ⟨w', bind_eq_ok.2 ⟨0, _, pushCommand_ok (hs 0 (Nat.zero_le _)), ?_⟩, he, by
      simp only at hc; omega⟩
    rw [if_pos (Int.le_refl 0), pure_bind]
    exact h

/-- The loop of `vhost_dev_set_log` stopped at the ring `k`, then the unwinding from `k`: the
rings `0` to `k` hold their addresses with the device's log flag, and the others what they
held before the loop. -/
theorem setLogUnwind_after_loop {dev : VhostDev} {e : Bool} {k : Nat} {r : Int} {w₁ w₂ w₃ : World}
    (h₂ : setLogLoop e dev.vqs 0 w₁ = .ok (some (k, r), w₂))
    (h₃ : setLogUnwind dev k w₂ = .ok ((), w₃)) :
    w₃.accel = { w₁.accel with vringAddr := restoredVringAddr dev w₁.accel.vringAddr (k + 1) } := by
  obtain ⟨-, -, -, f, hf, hfk⟩ := setLogLoop_some h₂
  rw [setLogUnwind_accel h₃, hf]
  refine congrArg (fun V => ({ w₁.accel with vringAddr := V } : Accel)) (funext fun j => ?_)
  by_cases hj : j ≤ k
  · simp only [restoredVringAddr, if_pos hj, if_pos (Nat.lt_succ_of_le hj)]
  · simp only [restoredVringAddr, if_neg hj, if_neg (mt Nat.le_of_lt_succ hj), hfk j (by omega)]

/-- `vhost_dev_set_log` either pushes the feature word and every ring's addresses with the log
flag `enableLog` and returns `0`, or returns a negative error; then either the feature word was
refused and nothing changed, or the ring `k` was refused and the code put back the features and
the rings `0` to `k` with the device's own log flag. -/
theorem vhostDevSetLog_spec {dev : VhostDev} {enableLog : Bool} {w w' : World} {r : Int}
    (h : vhostDevSetLog dev enableLog w = .ok (r, w')) :
    (r = 0 ∧ w'.accel = { w.accel with
      features := featuresOf dev enableLog
      vringAddr := (fun j => if j < dev.vqs.length
        then some (vringAddrOf (dev.vqs.getD j default) j enableLog) else w.accel.vringAddr j) }) ∨
      (r < 0 ∧ (w'.accel = w.accel ∨ ∃ k < dev.vqs.length, w'.accel = { w.accel with
        features := featuresOf dev dev.logEnabled
        vringAddr := restoredVringAddr dev w.accel.vringAddr (k + 1) })) := by
  unfold vhostDevSetLog at h
  obtain ⟨r₁, w₁, h₁, h⟩ := bind_eq_ok.1 h
  rcases pushCommand_accel h₁ with ⟨rfl, ha₁⟩ | ⟨hr₁, ha₁, -⟩
  · rw [if_neg (Int.lt_irrefl 0), pure_bind] at h
    obtain ⟨o, w₂, h₂, h⟩ := bind_eq_ok.1 h
    rcases o with _ | ⟨k, r₂⟩
    · rw [pure_eq_ok] at h
      obtain ⟨rfl, rfl⟩ := h
      refine .inl ⟨rfl, ?_⟩
      rw [setLogLoop_none h₂, ha₁]
      exact congrArg (fun f => ({ w.accel with features := featuresOf dev enableLog, vringAddr := f } : Accel))
        (funext fun j => by simp [Accel.apply])
    · obtain ⟨hr₂, -, hk, -⟩ := setLogLoop_some h₂
      obtain ⟨_, w₃, h₃, h⟩ := bind_eq_ok.1 h
      obtain ⟨t, w₄, h₄, h⟩ := bind_eq_ok.1 h
      rcases pushCommand_accel h₄ with ⟨rfl, ha₄⟩ | ⟨ht, -⟩
      · rw [if_pos (Int.le_refl 0), pure_bind, pure_eq_ok] at h
        obtain ⟨rfl, rfl⟩ := h
        refine .inr ⟨hr₂, .inr ⟨k, by omega, ?_⟩⟩
        rw [ha₄, setLogUnwind_after_loop h₂ h₃, ha₁]
        rfl
      · rw [if_neg (Int.not_le.2 ht)] at h
        obtain ⟨_, _, h, -⟩ := bind_eq_ok.1 h
        exact absurd h throw_ne_ok
  · rw [if_pos hr₁, pure_eq_ok] at h
    obtain ⟨rfl, rfl⟩ := h
    exact .inr ⟨hr₁, .inl ha₁⟩

/-- A `vhost_dev_set_log` that fails, from an accelerator with the logging configuration of the
device's log flag, leaves that configuration: the unwinding pushes the feature word and the rings
it reached again with the device's flag. -/
theorem vhostDevSetLog_failure_logging {dev : VhostDev} {e : Bool} {w w' : World} {r : Int}
    (hc : LoggingConfigured dev dev.logEnabled w.accel)
    (h : vhostDevSetLog dev e w = .ok (r, w')) (hr : r < 0) :
    w'.accel.features = w.accel.features ∧ ∀ i, logFlag w'.accel i = logFlag w.accel i := by
  rcases vhostDevSetLog_spec h with ⟨rfl, -⟩ | ⟨-, ha | ⟨k, hk, ha⟩⟩
  · exact absurd hr (Int.lt_irrefl 0)
  · exact ⟨by rw [ha], fun i => by rw [ha]⟩
  · exact ⟨by rw [ha]; exact hc.features.symm, fun i => by rw [ha]; exact hc.repush hk i⟩

/-- A `vhost_dev_set_log` that succeeds leaves the accelerator holding what the log flag it
pushed asks for, and its memory table as it was. -/
theorem vhostDevSetLog_configured {dev : VhostDev} {e : Bool} {w w' : World} {r : Int}
    (h : vhostDevSetLog dev e w = .ok (r, w')) (hr : ¬ r < 0) :
    w'.accel.memTable = w.accel.memTable ∧ LogConfigured dev e w'.accel := by
  rcases vhostDevSetLog_spec h with ⟨-, ha⟩ | ⟨hr', -⟩
  · rw [ha]
    exact ⟨rfl, rfl, fun i hi => by simp [hi, List.getD_eq_getElem]⟩
  · exact absurd hr' hr

/-- `vhost_migration_log`. -/
def vhostMigrationLog (dev : VhostDev) (enable : Bool) : VhostM (Int × VhostDev) :=
  if enable = dev.logEnabled then return (0, dev)
  else if !dev.started then return (0, { dev with logEnabled := enable })
  else if !enable then do
    let r ← vhostDevSetLog dev false
    if r < 0 then return (r, dev)
    if dev.log ≠ 0 then gFree dev.log
    return (0, { dev with log := 0, logSize := 0, logEnabled := enable })
  else do
    let dev ← vhostDevLogResize G dev (vhostGetLogSize G dev.mem dev.vqs)
    let r ← vhostDevSetLog dev true
    if r < 0 then return (r, dev)
    return (0, { dev with logEnabled := enable })

theorem keeps_vhostMigrationLog {γ : Type} {f : World → γ} (hf : Blind f) (dev : VhostDev)
    (enable : Bool) : Keeps f (vhostMigrationLog G dev enable) :=
  Keeps.ite Keeps.ret <| Keeps.ite Keeps.ret <| Keeps.ite
    ((keeps_vhostDevSetLog hf _ _).bind fun _ => Keeps.ite Keeps.ret <| Keeps.ret.bind fun _ =>
      Keeps.ite ((keeps_gFree hf.logBlind _).bind fun _ => Keeps.ret)
        (Keeps.ret.bind fun _ => Keeps.ret))
    ((keeps_vhostDevLogResize G hf _ _).bind fun _ => (keeps_vhostDevSetLog hf _ _).bind
      fun _ => Keeps.ite Keeps.ret (Keeps.ret.bind fun _ => Keeps.ret))

/-- `vhost_migration_log` keeps the rings of the device, whether it is started, and its table. -/
theorem returns_vhostMigrationLog (dev : VhostDev) (enable : Bool) :
    Returns (fun r => r.2.vqs = dev.vqs ∧ r.2.started = dev.started ∧ r.2.mem = dev.mem)
      (vhostMigrationLog G dev enable) :=
  Returns.ite (Returns.ret ⟨rfl, rfl, rfl⟩) <| Returns.ite (Returns.ret ⟨rfl, rfl, rfl⟩) <| Returns.ite
    (Returns.bind fun _ => Returns.ite (Returns.ret ⟨rfl, rfl, rfl⟩) <| Returns.bind fun _ =>
      Returns.ite (Returns.bind fun _ => Returns.ret ⟨rfl, rfl, rfl⟩)
        (Returns.bind fun _ => Returns.ret ⟨rfl, rfl, rfl⟩))
    (Returns.bind_of (returns_vhostDevLogResize G _ _) fun _ hd => Returns.bind fun _ =>
      Returns.ite (Returns.ret hd) (Returns.bind fun _ => Returns.ret hd))

/-- When exactly one call of `vhost_dev_set_log` fails, the feature word (`p = 0`) or the
addresses of the ring `p - 1`, and the accelerator has the logging configuration of the device's
flag, the call returns that call's `-errno`, and the rings below `p` hold again the addresses the
device has for them. -/
theorem vhostDevSetLog_fails_at {dev : VhostDev} {e : Bool} {w : World} {p : Nat}
    (hc : LoggingConfigured dev dev.logEnabled w.accel) (hp : p ≤ dev.vqs.length)
    (hf : w.env.errno (w.calls + p) ≠ 0) (hs : ∀ m, m ≠ p → w.env.errno (w.calls + m) = 0) :
    ∃ w', vhostDevSetLog dev e w = .ok (-(w.env.errno (w.calls + p) : Int), w') ∧
      w'.accel = { w.accel with vringAddr := restoredVringAddr dev w.accel.vringAddr p } := by
  unfold vhostDevSetLog
  have hz : ∀ n m, n = w.calls + m → m ≠ p → w.env.errno n = 0 := fun _ m hn hm => hn ▸ hs m hm
  cases p with
  | zero =>
    refine ⟨{ w with calls := w.calls + 1, errno := w.env.errno w.calls },
      bind_eq_ok.2 ⟨_, _, pushCommand_err hf, ?_⟩, by rw [restoredVringAddr_zero]⟩
    rw [if_pos (by have : w.env.errno w.calls ≠ 0 := hf; omega)]
    rfl
  | succ k =>
    -- the features go through, ring `k` fails, the unwinding and the features again go through
    obtain ⟨w₂, h₂, he₂, hc₂⟩ := setLogLoop_fails (e := e) (i := 0) (k := k)
      (w := { w with calls := w.calls + 1, accel := w.accel.apply (.setFeatures (featuresOf dev e)) })
      (show k < dev.vqs.length by omega) (fun m hm => hz _ (m + 1) (by simp only; omega) (by omega))
      (by rw [show w.calls + 1 + k = w.calls + (k + 1) by omega]; exact hf)
    simp only [Nat.zero_add] at h₂ hc₂ he₂
    rw [show w.calls + 1 + k = w.calls + (k + 1) by omega] at h₂
    obtain ⟨w₃, h₃, he₃, hc₃⟩ := setLogUnwind_ok dev (k := k) (w := w₂) fun m _ => by
      rw [he₂, hc₂]; exact hz _ (k + 2 + m) (by omega) (by omega)
    have h₄ : w₃.env.errno w₃.calls = 0 := by
      rw [he₃, hc₃, he₂, hc₂]; exact hz _ (2 * k + 3) (by omega) (by omega)
    refine ⟨{ w₃ with
        calls := w₃.calls + 1
        accel := w₃.accel.apply (.setFeatures (featuresOf dev dev.logEnabled)) },
      bind_eq_ok.2 ⟨0, _, pushCommand_ok (hz _ 0 rfl (by omega)), ?_⟩, ?_⟩
    · rw [if_neg (Int.lt_irrefl 0), pure_bind]
      exact bind_eq_ok.2 ⟨_, _, h₂, bind_eq_ok.2 ⟨(), _, h₃, bind_eq_ok.2 ⟨0, _, pushCommand_ok h₄,
        by rw [if_pos (Int.le_refl 0), pure_bind]; rfl⟩⟩⟩
    · dsimp only
      rw [setLogUnwind_after_loop h₂ h₃]
      exact congrArg (fun F => ({ w.accel with features := F, vringAddr := _ } : Accel))
        hc.features.symm

/-- A `vhost_migration_log` that fails keeps the device's log flag, and an accelerator with the
logging configuration of that flag keeps its feature word and every ring's log bit. -/
theorem vhostMigrationLog_failure {dev dev' : VhostDev} {enable : Bool} {w w' : World} {r : Int}
    (hc : LoggingConfigured dev dev.logEnabled w.accel)
    (h : vhostMigrationLog G dev enable w = .ok ((r, dev'), w')) (hr : r < 0) :
    dev'.logEnabled = dev.logEnabled ∧ w'.accel.features = w.accel.features ∧
      ∀ i, logFlag w'.accel i = logFlag w.accel i := by
  unfold vhostMigrationLog at h
  by_cases h₁ : enable = dev.logEnabled
  · rw [if_pos h₁, pure_eq_ok] at h
    exact absurd (Prod.mk.inj h.1).1 (by omega)
  rw [if_neg h₁] at h
  by_cases h₂ : (!dev.started) = true
  · rw [if_pos h₂, pure_eq_ok] at h
    exact absurd (Prod.mk.inj h.1).1 (by omega)
  rw [if_neg h₂] at h
  by_cases h₃ : (!enable) = true
  · -- off: a failed `vhost_dev_set_log` returns the device as it was
    rw [if_pos h₃] at h
    obtain ⟨r₁, w₁, h₁', h⟩ := bind_eq_ok.1 h
    by_cases hr₁ : r₁ < 0
    · rw [if_pos hr₁, pure_eq_ok] at h
      obtain ⟨hp, rfl⟩ := h
      obtain ⟨rfl, rfl⟩ := Prod.mk.inj hp
      exact ⟨rfl, vhostDevSetLog_failure_logging hc h₁' hr₁⟩
    · rw [if_neg hr₁, pure_bind] at h
      split_ifs at h
      · obtain ⟨_, _, -, h⟩ := bind_eq_ok.1 h
        exact absurd (Prod.mk.inj (pure_eq_ok.1 h).1).1 (by omega)
      · exact absurd (Prod.mk.inj (pure_eq_ok.1 h).1).1 (by omega)
  · -- on: the log is replaced with logging off, then `vhost_dev_set_log` fails
    rw [if_neg h₃] at h
    obtain ⟨dev₂, w₂, h₂', h⟩ := bind_eq_ok.1 h
    obtain ⟨log, rfl, ha₂⟩ := vhostDevLogResize_accel G h₂'
    obtain ⟨r₁, w₃, h₃', h⟩ := bind_eq_ok.1 h
    by_cases hr₁ : r₁ < 0
    · rw [if_pos hr₁, pure_eq_ok] at h
      obtain ⟨hp, rfl⟩ := h
      obtain ⟨rfl, rfl⟩ := Prod.mk.inj hp
      -- the resize changed only the log base, which the logging configuration does not read
      obtain ⟨hf, hl⟩ := vhostDevSetLog_failure_logging
        ⟨by rw [ha₂]; exact hc.features, fun i hi => by rw [ha₂]; exact hc.flags i hi⟩ h₃' hr₁
      rw [ha₂] at hf hl
      exact ⟨rfl, hf, hl⟩
    · rw [if_neg hr₁, pure_bind, pure_eq_ok] at h
      exact absurd (Prod.mk.inj h.1).1 (by omega)

/-- From an accelerator with the logging configuration of the device's log flag (its feature
word, and every ring's log bit, as the device's flag pushes them), when exactly one call fails
(the feature word, `p = 0`, or the addresses of the ring `p - 1`): `vhost_dev_set_log` returns
that call's `-errno` and leaves the feature word and every ring's log bit as they were; the rings
below `p` hold again the addresses the device has for them, the others what they held. A
`vhost_migration_log` that fails leaves the device's log flag, the accelerator's feature word and
every ring's log bit as they were. -/
theorem vhostDevSetLog_returns_error :
    (∀ (dev : VhostDev) (enableLog : Bool) (w : World) (p : Nat),
      LoggingConfigured dev dev.logEnabled w.accel → p ≤ dev.vqs.length →
        w.env.errno (w.calls + p) ≠ 0 → (∀ m, m ≠ p → w.env.errno (w.calls + m) = 0) →
        ∃ w', vhostDevSetLog dev enableLog w = .ok (-(w.env.errno (w.calls + p) : Int), w') ∧
          w'.accel.features = w.accel.features ∧ (∀ i, logFlag w'.accel i = logFlag w.accel i) ∧
          w'.accel = { w.accel with vringAddr := restoredVringAddr dev w.accel.vringAddr p }) ∧
    (∀ (dev dev' : VhostDev) (enable : Bool) (w w' : World) (r : Int),
      LoggingConfigured dev dev.logEnabled w.accel →
        vhostMigrationLog G dev enable w = .ok ((r, dev'), w') → r < 0 →
        dev'.logEnabled = dev.logEnabled ∧ w'.accel.features = w.accel.features ∧
          ∀ i, logFlag w'.accel i = logFlag w.accel i) := by
  refine ⟨fun dev e w p hc hp hf hs => ?_, fun _ _ _ _ _ _ hc h hr => vhostMigrationLog_failure G hc h hr⟩
  obtain ⟨w', h, ha⟩ := vhostDevSetLog_fails_at hc hp hf hs
  exact ⟨w', h, by rw [ha], fun i => by rw [ha]; exact hc.repush hp i, ha⟩

/-- A started device with two virtqueues and logging off. -/
def twoQueueDev : VhostDev := ⟨[], [], [default, default], 0, 0, 0, false, true⟩

/-- The device `twoQueueDev` with logging on. -/
def twoQueueLoggingDev : VhostDev := { twoQueueDev with logEnabled := true }

/-- An accelerator that holds what `vhost_dev_set_log (dev, e)` pushes and nothing else. -/
def configuredAccel (dev : VhostDev) (e : Bool) : Accel :=
  { Accel.init with
    features := featuresOf dev e
    vringAddr := fun i => dev.vqs[i]?.map fun vq => vringAddrOf vq i e }

theorem logConfigured_configuredAccel (dev : VhostDev) (e : Bool) :
    LogConfigured dev e (configuredAccel dev e) :=
  ⟨rfl, fun i hi => by simp [configuredAccel, List.getElem?_eq_getElem hi]⟩

/-- The calls of the environment succeed but the call `n`, which fails with `EIO`. -/
def failingEnv (n : Nat) : Env where
  errno m := if m = n then 5 else 0
  map _ addr len := (addr, len)
  features := 0
  queue _ := ⟨0, 0, 0, 0, 0, 0, 0, 0, 0, 0, 0⟩
  hasSetGuestNotifiers := true
  hasSetHostNotifier := true

theorem failingEnv_errno_ne {n m : Nat} (h : m ≠ n) : (failingEnv n).errno m = 0 := if_neg h

/-- `vhostDevSetLog_returns_error` on two virtqueues. `vhost_dev_set_log` turning logging on
fails at the second ring (the third call) and returns `-EIO`, with the first ring back as it
was. `vhost_migration_log` turning logging off on a logging device fails at the feature word,
the first call; it allocates and frees nothing. -/
theorem vhostDevSetLog_returns_error_twoQueues :
    (∃ w', vhostDevSetLog twoQueueDev true
        { World.init (failingEnv 2) with accel := configuredAccel twoQueueDev false } = .ok (-5, w') ∧
      w'.accel.features = (configuredAccel twoQueueDev false).features ∧
      (∀ i, logFlag w'.accel i = logFlag (configuredAccel twoQueueDev false) i) ∧
      w'.accel = { configuredAccel twoQueueDev false with
        vringAddr := restoredVringAddr twoQueueDev (configuredAccel twoQueueDev false).vringAddr 2 }) ∧
    (∃ dev' w', vhostMigrationLog .lp64 twoQueueLoggingDev false
        { World.init (failingEnv 0) with accel := configuredAccel twoQueueLoggingDev true } =
          .ok ((-5, dev'), w') ∧ dev'.logEnabled = true ∧
      w'.accel.features = (configuredAccel twoQueueLoggingDev true).features ∧
      ∀ i, logFlag w'.accel i = logFlag (configuredAccel twoQueueLoggingDev true) i) := by
  obtain ⟨dev', w', h⟩ : ∃ dev' w', vhostMigrationLog .lp64 twoQueueLoggingDev false
      { World.init (failingEnv 0) with accel := configuredAccel twoQueueLoggingDev true } =
        .ok ((-5, dev'), w') := ⟨_, _, rfl⟩
  exact ⟨(vhostDevSetLog_returns_error .lp64).1 twoQueueDev true _ 2
      (logConfigured_configuredAccel _ _).loggingConfigured (by decide) (by decide)
      fun m hm => failingEnv_errno_ne (show 0 + m ≠ 2 by omega),
    ⟨dev', w', h, (vhostDevSetLog_returns_error .lp64).2 twoQueueLoggingDev dev' false _ w' (-5)
      (logConfigured_configuredAccel _ _).loggingConfigured h (by decide)⟩⟩

/-- The accelerator of `twoQueueDev` with logging off, but holding another descriptor table
address for every ring than the device has: its feature word and log bits are those of the
device's log flag, its addresses are not. -/
def staleAccel : Accel :=
  { configuredAccel twoQueueDev false with
    vringAddr := fun i => ((configuredAccel twoQueueDev false).vringAddr i).map
      fun addr => { addr with descUserAddr := 0x1000 } }

/-- With the feature word and the log bits the device's flag asks for but other ring addresses,
a `vhost_dev_set_log` that fails at the first ring (the second call) returns `-EIO` but does not
leave the ring's addresses as they were: the unwinding pushes the device's own addresses for it. -/
theorem vhostDevSetLog_repushes_stale_ring :
    LoggingConfigured twoQueueDev false staleAccel ∧
      ∃ w', vhostDevSetLog twoQueueDev true { World.init (failingEnv 1) with accel := staleAccel } =
        .ok (-5, w') ∧ w'.accel.vringAddr 0 ≠ staleAccel.vringAddr 0 :=
  ⟨⟨rfl, fun i hi => match i, hi with
    | 0, _ => by decide
    | 1, _ => by decide⟩, _, rfl, by decide⟩

/-- `vhost_log_global_start`: `abort()` when logging cannot be turned on. -/
def vhostLogGlobalStart (dev : VhostDev) : VhostM VhostDev := do
  let (r, dev) ← vhostMigrationLog G dev true
  if r < 0 then throw .migrationLog
  return dev

/-- `vhost_log_global_stop`: `abort()` when logging cannot be turned off. -/
def vhostLogGlobalStop (dev : VhostDev) : VhostM VhostDev := do
  let (r, dev) ← vhostMigrationLog G dev false
  if r < 0 then throw .migrationLog
  return dev

end Vhost
