import Vhost.Device

/-!
# A program logic for the device code

The invariants of the device are about what whole runs of `vhost.c` do to the log: which buffers
they allocate and free, and that no harvest reads outside its buffer. `Triple P x Q` says that
`x`, from a world where `P` holds, stops neither at an `assert` of `vhost_dev_sync_region` nor at
a log access outside its buffer, and that when it returns `a`, `Q a` holds of the world it
leaves. Every other abort is allowed: the invariants are about the runs that go on.

Most of `vhost.c` neither allocates, frees nor harvests. Such a computation is `Calm`: it keeps
every condition that only reads the environment, the heap and the allocator, and it returns
values of a stated kind. Each calm function gets one lemma, next to its definition, proved from
the rules here; the invariants are then assembled from those lemmas.

`Keeps f x` is a frame condition: a run of `x` that returns leaves the part `f` of the world as
it was. A harvest of the log keeps every part that is `LogBlind`. `Returns R x` says what `x`
returns whenever it returns.

## Main definitions

* `Triple`, `Quiet`, `Calm`, `Keeps`, `LogBlind`, `Returns`

## Main results

* `Triple.bind`, `Triple.forM`, `Calm.bind`, `Calm.forM` — the rules; `Calm.triple` uses a
  calm computation inside a triple
* `Calm.ioctl_errno` — a failed command returns `-errno`, which is negative
-/

set_option autoImplicit false

namespace Vhost

/-- From a world where `P` holds, `x` stops neither at an `assert` of `vhost_dev_sync_region`
nor at a log access outside its buffer, and when it returns `a` in `w'`, `Q a w'` holds. -/
def Triple {α : Type} (P : World → Prop) (x : VhostM α) (Q : α → World → Prop) : Prop :=
  ∀ w, P w → match x w with
    | .ok (a, w') => Q a w'
    | .error e => e ≠ .syncRegion

namespace Triple

variable {α β : Type} {P P' : World → Prop} {Q Q' : α → World → Prop} {x : VhostM α}

theorem conseq (h : Triple P x Q) (hp : ∀ w, P' w → P w) (hq : ∀ a w, Q a w → Q' a w) :
    Triple P' x Q' := fun w hw => by
  have h₁ := h w (hp w hw)
  revert h₁
  rcases x w with e | ⟨a, w'⟩
  exacts [id, hq a w']

theorem ret {a : α} (h : ∀ w, P w → Q a w) : Triple P (pure a) Q := h

theorem abort {e : Abort} (he : e ≠ .syncRegion) : Triple P (throw e) Q := fun _ _ => he

theorem bind {R : β → World → Prop} {f : α → VhostM β} (hx : Triple P x Q)
    (hf : ∀ a, Triple (Q a) (f a) R) : Triple P (x >>= f) R := fun w hw => by
  have h₁ := hx w hw
  rw [show (x >>= f) w = (x w).bind fun p => f p.1 p.2 from rfl]
  revert h₁
  rcases x w with e | ⟨a, w'⟩
  exacts [id, hf a w']

theorem pure_bind {a : β} {f : β → VhostM α} (h : Triple P (f a) Q) : Triple P (pure a >>= f) Q :=
  (ret (Q := fun b w => b = a ∧ P w) fun _ hw => ⟨rfl, hw⟩).bind fun _ w ⟨hb, hw⟩ => hb ▸ h w hw

theorem abort_bind {e : Abort} {f : β → VhostM α} (he : e ≠ .syncRegion) :
    Triple P (throw e >>= f) Q :=
  (abort (Q := fun _ _ => False) he).bind fun _ _ h => h.elim

/-- A fact about the values computed so far moves out of the precondition. -/
theorem intro_pure {φ : Prop} (h : φ → Triple P x Q) : Triple (fun w => P w ∧ φ) x Q :=
  fun w hw => h hw.2 w hw.1

theorem ite {c : Prop} [Decidable c] {y : VhostM α} (hc : c → Triple P x Q)
    (hn : ¬c → Triple P y Q) : Triple P (if c then x else y) Q := by
  by_cases h : c
  · rw [if_pos h]; exact hc h
  · rw [if_neg h]; exact hn h

/-- A fact that the precondition implies. -/
theorem assume {φ : Prop} (hφ : ∀ w, P w → φ) (h : φ → Triple P x Q) : Triple P x Q :=
  fun w hw => h (hφ w hw) w hw

/-- Name the world a computation starts from. -/
theorem ghost (h : ∀ w₀, P w₀ → Triple (· = w₀) x Q) : Triple P x Q :=
  fun w hw => h w hw w rfl

theorem of_ok (h : ∀ w, P w → ∃ a w', x w = .ok (a, w') ∧ Q a w') : Triple P x Q := fun w hw => by
  obtain ⟨a, w', hx, hq⟩ := h w hw
  rw [hx]
  exact hq

/-- A loop whose every turn keeps `I` keeps `I`. -/
theorem forM {I : World → Prop} {f : α → VhostM PUnit} :
    ∀ {l : List α}, (∀ a ∈ l, Triple I (f a) (fun _ => I)) → Triple I (l.forM f) (fun _ => I)
  | [], _ => ret fun _ hw => hw
  | a :: _, hf => (hf a (List.mem_cons_self _ _)).bind fun _ =>
      forM fun b hb => hf b (List.mem_cons_of_mem _ hb)

theorem ne_error (h : Triple P x Q) {w : World} (hw : P w) : x w ≠ .error .syncRegion := by
  intro he
  have h₁ := h w hw
  rw [he] at h₁
  exact h₁ rfl

theorem post (h : Triple P x Q) {w w' : World} {a : α} (hw : P w) (hx : x w = .ok (a, w')) :
    Q a w' := by
  have h₁ := h w hw
  rw [hx] at h₁
  exact h₁

end Triple

/-- `w'` has the environment, the heap and the allocator of `w`. -/
structure Quiet (w w' : World) : Prop where
  env : w'.env = w.env
  heap : w'.heap = w.heap
  brk : w'.brk = w.brk

theorem Quiet.rfl {w : World} : Quiet w w := ⟨Eq.refl _, Eq.refl _, Eq.refl _⟩

theorem Quiet.trans {w w₁ w₂ : World} (h₁ : Quiet w w₁) (h₂ : Quiet w₁ w₂) : Quiet w w₂ :=
  ⟨h₂.env.trans h₁.env, h₂.heap.trans h₁.heap, h₂.brk.trans h₁.brk⟩

/-- In the environment `env`, `x` keeps every condition on the world that only reads the
environment, the heap and the allocator, stops at no `assert` of the harvest, and returns only
values that satisfy `R`. -/
structure Calm {α : Type} (env : Env) (R : α → Prop) (x : VhostM α) : Prop where
  triple : ∀ P : World → Prop, (∀ w w', P w → Quiet w w' → P w') → (∀ w, P w → w.env = env) →
    Triple P x (fun a w => P w ∧ R a)

namespace Calm

variable {α β : Type} {env : Env} {R S : α → Prop} {x : VhostM α}

theorem ret {a : α} (h : R a) : Calm env R (pure a) :=
  ⟨fun _ _ _ => Triple.ret fun _ hw => ⟨hw, h⟩⟩

theorem abort {e : Abort} (he : e ≠ .syncRegion) : Calm env R (throw e) :=
  ⟨fun _ _ _ => Triple.abort he⟩

theorem bind {T : β → Prop} {f : α → VhostM β} (hx : Calm env S x)
    (hf : ∀ a, S a → Calm env T (f a)) : Calm env T (x >>= f) :=
  ⟨fun P hP he => (hx.triple P hP he).bind fun a w hw => (hf a hw.2).triple P hP he w hw.1⟩

theorem pure_bind {a : β} {f : β → VhostM α} (h : Calm env R (f a)) : Calm env R (pure a >>= f) :=
  (ret (R := (· = a)) rfl).bind fun _ hb => hb ▸ h

theorem abort_bind {e : Abort} {f : β → VhostM α} (he : e ≠ .syncRegion) :
    Calm env R (throw e >>= f) :=
  (abort (R := fun _ => False) he).bind fun _ h => h.elim

theorem ite {c : Prop} [Decidable c] {y : VhostM α} (hc : c → Calm env R x)
    (hn : ¬c → Calm env R y) : Calm env R (if c then x else y) := by
  by_cases h : c
  · rw [if_pos h]; exact hc h
  · rw [if_neg h]; exact hn h

theorem mono (h : Calm env R x) (hR : ∀ a, R a → S a) : Calm env S x :=
  ⟨fun P hP he => (h.triple P hP he).conseq (fun _ hw => hw) fun a _ h => ⟨h.1, hR a h.2⟩⟩

theorem of_ok (h : ∀ w, w.env = env → ∃ a w', x w = .ok (a, w') ∧ Quiet w w' ∧ R a) :
    Calm env R x := ⟨fun P hP he => Triple.of_ok fun w hw => by
  obtain ⟨a, w', hx, hq, ha⟩ := h w (he w hw)
  exact ⟨a, w', hx, hP w w' hw hq, ha⟩⟩

theorem forM {f : α → VhostM PUnit} :
    ∀ {l : List α}, (∀ a ∈ l, Calm env (fun _ => True) (f a)) →
      Calm env (fun _ => True) (l.forM f)
  | [], _ => ret trivial
  | a :: _, hf => (hf a (List.mem_cons_self _ _)).bind fun _ _ =>
      forM fun b hb => hf b (List.mem_cons_of_mem _ hb)

/-- A computation calm in every environment keeps every condition that calm calls keep. -/
theorem triple_of_forall {P : World → Prop} (h : ∀ env, Calm env R x)
    (hP : ∀ w w', P w → Quiet w w' → P w') : Triple P x (fun a w => P w ∧ R a) :=
  Triple.ghost fun w₀ hw₀ =>
    ((h w₀.env).triple (fun w => P w ∧ w.env = w₀.env)
      (fun w w' hw hq => ⟨hP w w' hw.1 hq, hq.env.trans hw.2⟩) fun _ hw => hw.2).conseq
      (fun _ hw => hw.symm ▸ ⟨hw₀, rfl⟩) fun _ _ h => ⟨h.1.1, h.2⟩

theorem keeps {P : World → Prop} (h : ∀ env, Calm env (fun _ => True) x)
    (hP : ∀ w w', P w → Quiet w w' → P w') : Triple P x (fun _ => P) :=
  (triple_of_forall h hP).conseq (fun _ hw => hw) fun _ _ h => h.1

end Calm

/-- A calm computation that returns has left the environment, the heap and the allocator as
they were. -/
theorem Calm.quiet {α : Type} {R : α → Prop} {x : VhostM α} {w w' : World} {a : α}
    (hc : Calm w.env R x) (h : x w = .ok (a, w')) : Quiet w w' :=
  ((hc.triple (Quiet w) (fun _ _ h₁ h₂ => h₁.trans h₂) fun _ h₁ => h₁.env).post Quiet.rfl h).1

/-! ### Calls into the world -/

section Calls

variable {env : Env}

theorem calm_ioctl (cmd : VhostIoctl) : Calm env (fun _ => True) (ioctl cmd) :=
  Calm.of_ok fun w _ => by unfold ioctl; split <;> exact ⟨_, _, rfl, ⟨rfl, rfl, rfl⟩, trivial⟩

theorem calm_ioctlGetVringBase (index : Nat) : Calm env (fun _ => True) (ioctlGetVringBase index) :=
  Calm.of_ok fun w _ => by
    unfold ioctlGetVringBase; split <;> exact ⟨_, _, rfl, ⟨rfl, rfl, rfl⟩, trivial⟩

theorem calm_ioctlSetLogBase (arg : LogBaseArg) : Calm env (fun _ => True) (ioctlSetLogBase arg) :=
  Calm.of_ok fun w _ => by
    unfold ioctlSetLogBase ioctl
    split
    · split <;> exact ⟨_, _, rfl, ⟨rfl, rfl, rfl⟩, trivial⟩
    · exact ⟨_, _, rfl, ⟨rfl, rfl, rfl⟩, trivial⟩

theorem calm_getErrno : Calm env (fun _ => True) getErrno :=
  Calm.of_ok fun _ _ => ⟨_, _, rfl, Quiet.rfl, trivial⟩

theorem calm_getEnv : Calm env (· = env) getEnv :=
  Calm.of_ok fun _ he => ⟨_, _, rfl, Quiet.rfl, he⟩

theorem calm_virtioQueueGetLastAvailIdx (n : Nat) :
    Calm env (fun _ => True) (virtioQueueGetLastAvailIdx n) :=
  Calm.of_ok fun _ _ => ⟨_, _, rfl, Quiet.rfl, trivial⟩

theorem calm_virtioQueueSetLastAvailIdx (n idx : Nat) :
    Calm env (fun _ => True) (virtioQueueSetLastAvailIdx n idx) :=
  Calm.of_ok fun _ _ => ⟨_, _, rfl, ⟨rfl, rfl, rfl⟩, trivial⟩

theorem calm_cpuPhysicalMemoryMap (addr len : Nat) :
    Calm env (fun _ => True) (cpuPhysicalMemoryMap addr len) :=
  Calm.of_ok fun _ _ => ⟨_, _, rfl, ⟨rfl, rfl, rfl⟩, trivial⟩

theorem calm_cpuPhysicalMemoryUnmap (buffer : Nat) :
    Calm env (fun _ => True) (cpuPhysicalMemoryUnmap buffer) :=
  Calm.of_ok fun _ _ => ⟨_, _, rfl, ⟨rfl, rfl, rfl⟩, trivial⟩

theorem calm_setGuestNotifiers (assign : Bool) : Calm env (fun _ => True) (setGuestNotifiers assign) :=
  Calm.of_ok fun w _ => by
    unfold setGuestNotifiers; split <;> exact ⟨_, _, rfl, ⟨rfl, rfl, rfl⟩, trivial⟩

/-- `g_malloc0(n)` hands out a fresh buffer of `n` zero words at the break. -/
theorem triple_gMalloc0 (n : Nat) (w₀ : World) :
    Triple (· = w₀) (gMalloc0 n) (fun p w => p = w₀.brk ∧ w = { w₀ with
      brk := w₀.brk + n + 1
      heap := Function.update w₀.heap w₀.brk (some (List.replicate n 0)) }) := by
  rintro w rfl
  exact ⟨rfl, rfl⟩

/-- `g_free(p)` changes the heap at `p` only. -/
theorem triple_gFree (p : Nat) (w₀ : World) :
    Triple (· = w₀) (gFree p)
      (fun _ w => w.env = w₀.env ∧ w.brk = w₀.brk ∧ ∀ q, q ≠ p → w.heap q = w₀.heap q) :=
  Triple.of_ok fun w hw => ⟨(), _, rfl, by
    subst hw
    split
    · exact ⟨rfl, rfl, fun _ _ => rfl⟩
    · exact ⟨rfl, rfl, fun _ hq => Function.update_noteq hq _ _⟩⟩

/-- `r = ioctl(...); if (r) return -errno;`: a command that fails has set `errno` to what the
environment says, which is not `0`, so the early return is negative. -/
theorem Calm.ioctl_errno {β : Type} {R : Int × β → Prop} {cmd : VhostIoctl} {b : β}
    {k : VhostM (Int × β)} (hk : Calm env R k) (hR : ∀ e : Nat, 0 < e → R (-(e : Int), b)) :
    Calm env R (ioctl cmd >>= fun r =>
      if r ≠ 0 then getErrno >>= fun e => pure (-(e : Int), b) else k) := by
  refine ⟨fun P hP he => ?_⟩
  refine Triple.bind (Q := fun r w => P w ∧ (r ≠ 0 → 0 < w.errno)) ?_ fun r => ?_
  · refine Triple.of_ok fun w hw => ?_
    unfold ioctl
    split
    · exact ⟨_, _, rfl, hP w _ hw ⟨rfl, rfl, rfl⟩, fun h => absurd rfl h⟩
    · exact ⟨_, _, rfl, hP w _ hw ⟨rfl, rfl, rfl⟩, fun _ => Nat.pos_of_ne_zero ‹_›⟩
  · split
    · exact Triple.of_ok fun w hw => ⟨_, _, rfl, hw.1, hR _ (hw.2 ‹_›)⟩
    · exact (hk.triple P hP he).conseq (fun _ hw => hw.1) fun _ _ h => h

end Calls

/-! ### What a computation leaves alone

`Keeps f x` is a frame condition: a run of `x` that returns has left the part `f` of the world
as it was. It is used with `f = World.accel`, for the code that never talks to the accelerator:
the harvest of the log and the mappings of the rings. -/

/-- Whenever `x` returns, it leaves the part `f` of the world as it found it. -/
def Keeps {α β : Type} (f : World → β) (x : VhostM α) : Prop :=
  ∀ ⦃w a w'⦄, x w = .ok (a, w') → f w' = f w

namespace Keeps

variable {α β γ : Type} {f : World → γ} {x : VhostM α}

theorem ret {a : α} : Keeps f (pure a) := fun _ _ _ h => by rw [(pure_eq_ok.1 h).2]

theorem abort {e : Abort} : Keeps f (throw e : VhostM α) := fun _ _ _ h => absurd h throw_ne_ok

theorem bind {g : α → VhostM β} (hx : Keeps f x) (hg : ∀ a, Keeps f (g a)) :
    Keeps f (x >>= g) := fun _ _ _ h =>
  let ⟨_, _, h₁, h₂⟩ := bind_eq_ok.1 h
  (hg _ h₂).trans (hx h₁)

theorem ite {c : Prop} [Decidable c] {y : VhostM α} (hx : Keeps f x) (hy : Keeps f y) :
    Keeps f (if c then x else y) := by
  by_cases h : c
  · rwa [if_pos h]
  · rwa [if_neg h]

theorem abort_bind {e : Abort} {g : α → VhostM β} : Keeps f (throw e >>= g) :=
  fun _ _ _ h => absurd h (by simp [bind_eq_ok])

theorem forM {g : α → VhostM PUnit} :
    ∀ {l : List α}, (∀ a ∈ l, Keeps f (g a)) → Keeps f (l.forM g)
  | [], _ => ret
  | a :: _, hg => (hg a (List.mem_cons_self _ _)).bind fun _ =>
      forM fun b hb => hg b (List.mem_cons_of_mem _ hb)

end Keeps

/-! ### What a computation returns -/

/-- Whenever `x` returns, the value it returns satisfies `R`. -/
def Returns {α : Type} (R : α → Prop) (x : VhostM α) : Prop :=
  ∀ ⦃w a w'⦄, x w = .ok (a, w') → R a

namespace Returns

variable {α β : Type} {R : β → Prop} {x : VhostM α}

theorem ret {b : β} (h : R b) : Returns R (pure b) := fun _ _ _ hx => (pure_eq_ok.1 hx).1 ▸ h

theorem abort {e : Abort} : Returns R (throw e : VhostM β) := fun _ _ _ h => absurd h throw_ne_ok

theorem bind {f : α → VhostM β} (hf : ∀ a, Returns R (f a)) : Returns R (x >>= f) :=
  fun _ _ _ h => let ⟨_, _, _, h₂⟩ := bind_eq_ok.1 h; hf _ h₂

/-- The rest of a bind returns well from whatever its first part may return. -/
theorem bind_of {S : α → Prop} {f : α → VhostM β} (hx : Returns S x)
    (hf : ∀ a, S a → Returns R (f a)) : Returns R (x >>= f) :=
  fun _ _ _ h => let ⟨_, _, h₁, h₂⟩ := bind_eq_ok.1 h; hf _ (hx h₁) h₂

theorem ite {c : Prop} [Decidable c] {y z : VhostM β} (hy : Returns R y) (hz : Returns R z) :
    Returns R (if c then y else z) := by
  by_cases h : c
  · rwa [if_pos h]
  · rwa [if_neg h]

end Returns

/-- `f` reads neither the log buffers nor the dirty reports, the only parts of the world that a
harvest of the log or a write of the accelerator to it changes. -/
def LogBlind {γ : Type} (f : World → γ) : Prop :=
  ∀ w heap dirty, f { w with heap := heap, dirty := dirty } = f w

theorem logBlind_accel : LogBlind World.accel := fun _ _ _ => rfl

section LogBlind

variable {γ : Type} {f : World → γ}

theorem keeps_logWord (log i : Nat) : Keeps f (logWord log i) := fun w _ _ h => by
  obtain ⟨_, _, _, -, rfl⟩ := logWord_eq_ok h
  rfl

theorem keeps_logFetchAndClear (hf : LogBlind f) (log i : Nat) : Keeps f (logFetchAndClear log i) :=
  fun w _ _ h => by
  unfold logFetchAndClear at h
  split at h
  · split at h
    · rw [← (Prod.mk.inj (Except.ok.inj h)).2]
      exact hf w _ w.dirty
    · exact absurd h nofun
  · exact absurd h nofun

theorem keeps_memoryRegionSetDirty (hf : LogBlind f) (mr : MemoryRegion) (addr size : Nat) :
    Keeps f (memoryRegionSetDirty mr addr size) :=
  fun w _ _ h => by
  rw [← (Prod.mk.inj (Except.ok.inj h)).2]
  exact hf w w.heap _

theorem keeps_gFree (hf : LogBlind f) (p : Nat) : Keeps f (gFree p) := fun w _ _ h => by
  rw [← (Prod.mk.inj (Except.ok.inj h)).2]
  split_ifs
  exacts [rfl, hf w _ w.dirty]

end LogBlind

/-- `f` reads neither the call counter nor the host mappings, all that a mapping or an
unmapping changes. -/
def MapBlind {γ : Type} (f : World → γ) : Prop :=
  ∀ w calls mapped, f { w with calls := calls, mapped := mapped } = f w

theorem mapBlind_accel : MapBlind World.accel := fun _ _ _ => rfl

theorem keeps_cpuPhysicalMemoryMap {γ : Type} {f : World → γ} (hf : MapBlind f) (addr len : Nat) :
    Keeps f (cpuPhysicalMemoryMap addr len) :=
  fun w _ _ h => by rw [← (Prod.mk.inj (Except.ok.inj h)).2]; exact hf w _ _

theorem keeps_cpuPhysicalMemoryUnmap {γ : Type} {f : World → γ} (hf : MapBlind f) (buffer : Nat) :
    Keeps f (cpuPhysicalMemoryUnmap buffer) :=
  fun w _ _ h => by rw [← (Prod.mk.inj (Except.ok.inj h)).2]; exact hf w w.calls _

/-! ### What the accelerator's commands and the allocator keep -/

/-- `f` reads none of what the accelerator's commands, the allocator and the harvests change:
the call counter, `errno`, the accelerator, the heap, the break and the reports. The host
mappings, the notifiers and the virtqueues' indices are such parts of the world. -/
def Blind {γ : Type} (f : World → γ) : Prop :=
  ∀ w calls errno accel heap brk dirty, f { w with
    calls := calls, errno := errno, accel := accel, heap := heap, brk := brk, dirty := dirty } = f w

section Blind

variable {γ : Type} {f : World → γ}

theorem Blind.logBlind (hf : Blind f) : LogBlind f := fun w heap dirty =>
  hf w w.calls w.errno w.accel heap w.brk dirty

theorem keeps_getErrno : Keeps f getErrno :=
  fun _ _ _ h => by rw [← (Prod.mk.inj (Except.ok.inj h)).2]

theorem keeps_ioctl (hf : Blind f) (cmd : VhostIoctl) : Keeps f (ioctl cmd) := fun w _ _ h => by
  unfold ioctl at h
  split_ifs at h <;> rw [← (Prod.mk.inj (Except.ok.inj h)).2]
  exacts [hf w _ w.errno _ w.heap w.brk w.dirty, hf w _ _ w.accel w.heap w.brk w.dirty]

theorem keeps_ioctlGetVringBase (hf : Blind f) (index : Nat) : Keeps f (ioctlGetVringBase index) :=
  fun w _ _ h => by
  unfold ioctlGetVringBase at h
  split_ifs at h <;> rw [← (Prod.mk.inj (Except.ok.inj h)).2]
  exacts [hf w _ w.errno w.accel w.heap w.brk w.dirty, hf w _ _ w.accel w.heap w.brk w.dirty]

theorem keeps_ioctlSetLogBase (hf : Blind f) (arg : LogBaseArg) : Keeps f (ioctlSetLogBase arg) :=
  fun w _ _ h => by
  unfold ioctlSetLogBase at h
  split at h
  · exact keeps_ioctl hf _ h
  · rw [← (Prod.mk.inj (Except.ok.inj h)).2]
    exact hf w _ _ w.accel w.heap w.brk w.dirty

theorem keeps_gMalloc0 (hf : Blind f) (n : Nat) : Keeps f (gMalloc0 n) := fun w _ _ h => by
  rw [← (Prod.mk.inj (Except.ok.inj h)).2]
  exact hf w w.calls w.errno w.accel _ _ w.dirty

end Blind

/-! Only `cpu_physical_memory_map` and `cpu_physical_memory_unmap` change the host mappings. -/

theorem blind_mapped : Blind World.mapped := fun _ _ _ _ _ _ _ => rfl

theorem blind_lastAvailIdx : Blind World.lastAvailIdx := fun _ _ _ _ _ _ _ => rfl

theorem blind_guestNotifiers : Blind World.guestNotifiers := fun _ _ _ _ _ _ _ => rfl

theorem mapBlind_lastAvailIdx : MapBlind World.lastAvailIdx := fun _ _ _ => rfl

theorem mapBlind_guestNotifiers : MapBlind World.guestNotifiers := fun _ _ _ => rfl

theorem keeps_mapped_setGuestNotifiers (assign : Bool) :
    Keeps World.mapped (setGuestNotifiers assign) := fun w _ _ h => by
  unfold setGuestNotifiers at h
  split_ifs at h <;> rw [← (Prod.mk.inj (Except.ok.inj h)).2]

theorem keeps_mapped_virtioQueueSetLastAvailIdx (n idx : Nat) :
    Keeps World.mapped (virtioQueueSetLastAvailIdx n idx) :=
  fun _ _ _ h => by rw [← (Prod.mk.inj (Except.ok.inj h)).2]

end Vhost
