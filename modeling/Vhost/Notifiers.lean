import Vhost.Lifecycle

/-!
# The host notifiers

`vhost_dev_enable_notifiers` has the virtio binding hand the host notifier of every virtqueue
to the accelerator, ring by ring. When one binding fails, the notifiers bound so far are unbound
again, from the last, each unbinding asserted. `vhost_dev_disable_notifiers` unbinds them all.

The unwinding stores the result of each unbinding in `r`, the variable the function returns. After
a failure at any ring but the first, the function therefore returns the result of the last
unbinding, `0`, as if every notifier were bound, while none is.

## Main definitions

* `bindHostNotifiers`, `unbindHostNotifiers` — the loop and its unwinding
* `vhostDevEnableNotifiers`, `vhostDevDisableNotifiers`

## Main results

* `vhostDevEnableNotifiers_spec` — what a call that returns leaves: every notifier bound and
  `0`, or the notifiers unbound up to the ring that failed, and a negative error only when that
  ring is the first
* `vhostDevDisableNotifiers_spec` — every ring's notifier is unbound
* `vhostDevDisableNotifiers_after_enable` — disabling after enabling, whatever the enabling
  returned, puts back notifiers that were unbound
-/

set_option autoImplicit false

namespace Vhost

/-- The unwinding loop `while (--i >= 0)` of `vhost_dev_enable_notifiers`: the host notifiers
of the rings below `i` are unbound again, each asserted. Each call overwrites `r`, so the loop
leaves the result of the last one, or the `r` it was given when it makes none. -/
def unbindHostNotifiers (r : Int) : Nat → VhostM Int
  | 0 => return r
  | i + 1 => do
    let r ← setHostNotifier i false
    unless 0 ≤ r do throw .notifiers
    unbindHostNotifiers r i

/-- The loop of `vhost_dev_enable_notifiers` from the ring `i` on, for `n` rings: the index and
error of the first binding that fails. -/
def bindHostNotifiers (i : Nat) : Nat → VhostM (Option (Nat × Int))
  | 0 => return none
  | n + 1 => do
    let r ← setHostNotifier i true
    if r < 0 then return some (i, r)
    bindHostNotifiers (i + 1) n

/-- `vhost_dev_enable_notifiers`. -/
def vhostDevEnableNotifiers (hdev : VhostDev) : VhostM Int := do
  if !(← getEnv).hasSetHostNotifier then return -(enosys : Int)
  match ← bindHostNotifiers 0 hdev.vqs.length with
  | none => return 0
  | some (i, r) => unbindHostNotifiers r i

/-- One turn of the loop of `vhost_dev_disable_notifiers`: the host notifier of ring `i` is
unbound, asserted. -/
def unsetHostNotifier (i : Nat) : VhostM Unit := do
  let r ← setHostNotifier i false
  unless 0 ≤ r do throw .notifiers

/-- `vhost_dev_disable_notifiers`. -/
def vhostDevDisableNotifiers (hdev : VhostDev) : VhostM Unit :=
  (List.range hdev.vqs.length).forM unsetHostNotifier

/-- The binding loop from ring `i`, for `m` rings, binds the rings from `i` up to some ring `k`,
and stops there: at the end, or at the ring `k` whose binding failed, with its negative error. -/
theorem bindHostNotifiers_spec : ∀ {i m : Nat} {res : Option (Nat × Int)} {w w' : World},
    bindHostNotifiers i m w = .ok (res, w') →
      ∃ k, i ≤ k ∧ k ≤ i + m ∧
        (∀ j, w'.hostNotifiers j = if i ≤ j ∧ j < k then true else w.hostNotifiers j) ∧
        (res = none ∧ k = i + m ∨ ∃ r, res = some (k, r) ∧ r < 0 ∧ k < i + m)
  | i, 0, _, w, _, h => by
    obtain ⟨rfl, rfl⟩ := pure_eq_ok.1 h
    exact ⟨i, le_rfl, le_rfl, fun j => by simp, .inl ⟨rfl, rfl⟩⟩
  | i, m + 1, _, w, _, h => by
    obtain ⟨r, w₁, h₁, h⟩ := bind_eq_ok.1 h
    rcases setHostNotifier_spec h₁ with ⟨rfl, hn⟩ | ⟨hr, hn⟩
    · rw [if_neg (Int.lt_irrefl 0), pure_bind] at h
      obtain ⟨k, hik, hkm, hN, hres⟩ := bindHostNotifiers_spec h
      refine ⟨k, by omega, by omega, fun j => ?_, by rwa [Nat.add_right_comm] at hres⟩
      rw [hN, hn]
      by_cases hj : j = i
      · subst hj
        simp [show j < k by omega]
      · simp only [Function.update_noteq hj]
        split_ifs <;> first | rfl | omega
    · rw [if_pos hr, pure_eq_ok] at h
      obtain ⟨rfl, rfl⟩ := h
      exact ⟨i, le_rfl, by omega, fun j => by simp [hn], .inr ⟨r, rfl, hr, by omega⟩⟩

/-- The unwinding from ring `k` unbinds the rings below `k`. It returns the `r` it was given when
there is no ring to unbind, and otherwise the result of the last unbinding, asserted, so `0`. -/
theorem unbindHostNotifiers_spec : ∀ {r : Int} {k : Nat} {r' : Int} {w w' : World},
    unbindHostNotifiers r k w = .ok (r', w') →
      (if k = 0 then r' = r else r' = 0) ∧
        ∀ j, w'.hostNotifiers j = if j < k then false else w.hostNotifiers j
  | r, 0, _, w, _, h => by
    obtain ⟨rfl, rfl⟩ := pure_eq_ok.1 h
    exact ⟨rfl, fun j => by simp⟩
  | r, k + 1, _, w, _, h => by
    obtain ⟨r₁, w₁, h₁, h⟩ := bind_eq_ok.1 h
    rcases setHostNotifier_spec h₁ with ⟨rfl, hn⟩ | ⟨hr, -⟩
    · rw [if_pos (Int.le_refl 0), pure_bind] at h
      obtain ⟨hr', hN⟩ := unbindHostNotifiers_spec h
      refine ⟨by split_ifs at hr' <;> simpa using hr', fun j => ?_⟩
      rw [hN, hn]
      by_cases hj : j = k
      · subst hj
        simp
      · simp only [Function.update_noteq hj]
        split_ifs <;> first | rfl | omega
    · rw [if_neg (Int.not_le.2 hr)] at h
      obtain ⟨_, _, h, -⟩ := bind_eq_ok.1 h
      exact absurd h throw_ne_ok

/-- A `vhost_dev_enable_notifiers` that returns has either found no hook in the binding and
returned `-ENOSYS`, or bound every ring's notifier and returned `0`, or failed to bind ring `k`
and unbound the rings below it again. In the last case it returns a negative error only when
`k` is the first ring; after a failure at any later ring it returns `0`. -/
theorem vhostDevEnableNotifiers_spec {hdev : VhostDev} {w w' : World} {r : Int}
    (h : vhostDevEnableNotifiers hdev w = .ok (r, w')) :
    (w.env.hasSetHostNotifier = false ∧ r = -(enosys : Int) ∧ w' = w) ∨
      (r = 0 ∧ ∀ j, w'.hostNotifiers j = if j < hdev.vqs.length then true else w.hostNotifiers j) ∨
      ∃ k < hdev.vqs.length, (if k = 0 then r < 0 else r = 0) ∧
        ∀ j, w'.hostNotifiers j = if j < k then false else w.hostNotifiers j := by
  unfold vhostDevEnableNotifiers at h
  obtain ⟨_, w₁, h₁, h⟩ := bind_eq_ok.1 h
  obtain ⟨rfl, rfl⟩ := getEnv_eq_ok.1 h₁
  split_ifs at h with hs
  · obtain ⟨rfl, rfl⟩ := pure_eq_ok.1 h
    exact .inl ⟨by simpa using hs, rfl, rfl⟩
  rw [pure_bind] at h
  obtain ⟨res, w₂, h₂, h⟩ := bind_eq_ok.1 h
  obtain ⟨k, -, -, hN, ⟨rfl, rfl⟩ | ⟨r₁, rfl, hr₁, hkn⟩⟩ := bindHostNotifiers_spec h₂
  · obtain ⟨rfl, rfl⟩ := pure_eq_ok.1 h
    exact .inr (.inl ⟨rfl, fun j => by simp [hN]⟩)
  · obtain ⟨hr, hN'⟩ := unbindHostNotifiers_spec h
    refine .inr (.inr ⟨k, by omega, ?_, fun j => ?_⟩)
    · split_ifs at hr ⊢
      · exact hr ▸ hr₁
      · exact hr
    · rw [hN', hN]
      by_cases hj : j < k <;> simp [hj]

/-- A binding whose second call fails with `EIO`: the host notifier of ring 1 cannot be bound. -/
def ringOneFails : Env where
  errno n := if n = 1 then 5 else 0
  map _ addr len := (addr, len)
  features := 0
  queue _ := ⟨0, 0, 0, 0, 0, 0, 0, 0, 0, 0, 0⟩
  hasSetGuestNotifiers := true
  hasSetHostNotifier := true

/-- A device with two virtqueues. -/
def twoRingDev : VhostDev := ⟨[], [], [default, default], 0, 0, 0, false, false⟩

/-- On two rings, the binding of ring 1 fails: ring 0 is unbound again, and the call returns `0`,
as a call that bound both rings does. -/
theorem vhostDevEnableNotifiers_spec_ringOneFails :
    ∃ w', vhostDevEnableNotifiers twoRingDev (World.init ringOneFails) = .ok (0, w') ∧
      ∃ k < twoRingDev.vqs.length, (if k = 0 then (0 : Int) < 0 else (0 : Int) = 0) ∧
        ∀ j, w'.hostNotifiers j = if j < k then false else (World.init ringOneFails).hostNotifiers j :=
  have h : vhostDevEnableNotifiers twoRingDev (World.init ringOneFails) = .ok (0,
      { World.init ringOneFails with
        calls := 3
        hostNotifiers := Function.update (Function.update (fun _ => false) 0 true) 0 false }) := rfl
  ⟨_, h, ((vhostDevEnableNotifiers_spec h).resolve_left fun h => absurd h.1 (by decide)).resolve_left
    fun h => absurd (h.2 1) (by decide)⟩

/-- `vhost_dev_enable_notifiers` leaves the notifiers of rings the device does not have alone. -/
theorem vhostDevEnableNotifiers_frame {hdev : VhostDev} {w w' : World} {r : Int}
    (h : vhostDevEnableNotifiers hdev w = .ok (r, w')) :
    ∀ j, hdev.vqs.length ≤ j → w'.hostNotifiers j = w.hostNotifiers j := fun j hj => by
  unfold vhostDevEnableNotifiers at h
  obtain ⟨_, w₁, h₁, h⟩ := bind_eq_ok.1 h
  obtain ⟨rfl, rfl⟩ := getEnv_eq_ok.1 h₁
  split_ifs at h
  · rw [(pure_eq_ok.1 h).2]
  rw [pure_bind] at h
  obtain ⟨res, w₂, h₂, h⟩ := bind_eq_ok.1 h
  obtain ⟨k, -, hk, hN, hres⟩ := bindHostNotifiers_spec h₂
  have h₂j : w₂.hostNotifiers j = w.hostNotifiers j := by
    rw [hN, if_neg (by omega)]
  rcases hres with ⟨rfl, -⟩ | ⟨r₁, rfl, -, -⟩
  · rw [← (pure_eq_ok.1 h).2, h₂j]
  · rw [(unbindHostNotifiers_spec h).2 j, if_neg (by omega), h₂j]

/-- The unbinding loop over the rings `l` unbinds each of them, asserted. -/
theorem forM_unsetHostNotifier : ∀ {l : List Nat} {w w' : World},
    l.forM unsetHostNotifier w = .ok ((), w') →
      ∀ j, w'.hostNotifiers j = if j ∈ l then false else w.hostNotifiers j
  | [], _, _, h, j => by
    obtain ⟨-, rfl⟩ := pure_eq_ok.1 h
    simp
  | i :: l, w, w', h, j => by
    obtain ⟨_, w₁, h₁, h⟩ := bind_eq_ok.1 h
    obtain ⟨r, w₂, h₂, h₁⟩ := bind_eq_ok.1 h₁
    rcases setHostNotifier_spec h₂ with ⟨rfl, hn⟩ | ⟨hr, -⟩
    · obtain ⟨-, rfl⟩ := pure_eq_ok.1 (by simpa only [if_pos (Int.le_refl 0)] using h₁)
      rw [forM_unsetHostNotifier h j, hn]
      by_cases hj : j = i
      · subst hj
        simp
      · simp [hj, Function.update_noteq hj]
    · rw [if_neg (Int.not_le.2 hr)] at h₁
      exact absurd h₁ throw_ne_ok

/-- A `vhost_dev_disable_notifiers` that returns has unbound every ring's notifier. -/
theorem vhostDevDisableNotifiers_spec {hdev : VhostDev} {w w' : World}
    (h : vhostDevDisableNotifiers hdev w = .ok ((), w')) :
    ∀ j, w'.hostNotifiers j = if j < hdev.vqs.length then false else w.hostNotifiers j := fun j => by
  simp only [forM_unsetHostNotifier h j, List.mem_range]

/-- Disabling the notifiers after enabling them, whatever the enabling returned, leaves the
notifiers as they were before, when the rings' notifiers were unbound then. -/
theorem vhostDevDisableNotifiers_after_enable {hdev : VhostDev} {w w₁ w₂ : World} {r : Int}
    (hoff : ∀ j < hdev.vqs.length, w.hostNotifiers j = false)
    (h₁ : vhostDevEnableNotifiers hdev w = .ok (r, w₁))
    (h₂ : vhostDevDisableNotifiers hdev w₁ = .ok ((), w₂)) : w₂.hostNotifiers = w.hostNotifiers := by
  funext j
  rw [vhostDevDisableNotifiers_spec h₂ j]
  split_ifs with hj
  · exact (hoff j hj).symm
  · exact vhostDevEnableNotifiers_frame h₁ j (Nat.not_lt.1 hj)

/-- On two rings, with the binding of ring 1 failing, disabling after the enabling restores the
notifiers of the new device. -/
theorem vhostDevDisableNotifiers_after_enable_ringOneFails :
    ∃ w₁ w₂, vhostDevEnableNotifiers twoRingDev (World.init ringOneFails) = .ok (0, w₁) ∧
      vhostDevDisableNotifiers twoRingDev w₁ = .ok ((), w₂) ∧
      w₂.hostNotifiers = (World.init ringOneFails).hostNotifiers :=
  have h₁ : vhostDevEnableNotifiers twoRingDev (World.init ringOneFails) = .ok (0,
      { World.init ringOneFails with
        calls := 3
        hostNotifiers := Function.update (Function.update (fun _ => false) 0 true) 0 false }) := rfl
  ⟨_, _, h₁, rfl, vhostDevDisableNotifiers_after_enable (fun _ _ => rfl) h₁ rfl⟩

end Vhost
