import Mathlib.Tactic.TypeStar

/-!
# Sleeping for a resource

Tasks sleep until a resource they wait for is there. No wakeup is lost if, whenever a task
sleeps for a resource that is there, some task is about to wake it.

* `NoLostWakeup`: whoever sleeps for an available resource is owed a wake.
* `NoLostWakeup.step`: what a step has to respect to keep that.
* `NoLostWakeup.mono`, `NoLostWakeup.signal`: the two usual cases, a step that
  makes nothing available, and one that wakes the sleepers of what it makes available.
-/

namespace Mboot.Common

variable {σ τ ρ : Type*} {sleeps : σ → τ → ρ → Prop} {ready owed : σ → ρ → Prop} {s s' : σ}

/-- `sleeps s t r`: task `t` sleeps for `r`; `ready s r`: `r` is available; `owed s r`: some
    task is about to wake the sleepers for `r`. -/
def NoLostWakeup (sleeps : σ → τ → ρ → Prop) (ready owed : σ → ρ → Prop) (s : σ) : Prop :=
  ∀ t r, sleeps s t r → ready s r → owed s r

theorem NoLostWakeup.step (h : NoLostWakeup sleeps ready owed s)
    (hsleep : ∀ t r, sleeps s' t r → sleeps s t r ∨ ¬ ready s' r)
    (hready : ∀ r, ready s' r → ready s r ∨ owed s' r ∨ ∀ t, ¬ sleeps s' t r)
    (howed : ∀ r, owed s r → owed s' r ∨ ∀ t, ¬ sleeps s' t r) :
    NoLostWakeup sleeps ready owed s' := by
  intro t r hs hr
  obtain hold | hnot := hsleep t r hs
  · obtain hbefore | hnow | hnone := hready r hr
    · exact (howed r (h t r hold hbefore)).resolve_right fun hnone => hnone t hs
    · exact hnow
    · exact absurd hs (hnone t)
  · exact absurd hr hnot

theorem NoLostWakeup.mono (h : NoLostWakeup sleeps ready owed s)
    (hsleep : ∀ t r, sleeps s' t r → sleeps s t r) (hready : ∀ r, ready s' r → ready s r)
    (howed : ∀ r, owed s r → owed s' r) : NoLostWakeup sleeps ready owed s' :=
  h.step (fun t r hs => .inl (hsleep t r hs)) (fun r hr => .inl (hready r hr))
    fun r ho => .inl (howed r ho)

/-- The step makes at most `r₀` available or pays what is owed for it, and leaves nobody
    asleep for it. -/
theorem NoLostWakeup.signal (h : NoLostWakeup sleeps ready owed s) (r₀ : ρ)
    (hnone : ∀ t, ¬ sleeps s' t r₀) (hsleep : ∀ t r, sleeps s' t r → sleeps s t r)
    (hready : ∀ r, r ≠ r₀ → ready s' r → ready s r) (howed : ∀ r, r ≠ r₀ → owed s r → owed s' r) :
    NoLostWakeup sleeps ready owed s' := by
  refine h.step (fun t r hs => .inl (hsleep t r hs)) (fun r hr => ?_) fun r ho => ?_
  · by_cases hr₀ : r = r₀
    · subst hr₀
      exact .inr (.inr hnone)
    · exact .inl (hready r hr₀ hr)
  · by_cases hr₀ : r = r₀
    · subst hr₀
      exact .inr hnone
    · exact .inl (howed r hr₀ ho)

end Mboot.Common
