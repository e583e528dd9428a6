import Mathlib

/-!
# Mutual exclusion

Processes `ι` stand at places `π`, and `inside` says which places belong to the
critical section. `Exclusive inside place locked`: at most one process is
inside, and `locked` says whether there is one. The rules follow one process:

* `Exclusive.enter`: it goes in while the lock is free.
* `Exclusive.leave`: it goes out.
* `Exclusive.move`: it stays on its side.
-/

namespace Mboot.Common

variable {ι π : Type*}

structure Exclusive (inside : π → Prop) (place : ι → π) (locked : Prop) : Prop where
  unique : ∀ t u, inside (place t) → inside (place u) → t = u
  locked_iff : locked ↔ ∃ t, inside (place t)

variable [DecidableEq ι] {inside : π → Prop} {place : ι → π} {locked locked' : Prop} {t : ι} {p : π}

theorem Exclusive.move (h : Exclusive inside place locked) (hp : inside p ↔ inside (place t)) :
    Exclusive inside (Function.update place t p) locked := by
  have hside : ∀ u, inside (Function.update place t p u) ↔ inside (place u) := by
    intro u
    by_cases hu : u = t
    · subst hu
      rw [Function.update_self]
      exact hp
    · rw [Function.update_of_ne hu]
  constructor
  · intro u v hu hv
    exact h.unique u v ((hside u).mp hu) ((hside v).mp hv)
  · rw [h.locked_iff]
    exact exists_congr fun u => (hside u).symm

theorem Exclusive.enter (h : Exclusive inside place locked) (hfree : ¬ locked) (hp : inside p)
    (hlocked : locked') : Exclusive inside (Function.update place t p) locked' := by
  have honly : ∀ u, inside (Function.update place t p u) → u = t := by
    intro u hu
    by_contra hne
    rw [Function.update_of_ne hne] at hu
    exact hfree (h.locked_iff.mpr ⟨u, hu⟩)
  constructor
  · intro u v hu hv
    rw [honly u hu, honly v hv]
  · refine iff_of_true hlocked ⟨t, ?_⟩
    rwa [Function.update_self]

theorem Exclusive.leave (h : Exclusive inside place locked) (ht : inside (place t))
    (hp : ¬ inside p) (hfree : ¬ locked') :
    Exclusive inside (Function.update place t p) locked' := by
  have hnone : ∀ u, ¬ inside (Function.update place t p u) := by
    intro u hu
    by_cases hut : u = t
    · subst hut
      rw [Function.update_self] at hu
      exact hp hu
    · rw [Function.update_of_ne hut] at hu
      exact hut (h.unique u t hu ht)
  exact ⟨fun u _ hu => absurd hu (hnone u), iff_of_false hfree fun ⟨u, hu⟩ => hnone u hu⟩

end Mboot.Common
