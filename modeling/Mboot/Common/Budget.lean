import Mathlib

/-!
# Programs that need room

A program changes a state and may stop for good when a resource of the state is
used up; `room` measures what is left of it. `Spends room c x s Q` says of the
program `x`, started in `s`, that

* it returns if there are `c` units of room,
* whenever it returns, `Q` holds of the result and it has used at most `c`.

The rules follow the program: `Spends.pure`, `Spends.bind`, `Spends.modify`,
`Spends.forM_range` for a counted loop, and `Spends.mono`; `Spends.result` runs it.
-/

namespace Mboot.Common

variable {σ α β : Type} {room : σ → ℕ}

/-- What the program `x` does in the state `s` with `c` units of room. -/
structure Spends (room : σ → ℕ) (c : ℕ) (x : StateT σ Option α) (s : σ) (Q : α → σ → Prop) :
    Prop where
  returns : c ≤ room s → (x s).isSome
  post : ∀ a t, x s = some (a, t) → Q a t ∧ room s ≤ room t + c

theorem Spends.mono {c c' : ℕ} {x : StateT σ Option α} {s : σ} {Q Q' : α → σ → Prop}
    (h : Spends room c x s Q) (hc : c ≤ c') (hQ : ∀ a t, Q a t → Q' a t) :
    Spends room c' x s Q' where
  returns hroom := h.returns (by omega)
  post a t hx := by
    obtain ⟨hq, hr⟩ := h.post a t hx
    exact ⟨hQ a t hq, by omega⟩

theorem Spends.imp {c : ℕ} {x : StateT σ Option α} {s : σ} {Q Q' : α → σ → Prop}
    (h : Spends room c x s Q) (hQ : ∀ a t, Q a t → Q' a t) : Spends room c x s Q' :=
  h.mono le_rfl hQ

/-- The result is the one of the call. -/
theorem Spends.self {c : ℕ} {x : StateT σ Option α} {s : σ} {Q : α → σ → Prop}
    (h : Spends room c x s Q) : Spends room c x s fun a t => x s = some (a, t) ∧ Q a t where
  returns := h.returns
  post a t hx := ⟨⟨hx, (h.post a t hx).1⟩, (h.post a t hx).2⟩

/-- With enough room there is a result. -/
theorem Spends.result {c : ℕ} {x : StateT σ Option α} {s : σ} {Q : α → σ → Prop}
    (h : Spends room c x s Q) (hroom : c ≤ room s) :
    ∃ a t, x s = some (a, t) ∧ Q a t ∧ room s ≤ room t + c := by
  obtain ⟨⟨a, t⟩, hx⟩ := Option.isSome_iff_exists.mp (h.returns hroom)
  exact ⟨a, t, hx, h.post a t hx⟩

theorem Spends.pure {a : α} {s : σ} {Q : α → σ → Prop} (h : Q a s) :
    Spends room 0 (Pure.pure a) s Q where
  returns _ := rfl
  post b t hx := by
    cases hx
    exact ⟨h, le_rfl⟩

theorem Spends.modify {f : σ → σ} {s : σ} {Q : PUnit → σ → Prop} (hroom : room (f s) = room s)
    (h : Q () (f s)) : Spends room 0 (modify f) s Q where
  returns _ := rfl
  post b t hx := by
    cases hx
    exact ⟨h, hroom.ge⟩

theorem Spends.bind {c d : ℕ} {x : StateT σ Option α} {f : α → StateT σ Option β} {s : σ}
    {Q : α → σ → Prop} {R : β → σ → Prop} (hx : Spends room c x s Q)
    (hf : ∀ a t, Q a t → Spends room d (f a) t R) : Spends room (c + d) (x >>= f) s R where
  returns hroom := by
    obtain ⟨a, t, hrun, hq, hr⟩ := hx.result (by omega)
    have hbind : (x >>= f) s = f a t := by
      change (x s).bind _ = _
      rw [hrun]
      rfl
    rw [hbind]
    exact (hf a t hq).returns (by omega)
  post b u hrun := by
    obtain ⟨⟨a, t⟩, hrun, hcont⟩ := Option.bind_eq_some_iff.mp hrun
    obtain ⟨hq, hr⟩ := hx.post a t hrun
    obtain ⟨hR, hr'⟩ := (hf a t hq).post b u hcont
    exact ⟨hR, by omega⟩

/-- The rest of the program needs no room. -/
theorem Spends.andThen {c : ℕ} {x : StateT σ Option α} {f : α → StateT σ Option β} {s : σ}
    {Q : α → σ → Prop} {R : β → σ → Prop} (hx : Spends room c x s Q)
    (hf : ∀ a t, Q a t → Spends room 0 (f a) t R) : Spends room c (x >>= f) s R :=
  hx.bind hf

/-- A counted loop with an invariant indexed by the counter. -/
theorem Spends.forM_range {I : ℕ → σ → Prop} {c : ℕ → ℕ} {body : ℕ → StateT σ Option PUnit}
    (n : ℕ) {s : σ} (h0 : I 0 s)
    (hbody : ∀ i < n, ∀ t, I i t → Spends room (c i) (body i) t fun _ u => I (i + 1) u) :
    Spends room (∑ i ∈ Finset.range n, c i) (forM (List.range n) body) s fun _ t => I n t := by
  induction n with
  | zero => exact Spends.pure h0
  | succ n ih =>
    rw [List.range_succ, List.forM_append, Finset.sum_range_succ]
    refine (ih fun i hi => hbody i (by omega)).bind fun _ t ht => ?_
    simpa using hbody n (by omega) t ht

end Mboot.Common
