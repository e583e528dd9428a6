import Mathlib

/-!
# Runs of labelled transition systems

A transition system is a relation `step : σ → α → σ → Prop`; a run is a finite
sequence of steps, recorded with its labels. The rules here turn a property of
one step into a property of every run:

* `Run.invariant`: what holds at the start and is preserved by every step
  holds at the end of every run.
* `Run.of_restrict`: a run all of whose steps meet a condition is a run.
* `run_of_foldlM`: a transition function that accepts a list of labels one
  after the other has a run with these labels.
* `exists_run`: such a run, found by evaluation, to a state with a decidable property.
* `always_iff`: if `P` survives exactly the steps that meet a condition, it holds
  in every state of a run exactly when every step of the run meets it.
* `always_iff_of_invariant`: the same with an invariant that the steps keep which
  meet the condition, and that implies `P`.
* `exists_foldlM`: a transition function that accepts every label of a list
  where `P` holds, and keeps `P`, accepts the list.
* `simulates_foldlM`: the same with a total function that it simulates.
-/

namespace Mboot.Common

variable {σ α : Type*}

/-- `Run step s as t`: the labels `as` lead from `s` to `t`. -/
inductive Run (step : σ → α → σ → Prop) : σ → List α → σ → Prop
  | nil (s : σ) : Run step s [] s
  | snoc {s t u : σ} {as : List α} {a : α} : Run step s as t → step t a u → Run step s (as ++ [a]) u

/-- The steps of `step` taken from a state in which `ok` accepts the label. -/
def restrict (step : σ → α → σ → Prop) (ok : σ → α → Prop) : σ → α → σ → Prop :=
  fun s a t => ok s a ∧ step s a t

/-- `s` is reached by some run from `s₀`. -/
def Reachable (step : σ → α → σ → Prop) (s₀ s : σ) : Prop := ∃ as, Run step s₀ as s

variable {step : σ → α → σ → Prop}

theorem Run.invariant {P : σ → Prop} {s t : σ} {as : List α} (h : Run step s as t) (h0 : P s)
    (hstep : ∀ u a v, P u → step u a v → P v) : P t := by
  induction h with
  | nil => exact h0
  | snoc _ hs ih => exact hstep _ _ _ ih hs

theorem Run.single {s t : σ} {a : α} (h : step s a t) : Run step s [a] t := by
  simpa using Run.snoc (Run.nil s) h

theorem Run.trans {s t u : σ} {as bs : List α} (h : Run step s as t) (h' : Run step t bs u) :
    Run step s (as ++ bs) u := by
  induction h' with
  | nil => simpa using h
  | snoc _ hs ih =>
    rw [← List.append_assoc]
    exact ih.snoc hs

theorem Run.mono {step' : σ → α → σ → Prop} (hle : ∀ s a t, step s a t → step' s a t) {s t : σ}
    {as : List α} (h : Run step s as t) : Run step' s as t := by
  induction h with
  | nil => exact Run.nil _
  | snoc _ hs ih => exact ih.snoc (hle _ _ _ hs)

theorem Run.of_restrict {ok : σ → α → Prop} {s t : σ} {as : List α}
    (h : Run (restrict step ok) s as t) : Run step s as t :=
  h.mono fun _ _ _ hs => hs.2

/-- The invariant `I` implies `P` and survives the steps that meet `ok`, and a step
    after which `P` still holds meets `ok`: on the way along `as`, `P` holds in every
    state if and only if every step meets `ok`. -/
theorem always_iff_of_invariant {P I : σ → Prop} {ok : σ → α → Prop} {s₀ : σ} (h0 : I s₀)
    (hP : ∀ s, I s → P s) (hkeep : ∀ s a s', I s → step s a s' → ok s a → I s')
    (hbreak : ∀ s a s', I s → step s a s' → P s' → ok s a) (as : List α) :
    (∀ bs s, bs <+: as → Run step s₀ bs s → P s) ↔
      ∀ bs a s s', bs ++ [a] <+: as → Run step s₀ bs s → step s a s' → ok s a := by
  -- Either side gives the invariant in every state on the way.
  have hI : ∀ (_ : ∀ bs a s s', bs ++ [a] <+: as → Run step s₀ bs s → I s → step s a s' → ok s a)
      bs s, bs <+: as → Run step s₀ bs s → I s := by
    intro hok bs s hpre hrun
    induction hrun with
    | nil => exact h0
    | snoc hrun hs ih =>
      have hbefore := ih ((List.prefix_append _ _).trans hpre)
      exact hkeep _ _ _ hbefore hs (hok _ _ _ _ hpre hrun hbefore hs)
  constructor
  · intro hall bs a s s' hpre hrun hs
    have hok : ∀ bs a s s', bs ++ [a] <+: as → Run step s₀ bs s → I s → step s a s' → ok s a :=
      fun bs a s s' hpre hrun hs hstep =>
        hbreak s a s' hs hstep (hall _ s' hpre (hrun.snoc hstep))
    exact hok bs a s s' hpre hrun
      (hI hok bs s ((List.prefix_append bs [a]).trans hpre) hrun) hs
  · intro hok bs s hpre hrun
    exact hP s (hI (fun bs a s s' hpre hrun _ hs => hok bs a s s' hpre hrun hs) bs s hpre hrun)

/-- `P` survives exactly the steps that meet `ok`: on the way along `as`, it holds
    in every state if and only if every step meets `ok`. -/
theorem always_iff {P : σ → Prop} {ok : σ → α → Prop} {s₀ : σ} (h0 : P s₀)
    (hstep : ∀ bs s a s', Run step s₀ bs s → P s → step s a s' → (P s' ↔ ok s a)) (as : List α) :
    (∀ bs s, bs <+: as → Run step s₀ bs s → P s) ↔
      ∀ bs a s s', bs ++ [a] <+: as → Run step s₀ bs s → step s a s' → ok s a := by
  apply always_iff_of_invariant (I := fun s => P s ∧ ∃ bs, Run step s₀ bs s)
    ⟨h0, [], Run.nil s₀⟩ (fun _ h => h.1)
  · rintro s a s' ⟨hP, bs, hrun⟩ hs hok
    exact ⟨(hstep bs s a s' hrun hP hs).mpr hok, _, hrun.snoc hs⟩
  · rintro s a s' ⟨hP, bs, hrun⟩ hs hP'
    exact (hstep bs s a s' hrun hP hs).mp hP'

/-- The step relation of a partial transition function. -/
def Steps (f : σ → α → Option σ) : σ → α → σ → Prop := fun s a t => f s a = some t

theorem run_of_foldlM {f : σ → α → Option σ} {s t : σ} {as : List α}
    (h : as.foldlM f s = some t) : Run (Steps f) s as t := by
  induction as generalizing s with
  | nil => cases h; exact Run.nil _
  | cons a as ih =>
    rw [List.foldlM_cons, Option.bind_eq_bind, Option.bind_eq_some_iff] at h
    obtain ⟨u, hu, ht⟩ := h
    exact (Run.single hu).trans (ih ht)

theorem foldlM_of_run {f : σ → α → Option σ} {s t : σ} {as : List α} (h : Run (Steps f) s as t) :
    as.foldlM f s = some t := by
  induction h with
  | nil => rfl
  | snoc _ hs ih =>
    rw [List.foldlM_append, ih, Option.bind_eq_bind, Option.bind_some, List.foldlM_cons, hs]
    rfl

/-- A total transition function has a run with any labels. -/
theorem run_foldl (f : σ → α → σ) (s : σ) (as : List α) :
    Run (fun s a t => f s a = t) s as (as.foldl f s) := by
  induction as using List.reverseRecOn with
  | nil => exact Run.nil s
  | append_singleton as a ih =>
    rw [List.foldl_append]
    exact ih.snoc rfl

/-- The same for the steps that meet a decidable condition. -/
theorem run_restrict_of_foldlM {f : σ → α → Option σ} {ok : σ → α → Prop}
    [∀ s a, Decidable (ok s a)] {s t : σ} {as : List α}
    (h : as.foldlM (fun s a => if ok s a then f s a else none) s = some t) :
    Run (restrict (Steps f) ok) s as t := by
  apply (run_of_foldlM h).mono
  intro s a t hs
  exact Option.ite_none_right_eq_some.mp hs

/-- A run that evaluation finds, to a state with the property `P`. -/
theorem exists_run {f : σ → α → Option σ} {P : σ → Prop} [DecidablePred P] {s : σ} {as : List α}
    (h : ((as.foldlM f s).any fun t => decide (P t)) = true) :
    ∃ t, Run (Steps f) s as t ∧ P t := by
  obtain ⟨t, ht, hP⟩ := (Option.any_eq_true ..).mp h
  exact ⟨t, run_of_foldlM ht, of_decide_eq_true hP⟩

theorem exists_run_restrict {f : σ → α → Option σ} {ok : σ → α → Prop}
    [∀ s a, Decidable (ok s a)] {P : σ → Prop} [DecidablePred P] {s : σ} {as : List α}
    (h : ((as.foldlM (fun s a => if ok s a then f s a else none) s).any fun t =>
      decide (P t)) = true) : ∃ t, Run (restrict (Steps f) ok) s as t ∧ P t := by
  obtain ⟨t, ht, hP⟩ := (Option.any_eq_true ..).mp h
  exact ⟨t, run_restrict_of_foldlM ht, of_decide_eq_true hP⟩

/-- Every step on the way of such a run meets the condition. -/
theorem ok_of_foldlM {f : σ → α → Option σ} {ok : σ → α → Prop} [∀ s a, Decidable (ok s a)]
    {s₀ t : σ} {as : List α}
    (h : as.foldlM (fun s a => if ok s a then f s a else none) s₀ = some t) {bs : List α} {a : α}
    {s : σ} (hpre : bs ++ [a] <+: as) (hrun : Run (Steps f) s₀ bs s) : ok s a := by
  obtain ⟨cs, rfl⟩ := hpre
  rw [List.foldlM_append, List.foldlM_append, Option.bind_eq_bind, Option.bind_eq_some_iff] at h
  obtain ⟨u, hu, -⟩ := h
  obtain ⟨v, hv, hlast⟩ := Option.bind_eq_some_iff.mp hu
  have hvs : v = s := Option.some.inj
    ((foldlM_of_run (run_restrict_of_foldlM hv).of_restrict).symm.trans (foldlM_of_run hrun))
  subst hvs
  rw [List.foldlM_cons, Option.bind_eq_bind, Option.bind_eq_some_iff] at hlast
  obtain ⟨w, hw, -⟩ := hlast
  split_ifs at hw with hok
  exact hok

theorem simulates_foldlM {τ : Type*} {f : σ → α → Option σ} {g : τ → α → τ} {R : σ → τ → Prop}
    {as : List α} (hstep : ∀ a ∈ as, ∀ s t, R s t → ∃ s', f s a = some s' ∧ R s' (g t a)) {s : σ}
    {t : τ} (h : R s t) : ∃ s', as.foldlM f s = some s' ∧ R s' (as.foldl g t) := by
  induction as generalizing s t with
  | nil => exact ⟨s, rfl, h⟩
  | cons a as ih =>
    obtain ⟨s', hs', h'⟩ := hstep a (by simp) s t h
    obtain ⟨s'', hs'', h''⟩ := ih (fun b hb => hstep b (List.mem_cons_of_mem a hb)) h'
    refine ⟨s'', ?_, h''⟩
    rw [List.foldlM_cons, hs']
    exact hs''

theorem exists_foldlM {f : σ → α → Option σ} {P : σ → Prop} {as : List α}
    (hstep : ∀ a ∈ as, ∀ s, P s → ∃ t, f s a = some t ∧ P t) {s : σ} (h : P s) :
    ∃ t, as.foldlM f s = some t ∧ P t :=
  simulates_foldlM (g := fun t _ => t) (R := fun s (_ : Unit) => P s) (t := ())
    (fun a ha s _ hs => hstep a ha s hs) h

theorem Reachable.refl (s : σ) : Reachable step s s := ⟨[], Run.nil s⟩

theorem Reachable.trans {s t u : σ} (h : Reachable step s t) (h' : Reachable step t u) :
    Reachable step s u := by
  obtain ⟨as, hr⟩ := h
  obtain ⟨bs, hr'⟩ := h'
  exact ⟨as ++ bs, hr.trans hr'⟩

theorem Reachable.snoc {s₀ s t : σ} {a : α} (h : Reachable step s₀ s) (hs : step s a t) :
    Reachable step s₀ t := by
  obtain ⟨as, hr⟩ := h
  exact ⟨as ++ [a], hr.snoc hs⟩

theorem Reachable.invariant {P : σ → Prop} {s₀ s : σ} (h : Reachable step s₀ s) (h0 : P s₀)
    (hstep : ∀ u a v, P u → step u a v → P v) : P s := by
  obtain ⟨as, hr⟩ := h
  exact hr.invariant h0 hstep

end Mboot.Common
