import Mathlib

/-!
# Loops over format strings

A string with a terminator is given by the bytes before the terminator, a cursor into it
by the bytes from the cursor on. A format string mixes literal bytes with directives: a
percent sign, some optional characters, and the byte that names a conversion.

`formatLoop` is the usual loop over such a string, with the effects of literals and
conversions as parameters. It steps over the byte that names the conversion whatever that
byte is, so a format that ends inside a directive takes the cursor behind the terminator;
the loop then has no result.

* `formatLoop_isSome_iff`: the loop has a result exactly for complete formats.
* `formatLoop_lit`, `formatLoop_conv`, `formatLoop_cut`: one round of the loop.
-/

namespace Mboot.Common

variable {σ τ : Type*}

/-- How the optional characters of a directive are read: `parse` gives what they say and
    the cursor behind them. -/
structure Directive (τ : Type*) where
  parse : List UInt8 → τ × List UInt8
  length_le : ∀ s, (parse s).2.length ≤ s.length

/-- The percent sign. -/
def percent : UInt8 := 0x25

/-- A format none of whose directives is cut off by the terminator. -/
inductive Complete (d : Directive τ) : List UInt8 → Prop
  | nil : Complete d []
  | lit {c : UInt8} {s : List UInt8} : c ≠ percent → Complete d s → Complete d (c :: s)
  | conv {s rest : List UInt8} {k : UInt8} :
    (d.parse s).2 = k :: rest → Complete d rest → Complete d (percent :: s)

theorem Directive.length_lt (d : Directive τ) {c k : UInt8} {s rest : List UInt8} {t : τ}
    (h : d.parse s = (t, k :: rest)) : rest.length < (c :: s).length := by
  have hle := d.length_le s
  rw [h, List.length_cons] at hle
  rw [List.length_cons]
  omega

/-- The loop over a format: `go` is tested before each round, `lit` is the effect of a
    literal, `conv` that of a conversion. -/
def formatLoop (d : Directive τ) (go : σ → Bool) (lit : UInt8 → σ → σ)
    (conv : τ → UInt8 → σ → σ) : List UInt8 → σ → Option σ
  | [], st => some st
  | c :: s, st =>
    if go st then
      if c = percent then
        match _h : d.parse s with
        | (_, []) => none
        | (t, k :: rest) => formatLoop d go lit conv rest (conv t k st)
      else formatLoop d go lit conv s (lit c st)
    else some st
termination_by s => s.length
decreasing_by
  · exact d.length_lt _h
  · exact Nat.lt_succ_self _

variable {d : Directive τ} {go : σ → Bool} {lit : UInt8 → σ → σ} {conv : τ → UInt8 → σ → σ}
  {s rest : List UInt8} {st : σ} {c k : UInt8} {t : τ}

@[simp] theorem formatLoop_nil : formatLoop d go lit conv [] st = some st := by
  rw [formatLoop]

theorem formatLoop_stop (hgo : go st = false) : formatLoop d go lit conv s st = some st := by
  cases s with
  | nil => rw [formatLoop]
  | cons c s => rw [formatLoop, hgo, if_neg Bool.false_ne_true]

theorem formatLoop_lit (hgo : go st = true) (hc : c ≠ percent) :
    formatLoop d go lit conv (c :: s) st = formatLoop d go lit conv s (lit c st) := by
  rw [formatLoop, if_pos hgo, if_neg hc]

theorem formatLoop_conv (hgo : go st = true) (hp : d.parse s = (t, k :: rest)) :
    formatLoop d go lit conv (percent :: s) st = formatLoop d go lit conv rest (conv t k st) := by
  rw [formatLoop, if_pos hgo, if_pos rfl]
  split
  · next h =>
    rw [hp] at h
    cases h
  · next h =>
    rw [hp] at h
    cases h
    rfl

theorem formatLoop_cut (hgo : go st = true) (hp : (d.parse s).2 = []) :
    formatLoop d go lit conv (percent :: s) st = none := by
  rw [formatLoop, if_pos hgo, if_pos rfl]
  split
  · rfl
  · next h =>
    rw [h] at hp
    cases hp

theorem complete_cons_iff (hc : c ≠ percent) : Complete d (c :: s) ↔ Complete d s := by
  constructor
  · intro h
    cases h with
    | lit _ h => exact h
    | conv _ _ => exact absurd rfl hc
  · exact .lit hc

theorem complete_percent_iff :
    Complete d (percent :: s) ↔ ∃ k rest, (d.parse s).2 = k :: rest ∧ Complete d rest := by
  constructor
  · intro h
    cases h with
    | lit hne _ => exact absurd rfl hne
    | conv hk h => exact ⟨_, _, hk, h⟩
  · rintro ⟨k, rest, hk, h⟩
    exact .conv hk h

/-- The loop has a result exactly if the format is complete. -/
theorem formatLoop_isSome_iff (hgo : ∀ st, go st = true) (s : List UInt8) (st : σ) :
    (formatLoop d go lit conv s st).isSome ↔ Complete d s := by
  induction hn : s.length using Nat.strong_induction_on generalizing s st with
  | _ n ih =>
    subst hn
    cases s with
    | nil => exact iff_of_true (by simp) .nil
    | cons c s =>
      by_cases hc : c = percent
      · subst hc
        rw [complete_percent_iff]
        rcases hp : d.parse s with ⟨t, _ | ⟨k, rest⟩⟩
        · rw [formatLoop_cut (hgo st) (by rw [hp])]
          exact iff_of_false (by simp) (by simp)
        · rw [formatLoop_conv (hgo st) hp, ih _ (d.length_lt hp) rest _ rfl]
          simp
      · rw [formatLoop_lit (hgo st) hc, complete_cons_iff hc]
        exact ih _ (Nat.lt_succ_self _) s _ rfl

end Mboot.Common
