import Mathlib.Tactic.Common

namespace topview.transition

/-- A `while (true)` loop with a bound on its iterations. An iteration breaks,
    or outputs a value and goes on from a new state. -/
def loop {S O : Type} (body : S → Option (O × S)) : Nat → S → Option (List O × S)
  | 0, _ => none
  | fuel + 1, state =>
    match body state with
    | none => some ([], state)
    | some (output, next) => (loop body fuel next).map fun result =>
        (output :: result.1, result.2)

/-- Consecutive iterations from one state to another, with their outputs. -/
inductive Path {S O : Type} (body : S → Option (O × S)) : S → List O → S → Prop where
  | nil (state : S) : Path body state [] state
  | cons {state next final : S} {output : O} {outputs : List O}
      (hbody : body state = some (output, next)) (tail : Path body next outputs final) :
      Path body state (output :: outputs) final

theorem Path.append {S O : Type} {body : S → Option (O × S)} {start middle final : S}
    {first second : List O} (hfirst : Path body start first middle)
    (hsecond : Path body middle second final) : Path body start (first ++ second) final := by
  induction hfirst with
  | nil => exact hsecond
  | cons hbody _ ih => exact .cons hbody (ih hsecond)

/-- What every iteration keeps holds wherever the iterations lead. -/
theorem Path.invariant {S O : Type} {body : S → Option (O × S)} {start final : S}
    {outputs : List O} (path : Path body start outputs final) (Inv : S → Prop)
    (hstep : ∀ state output next, Inv state → body state = some (output, next) → Inv next)
    (hstart : Inv start) : Inv final := by
  induction path with
  | nil => exact hstart
  | cons hbody _ ih => exact ih (hstep _ _ _ hstart hbody)

/-- A path that ends in a break is what the loop does with enough fuel. -/
theorem Path.loop_eq {S O : Type} {body : S → Option (O × S)} {start final : S}
    {outputs : List O} (path : Path body start outputs final) (hbreak : body final = none)
    {fuel : Nat} (hfuel : outputs.length < fuel) : loop body fuel start = some (outputs, final) := by
  induction path generalizing fuel with
  | nil =>
    cases fuel with
    | zero => omega
    | succ fuel => simp only [loop, hbreak]
  | cons hbody _ ih =>
    cases fuel with
    | zero => omega
    | succ fuel =>
      rw [List.length_cons] at hfuel
      have htail := ih hbreak (show _ < fuel by omega)
      simp only [loop, hbody, htail, Option.map_some]

/-- A loop that returns has followed a path to a break. -/
theorem path_of_loop_eq {S O : Type} {body : S → Option (O × S)} {start final : S}
    {outputs : List O} {fuel : Nat} (hloop : loop body fuel start = some (outputs, final)) :
    Path body start outputs final ∧ body final = none := by
  induction fuel generalizing start outputs with
  | zero => cases hloop
  | succ fuel ih =>
    cases hbody : body start with
    | none =>
      simp only [loop, hbody, Option.some.injEq, Prod.mk.injEq] at hloop
      obtain ⟨rfl, rfl⟩ := hloop
      exact ⟨.nil start, hbody⟩
    | some result =>
      simp only [loop, hbody, Option.map_eq_some_iff, Prod.exists, Prod.mk.injEq] at hloop
      obtain ⟨later, last, htail, rfl, rfl⟩ := hloop
      obtain ⟨hpath, hbreak⟩ := ih htail
      exact ⟨.cons hbody hpath, hbreak⟩

/-- When every iteration keeps `Inv` and decreases a measure, the loop comes
    to a break within that measure. -/
theorem exists_path_of_decreasing {S O : Type} {body : S → Option (O × S)} (Inv : S → Prop)
    (measure : S → Nat)
    (hstep : ∀ state output next, Inv state → body state = some (output, next) →
      Inv next ∧ measure next < measure state)
    {start : S} (hstart : Inv start) :
    ∃ outputs final, Path body start outputs final ∧ body final = none ∧
      outputs.length ≤ measure start := by
  generalize hbound : measure start = bound
  induction bound using Nat.strongRecOn generalizing start with
  | ind bound ih =>
    cases hbody : body start with
    | none => exact ⟨[], start, .nil start, hbody, Nat.zero_le _⟩
    | some result =>
      obtain ⟨output, next⟩ := result
      obtain ⟨hnext, hless⟩ := hstep start output next hstart hbody
      obtain ⟨outputs, final, hpath, hbreak, hlength⟩ := ih _ (hbound ▸ hless) hnext rfl
      refine ⟨output :: outputs, final, .cons hbody hpath, hbreak, ?_⟩
      rw [List.length_cons]
      omega

/-- A loop that can always go on never returns. -/
theorem loop_eq_none_of_goes_on {S O : Type} {body : S → Option (O × S)} (Inv : S → Prop)
    (hstep : ∀ state, Inv state → ∃ output next, body state = some (output, next) ∧ Inv next)
    {start : S} (hstart : Inv start) (fuel : Nat) : loop body fuel start = none := by
  induction fuel generalizing start with
  | zero => rfl
  | succ fuel ih =>
    obtain ⟨output, next, hbody, hnext⟩ := hstep start hstart
    simp only [loop, hbody, ih hnext, Option.map_none]

/-- A loop that leads to one that never returns does not return either. -/
theorem Path.loop_eq_none {S O : Type} {body : S → Option (O × S)} {start final : S}
    {outputs : List O} (path : Path body start outputs final)
    (hnever : ∀ fuel, loop body fuel final = none) (fuel : Nat) : loop body fuel start = none := by
  induction path generalizing fuel with
  | nil => exact hnever fuel
  | cons hbody _ ih =>
    cases fuel with
    | zero => rfl
    | succ fuel => simp only [loop, hbody, ih hnever fuel, Option.map_none]

end topview.transition
