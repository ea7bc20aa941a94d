import Mathlib.Data.List.Infix

namespace topview.framing

/-- An incremental splitter of a stream into items. It takes the first item
    off a list when the whole of that item is there. Taking an item consumes
    something, and more input behind it does not change what is taken. -/
structure Splitter (A B : Type) where
  next : List A → Option (B × List A)
  next_shrinks : ∀ {input item rest}, next input = some (item, rest) → rest.length < input.length
  next_append : ∀ {input item rest} (more : List A), next input = some (item, rest) →
    next (input ++ more) = some (item, rest ++ more)

/-- `items` are the first items of `input`, and `rest` is what follows them. -/
inductive Splitter.Reaches {A B : Type} (splitter : Splitter A B) :
    List A → List B → List A → Prop where
  | refl (input : List A) : Reaches splitter input [] input
  | head {input rest final : List A} {item : B} {items : List B}
      (hnext : splitter.next input = some (item, rest))
      (htail : Reaches splitter rest items final) : Reaches splitter input (item :: items) final

theorem Splitter.Reaches.trans {A B : Type} {splitter : Splitter A B}
    {input middle final : List A} {first second : List B}
    (hfirst : splitter.Reaches input first middle) (hsecond : splitter.Reaches middle second final) :
    splitter.Reaches input (first ++ second) final := by
  induction hfirst with
  | refl => exact hsecond
  | head hnext _ ih => exact .head hnext (ih hsecond)

theorem Splitter.Reaches.snoc {A B : Type} {splitter : Splitter A B}
    {input middle final : List A} {items : List B} {item : B}
    (hreach : splitter.Reaches input items middle)
    (hnext : splitter.next middle = some (item, final)) :
    splitter.Reaches input (items ++ [item]) final :=
  hreach.trans (.head hnext (.refl final))

/-- Input that arrives later only extends the rest. -/
theorem Splitter.Reaches.append {A B : Type} {splitter : Splitter A B}
    {input rest : List A} {items : List B}
    (hreach : splitter.Reaches input items rest) (more : List A) :
    splitter.Reaches (input ++ more) items (rest ++ more) := by
  induction hreach with
  | refl => exact .refl _
  | head hnext _ ih => exact .head (splitter.next_append more hnext) ih

theorem Splitter.Reaches.length_le {A B : Type} {splitter : Splitter A B}
    {input rest : List A} {items : List B} (hreach : splitter.Reaches input items rest) :
    rest.length ≤ input.length := by
  induction hreach with
  | refl => exact Nat.le_refl _
  | head hnext _ ih =>
    have := splitter.next_shrinks hnext
    omega

/-- Two splits of one input follow the same path, so one of them continues
    the other. -/
theorem Splitter.Reaches.continues {A B : Type} {splitter : Splitter A B}
    {input shorter longer : List A} {first second : List B}
    (hfirst : splitter.Reaches input first shorter) (hsecond : splitter.Reaches input second longer)
    (hend : splitter.next longer = none) :
    ∃ items, splitter.Reaches shorter items longer ∧ second = first ++ items := by
  induction hfirst generalizing second with
  | refl => exact ⟨second, hsecond, rfl⟩
  | head hnext _ ih =>
    cases hsecond with
    | refl => simp [hnext] at hend
    | head hother htail =>
      rw [hnext, Option.some.injEq, Prod.mk.injEq] at hother
      obtain ⟨rfl, rfl⟩ := hother
      obtain ⟨items, hreach, rfl⟩ := ih htail
      exact ⟨items, hreach, rfl⟩

/-- Split with a bound on the number of items. -/
def Splitter.splitWithin {A B : Type} (splitter : Splitter A B) :
    Nat → List A → List B × List A
  | 0, input => ([], input)
  | bound + 1, input =>
    match splitter.next input with
    | none => ([], input)
    | some (item, rest) =>
      let (items, final) := splitter.splitWithin bound rest
      (item :: items, final)

/-- Take items off the input until no complete item is left. Every item
    shrinks the input, so its length bounds their number. -/
def Splitter.split {A B : Type} (splitter : Splitter A B) (input : List A) : List B × List A :=
  splitter.splitWithin input.length input

private theorem splitWithin_spec {A B : Type} (splitter : Splitter A B) {bound : Nat}
    {input : List A} (hbound : input.length ≤ bound) :
    splitter.Reaches input (splitter.splitWithin bound input).1
        (splitter.splitWithin bound input).2 ∧
      splitter.next (splitter.splitWithin bound input).2 = none := by
  induction bound generalizing input with
  | zero =>
    refine ⟨.refl _, ?_⟩
    cases hnext : splitter.next input with
    | none => exact hnext
    | some taken =>
      have := splitter.next_shrinks hnext
      omega
  | succ bound ih =>
    cases hnext : splitter.next input with
    | none => simpa [Splitter.splitWithin, hnext] using Splitter.Reaches.refl input
    | some taken =>
      have hshrinks := splitter.next_shrinks hnext
      have hrest : taken.2.length ≤ bound := by omega
      obtain ⟨hreach, hend⟩ := ih hrest
      simpa only [Splitter.splitWithin, hnext] using And.intro (.head hnext hreach) hend

theorem Splitter.split_reaches {A B : Type} (splitter : Splitter A B) (input : List A) :
    splitter.Reaches input (splitter.split input).1 (splitter.split input).2 :=
  (splitWithin_spec splitter (Nat.le_refl _)).1

theorem Splitter.next_split_snd {A B : Type} (splitter : Splitter A B) (input : List A) :
    splitter.next (splitter.split input).2 = none :=
  (splitWithin_spec splitter (Nat.le_refl _)).2

/-- A split that reached an incomplete item is the whole split. -/
theorem Splitter.Reaches.split_eq_of_next {A B : Type} {splitter : Splitter A B}
    {input rest : List A} {items : List B} (hreach : splitter.Reaches input items rest)
    (hend : splitter.next rest = none) : splitter.split input = (items, rest) := by
  obtain ⟨others, hothers, heq⟩ := (splitter.split_reaches input).continues hreach hend
  generalize hsplit : splitter.split input = result at hothers heq
  obtain ⟨first, final⟩ := result
  cases hothers with
  | refl => exact Prod.ext (by simpa using heq.symm) rfl
  | head hnext _ =>
    have hstop := splitter.next_split_snd input
    simp [hsplit, hnext] at hstop

/-- Splitting may stop anywhere on the way and go on from there. -/
theorem Splitter.Reaches.split_eq {A B : Type} {splitter : Splitter A B}
    {input rest : List A} {items : List B} (hreach : splitter.Reaches input items rest) :
    splitter.split input = (items ++ (splitter.split rest).1, (splitter.split rest).2) :=
  (hreach.trans (splitter.split_reaches rest)).split_eq_of_next (splitter.next_split_snd rest)

/-- Splitting does not depend on where the input is cut. Splitting the first
    part and then its rest followed by the second part is splitting both. -/
theorem Splitter.split_append {A B : Type} (splitter : Splitter A B) (first second : List A) :
    splitter.split (first ++ second) =
      ((splitter.split first).1 ++ (splitter.split ((splitter.split first).2 ++ second)).1,
        (splitter.split ((splitter.split first).2 ++ second)).2) :=
  ((splitter.split_reaches first).append second).split_eq

/-- `encode` writes one complete item that the splitter reads back, whatever
    follows it. -/
structure Splitter.Encodes {A B C : Type} (splitter : Splitter A B) (encode : C → List A)
    (item : C → B) : Prop where
  next_encode : ∀ (value : C) (more : List A),
    splitter.next (encode value ++ more) = some (item value, more)

theorem Splitter.Encodes.reaches {A B C : Type} {splitter : Splitter A B} {encode : C → List A}
    {item : C → B} (hencodes : splitter.Encodes encode item) (values : List C) (more : List A) :
    splitter.Reaches (values.flatMap encode ++ more) (values.map item) more := by
  induction values with
  | nil => exact .refl more
  | cons value values ih =>
    rw [List.flatMap_cons, List.append_assoc]
    exact .head (hencodes.next_encode value _) ih

/-- A proper prefix of an encoded item holds no complete item. -/
theorem Splitter.Encodes.next_eq_none {A B C : Type} {splitter : Splitter A B}
    {encode : C → List A} {item : C → B} (hencodes : splitter.Encodes encode item)
    {value : C} {front : List A} (hfront : front <+: encode value) (hne : front ≠ encode value) :
    splitter.next front = none := by
  obtain ⟨back, hback⟩ := hfront
  cases hnext : splitter.next front with
  | none => rfl
  | some taken =>
    have hwhole := hencodes.next_encode value []
    rw [List.append_nil, ← hback, splitter.next_append back hnext, Option.some.injEq,
      Prod.mk.injEq, List.append_eq_nil_iff] at hwhole
    exact absurd (by simpa [hwhole.2.2] using hback) hne

end topview.framing
