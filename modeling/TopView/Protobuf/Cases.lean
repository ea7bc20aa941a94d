import TopView.Protobuf.Message
import TopView.Protobuf.Utf8

open topview.wire

namespace topview.protobuf

/-- `VerifyUTF8`, of a text that lies at some address. -/
def verify_utf8 (address : List UInt8 → Nat) (text : List UInt8) : Bool :=
  is_structurally_valid_utf8 (address text) text

/-- The case of a `switch` for a string. -/
def string_case {Impl : Type} (address : List UInt8 → Nat) (set : Impl → List UInt8 → Impl) :
    Handler Impl :=
  fun impl ptr ctx => do
    let (ctx, ptr, str) ← inline_greedy_string_parse ptr ctx
    if verify_utf8 address str then return (ctx, ptr, set impl str) else throw .nullptr

/-- The case of a `switch` for a `uint32`. -/
def uint32_case {Impl : Type} (set : Impl → Nat → Impl) : Handler Impl :=
  fun impl ptr ctx => do
    let (ptr, value) ← read_varint32 ctx.memory ptr
    return (ctx, ptr, set impl value)

/-- What a string is to a message. The last one counts, and all of them are
    checked. -/
def absorb_string {Impl : Type} (address : List UInt8 → Nat) (set : Impl → List UInt8 → Impl)
    (impl : Impl) : Record → Option Impl
  | .length_delimited _ text => if verify_utf8 address text then some (set impl text) else none
  | _ => none

/-- What a number is to a field that is a `uint32`. -/
def absorb_uint32 {Impl : Type} (set : Impl → Nat → Impl) (impl : Impl) : Record → Option Impl
  | .varint _ value => some (set impl (value % 2 ^ 32))
  | _ => none

theorem verify_utf8_iff {address : List UInt8 → Nat} {text : List UInt8} :
    verify_utf8 address text = true ↔ IsUtf8 text :=
  is_structurally_valid_utf8_eq_true_iff (address text) text

/-- A fold that checks every item and moves on with it does so for the whole
    list. -/
theorem foldlM_eq_some_iff {State Item : Type} {step : State → Item → Option State}
    {check : Item → Prop} {move : State → Item → State}
    (hstep : ∀ state item next, step state item = some next ↔ check item ∧ next = move state item)
    {state final : State} {items : List Item} :
    items.foldlM step state = some final ↔
      (∀ item ∈ items, check item) ∧ final = items.foldl move state := by
  induction items generalizing state with
  | nil =>
    constructor
    · rintro ⟨⟩
      exact ⟨by simp, rfl⟩
    · rintro ⟨_, rfl⟩
      rfl
  | cons item items ih =>
    rw [List.foldlM_cons, Option.bind_eq_bind, Option.bind_eq_some_iff, List.forall_mem_cons,
      List.foldl_cons]
    constructor
    · rintro ⟨next, hnext, hrest⟩
      obtain ⟨hcheck, rfl⟩ := (hstep state item next).mp hnext
      obtain ⟨hchecks, hfinal⟩ := ih.mp hrest
      exact ⟨⟨hcheck, hchecks⟩, hfinal⟩
    · rintro ⟨⟨hcheck, hchecks⟩, hfinal⟩
      exact ⟨_, (hstep state item _).mpr ⟨hcheck, rfl⟩, ih.mpr ⟨hchecks, hfinal⟩⟩

variable {Impl : Type}

theorem string_case_handles (address : List UInt8 → Nat) (set : Impl → List UInt8 → Impl) {number : Nat}
    (hnumber : 0 < number) (rounds : Nat) :
    Handles (absorb_string address set) rounds (number * 8 + 2) (string_case address set) := by
  intro impl ctx start depth encoded rest behind hreads hdrop _ hptr _
  rw [string_case]
  rcases inline_greedy_string_parse_cases hreads hdrop hptr with
    hnull | ⟨size, bytes, left, rfl, hsize, hok⟩
  · rw [hnull]
    exact .nullptr
  · rw [hok]
    dsimp only [bind, Except.bind]
    cases hverify : verify_utf8 address bytes with
    | false => exact .nullptr
    | true =>
      rw [← List.append_assoc size] at hdrop
      have habsorb : absorb_string address set impl (.length_delimited number bytes) =
          some (set impl bytes) := by
        rw [absorb_string, if_pos hverify]
      exact .ok (.of_drop hreads hdrop rfl (.plain (.length_delimited hnumber hsize)) habsorb)

theorem string_case_accepts {address : List UInt8 → Nat} {set : Impl → List UInt8 → Impl}
    {tag depth : Nat} {payload : List UInt8} {record : Record} {impl read : Impl}
    (hpayload : Payload maxSize depth tag payload record)
    (habsorb : absorb_string address set impl record = some read) (rounds : Nat) :
    Accepts (string_case address set) rounds depth payload impl read := by
  intro ctx ptr left hreads hptr _
  cases hpayload with
  | group => simp [absorb_string] at habsorb
  | plain hplain =>
    cases hplain with
    | @length_delimited _ size bytes _ hsize =>
      rw [absorb_string, Option.ite_none_right_eq_some, Option.some.injEq] at habsorb
      obtain ⟨hverify, rfl⟩ := habsorb
      obtain ⟨ptr', hok, hleft⟩ := inline_greedy_string_parse_eq hsize hreads hptr
      refine ⟨ctx, ptr', ?_, hleft⟩
      rw [string_case, hok]
      exact if_pos hverify
    | _ => simp [absorb_string] at habsorb

theorem uint32_case_handles (set : Impl → Nat → Impl) {number : Nat} (hnumber : 0 < number) (rounds : Nat) :
    Handles (absorb_uint32 set) rounds (number * 8) (uint32_case set) := by
  intro impl ctx start depth encoded rest behind hreads hdrop _ hptr _
  have hroom := hreads.room hdrop hptr
  have hbehind := drop_of_append hdrop
  rw [uint32_case, read_varint32_eq (by rw [hbehind]; omega), hbehind]
  rcases varint_read_cases 10 32 behind (start + encoded.length) with
    hnull | ⟨varint, more, rfl, hvarint, hlength, hok⟩
  · rw [hnull]
    exact .nullptr
  · rw [hok]
    have hvalue : groupValue varint % 2 ^ 64 % 2 ^ 32 = groupValue varint % 2 ^ 32 :=
      Nat.mod_mod_of_dvd _ (by decide)
    have habsorb : absorb_uint32 set impl (.varint number (groupValue varint % 2 ^ 64)) =
        some (set impl (groupValue varint % 2 ^ 32)) := by
      rw [absorb_uint32, hvalue]
    exact .ok (.of_drop hreads hdrop rfl (.plain (.varint hnumber hvarint hlength)) habsorb)

theorem uint32_case_accepts {set : Impl → Nat → Impl} {tag depth : Nat} {payload : List UInt8}
    {record : Record} {impl read : Impl} (hpayload : Payload maxSize depth tag payload record)
    (habsorb : absorb_uint32 set impl record = some read) (rounds : Nat) :
    Accepts (uint32_case set) rounds depth payload impl read := by
  intro ctx ptr left hreads hptr _
  have hroom := hreads.room_le hptr
  cases hpayload with
  | group => simp [absorb_uint32] at habsorb
  | plain hplain =>
    cases hplain with
    | @varint _ encoded _ hvarint hlength =>
      rw [absorb_uint32, Option.some.injEq, Nat.mod_mod_of_dvd _ (by decide)] at habsorb
      obtain ⟨⟨behind, hdrop⟩, hleft⟩ := hreads.drop_eq
      refine ⟨ctx, _, ?_, hleft⟩
      rw [uint32_case, read_varint32_eq (by omega), hdrop, varint_read_eq hvarint hlength, ← habsorb]
      rfl
    | _ => simp [absorb_uint32] at habsorb

end topview.protobuf
