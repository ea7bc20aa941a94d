import TopView.Protobuf.Reading

open topview.wire

namespace topview.protobuf

/-- The memory that the pointers of a stream point into, the caller's array or
    the stream's own `buffer_`. -/
inductive Chunk
  | flat
  | buffer
  deriving DecidableEq, Repr

/-- `ParseContext` for an array. Pointers are offsets in the chunk. -/
structure ParseContext where
  flat : List UInt8
  buffer : List UInt8
  chunk : Chunk
  limit_end : Int
  buffer_end : Nat
  /-- `next_chunk_` is `buffer_`, and not null. -/
  next_chunk : Bool
  limit : Int
  last_tag_minus_1 : Nat
  depth : Int
  deriving Repr

namespace ParseContext

def memory (ctx : ParseContext) : List UInt8 :=
  match ctx.chunk with
  | .flat => ctx.flat
  | .buffer => ctx.buffer

/-- The constructor, with `InitFrom` on the array. -/
def init_from (depth : Int) (flat : List UInt8) : ParseContext × Nat :=
  if kSlopBytes < flat.length then
    ({ flat := flat, buffer := List.replicate (2 * kSlopBytes) 0, chunk := .flat,
       limit_end := (flat.length - kSlopBytes : Nat), buffer_end := flat.length - kSlopBytes,
       next_chunk := true, limit := kSlopBytes, last_tag_minus_1 := 0, depth := depth }, 0)
  else
    ({ flat := flat, buffer := flat ++ List.replicate (2 * kSlopBytes - flat.length) 0,
       chunk := .buffer, limit_end := flat.length, buffer_end := flat.length,
       next_chunk := false, limit := 0, last_tag_minus_1 := 0, depth := depth }, 0)

/-- `SetLastTag`. -/
def set_last_tag (ctx : ParseContext) (tag : Nat) : ParseContext :=
  { ctx with last_tag_minus_1 := minus_1 32 tag }

@[simp] theorem set_last_tag_last (ctx : ParseContext) (tag : Nat) :
    (ctx.set_last_tag tag).last_tag_minus_1 = minus_1 32 tag := rfl

/-- `ConsumeEndGroup`. -/
def consume_end_group (ctx : ParseContext) (start_tag : Nat) : Bool × ParseContext :=
  (decide (ctx.last_tag_minus_1 = start_tag), { ctx with last_tag_minus_1 := 0 })

/-- `EndedAtLimit`. -/
def ended_at_limit (ctx : ParseContext) : Bool := ctx.last_tag_minus_1 = 0

/-- `SetEndOfStream`. -/
def set_end_of_stream (ctx : ParseContext) : ParseContext := { ctx with last_tag_minus_1 := 1 }

/-- `NextBuffer`. No chunk comes after an array. -/
def next_buffer (ctx : ParseContext) : Except Failure (Option (ParseContext × Nat)) := do
  if ctx.next_chunk then
    let slop ← load_bytes ctx.memory ctx.buffer_end kSlopBytes
    return some ({ ctx with
      buffer := slop ++ ctx.buffer.drop kSlopBytes, chunk := .buffer, next_chunk := false,
      buffer_end := kSlopBytes }, 0)
  else return none

/-- `Next`. -/
def next (ctx : ParseContext) : Except Failure (ParseContext × Nat) := do
  match ← ctx.next_buffer with
  | none => throw .nullptr
  | some (ctx, p) =>
    let limit := ctx.limit - ((ctx.buffer_end : Int) - p)
    return ({ ctx with limit := limit, limit_end := ctx.buffer_end + min 0 limit }, p)

/-- The loop of `DoneFallback`. -/
def flip : Nat → ParseContext → Int → Except Failure (ParseContext × Nat × Bool)
  | 0, _, _ => .error .rounds
  | rounds + 1, ctx, overrun => do
    match ← ctx.next_buffer with
    | none =>
      if overrun ≠ 0 then throw .nullptr
      else
        let ctx := { ctx with limit_end := ctx.buffer_end }
        return (ctx.set_end_of_stream, ctx.buffer_end, true)
    | some (ctx, p) =>
      let limit := ctx.limit - ((ctx.buffer_end : Int) - p)
      let overrun := p + overrun - ctx.buffer_end
      if 0 ≤ overrun then flip rounds { ctx with limit := limit } overrun
      else
        return ({ ctx with limit := limit, limit_end := ctx.buffer_end + min 0 limit },
          (overrun + ctx.buffer_end).toNat, false)

/-- `DoneFallback`. -/
def done_fallback (ctx : ParseContext) (overrun : Int) : Except Failure (ParseContext × Nat × Bool) :=
  if ctx.limit < overrun then .error .nullptr else flip 2 ctx overrun

/-- `DoneWithCheck`. -/
def done (ctx : ParseContext) (ptr : Nat) : Except Failure (ParseContext × Nat × Bool) :=
  if ptr < ctx.limit_end then .ok (ctx, ptr, false)
  else
    let overrun : Int := (ptr : Int) - ctx.buffer_end
    if overrun = ctx.limit then
      if 0 < overrun ∧ ctx.next_chunk = false then .error .nullptr else .ok (ctx, ptr, true)
    else ctx.done_fallback overrun

/-- The loop of `AppendSize`, with `ReadStringFallback`'s string. -/
def append_size : Nat → ParseContext → Nat → Nat → List UInt8 →
    Except Failure (ParseContext × Nat × List UInt8)
  | 0, _, _, _, _ => .error .rounds
  | rounds + 1, ctx, ptr, size, str => do
    let chunk_size := ctx.buffer_end + kSlopBytes - ptr
    if ctx.next_chunk = false then throw .nullptr
    else
      let head ← load_bytes ctx.memory ptr chunk_size
      if ctx.limit ≤ kSlopBytes then throw .nullptr
      else
        let (ctx, ptr) ← ctx.next
        let ptr := ptr + kSlopBytes
        let size := size - chunk_size
        if ctx.buffer_end + kSlopBytes - ptr < size then
          append_size rounds ctx ptr size (str ++ head)
        else
          let tail ← load_bytes ctx.memory ptr size
          return (ctx, ptr + size, str ++ head ++ tail)

/-- `ReadString`. -/
def read_string (ctx : ParseContext) (ptr size : Nat) :
    Except Failure (ParseContext × Nat × List UInt8) := do
  if (size : Int) ≤ ctx.buffer_end + kSlopBytes - ptr then
    let str ← load_bytes ctx.memory ptr size
    return (ctx, ptr + size, str)
  else ctx.append_size 2 ptr size []

/-- The stream stands in the caller's array. Its last bytes come once more
    in the buffer. -/
structure InFlat (ctx : ParseContext) : Prop where
  chunk_eq : ctx.chunk = .flat
  length_eq : ctx.flat.length = ctx.buffer_end + kSlopBytes
  buffer_eq : ctx.buffer = List.replicate (2 * kSlopBytes) 0
  limit_end_eq : ctx.limit_end = ctx.buffer_end
  limit_eq : ctx.limit = kSlopBytes
  next_chunk_eq : ctx.next_chunk = true

/-- The stream stands in the buffer, which holds the end of the array. -/
structure InBuffer (ctx : ParseContext) : Prop where
  chunk_eq : ctx.chunk = .buffer
  buffer_end_le : ctx.buffer_end ≤ kSlopBytes
  length_eq : ctx.buffer.length = 2 * kSlopBytes
  limit_end_eq : ctx.limit_end = ctx.buffer_end
  limit_eq : ctx.limit = 0
  next_chunk_eq : ctx.next_chunk = false

/-- `ptr` stands in front of `rest`, the bytes of the array that are still to
    be read. -/
inductive Stands (ctx : ParseContext) (ptr : Nat) (rest : List UInt8) : Prop
  | flat (hflat : ctx.InFlat) (hdrop : ctx.flat.drop ptr = rest)
      (hptr : ptr + rest.length = ctx.flat.length)
  | buffer (hbuffer : ctx.InBuffer)
      (hdrop : ctx.buffer.drop ptr = rest ++ List.replicate (2 * kSlopBytes - ctx.buffer_end) 0)
      (hptr : ptr + rest.length = ctx.buffer_end)

/-- `ptr` was moved past the end of the array, into the zeros behind it. -/
def Overrun (ctx : ParseContext) (ptr : Nat) : Prop := ctx.InBuffer ∧ ctx.buffer_end < ptr

theorem InFlat.memory_eq {ctx : ParseContext} (hflat : ctx.InFlat) : ctx.memory = ctx.flat := by
  rw [memory, hflat.chunk_eq]

theorem InBuffer.memory_eq {ctx : ParseContext} (hbuffer : ctx.InBuffer) :
    ctx.memory = ctx.buffer := by
  rw [memory, hbuffer.chunk_eq]

/-- Sixteen bytes behind the buffer's end can always be read. -/
theorem Stands.slop_le {ctx : ParseContext} {ptr : Nat} {rest : List UInt8}
    (hstands : ctx.Stands ptr rest) : ctx.buffer_end + kSlopBytes ≤ ctx.memory.length := by
  cases hstands with
  | flat hflat _ _ => rw [hflat.memory_eq, hflat.length_eq]
  | buffer hbuffer _ _ =>
    have hend := hbuffer.buffer_end_le
    rw [hbuffer.memory_eq, hbuffer.length_eq]
    omega

theorem Stands.ptr_le {ctx : ParseContext} {ptr : Nat} {rest : List UInt8}
    (hstands : ctx.Stands ptr rest) : ptr + rest.length ≤ ctx.buffer_end + kSlopBytes := by
  cases hstands with
  | flat hflat _ hptr => rw [hptr, hflat.length_eq]
  | buffer _ _ hptr => omega

/-- What is read from the memory at `ptr` was still to be read, or it goes
    past the end. -/
theorem Stands.advance {ctx : ParseContext} {ptr : Nat} {rest bytes behind : List UInt8}
    (hstands : ctx.Stands ptr rest) (hdrop : ctx.memory.drop ptr = bytes ++ behind) :
    (∃ left, rest = bytes ++ left ∧ ctx.Stands (ptr + bytes.length) left) ∨
      ctx.Overrun (ptr + bytes.length) := by
  cases hstands with
  | flat hflat hrest hptr =>
    rw [hflat.memory_eq, hrest] at hdrop
    subst hdrop
    rw [List.length_append] at hptr
    refine Or.inl ⟨behind, rfl, .flat hflat ?_ (by omega)⟩
    rw [← List.drop_drop, hrest, List.drop_left]
  | buffer hbuffer hrest hptr =>
    rw [hbuffer.memory_eq, hrest] at hdrop
    by_cases hlength : bytes.length ≤ rest.length
    · left
      obtain ⟨left, rfl⟩ : bytes <+: rest :=
        List.prefix_of_prefix_length_le ⟨behind, hdrop.symm⟩ (List.prefix_append _ _) hlength
      rw [List.length_append] at hptr
      refine ⟨left, rfl, .buffer hbuffer ?_ (by omega)⟩
      rw [← List.drop_drop, hrest, List.append_assoc, List.drop_left]
    · exact Or.inr ⟨hbuffer, by omega⟩

/-- Bytes that are still to be read stand in the memory at `ptr`. -/
theorem Stands.drop_eq {ctx : ParseContext} {ptr : Nat} {bytes left : List UInt8}
    (hstands : ctx.Stands ptr (bytes ++ left)) :
    (∃ behind, ctx.memory.drop ptr = bytes ++ behind) ∧ ctx.Stands (ptr + bytes.length) left := by
  cases hstands with
  | flat hflat hrest hptr =>
    rw [List.length_append] at hptr
    refine ⟨⟨left, by rw [hflat.memory_eq, hrest]⟩, .flat hflat ?_ (by omega)⟩
    rw [← List.drop_drop, hrest, List.drop_left]
  | buffer hbuffer hrest hptr =>
    rw [List.length_append] at hptr
    refine ⟨⟨left ++ List.replicate (2 * kSlopBytes - ctx.buffer_end) 0, ?_⟩, .buffer hbuffer ?_ (by omega)⟩
    · rw [hbuffer.memory_eq, hrest, List.append_assoc]
    · rw [← List.drop_drop, hrest, List.append_assoc, List.drop_left]

/-- The depth and the last tag say nothing about the position. -/
theorem Stands.update {ctx : ParseContext} {ptr : Nat} {rest : List UInt8}
    (hstands : ctx.Stands ptr rest) (last : Nat) (depth : Int) :
    { ctx with last_tag_minus_1 := last, depth := depth }.Stands ptr rest := by
  cases hstands with
  | flat hflat hdrop hptr =>
    exact .flat ⟨hflat.chunk_eq, hflat.length_eq, hflat.buffer_eq, hflat.limit_end_eq, hflat.limit_eq,
      hflat.next_chunk_eq⟩ hdrop hptr
  | buffer hbuffer hdrop hptr =>
    exact .buffer ⟨hbuffer.chunk_eq, hbuffer.buffer_end_le, hbuffer.length_eq, hbuffer.limit_end_eq,
      hbuffer.limit_eq, hbuffer.next_chunk_eq⟩ hdrop hptr

theorem Overrun.update {ctx : ParseContext} {ptr : Nat} (hoverrun : ctx.Overrun ptr) (last : Nat)
    (depth : Int) : { ctx with last_tag_minus_1 := last, depth := depth }.Overrun ptr := by
  obtain ⟨hbuffer, hptr⟩ := hoverrun
  exact ⟨⟨hbuffer.chunk_eq, hbuffer.buffer_end_le, hbuffer.length_eq, hbuffer.limit_end_eq,
    hbuffer.limit_eq, hbuffer.next_chunk_eq⟩, hptr⟩

theorem init_from_stands (depth : Int) (flat : List UInt8) :
    (init_from depth flat).1.Stands (init_from depth flat).2 flat := by
  unfold init_from
  by_cases hlarge : kSlopBytes < flat.length
  · rw [if_pos hlarge]
    exact .flat ⟨rfl, by dsimp only; omega, rfl, rfl, rfl, rfl⟩ rfl (Nat.zero_add _)
  · rw [if_neg hlarge]
    refine .buffer ⟨rfl, by dsimp only; omega, ?_, rfl, rfl, rfl⟩ rfl (Nat.zero_add _)
    dsimp only
    rw [List.length_append, List.length_replicate]
    omega

@[simp] theorem init_from_depth (depth : Int) (flat : List UInt8) :
    (init_from depth flat).1.depth = depth := by
  unfold init_from
  split <;> rfl

@[simp] theorem init_from_last_tag (depth : Int) (flat : List UInt8) :
    (init_from depth flat).1.last_tag_minus_1 = 0 := by
  unfold init_from
  split <;> rfl

/-- At the end of the array the parse is done. -/
theorem Stands.done_nil {ctx : ParseContext} {ptr : Nat} (hstands : ctx.Stands ptr []) :
    ctx.done ptr = .ok (ctx, ptr, true) := by
  cases hstands with
  | flat hflat _ hptr =>
    have hlength := hflat.length_eq
    rw [List.length_nil] at hptr
    rw [done, if_neg (by rw [hflat.limit_end_eq]; omega), if_pos (by rw [hflat.limit_eq]; omega),
      if_neg (by simp [hflat.next_chunk_eq])]
  | buffer hbuffer _ hptr =>
    rw [List.length_nil] at hptr
    rw [done, if_neg (by rw [hbuffer.limit_end_eq]; omega), if_pos (by rw [hbuffer.limit_eq]; omega),
      if_neg (by omega)]

theorem Overrun.done_eq {ctx : ParseContext} {ptr : Nat} (hoverrun : ctx.Overrun ptr) :
    ctx.done ptr = .error .nullptr := by
  obtain ⟨hbuffer, hptr⟩ := hoverrun
  rw [done, if_neg (by rw [hbuffer.limit_end_eq]; omega), if_neg (by rw [hbuffer.limit_eq]; omega),
    done_fallback, if_pos (by rw [hbuffer.limit_eq]; omega)]

/-- The stream in the buffer, after the array. -/
def flipped (ctx : ParseContext) : ParseContext :=
  { ctx with
    buffer := ctx.flat.drop ctx.buffer_end ++ List.replicate kSlopBytes 0, chunk := .buffer,
    limit_end := kSlopBytes, buffer_end := kSlopBytes, next_chunk := false, limit := 0 }

/-- The stream goes over to the buffer within the last bytes of the array. -/
theorem InFlat.flip_eq {ctx : ParseContext} {overrun : Nat} (hflat : ctx.InFlat)
    (hoverrun : overrun < kSlopBytes) :
    flip 2 ctx overrun = .ok (ctx.flipped, overrun, false) := by
  have hlength := hflat.length_eq
  have hslop : load_bytes ctx.memory ctx.buffer_end kSlopBytes = .ok (ctx.flat.drop ctx.buffer_end) := by
    rw [load_bytes, hflat.memory_eq, if_pos (by omega), List.take_of_length_le]
    rw [List.length_drop]
    omega
  have hzeros : (List.replicate (2 * kSlopBytes) (0 : UInt8)).drop kSlopBytes =
      List.replicate kSlopBytes 0 := by
    rw [List.drop_replicate]
    rfl
  have hback : ¬ (0 : Int) ≤ (0 : Nat) + overrun - kSlopBytes := by omega
  simp only [flip, next_buffer, hflat.next_chunk_eq, hslop, bind, Except.bind, pure, Except.pure,
    if_true, if_neg hback, hflat.buffer_eq, hflat.limit_eq, hzeros]
  have hlimit : (kSlopBytes : Int) - (kSlopBytes - (0 : Nat)) = 0 := by omega
  have hptr : ((0 : Nat) + overrun - kSlopBytes + kSlopBytes : Int).toNat = overrun := by omega
  rw [hlimit, hptr, min_self, Int.add_zero]
  rfl

/-- Before the end of the array `ptr` is left where the longest field that is
    not a string can be read without another check. -/
theorem Stands.done_cons {ctx : ParseContext} {ptr : Nat} {rest : List UInt8}
    (hstands : ctx.Stands ptr rest) (hne : rest ≠ []) :
    ∃ next ptr', ctx.done ptr = .ok (next, ptr', false) ∧ next.Stands ptr' rest ∧
      ptr' < next.buffer_end ∧ next.depth = ctx.depth ∧
      next.last_tag_minus_1 = ctx.last_tag_minus_1 := by
  have hpositive := List.length_pos_iff.mpr hne
  cases hstands with
  | flat hflat hrest hptr =>
    have hlength := hflat.length_eq
    by_cases hbefore : ptr < ctx.buffer_end
    · refine ⟨ctx, ptr, ?_, .flat hflat hrest hptr, hbefore, rfl, rfl⟩
      rw [done, if_pos (by rw [hflat.limit_end_eq]; omega)]
    · obtain ⟨overrun, rfl⟩ := Nat.exists_eq_add_of_le (Nat.le_of_not_lt hbefore)
      have hoverrun : ((ctx.buffer_end + overrun : Nat) : Int) - ctx.buffer_end = overrun := by omega
      refine ⟨ctx.flipped, overrun, ?_, .buffer ⟨rfl, Nat.le_refl _, ?_, rfl, rfl, rfl⟩ ?_ ?_, ?_, rfl, rfl⟩
      · rw [done, if_neg (by rw [hflat.limit_end_eq]; omega), hoverrun,
          if_neg (by rw [hflat.limit_eq]; omega), done_fallback, if_neg (by rw [hflat.limit_eq]; omega)]
        exact hflat.flip_eq (by omega)
      · rw [flipped, List.length_append, List.length_replicate, List.length_drop]
        omega
      · rw [flipped, List.drop_append_of_le_length (by rw [List.length_drop]; omega), List.drop_drop,
          hrest]
        rfl
      · change overrun + rest.length = kSlopBytes
        omega
      · change overrun < kSlopBytes
        omega
  | buffer hbuffer hrest hptr =>
    refine ⟨ctx, ptr, ?_, .buffer hbuffer hrest hptr, by omega, rfl, rfl⟩
    rw [done, if_pos (by rw [hbuffer.limit_end_eq]; omega)]

/-- A string is read whole within the chunk and its slop bytes, or not at all.
    The size was checked against no limit before. -/
theorem Stands.read_string_eq {ctx : ParseContext} {start ptr : Nat} {rest : List UInt8}
    (hstands : ctx.Stands start rest) (hptr : ptr ≤ ctx.buffer_end + kSlopBytes) (size : Nat) :
    ctx.read_string ptr size =
      if ptr + size ≤ ctx.buffer_end + kSlopBytes then
        .ok (ctx, ptr + size, (ctx.memory.drop ptr).take size)
      else .error .nullptr := by
  have hslop := hstands.slop_le
  rw [read_string]
  by_cases hfits : ptr + size ≤ ctx.buffer_end + kSlopBytes
  · rw [if_pos (by omega), if_pos hfits, load_bytes, if_pos (by omega)]
    rfl
  · rw [if_neg (by omega), if_neg hfits, append_size]
    cases hstands with
    | flat hflat _ _ =>
      rw [if_neg (by simp [hflat.next_chunk_eq]), load_bytes, if_pos (by omega)]
      simp only [bind, Except.bind]
      rw [if_pos (by rw [hflat.limit_eq])]
      rfl
    | buffer hbuffer _ _ =>
      rw [if_pos hbuffer.next_chunk_eq]
      rfl

end ParseContext

/-- `InlineGreedyStringParser`, and `ParseLengthDelimited` of the unknown fields. -/
def inline_greedy_string_parse (ptr : Nat) (ctx : ParseContext) :
    Except Failure (ParseContext × Nat × List UInt8) := do
  let (ptr, size) ← read_size ctx.memory ptr
  ctx.read_string ptr size

end topview.protobuf
