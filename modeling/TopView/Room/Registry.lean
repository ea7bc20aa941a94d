import TopView.Room.Players
import TopView.Transition.Standing

open topview.transition

namespace topview.room

inductive ObjectType where
  | player
  | projectile
  | dust
  | obstacle
  deriving DecidableEq, Repr

/-- The enumeration starts from one. -/
def ObjectType.value : ObjectType → Nat
  | .player => 1
  | .projectile => 2
  | .dust => 3
  | .obstacle => 4

/-- An `Object`. -/
structure Object where
  object_id : BitVec 32
  type : ObjectType
  deriving DecidableEq, Repr

abbrev ObjectMap : Type := AList fun _ : BitVec 32 => Object

/-- A table of possibly empty functions. A function is named by the type whose
    map it works on. -/
abbrev FuncTable : Type := Vector (Option ObjectType) 3

/-- The maps of `Room` and its two function tables. -/
structure Registry where
  players : ObjectMap
  projectiles : ObjectMap
  dusts : ObjectMap
  obstacles : ObjectMap
  insert_object_table : FuncTable
  erase_object_table : FuncTable

/-- A new `Room`. -/
def Registry.new : Registry where
  players := ∅
  projectiles := ∅
  dusts := ∅
  obstacles := ∅
  insert_object_table := #v[none, none, none]
  erase_object_table := #v[none, none, none]

/-- The map for the objects of a type. -/
def Registry.map (self : Registry) : ObjectType → ObjectMap
  | .player => self.players
  | .projectile => self.projectiles
  | .dust => self.dusts
  | .obstacle => self.obstacles

def Registry.set_map (self : Registry) (type : ObjectType) (map : ObjectMap) : Registry :=
  match type with
  | .player => { self with players := map }
  | .projectile => { self with projectiles := map }
  | .dust => { self with dusts := map }
  | .obstacle => { self with obstacles := map }

/-- What an access to a function table meets. -/
inductive Access where
  /-- A function is stored at an index. -/
  | fill (index : Nat)
  /-- The function at an index is called. -/
  | call (index : Nat) (func : Option ObjectType)
  deriving DecidableEq, Repr

/-- The access is to an entry of the table, and a function that is called has
    been stored. -/
def Access.Sound : Access → Prop
  | .fill index => index < 3
  | .call index func => index < 3 ∧ func.isSome = true

/-- `table[type] = ...` with the function that works on the map of the type. Where
    it lands outside of the table is not described. -/
def fill (table : FuncTable) (type : ObjectType) : FuncTable :=
  table.setIfInBounds type.value (some type)

/-- The types that `InitObjectTable` stores functions for, in its order. -/
def filledTypes : List ObjectType := [.player, .projectile, .dust]

/-- `Room::InitObjectTable`, with the accesses it makes. -/
def Registry.init_object_table (self : Registry) : Registry × List Access :=
  ({ self with
      insert_object_table := filledTypes.foldl fill self.insert_object_table
      erase_object_table := filledTypes.foldl fill self.erase_object_table },
    (filledTypes ++ filledTypes).map fun type => .fill type.value)

/-- `table[object->_type](object)`, where `run` is what the function that is
    found does. What a call outside of the table or of an empty function does is
    not described. -/
def Registry.call (self : Registry) (table : FuncTable) (object : Object)
    (run : ObjectType → Registry) : Registry × List Access :=
  let func := table[object.type.value]?.join
  (func.elim self run, [.call object.type.value func])

/-- `Room::EnterObject`. -/
def Registry.enter_object (self : Registry) (object : Object) : Registry × List Access :=
  self.call self.insert_object_table object fun type =>
    self.set_map type ((self.map type).insert object.object_id object)

/-- `Room::ExitObject`. -/
def Registry.exit_object (self : Registry) (object : Object) : Registry × List Access :=
  self.call self.erase_object_table object fun type =>
    self.set_map type ((self.map type).erase object.object_id)

inductive RegistryCall where
  | enter (object : Object)
  | exit (object : Object)
  deriving DecidableEq, Repr

def RegistryCall.object : RegistryCall → Object
  | .enter object => object
  | .exit object => object

def Registry.step (self : Registry) : RegistryCall → Registry × List Access
  | .enter object => self.enter_object object
  | .exit object => self.exit_object object

/-- The registry, call by call. The lock makes the calls atomic. -/
def registryMachine : Machine Registry RegistryCall Access :=
  ⟨fun registry call => some (registry.step call)⟩

/-- The room as `Room::Init` leaves it. -/
def Registry.start : Registry := Registry.new.init_object_table.1

/-- The object has been entered and not been exited since. -/
def Present (calls : List RegistryCall) (object : Object) : Prop :=
  ∃ before after, calls = before ++ .enter object :: after ∧ .exit object ∉ after

/-- The maps hold the objects that are present, each one under its own id in the
    map of its own type. -/
def Registry.Holds (self : Registry) (calls : List RegistryCall) : Prop :=
  ∀ type key object, (self.map type).lookup key = some object ↔
    key = object.object_id ∧ type = object.type ∧ Present calls object

/-- Different objects have different ids. -/
def DistinctIds (calls : List RegistryCall) : Prop :=
  ∀ first ∈ calls, ∀ second ∈ calls,
    first.object.object_id = second.object.object_id → first.object = second.object

/-- The calls access the tables soundly, and the maps hold what they should. -/
structure CallsFaithful (calls : List RegistryCall) : Prop where
  accesses : ∀ registry log, registryMachine.exec .start calls = some (registry, log) →
    ∀ access ∈ log, access.Sound
  maps : ∀ registry log, registryMachine.exec .start calls = some (registry, log) →
    registry.Holds calls

/-- The registry is faithful: so are the accesses of `InitObjectTable`. -/
structure RegistryFaithful (calls : List RegistryCall) : Prop extends CallsFaithful calls where
  filled : ∀ access ∈ Registry.new.init_object_table.2, access.Sound

/-- The types whose functions are stored inside of the tables. -/
def ObjectType.Filled (type : ObjectType) : Prop := type = .player ∨ type = .projectile

instance (type : ObjectType) : Decidable type.Filled := inferInstanceAs (Decidable (_ ∨ _))

@[simp] theorem Registry.map_set_map (self : Registry) (type other : ObjectType)
    (map : ObjectMap) :
    (self.set_map type map).map other = if other = type then map else self.map other := by
  cases type <;> cases other <;> rfl

@[simp] theorem Registry.insert_object_table_set_map (self : Registry) (type : ObjectType)
    (map : ObjectMap) : (self.set_map type map).insert_object_table = self.insert_object_table := by
  cases type <;> rfl

@[simp] theorem Registry.erase_object_table_set_map (self : Registry) (type : ObjectType)
    (map : ObjectMap) : (self.set_map type map).erase_object_table = self.erase_object_table := by
  cases type <;> rfl

/-- What a table holds that `InitObjectTable` has filled. -/
def FilledTable (table : FuncTable) : Prop :=
  ∀ type : ObjectType, table[type.value]?.join = if type.Filled then some type else none

/-- `InitObjectTable` fills the tables, whatever they have held before. -/
theorem filledTable_init_object_table (self : Registry) :
    FilledTable self.init_object_table.1.insert_object_table ∧
      FilledTable self.init_object_table.1.erase_object_table := by
  have hfilled : ∀ table : FuncTable, FilledTable (filledTypes.foldl fill table) := by
    intro table type
    cases type <;> simp [filledTypes, fill, ObjectType.value, ObjectType.Filled]
  exact ⟨hfilled _, hfilled _⟩

/-- A call is sound for the types whose functions are inside of the tables. -/
theorem sound_call_iff (type : ObjectType) :
    (Access.call type.value (if type.Filled then some type else none)).Sound ↔ type.Filled := by
  cases type <;> simp [Access.Sound, ObjectType.value, ObjectType.Filled]

/-- Where a table is filled, a call runs the function of the object's type. -/
theorem Registry.call_of_filled {table : FuncTable} (hfilled : FilledTable table)
    (self : Registry) (object : Object) (run : ObjectType → Registry) :
    self.call table object run =
      (if object.type.Filled then run object.type else self,
        [.call object.type.value (if object.type.Filled then some object.type else none)]) := by
  unfold Registry.call
  rw [hfilled object.type]
  split <;> rfl

theorem present_snoc_enter_iff {calls : List RegistryCall} {entered object : Object} :
    Present (calls ++ [.enter entered]) object ↔ object = entered ∨ Present calls object := by
  refine standing_snoc_iff.trans (or_congr ?_ ?_)
  · rw [RegistryCall.enter.injEq, eq_comm]
  · rw [and_iff_right (by simp)]
    exact Iff.rfl

theorem present_snoc_exit_iff {calls : List RegistryCall} {exited object : Object} :
    Present (calls ++ [.exit exited]) object ↔ object ≠ exited ∧ Present calls object := by
  refine standing_snoc_iff.trans ?_
  rw [or_iff_right (by simp), ne_eq, RegistryCall.exit.injEq, @eq_comm _ exited]
  exact Iff.rfl

theorem Present.mem {calls : List RegistryCall} {object : Object}
    (hpresent : Present calls object) : .enter object ∈ calls :=
  Standing.mem hpresent

/-- An object that enters is put under its own id in the map of its type. -/
theorem Registry.Holds.enter {self : Registry} {calls : List RegistryCall}
    (hholds : self.Holds calls) {entered : Object}
    (hids : DistinctIds (calls ++ [.enter entered])) :
    (self.set_map entered.type ((self.map entered.type).insert entered.object_id entered)).Holds
      (calls ++ [.enter entered]) := by
  intro type key object
  rw [Registry.map_set_map, present_snoc_enter_iff]
  have hbefore := hholds type key object
  have hsame : Present calls object → object.object_id = entered.object_id → object = entered :=
    fun hpresent => hids _ (List.mem_append_left _ hpresent.mem) (.enter entered) (by simp)
  by_cases htype : type = entered.type
  · subst htype
    rw [if_pos rfl]
    by_cases hkey : key = entered.object_id
    · subst hkey
      rw [AList.lookup_insert, Option.some.injEq]
      constructor
      · rintro rfl
        exact ⟨rfl, rfl, .inl rfl⟩
      · rintro ⟨hid, _, rfl | hpresent⟩
        · rfl
        · exact (hsame hpresent hid.symm).symm
    · rw [AList.lookup_insert_ne hkey, hbefore]
      constructor
      · rintro ⟨hid, hown, hpresent⟩
        exact ⟨hid, hown, .inr hpresent⟩
      · rintro ⟨hid, hown, rfl | hpresent⟩
        · exact absurd hid hkey
        · exact ⟨hid, hown, hpresent⟩
  · rw [if_neg htype, hbefore]
    constructor
    · rintro ⟨hid, hown, hpresent⟩
      exact ⟨hid, hown, .inr hpresent⟩
    · rintro ⟨hid, hown, rfl | hpresent⟩
      · exact absurd hown htype
      · exact ⟨hid, hown, hpresent⟩

/-- An object that exits is taken out of the map of its type. -/
theorem Registry.Holds.exit {self : Registry} {calls : List RegistryCall}
    (hholds : self.Holds calls) {exited : Object} (hids : DistinctIds (calls ++ [.exit exited])) :
    (self.set_map exited.type ((self.map exited.type).erase exited.object_id)).Holds
      (calls ++ [.exit exited]) := by
  intro type key object
  rw [Registry.map_set_map, present_snoc_exit_iff]
  have hbefore := hholds type key object
  have hsame : Present calls object → object.object_id = exited.object_id → object = exited :=
    fun hpresent => hids _ (List.mem_append_left _ hpresent.mem) (.exit exited) (by simp)
  by_cases htype : type = exited.type
  · subst htype
    rw [if_pos rfl]
    by_cases hkey : key = exited.object_id
    · subst hkey
      rw [AList.lookup_erase]
      constructor
      · intro hnone
        cases hnone
      · rintro ⟨hid, _, hne, hpresent⟩
        exact absurd (hsame hpresent hid.symm) hne
    · rw [AList.lookup_erase_ne hkey, hbefore]
      constructor
      · rintro ⟨hid, hown, hpresent⟩
        refine ⟨hid, hown, ?_, hpresent⟩
        rintro rfl
        exact hkey hid
      · rintro ⟨hid, hown, _, hpresent⟩
        exact ⟨hid, hown, hpresent⟩
  · rw [if_neg htype, hbefore]
    constructor
    · rintro ⟨hid, hown, hpresent⟩
      refine ⟨hid, hown, ?_, hpresent⟩
      rintro rfl
      exact htype hown
    · rintro ⟨hid, hown, _, hpresent⟩
      exact ⟨hid, hown, hpresent⟩

/-- What a sequence of calls maintains. -/
structure Registry.Inv (calls : List RegistryCall) (registry : Registry) (log : List Access) :
    Prop where
  insert_filled : FilledTable registry.insert_object_table
  erase_filled : FilledTable registry.erase_object_table
  accesses : log = calls.map fun call =>
    .call call.object.type.value (if call.object.type.Filled then some call.object.type else none)
  maps : (∀ call ∈ calls, call.object.type.Filled) → DistinctIds calls → registry.Holds calls

theorem Registry.Inv.start : Registry.Inv [] .start [] := by
  obtain ⟨hinsert, herase⟩ := filledTable_init_object_table .new
  refine ⟨hinsert, herase, rfl, ?_⟩
  intro _ _ type key object
  constructor
  · intro hfound
    cases type <;> cases hfound
  · rintro ⟨_, _, before, after, hcalls, _⟩
    simp at hcalls

theorem Registry.Inv.step {calls : List RegistryCall} {registry : Registry} {log : List Access}
    (hinv : Registry.Inv calls registry log) (call : RegistryCall) :
    Registry.Inv (calls ++ [call]) (registry.step call).1 (log ++ (registry.step call).2) := by
  have hbefore : (∀ other ∈ calls ++ [call], other.object.type.Filled) →
      DistinctIds (calls ++ [call]) → registry.Holds calls := by
    intro hfilled hids
    refine hinv.maps (fun other hmem => hfilled other (List.mem_append_left _ hmem)) ?_
    intro first hfirst second hsecond
    exact hids first (List.mem_append_left _ hfirst) second (List.mem_append_left _ hsecond)
  cases call with
  | enter object =>
    simp only [Registry.step, Registry.enter_object,
      Registry.call_of_filled hinv.insert_filled]
    refine ⟨?_, ?_, ?_, ?_⟩
    · split
      · rw [Registry.insert_object_table_set_map]
        exact hinv.insert_filled
      · exact hinv.insert_filled
    · split
      · rw [Registry.erase_object_table_set_map]
        exact hinv.erase_filled
      · exact hinv.erase_filled
    · rw [hinv.accesses, List.map_append]
      rfl
    · intro hfilled hids
      have hobject : object.type.Filled := hfilled (.enter object) (by simp)
      rw [if_pos hobject]
      exact (hbefore hfilled hids).enter hids
  | exit object =>
    simp only [Registry.step, Registry.exit_object, Registry.call_of_filled hinv.erase_filled]
    refine ⟨?_, ?_, ?_, ?_⟩
    · split
      · rw [Registry.insert_object_table_set_map]
        exact hinv.insert_filled
      · exact hinv.insert_filled
    · split
      · rw [Registry.erase_object_table_set_map]
        exact hinv.erase_filled
      · exact hinv.erase_filled
    · rw [hinv.accesses, List.map_append]
      rfl
    · intro hfilled hids
      have hobject : object.type.Filled := hfilled (.exit object) (by simp)
      rw [if_pos hobject]
      exact (hbefore hfilled hids).exit hids

theorem Registry.inv_of_exec {calls : List RegistryCall} {registry : Registry}
    {log : List Access} (hexec : registryMachine.exec .start calls = some (registry, log)) :
    Registry.Inv calls registry log := by
  refine registryMachine.exec_induct Registry.Inv Registry.Inv.start ?_ calls registry log hexec
  intro calls registry log call next emitted _ hinv hstep
  obtain ⟨rfl, rfl⟩ := Prod.mk.inj (Option.some.inj hstep)
  exact hinv.step call

theorem Registry.exists_exec (registry : Registry) (calls : List RegistryCall) :
    ∃ next log, registryMachine.exec registry calls = some (next, log) := by
  induction calls generalizing registry with
  | nil => exact ⟨registry, [], rfl⟩
  | cons call calls ih =>
    obtain ⟨next, log, hexec⟩ := ih (registry.step call).1
    exact ⟨next, _, registryMachine.exec_cons_eq_some_iff.mpr
      ⟨(registry.step call).1, (registry.step call).2, log, rfl, hexec, rfl⟩⟩

/-- The calls are faithful exactly when they are about players and projectiles. -/
theorem callsFaithful_iff {calls : List RegistryCall} (hids : DistinctIds calls) :
    CallsFaithful calls ↔ ∀ call ∈ calls, call.object.type.Filled := by
  constructor
  · intro hfaithful call hmem
    obtain ⟨registry, log, hexec⟩ := Registry.start.exists_exec calls
    have haccesses := (Registry.inv_of_exec hexec).accesses
    apply (sound_call_iff _).mp
    apply hfaithful.accesses registry log hexec
    rw [haccesses]
    exact List.mem_map.mpr ⟨call, hmem, rfl⟩
  · intro hfilled
    refine ⟨?_, ?_⟩
    · intro registry log hexec access hmem
      rw [(Registry.inv_of_exec hexec).accesses] at hmem
      obtain ⟨call, hcall, rfl⟩ := List.mem_map.mp hmem
      exact (sound_call_iff _).mpr (hfilled call hcall)
    · intro registry log hexec
      exact (Registry.inv_of_exec hexec).maps hfilled hids

/-- A player, as an object. -/
def Player.toObject (self : Player) : Object := ⟨self.object_id, .player⟩

/-- The map `_players` of the registry is the given one. -/
def Registry.Shows (self : Registry) (players : Players) : Prop :=
  ∀ id, self.players.lookup id = (players.map.lookup id).map Player.toObject

/-- On players `EnterObject` inserts into the map `_players`. -/
theorem Registry.Shows.enter_object {self : Registry} {players : Players}
    (hshows : self.Shows players) (hfilled : FilledTable self.insert_object_table)
    (player : Player) :
    (self.enter_object player.toObject).1.Shows (players.insert player) := by
  intro id
  simp only [Registry.enter_object, Registry.call_of_filled hfilled]
  change (self.players.insert player.object_id player.toObject).lookup id =
    ((players.map.insert player.object_id player).lookup id).map Player.toObject
  by_cases hid : id = player.object_id
  · subst hid
    rw [AList.lookup_insert, AList.lookup_insert, Option.map_some]
  · rw [AList.lookup_insert_ne hid, AList.lookup_insert_ne hid]
    exact hshows id

/-- On players `ExitObject` erases from the map `_players`. -/
theorem Registry.Shows.exit_object {self : Registry} {players : Players}
    (hshows : self.Shows players) (hfilled : FilledTable self.erase_object_table)
    (player : Player) :
    (self.exit_object player.toObject).1.Shows (players.erase player) := by
  intro id
  simp only [Registry.exit_object, Registry.call_of_filled hfilled]
  change (self.players.erase player.object_id).lookup id =
    ((players.map.erase player.object_id).lookup id).map Player.toObject
  by_cases hid : id = player.object_id
  · subst hid
    rw [AList.lookup_erase, AList.lookup_erase, Option.map_none]
  · rw [AList.lookup_erase_ne hid, AList.lookup_erase_ne hid]
    exact hshows id

/-- `InitObjectTable` stores the functions for dust behind the ends of its tables,
    so the registry is faithful for no sequence of calls. -/
theorem not_registryFaithful (calls : List RegistryCall) : ¬ RegistryFaithful calls := by
  intro hfaithful
  have hdust : Access.fill ObjectType.dust.value ∈ Registry.new.init_object_table.2 := by
    simp [Registry.init_object_table, filledTypes]
  exact absurd (hfaithful.filled _ hdust) (Nat.lt_irrefl 3)

/-- Dust and an obstacle enter, and neither has a function. -/
theorem not_registryFaithful_dust :
    ¬ RegistryFaithful [.enter ⟨7, .dust⟩, .enter ⟨8, .obstacle⟩] := by
  intro hfaithful
  obtain ⟨registry, log, hexec⟩ :=
    Registry.start.exists_exec [.enter ⟨7, .dust⟩, .enter ⟨8, .obstacle⟩]
  have hsound := hfaithful.accesses registry log hexec (.call 3 none)
  have haccesses := (Registry.inv_of_exec hexec).accesses
  have hmem : Access.call 3 none ∈ log := by
    rw [haccesses]
    exact List.mem_cons_self
  exact absurd (hsound hmem).1 (Nat.lt_irrefl 3)

end topview.room
