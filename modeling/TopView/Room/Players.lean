import Mathlib.Data.List.AList

namespace topview.room

/-- A `Player`. Its weak pointers designate `GRoom` or nothing, and a session. -/
structure Player where
  object_id : BitVec 32
  in_room : Bool
  session : Nat
  deriving DecidableEq, Repr

/-- A key of `_players` with the player stored under it. -/
abbrev Entry : Type := (_ : BitVec 32) × Player

/-- The map `_players`. Each player is stored under its own id. -/
@[ext] structure Players where
  map : AList fun _ : BitVec 32 => Player
  keyed : ∀ entry ∈ map.entries, entry.1 = entry.2.object_id

def Players.empty : Players := { map := ∅, keyed := by simp }

/-- `_players[o->_objectId] = o`. -/
def Players.insert (players : Players) (player : Player) : Players where
  map := players.map.insert player.object_id player
  keyed := by
    intro entry hmem
    rw [AList.entries_insert, List.mem_cons] at hmem
    rcases hmem with rfl | hkept
    · rfl
    · exact players.keyed entry ((List.kerase_sublist _ _).subset hkept)

/-- `_players.erase(o->_objectId)`. -/
def Players.erase (players : Players) (player : Player) : Players where
  map := players.map.erase player.object_id
  keyed := fun entry hmem => players.keyed entry ((List.kerase_sublist _ _).subset hmem)

/-- The entries, in some order. -/
def Players.entries (players : Players) : List Entry := players.map.entries

/-- `player` is an entry of the map. -/
def Players.Holds (players : Players) (player : Player) : Prop :=
  players.map.lookup player.object_id = some player

instance (players : Players) (player : Player) : Decidable (players.Holds player) :=
  inferInstanceAs (Decidable (_ = _))

theorem Players.mem_entries_iff {players : Players} {entry : Entry} :
    entry ∈ players.entries ↔ entry.1 = entry.2.object_id ∧ players.Holds entry.2 := by
  obtain ⟨key, player⟩ := entry
  constructor
  · intro hmem
    have hkey : key = player.object_id := players.keyed ⟨key, player⟩ hmem
    subst hkey
    exact ⟨rfl, AList.mem_lookup_iff.mpr hmem⟩
  · rintro ⟨hkey, hholds⟩
    simp only at hkey hholds
    subst hkey
    exact AList.mem_lookup_iff.mp hholds

/-- No player is stored twice. -/
theorem Players.nodup_entries (players : Players) :
    (players.entries.map fun entry => entry.2).Nodup := by
  have hkeys : (players.entries.map fun entry => entry.1).Nodup := players.map.nodupKeys
  have hown : (players.entries.map fun entry => entry.1) =
      (players.entries.map fun entry => entry.2).map Player.object_id := by
    rw [List.map_map]
    exact List.map_congr_left players.keyed
  rw [hown] at hkeys
  exact hkeys.of_map _

theorem Players.holds_insert_iff {players : Players} {player other : Player} :
    (players.insert player).Holds other ↔
      other = player ∨ other.object_id ≠ player.object_id ∧ players.Holds other := by
  simp only [Players.Holds, Players.insert]
  by_cases hid : other.object_id = player.object_id
  · rw [hid, AList.lookup_insert]
    simp only [Option.some.injEq, ne_eq, not_true_eq_false, false_and, or_false]
    exact eq_comm
  · rw [AList.lookup_insert_ne hid]
    constructor
    · intro hholds
      exact .inr ⟨hid, hholds⟩
    · rintro (rfl | ⟨_, hholds⟩)
      · exact absurd rfl hid
      · exact hholds

theorem Players.holds_erase_iff {players : Players} {player other : Player} :
    (players.erase player).Holds other ↔
      other.object_id ≠ player.object_id ∧ players.Holds other := by
  simp only [Players.Holds, Players.erase]
  by_cases hid : other.object_id = player.object_id
  · rw [hid, AList.lookup_erase]
    simp
  · rw [AList.lookup_erase_ne hid]
    simp [hid]

end topview.room
