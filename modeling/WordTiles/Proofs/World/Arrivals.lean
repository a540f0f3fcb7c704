import Mathlib.Data.List.Permutation
import Mathlib.Data.List.Sort
import WordTiles.Proofs.World.Edits

/-! The live entities of a world, listed by their last arrival. Every edit of a world is an edit of
that list, and the list answers every question about the world. -/

namespace WordTiles

/-- An edit of a world. -/
inductive Edit where
  | place (spawn : SpawnRequest)
  | create (spawn : SpawnRequest)
  | move (id : EntityId) (target : Cell)
  | remove (id : EntityId)
  | erase (id : EntityId)
  /-- Writes the properties and the abilities of an entity. -/
  | grant (id : EntityId) (properties : Properties) (abilities : Abilities)

namespace Edit

/-- What an edit that is carried out returns. -/
inductive Answer where
  | created (id : EntityId)
  | moved
  | removed (entity : Entity)
  /-- Whoever was erased, if anybody was live under the identifier. -/
  | erased (entity : Option Entity)
  /-- Whether there was anybody to write to. -/
  | granted (live : Bool)
  deriving DecidableEq

/-- The identifier that an edit gave out. -/
def given? : Except Error Answer → Option EntityId
  -- Nothing but a creation gives an identifier out.
  | .ok (.created id) => some id
  | _ => none

/-- Carries edits out one after the other and collects what each returns. An edit that fails
changes nothing. -/
def replay {α : Type} (edit : α → Edit → Except Error (Answer × α)) (state : α) :
    List Edit → List (Except Error Answer) × α
  | [] => ([], state)
  | first :: rest =>
    match edit state first with
    | .ok (answer, after) =>
      let (answers, last) := replay edit after rest
      (.ok answer :: answers, last)
    -- The next edit finds the state that this one found.
    | .error error =>
      let (answers, last) := replay edit state rest
      (.error error :: answers, last)

end Edit

/-- Carries an edit out on a world. -/
def World.edit (world : World) : Edit → Except Error (Edit.Answer × World)
  -- Each edit is answered with what the world returns for it.
  | .place spawn => do
    let (id, after) ← world.place spawn
    return (.created id, after)
  | .create spawn => do
    let (id, after) ← world.create spawn
    return (.created id, after)
  | .move id target => do
    let after ← world.move id target
    return (.moved, after)
  | .remove id => do
    let (entity, after) ← world.remove id
    return (.removed entity, after)
  | .erase id => return (.erased ((world.take? id).map Prod.fst), world.erase id)
  | .grant id properties abilities =>
    return (.granted (world.find? id).isSome,
      world.modify id fun entity => { entity with properties, abilities })

/-- The live entities in the order of their last arrival, and the number of all that were ever
created. -/
structure Roster where
  present : List Entity
  created : Nat

namespace Roster

/-- Nobody has arrived. -/
def empty : Roster :=
  -- Numbers start with zero.
  ⟨[], 0⟩

/-- The entity on the list with an identifier. -/
def find? (roster : Roster) (id : EntityId) : Option Entity :=
  -- Nobody is listed twice, so that the first hit is the only one.
  roster.present.find? (·.id == id)

/-- Those on the list who are on a cell, in order of arrival. -/
def stackAt (roster : Roster) (cell : Cell) : List EntityId :=
  -- The order of the list is the order of arrival on every cell.
  (roster.present.filter (·.position == cell)).map (·.id)

/-- The identifiers of some entities, ascending. -/
def ascending (entities : List Entity) : List EntityId :=
  -- Identifiers are numbers, and are sorted as such.
  (entities.map (·.id)).mergeSort fun a b => a.val ≤ b.val

/-- A new entity arrives. It is numbered by those created before it. -/
def create (roster : Roster) (spawn : SpawnRequest) : Except Error (Edit.Answer × Roster) :=
  -- The number of the newcomer must leave one for the next.
  if roster.created + 1 < UInt32.size then
    let id : EntityId := ⟨.ofNat roster.created⟩
    .ok (.created id, ⟨roster.present ++ [.ofSpawn id spawn], roster.created + 1⟩)
  else .error .sumOverflow

/-- An entity goes. -/
def remove (roster : Roster) (id : EntityId) : Roster :=
  -- Whoever is not listed cannot be removed, and then nothing changes.
  { roster with present := roster.present.filter (·.id != id) }

/-- An entity that moves goes and arrives again. -/
def move (roster : Roster) (entity : Entity) (target : Cell) : Roster :=
  -- Those who are above the entity on its cell now lie below it, if it stays there.
  { roster with
    present := (roster.remove entity.id).present ++ [{ entity with position := target }] }

/-- An entity is written to where it stands on the list. -/
def grant (roster : Roster) (id : EntityId) (properties : Properties) (abilities : Abilities) :
    Roster :=
  -- Only the two sets of flags are written.
  { roster with
    present := roster.present.map fun entity =>
      if entity.id = id then { entity with properties, abilities } else entity }

/-- Carries an edit out on the list of a world with a certain grid. -/
def edit (grid : Grid) (roster : Roster) : Edit → Except Error (Edit.Answer × Roster)
  -- The grid is asked first, and the list afterwards.
  | .place spawn =>
    if grid.contains spawn.position then roster.create spawn
    else .error (.outOfBounds spawn.position grid.width grid.height)
  | .create spawn =>
    if grid.contains spawn.position then roster.create spawn
    else .error (.createdOutside spawn.position)
  | .move id target =>
    if grid.contains target then
      match roster.find? id with
      | some entity => .ok (.moved, roster.move entity target)
      | none => .error (.entityNotFound id)
    else .error (.outOfBounds target grid.width grid.height)
  | .remove id =>
    match roster.find? id with
    | some entity => .ok (.removed entity, roster.remove id)
    | none => .error (.entityNotFound id)
  | .erase id => .ok (.erased (roster.find? id), roster.remove id)
  | .grant id properties abilities =>
    .ok (.granted (roster.find? id).isSome, roster.grant id properties abilities)

/-- The list holds the entities of the world, its order is that of the stacks, and both number the
next entity alike. -/
structure Tracks (roster : Roster) (grid : Grid) (world : World) : Prop where
  grid : world.toGrid = grid
  entities : world.entities.Perm roster.present
  layers : world.layers = roster.present.map fun entity => (entity.position, entity.id)
  nextId : world.nextId.toNat = roster.created

/-- An edit comes out alike on both sides: it returns the same, and the list still tracks the
world, or it fails for the same cause. -/
inductive Alike (grid : Grid) :
    Except Error (Edit.Answer × World) → Except Error (Edit.Answer × Roster) → Prop where
  | done (answer : Edit.Answer) {world : World} {roster : Roster}
      (tracks : roster.Tracks grid world) : Alike grid (.ok (answer, world)) (.ok (answer, roster))
  | failed (error : Error) : Alike grid (.error error) (.error error)

/-- The list answers every question about the world. In particular, every live entity is in one
stack, once, and that is the stack of its position. -/
structure Answers (roster : Roster) (world : World) : Prop where
  stackAt : ∀ cell, world.stackAt cell = roster.stackAt cell
  nodup_stackAt : ∀ cell, (world.stackAt cell).Nodup
  mem_stackAt_iff : ∀ cell id, id ∈ world.stackAt cell ↔
    ∃ entity, world.find? id = some entity ∧ entity.position = cell
  find? : ∀ id, world.find? id = roster.find? id
  ids : world.ids = ascending roster.present
  idsOf : ∀ category,
    world.idsOf category = ascending (roster.present.filter (·.category == category))
  size : world.size = roster.present.length

/-- The grid and the list tell which requests a world refuses, and for what cause. -/
structure Refusals (roster : Roster) (grid : Grid) (world : World) : Prop where
  place : ∀ spawn error, world.place spawn = .error error ↔
    (grid.contains spawn.position = false ∧
        error = .outOfBounds spawn.position grid.width grid.height) ∨
      (grid.contains spawn.position = true ∧ UInt32.size ≤ roster.created + 1 ∧
        error = .sumOverflow)
  move : ∀ id target error, world.move id target = .error error ↔
    (grid.contains target = false ∧ error = .outOfBounds target grid.width grid.height) ∨
      (grid.contains target = true ∧ roster.find? id = none ∧ error = .entityNotFound id)
  remove : ∀ id error, world.remove id = .error error ↔
    roster.find? id = none ∧ error = .entityNotFound id

/-- Identifiers that ascend are those of the list, sorted. -/
theorem ascending_eq {entities listed : List Entity} (same : entities.Perm listed)
    (ordered : entities.Pairwise fun a b => a.id < b.id) :
    entities.map (·.id) = ascending listed := by
  -- Two ascending lists of the same identifiers are equal.
  have sorted : (ascending listed).Pairwise fun a b => decide (a.val ≤ b.val) = true := by
    refine List.pairwise_mergeSort (fun a b c => ?_) (fun a b => ?_) _
    · simpa using UInt32.le_trans
    · simpa using UInt32.le_total a.val b.val
  have climbing : (entities.map (·.id)).Pairwise fun a b => decide (a.val ≤ b.val) = true := by
    rw [List.pairwise_map]
    exact ordered.imp fun less => decide_eq_true (UInt32.le_of_lt less)
  refine List.Perm.eq_of_pairwise (fun a b _ _ one other => ?_) climbing sorted
    ((same.map _).trans (List.mergeSort_perm ..).symm)
  exact congrArg EntityId.mk (UInt32.le_antisymm (of_decide_eq_true one) (of_decide_eq_true other))

namespace Tracks

/-- The empty list tracks a world without an entity. -/
theorem empty {width height : Int32} {world : World}
    (built : World.empty width height = .ok world) : Roster.empty.Tracks world.toGrid world := by
  -- There are neither entities nor arrivals, and the first number is zero.
  unfold World.empty at built
  split at built
  · cases built
    exact ⟨rfl, .nil, rfl, rfl⟩
  · cases built

variable {roster : Roster} {grid : Grid} {world : World} (tracks : roster.Tracks grid world)

include tracks

/-- Nobody is on the list twice. -/
theorem nodup : (roster.present.map (·.id)).Nodup := by
  -- The identifiers are those of the world.
  exact (tracks.entities.map Entity.id).nodup_iff.mp world.nodup_ids

/-- The list finds the entities of the world. -/
theorem find?_eq (id : EntityId) : roster.find? id = world.find? id := by
  refine Option.ext fun entity => ?_
  rw [World.find?_eq_some_iff, tracks.entities.mem_iff]
  constructor
  · intro found
    exact ⟨List.mem_of_find?_eq_some found, by simpa using List.find?_some found⟩
  · rintro ⟨listed, rfl⟩
    -- Whoever is found has the identifier too, and nobody else does.
    obtain ⟨other, found⟩ : ∃ other, roster.find? entity.id = some other :=
      Option.isSome_iff_exists.mp (List.find?_isSome.mpr ⟨entity, listed, by simp⟩)
    have same : other.id = entity.id := by simpa using List.find?_some found
    rw [found, List.inj_on_of_nodup_map tracks.nodup (List.mem_of_find?_eq_some found) listed same]

/-- The entries of the others remain when those of one entity are taken out of the stacks. -/
theorem layers_leave {entity : Entity} (live : entity ∈ world.entities) :
    world.layers.filter (· != (entity.position, entity.id)) =
      (roster.remove entity.id).present.map fun other => (other.position, other.id) := by
  -- Nobody else has the identifier, so filtering the entries by it filters the entities.
  rw [tracks.layers, List.filter_map]
  refine congrArg (List.map _) (List.filter_congr fun other listed => ?_)
  rw [Bool.eq_iff_iff]
  simp only [Function.comp, bne_iff_ne, ne_eq, Prod.mk.injEq, not_and]
  constructor
  · intro differs same
    cases World.eq_of_id (tracks.entities.mem_iff.mpr listed) live same
    exact differs rfl rfl
  · exact fun differs _ => differs

/-- A new entity comes out alike. -/
theorem insert (spawn : SpawnRequest) :
    Alike grid
      (do
        let (id, after) ← world.insert spawn
        return (.created id, after))
      (roster.create spawn) := by
  -- Both sides give out the same number, and run out of numbers together.
  have number : (⟨.ofNat roster.created⟩ : EntityId) = ⟨world.nextId⟩ := by
    rw [← tracks.nextId, UInt32.ofNat_toNat]
  unfold create
  rw [number]
  by_cases room : roster.created + 1 < UInt32.size
  · obtain ⟨after, inserted, next⟩ := World.insert_of_room (tracks.nextId ▸ room) spawn
    obtain ⟨_, same, entities, layers⟩ := World.insert_eq_ok inserted
    rw [if_pos room, inserted]
    refine .done _ ⟨same.trans tracks.grid, ?_, ?_, next.trans (congrArg (· + 1) tracks.nextId)⟩
    · rw [entities]
      exact tracks.entities.append_right _
    · rw [layers, tracks.layers, List.map_append]
      rfl
  · rw [if_neg room, World.insert_of_full (tracks.nextId ▸ room)]
    exact .failed _

/-- So does the departure of an entity. -/
theorem take {id : EntityId} {entity : Entity} (found : world.find? id = some entity) :
    ∃ after, world.take? id = some (entity, after) ∧ (roster.remove id).Tracks grid after := by
  obtain ⟨live, rfl⟩ := World.find?_eq_some_iff.mp found
  unfold World.take?
  rw [found]
  -- The entity is taken out of both structures of the world.
  refine ⟨_, rfl, tracks.grid, ?_, ?_, tracks.nextId⟩
  · exact tracks.entities.filter _
  · exact tracks.layers_leave live

/-- If nobody is live under an identifier, nobody on the list has it. -/
theorem remove_of_missing {id : EntityId} (missing : world.find? id = none) :
    roster.remove id = roster := by
  -- Whoever is on the list is live.
  unfold remove
  rw [List.filter_eq_self.mpr]
  intro entity listed
  rw [bne_iff_ne]
  rintro rfl
  rw [World.find?_eq_some_iff.mpr ⟨tracks.entities.mem_iff.mpr listed, rfl⟩] at missing
  cases missing

/-- Whoever moves is the last to arrive. -/
theorem move {id : EntityId} {entity : Entity} (found : world.find? id = some entity)
    (target : Cell) :
    (roster.move entity target).Tracks grid
      (((world.leave id entity.position).enter id target).modify id
        fun moved => { moved with position := target }) := by
  obtain ⟨live, rfl⟩ := World.find?_eq_some_iff.mp found
  refine ⟨tracks.grid, ?_, ?_, tracks.nextId⟩
  · -- The entity is put behind all others, who do not change.
    rw [World.entities_modify]
    have behind := (World.perm_filter_append live).trans ((tracks.entities.filter _).append_right _)
    refine (behind.map _).trans (.of_eq ?_)
    rw [List.map_append, List.map_singleton, if_pos rfl]
    refine congrArg (· ++ _) ((List.map_congr_left fun other listed => ?_).trans (List.map_id _))
    exact if_neg (by simpa using (List.mem_filter.mp listed).2)
  · -- So is its entry in the stacks.
    change world.layers.filter _ ++ [_] = _
    rw [tracks.layers_leave live]
    unfold Roster.move
    rw [List.map_append]
    rfl

/-- Writing to an entity moves nobody. -/
theorem grant (id : EntityId) (properties : Properties) (abilities : Abilities) :
    (roster.grant id properties abilities).Tracks grid
      (world.modify id fun entity => { entity with properties, abilities }) := by
  -- Neither the identifier nor the position of anybody changes, and the stacks list nothing else.
  refine ⟨tracks.grid, ?_, ?_, tracks.nextId⟩
  · rw [World.entities_modify]
    exact tracks.entities.map _
  · change world.layers = _
    rw [tracks.layers, Roster.grant, List.map_map]
    refine List.map_congr_left fun entity _ => ?_
    dsimp only [Function.comp]
    split <;> rfl

/-- Every edit comes out alike. -/
theorem edit (edit : Edit) : Alike grid (world.edit edit) (roster.edit grid edit) := by
  -- Both sides make the same tests, so each edit fails on both or changes both.
  have lookup := tracks.find?_eq
  have same := tracks.grid
  cases edit with
  | place spawn =>
    dsimp only [World.edit, Roster.edit]
    rw [World.place_eq, same]
    split
    · -- Inside the grid both get the same entity, and the newest arrival.
      exact tracks.insert spawn
    · rw [← same]
      exact .failed _
  | create spawn =>
    dsimp only [World.edit, Roster.edit]
    rw [World.create, same]
    split
    · exact tracks.insert spawn
    · exact .failed _
  | move id target =>
    dsimp only [World.edit, Roster.edit]
    rw [World.move_eq, same, lookup]
    split
    · cases found : world.find? id with
      | none => exact .failed _
      | some entity => exact .done _ (tracks.move found target)
    · rw [← same]
      exact .failed _
  | remove id =>
    dsimp only [World.edit, Roster.edit]
    rw [lookup]
    cases found : world.find? id with
    | none =>
      -- Whoever is not live can be removed on neither side.
      rw [World.remove_eq_error_iff.mpr ⟨found, rfl⟩]
      exact .failed _
    | some entity =>
      obtain ⟨after, taken, tracked⟩ := tracks.take found
      rw [World.remove, taken]
      exact .done _ tracked
  | erase id =>
    dsimp only [World.edit, Roster.edit]
    rw [lookup, World.erase]
    cases found : world.find? id with
    | none =>
      -- Erasing nobody is no failure, and leaves both as they were.
      rw [World.take?_eq_none_iff.mpr found, tracks.remove_of_missing found]
      exact .done _ tracks
    | some entity =>
      obtain ⟨after, taken, tracked⟩ := tracks.take found
      rw [taken]
      exact .done _ tracked
  | grant id properties abilities =>
    dsimp only [World.edit, Roster.edit]
    rw [lookup]
    exact .done _ (tracks.grant id properties abilities)

/-- So do edits one after the other. -/
theorem replay (edits : List Edit) :
    (Edit.replay World.edit world edits).1 = (Edit.replay (Roster.edit grid) roster edits).1 ∧
      (Edit.replay (Roster.edit grid) roster edits).2.Tracks grid
        (Edit.replay World.edit world edits).2 := by
  -- By induction on the edits, the first of which leads to what the rest starts from.
  induction edits generalizing world roster with
  | nil => exact ⟨rfl, tracks⟩
  | cons first rest ih =>
    have alike := tracks.edit first
    unfold Edit.replay
    generalize world.edit first = one, roster.edit grid first = other at alike
    cases alike with
    | done answer tracked =>
      obtain ⟨answers, later⟩ := ih tracked
      exact ⟨congrArg _ answers, later⟩
    | failed error =>
      obtain ⟨answers, later⟩ := ih tracks
      exact ⟨congrArg _ answers, later⟩

/-- An entity on the list is a live entity at its place. -/
theorem mem_stackAt_iff {cell : Cell} {id : EntityId} :
    id ∈ world.stackAt cell ↔ ∃ entity, world.find? id = some entity ∧ entity.position = cell := by
  -- There is one entry for each entity on the list, under its own cell.
  rw [World.mem_stackAt, tracks.layers]
  simp only [List.mem_map, Prod.mk.injEq, World.find?_eq_some_iff, tracks.entities.mem_iff]
  constructor
  · rintro ⟨entity, listed, here, known⟩
    exact ⟨entity, ⟨listed, known⟩, here⟩
  · rintro ⟨entity, ⟨listed, known⟩, here⟩
    exact ⟨entity, listed, here, known⟩

/-- A stack holds those on its cell in the order in which they arrived. -/
theorem stackAt_eq (cell : Cell) : world.stackAt cell = roster.stackAt cell := by
  -- The arrivals of the world are the list, each with its cell.
  unfold World.stackAt Roster.stackAt
  rw [tracks.layers, List.filter_map, List.map_map]
  rfl

/-- A list that tracks a world answers all questions about it. -/
theorem answers : roster.Answers world where
  -- Every question is answered by what the list holds in step with the world.
  stackAt := tracks.stackAt_eq
  nodup_stackAt := fun cell => by
    rw [tracks.stackAt_eq]
    exact tracks.nodup.sublist (List.filter_sublist.map _)
  mem_stackAt_iff := fun _ _ => tracks.mem_stackAt_iff
  find? := fun id => (tracks.find?_eq id).symm
  ids := ascending_eq tracks.entities world.ascending
  idsOf := fun category => ascending_eq (tracks.entities.filter _) (world.ascending.filter _)
  size := tracks.entities.length_eq

/-- It also tells which requests are refused. -/
theorem refusals : roster.Refusals grid world := by
  -- The world decides by its grid, its entities and its next number, which the list knows.
  have same := tracks.grid
  subst same
  constructor
  · intro spawn error
    rw [← tracks.nextId]
    exact World.place_eq_error_iff
  · intro id target error
    rw [tracks.find?_eq]
    exact World.move_eq_error_iff
  · intro id error
    rw [tracks.find?_eq]
    exact World.remove_eq_error_iff

end Tracks

/-- An edit of the list that creates somebody gives out the number of those created before; no other
edit gives out an identifier. -/
theorem edit_eq_ok {grid : Grid} {roster after : Roster} {edit : Edit} {answer : Edit.Answer}
    (edited : roster.edit grid edit = .ok (answer, after)) :
    (Edit.given? (.ok answer) = none ∧ after.created = roster.created) ∨
      (Edit.given? (.ok answer) = some ⟨.ofNat roster.created⟩ ∧
        roster.created + 1 < UInt32.size ∧ after.created = roster.created + 1) := by
  -- The two edits that create somebody do so alike.
  have create {spawn : SpawnRequest} (created : roster.create spawn = .ok (answer, after)) :
      Edit.given? (.ok answer) = some ⟨.ofNat roster.created⟩ ∧
        roster.created + 1 < UInt32.size ∧ after.created = roster.created + 1 := by
    unfold Roster.create at created
    split at created
    · cases created
      exact ⟨rfl, ‹_›, rfl⟩
    · cases created
  cases edit <;> dsimp only [Roster.edit] at edited
  case place spawn =>
    split at edited
    · -- On the grid somebody is created.
      exact .inr (create edited)
    · cases edited
  case create spawn =>
    split at edited
    · exact .inr (create edited)
    · cases edited
  case move id target =>
    split at edited
    · split at edited <;> cases edited
      -- The other edits create nobody, whether they find the entity or not.
      exact .inl ⟨rfl, rfl⟩
    · cases edited
  case remove id =>
    split at edited <;> cases edited
    exact .inl ⟨rfl, rfl⟩
  case erase id =>
    cases edited
    exact .inl ⟨rfl, rfl⟩
  case grant id properties abilities =>
    cases edited
    exact .inl ⟨rfl, rfl⟩

/-- The identifiers that edits give out ascend, from the number of those created before. -/
theorem given_replay (grid : Grid) (roster : Roster) (edits : List Edit) :
    let given := (Edit.replay (Roster.edit grid) roster edits).1.filterMap Edit.given?
    given.Pairwise (· < ·) ∧ ∀ id ∈ given, roster.created ≤ id.val.toNat := by
  -- By induction on the edits: the rest gives out what is at least the number after this one.
  induction edits generalizing roster with
  | nil => exact ⟨.nil, nofun⟩
  | cons first rest ih =>
    unfold Edit.replay
    split
    · rename_i answer after edited
      -- Either the first edit gives out nothing, or the number next in turn.
      obtain ⟨ascend, least⟩ := ih after
      rcases edit_eq_ok edited with ⟨nothing, created⟩ | ⟨given, room, created⟩
      · rw [created] at least
        simp only [List.filterMap_cons, nothing]
        exact ⟨ascend, least⟩
      · -- That number is in range, so that the identifier tells it.
        have number : (UInt32.ofNat roster.created).toNat = roster.created :=
          UInt32.toNat_ofNat_of_lt' (by omega)
        rw [created] at least
        simp only [List.filterMap_cons, given]
        refine ⟨List.pairwise_cons.mpr ⟨fun id later => ?_, ascend⟩, fun id either => ?_⟩
        · have := least id later
          exact UInt32.lt_iff_toNat_lt.mpr (by rw [number]; omega)
        · rcases List.mem_cons.mp either with rfl | later
          · exact number.ge
          · have := least id later
            omega
    · -- An edit that fails changes nothing.
      exact ih roster

end Roster

/-- Whatever edits a world without an entity sees, each returns what it returns for the list of
entities by their last arrival, or fails for the same cause; afterwards the list answers every
question about the world and tells what the world refuses. No identifier is given out twice. -/
theorem World.replay_eq_roster {width height : Int32} {start : World}
    (built : World.empty width height = .ok start) (edits : List Edit) :
    let run :=
  -- The list starts empty, and each edit keeps it in step with the world.
  Edit.replay World.edit start edits
    let listed := Edit.replay (Roster.edit start.toGrid) .empty edits
    run.1 = listed.1 ∧ listed.2.Answers run.2 ∧ listed.2.Refusals start.toGrid run.2 ∧
      (run.1.filterMap Edit.given?).Pairwise (· < ·) := by
  obtain ⟨same, tracks⟩ := (Roster.Tracks.empty built).replay edits
  refine ⟨same, tracks.answers, tracks.refusals, ?_⟩
  rw [same]
  exact (Roster.given_replay start.toGrid .empty edits).1

/-- Three arrivals on one cell, of which the first arrives again and the second goes. -/
theorem World.replay_eq_roster_stack : ∃ start, World.empty 3 2 = .ok start ∧
    let edits : List Edit :=
  -- The two sides are computed, and the theorem says that they agree.
  [.place (.tile .rock ⟨1, 1⟩), .place (.object .rock ⟨1, 1⟩),
      .create (.object .wall ⟨1, 1⟩), .move ⟨0⟩ ⟨1, 1⟩, .move ⟨7⟩ ⟨3, 0⟩, .move ⟨7⟩ ⟨2, 0⟩,
      .remove ⟨1⟩, .erase ⟨1⟩, .place (.object .wall ⟨0, 0⟩)]
    let run := Edit.replay World.edit start edits
    let listed := Edit.replay (Roster.edit start.toGrid) .empty edits
    run.1.filterMap Edit.given? = [⟨0⟩, ⟨1⟩, ⟨2⟩, ⟨3⟩] ∧ run.2.stackAt ⟨1, 1⟩ = [⟨2⟩, ⟨0⟩] ∧
      run.1 = listed.1 ∧ listed.2.Answers run.2 ∧ listed.2.Refusals start.toGrid run.2 ∧
        (run.1.filterMap Edit.given?).Pairwise (· < ·) :=
  ⟨_, rfl, by cbv, by cbv, World.replay_eq_roster (show World.empty 3 2 = _ from rfl) _⟩

end WordTiles
