import Mathlib.Data.List.Basic
import Mathlib.Data.List.Perm.Basic
import Mathlib.Tactic.Choose

/-! Listings: lists that are determined by a relation between keys and items, in the order of the
keys. -/

namespace WordTiles

/-- A list holds the items that a relation gives to keys: one for each key, in their order. -/
def ListedBy {ι α : Type} [LT ι] (items : List α) (gives : ι → α → Prop) : Prop :=
  -- The keys are part of what is claimed, and the order of the items comes from them.
  ∃ keyed : List (ι × α), keyed.map Prod.snd = items ∧ keyed.Pairwise (·.1 < ·.1) ∧
    ∀ key item, (key, item) ∈ keyed ↔ gives key item

namespace ListedBy

variable {ι α β : Type} [LT ι] {items : List α} {gives : ι → α → Prop}

/-- An item is listed when it is given to some key. -/
theorem mem_iff (listed : ListedBy items gives) {item : α} :
    item ∈ items ↔ ∃ key, gives key item := by
  -- An item of the list has a key in it.
  obtain ⟨keyed, rfl, _, given⟩ := listed
  simp [given]

/-- It is told in other words which items are given. -/
theorem congr {others : ι → α → Prop} (listed : ListedBy items gives)
    (same : ∀ key item, gives key item ↔ others key item) : ListedBy items others := by
  -- The same keys serve for both relations.
  obtain ⟨keyed, whole, ordered, given⟩ := listed
  exact ⟨keyed, whole, ordered, fun key item => (given key item).trans (same key item)⟩

/-- What a list holds, and in which order, is determined by what is given. -/
theorem unique [Std.Asymm ((· < ·) : ι → ι → Prop)] {others : List α}
    (listed : ListedBy items gives) (also : ListedBy others gives) : items = others := by
  obtain ⟨keyed, rfl, ordered, given⟩ := listed
  obtain ⟨keyed', rfl, ordered', given'⟩ := also
  -- No key is below itself, so no entry is listed twice.
  have nodup {entries : List (ι × α)} (ordered : entries.Pairwise (·.1 < ·.1)) :
      entries.Nodup := by
    refine ordered.imp fun {a b} before same => ?_
    rw [same] at before
    exact Std.Asymm.asymm _ _ before before
  have same : keyed.Perm keyed' :=
    (List.perm_ext_iff_of_nodup (nodup ordered) (nodup ordered')).mpr
      fun entry => (given _ _).trans (given' _ _).symm
  rw [same.eq_of_pairwise (fun _ _ _ _ before after => absurd after (Std.Asymm.asymm _ _ before))
    ordered ordered']

/-- The items of a list are given to their places. -/
theorem places (items : List α) :
    ListedBy items fun (place : Nat) item => items[place]? = some item := by
  -- A list is paired with its places, which ascend.
  refine ⟨items.zipIdx.map Prod.swap, ?_, ?_, fun place item => ?_⟩
  · rw [List.map_map]
    exact List.zipIdx_map_fst 0 items
  · have ascending : (items.zipIdx.map Prod.snd).Pairwise (· < ·) := by
      rw [List.zipIdx_map_snd]
      exact List.pairwise_lt_range'
    exact List.pairwise_map.mpr (List.pairwise_map.mp ascending)
  · simp [List.mk_mem_zipIdx_iff_getElem?]

/-- The first items of a list are those at the first places. -/
theorem take (items : List α) (count : Nat) :
    ListedBy (items.take count) fun (place : Nat) item =>
      items[place]? = some item ∧ place < count := by
  -- Places below the count are the same in both lists.
  refine (places (items.take count)).congr fun place item => ?_
  rw [List.getElem?_take]
  split <;> simp_all

/-- The items of a list whose keys ascend are given to these. -/
theorem keys {key : α → ι} (ascending : items.Pairwise (key · < key ·)) :
    ListedBy items fun k item => item ∈ items ∧ k = key item := by
  -- Every item is paired with its own key.
  refine ⟨items.map fun item => (key item, item), by simp [Function.comp_def],
    List.pairwise_map.mpr ascending, fun k item => ?_⟩
  simp only [List.mem_map, Prod.mk.injEq]
  constructor
  · rintro ⟨_, listed, rfl, rfl⟩
    exact ⟨listed, rfl⟩
  · rintro ⟨listed, rfl⟩
    exact ⟨item, listed, rfl, rfl⟩

/-- Each key may be taken as a list of its own. -/
theorem singleton (listed : ListedBy items gives) :
    ListedBy items fun keys item => ∃ key, keys = [key] ∧ gives key item := by
  -- Lists of one key compare as the keys do.
  obtain ⟨keyed, rfl, ordered, given⟩ := listed
  refine ⟨keyed.map (Prod.map ([·]) id), by simp, List.pairwise_map.mpr (ordered.imp ?_), ?_⟩
  · exact fun before => List.cons_lt_cons_iff.mpr (.inl before)
  · intro keys item
    simp only [← given, List.mem_map, Prod.exists, Prod.map, Prod.mk.injEq, id]
    constructor
    · rintro ⟨key, _, member, rfl, rfl⟩
      exact ⟨key, rfl, member⟩
    · rintro ⟨key, rfl, member⟩
      exact ⟨key, item, member, rfl, rfl⟩

/-- What is made of some of the items stands under their keys. -/
theorem filterMap (listed : ListedBy items gives) (f : α → Option β) :
    ListedBy (items.filterMap f) fun key made => ∃ item, gives key item ∧ f item = some made := by
  -- Whatever is left out, the remaining keys still ascend.
  obtain ⟨keyed, rfl, ordered, given⟩ := listed
  refine ⟨keyed.filterMap fun entry => (f entry.2).map (entry.1, ·), ?_, ?_, fun key made => ?_⟩
  · rw [List.map_filterMap, List.filterMap_map]
    simp [Function.comp_def]
  · refine List.pairwise_filterMap.mpr (ordered.imp fun before one left other right => ?_)
    obtain ⟨_, _, rfl⟩ := Option.map_eq_some_iff.mp left
    obtain ⟨_, _, rfl⟩ := Option.map_eq_some_iff.mp right
    exact before
  · simp only [← given, List.mem_filterMap, Option.map_eq_some_iff, Prod.mk.injEq]
    constructor
    · rintro ⟨entry, member, _, made, rfl, rfl⟩
      exact ⟨entry.2, member, made⟩
    · rintro ⟨item, member, made⟩
      exact ⟨(key, item), member, _, made, rfl, rfl⟩

/-- The items that pass a test keep their keys. -/
theorem filter (listed : ListedBy items gives) (test : α → Bool) :
    ListedBy (items.filter test) fun key item => gives key item ∧ test item = true := by
  -- A filter keeps an item as it is.
  rw [← List.filterMap_eq_filter]
  refine (listed.filterMap _).congr fun key item => ?_
  simp [Option.guard_eq_some_iff]

/-- If a list is left with the items that lose to none of it, these are the items that are not
beaten from another place. -/
theorem unbeaten {loses : α → α → Bool} {beaten : Nat → α → Nat → α → Prop}
    (means : ∀ place item (rival : Nat) other, items[place]? = some item →
      items[rival]? = some other → (loses item other = true ↔ beaten place item rival other))
    (irrefl : ∀ place item, ¬ beaten place item place item) :
    ListedBy (items.filter fun item => !items.any (loses item)) fun (place : Nat) item =>
      items[place]? = some item ∧ ∀ (rival : Nat) other, rival ≠ place →
        items[rival]? = some other → ¬ beaten place item rival other := by
  refine ((places items).filter _).congr fun place item => and_congr_right fun stands => ?_
  rw [Bool.not_eq_true', List.any_eq_false]
  constructor
  · exact fun none rival other _ there way =>
      none other (List.mem_of_getElem? there) ((means place item rival other stands there).mpr way)
  · intro none other listed loses
    obtain ⟨rival, there⟩ := List.mem_iff_getElem?.mp listed
    have way := (means place item rival other stands there).mp loses
    refine none rival other ?_ there way
    -- At the same place there is the item itself.
    rintro rfl
    cases stands.symm.trans there
    exact irrefl _ _ way

/-- What is made of every item stands under its key. -/
theorem map (listed : ListedBy items gives) (f : α → β) :
    ListedBy (items.map f) fun key made => ∃ item, gives key item ∧ f item = made := by
  -- A map leaves no item out.
  rw [← List.filterMap_eq_map]
  exact (listed.filterMap _).congr fun key made => by simp

/-- A list without an item is listed by what gives none. -/
theorem nil {gives : ι → α → Prop} (none : ∀ key item, ¬ gives key item) : ListedBy [] gives :=
  -- There are no keys to choose.
  ⟨[], rfl, .nil, fun key item => ⟨nofun, fun given => (none key item given).elim⟩⟩

/-- If each item makes way for a list of its own, the keys are put in front of the keys there. -/
theorem flatMap (listed : ListedBy items gives) {make : α → List β}
    {further : α → List ι → β → Prop} (each : ∀ item ∈ items, ListedBy (make item) (further item)) :
    ListedBy (items.flatMap make) fun keys made =>
      ∃ key rest item, keys = key :: rest ∧ gives key item ∧ further item rest made := by
  obtain ⟨keyed, rfl, ordered, given⟩ := listed
  -- For each of the items its own list of keys is chosen.
  have lists : ∀ entry : ι × α, ∃ keyed' : List (List ι × β), entry ∈ keyed →
      keyed'.map Prod.snd = make entry.2 ∧ keyed'.Pairwise (·.1 < ·.1) ∧
        ∀ rest made, (rest, made) ∈ keyed' ↔ further entry.2 rest made := by
    intro entry
    by_cases member : entry ∈ keyed
    · obtain ⟨keyed', all⟩ := each _ (List.mem_map_of_mem member)
      exact ⟨keyed', fun _ => all⟩
    · exact ⟨[], fun listed => absurd listed member⟩
  choose lists all using lists
  refine ⟨keyed.flatMap fun entry => (lists entry).map (Prod.map (entry.1 :: ·) id), ?_, ?_, ?_⟩
  · rw [List.map_flatMap, List.flatMap_map]
    refine List.flatMap_congr fun entry member => ?_
    rw [← (all entry member).1]
    simp
  · refine List.pairwise_flatMap.mpr ⟨fun entry member => ?_, ?_⟩
    · -- Under one key the rest decides.
      refine List.pairwise_map.mpr ((all entry member).2.1.imp fun before => ?_)
      exact List.cons_lt_cons_iff.mpr (.inr ⟨rfl, before⟩)
    · refine ordered.imp fun before one left other right => ?_
      obtain ⟨_, _, rfl⟩ := List.mem_map.mp left
      obtain ⟨_, _, rfl⟩ := List.mem_map.mp right
      exact List.cons_lt_cons_iff.mpr (.inl before)
  · intro keys made
    rw [List.mem_flatMap]
    constructor
    · rintro ⟨entry, member, inside⟩
      obtain ⟨⟨rest, _⟩, there, same⟩ := List.mem_map.mp inside
      cases same
      exact ⟨entry.1, rest, entry.2, rfl, (given _ _).mp member,
        ((all entry member).2.2 _ _).mp there⟩
    · rintro ⟨key, rest, item, rfl, gives, more⟩
      have member := (given key item).mpr gives
      exact ⟨(key, item), member, List.mem_map.mpr
        ⟨(rest, made), ((all _ member).2.2 _ _).mpr more, rfl⟩⟩

end ListedBy

end WordTiles
