/-! Identifiers of entities and of phrases. -/

namespace WordTiles

/-- The identifier of an entity, unique in its world and never given out again. -/
structure EntityId where
  val : UInt32
  deriving DecidableEq, Hashable

namespace EntityId

instance : LT EntityId := ⟨fun a b => a.val < b.val⟩

instance (a b : EntityId) : Decidable (a < b) := inferInstanceAs (Decidable (a.val < b.val))

/-- The written form of an entity identifier. -/
def text (id : EntityId) : String := s!"Entity({id.val.toNat})"

end EntityId

/-- The identifier of a phrase: its place among the phrases of one search. -/
structure PhraseId where
  val : UInt32
  deriving DecidableEq

namespace PhraseId

/-- The written form of a phrase identifier. -/
def text (id : PhraseId) : String := s!"Phrase({id.val.toNat})"

end PhraseId

end WordTiles
