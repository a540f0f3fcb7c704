import WordTiles.Json.Entity
import WordTiles.Phrase.Marks

/-! JSON for phrases and marks. -/

namespace WordTiles.Codec

instance : Codec SentencePart := byName SentencePart.all SentencePart.name

instance : Codec PathRole := byName PathRole.all PathRole.name

instance : Codec PlacedWord where
  -- The word is written with its tile, so that a phrase can be traced on its grid.
  write word :=
    .object [("word", write word.word), ("position", write word.position),
      ("entity", write word.entity), ("role", write word.part)]
  read? json := do
    let [word, position, entity, part] ←
      json.fields? ["word", "position", "entity", "role"] | none
    return {
      word := ← required word
      position := ← required position
      entity := ← required entity
      part := ← required part }

instance : Codec Phrase where
  write phrase := .object [("words", write phrase.words)]
  read? json := do
    let [words] ← json.fields? ["words"] | none
    return ⟨← required words⟩

instance : Codec Mark where
  write mark :=
    .object [("phrase", write mark.phrase), ("direction", write mark.direction),
      ("role", write mark.role)]
  read? json := do
    let [phrase, direction, role] ← json.fields? ["phrase", "direction", "role"] | none
    return ⟨← required phrase, ← required direction, ← required role⟩

end WordTiles.Codec
