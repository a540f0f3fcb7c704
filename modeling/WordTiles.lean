import WordTiles.Json.Phrase
import WordTiles.Json.Rules
import WordTiles.Proofs.Hex.Grid
import WordTiles.Proofs.Sentence.Growth
import WordTiles.Proofs.Sentence.Parse
import WordTiles.Proofs.World.Shown
import WordTiles.Proofs.Sentence.Readings
import WordTiles.Proofs.Rules.Applying
import WordTiles.Proofs.Rules.Settling
import WordTiles.Proofs.Sentence.Maximal
import WordTiles.Proofs.Sentence.OneWay
import WordTiles.Proofs.Sentence.Found
import WordTiles.Proofs.Sentence.Stated
import WordTiles.Proofs.Rules.SimpleSentence
import WordTiles.Proofs.World.Edits
import WordTiles.Proofs.Rules.Rounds
import WordTiles.Proofs.Rules.Indicators
import WordTiles.Proofs.Rules.Changes
import WordTiles.Proofs.Rules.Resting
import WordTiles.Proofs.Rules.Sites
import WordTiles.Proofs.Rules.Destroying
import WordTiles.Proofs.Rules.Displaying
import WordTiles.Proofs.Rules.Totality
import WordTiles.Proofs.Rules.Turning
import WordTiles.Proofs.Rules.Convergence
import WordTiles.Proofs.World.Arrivals
import WordTiles.Proofs.Sentence.Discovery
import WordTiles.Proofs.Rules.Pausing
import WordTiles.Proofs.Rules.Listening
import WordTiles.Proofs.Rules.Room
import WordTiles.Proofs.Rules.Playing
import WordTiles.Proofs.World.Ledger
import WordTiles.Proofs.Rules.Accounting
import WordTiles.Proofs.Rules.Restoring
import WordTiles.Proofs.Sentence.Borders
import WordTiles.Proofs.Sentence.Shifting
import WordTiles.Proofs.Sentence.Layout
import WordTiles.Proofs.Sentence.Faces
import WordTiles.Proofs.Rules.Collapsing
import WordTiles.Proofs.Rules.Arrangement
import WordTiles.Proofs.Sentence.Draining
import WordTiles.Proofs.Sentence.Marking
import WordTiles.Proofs.Rules.Justifying
import WordTiles.Proofs.Rules.Equipping
import WordTiles.Proofs.Rules.Repeating
import WordTiles.Proofs.Rules.Reporting
import WordTiles.Proofs.Rules.Patching
import WordTiles.Proofs.Rules.Collecting
import WordTiles.Proofs.Rules.Recording
import WordTiles.Proofs.Hex.Distance
import WordTiles.Proofs.Json.RoundTrip
import WordTiles.Proofs.Sentence.Rivals
import WordTiles.Proofs.Sentence.Routes
