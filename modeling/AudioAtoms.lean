import AudioAtoms.Main
import AudioAtoms.Proofs.Execution
import AudioAtoms.Stream.Session
import AudioAtoms.Proofs.Payload
import AudioAtoms.Proofs.Stopping
import AudioAtoms.Proofs.Shortage
import AudioAtoms.Proofs.Content
import AudioAtoms.Proofs.Descriptors
import AudioAtoms.Proofs.TagContent
import AudioAtoms.Proofs.Forest
import AudioAtoms.Proofs.Visit
import AudioAtoms.Proofs.WalkVisit
import AudioAtoms.Proofs.HexFields
import AudioAtoms.Proofs.TextCodec
import AudioAtoms.Proofs.ArenaLayout
import AudioAtoms.Proofs.FreeformTags
import AudioAtoms.Proofs.Recording
import AudioAtoms.Proofs.ReadTrack
import AudioAtoms.Proofs.RoundTrip
import AudioAtoms.Proofs.Containment
import AudioAtoms.Proofs.Truncation
import AudioAtoms.Proofs.Buffering
import AudioAtoms.Proofs.Sufficiency
import AudioAtoms.Proofs.Displacement
import AudioAtoms.Proofs.Steps
import AudioAtoms.Proofs.FirstValue
import AudioAtoms.Proofs.Gapless
import AudioAtoms.Proofs.Footprint
import AudioAtoms.Proofs.Acceptance
import AudioAtoms.Proofs.Playback
import AudioAtoms.Proofs.Statements
import AudioAtoms.Proofs.Soundtracks
import AudioAtoms.Proofs.Scripts
import AudioAtoms.Proofs.Pace
import AudioAtoms.Proofs.Scopes
import AudioAtoms.Proofs.Consistency
import AudioAtoms.Proofs.ArenaUse
import AudioAtoms.Proofs.CoverImage
import AudioAtoms.Proofs.Failures
import AudioAtoms.Proofs.Checked.Basic
import AudioAtoms.Proofs.Insertion
import AudioAtoms.Proofs.Checked.Streams
import AudioAtoms.Proofs.Checked.Atoms
import AudioAtoms.Proofs.Checked.Codec
import AudioAtoms.Proofs.Checked.Arena
import AudioAtoms.Proofs.Checked.Tags
import AudioAtoms.Proofs.Checked.Walk
import AudioAtoms.Proofs.Checked.Track
import AudioAtoms.Proofs.DescriptorGrammar
import AudioAtoms.Proofs.Recovery
import AudioAtoms.Proofs.Independence
import AudioAtoms.Proofs.Configuration
import AudioAtoms.Proofs.TextCut
import AudioAtoms.Proofs.Seeking
import AudioAtoms.Proofs.SampleTotals
import AudioAtoms.Proofs.GainTags
import AudioAtoms.Proofs.Feeds
import AudioAtoms.Proofs.Headers
import AudioAtoms.Proofs.HeaderCharge
import AudioAtoms.Proofs.DescriptorLengths
