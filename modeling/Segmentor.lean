import Segmentor.AcceptedTexts
import Segmentor.AdaptiveNumbers
import Segmentor.AdaptiveRequests
import Segmentor.AdaptiveSequence
import Segmentor.AnnouncedFiles
import Segmentor.AssetRegistry
import Segmentor.Authorization
import Segmentor.AuthorizedContent
import Segmentor.AvcHeaders
import Segmentor.AvcMeasures
import Segmentor.AvcSlices
import Segmentor.AvcSyntax
import Segmentor.BlockChaining
import Segmentor.BoxRoundTrip
import Segmentor.BoxTiling
import Segmentor.Boxes
import Segmentor.ByteRanges
import Segmentor.CacheBooks
import Segmentor.CacheGrowth
import Segmentor.Clip
import Segmentor.ClipAssembly
import Segmentor.ClipFollowers
import Segmentor.ClipKeys
import Segmentor.ClipTimeline
import Segmentor.ClipWindows
import Segmentor.ConditionalRequests
import Segmentor.CounterMode
import Segmentor.CurrentAssets
import Segmentor.DecodeTimes
import Segmentor.DecryptedFiles
import Segmentor.EditListOverflow
import Segmentor.EditLists
import Segmentor.EditedTracks
import Segmentor.EncryptedFragments
import Segmentor.EncryptedLayout
import Segmentor.EncryptedSamples
import Segmentor.EncryptedSegments
import Segmentor.EntityTags
import Segmentor.Error
import Segmentor.Fingerprints
import Segmentor.FollowedAudio
import Segmentor.FragmentDecryption
import Segmentor.FragmentEntries
import Segmentor.FragmentNumbers
import Segmentor.FragmentOffsets
import Segmentor.FragmentPlayback
import Segmentor.FragmentReader
import Segmentor.FragmentRoundTrip
import Segmentor.FragmentSamples
import Segmentor.FragmentSequences
import Segmentor.FragmentWriter
import Segmentor.General.BigEndian
import Segmentor.General.BitReading
import Segmentor.General.BlockModes
import Segmentor.General.Blocks
import Segmentor.General.Carry
import Segmentor.General.CheckedArithmetic
import Segmentor.General.Delimited
import Segmentor.General.Eviction
import Segmentor.General.Fallible
import Segmentor.General.Fractions
import Segmentor.General.Framed
import Segmentor.General.Greedy
import Segmentor.General.HiddenState
import Segmentor.General.InForce
import Segmentor.General.Jagged
import Segmentor.General.Loops
import Segmentor.General.Numbering
import Segmentor.General.Numerals
import Segmentor.General.PartitionPoint
import Segmentor.General.Pieces
import Segmentor.General.RelatedLists
import Segmentor.General.Rounding
import Segmentor.General.Runs
import Segmentor.General.Scan
import Segmentor.General.Scatter
import Segmentor.General.Stretch
import Segmentor.General.Table
import Segmentor.General.TaggedLines
import Segmentor.General.Tiling
import Segmentor.General.Xml
import Segmentor.HardExpiry
import Segmentor.HeldManifests
import Segmentor.HevcMeasures
import Segmentor.HttpHandlers
import Segmentor.HttpMessages
import Segmentor.IframeFragments
import Segmentor.InBandSets
import Segmentor.InitDescriptions
import Segmentor.InitHeaders
import Segmentor.InitSegments
import Segmentor.InitWriter
import Segmentor.IpAddresses
import Segmentor.IpTexts
import Segmentor.KeyLines
import Segmentor.KeyPeriods
import Segmentor.KeySchedule
import Segmentor.KeyTexts
import Segmentor.KeyTimelines
import Segmentor.KeyframeCuts
import Segmentor.Keys
import Segmentor.KeysInForce
import Segmentor.Limits
import Segmentor.ListedSegments
import Segmentor.Manifests
import Segmentor.MapperAnswers
import Segmentor.MapperTexts
import Segmentor.MasterPlaylists
import Segmentor.MediaIndex
import Segmentor.MediaPlaylists
import Segmentor.MetadataParser
import Segmentor.MetadataWalk
import Segmentor.MoovReader
import Segmentor.MpdManifests
import Segmentor.MpdTexts
import Segmentor.NalInverses
import Segmentor.NalSyntax
import Segmentor.NalUnits
import Segmentor.PackagedAsset
import Segmentor.PackagedFiles
import Segmentor.PackagedStreams
import Segmentor.ParsedFiles
import Segmentor.PlainTexts
import Segmentor.PlaylistKeys
import Segmentor.PlaylistTexts
import Segmentor.PreparedSegments
import Segmentor.Presentation
import Segmentor.ProtectedSegments
import Segmentor.Protection
import Segmentor.ReadBudget
import Segmentor.RemoteLocations
import Segmentor.RemoteReads
import Segmentor.RenderedTexts
import Segmentor.RenderedTitles
import Segmentor.RenditionAlignment
import Segmentor.RenditionGrids
import Segmentor.Renditions
import Segmentor.RepackagedFiles
import Segmentor.Router
import Segmentor.SampleBounds
import Segmentor.SampleCiphers
import Segmentor.SampleEntries
import Segmentor.SampleIndex
import Segmentor.SampleIndexLookups
import Segmentor.SampleRoundTrip
import Segmentor.SampleSlices
import Segmentor.SampleTables
import Segmentor.SampleTablesEquivalence
import Segmentor.SegmentPlanner
import Segmentor.SegmentPlannerTiling
import Segmentor.SegmentTimes
import Segmentor.SencEntries
import Segmentor.Sequence
import Segmentor.SequenceNumbers
import Segmentor.ServedSubtitles
import Segmentor.SessionKeys
import Segmentor.ShiftedSubtitles
import Segmentor.SidxHint
import Segmentor.SidxJump
import Segmentor.SingleFlight
import Segmentor.SourceProtection
import Segmentor.StreamBytes
import Segmentor.StreamJob
import Segmentor.SubsampleCover
import Segmentor.Subsamples
import Segmentor.SubtitleText
import Segmentor.Subtitles
import Segmentor.SuppliedTexts
import Segmentor.TableReader
import Segmentor.TimeExpressions
import Segmentor.Timelines
import Segmentor.TrackDetails
import Segmentor.TruncatedTail
import Segmentor.TtmlTimes
import Segmentor.WalkBoxes
import Segmentor.WalkRounds
import Segmentor.WalkRuns
import Segmentor.WindowedReads
import Segmentor.WindowedWalk
