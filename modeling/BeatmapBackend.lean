import BeatmapBackend.Effects.Safety
import BeatmapBackend.Effects.Protocol
import BeatmapBackend.Collections.Documents
import BeatmapBackend.Queues.Flows
import BeatmapBackend.Paths.PurePosix
import BeatmapBackend.Numerics.Rounding
import BeatmapBackend.Numerics.Arrays
import BeatmapBackend.Maps.Dtos
import BeatmapBackend.Maps.Exceptions
import BeatmapBackend.Maps.Configs
import BeatmapBackend.Maps.Consistency
import BeatmapBackend.Maps.Isolation
import BeatmapBackend.Maps.LocalPaths
import BeatmapBackend.Maps.KickAudio
import BeatmapBackend.Maps.Loudness
import BeatmapBackend.Maps.Novelty
import BeatmapBackend.Maps.Energies
import BeatmapBackend.Maps.Tempo
import BeatmapBackend.Maps.NotesSurvive
import BeatmapBackend.Maps.Creation
import BeatmapBackend.Maps.Playable
import BeatmapBackend.Maps.Spacing
import BeatmapBackend.Maps.TerminalStatus
import BeatmapBackend.Maps.Endings
import BeatmapBackend.Maps.Retries
import BeatmapBackend.Maps.Answers
import BeatmapBackend.Maps.Song
import BeatmapBackend.Maps.Strangers
import BeatmapBackend.Maps.Readiness
import BeatmapBackend.Maps.Polls
import BeatmapBackend.Maps.Cdn
import BeatmapBackend.Maps.Attempts
import BeatmapBackend.Maps.Responses
import BeatmapBackend.Maps.Combo
import BeatmapBackend.Maps.StemSeparator
import BeatmapBackend.Maps.AudioUrl
import BeatmapBackend.Maps.OnsetFloor
import BeatmapBackend.Maps.Filterbank
import BeatmapBackend.Golden.Acceptance
import BeatmapBackend.Golden.Tracks
import BeatmapBackend.Migrations.Interleaving
