import Segmentor.SequenceNumbers

/-!
# Requests for adaptive sequences

Which file a request for a track of an adaptive sequence is answered from, in
each of its clips, and where the numbers of its segments start.
-/

namespace Segmentor

open General

/-! ## Assembling -/

namespace AdaptiveSequence

/-- The sequence of the grids that were built, which there are. -/
def assemble (built : Clip.Grids) (version : String) :
    Result AdaptiveSequence :=
  if hgrids : built.grids = [] then .error noVideoRendition
  else
    match hvideo : Segmentor.firstVideo built.grids,
        haudio : Segmentor.firstAudio built.grids with
    | .ok firstVideo, .ok firstAudio =>
        .ok
          { grids := built.grids
            starts := built.starts
            total := built.total
            version := version
            firstVideo := firstVideo
            firstAudio := firstAudio
            nonempty := hgrids
            video_numbered := hvideo
            audio_numbered := haudio }
    | .error error, _ => .error error
    | .ok _, .error error => .error error

theorem assemble_eq_ok {built : Clip.Grids} {version : String}
    {sequence : AdaptiveSequence} (h : assemble built version = .ok sequence) :
    sequence.grids = built.grids ∧ sequence.starts = built.starts := by
  unfold assemble at h
  split at h
  · cases h
  · split at h
    · obtain rfl := Except.ok.inj h
      exact ⟨rfl, rfl⟩
    · cases h
    · cases h

/-! ## Requests -/

variable (sequence : AdaptiveSequence)

/-- The playlists were rendered when the sequence was assembled. -/
def mediaPlaylist (rendition : Option Text) (key : TrackKey) :
    Result (List PlaylistLine) := do
  let video ← sequence.hlsVideo
  let audio ← sequence.hlsAudio
  renderedFor
    (fun id => ((sequence.firstGrid.video.zip video).find? fun entry =>
      entry.1.id == id).map Prod.snd)
    audio rendition key

/-- The file of a track in one clip, as an asset. -/
def owner (rendition : Option Text) (key : TrackKey) (clip : ℕ) :
    Result (PackagedAsset × TrackKey) := do
  let (file, internal) ← sequence.resolve rendition key clip
  .ok (file.asset, internal)

/-- The fragment for global segment `segmentIndex` of a track. -/
def prepareSegment (rendition : Option Text) (key : TrackKey)
    (segmentIndex : ℕ) : Result PendingSegment := do
  let (file, internal, local') ← sequence.locate rendition key segmentIndex
  file.asset.prepareNumberedSegment internal local'
    (saturatingAdd (2 ^ 32) segmentIndex 1)

end AdaptiveSequence

/-- What a track is called in the manifest. -/
def representationName (rendition : Option Text) (key : TrackKey) : Text :=
  match key.kind with
  | .video => videoName (rendition.getD [])
  | .audio => key.text.toList

/-! ## Grids of the same renditions -/

/-- Grids that are laid out alike: they have the same renditions with video
and the same audio. -/
structure LaidOut (grids : List (ClipGrid RenditionFile)) : Prop where
  video : ∀ grid ∈ grids, grid.video ≠ []
  distinct : ∀ grid ∈ grids, (grid.video.map RenditionEntry.id).Nodup
  aligned : ∀ grid ∈ grids, checkAlignment grid.video = .ok ()
  ids : ∀ a ∈ grids, ∀ b ∈ grids,
    a.video.map RenditionEntry.id = b.video.map RenditionEntry.id
  keys : ∀ a ∈ grids, ∀ b ∈ grids,
    a.audio.map AudioEntry.internalKey = b.audio.map AudioEntry.internalKey

theorem ClipGrid.keys_members {File : Type} (grid : ClipGrid File) :
    grid.members.map Prod.snd = grid.audio.map AudioEntry.internalKey := by
  unfold members
  rw [List.map_map]
  rfl

theorem Clip.GridsOf.laidOut {built : Clip.Grids}
    {rows : List (List (RenditionEntry RenditionFile))}
    (h : Clip.GridsOf rows built) : LaidOut built.grids := by
  have hrow : ∀ grid ∈ built.grids, ∃ row ∈ rows, GridOf row grid :=
    fun grid hgrid => exists_mem_of_forall₂ h.grids.flip hgrid
  refine ⟨?_, ?_, ?_, ?_, ?_⟩
  · intro grid hgrid
    obtain ⟨row, -, hof⟩ := hrow grid hgrid
    exact hof.nonempty
  · intro grid hgrid
    obtain ⟨row, hmem, hof⟩ := hrow grid hgrid
    rw [hof.video]
    exact (h.ids row hmem).sublist (List.filter_sublist.map _)
  · intro grid hgrid
    obtain ⟨row, -, hof⟩ := hrow grid hgrid
    exact hof.aligned
  · intro a ha b hb
    obtain ⟨rowA, hmemA, hofA⟩ := hrow a ha
    obtain ⟨rowB, hmemB, hofB⟩ := hrow b hb
    rw [hofA.video, hofB.video]
    exact map_eq_of_forall₂ (videoEntries_same (h.same _ hmemA _ hmemB))
      fun _ _ _ hsame => hsame.id
  · intro a ha b hb
    obtain ⟨rowA, hmemA, hofA⟩ := hrow a ha
    obtain ⟨rowB, hmemB, hofB⟩ := hrow b hb
    rw [← a.keys_members, ← b.keys_members, hofA.members, hofB.members]
    exact map_eq_of_forall₂ (sharedTracks_same (h.same _ hmemA _ hmemB))
      fun _ _ _ hsame => hsame.2

end Segmentor
