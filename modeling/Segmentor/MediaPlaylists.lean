import Segmentor.MasterPlaylists

/-!
# The lines of media playlists

The text of a media playlist, as lines with the attribute lists of their tags,
and the playlist of a video track's I-frames.
-/

namespace Segmentor

open General

def mapLine (path : Text) (version : String) : TaggedLines.Line :=
  hlsTag "EXT-X-MAP" [("URI", .quoted (versioned path version))]

def KeyLine.line : KeyLine → TaggedLines.Line
  | .clear => hlsTag "EXT-X-KEY" [("METHOD", plainValue "NONE")]
  | .aes128 uri =>
      hlsTag "EXT-X-KEY" [("METHOD", plainValue "AES-128"),
        ("URI", quotedValue uri)]
  | .sampleAes attributes _ => hlsTag "EXT-X-KEY" attributes.list

def PlaylistLine.lines (version : String) :
    PlaylistLine → List TaggedLines.Line
  | .opening target =>
      mediaOpening target ++ [hlsLine "#EXT-X-INDEPENDENT-SEGMENTS"]
  | .discontinuity => [hlsLine "#EXT-X-DISCONTINUITY"]
  | .key line => [line.line]
  | .map none => [mapLine "init.mp4".toList version]
  | .map (some clip) =>
      [mapLine ("clips/".toList ++ decimal clip ++ "/init.mp4".toList) version]
  | .segment milliseconds number =>
      extinf milliseconds
        ("segments/".toList ++ decimal number ++ "/media.m4s".toList) version
  | .endList => [hlsLine "#EXT-X-ENDLIST"]

def playlistLines (version : String) (lines : List PlaylistLine) :
    List TaggedLines.Line :=
  lines.flatMap (PlaylistLine.lines version)

/-! ## I-frames -/

/-- The playlist of the video track's keyframes, each a fragment of its own;
none where I-frames are not offered. -/
def Hls.iframePlaylist (presentation : MediaPresentation) :
    Result (Option (List TaggedLines.Line)) :=
  match presentation.video with
  | none => .ok none
  | some track =>
      if presentation.aes128.isSome || presentation.rotating ||
          !presentation.iframes then
        .ok none
      else do
        let frames ← keyframes track
        let target := ((frames.map fun frame =>
          (frame.interval + track.timescale - 1) / track.timescale).max?).getD 1
        let version := presentation.version
        let entries ← frames.zipIdx.mapM fun (frame, index) => do
          let milliseconds ← okOr
            ((checkedMul (2 ^ 64) frame.interval 1000).bind fun interval =>
              checkedDiv interval track.timescale)
            (.invalidMedia "keyframe interval overflow")
          .ok (extinf milliseconds ("iframes/".toList ++ decimal index ++
            "/media.m4s".toList) version)
        .ok (some (mediaOpening target ++ [hlsLine "#EXT-X-I-FRAMES-ONLY"] ++
          playlistLines version (keyLines presentation.toPresentation track) ++
          [mapLine "init.mp4".toList version] ++ entries.flatten ++
          [hlsLine "#EXT-X-ENDLIST"]))

end Segmentor
