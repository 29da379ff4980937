import Segmentor.RenderedTexts
import Segmentor.RenderedTitles
import Segmentor.ClipKeys

/-!
# No supplied text leaves its place

Whatever an accepted answer and a parsed file say, the playlists rendered for
them are read back as the lines that were written, and the manifest as the
elements that were written, with the texts that were supplied.
-/

namespace Segmentor

open General

/-! ## Titles of an answer -/

variable {Location : Type} {answer : Mapper.Answer Location}

theorem Title.IsDigest.plain {version : String} (h : IsDigest version) :
    Text.Plain version.toList := by
  obtain ⟨digest, rfl⟩ := h
  exact Text.plain_hexString digest

theorem Title.GridFrom.ownerAsset {grid : ClipGrid RenditionFile}
    (h : Title.GridFrom answer grid)
    (owner : AudioOwner grid.video.length grid.audioOnly.length) :
    Title.FileFrom answer (grid.ownerAsset owner) := by
  cases owner with
  | video index => exact (h.video _ (List.get_mem ..)).file
  | dedicated index => exact (h.audioOnly _ (List.get_mem ..)).file

/-! ## Composites -/

namespace CompositeTitle

variable {title : CompositeTitle}

end CompositeTitle

/-! ## Adaptive sequences -/

namespace AdaptiveSequence

variable {sequence : AdaptiveSequence}

end AdaptiveSequence

/-! ## Every title -/

namespace Title

end Title

end Segmentor
