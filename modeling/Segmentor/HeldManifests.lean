import Mathlib.Algebra.BigOperators.Group.List.Basic
import Segmentor.Error
import Segmentor.General.Table
import Segmentor.HttpMessages
import Segmentor.Renditions

/-!
# Manifests made on request

What a loaded asset holds.  Playlists and manifests are rendered, and
compressed, when they are first asked for, and kept from then on.  What a
renderer writes, and what a compressor makes of it, are parameters.  Sizes are
of bytes in memory, so sums of them fit a word.
-/

namespace Segmentor

open General

/-! ## A manifest and its compressed forms -/

/-- A rendered playlist or manifest, with the compressed forms made so far. -/
structure ManifestForms where
  identity : List UInt8
  gzip : Option (List UInt8)
  brotli : Option (List UInt8)
  deriving DecidableEq, Repr

/-- What the two compressors make of a text. -/
structure Compressors where
  gzip : List UInt8 → List UInt8
  brotli : List UInt8 → List UInt8

namespace ManifestForms

def new (identity : List UInt8) : ManifestForms where
  identity := identity
  gzip := none
  brotli := none

/-- Bytes held by every form made so far. -/
def len (manifest : ManifestForms) : ℕ :=
  manifest.identity.length + manifest.gzip.elim 0 List.length +
    manifest.brotli.elim 0 List.length

/-- The body in a coding, and the manifest that keeps it. -/
def encoded (compressors : Compressors) (manifest : ManifestForms) :
    Encoding → List UInt8 × ManifestForms
  | .identity => (manifest.identity, manifest)
  | .gzip =>
      let body := manifest.gzip.getD (compressors.gzip manifest.identity)
      (body, { manifest with gzip := some body })
  | .brotli =>
      let body := manifest.brotli.getD (compressors.brotli manifest.identity)
      (body, { manifest with brotli := some body })

/-- Bytes of the form that a coding needs and that is not made yet. -/
def missing (compressors : Compressors) (manifest : ManifestForms) :
    Encoding → ℕ
  | .identity => 0
  | .gzip =>
      if manifest.gzip.isSome then 0
      else (compressors.gzip manifest.identity).length
  | .brotli =>
      if manifest.brotli.isSome then 0
      else (compressors.brotli manifest.identity).length

@[simp] theorem len_new (identity : List UInt8) :
    (new identity).len = identity.length := rfl

theorem len_encoded (compressors : Compressors) (manifest : ManifestForms)
    (encoding : Encoding) :
    (manifest.encoded compressors encoding).2.len =
      manifest.len + manifest.missing compressors encoding := by
  cases encoding with
  | identity => rfl
  | gzip =>
      unfold len encoded missing
      cases manifest.gzip with
      | none =>
          simp only [Option.getD_none, Option.elim_some, Option.elim_none,
            Option.isSome_none, Bool.false_eq_true, if_false]
          omega
      | some body => rfl
  | brotli =>
      unfold len encoded missing
      cases manifest.brotli with
      | none =>
          simp only [Option.getD_none, Option.elim_some, Option.elim_none,
            Option.isSome_none, Bool.false_eq_true, if_false]
          omega
      | some body => rfl

end ManifestForms

/-- The manifests an asset answers with, as requests name them. -/
inductive ManifestName
  | master
  | media (rendition : Option Text) (key : TrackKey)
  | iframes
  | subtitle
  | muxed
  | dash
  deriving DecidableEq

/-- Bytes of a manifest that may not be made yet. -/
def renderedLen (cell : Option ManifestForms) : ℕ :=
  cell.elim 0 ManifestForms.len

/-! ## A loaded file -/

/-- The manifests of one file.  All but the master are rendered on their first
request; that there is no I-frame playlist is kept as well. -/
structure RenderedManifests where
  hlsMaster : ManifestForms
  hlsMedia : List (TrackKey × Option ManifestForms)
  hlsIframes : Option (Option ManifestForms)
  hlsSubtitle : Option ManifestForms
  hlsMuxed : Option ManifestForms
  dash : Option ManifestForms
  hlsMedia_nodup : (hlsMedia.map Prod.fst).Nodup

namespace RenderedManifests

/-- Bytes held by what has been rendered so far. -/
def len (manifests : RenderedManifests) : ℕ :=
  manifests.hlsMaster.len + renderedLen manifests.dash +
    renderedLen manifests.hlsSubtitle + renderedLen manifests.hlsMuxed +
    (manifests.hlsMedia.map fun entry => renderedLen entry.2).sum +
    renderedLen manifests.hlsIframes.join

/-- The cell of a manifest; there is none for a track the file lacks. -/
def cell (manifests : RenderedManifests) :
    ManifestName → Option (Option ManifestForms)
  | .master => some (some manifests.hlsMaster)
  | .media none key => Table.get manifests.hlsMedia key
  | .media (some _) _ => none
  | .iframes => some manifests.hlsIframes.join
  | .subtitle => some manifests.hlsSubtitle
  | .muxed => some manifests.hlsMuxed
  | .dash => some manifests.dash

/-- The manifests with one of them put in its cell. -/
def store (manifests : RenderedManifests) (manifest : ManifestForms) :
    ManifestName → RenderedManifests
  | .master => { manifests with hlsMaster := manifest }
  | .media none key =>
      { manifests with
        hlsMedia := Table.put manifests.hlsMedia key (some manifest)
        hlsMedia_nodup :=
          Table.nodup_put manifests.hlsMedia_nodup key (some manifest) }
  | .media (some _) _ => manifests
  | .iframes => { manifests with hlsIframes := some (some manifest) }
  | .subtitle => { manifests with hlsSubtitle := some manifest }
  | .muxed => { manifests with hlsMuxed := some manifest }
  | .dash => { manifests with dash := some manifest }

theorem len_store {manifests : RenderedManifests} {name : ManifestName}
    {before : Option ManifestForms} (h : manifests.cell name = some before)
    (manifest : ManifestForms) :
    (manifests.store manifest name).len + renderedLen before =
      manifests.len + manifest.len := by
  have hsome : renderedLen (some manifest) = manifest.len := rfl
  cases name with
  | media rendition key =>
      cases rendition with
      | some id => cases h
      | none =>
          have hsum := @Table.sum_put _ _ _ renderedLen _ key _ (some manifest)
            manifests.hlsMedia_nodup h
          rw [hsome] at hsum
          simp only [store, len]
          omega
  | master =>
      obtain rfl : some manifests.hlsMaster = before := Option.some.inj h
      simp only [store, len, renderedLen, Option.elim_some]
      omega
  | iframes =>
      obtain rfl : manifests.hlsIframes.join = before := Option.some.inj h
      simp only [store, len, Option.join_some, hsome]
      omega
  | subtitle | muxed | dash =>
      obtain rfl := Option.some.inj h
      simp only [store, len, hsome]
      omega

end RenderedManifests

/-- What a loaded file holds, and what its renderers write. -/
structure HeldFile where
  /-- Bytes of each track's sample tables. -/
  tables : List ℕ
  decryption : ℕ
  initSegments : List (TrackKey × List UInt8)
  muxedInit : Option (List UInt8)
  subtitles : List (List UInt8)
  manifests : RenderedManifests
  render : ManifestName → Result (List UInt8)
  renderIframes : Result (Option (List UInt8))

namespace HeldFile

def indexBytes (file : HeldFile) : ℕ :=
  file.tables.sum + file.decryption +
    ((file.initSegments.map fun entry => entry.2.length).sum +
      file.muxedInit.elim 0 List.length) +
    file.manifests.len + (file.subtitles.map List.length).sum

/-- The file after a request for a manifest, which is rendered unless its cell
is set; a renderer that fails leaves the cell as it was. -/
def requestCell (file : HeldFile) (name : ManifestName) : HeldFile :=
  match file.manifests.cell name, file.render name with
  | some none, .ok text =>
      { file with manifests := file.manifests.store (.new text) name }
  | _, _ => file

def requestIframes (file : HeldFile) : HeldFile :=
  match file.manifests.hlsIframes, file.renderIframes with
  | none, .ok text =>
      { file with
        manifests :=
          { file.manifests with hlsIframes := some (text.map .new) } }
  | _, _ => file

def request (file : HeldFile) : ManifestName → HeldFile
  | .iframes => file.requestIframes
  | name => file.requestCell name

/-- Bytes of the manifest that a request renders. -/
def unrendered (file : HeldFile) : ManifestName → ℕ
  | .iframes =>
      match file.manifests.hlsIframes, file.renderIframes with
      | none, .ok text => text.elim 0 List.length
      | _, _ => 0
  | name =>
      match file.manifests.cell name, file.render name with
      | some none, .ok text => text.length
      | _, _ => 0

theorem indexBytes_store {file : HeldFile} {name : ManifestName}
    {before : Option ManifestForms}
    (h : file.manifests.cell name = some before) (manifest : ManifestForms) :
    ({ file with manifests := file.manifests.store manifest name } :
      HeldFile).indexBytes + renderedLen before =
      file.indexBytes + manifest.len := by
  have hlen := RenderedManifests.len_store h manifest
  simp only [indexBytes]
  omega

theorem indexBytes_requestCell (file : HeldFile) (name : ManifestName) :
    (file.requestCell name).indexBytes =
      file.indexBytes +
        match file.manifests.cell name, file.render name with
        | some none, .ok text => text.length
        | _, _ => 0 := by
  unfold requestCell
  split
  · next text hcell _ => exact indexBytes_store hcell (.new text)
  · rfl

theorem indexBytes_request (file : HeldFile) (name : ManifestName) :
    (file.request name).indexBytes =
      file.indexBytes + file.unrendered name := by
  cases name with
  | master | media | subtitle | muxed | dash =>
      exact indexBytes_requestCell file _
  | iframes =>
      simp only [request, requestIframes, unrendered]
      split
      · next text hnone _ =>
          simp only [indexBytes, RenderedManifests.len, hnone]
          cases text with
          | none => rfl
          | some text =>
              simp only [Option.map_some, Option.join_some, Option.elim_some,
                renderedLen, ManifestForms.len_new, Option.join_none,
                Option.elim_none]
              omega
      · rfl

end HeldFile

/-! ## The other kinds of assets -/

/-- The media playlists of video renditions, by their ids, and of the audio
group, whose members are counted from one. -/
structure MediaPlaylists where
  hlsVideo : List (Text × ManifestForms)
  hlsAudio : List ManifestForms
  hlsVideo_nodup : (hlsVideo.map Prod.fst).Nodup

namespace MediaPlaylists

def len (playlists : MediaPlaylists) : ℕ :=
  (playlists.hlsVideo.map fun entry => entry.2.len).sum +
    (playlists.hlsAudio.map ManifestForms.len).sum

def playlist (playlists : MediaPlaylists) (rendition : Option Text)
    (key : TrackKey) : Option ManifestForms :=
  match key.kind, rendition with
  | .video, some id => Table.get playlists.hlsVideo id
  | .audio, none =>
      (checkedSub (audioOrdinal key) 1).bind fun member =>
        playlists.hlsAudio[member]?
  | _, _ => none

def store (playlists : MediaPlaylists) (manifest : ManifestForms)
    (rendition : Option Text) (key : TrackKey) : MediaPlaylists :=
  match key.kind, rendition with
  | .video, some id =>
      { playlists with
        hlsVideo := Table.put playlists.hlsVideo id manifest
        hlsVideo_nodup :=
          Table.nodup_put playlists.hlsVideo_nodup id manifest }
  | .audio, none =>
      { playlists with
        hlsAudio := playlists.hlsAudio.set (audioOrdinal key - 1) manifest }
  | _, _ => playlists

theorem len_store {playlists : MediaPlaylists} {rendition : Option Text}
    {key : TrackKey} {before : ManifestForms}
    (h : playlists.playlist rendition key = some before)
    (manifest : ManifestForms) :
    (playlists.store manifest rendition key).len + before.len =
      playlists.len + manifest.len := by
  unfold playlist at h
  unfold store
  split at h
  · next id hkind =>
      have hsum := @Table.sum_put _ _ _ ManifestForms.len _ id _ manifest
        playlists.hlsVideo_nodup h
      simp only [len]
      omega
  · next hkind =>
      obtain ⟨member, hmember, hget⟩ := Option.bind_eq_some_iff.mp h
      obtain ⟨-, rfl⟩ := checkedSub_eq_some_iff.mp hmember
      have hsum := @sum_map_set _ ManifestForms.len _ _ _ manifest hget
      simp only [len]
      omega
  · cases h

end MediaPlaylists

/-- The manifests of several files served as one title, all rendered when it
is loaded. -/
structure CompositeManifests extends MediaPlaylists where
  hlsMaster : ManifestForms
  hlsIframes : Option ManifestForms
  hlsSubtitle : ManifestForms
  dash : ManifestForms

namespace CompositeManifests

def find (manifests : CompositeManifests) :
    ManifestName → Option ManifestForms
  | .master => some manifests.hlsMaster
  | .media rendition key => manifests.playlist rendition key
  | .iframes => manifests.hlsIframes
  | .subtitle => some manifests.hlsSubtitle
  | .muxed => none
  | .dash => some manifests.dash

def store (manifests : CompositeManifests) (manifest : ManifestForms) :
    ManifestName → CompositeManifests
  | .master => { manifests with hlsMaster := manifest }
  | .media rendition key =>
      { manifests with
        toMediaPlaylists :=
          manifests.toMediaPlaylists.store manifest rendition key }
  | .iframes => { manifests with hlsIframes := some manifest }
  | .subtitle => { manifests with hlsSubtitle := manifest }
  | .muxed => manifests
  | .dash => { manifests with dash := manifest }

/-- Bytes that count; those of the media playlists do not. -/
def len (manifests : CompositeManifests) : ℕ :=
  manifests.hlsMaster.len + manifests.dash.len + manifests.hlsSubtitle.len +
    renderedLen manifests.hlsIframes

theorem len_store {manifests : CompositeManifests} {name : ManifestName}
    {before : ManifestForms} (h : manifests.find name = some before)
    (hcounts : ∀ rendition key, name ≠ .media rendition key)
    (manifest : ManifestForms) :
    (manifests.store manifest name).len + before.len =
      manifests.len + manifest.len := by
  cases name with
  | media rendition key => exact absurd rfl (hcounts rendition key)
  | muxed => cases h
  | iframes =>
      simp only [find] at h
      simp only [store, len, renderedLen, h, Option.elim_some]
      omega
  | master | subtitle | dash =>
      obtain rfl := Option.some.inj h
      simp only [store, len]
      omega

end CompositeManifests

/-- The manifests of a sequence of clips. -/
structure SequenceManifests where
  hlsMaster : ManifestForms
  hlsMedia : List (TrackKey × ManifestForms)
  dash : ManifestForms
  hlsMedia_nodup : (hlsMedia.map Prod.fst).Nodup

namespace SequenceManifests

def find (manifests : SequenceManifests) :
    ManifestName → Option ManifestForms
  | .master => some manifests.hlsMaster
  | .media none key => Table.get manifests.hlsMedia key
  | .dash => some manifests.dash
  | .media (some _) _ | .iframes | .subtitle | .muxed => none

def store (manifests : SequenceManifests) (manifest : ManifestForms) :
    ManifestName → SequenceManifests
  | .master => { manifests with hlsMaster := manifest }
  | .media none key =>
      { manifests with
        hlsMedia := Table.put manifests.hlsMedia key manifest
        hlsMedia_nodup :=
          Table.nodup_put manifests.hlsMedia_nodup key manifest }
  | .dash => { manifests with dash := manifest }
  | .media (some _) _ | .iframes | .subtitle | .muxed => manifests

def len (manifests : SequenceManifests) : ℕ :=
  manifests.hlsMaster.len + manifests.dash.len +
    (manifests.hlsMedia.map fun entry => entry.2.len).sum

theorem len_store {manifests : SequenceManifests} {name : ManifestName}
    {before : ManifestForms} (h : manifests.find name = some before)
    (manifest : ManifestForms) :
    (manifests.store manifest name).len + before.len =
      manifests.len + manifest.len := by
  cases name with
  | media rendition key =>
      cases rendition with
      | some id => cases h
      | none =>
          have hsum := @Table.sum_put _ _ _ ManifestForms.len _ key _ manifest
            manifests.hlsMedia_nodup h
          simp only [store, len]
          omega
  | iframes | subtitle | muxed => cases h
  | master | dash =>
      obtain rfl := Option.some.inj h
      simp only [store, len]
      omega

end SequenceManifests

/-- The manifests of a sequence whose clips have renditions. -/
structure AdaptiveManifests extends MediaPlaylists where
  hlsMaster : ManifestForms
  dash : ManifestForms

namespace AdaptiveManifests

def find (manifests : AdaptiveManifests) :
    ManifestName → Option ManifestForms
  | .master => some manifests.hlsMaster
  | .media rendition key => manifests.playlist rendition key
  | .dash => some manifests.dash
  | .iframes | .subtitle | .muxed => none

def store (manifests : AdaptiveManifests) (manifest : ManifestForms) :
    ManifestName → AdaptiveManifests
  | .master => { manifests with hlsMaster := manifest }
  | .media rendition key =>
      { manifests with
        toMediaPlaylists :=
          manifests.toMediaPlaylists.store manifest rendition key }
  | .dash => { manifests with dash := manifest }
  | .iframes | .subtitle | .muxed => manifests

def len (manifests : AdaptiveManifests) : ℕ :=
  manifests.hlsMaster.len + manifests.dash.len +
    manifests.toMediaPlaylists.len

theorem len_store {manifests : AdaptiveManifests} {name : ManifestName}
    {before : ManifestForms} (h : manifests.find name = some before)
    (manifest : ManifestForms) :
    (manifests.store manifest name).len + before.len =
      manifests.len + manifest.len := by
  cases name with
  | media rendition key =>
      have hsum := MediaPlaylists.len_store h manifest
      simp only [store, len]
      omega
  | iframes | subtitle | muxed => cases h
  | master | dash =>
      obtain rfl := Option.some.inj h
      simp only [store, len]
      omega

end AdaptiveManifests

/-! ## A loaded asset -/

/-- An asset that requests are answered from. -/
inductive HeldAsset
  | single (file : HeldFile)
  | composite (files : List HeldFile) (subtitles : List (List UInt8))
      (manifests : CompositeManifests)
  | sequence (clips : List HeldFile) (manifests : SequenceManifests)
  | adaptiveSequence (files : List HeldFile)
      (manifests : AdaptiveManifests)

namespace HeldAsset

/-- Estimated resident bytes held for the asset as it stands. -/
def indexBytes : HeldAsset → ℕ
  | .single file => file.indexBytes
  | .composite files subtitles manifests =>
      (files.map HeldFile.indexBytes).sum + manifests.len +
        (subtitles.map List.length).sum
  | .sequence clips manifests =>
      (clips.map HeldFile.indexBytes).sum + manifests.len
  | .adaptiveSequence files manifests =>
      (files.map HeldFile.indexBytes).sum + manifests.len

/-- The manifest that is made under a name, if it is. -/
def find : HeldAsset → ManifestName → Option ManifestForms
  | .single file, name => (file.manifests.cell name).join
  | .composite _ _ manifests, name => manifests.find name
  | .sequence _ manifests, name => manifests.find name
  | .adaptiveSequence _ manifests, name => manifests.find name

def store (manifest : ManifestForms) (name : ManifestName) :
    HeldAsset → HeldAsset
  | .single file =>
      .single { file with manifests := file.manifests.store manifest name }
  | .composite files subtitles manifests =>
      .composite files subtitles (manifests.store manifest name)
  | .sequence clips manifests =>
      .sequence clips (manifests.store manifest name)
  | .adaptiveSequence files manifests =>
      .adaptiveSequence files (manifests.store manifest name)

/-- Whether the bytes of a manifest are part of what the asset weighs: those
of a composite's media playlists are not. -/
def counts : HeldAsset → ManifestName → Bool
  | .composite _ _ _, .media _ _ => false
  | _, _ => true

/-- The asset after a request looked a manifest up. -/
def request (name : ManifestName) : HeldAsset → HeldAsset
  | .single file => .single (file.request name)
  | asset => asset

def unrendered (name : ManifestName) : HeldAsset → ℕ
  | .single file => file.unrendered name
  | _ => 0

/-- The asset after a manifest that is made was sent in a coding. -/
def encode (compressors : Compressors) (name : ManifestName)
    (encoding : Encoding) (asset : HeldAsset) : HeldAsset :=
  match asset.find name with
  | some manifest =>
      asset.store (manifest.encoded compressors encoding).2 name
  | none => asset

/-- Bytes of the compressed form that this makes, as far as they count. -/
def uncompressed (compressors : Compressors) (name : ManifestName)
    (encoding : Encoding) (asset : HeldAsset) : ℕ :=
  match asset.find name with
  | some manifest =>
      if asset.counts name then manifest.missing compressors encoding else 0
  | none => 0

theorem indexBytes_request (name : ManifestName) (asset : HeldAsset) :
    (asset.request name).indexBytes =
      asset.indexBytes + asset.unrendered name := by
  cases asset with
  | single file => exact file.indexBytes_request name
  | composite | sequence | adaptiveSequence => rfl

theorem indexBytes_store {asset : HeldAsset} {name : ManifestName}
    {before : ManifestForms} (h : asset.find name = some before)
    (manifest : ManifestForms) :
    (asset.store manifest name).indexBytes +
        (if asset.counts name then before.len else 0) =
      asset.indexBytes +
        (if asset.counts name then manifest.len else 0) := by
  cases asset with
  | single file =>
      have hcell : file.manifests.cell name = some (some before) :=
        Option.join_eq_some_iff.mp h
      exact HeldFile.indexBytes_store hcell manifest
  | composite files subtitles manifests =>
      change manifests.find name = some before at h
      cases name with
      | media rendition key => rfl
      | master | iframes | subtitle | muxed | dash =>
          have hlen := CompositeManifests.len_store h (by simp) manifest
          simp only [store, indexBytes, counts, if_true]
          omega
  | sequence clips manifests =>
      change manifests.find name = some before at h
      have hlen := SequenceManifests.len_store h manifest
      simp only [store, indexBytes, counts, if_true]
      omega
  | adaptiveSequence files manifests =>
      change manifests.find name = some before at h
      have hlen := AdaptiveManifests.len_store h manifest
      simp only [store, indexBytes, counts, if_true]
      omega

theorem indexBytes_encode (compressors : Compressors) (name : ManifestName)
    (encoding : Encoding) (asset : HeldAsset) :
    (asset.encode compressors name encoding).indexBytes =
      asset.indexBytes + asset.uncompressed compressors name encoding := by
  unfold encode uncompressed
  cases hfind : asset.find name with
  | none => rfl
  | some manifest =>
      have hstore := indexBytes_store hfind
        (manifest.encoded compressors encoding).2
      rw [manifest.len_encoded] at hstore
      dsimp only
      split_ifs at hstore ⊢ <;> omega

end HeldAsset

end Segmentor
