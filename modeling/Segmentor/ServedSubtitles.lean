import Segmentor.ListedSegments
import Segmentor.Subtitles

/-!
# Loading the subtitles of an asset

The registry loads what a mapper answered: one file, several renditions of
it, or clips.  Opening and parsing the files is a parameter, and so is what
is built of them; the subtitles' way from the fetched bytes to the served
ones is here.
-/

namespace Segmentor

open General

/-! ## What a mapper answers -/

/-- A sidecar subtitle file the mapper attached to an asset. -/
structure SubtitleLocation (Location : Type) where
  language : String
  label : String
  default : Bool
  forced : Bool
  location : Location

inductive RenditionSource (Location Clip : Type)
  | location (location : Location)
  | clips (clips : List Clip)

structure RenditionLocation (Location Clip : Type) where
  id : String
  source : RenditionSource Location Clip

/-- A language as it is compared: up to the case of ASCII letters. -/
def foldCase (language : String) : Text :=
  language.toList.map Char.toLower

/-- A resolver's answer for one asset: a file, renditions or clips. -/
structure ResolvedAsset (Location Clip : Type) where
  location : Option Location
  renditions : List (RenditionLocation Location Clip)
  clips : List Clip
  subtitles : List (SubtitleLocation Location)
  location_of_single : clips = [] → renditions = [] → location.isSome = true
  languages_unique :
    (subtitles.map fun entry => foldCase entry.language).Nodup

/-! ## What is loaded -/

/-- One subtitle file of an asset: what was fetched, or what is served. -/
structure Subtitle where
  language : String
  label : String
  default : Bool
  forced : Bool
  data : ByteArray

/-- A parsed file, and how much later than its own clock it is served. -/
structure LoadedFile where
  asset : PackagedAsset
  presentationOffsetMs : ℕ

inductive ServedAsset (Clips : Type)
  | single (file : LoadedFile) (subtitles : List Subtitle)
  | composite (renditions : List (String × LoadedFile))
      (subtitles : List Subtitle)
  | sequence (clips : Clips)
  | adaptiveSequence (clips : Clips)

namespace ServedAsset

variable {Clips : Type}

def findSubtitle (subtitles : List Subtitle) (language : String) :
    Result ByteArray :=
  okOr
    ((subtitles.find? fun subtitle =>
      foldCase subtitle.language == foldCase language).map Subtitle.data)
    (.notFound "subtitle does not exist")

/-- The subtitle file served for a language. -/
def subtitle (served : ServedAsset Clips) (language : String) :
    Result ByteArray :=
  match served with
  | .single _ subtitles => findSubtitle subtitles language
  | .composite _ subtitles => findSubtitle subtitles language
  | .sequence _ => .error (.notFound "subtitle does not exist")
  | .adaptiveSequence _ => .error (.notFound "subtitle does not exist")

/-- The files whose timelines the subtitles play on. -/
def files (served : ServedAsset Clips) : List LoadedFile :=
  match served with
  | .single file _ => [file]
  | .composite renditions _ => renditions.map Prod.snd
  | .sequence _ => []
  | .adaptiveSequence _ => []

end ServedAsset

/-! ## Loading -/

structure SubtitleLimits where
  maxSubtitles : ℕ := 16
  maxSubtitleBytes : ℕ := 2 * 1024 * 1024
  maxSubtitlesTotalBytes : ℕ := 8 * 1024 * 1024
  maxRenditions : ℕ := 8

/-- What loading asks of the rest of the program: how a file is read, opened
and parsed, and what is built of it once its subtitles are known. -/
structure Registry (Location Clip Source Clips : Type) where
  limits : SubtitleLimits
  readWhole : Location → ℕ → Result ByteArray
  openSource : Location → Result Source
  loadFile : Source → Result LoadedFile
  finishFile : LoadedFile → List Subtitle → Result Unit
  assembleRenditions : List (String × LoadedFile) → List Subtitle →
    Result Unit
  loadClips : ResolvedAsset Location Clip → Result Clips
  loadAdaptiveClips : ResolvedAsset Location Clip → Result Clips
  ttmlCues : Text → Except String (List Cue)
  describe : Error → String

namespace Registry

variable {Location Clip Source Clips : Type}
  (registry : Registry Location Clip Source Clips)

/-- A file that cannot be read, with its language if it is the file that is
bad. -/
def nameSubtitle (language : String) (read : Result ByteArray) :
    Result ByteArray :=
  match read with
  | .error (.invalidMedia message) =>
      .error (.invalidMedia ("subtitle `" ++ language ++ "`: " ++ message))
  | read => read

/-- The listed files, after `total` bytes. -/
def fetchFrom (total : ℕ) :
    List (SubtitleLocation Location) → Result (List Subtitle)
  | [] => .ok []
  | entry :: listed => do
      let data ← nameSubtitle entry.language
        (registry.readWhole entry.location registry.limits.maxSubtitleBytes)
      let total := min (total + data.size) (2 ^ 64 - 1)
      if registry.limits.maxSubtitlesTotalBytes < total then
        .error (.invalidMedia
          ("subtitles exceed limits.max_subtitles_total_bytes (" ++
            toString registry.limits.maxSubtitlesTotalBytes ++ ")"))
      else do
        let subtitles ← fetchFrom total listed
        .ok
          ({ language := entry.language
             label := entry.label
             default := entry.default
             forced := entry.forced
             data := data } :: subtitles)

/-- Every sidecar subtitle file the mapper listed, within the limits. -/
def fetchSubtitles (listed : List (SubtitleLocation Location)) :
    Result (List Subtitle) :=
  if registry.limits.maxSubtitles < listed.length then
    .error (.invalidMedia
      ("the mapper listed " ++ toString listed.length ++
        " subtitles, more than limits.max_subtitles (" ++
        toString registry.limits.maxSubtitles ++ ")"))
  else registry.fetchFrom 0 listed

/-- Validates each subtitle file and moves its cues onto the timeline of the
file. -/
def prepareSubtitles (file : LoadedFile) (subtitles : List Subtitle) :
    Result (List Subtitle) :=
  subtitles.mapM fun subtitle => do
    let data ← prepare registry.ttmlCues subtitle.language subtitle.data
      file.presentationOffsetMs
    .ok { subtitle with data := data }

def loadSingle (resolved : ResolvedAsset Location Clip) :
    Result (ServedAsset Clips) := do
  let location ← okOr resolved.location
    (.configuration "the caller checked there are no renditions or clips")
  let source ← registry.openSource location
  let subtitles ← registry.fetchSubtitles resolved.subtitles
  let file ← registry.loadFile source
  let subtitles ← registry.prepareSubtitles file subtitles
  let _ ← registry.finishFile file subtitles
  .ok (.single file subtitles)

/-- One rendition, loaded as a plain file without subtitles. -/
def loadRendition (rendition : RenditionLocation Location Clip) :
    Result (String × LoadedFile) :=
  let loaded : Result LoadedFile :=
    match rendition.source with
    | .clips _ => .error (.invalidMedia
        "a rendition with clips reached the single-file loader")
    | .location location => do
        let source ← registry.openSource location
        let file ← registry.loadFile source
        let _ ← registry.finishFile file []
        .ok file
  match loaded with
  | .ok file => .ok (rendition.id, file)
  | .error error => .error (.invalidMedia
      ("rendition `" ++ rendition.id ++ "`: " ++ registry.describe error))

def loadComposite (resolved : ResolvedAsset Location Clip) :
    Result (ServedAsset Clips) :=
  if registry.limits.maxRenditions < resolved.renditions.length then
    .error (.invalidMedia
      ("the mapper listed " ++ toString resolved.renditions.length ++
        " renditions, more than limits.max_renditions (" ++
        toString registry.limits.maxRenditions ++ ")"))
  else do
    let subtitles ← registry.fetchSubtitles resolved.subtitles
    let loaded ← resolved.renditions.mapM registry.loadRendition
    let _ ← registry.assembleRenditions loaded subtitles
    .ok (.composite loaded subtitles)

/-- Whether the rendition is a sequence of clips. -/
def hasClips (rendition : RenditionLocation Location Clip) : Bool :=
  match rendition.source with
  | .location _ => false
  | .clips _ => true

/-- Whether the answer is renditions of which each is one file. -/
def isComposite (resolved : ResolvedAsset Location Clip) : Bool :=
  resolved.clips.isEmpty && !resolved.renditions.isEmpty &&
    !resolved.renditions.any hasClips

def load (resolved : ResolvedAsset Location Clip) :
    Result (ServedAsset Clips) :=
  if ¬ resolved.clips.isEmpty then do
    let clips ← registry.loadClips resolved
    .ok (.sequence clips)
  else if resolved.renditions.isEmpty then registry.loadSingle resolved
  else if resolved.renditions.any hasClips then do
    let clips ← registry.loadAdaptiveClips resolved
    .ok (.adaptiveSequence clips)
  else registry.loadComposite resolved

end Registry

/-- Every listed language is served, in any spelling, as what preparing the
fetched file for each timeline it plays on gives. -/
def SubtitlesPrepared {Location Clip Source Clips : Type}
    (registry : Registry Location Clip Source Clips)
    (resolved : ResolvedAsset Location Clip) (served : ServedAsset Clips) :
    Prop :=
  ∀ entry ∈ resolved.subtitles, ∀ fetched,
    registry.readWhole entry.location registry.limits.maxSubtitleBytes =
      .ok fetched →
    ∀ file ∈ served.files, ∃ data,
      (∀ language, foldCase language = foldCase entry.language →
        served.subtitle language = .ok data) ∧
      prepare registry.ttmlCues entry.language fetched
        file.presentationOffsetMs = .ok data

/-! ## Fetched subtitles -/

section

variable {Location Clip Source Clips : Type}
  {registry : Registry Location Clip Source Clips}
  {resolved : ResolvedAsset Location Clip}

/-- A subtitle that was fetched for a listed file. -/
structure FetchedFor (registry : Registry Location Clip Source Clips)
    (entry : SubtitleLocation Location) (subtitle : Subtitle) : Prop where
  language_eq : subtitle.language = entry.language
  read_eq : registry.readWhole entry.location
    registry.limits.maxSubtitleBytes = .ok subtitle.data

theorem nameSubtitle_eq_ok {language : String} {read : Result ByteArray}
    {data : ByteArray}
    (h : Registry.nameSubtitle language read = .ok data) : read = .ok data := by
  unfold Registry.nameSubtitle at h
  split at h
  · cases h
  · exact h

theorem fetchFrom_forall₂ {total : ℕ}
    {listed : List (SubtitleLocation Location)} {subtitles : List Subtitle}
    (h : registry.fetchFrom total listed = .ok subtitles) :
    List.Forall₂ (FetchedFor registry) listed subtitles := by
  induction listed generalizing total subtitles with
  | nil =>
      cases h
      exact .nil
  | cons entry listed ih =>
      unfold Registry.fetchFrom at h
      obtain ⟨data, hdata, hrest⟩ := bind_eq_ok_iff.mp h
      dsimp only at hrest
      split at hrest
      · cases hrest
      obtain ⟨others, hothers, hlist⟩ := bind_eq_ok_iff.mp hrest
      cases hlist
      exact .cons ⟨rfl, nameSubtitle_eq_ok hdata⟩ (ih hothers)

theorem fetchSubtitles_forall₂ {listed : List (SubtitleLocation Location)}
    {subtitles : List Subtitle}
    (h : registry.fetchSubtitles listed = .ok subtitles) :
    List.Forall₂ (FetchedFor registry) listed subtitles := by
  unfold Registry.fetchSubtitles at h
  split at h
  · cases h
  · exact fetchFrom_forall₂ h

theorem findSubtitle_eq_ok {listed : List (SubtitleLocation Location)}
    {subtitles : List Subtitle}
    (hunique : (listed.map fun entry => foldCase entry.language).Nodup)
    (hlanguages : List.Forall₂ (fun entry (subtitle : Subtitle) =>
      subtitle.language = entry.language) listed subtitles)
    {subtitle : Subtitle} (hsubtitle : subtitle ∈ subtitles)
    {language : String}
    (hlanguage : foldCase language = foldCase subtitle.language) :
    ServedAsset.findSubtitle subtitles language = .ok subtitle.data := by
  have hnodup : (subtitles.map fun subtitle =>
      foldCase subtitle.language).Nodup := by
    have hsame : (subtitles.map fun subtitle => foldCase subtitle.language) =
        listed.map fun entry => foldCase entry.language := by
      clear hunique hsubtitle
      induction hlanguages with
      | nil => rfl
      | cons hhead _ ih => rw [List.map_cons, List.map_cons, ih, hhead]
    rw [hsame]
    exact hunique
  have hfind : subtitles.find? (fun subtitle =>
      foldCase subtitle.language == foldCase language) = some subtitle := by
    cases hfound : subtitles.find? (fun subtitle =>
        foldCase subtitle.language == foldCase language) with
    | none =>
        have hnone := List.find?_eq_none.mp hfound subtitle hsubtitle
        simp [hlanguage] at hnone
    | some found =>
        have hlike := List.find?_some hfound
        rw [beq_iff_eq, hlanguage] at hlike
        rw [List.inj_on_of_nodup_map hnodup (List.mem_of_find?_eq_some hfound)
          hsubtitle hlike]
  unfold ServedAsset.findSubtitle
  rw [hfind]
  rfl

theorem prepareSubtitles_forall₂ {file : LoadedFile}
    {subtitles prepared : List Subtitle}
    (h : registry.prepareSubtitles file subtitles = .ok prepared) :
    List.Forall₂ (fun subtitle (ready : Subtitle) =>
      ready.language = subtitle.language ∧
      prepare registry.ttmlCues subtitle.language subtitle.data
        file.presentationOffsetMs = .ok ready.data) subtitles prepared := by
  apply (mapM_forall₂ h).imp
  intro subtitle ready hready
  obtain ⟨data, hdata, hresult⟩ := bind_eq_ok_iff.mp hready
  cases hresult
  exact ⟨rfl, hdata⟩

/-- A single file's subtitles are prepared. -/
theorem loadSingle_prepared {served : ServedAsset Clips}
    (h : registry.loadSingle resolved = .ok served) :
    SubtitlesPrepared registry resolved served := by
  unfold Registry.loadSingle at h
  obtain ⟨location, -, h⟩ := bind_eq_ok_iff.mp h
  obtain ⟨source, -, h⟩ := bind_eq_ok_iff.mp h
  obtain ⟨fetched, hfetched, h⟩ := bind_eq_ok_iff.mp h
  obtain ⟨file, -, h⟩ := bind_eq_ok_iff.mp h
  obtain ⟨prepared, hprepared, h⟩ := bind_eq_ok_iff.mp h
  obtain ⟨-, -, h⟩ := bind_eq_ok_iff.mp h
  cases h
  have hfetched := fetchSubtitles_forall₂ hfetched
  have hprepared := prepareSubtitles_forall₂ hprepared
  intro entry hentry data hread other hother
  obtain rfl := List.mem_singleton.mp hother
  obtain ⟨subtitle, hsubtitle, hfor⟩ := exists_mem_of_forall₂ hfetched hentry
  obtain ⟨ready, hready, hlanguage, hdata⟩ :=
    exists_mem_of_forall₂ hprepared hsubtitle
  have hsame : subtitle.data = data :=
    Except.ok.inj (hfor.read_eq.symm.trans hread)
  refine ⟨ready.data, ?_, ?_⟩
  · intro language hspelled
    apply findSubtitle_eq_ok resolved.languages_unique _ hready
    · rw [hspelled, hlanguage, hfor.language_eq]
    · apply forall₂_comp hfetched hprepared
      intro listed found prepared hfound hprepared
      rw [hprepared.1, hfound.language_eq]
  · rw [← hsame, ← hfor.language_eq]
    exact hdata

/-- An adaptive asset's subtitles are what was fetched: they are prepared for
its timelines where nothing had to be done. -/
theorem loadComposite_prepared_iff {served : ServedAsset Clips}
    (h : registry.loadComposite resolved = .ok served) :
    SubtitlesPrepared registry resolved served ↔
      ∀ entry ∈ resolved.subtitles, ∀ fetched,
        registry.readWhole entry.location registry.limits.maxSubtitleBytes =
          .ok fetched →
        ∀ rendition ∈ resolved.renditions, ∀ id file,
          registry.loadRendition rendition = .ok (id, file) →
          NeedsNoPreparing fetched file.presentationOffsetMs := by
  unfold Registry.loadComposite at h
  split at h
  · cases h
  obtain ⟨subtitles, hsubtitles, h⟩ := bind_eq_ok_iff.mp h
  obtain ⟨loaded, hloaded, h⟩ := bind_eq_ok_iff.mp h
  obtain ⟨-, -, h⟩ := bind_eq_ok_iff.mp h
  cases h
  have hsubtitles := fetchSubtitles_forall₂ hsubtitles
  have hserved : ∀ entry ∈ resolved.subtitles, ∀ fetched,
      registry.readWhole entry.location registry.limits.maxSubtitleBytes =
        .ok fetched →
      ∀ language, foldCase language = foldCase entry.language →
        ServedAsset.findSubtitle subtitles language = .ok fetched := by
    intro entry hentry fetched hread language hspelled
    obtain ⟨subtitle, hsubtitle, hfor⟩ :=
      exists_mem_of_forall₂ hsubtitles hentry
    have hsame : subtitle.data = fetched :=
      Except.ok.inj (hfor.read_eq.symm.trans hread)
    rw [← hsame]
    apply findSubtitle_eq_ok resolved.languages_unique _ hsubtitle
    · rw [hspelled, hfor.language_eq]
    · apply hsubtitles.imp
      intro listed found hfound
      exact hfound.language_eq
  constructor
  · intro hall entry hentry fetched hread rendition hrendition id file hfile
    obtain ⟨found, hfound, hsame⟩ := exists_ok_of_mem_mapM hloaded hrendition
    rw [hfile] at hsame
    cases hsame
    obtain ⟨data, hdata, hprepared⟩ := hall entry hentry fetched hread file
      (List.mem_map.mpr ⟨_, hfound, rfl⟩)
    have hsame : data = fetched :=
      Except.ok.inj ((hdata entry.language rfl).symm.trans
        (hserved entry hentry fetched hread entry.language rfl))
    rw [hsame] at hprepared
    exact prepare_fixed_iff.mp hprepared
  · intro hall entry hentry fetched hread file hfile
    obtain ⟨⟨id, _⟩, hmem, rfl⟩ := List.mem_map.mp hfile
    obtain ⟨rendition, hrendition, hload⟩ := exists_of_mem_mapM hloaded hmem
    refine ⟨fetched, hserved entry hentry fetched hread, ?_⟩
    apply prepare_fixed_iff.mpr
    exact hall entry hentry fetched hread rendition hrendition id _ hload

/-- What is served for every listed language is the prepared file, except
that an adaptive asset serves what was fetched. -/
theorem subtitles_prepared_iff {served : ServedAsset Clips}
    (h : registry.load resolved = .ok served) :
    SubtitlesPrepared registry resolved served ↔
      (Registry.isComposite resolved = true →
        ∀ entry ∈ resolved.subtitles, ∀ fetched,
          registry.readWhole entry.location registry.limits.maxSubtitleBytes =
            .ok fetched →
          ∀ rendition ∈ resolved.renditions, ∀ id file,
            registry.loadRendition rendition = .ok (id, file) →
            NeedsNoPreparing fetched file.presentationOffsetMs) := by
  unfold Registry.load at h
  unfold Registry.isComposite
  split at h
  · next hclips =>
      obtain ⟨clips, -, h⟩ := bind_eq_ok_iff.mp h
      cases h
      constructor
      · intro _ hcomposite
        simp [hclips] at hcomposite
      · intro _ entry _ fetched _ file hfile
        cases hfile
  next hclips =>
  split at h
  · next hrenditions =>
      constructor
      · intro _ hcomposite
        simp [hrenditions] at hcomposite
      · intro _
        exact loadSingle_prepared h
  next hrenditions =>
  split at h
  · next hadaptive =>
      obtain ⟨clips, -, h⟩ := bind_eq_ok_iff.mp h
      cases h
      constructor
      · intro _ hcomposite
        simp [hadaptive] at hcomposite
      · intro _ entry _ fetched _ file hfile
        cases hfile
  next hadaptive =>
  have hcomposite : (resolved.clips.isEmpty && !resolved.renditions.isEmpty &&
      !resolved.renditions.any Registry.hasClips) = true := by
    rw [not_not] at hclips
    rw [Bool.not_eq_true] at hrenditions hadaptive
    rw [hclips, hrenditions, hadaptive]
    rfl
  rw [loadComposite_prepared_iff h]
  exact ⟨fun hall _ => hall, fun hall => hall hcomposite⟩

end

/-! ## An adaptive asset with a SubRip file -/

def subripText : String :=
  "1\n00:00:01,000 --> 00:00:02,000\nHi\n"

def subripFile : ByteArray :=
  subripText.toByteArray

/-- Every file opens, and every subtitle read is `file`. -/
def openRegistry (file : ByteArray) : Registry Unit Unit Unit Unit where
  limits := {}
  readWhole _ _ := .ok file
  openSource _ := .ok ()
  loadFile _ := .ok ⟨gappedAsset, 0⟩
  finishFile _ _ := .ok ()
  assembleRenditions _ _ := .ok ()
  loadClips _ := .ok ()
  loadAdaptiveClips _ := .ok ()
  ttmlCues _ := .ok []
  describe _ := ""

/-- One rendition with a subtitle file. -/
def adaptiveAnswer : ResolvedAsset Unit Unit where
  location := none
  renditions := [⟨"720p", .location ()⟩]
  clips := []
  subtitles := [⟨"en", "English", false, false, ()⟩]
  location_of_single := by simp
  languages_unique := by simp

theorem load_adaptiveAnswer {file : ByteArray}
    (hsize : file.size ≤ 8 * 1024 * 1024) :
    (openRegistry file).load adaptiveAnswer =
      .ok (.composite [("720p", ⟨gappedAsset, 0⟩)]
        [⟨"en", "English", false, false, file⟩]) := by
  have hcount : ¬ (openRegistry file).limits.maxSubtitles <
      adaptiveAnswer.subtitles.length := by
    change ¬ 16 < 1
    decide
  have hfetch : (openRegistry file).fetchSubtitles adaptiveAnswer.subtitles =
      .ok [⟨"en", "English", false, false, file⟩] := by
    unfold Registry.fetchSubtitles
    rw [if_neg hcount]
    change (if 8 * 1024 * 1024 < min (0 + file.size) (2 ^ 64 - 1) then _
      else _) = _
    rw [if_neg (by omega)]
    rfl
  change ((openRegistry file).fetchSubtitles adaptiveAnswer.subtitles >>=
    fun subtitles => _) = _
  rw [hfetch]
  rfl

theorem subtitles_prepared_iff_adaptive :
    SubtitlesPrepared (openRegistry "WEBVTT\n".toByteArray) adaptiveAnswer
        (.composite [("720p", ⟨gappedAsset, 0⟩)]
          [⟨"en", "English", false, false, "WEBVTT\n".toByteArray⟩]) ↔
      (Registry.isComposite adaptiveAnswer = true →
        ∀ entry ∈ adaptiveAnswer.subtitles, ∀ fetched,
          (openRegistry "WEBVTT\n".toByteArray).readWhole entry.location
            (openRegistry "WEBVTT\n".toByteArray).limits.maxSubtitleBytes =
              .ok fetched →
          ∀ rendition ∈ adaptiveAnswer.renditions, ∀ id file,
            (openRegistry "WEBVTT\n".toByteArray).loadRendition rendition =
              .ok (id, file) →
            NeedsNoPreparing fetched file.presentationOffsetMs) :=
  subtitles_prepared_iff (load_adaptiveAnswer (by decide))

theorem not_needsNoPreparing_subripFile :
    ¬ NeedsNoPreparing subripFile 0 := by
  rintro ⟨text, htext, hwebvtt, -⟩
  have hsame : subripText = String.ofList text :=
    String.toByteArray_inj.mp (utf8Decode?_eq_some_iff.mp htext)
  have hlist : subripText.toList = text := by
    rw [hsame, String.toList_ofList]
  have hnot : isWebvtt (stripMark subripText.toList) = false := by
    decide
  rw [hlist, hwebvtt] at hnot
  cases hnot

theorem needsNoPreparing_of_prepared {file : ByteArray}
    (hload : (openRegistry file).load adaptiveAnswer =
      .ok (.composite [("720p", ⟨gappedAsset, 0⟩)]
        [⟨"en", "English", false, false, file⟩])) :
    SubtitlesPrepared (openRegistry file) adaptiveAnswer
        (.composite [("720p", ⟨gappedAsset, 0⟩)]
          [⟨"en", "English", false, false, file⟩]) →
      NeedsNoPreparing file 0 := by
  intro hprepared
  have hcomposite : (openRegistry file).loadComposite adaptiveAnswer =
      .ok (.composite [("720p", ⟨gappedAsset, 0⟩)]
        [⟨"en", "English", false, false, file⟩]) := hload
  have hread : (openRegistry file).readWhole () (2 * 1024 * 1024) =
      .ok file := rfl
  have hrendition : (openRegistry file).loadRendition
      ⟨"720p", .location ()⟩ = .ok ("720p", ⟨gappedAsset, 0⟩) := rfl
  exact (loadComposite_prepared_iff hcomposite).mp hprepared
    ⟨"en", "English", false, false, ()⟩ List.mem_cons_self file hread
    ⟨"720p", .location ()⟩ List.mem_cons_self "720p" ⟨gappedAsset, 0⟩
    hrendition

/-- A SubRip file is served as it is. -/
theorem adaptive_subrip_served :
    (openRegistry subripFile).load adaptiveAnswer =
        .ok (.composite [("720p", ⟨gappedAsset, 0⟩)]
          [⟨"en", "English", false, false, subripFile⟩]) ∧
      ¬ SubtitlesPrepared (openRegistry subripFile) adaptiveAnswer
        (.composite [("720p", ⟨gappedAsset, 0⟩)]
          [⟨"en", "English", false, false, subripFile⟩]) := by
  have hload := @load_adaptiveAnswer subripFile (by decide)
  refine ⟨hload, ?_⟩
  intro hprepared
  exact not_needsNoPreparing_subripFile
    (needsNoPreparing_of_prepared hload hprepared)

end Segmentor
