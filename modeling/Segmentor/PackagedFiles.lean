import Segmentor.FragmentSequences
import Segmentor.InitWriter
import Segmentor.WalkRuns

/-!
# A packaged stream as a file

An init segment with the fragments of a stream behind it is a fragmented file.
The walk over its boxes finds the `moov` of the init segment and the `moof` of
every fragment, where each was put.
-/

namespace Segmentor

open General

/-! ## Boxes in a file -/

/-- The boxes, each with where it starts, the first at `offset`. -/
def placedBoxes : ℕ → List BoxSpec → List (ℕ × BoxSpec)
  | _, [] => []
  | offset, box :: rest =>
      (offset, box) :: placedBoxes (offset + (box.2.length + 8)) rest

/-- What a walk sees of a box. -/
def BoxSpec.header (box : BoxSpec) : BoxHeader where
  name := box.1
  size := box.2.length + 8

/-- The boxes as a walk finds them. -/
def foundBoxes (offset : ℕ) (boxes : List BoxSpec) : List (ℕ × BoxHeader) :=
  (placedBoxes offset boxes).map fun entry => (entry.1, entry.2.header)

theorem foundBoxes_cons (offset : ℕ) (box : BoxSpec) (boxes : List BoxSpec) :
    foundBoxes offset (box :: boxes) = (offset, box.header) ::
      foundBoxes (offset + (box.2.length + 8)) boxes := rfl

section

variable {file before after : List UInt8} {box : BoxSpec}
  {boxes : List BoxSpec} {offset : ℕ}

/-- A box is read whole from where it was put. -/
theorem readRange_box (hfits : box.Fits)
    (hfile : file = before ++ (boxBytes box.1 box.2 ++ after)) :
    readRange file ⟨before.length, box.2.length + 8⟩ =
      boxBytes box.1 box.2 := by
  unfold readRange
  dsimp only
  rw [hfile, List.drop_left, List.take_left' (length_boxBytes hfits.name _)]

theorem boxAt_box (hfits : box.Fits)
    (hfile : file = before ++ (boxBytes box.1 box.2 ++ after)) :
    boxAt file file.length before.length = some box.header := by
  have hlength := length_boxBytes hfits.name box.2
  have hname := hfits.name
  have hsize := hfits.size
  have htotal : file.length =
      before.length + (box.2.length + 8 + after.length) := by
    rw [hfile, List.length_append, List.length_append, hlength]
  have hhead : readRange file ⟨before.length, 8⟩ =
      encode 4 (box.2.length + 8) ++ box.1 := by
    unfold readRange boxBytes at *
    dsimp only
    rw [hfile, List.drop_left, List.append_assoc, List.take_left' (by simp [hname])]
  have hsize32 : size32 file before.length = box.2.length + 8 := by
    unfold size32
    rw [hhead, List.take_left' (length_encode 4 _),
      decode_encode_of_lt (by omega)]
  have hboxName : boxName file before.length = box.1 := by
    unfold boxName
    rw [hhead, List.drop_left' (length_encode 4 _)]
  rw [boxAt_eq_some_iff, header_eq_ok_iff]
  unfold BoxSpec.header Declares
  dsimp only
  rw [hsize32]
  exact ⟨.inr (.inr ⟨by omega, rfl⟩), by omega, by omega, hboxName.symm⟩

/-- Boxes put one after another are found one after another. -/
theorem boxes_found (hfits : ∀ box ∈ boxes, box.Fits)
    (hfile : file = before ++ boxesBytes boxes)
    (hbefore : before.length = offset) :
    Boxes file file.length offset (foundBoxes offset boxes) file.length := by
  induction boxes generalizing before offset with
  | nil =>
      have hlength : file.length = offset := by
        rw [hfile, boxesBytes_nil, List.append_nil, hbefore]
      rw [hlength]
      exact .nil offset
  | cons box boxes ih =>
      obtain ⟨hbox, hboxes⟩ := List.forall_mem_cons.mp hfits
      rw [boxesBytes_cons] at hfile
      have hitem := boxAt_box hbox hfile
      rw [hbefore] at hitem
      refine .cons hitem (@ih (before ++ boxBytes box.1 box.2) _ hboxes
        ?_ ?_)
      · rw [hfile, List.append_assoc]
      · rw [List.length_append, hbefore, length_boxBytes hbox.name]
        rfl

end

/-! ## A walk without a `sidx` -/

namespace Walk

variable {source : List UInt8} {limits : LimitsConfig} {useSidx : Bool}
  {walk next : Walk} {offset stop : ℕ} {box : BoxHeader}
  {l : List (ℕ × BoxHeader)}

theorem record_of_name (h : box.name ≠ code 's' 'i' 'd' 'x') :
    walk.record source limits useSidx offset box =
      walk.record source limits false offset box := by
  unfold record
  simp only [h, false_and, if_false]

theorem record_pending
    (h : walk.record source limits false offset box = .ok next) :
    next.pending = walk.pending := by
  unfold record at h
  simp only [Bool.false_eq_true, false_and, and_false, if_false] at h
  split at h
  · split at h
    · cases h
    · obtain rfl := Except.ok.inj h
      rfl
  split at h
  · split at h
    · cases h
    · obtain ⟨counted, hcounted, h⟩ := bind_eq_ok_iff.mp h
      obtain ⟨-, rfl⟩ := addMetadataBytes_eq_ok_iff.mp hcounted
      obtain rfl := Except.ok.inj h
      rfl
  split at h
  · split at h
    · cases h
    · obtain rfl := Except.ok.inj h
      rfl
  · obtain ⟨-, rfl⟩ := countOther_eq_ok_iff.mp h
    rfl

/-- Whether a `sidx` would be used does not matter where there is none. -/
theorem run_without_sidx (hpending : walk.pending = none)
    (hl : Boxes source source.length offset l stop)
    (hend : boxAt source source.length stop = none)
    (hnames : ∀ entry ∈ l, entry.2.name ≠ code 's' 'i' 'd' 'x') :
    run source limits useSidx walk offset =
      run source limits false walk offset := by
  induction hl generalizing walk with
  | nil stop =>
      rw [run_end (region_of_pending hpending) hend,
        run_end (region_of_pending hpending) hend]
  | @cons start stop box rest hitem hrest ih =>
      obtain ⟨hname, hothers⟩ := List.forall_mem_cons.mp hnames
      rw [run_box (region_of_pending hpending) hitem,
        run_box (region_of_pending hpending) hitem,
        arrive_of_pending hpending, record_of_name hname]
      cases hrecord : walk.record source limits false start box with
      | error error => rfl
      | ok next =>
          rw [ok_bind, ok_bind]
          exact ih ((record_pending hrecord).trans hpending) hend hothers

end Walk

/-! ## The boxes of a stream -/

/-- Every sample of the parts is inside the source. -/
def PartsInside (source : List UInt8) (parts : List ExpandedPart) : Prop :=
  ∀ part ∈ parts, ∀ sample ∈ part.samples,
    sample.offset + sample.size ≤ source.length

namespace StreamFragment

variable {source : List UInt8} {fragment : StreamFragment}

/-- The two boxes of the fragment. -/
def boxes (source : List UInt8) (fragment : StreamFragment) : List BoxSpec :=
  [(code 'm' 'o' 'o' 'f', fragment.prepared.moofPayload),
   (code 'm' 'd' 'a' 't',
    fragment.prepared.ranges.flatMap (readRange source))]

theorem length_payload (hinside : PartsInside source fragment.parts) :
    (fragment.prepared.ranges.flatMap (readRange source)).length =
      fragment.payload := by
  rw [fragment.ranges_eq, length_flatMap_parts fragment.parts_valid hinside,
    (fragment.written.framed fragment.framed).2]

theorem boxes_fit (hinside : PartsInside source fragment.parts) :
    ∀ box ∈ fragment.boxes source, box.Fits := by
  have hpayload := fragment.framed.payload_lt
  rw [← length_payload hinside] at hpayload
  exact List.forall_mem_cons.mpr ⟨⟨rfl, fragment.framed.moof_lt⟩,
    List.forall_mem_singleton.mpr ⟨rfl, hpayload⟩⟩

theorem served_eq (hinside : PartsInside source fragment.parts) :
    fragment.prepared.served source = boxesBytes (fragment.boxes source) := by
  unfold PreparedSegment.served boxes
  rw [boxesBytes_cons, boxesBytes_cons, boxesBytes_nil, List.append_nil,
    fragment.framed.header_eq, ← length_payload hinside]
  simp only [boxBytes, List.append_assoc]

theorem length_eq_boxes : fragment.length =
    fragment.prepared.moofPayload.length + 8 + (fragment.payload + 8) := by
  have hheader := congrArg List.length fragment.framed.header_eq
  rw [List.length_append, length_boxBytes_code, List.length_append,
    length_encode] at hheader
  unfold length
  rw [fragment.framed.length_eq, hheader]
  change _ + (4 + 4) + _ = _
  omega

end StreamFragment

/-- The boxes of the fragments, in order. -/
def streamBoxes (source : List UInt8) (fragments : List StreamFragment) :
    List BoxSpec :=
  fragments.flatMap (StreamFragment.boxes source)

/-- What a walk sees of the `moof` of a fragment. -/
def StreamFragment.moofHeader (fragment : StreamFragment) : BoxHeader :=
  BoxSpec.header (code 'm' 'o' 'o' 'f', fragment.prepared.moofPayload)

section

variable {source file before : List UInt8} {fragments : List StreamFragment}
  {offset : ℕ}

theorem foundBoxes_stream_cons {fragment : StreamFragment}
    (hinside : PartsInside source fragment.parts) :
    foundBoxes offset (streamBoxes source (fragment :: fragments)) =
      (offset, fragment.moofHeader) ::
        (offset + (fragment.prepared.moofPayload.length + 8),
          ⟨code 'm' 'd' 'a' 't', fragment.payload + 8⟩) ::
        foundBoxes (offset + fragment.length)
          (streamBoxes source fragments) := by
  unfold streamBoxes
  rw [List.flatMap_cons]
  unfold StreamFragment.boxes
  rw [List.cons_append, List.cons_append, List.nil_append, foundBoxes_cons,
    foundBoxes_cons]
  unfold BoxSpec.header StreamFragment.moofHeader
  dsimp only
  rw [StreamFragment.length_payload hinside, StreamFragment.length_eq_boxes,
    Nat.add_assoc offset]
  rfl

/-- A `moof` and an `mdat` for every fragment, and nothing else. -/
structure StreamKinds (fragments : List StreamFragment) (offset : ℕ)
    (l : List (ℕ × BoxHeader)) : Prop where
  moofs : ofKind .moof l = (placedFragments offset fragments).map
    fun item => (item.1, item.2.moofHeader)
  mdats : (ofKind .mdat l).length = fragments.length
  moovs : ofKind .moov l = []
  others : ofKind .other l = []
  names : ∀ entry ∈ l, entry.2.name ≠ code 's' 'i' 'd' 'x'

theorem streamKinds
    (hinside : PartsInside source (fragments.flatMap StreamFragment.parts)) :
    StreamKinds fragments offset
      (foundBoxes offset (streamBoxes source fragments)) := by
  induction fragments generalizing offset with
  | nil => exact ⟨rfl, rfl, rfl, rfl, List.forall_mem_nil _⟩
  | cons fragment fragments ih =>
      have hrest := @ih (offset + fragment.length)
        fun part hpart => hinside part (List.mem_append_right _ hpart)
      have hmoof : fragment.moofHeader.kind = .moof := by
        unfold StreamFragment.moofHeader BoxSpec.header BoxHeader.kind
        rfl
      have hmdat : (⟨code 'm' 'd' 'a' 't', fragment.payload + 8⟩ :
          BoxHeader).kind = .mdat := by
        unfold BoxHeader.kind
        rfl
      rw [foundBoxes_stream_cons fun part hpart =>
        hinside part (List.mem_append_left _ hpart)]
      refine ⟨?_, ?_, ?_, ?_, ?_⟩
      · rw [ofKind_cons, if_pos hmoof, ofKind_cons, if_neg (by simp [hmdat]),
          hrest.moofs]
        rfl
      · rw [ofKind_cons, if_neg (by simp [hmoof]), ofKind_cons, if_pos hmdat,
          List.length_cons, hrest.mdats, List.length_cons]
      · rw [ofKind_cons, if_neg (by simp [hmoof]), ofKind_cons,
          if_neg (by simp [hmdat]), hrest.moovs]
      · rw [ofKind_cons, if_neg (by simp [hmoof]), ofKind_cons,
          if_neg (by simp [hmdat]), hrest.others]
      · refine List.forall_mem_cons.mpr ⟨?_, List.forall_mem_cons.mpr
          ⟨?_, hrest.names⟩⟩
        · exact show code 'm' 'o' 'o' 'f' ≠ code 's' 'i' 'd' 'x' by decide
        · exact show code 'm' 'd' 'a' 't' ≠ code 's' 'i' 'd' 'x' by decide

/-- The fragments that are kept are the `moof` boxes of the stream. -/
theorem fragmentsOf_stream
    (hinside : PartsInside source (fragments.flatMap StreamFragment.parts))
    (hfile : file = before ++ boxesBytes (streamBoxes source fragments))
    (hbefore : before.length = offset) :
    fragmentsOf file (foundBoxes offset (streamBoxes source fragments)) =
      (placedFragments offset fragments).map fun item =>
        item.2.moofAt item.1 := by
  unfold fragmentsOf
  rw [(streamKinds hinside).moofs, List.map_map]
  induction fragments generalizing before offset with
  | nil => rfl
  | cons fragment fragments ih =>
      have hfirst : PartsInside source fragment.parts :=
        fun part hpart => hinside part (List.mem_append_left _ hpart)
      have hfits := StreamFragment.boxes_fit hfirst
      have hlength := StreamFragment.length_served fragment hfirst
      rw [StreamFragment.served_eq hfirst] at hlength
      have hsplit : boxesBytes (streamBoxes source (fragment :: fragments)) =
          boxesBytes (fragment.boxes source) ++
            boxesBytes (streamBoxes source fragments) := by
        unfold streamBoxes
        rw [List.flatMap_cons, boxesBytes_append]
      rw [hsplit] at hfile
      have hmoof := @readRange_box file before _
        (code 'm' 'o' 'o' 'f', fragment.prepared.moofPayload)
        (hfits _ (List.mem_cons_self ..)) (by
          rw [hfile]
          unfold StreamFragment.boxes
          rw [boxesBytes_cons, List.append_assoc])
      rw [hbefore] at hmoof
      rw [placedFragments, List.map_cons, List.map_cons, @ih
        (before ++ boxesBytes (fragment.boxes source)) _
        (fun part hpart => hinside part (List.mem_append_right _ hpart))
        (by rw [hfile, List.append_assoc])
        (by rw [List.length_append, hbefore, hlength])]
      congr 1
      exact congrArg (Fragment.mk offset) hmoof

end

/-! ## The file -/

/-- An init segment and what is served of the fragments behind it. -/
def packagedFile (source init : List UInt8)
    (fragments : List StreamFragment) : List UInt8 :=
  init ++ fragments.flatMap fun fragment => fragment.prepared.served source

/-- The bytes of the metadata: the `moov` and every `moof`. -/
def metadataLength (movie : List UInt8) (fragments : List StreamFragment) : ℕ :=
  movie.length + 8 + (fragments.map fun fragment =>
    fragment.prepared.moofPayload.length + 8).sum

theorem foldl_saturatingAdd_le {limit start : ℕ} {sizes : List ℕ} :
    sizes.foldl (saturatingAdd limit) start ≤ start + sizes.sum := by
  induction sizes generalizing start with
  | nil => exact Nat.le_refl _
  | cons size sizes ih =>
      have hrest := @ih (saturatingAdd limit start size)
      have hfirst : saturatingAdd limit start size ≤ start + size :=
        Nat.min_le_left ..
      rw [List.foldl_cons, List.sum_cons]
      omega

/-- The boxes of an init segment: its brands and its `moov`. -/
def initBoxes (brands movie : List UInt8) : List BoxSpec :=
  [(code 'f' 't' 'y' 'p', brands), (code 'm' 'o' 'o' 'v', movie)]

/-- The boxes of a stream's file. -/
def fileBoxes (source brands movie : List UInt8)
    (fragments : List StreamFragment) : List BoxSpec :=
  initBoxes brands movie ++ streamBoxes source fragments

/-- An init segment of two boxes. -/
structure InitBytes (init brands movie : List UInt8) : Prop where
  init_eq : init = boxesBytes (initBoxes brands movie)
  fits : ∀ box ∈ initBoxes brands movie, box.Fits

section

variable {source init brands movie : List UInt8}
  {fragments : List StreamFragment}

theorem InitBytes.length_eq (h : InitBytes init brands movie) :
    init.length = brands.length + 8 + (movie.length + 8) := by
  rw [h.init_eq]
  unfold initBoxes
  rw [boxesBytes_cons, boxesBytes_cons, boxesBytes_nil, List.append_nil,
    List.length_append, length_boxBytes_code, length_boxBytes_code]

theorem fileBoxes_fit (hinit : InitBytes init brands movie)
    (hinside : PartsInside source (fragments.flatMap StreamFragment.parts)) :
    ∀ box ∈ fileBoxes source brands movie fragments, box.Fits := by
  intro box hbox
  rcases List.mem_append.mp hbox with hbox | hbox
  · exact hinit.fits box hbox
  · obtain ⟨fragment, hfragment, hbox⟩ := List.mem_flatMap.mp hbox
    exact StreamFragment.boxes_fit (fun part hpart => hinside part
      (List.mem_flatMap.mpr ⟨fragment, hfragment, hpart⟩)) box hbox

theorem flatMap_served
    (hinside : PartsInside source (fragments.flatMap StreamFragment.parts)) :
    (fragments.flatMap fun fragment => fragment.prepared.served source) =
      boxesBytes (streamBoxes source fragments) := by
  unfold streamBoxes boxesBytes
  rw [List.flatMap_assoc]
  refine List.flatMap_congr fun fragment hfragment => ?_
  exact StreamFragment.served_eq fun part hpart =>
    hinside part (List.mem_flatMap.mpr ⟨fragment, hfragment, hpart⟩)

theorem packagedFile_eq (hinit : InitBytes init brands movie)
    (hinside : PartsInside source (fragments.flatMap StreamFragment.parts)) :
    packagedFile source init fragments =
      boxesBytes (fileBoxes source brands movie fragments) := by
  unfold packagedFile fileBoxes
  rw [flatMap_served hinside, boxesBytes_append, hinit.init_eq]

/-- What a walk over the whole file finds. -/
structure FileKinds (brands movie : List UInt8)
    (fragments : List StreamFragment) (l : List (ℕ × BoxHeader)) : Prop where
  moofs : ofKind .moof l = (placedFragments
    (brands.length + 8 + (movie.length + 8)) fragments).map
      fun item => (item.1, item.2.moofHeader)
  mdats : (ofKind .mdat l).length = fragments.length
  moovs : ofKind .moov l =
    [(brands.length + 8, BoxSpec.header (code 'm' 'o' 'o' 'v', movie))]
  others : (ofKind .other l).length = 1
  names : ∀ entry ∈ l, entry.2.name ≠ code 's' 'i' 'd' 'x'

theorem fileKinds
    (hinside : PartsInside source (fragments.flatMap StreamFragment.parts)) :
    FileKinds brands movie fragments
      (foundBoxes 0 (fileBoxes source brands movie fragments)) := by
  have hkinds := @streamKinds source fragments
    (brands.length + 8 + (movie.length + 8)) hinside
  have hfound : foundBoxes 0 (fileBoxes source brands movie fragments) =
      (0, BoxSpec.header (code 'f' 't' 'y' 'p', brands)) ::
        (brands.length + 8, BoxSpec.header (code 'm' 'o' 'o' 'v', movie)) ::
          foundBoxes (brands.length + 8 + (movie.length + 8))
            (streamBoxes source fragments) := by
    unfold fileBoxes initBoxes
    rw [List.cons_append, List.cons_append, List.nil_append, foundBoxes_cons,
      foundBoxes_cons, Nat.zero_add]
  have hftyp : (BoxSpec.header (code 'f' 't' 'y' 'p', brands)).kind =
      .other := by
    unfold BoxSpec.header BoxHeader.kind
    rfl
  have hmoov : (BoxSpec.header (code 'm' 'o' 'o' 'v', movie)).kind =
      .moov := by
    unfold BoxSpec.header BoxHeader.kind
    rfl
  rw [hfound]
  refine ⟨?_, ?_, ?_, ?_, ?_⟩
  · rw [ofKind_cons, if_neg (by simp [hftyp]), ofKind_cons,
      if_neg (by simp [hmoov]), hkinds.moofs]
  · rw [ofKind_cons, if_neg (by simp [hftyp]), ofKind_cons,
      if_neg (by simp [hmoov]), hkinds.mdats]
  · rw [ofKind_cons, if_neg (by simp [hftyp]), ofKind_cons, if_pos hmoov,
      hkinds.moovs]
  · rw [ofKind_cons, if_pos hftyp, ofKind_cons, if_neg (by simp [hmoov]),
      hkinds.others, List.length_singleton]
  · refine List.forall_mem_cons.mpr ⟨?_, List.forall_mem_cons.mpr
      ⟨?_, hkinds.names⟩⟩
    · exact show code 'f' 't' 'y' 'p' ≠ code 's' 'i' 'd' 'x' by decide
    · exact show code 'm' 'o' 'o' 'v' ≠ code 's' 'i' 'd' 'x' by decide

theorem map_size_placedFragments (offset : ℕ) :
    ((placedFragments offset fragments).map
        fun item => (item.1, item.2.moofHeader)).map
          (fun entry : ℕ × BoxHeader => entry.2.size) =
      fragments.map fun fragment =>
        fragment.prepared.moofPayload.length + 8 := by
  induction fragments generalizing offset with
  | nil => rfl
  | cons fragment fragments ih =>
      rw [placedFragments, List.map_cons, List.map_cons, ih, List.map_cons]
      rfl

theorem length_placedFragments (offset : ℕ) :
    (placedFragments offset fragments).length = fragments.length := by
  induction fragments generalizing offset with
  | nil => rfl
  | cons fragment fragments ih =>
      rw [placedFragments, List.length_cons, ih, List.length_cons]

variable {limits : LimitsConfig} {file : List UInt8}
  {l : List (ℕ × BoxHeader)}

theorem FileKinds.within (h : FileKinds brands movie fragments l)
    (hcount : fragments.length ≤ limits.maxFragments)
    (hbytes : metadataLength movie fragments ≤ limits.maxMetadataBytes) :
    Walk.Within limits (Walk.keepAll file {} l) ∧ Walk.MoovsFit limits l := by
  have hsum := @foldl_saturatingAdd_le (2 ^ 64) 0
    (fragments.map fun fragment => fragment.prepared.moofPayload.length + 8)
  unfold metadataLength at hbytes
  refine ⟨⟨?_, ?_, ?_, ?_, Walk.keepAll_word (by decide)⟩, ?_⟩
  · rw [Walk.keepAll_fragments]
    unfold fragmentsOf
    rw [h.moofs, List.length_append, List.length_map, List.length_map,
      length_placedFragments]
    exact (Nat.zero_add _).trans_le hcount
  · rw [Walk.keepAll_metadataBytes, h.moofs, map_size_placedFragments]
    dsimp only
    omega
  · rw [Walk.keepAll_otherBoxes, h.others]
    decide
  · rw [Walk.keepAll_mediaBoxes, h.mdats]
    dsimp only
    omega
  · intro entry hentry hkind
    have hmem := mem_ofKind.mpr ⟨hentry, hkind⟩
    rw [h.moovs, List.mem_singleton] at hmem
    subst hmem
    unfold BoxSpec.header
    dsimp only
    omega

/-- The walk over a packaged stream finds its `moov` and all its fragments,
whether or not it looks for a `sidx`. -/
theorem fetchWith_packagedFile (useSidx : Bool)
    (hinit : InitBytes init brands movie)
    (hinside : PartsInside source (fragments.flatMap StreamFragment.parts))
    (hcount : fragments.length ≤ limits.maxFragments)
    (hbytes : metadataLength movie fragments ≤ limits.maxMetadataBytes) :
    ∃ metadata, fetchWith (packagedFile source init fragments) limits useSidx =
        .ok metadata ∧
      metadata.len = (packagedFile source init fragments).length ∧
      metadata.moovBytes = boxBytes (code 'm' 'o' 'o' 'v') movie ∧
      metadata.fragments = (placedFragments init.length fragments).map
        fun item => item.2.moofAt item.1 := by
  have hfile := packagedFile_eq hinit hinside
  set file := packagedFile source init fragments with hfileDef
  set l := foundBoxes 0 (fileBoxes source brands movie fragments) with hl
  have hkinds : FileKinds brands movie fragments l := fileKinds hinside
  have hboxes : Boxes file file.length 0 l file.length :=
    @boxes_found file [] _ 0 (fileBoxes_fit hinit hinside)
      (by rw [hfile, List.nil_append]) rfl
  have hend : boxAt file file.length file.length = none := boxAt_of_le le_rfl
  obtain ⟨hwithin, hmoovs⟩ := @FileKinds.within _ _ _ _ file _ hkinds hcount
    hbytes
  have hrun : Walk.run file limits useSidx {} 0 =
      .ok (Walk.keepAll file {} l) := by
    rw [Walk.run_without_sidx rfl hboxes hend hkinds.names]
    refine (Walk.run_steady_eq_ok_iff ⟨rfl, .inl rfl⟩
      (Walk.within_initial limits) hboxes hend).mpr ⟨hwithin, hmoovs, ?_⟩
    exact Walk.finish_eq_ok_iff.mpr (.inl ⟨le_rfl, rfl⟩)
  have hlength := hinit.length_eq
  have hmoov : readRange file ⟨brands.length + 8, movie.length + 8⟩ =
      boxBytes (code 'm' 'o' 'o' 'v') movie := by
    have hread := @readRange_box file (boxBytes (code 'f' 't' 'y' 'p') brands)
      (boxesBytes (streamBoxes source fragments))
      (code 'm' 'o' 'o' 'v', movie)
      (hinit.fits _ (List.mem_cons_of_mem _ (List.mem_cons_self ..))) (by
        rw [hfile]
        unfold fileBoxes initBoxes
        rw [boxesBytes_append, boxesBytes_cons, boxesBytes_cons,
          boxesBytes_nil, List.append_nil, List.append_assoc])
    rw [length_boxBytes_code] at hread
    exact hread
  have hfragments : (Walk.keepAll file {} l).fragments =
      (placedFragments init.length fragments).map
        fun item => item.2.moofAt item.1 := by
    have hstream := @fragmentsOf_stream source file init fragments init.length
      hinside (by
        rw [hfile]
        unfold fileBoxes
        rw [boxesBytes_append, hinit.init_eq]) rfl
    unfold fragmentsOf at hstream
    rw [(streamKinds hinside).moofs, hlength] at hstream
    rw [Walk.keepAll_fragments, hlength]
    unfold fragmentsOf
    rw [hkinds.moofs]
    exact hstream
  have hmetadata := @fetchWith_eq_ok_iff file limits useSidx
    ⟨file.length, ⟨brands.length + 8, movie.length + 8⟩,
      boxBytes (code 'm' 'o' 'o' 'v') movie,
      (Walk.keepAll file {} l).fragments, (Walk.keepAll file {} l).discovery,
      (Walk.keepAll file {} l).dropped⟩
  refine ⟨_, hmetadata.mpr ⟨_, hrun, ?_, ?_, rfl, rfl, rfl, rfl⟩, rfl, rfl,
    hfragments⟩
  · rw [Walk.keepAll_moov, hkinds.moovs]
    dsimp only [List.getLast?_singleton, Option.map_some, Option.some_or,
      BoxSpec.header]
    rw [hmoov]
  · have hsum := @foldl_saturatingAdd_le (2 ^ 64) 0
      (fragments.map fun fragment => fragment.prepared.moofPayload.length + 8)
    unfold metadataLength at hbytes
    rw [Walk.keepAll_metadataBytes, hkinds.moofs, map_size_placedFragments]
    unfold saturatingAdd at hsum ⊢
    dsimp only at hsum ⊢
    omega

end

end Segmentor
