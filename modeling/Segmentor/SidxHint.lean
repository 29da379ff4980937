import Segmentor.SidxJump

/-!
# A `sidx` as a hint

A walk that uses a `sidx` should find what the walk without one finds.  It
does exactly when it does not jump, or when nothing it jumps over would have
changed the rest of the walk: no `moov` that is the last one, no `moof` whose
`mdat` is cut off after the region, and no box that stands for the rest of the
file, unless that rest says nothing.
-/

namespace Segmentor

open General

variable {source : List UInt8} {limits : LimitsConfig}

/-! ## Fields of a run -/

namespace Walk

variable {walk final : Walk} {offset stop : ℕ} {l rest : List (ℕ × BoxHeader)}

theorem keepAll_moov_of_nil (h : ofKind .moov l = []) :
    (keepAll source walk l).moov = walk.moov := by
  rw [keepAll_moov, h]
  rfl

theorem keepAll_moov_of_ne_nil (h : ofKind .moov l ≠ []) :
    ∃ entry ∈ l, ∃ range bytes,
      (keepAll source walk l).moov = some (range, bytes) ∧
        range.offset = entry.1 := by
  rw [keepAll_moov, List.getLast?_eq_some_getLast h]
  exact ⟨_, (mem_ofKind.mp (List.getLast_mem h)).1, _, _, rfl, rfl⟩

/-- The `moov` after a run of boxes does not depend on the one before, if one
is among them. -/
theorem keepAll_moov_congr {other : Walk} (h : ofKind .moov l ≠ []) :
    (keepAll source walk l).moov = (keepAll source other l).moov := by
  rw [keepAll_moov, keepAll_moov, List.getLast?_eq_some_getLast h]
  rfl

/-- Two states with the same fragments lose the same to a cut, if both know
the last `moof` where that matters. -/
theorem drop_congr {other : Walk} {cut : Cut}
    (hfragments : other.fragments = walk.fragments) (hwalk : walk.Current)
    (hother : cut = .mdat → other.Current) (hne : walk.fragments ≠ []) :
    (other.drop offset cut).1.fragments = (walk.drop offset cut).1.fragments ∧
      (other.drop offset cut).2 = (walk.drop offset cut).2 := by
  by_cases hcut : cut = .mdat
  · subst hcut
    have hlast := List.getLast?_eq_some_getLast hne
    rw [drop_of_current hwalk hlast,
      drop_of_current (hother rfl) (by rw [hfragments, hlast]), hfragments]
    exact ⟨rfl, rfl⟩
  · rw [drop_of_ne_mdat hcut, drop_of_ne_mdat hcut]
    exact ⟨hfragments, rfl⟩

theorem finish_rest (h : finish source limits walk offset = .ok final) :
    final.moov = walk.moov ∧ final.metadataBytes = walk.metadataBytes := by
  have hdrop : ∀ cut, (walk.drop offset cut).1.moov = walk.moov ∧
      (walk.drop offset cut).1.metadataBytes = walk.metadataBytes := by
    intro cut
    unfold drop
    split
    · split <;> exact ⟨rfl, rfl⟩
    · exact ⟨rfl, rfl⟩
  rcases finish_eq_ok_iff.mp h with ⟨-, rfl⟩ | ⟨-, -, -, cut, -, -, rfl⟩
  · exact ⟨rfl, rfl⟩
  · exact hdrop cut

end Walk

/-- The bytes of fragments that are inside the file. -/
theorem sum_length_fragmentsOf {l : List (ℕ × BoxHeader)}
    (hinside : ∀ entry ∈ l, entry.1 + entry.2.size ≤ source.length) :
    ((fragmentsOf source l).map fun fragment => fragment.bytes.length).sum =
      ((ofKind .moof l).map fun entry => entry.2.size).sum := by
  unfold fragmentsOf
  rw [List.map_map]
  congr 1
  refine List.map_congr_left fun entry hentry => ?_
  exact length_readRange (hinside entry (mem_ofKind.mp hentry).1)

theorem Subsegments.mem_bounds {start : ℕ} {sizes : List ℕ}
    {l : List (ℕ × BoxHeader)} (h : Subsegments source start sizes l)
    {entry : ℕ × BoxHeader} (hentry : entry ∈ l) :
    start ≤ entry.1 ∧ entry.1 + entry.2.size ≤ start + sizes.sum := by
  induction h with
  | nil => simp at hentry
  | cons hboxes _ _ ih =>
      rw [List.sum_cons]
      rcases List.mem_append.mp hentry with hmem | hmem
      · have := (hboxes.mem_bounds hmem).2
        omega
      · have := ih hmem
        omega

theorem Subsegments.unique {start : ℕ} {sizes : List ℕ}
    {l l' : List (ℕ × BoxHeader)} (h : Subsegments source start sizes l)
    (h' : Subsegments source start sizes l') : l = l' := by
  induction h generalizing l' with
  | nil => exact h'.eq_nil.symm
  | cons hboxes _ _ ih =>
      cases h' with
      | cons hboxes' _ hrest' =>
          rw [ih hrest', (hboxes.eq_of_ends hboxes' (boxAt_of_le le_rfl)
            (boxAt_of_le le_rfl)).1]

/-! ## A jump -/

/-- The walk that uses its `sidx` comes, box by box, to the start of the
region `coverage` lists, and every subsegment up to `stop` is what the `sidx`
said. -/
structure Jump (source : List UInt8) (limits : LimitsConfig) (walk : Walk)
    (coverage : Coverage) (stop : ℕ) : Prop where
  steps : Walk.Steps source limits {} 0 walk coverage.start
  pending : walk.pending = some coverage
  region : ∃ found, walk.region source coverage.start = some (found, stop)

namespace Jump

variable {walk final : Walk} {coverage : Coverage} {stop last : ℕ}
  {l after : List (ℕ × BoxHeader)}

theorem sizes_ne_nil (h : Jump source limits walk coverage stop) :
    coverage.sizes ≠ [] :=
  h.steps.usable (fun _ hnone => by simp at hnone) coverage h.pending

theorem boxes (h : Jump source limits walk coverage stop) :
    stop = coverage.start + coverage.sizes.sum ∧ stop ≤ source.length ∧
      coverage.start < stop ∧
        ∃ l, Subsegments source coverage.start coverage.sizes l ∧
          walk.region source coverage.start =
            some (fragmentsOf source l, stop) := by
  obtain ⟨found, hregion⟩ := h.region
  obtain ⟨coverage', hpending, -, hstop, hle, l, hl, rfl⟩ :=
    Walk.region_eq_some_iff.mp hregion
  obtain rfl := Option.some.inj (h.pending.symm.trans hpending)
  have hsum := Coverage.stop_eq hstop
  have hpos := hl.sum_pos h.sizes_ne_nil
  exact ⟨hsum, hle, by omega, l, hl, hregion⟩

/-- The state before a jump is what the boxes before it leave. -/
theorem before (h : Jump source limits walk coverage stop) :
    Walk.Within limits walk.erase ∧
      Walk.run source limits false {} 0 =
        Walk.run source limits false walk.erase coverage.start ∧
      ∃ l, Boxes source source.length 0 l coverage.start ∧
        walk.erase = Walk.keepAll source {} l :=
  h.steps.erase (Walk.within_initial limits)

theorem current (h : Jump source limits walk coverage stop) :
    walk.erase.Current := by
  obtain ⟨-, -, l, -, heq⟩ := h.before
  rw [heq]
  exact Walk.Current.keepAll rfl

theorem moov_lt (h : Jump source limits walk coverage stop)
    {range : ByteRange} {bytes : List UInt8}
    (hmoov : walk.moov = some (range, bytes)) :
    range.offset < coverage.start := by
  obtain ⟨-, -, l, hl, heq⟩ := h.before
  have hmoov' : (Walk.keepAll source {} l).moov = some (range, bytes) := by
    rw [← heq]
    exact hmoov
  by_cases hnil : ofKind .moov l = []
  · rw [Walk.keepAll_moov_of_nil hnil] at hmoov'
    simp at hmoov'
  · obtain ⟨entry, hentry, range', bytes', heq', hoffset⟩ :=
      @Walk.keepAll_moov_of_ne_nil source ({} : _) _ hnil
    obtain ⟨rfl, -⟩ := Prod.mk.inj (Option.some.inj (hmoov'.symm.trans heq'))
    obtain ⟨hitem, -, hle⟩ := hl.mem_bounds hentry
    have := (boxAt_advances source source.length).pos hitem
    omega

theorem lastMoof_lt (h : Jump source limits walk coverage stop)
    {offset : ℕ} (hlast : walk.lastMoof = some offset) :
    offset < coverage.start := by
  obtain ⟨-, -, l, hl, heq⟩ := h.before
  have hlast' : (Walk.keepAll source {} l).lastMoof = some offset := by
    rw [← heq]
    exact hlast
  rw [Walk.keepAll_lastMoof, Option.or_none, Option.map_eq_some_iff] at hlast'
  obtain ⟨entry, hentry, rfl⟩ := hlast'
  have hmem := (mem_ofKind.mp (List.mem_of_getLast? hentry)).1
  obtain ⟨hitem, -, hle⟩ := hl.mem_bounds hmem
  have := (boxAt_advances source source.length).pos hitem
  omega

theorem run_false_eq_ok_iff (h : Jump source limits walk coverage stop)
    (hl : Boxes source source.length coverage.start l last)
    (hend : boxAt source source.length last = none) :
    Walk.run source limits false {} 0 = .ok final ↔
      Walk.Within limits (walk.erase.keepAll source l) ∧
        Walk.MoovsFit limits l ∧
          Walk.finish source limits (walk.erase.keepAll source l) last =
            .ok final := by
  obtain ⟨hwithin, hrun, -⟩ := h.before
  rw [hrun]
  exact Walk.run_steady_eq_ok_iff Walk.erase_steady hwithin hl hend

theorem run_true_eq_ok_iff (h : Jump source limits walk coverage stop)
    (hl : Subsegments source coverage.start coverage.sizes l)
    (hafter : Boxes source source.length stop after last)
    (hend : boxAt source source.length last = none) :
    Walk.run source limits true {} 0 = .ok final ↔
      Walk.Within limits
          ((walk.jumped (fragmentsOf source l)).keepAll source after) ∧
        Walk.MoovsFit limits after ∧
          Walk.finish source limits
              ((walk.jumped (fragmentsOf source l)).keepAll source after)
              last = .ok final := by
  obtain ⟨hsum, hle, hlt, l', hl', hregion⟩ := h.boxes
  obtain rfl := hl.unique hl'
  obtain ⟨hwithin, -, -⟩ := h.before
  have hsteady : Walk.Steady true (walk.jumped (fragmentsOf source l)) := by
    refine ⟨rfl, .inr ?_⟩
    simp [Walk.jumped, hl.ne_nil h.sizes_ne_nil]
  have hword : (walk.jumped (fragmentsOf source l)).metadataBytes < 2 ^ 64 := by
    simp only [Walk.jumped, saturatingAdd]
    omega
  rw [h.steps.run_eq, Walk.run_jump_eq_ok_iff (by omega) hregion]
  constructor
  · rintro ⟨hfragments, hbytes, hrun⟩
    have hjumped : Walk.Within limits (walk.jumped (fragmentsOf source l)) :=
      ⟨hfragments, hbytes, hwithin.otherBoxes, hwithin.mediaBoxes, hword⟩
    exact (Walk.run_steady_eq_ok_iff hsteady hjumped hafter hend).mp hrun
  · intro hfinal
    have hjumped := hfinal.1.of_keepAll hword
    exact ⟨hjumped.fragments, hjumped.metadataBytes,
      (Walk.run_steady_eq_ok_iff hsteady hjumped hafter hend).mpr hfinal⟩

end Jump

/-! ## Comparing the two walks -/

/-- The walk that uses its `sidx` succeeds with what `metadata` says, apart
from how the fragments were found. -/
def FoundBySidx (source : List UInt8) (limits : LimitsConfig)
    (metadata : Metadata) : Prop :=
  ∃ found, fetchWith source limits true = .ok found ∧
    found = { metadata with discovery := found.discovery }

variable {metadata : Metadata} {sequential : Walk}

theorem foundBySidx_of_run {final : Walk}
    (hmetadata : fetchWith source limits false = .ok metadata)
    (hsequential : Walk.run source limits false {} 0 = .ok sequential)
    (hrun : Walk.run source limits true {} 0 = .ok final)
    (hmoov : final.moov = sequential.moov)
    (hfragments : final.fragments = sequential.fragments)
    (hbytes : final.metadataBytes = sequential.metadataBytes)
    (hdropped : final.dropped = sequential.dropped) :
    FoundBySidx source limits metadata := by
  obtain ⟨walk, hwalk, hmoov', hle, hlen, hfragments', -, hdropped'⟩ :=
    fetchWith_eq_ok_iff.mp hmetadata
  obtain rfl := Except.ok.inj (hsequential.symm.trans hwalk)
  refine ⟨{ metadata with discovery := final.discovery },
    fetchWith_eq_ok_iff.mpr ⟨final, hrun, ?_⟩, rfl⟩
  exact ⟨hmoov.trans hmoov', by rwa [hbytes], hlen,
    hfragments'.trans hfragments.symm, rfl, hdropped'.trans hdropped.symm⟩

theorem FoundBySidx.run
    (h : FoundBySidx source limits metadata)
    (hmetadata : fetchWith source limits false = .ok metadata)
    (hsequential : Walk.run source limits false {} 0 = .ok sequential) :
    ∃ final, Walk.run source limits true {} 0 = .ok final ∧
      final.moov = sequential.moov ∧
        final.fragments = sequential.fragments ∧
          final.dropped = sequential.dropped := by
  obtain ⟨walk, hwalk, hmoov, -, -, hfragments, -, hdropped⟩ :=
    fetchWith_eq_ok_iff.mp hmetadata
  obtain rfl := Except.ok.inj (hsequential.symm.trans hwalk)
  obtain ⟨found, hfound, heq⟩ := h
  obtain ⟨final, hrun, hmoov', -, -, hfragments', -, hdropped'⟩ :=
    fetchWith_eq_ok_iff.mp hfound
  rw [heq] at hmoov' hfragments' hdropped'
  exact ⟨final, hrun, hmoov'.trans hmoov.symm,
    hfragments'.symm.trans hfragments, hdropped'.symm.trans hdropped⟩

namespace Jump

variable {walk : Walk} {coverage : Coverage} {stop last : ℕ}
  {l after : List (ℕ × BoxHeader)}

theorem keepAll_jumped_fragments :
    ((walk.jumped (fragmentsOf source l)).keepAll source after).fragments =
      (walk.erase.keepAll source (l ++ after)).fragments := by
  rw [Walk.keepAll_fragments, Walk.keepAll_fragments, fragmentsOf_append,
    ← List.append_assoc]
  rfl

/-- The bytes of a region's fragments are counted at once. -/
theorem jumped_metadataBytes
    (hinside : ∀ entry ∈ l, entry.1 + entry.2.size ≤ source.length)
    (hmoof : ofKind .moof l ≠ []) :
    (walk.jumped (fragmentsOf source l)).metadataBytes =
      (walk.erase.keepAll source l).metadataBytes := by
  rw [Walk.keepAll_metadataBytes, foldl_saturatingAdd _ _ (by simpa using hmoof),
    ← sum_length_fragmentsOf hinside]
  rfl

theorem keepAll_jumped_metadataBytes
    (hinside : ∀ entry ∈ l, entry.1 + entry.2.size ≤ source.length)
    (hmoof : ofKind .moof l ≠ []) :
    ((walk.jumped (fragmentsOf source l)).keepAll source after).metadataBytes =
      (walk.erase.keepAll source (l ++ after)).metadataBytes := by
  rw [Walk.keepAll_append, Walk.keepAll_metadataBytes,
    Walk.keepAll_metadataBytes, jumped_metadataBytes hinside hmoof]

/-- A jump counts fewer boxes. -/
theorem keepAll_jumped_within
    (hinside : ∀ entry ∈ l, entry.1 + entry.2.size ≤ source.length)
    (hmoof : ofKind .moof l ≠ [])
    (h : Walk.Within limits (walk.erase.keepAll source (l ++ after))) :
    Walk.Within limits
      ((walk.jumped (fragmentsOf source l)).keepAll source after) := by
  obtain ⟨hfragments, hbytes, hother, hmedia, hword⟩ := h
  rw [← keepAll_jumped_fragments] at hfragments
  rw [← keepAll_jumped_metadataBytes hinside hmoof] at hbytes hword
  rw [Walk.keepAll_otherBoxes, ofKind_append, List.length_append] at hother
  rw [Walk.keepAll_mediaBoxes, ofKind_append, List.length_append] at hmedia
  refine ⟨hfragments, hbytes, ?_, ?_, hword⟩
  · rw [Walk.keepAll_otherBoxes]
    simp only [Walk.jumped] at hother ⊢
    omega
  · rw [Walk.keepAll_mediaBoxes]
    simp only [Walk.jumped] at hmedia ⊢
    omega

/-- Both walks finish alike where a cut `mdat` finds its `moof` after the
region. -/
theorem finish_jumped
    (hcurrent : walk.erase.Current)
    (hcut : last < source.length → cutBox source last = some .mdat →
      ofKind .moof after ≠ [])
    (hfinish : Walk.finish source limits
      (walk.erase.keepAll source (l ++ after)) last = .ok sequential) :
    ∃ final, Walk.finish source limits
        ((walk.jumped (fragmentsOf source l)).keepAll source after) last =
          .ok final ∧
      final.fragments = sequential.fragments ∧
        final.dropped = sequential.dropped := by
  have hsame := @keepAll_jumped_fragments source walk l after
  have hnone : ((walk.jumped (fragmentsOf source l)).keepAll source
      after).dropped = (walk.erase.keepAll source (l ++ after)).dropped := by
    rw [Walk.keepAll_rest.2.1, Walk.keepAll_rest.2.1]
    rfl
  simp only [Walk.finish_eq_ok_iff] at hfinish ⊢
  rcases hfinish with ⟨hend, rfl⟩ | ⟨hlt, hne, htolerate, cut, hbox, hleft, rfl⟩
  · exact ⟨_, .inl ⟨hend, rfl⟩, hsame, hnone⟩
  · obtain ⟨hfragments, hdrop⟩ := @Walk.drop_congr _ last _ cut hsame
      hcurrent.keepAll (fun hmdat => Walk.current_of_moof
        (hcut hlt (hmdat ▸ hbox))) hne
    refine ⟨_, .inr ⟨hlt, by rwa [hsame], htolerate, cut, hbox,
      by rwa [hfragments], rfl⟩, hfragments, ?_⟩
    dsimp only
    rw [hdrop]

/-- The region's `moof` boxes are not the walk's last `moof`: a cut `mdat`
after them is dropped alone. -/
theorem drop_jumped (h : Jump source limits walk coverage stop)
    (hl : Subsegments source coverage.start coverage.sizes l)
    (hmoof : ofKind .moof l ≠ []) (hafter : ofKind .moof after = [])
    {cut : Cut} :
    ((walk.jumped (fragmentsOf source l)).keepAll source after).drop last cut =
      ((walk.jumped (fragmentsOf source l)).keepAll source after, last, 0) := by
  have hlast := List.getLast?_eq_some_getLast hmoof
  refine @Walk.drop_of_stale _ _ (fragmentAt source
    ((ofKind .moof l).getLast hmoof).1 ((ofKind .moof l).getLast hmoof).2.size)
    ?_ ?_ _
  · rw [Walk.keepAll_fragments, fragmentsOf_eq_nil_iff.mpr hafter,
      List.append_nil]
    simp only [Walk.jumped, List.getLast?_append, fragmentsOf,
      List.getLast?_map, hlast, Option.map_some, Option.some_or]
  · rw [Walk.keepAll_lastMoof, hafter]
    intro heq
    have hlt := h.lastMoof_lt heq
    have hmem := (mem_ofKind.mp (List.getLast_mem hmoof)).1
    have := (hl.mem_bounds hmem).1
    simp only [fragmentAt] at hlt
    omega

/-- Where the walk without the `sidx` arrives at the region's end, both find
the same exactly when neither a `moov` nor a cut fragment depends on the
region. -/
theorem found_iff_of_boxes (h : Jump source limits walk coverage stop)
    (hmetadata : fetchWith source limits false = .ok metadata)
    (hl : Subsegments source coverage.start coverage.sizes l)
    (hboxes : Boxes source source.length coverage.start l stop)
    (hafter : Boxes source source.length stop after last)
    (hend : boxAt source source.length last = none) :
    FoundBySidx source limits metadata ↔
      (ofKind .moov l ≠ [] → ofKind .moov after ≠ []) ∧
        (last < source.length → cutBox source last = some .mdat →
          ofKind .moof after ≠ []) := by
  obtain ⟨sequential, hrun, -⟩ := fetchWith_eq_ok_iff.mp hmetadata
  obtain ⟨hwithin, hmoovs, hfinish⟩ :=
    (h.run_false_eq_ok_iff (hboxes.append hafter) hend).mp hrun
  obtain ⟨hsum, hle, hlt, -⟩ := h.boxes
  have hmoof := hl.ne_nil h.sizes_ne_nil
  have hinside : ∀ entry ∈ l, entry.1 + entry.2.size ≤ source.length :=
    fun entry hentry => (hboxes.mem_bounds hentry).2.2.trans hle
  obtain ⟨hmoov, hbytes⟩ := Walk.finish_rest hfinish
  constructor
  · intro hfound
    obtain ⟨final, hrun', hmoov', -, hdropped⟩ := hfound.run hmetadata hrun
    obtain ⟨-, -, hfinish'⟩ := (h.run_true_eq_ok_iff hl hafter hend).mp hrun'
    refine ⟨fun hinner hnil => ?_, fun hlast hcut hnil => ?_⟩
    · -- The last `moov` is in the region, and the jump goes past it.
      have hjumped : final.moov = walk.moov := by
        rw [(Walk.finish_rest hfinish').1, Walk.keepAll_moov_of_nil hnil]
        rfl
      rw [Walk.keepAll_append, Walk.keepAll_moov_of_nil hnil] at hmoov
      obtain ⟨entry, hentry, range, bytes, heq, hoffset⟩ :=
        @Walk.keepAll_moov_of_ne_nil source walk.erase _ hinner
      have hbefore := @Jump.moov_lt _ _ _ _ _ h range bytes
        (by rw [← hjumped, hmoov', hmoov, heq])
      have := (hl.mem_bounds hentry).1
      omega
    · -- The cut `mdat` takes the region's last `moof` in one walk only.
      rw [Walk.finish_eq_ok_iff] at hfinish hfinish'
      obtain ⟨-, hne, -, cut, hbox, -, heq⟩ :=
        hfinish.resolve_left fun hend => by omega
      obtain ⟨-, -, -, cut', hbox', -, heq'⟩ :=
        hfinish'.resolve_left fun hend => by omega
      obtain rfl := Option.some.inj (hcut.symm.trans hbox)
      obtain rfl := Option.some.inj (hcut.symm.trans hbox')
      rw [Walk.drop_of_current h.current.keepAll
        (List.getLast?_eq_some_getLast hne)] at heq
      rw [h.drop_jumped hl hmoof hnil] at heq'
      rw [heq, heq'] at hdropped
      simp at hdropped
  · rintro ⟨hmoovCond, hcut⟩
    obtain ⟨final, hfinish', hfragments, hdropped⟩ :=
      finish_jumped h.current hcut hfinish
    obtain ⟨hmoov', hbytes'⟩ := Walk.finish_rest hfinish'
    refine foundBySidx_of_run hmetadata hrun
      ((h.run_true_eq_ok_iff hl hafter hend).mpr
        ⟨keepAll_jumped_within hinside hmoof hwithin, ?_, hfinish'⟩)
      ?_ hfragments ?_ hdropped
    · exact fun entry hentry => hmoovs entry (List.mem_append_right l hentry)
    · rw [hmoov', hmoov, Walk.keepAll_append]
      by_cases hnil : ofKind .moov after = []
      · rw [Walk.keepAll_moov_of_nil hnil, Walk.keepAll_moov_of_nil hnil,
          Walk.keepAll_moov_of_nil
            (by_contra fun hinner => hmoovCond hinner hnil)]
        rfl
      · exact Walk.keepAll_moov_congr hnil
    · rw [hbytes', hbytes, keepAll_jumped_metadataBytes hinside hmoof]

/-- The `moov` a jump leaves is before the region or after it. -/
theorem moov_jumped (h : Jump source limits walk coverage stop)
    (hafter : Boxes source source.length stop after last)
    {found : List Fragment} {range : ByteRange} {bytes : List UInt8}
    (hmoov : ((walk.jumped found).keepAll source after).moov =
      some (range, bytes)) :
    range.offset < coverage.start ∨ stop ≤ range.offset := by
  by_cases hnil : ofKind .moov after = []
  · rw [Walk.keepAll_moov_of_nil hnil] at hmoov
    exact .inl (h.moov_lt hmoov)
  · obtain ⟨entry, hentry, range', bytes', heq, hoffset⟩ :=
      @Walk.keepAll_moov_of_ne_nil source (walk.jumped found) _ hnil
    obtain ⟨rfl, -⟩ := Prod.mk.inj (Option.some.inj (hmoov.symm.trans heq))
    rw [hoffset]
    exact .inr (hafter.mem_bounds hentry).2.1

/-- Where a box of the region stands for the rest of the file, both find the
same exactly when it is the region's last, and neither it nor what follows
the region says anything. -/
theorem found_iff_of_openEnded (h : Jump source limits walk coverage stop)
    (hmetadata : fetchWith source limits false = .ok metadata)
    {before rest : List (ℕ × BoxHeader)} {start : ℕ} {box : BoxHeader}
    (hl : Subsegments source coverage.start coverage.sizes
      (before ++ (start, box) :: rest))
    (hbefore : Boxes source source.length coverage.start before start)
    (hbox : boxAt source source.length start =
      some ⟨box.name, source.length - start⟩)
    (hshort : start + box.size < source.length) (hstart : start < stop)
    (hafter : Boxes source source.length stop after last)
    (hend : boxAt source source.length last = none) :
    FoundBySidx source limits metadata ↔
      ofKind .moof rest = [] ∧ box.kind ≠ .moof ∧ box.kind ≠ .moov ∧
        ofKind .moov before = [] ∧ source.length ≤ last ∧
          ofKind .moov after = [] ∧ ofKind .moof after = [] ∧
            walk.otherBoxes + (ofKind .other after).length ≤
                MAX_OTHER_BOXES ∧
              walk.mediaBoxes + (ofKind .mdat after).length ≤
                limits.maxFragments + 16 := by
  have hpos : start < source.length := Walk.lt_of_boxAt hbox
  have hwhole : Boxes source source.length coverage.start
      (before ++ [(start, ⟨box.name, source.length - start⟩)])
      source.length := by
    refine hbefore.append ?_
    have hsingle := @Scan.single _ _ BoxHeader.size _ _ hbox
    rwa [Nat.add_sub_cancel' hpos.le] at hsingle
  have hkind : (⟨box.name, source.length - start⟩ : BoxHeader).kind =
      box.kind := rfl
  obtain ⟨hsum, hle, -⟩ := h.boxes
  obtain ⟨sequential, hrun, -⟩ := fetchWith_eq_ok_iff.mp hmetadata
  obtain ⟨hwithin, hmoovs, hfinish⟩ :=
    (h.run_false_eq_ok_iff hwhole (boxAt_of_le le_rfl)).mp hrun
  rw [Walk.finish_eq_ok_iff] at hfinish
  obtain ⟨-, rfl⟩ := hfinish.resolve_right fun hcut => hcut.1.false
  have hdropped : walk.dropped = none := by
    obtain ⟨-, -, l, -, heq⟩ := h.before
    exact (congrArg Walk.dropped heq).trans Walk.keepAll_rest.2.1
  constructor
  · intro hfound
    obtain ⟨final, hrun', hmoov, hfragments, hnone⟩ :=
      hfound.run hmetadata hrun
    obtain ⟨hwithin', -, hfinish'⟩ :=
      (h.run_true_eq_ok_iff hl hafter hend).mp hrun'
    rw [Walk.finish_eq_ok_iff] at hfinish'
    obtain ⟨hlast, rfl⟩ := hfinish'.resolve_right fun hcut => by
      obtain ⟨-, -, -, _, -, -, rfl⟩ := hcut
      rw [Walk.keepAll_rest.2.1] at hnone
      simp [hdropped] at hnone
    rw [keepAll_jumped_fragments, Walk.keepAll_fragments,
      Walk.keepAll_fragments, List.append_cancel_left_eq] at hfragments
    simp only [List.append_assoc, fragmentsOf_append,
      List.append_cancel_left_eq, List.cons_append] at hfragments
    have hmoof : box.kind ≠ .moof := by
      intro hmoof
      rw [fragmentsOf_cons, fragmentsOf_cons, if_pos hmoof,
        if_pos (hkind.trans hmoof)] at hfragments
      have hbytes := congrArg (fun fragments =>
        (fragments.head?.map fun fragment => fragment.bytes.length))
        hfragments
      simp only [List.head?_cons, Option.map_some, fragmentAt,
        Option.some.injEq] at hbytes
      rw [length_readRange (by dsimp only; omega),
        length_readRange (by dsimp only; omega)] at hbytes
      dsimp only at hbytes
      omega
    rw [fragmentsOf_cons, fragmentsOf_cons, if_neg hmoof,
      if_neg (fun heq => hmoof (hkind.symm.trans heq)), fragmentsOf_nil,
      fragmentsOf_append, List.append_eq_nil_iff, fragmentsOf_eq_nil_iff,
      fragmentsOf_eq_nil_iff] at hfragments
    have hinner : ofKind .moov
        (before ++ [(start, ⟨box.name, source.length - start⟩)]) = [] := by
      by_contra hne
      obtain ⟨entry, hentry, range, bytes, heq, hoffset⟩ :=
        @Walk.keepAll_moov_of_ne_nil source walk.erase _ hne
      have hwhere := h.moov_jumped hafter (hmoov.trans heq)
      have hlow := (hwhole.mem_bounds hentry).2.1
      rcases List.mem_append.mp hentry with hmem | hmem
      · obtain ⟨hitem, -, hhigh⟩ := hbefore.mem_bounds hmem
        omega
      · obtain rfl := List.mem_singleton.mp hmem
        dsimp only at hoffset hlow
        omega
    rw [Walk.keepAll_moov_of_nil hinner] at hmoov
    have houter : ofKind .moov after = [] := by
      by_contra hne
      obtain ⟨entry, hentry, range, bytes, heq, hoffset⟩ :=
        @Walk.keepAll_moov_of_ne_nil source
          (walk.jumped (fragmentsOf source (before ++ (start, box) :: rest))) _
          hne
      have hlow := h.moov_lt (hmoov.symm.trans heq)
      have hhigh := (hafter.mem_bounds hentry).2.1
      have := hbefore.le
      omega
    rw [ofKind_append, List.append_eq_nil_iff, ofKind_cons, hkind] at hinner
    have hother := hwithin'.otherBoxes
    have hmedia := hwithin'.mediaBoxes
    rw [Walk.keepAll_otherBoxes] at hother
    rw [Walk.keepAll_mediaBoxes] at hmedia
    exact ⟨hfragments.1, hmoof, fun hmoov => by simp [hmoov] at hinner,
      hinner.1, hlast, houter, hfragments.2, hother, hmedia⟩
  · rintro ⟨hrest, hmoof, hmoov, hinner, hlast, houter, hquiet, hother,
      hmedia⟩
    have hsame : fragmentsOf source (before ++ (start, box) :: rest) =
        fragmentsOf source
          (before ++ [(start, ⟨box.name, source.length - start⟩)]) := by
      rw [fragmentsOf_append, fragmentsOf_append, fragmentsOf_cons,
        fragmentsOf_cons, if_neg hmoof,
        if_neg (fun heq => hmoof (hkind.symm.trans heq)),
        fragmentsOf_eq_nil_iff.mpr hrest, fragmentsOf_nil]
    have hfragments : ((walk.jumped (fragmentsOf source
        (before ++ (start, box) :: rest))).keepAll source after).fragments =
        (walk.erase.keepAll source (before ++
          [(start, ⟨box.name, source.length - start⟩)])).fragments := by
      rw [Walk.keepAll_fragments, Walk.keepAll_fragments,
        fragmentsOf_eq_nil_iff.mpr hquiet, List.append_nil, hsame]
      rfl
    have hbytes : ((walk.jumped (fragmentsOf source
        (before ++ (start, box) :: rest))).keepAll source after).metadataBytes =
        (walk.erase.keepAll source (before ++
          [(start, ⟨box.name, source.length - start⟩)])).metadataBytes := by
      rw [Walk.keepAll_metadataBytes, hquiet, List.map_nil, List.foldl_nil,
        jumped_metadataBytes
          (fun entry hentry => by
            have := (hl.mem_bounds hentry).2
            omega)
          (hl.ne_nil h.sizes_ne_nil),
        Walk.keepAll_metadataBytes, Walk.keepAll_metadataBytes]
      simp only [ofKind_append, ofKind_cons, hrest, hkind, if_neg hmoof,
        ofKind_nil]
    have hjumped : Walk.Within limits ((walk.jumped (fragmentsOf source
        (before ++ (start, box) :: rest))).keepAll source after) := by
      refine ⟨?_, ?_, ?_, ?_, ?_⟩
      · rw [hfragments]
        exact hwithin.fragments
      · rw [hbytes]
        exact hwithin.metadataBytes
      · rw [Walk.keepAll_otherBoxes]
        exact hother
      · rw [Walk.keepAll_mediaBoxes]
        exact hmedia
      · rw [hbytes]
        exact hwithin.word
    refine foundBySidx_of_run hmetadata hrun
      ((h.run_true_eq_ok_iff hl hafter hend).mpr ⟨hjumped, ?_,
        Walk.finish_eq_ok_iff.mpr (.inl ⟨hlast, rfl⟩)⟩) ?_ hfragments hbytes ?_
    · intro entry hentry hkind'
      have hmem := mem_ofKind.mpr ⟨hentry, hkind'⟩
      simp [houter] at hmem
    · rw [Walk.keepAll_moov_of_nil houter, Walk.keepAll_moov_of_nil]
      · rfl
      · rw [ofKind_append, hinner, ofKind_cons, if_neg]
        · rfl
        · exact fun heq => hmoov (hkind.symm.trans heq)
    · rw [Walk.keepAll_rest.2.1, Walk.keepAll_rest.2.1]
      rfl

end Jump

/-! ## Jumps that change nothing -/

/-- A jump after which both walks find the same. -/
inductive HarmlessJump (source : List UInt8) (limits : LimitsConfig)
    (walk : Walk) (coverage : Coverage) (stop : ℕ) : Prop
  /-- The walk box by box arrives at the end of the region.  A `moov` in the
  region is not the last one, and a cut `mdat` after it has a `moof` there. -/
  | arrives {inside after : List (ℕ × BoxHeader)} {last : ℕ}
      (hinside : Boxes source source.length coverage.start inside stop)
      (hzero : ∀ entry ∈ inside, size32 source entry.1 = 0 →
        coverage.start + coverage.sizes.dropLast.sum ≤ entry.1)
      (hafter : Boxes source source.length stop after last)
      (hend : boxAt source source.length last = none)
      (hmoov : ofKind .moov inside ≠ [] → ofKind .moov after ≠ [])
      (hcut : last < source.length → cutBox source last = some .mdat →
        ofKind .moof after ≠ [])
  /-- The region's last box has size zero, and the file goes on after the
  region, but only with boxes that say nothing. -/
  | openEnded {before after : List (ℕ × BoxHeader)} {start : ℕ}
      {box : BoxHeader}
      (hbefore : Boxes source source.length coverage.start before start)
      (hbox : boxAt source source.length start = some box)
      (hzero : size32 source start = 0)
      (hlast : coverage.start + coverage.sizes.dropLast.sum ≤ start)
      (hstart : start < stop) (hstop : stop < source.length)
      (hmoof : box.kind ≠ .moof) (hmoov : box.kind ≠ .moov)
      (hmoovs : ofKind .moov before = [])
      (hafter : Boxes source source.length stop after source.length)
      (hquiet : ofKind .moov after = [] ∧ ofKind .moof after = [])
      (hother : walk.otherBoxes + (ofKind .other after).length ≤
        MAX_OTHER_BOXES)
      (hmedia : walk.mediaBoxes + (ofKind .mdat after).length ≤
        limits.maxFragments + 16)

/-- A box of size zero reaches the end of the file. -/
theorem boxes_to_end {start stop : ℕ} {before : List (ℕ × BoxHeader)}
    {box : BoxHeader} (hbefore : Boxes source source.length start before stop)
    (hbox : boxAt source source.length stop = some box)
    (hzero : size32 source stop = 0) :
    Boxes source source.length start (before ++ [(stop, box)])
      source.length := by
  obtain ⟨hdeclares, -, hle, -⟩ :=
    header_eq_ok_iff.mp (boxAt_eq_some_iff.mp hbox)
  unfold Declares at hdeclares
  refine hbefore.append ?_
  have hsingle := @Scan.single _ _ BoxHeader.size _ _ hbox
  rwa [show stop + box.size = source.length by omega] at hsingle

namespace Jump

variable {walk : Walk} {coverage : Coverage} {stop last : ℕ}
  {l after : List (ℕ × BoxHeader)}

/-- Scans from the region's start to its end and on to the file's are the
same. -/
theorem eq_of_arrives {inside after' : List (ℕ × BoxHeader)} {last' : ℕ}
    (hboxes : Boxes source source.length coverage.start l stop)
    (hafter : Boxes source source.length stop after last)
    (hend : boxAt source source.length last = none)
    (hinside : Boxes source source.length coverage.start inside stop)
    (hafter' : Boxes source source.length stop after' last')
    (hend' : boxAt source source.length last' = none) :
    inside = l ∧ after' = after ∧ last' = last := by
  obtain ⟨rfl, rfl⟩ := hafter'.eq_of_ends hafter hend' hend
  obtain ⟨more, heq, hmore⟩ := (hboxes.append hafter).follows hinside hend
  obtain ⟨rfl, -⟩ := hmore.eq_of_ends hafter hend hend
  exact ⟨(List.append_cancel_right heq).symm, rfl, rfl⟩

theorem harmless_iff_of_boxes
    (hboxes : Boxes source source.length coverage.start l stop)
    (hzeros : ∀ entry ∈ l, size32 source entry.1 = 0 →
      coverage.start + coverage.sizes.dropLast.sum ≤ entry.1)
    (hafter : Boxes source source.length stop after last)
    (hend : boxAt source source.length last = none) :
    HarmlessJump source limits walk coverage stop ↔
      (ofKind .moov l ≠ [] → ofKind .moov after ≠ []) ∧
        (last < source.length → cutBox source last = some .mdat →
          ofKind .moof after ≠ []) := by
  constructor
  · intro h
    cases h with
    | arrives hinside _ hafter' hend' hmoov hcut =>
        obtain ⟨rfl, rfl, rfl⟩ :=
          eq_of_arrives hboxes hafter hend hinside hafter' hend'
        exact ⟨hmoov, hcut⟩
    | @openEnded before _ start box hbefore hbox hzero _ hstart hstop =>
        exfalso
        have hwhole := boxes_to_end hbefore hbox hzero
        obtain ⟨heq, -⟩ := (hboxes.append hafter).eq_of_ends hwhole hend
          (boxAt_of_le le_rfl)
        have hmem : (start, box) ∈ l ++ after := by simp [heq]
        have hsize : start + box.size = source.length := by
          obtain ⟨middle, hmiddle, hsingle⟩ := Scan.append_iff.mp hwhole
          obtain ⟨rfl, -, hend⟩ := Scan.cons_iff.mp hsingle
          simpa using hend
        rcases List.mem_append.mp hmem with hmem | hmem
        · have := (hboxes.mem_bounds hmem).2.2
          dsimp only at this
          omega
        · have := (hafter.mem_bounds hmem).2.1
          dsimp only at this
          omega
  · rintro ⟨hmoov, hcut⟩
    exact .arrives hboxes hzeros hafter hend hmoov hcut

theorem harmless_iff_of_openEnded {before rest : List (ℕ × BoxHeader)}
    {start : ℕ} {box : BoxHeader}
    (hbefore : Boxes source source.length coverage.start before start)
    (hzero : size32 source start = 0)
    (hbox : boxAt source source.length start =
      some ⟨box.name, source.length - start⟩)
    (hshort : start + box.size < source.length) (hstart : start < stop)
    (hwhere : (rest = [] ∧ start + box.size = stop ∧
        coverage.start + coverage.sizes.dropLast.sum ≤ start) ∨
      (ofKind .moof rest ≠ [] ∧
        start < coverage.start + coverage.sizes.dropLast.sum))
    (hafter : Boxes source source.length stop after last)
    (hend : boxAt source source.length last = none) :
    HarmlessJump source limits walk coverage stop ↔
      ofKind .moof rest = [] ∧ box.kind ≠ .moof ∧ box.kind ≠ .moov ∧
        ofKind .moov before = [] ∧ source.length ≤ last ∧
          ofKind .moov after = [] ∧ ofKind .moof after = [] ∧
            walk.otherBoxes + (ofKind .other after).length ≤
                MAX_OTHER_BOXES ∧
              walk.mediaBoxes + (ofKind .mdat after).length ≤
                limits.maxFragments + 16 := by
  have hwhole := boxes_to_end hbefore hbox hzero
  have hlt := Walk.lt_of_boxAt hbox
  constructor
  · intro h
    cases h with
    | arrives hinside hzeros hafter' hend' hmoov hcut =>
        exfalso
        obtain ⟨more, heq, hmore⟩ := hwhole.follows hinside
          (boxAt_of_le le_rfl)
        have hmem : (start, ⟨box.name, source.length - start⟩) ∈
            before ++ [(start,
              (⟨box.name, source.length - start⟩ : BoxHeader))] := by simp
        rw [heq] at hmem
        rcases List.mem_append.mp hmem with hmem | hmem
        · have hle := (hinside.mem_bounds hmem).2.2
          have hlow := hzeros _ hmem hzero
          dsimp only at hle hlow
          omega
        · have := (hmore.mem_bounds hmem).2.1
          dsimp only at this
          omega
    | @openEnded before' after' start' box' hbefore' hbox' hzero' hlast'
        hstart' hstop' hmoof hmoov hmoovs hafter' hquiet hother hmedia =>
        obtain ⟨heq, -⟩ := hwhole.eq_of_ends
          (boxes_to_end hbefore' hbox' hzero') (boxAt_of_le le_rfl)
          (boxAt_of_le le_rfl)
        obtain ⟨rfl, hentry⟩ := List.append_inj' heq rfl
        simp only [List.cons.injEq, Prod.mk.injEq, and_true] at hentry
        obtain ⟨rfl, rfl⟩ := hentry
        obtain ⟨rfl, rfl⟩ := hafter'.eq_of_ends hafter (boxAt_of_le le_rfl)
          hend
        rcases hwhere with ⟨rfl, -⟩ | ⟨-, hlt⟩
        · exact ⟨rfl, hmoof, hmoov, hmoovs, le_rfl, hquiet.1, hquiet.2,
            hother, hmedia⟩
        · omega
  · rintro ⟨hrest, hmoof, hmoov, hmoovs, hlast, houter, hquiet, hother,
      hmedia⟩
    rcases hwhere with ⟨rfl, hstop, hlow⟩ | ⟨hne, -⟩
    · have hle : last ≤ source.length :=
        hafter.le_bound (boxAt_advances source source.length) (by omega)
      obtain rfl := Nat.le_antisymm hle hlast
      exact .openEnded hbefore hbox hzero hlow hstart (by omega) hmoof hmoov
        hmoovs hafter ⟨houter, hquiet⟩ hother hmedia
    · exact absurd hrest hne

end Jump

theorem found_iff_harmless {walk : Walk} {coverage : Coverage} {stop : ℕ}
    (h : Jump source limits walk coverage stop)
    (hmetadata : fetchWith source limits false = .ok metadata) :
    FoundBySidx source limits metadata ↔
      HarmlessJump source limits walk coverage stop := by
  obtain ⟨hsum, hle, -, l, hl, -⟩ := h.boxes
  obtain ⟨after, last, hafter, hend⟩ :=
    Scan.exists_to_end (boxAt_advances source source.length) stop
  rcases hl.boxes (by omega) with ⟨hboxes, hzeros⟩ |
    ⟨before, start, box, rest, rfl, hbefore, hzero, hbox, hshort, hstart,
      hwhere⟩
  · rw [← hsum] at hboxes
    rw [h.found_iff_of_boxes hmetadata hl hboxes hafter hend,
      Jump.harmless_iff_of_boxes hboxes hzeros hafter hend]
  · rw [← hsum] at hstart hwhere
    rw [h.found_iff_of_openEnded hmetadata hl hbefore hbox hshort hstart
        hafter hend,
      Jump.harmless_iff_of_openEnded hbefore hzero hbox hshort hstart hwhere
        hafter hend]

/-- Whatever the file and its `sidx`, a file the walk box by box reads is read
the same with the `sidx` exactly when the jump, if there is one, is
harmless. -/
theorem sidx_found_iff_harmless
    (hmetadata : fetchWith source limits false = .ok metadata) :
    FoundBySidx source limits metadata ↔
      ∀ walk coverage stop, Jump source limits walk coverage stop →
        HarmlessJump source limits walk coverage stop := by
  constructor
  · exact fun hfound walk coverage stop h =>
      (found_iff_harmless h hmetadata).mp hfound
  · intro hharmless
    rcases @Walk.run_or_jump source limits {} 0 with
      hsame | ⟨walk, start, hsteps, -, ⟨found, stop⟩, hregion⟩
    · obtain ⟨sequential, hrun, -⟩ := fetchWith_eq_ok_iff.mp hmetadata
      have hmap : (Walk.run source limits true {} 0).map Walk.erase =
          .ok sequential := hsame.trans hrun
      cases htrue : Walk.run source limits true {} 0 with
      | error error =>
          rw [htrue] at hmap
          simp [Except.map] at hmap
      | ok final =>
          rw [htrue] at hmap
          obtain rfl : final.erase = sequential := by
            simpa [Except.map] using hmap
          exact foundBySidx_of_run hmetadata hrun htrue rfl rfl rfl rfl
    · obtain ⟨coverage, hpending, rfl, -⟩ :=
        Walk.region_eq_some_iff.mp hregion
      have hjump : Jump source limits walk coverage stop :=
        ⟨hsteps, hpending, found, hregion⟩
      exact (found_iff_harmless hjump hmetadata).mpr
        (hharmless walk coverage stop hjump)

/-- A `sidx` of four references, the first to a `moov` and the first of four
`moof` boxes, each of them only a header. -/
def moovInRegion : List UInt8 :=
  encode 4 80 ++ code 's' 'i' 'd' 'x' ++ List.replicate 22 0 ++ encode 2 4 ++
    ([16, 8, 8, 8].flatMap fun size => encode 4 size ++ List.replicate 8 0) ++
    encode 4 8 ++ code 'm' 'o' 'o' 'v' ++
    (List.replicate 4 (encode 4 8 ++ code 'm' 'o' 'o' 'f')).flatten

/-- What the walk box by box finds there. -/
def moovInRegionMetadata : Metadata where
  len := 120
  moov := ⟨80, 8⟩
  moovBytes := encode 4 8 ++ code 'm' 'o' 'o' 'v'
  fragments := [88, 96, 104, 112].map fun offset =>
    ⟨offset, encode 4 8 ++ code 'm' 'o' 'o' 'f'⟩
  discovery := .sequential
  dropped := none

theorem fetchWith_moovInRegion :
    fetchWith moovInRegion {} false = .ok moovInRegionMetadata ∧
      fetchWith moovInRegion {} true =
        .error (invalidMedia "missing moov box") := by
  decide +kernel

theorem sidx_loses_moov :
    fetchWith moovInRegion {} false = .ok moovInRegionMetadata ∧
      ¬ FoundBySidx moovInRegion {} moovInRegionMetadata := by
  refine ⟨fetchWith_moovInRegion.1, ?_⟩
  rintro ⟨found, hfound, -⟩
  rw [fetchWith_moovInRegion.2] at hfound
  simp at hfound

theorem sidx_found_iff_harmless_moovInRegion :
    ¬ ∀ walk coverage stop, Jump moovInRegion {} walk coverage stop →
      HarmlessJump moovInRegion {} walk coverage stop := by
  intro hharmless
  obtain ⟨found, hfound, -⟩ :=
    (sidx_found_iff_harmless fetchWith_moovInRegion.1).mpr hharmless
  rw [fetchWith_moovInRegion.2] at hfound
  simp at hfound

/-! ## Fragments are not lost -/

theorem Walk.drop_fragments {walk : Walk} {offset : ℕ} {cut : Cut} :
    (walk.drop offset cut).1.fragments = walk.fragments ∨
      (walk.drop offset cut).1.fragments = walk.fragments.dropLast := by
  unfold drop
  split
  · split
    · exact .inr rfl
    · exact .inl rfl
  · exact .inl rfl

namespace Jump

variable {walk final : Walk} {coverage : Coverage} {stop last : ℕ}
  {l after : List (ℕ × BoxHeader)}

theorem length_region_le (h : Jump source limits walk coverage stop)
    (hl : Subsegments source coverage.start coverage.sizes l)
    (hfinish : Walk.finish source limits
      ((walk.jumped (fragmentsOf source l)).keepAll source after) last =
        .ok final) :
    walk.fragments.length + (fragmentsOf source l).length ≤
      final.fragments.length := by
  have hall : ((walk.jumped (fragmentsOf source l)).keepAll source
      after).fragments = walk.fragments ++ fragmentsOf source l ++
        fragmentsOf source after :=
    Walk.keepAll_fragments
  rcases Walk.finish_eq_ok_iff.mp hfinish with ⟨-, rfl⟩ |
    ⟨-, -, -, cut, -, -, rfl⟩
  · rw [hall, List.length_append, List.length_append]
    omega
  · by_cases hnil : ofKind .moof after = []
    · rw [h.drop_jumped hl (hl.ne_nil h.sizes_ne_nil) hnil]
      dsimp only
      rw [hall, List.length_append, List.length_append]
      omega
    · have hpos : 0 < (fragmentsOf source after).length := by
        rw [List.length_pos_iff]
        simpa using hnil
      have hdrop := @Walk.drop_fragments
        ((walk.jumped (fragmentsOf source l)).keepAll source after) last cut
      rcases hdrop with heq | heq <;> dsimp only <;> rw [heq]
      · rw [hall, List.length_append, List.length_append]
        omega
      · rw [List.length_dropLast, hall, List.length_append,
          List.length_append]
        omega

theorem length_fragments_le (h : Jump source limits walk coverage stop)
    (hsequential : Walk.run source limits false {} 0 = .ok sequential)
    (hrun : Walk.run source limits true {} 0 = .ok final)
    (hdropped : ∀ dropped, sequential.dropped = some dropped →
      dropped.fragments = 0) :
    sequential.fragments.length ≤ final.fragments.length := by
  obtain ⟨hsum, hle, -, l, hl, -⟩ := h.boxes
  obtain ⟨after, last, hafter, hend⟩ :=
    Scan.exists_to_end (boxAt_advances source source.length) stop
  obtain ⟨-, -, hfinish⟩ := (h.run_true_eq_ok_iff hl hafter hend).mp hrun
  rcases hl.boxes (by omega) with ⟨hboxes, -⟩ |
    ⟨before, start, box, rest, rfl, hbefore, hzero, hbox, -, -, -⟩
  · rw [← hsum] at hboxes
    obtain ⟨-, -, hfinish'⟩ :=
      (h.run_false_eq_ok_iff (hboxes.append hafter) hend).mp hsequential
    have hsame := @keepAll_jumped_fragments source walk l after
    rcases Walk.finish_eq_ok_iff.mp hfinish' with ⟨hlast, rfl⟩ |
      ⟨hlt, hne, -, cut, hcut, -, rfl⟩
    · rcases Walk.finish_eq_ok_iff.mp hfinish with ⟨-, rfl⟩ | ⟨hlt, -⟩
      · rw [hsame]
      · omega
    · rcases Walk.finish_eq_ok_iff.mp hfinish with ⟨hlast, -⟩ |
        ⟨-, -, -, cut', hcut', -, rfl⟩
      · omega
      · obtain rfl := Option.some.inj (hcut.symm.trans hcut')
        by_cases hmdat : cut = .mdat
        · subst hmdat
          have hone := hdropped _ rfl
          rw [Walk.drop_of_current h.current.keepAll
            (List.getLast?_eq_some_getLast hne)] at hone
          simp at hone
        · rw [Walk.drop_of_ne_mdat hmdat, Walk.drop_of_ne_mdat hmdat]
          dsimp only
          rw [hsame]
  · have hwhole := boxes_to_end hbefore hbox hzero
    obtain ⟨-, -, hfinish'⟩ :=
      (h.run_false_eq_ok_iff hwhole (boxAt_of_le le_rfl)).mp hsequential
    rw [Walk.finish_eq_ok_iff] at hfinish'
    obtain ⟨-, rfl⟩ := hfinish'.resolve_right fun hcut => hcut.1.false
    refine le_trans ?_ (h.length_region_le hl hfinish)
    have hkind : (⟨box.name, source.length - start⟩ : BoxHeader).kind =
        box.kind := rfl
    rw [Walk.keepAll_fragments, List.length_append]
    simp only [fragmentsOf, List.length_map, ofKind_append, ofKind_cons,
      ofKind_nil, List.length_append, hkind]
    split
    · simp only [List.length_cons, List.length_nil]
      omega
    · simp only [List.length_nil]
      omega

end Jump

/-- The walk with its `sidx` keeps as many fragments, unless a cut drops one
without it. -/
theorem length_fragments_le {found : Metadata}
    (hmetadata : fetchWith source limits false = .ok metadata)
    (hfound : fetchWith source limits true = .ok found)
    (hdropped : ∀ dropped, metadata.dropped = some dropped →
      dropped.fragments = 0) :
    metadata.fragments.length ≤ found.fragments.length := by
  obtain ⟨sequential, hsequential, -, -, -, hfragments, -, hdropped'⟩ :=
    fetchWith_eq_ok_iff.mp hmetadata
  obtain ⟨final, hrun, -, -, -, hfragments', -⟩ :=
    fetchWith_eq_ok_iff.mp hfound
  rw [hfragments, hfragments']
  rw [hdropped'] at hdropped
  rcases @Walk.run_or_jump source limits {} 0 with
    hsame | ⟨walk, start, hsteps, -, ⟨inner, stop⟩, hregion⟩
  · have hmap := hsame.trans hsequential
    rw [hrun] at hmap
    obtain rfl := Except.ok.inj hmap
    exact le_rfl
  · obtain ⟨coverage, hpending, rfl, -⟩ := Walk.region_eq_some_iff.mp hregion
    have hjump : Jump source limits walk coverage stop :=
      ⟨hsteps, hpending, inner, hregion⟩
    exact hjump.length_fragments_le hsequential hrun hdropped

end Segmentor
