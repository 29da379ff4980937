import Segmentor.SidxHint

/-!
# Files that are cut off

A fragmented file is some leading boxes, one of them a `moov`, and pairs of a
`moof` and its `mdat`.  With `tolerate_truncated_tail` a file cut off after
its first pair should give the pairs before the cut and nothing else.  It does
unless the cut leaves a whole `moof` and too little of its `mdat` to see that
the `mdat` was cut.
-/

namespace Segmentor

open General

variable {source : List UInt8} {limits : LimitsConfig}

/-! ## Reading a cut file -/

section

variable {n offset length stop : ℕ} {box : BoxHeader}

theorem readRange_take (h : offset + length ≤ n) :
    readRange (source.take n) ⟨offset, length⟩ =
      readRange source ⟨offset, length⟩ := by
  unfold readRange
  dsimp only
  rw [List.drop_take, List.take_take, Nat.min_eq_left (by omega)]

theorem size32_take (h : offset + 8 ≤ n) :
    size32 (source.take n) offset = size32 source offset := by
  unfold size32
  rw [readRange_take h]

theorem boxName_take (h : offset + 8 ≤ n) :
    boxName (source.take n) offset = boxName source offset := by
  unfold boxName
  rw [readRange_take h]

theorem extendedSize_take (h : offset + 16 ≤ n) :
    extendedSize (source.take n) offset = extendedSize source offset := by
  unfold extendedSize
  rw [readRange_take (by omega)]

/-- A box that is wholly before the cut is still there. -/
theorem boxAt_take (hn : n ≤ source.length)
    (hbox : boxAt source source.length offset = some box)
    (hwhole : offset + box.size ≤ n) :
    boxAt (source.take n) n offset = some box := by
  simp only [boxAt_eq_some_iff, header_eq_ok_iff] at hbox ⊢
  obtain ⟨hdeclares, hsize, hle, hname⟩ := hbox
  unfold Declares at hdeclares ⊢
  rw [size32_take (by omega), boxName_take (by omega)]
  refine ⟨?_, hsize, hwhole, hname⟩
  rcases hdeclares with ⟨hone, hmin, hext⟩ | hzero | hword
  · rw [extendedSize_take (by omega)]
    exact .inl ⟨hone, hmin, hext⟩
  · exact .inr (.inl ⟨hzero.1, by omega⟩)
  · exact .inr (.inr hword)

theorem boxes_take {start : ℕ} {l : List (ℕ × BoxHeader)}
    (hn : n ≤ source.length)
    (hl : Boxes source source.length start l stop) (hstop : stop ≤ n) :
    Boxes (source.take n) (source.take n).length start l stop := by
  rw [List.length_take_of_le hn]
  exact hl.congr fun entry hentry hitem =>
    boxAt_take hn hitem ((hl.mem_bounds hentry).2.2.trans hstop)

/-- How much of a box is its size and name. -/
def headerLength (source : List UInt8) (offset : ℕ) : ℕ :=
  if size32 source offset = 1 then 16 else 8

theorem headerLength_le
    (hbox : boxAt source source.length offset = some box) :
    headerLength source offset ≤ box.size := by
  obtain ⟨hdeclares, hsize, -⟩ :=
    header_eq_ok_iff.mp (boxAt_eq_some_iff.mp hbox)
  unfold Declares at hdeclares
  unfold headerLength
  split <;> omega

/-- A box that is cut is no box any more. -/
theorem boxAt_cut (hn : n ≤ source.length)
    (hbox : boxAt source source.length offset = some box)
    (hcut : n < offset + box.size)
    (hknown : size32 source offset ≠ 0 ∨ n < offset + 8) :
    boxAt (source.take n) n offset = none := by
  cases hcutBox : boxAt (source.take n) n offset with
  | none => rfl
  | some cutBox =>
      simp only [boxAt_eq_some_iff, header_eq_ok_iff] at hbox hcutBox
      obtain ⟨hdeclares, -, -, -⟩ := hbox
      obtain ⟨hdeclares', hsize, hle, -⟩ := hcutBox
      unfold Declares at hdeclares hdeclares'
      rw [size32_take (by omega)] at hdeclares'
      rcases hdeclares' with ⟨hone, hmin, hext⟩ | hzero | hword
      · rw [extendedSize_take (by omega)] at hext
        omega
      · omega
      · omega

theorem cut_of_kind (box : BoxHeader) :
    (if box.name = code 'm' 'o' 'o' 'f' then some Cut.moof
      else if box.name = code 'm' 'd' 'a' 't' then some Cut.mdat
      else none) =
      match box.kind with
      | .moof => some .moof
      | .mdat => some .mdat
      | _ => none := by
  unfold BoxHeader.kind
  by_cases hmoov : box.name = code 'm' 'o' 'o' 'v'
  · rw [hmoov]
    decide
  · rw [if_neg hmoov]
    split_ifs <;> rfl

/-- What the walk makes of a box that is cut. -/
theorem cutBox_take (hn : n ≤ source.length)
    (hbox : boxAt source source.length offset = some box)
    (hcut : n < offset + box.size)
    (hknown : size32 source offset ≠ 0 ∨ n < offset + 8) :
    cutBox (source.take n) offset =
      if n < offset + headerLength source offset then some .header
      else match box.kind with
        | .moof => some .moof
        | .mdat => some .mdat
        | _ => none := by
  obtain ⟨hdeclares, -, -, hname⟩ :=
    header_eq_ok_iff.mp (boxAt_eq_some_iff.mp hbox)
  unfold Declares at hdeclares
  rw [← cut_of_kind, hname]
  unfold cutBox headerLength
  rw [List.length_take_of_le hn]
  by_cases hshort : n - offset < 8
  · simp only [hshort, if_true]
    split <;> rw [if_pos (by omega)]
  · have hzero : size32 source offset ≠ 0 := hknown.resolve_right (by omega)
    simp only [size32_take (show offset + 8 ≤ n by omega),
      boxName_take (show offset + 8 ≤ n by omega), hshort, hzero, if_false]
    by_cases hone : size32 source offset = 1
    · simp only [hone, true_and, ne_eq, not_true, false_and, if_true, if_false]
      by_cases hmiddle : n - offset < 16
      · rw [if_pos hmiddle, if_pos (by omega)]
      · rw [if_neg hmiddle, extendedSize_take (by omega),
          if_neg (show ¬ extendedSize source offset ≤ n - offset by omega),
          if_neg (show ¬ n < offset + 16 by omega)]
    · simp only [hone, false_and, ne_eq, not_false_eq_true, true_and, if_false]
      rw [if_neg (show ¬ size32 source offset < 8 by omega),
        if_neg (show ¬ size32 source offset ≤ n - offset by omega),
        if_neg (show ¬ n < offset + 8 by omega)]

/-- A cut box that stands for the rest of the file still does. -/
theorem boxAt_rest
    (hbox : boxAt source source.length offset = some box)
    (hzero : size32 source offset = 0) (hroom : offset + 8 ≤ n) :
    boxAt (source.take n) n offset = some ⟨box.name, n - offset⟩ := by
  simp only [boxAt_eq_some_iff, header_eq_ok_iff] at hbox ⊢
  unfold Declares
  rw [size32_take hroom, boxName_take hroom]
  exact ⟨.inr (.inl ⟨hzero, rfl⟩), by omega, by omega, hbox.2.2.2⟩

theorem fragmentsOf_take {l : List (ℕ × BoxHeader)}
    (hl : ∀ entry ∈ l, entry.1 + entry.2.size ≤ n) :
    fragmentsOf (source.take n) l = fragmentsOf source l := by
  unfold fragmentsOf
  refine List.map_congr_left fun entry hentry => ?_
  unfold fragmentAt
  rw [readRange_take (hl entry (mem_ofKind.mp hentry).1)]

end

/-! ## A fragmented file -/

/-- A `moof` and its `mdat`, with where they are. -/
structure Pair where
  moof : ℕ × BoxHeader
  mdat : ℕ × BoxHeader

namespace Pair

def boxes (pair : Pair) : List (ℕ × BoxHeader) :=
  [pair.moof, pair.mdat]

def start (pair : Pair) : ℕ :=
  pair.moof.1

def stop (pair : Pair) : ℕ :=
  pair.mdat.1 + pair.mdat.2.size

def fragment (source : List UInt8) (pair : Pair) : Fragment :=
  fragmentAt source pair.moof.1 pair.moof.2.size

/-- From where on a cut shows that the `mdat` is cut: past its size and name,
and never if its size is zero. -/
def seenFrom (source : List UInt8) (pair : Pair) : ℕ :=
  if size32 source pair.mdat.1 = 0 then pair.stop
  else pair.mdat.1 + headerLength source pair.mdat.1

end Pair

/-- Whole boxes, a `moov` among them and no `moof`, and then whole pairs up to
the end of the file. -/
structure FragmentedFile (source : List UInt8)
    (leading : List (ℕ × BoxHeader)) (pairs : List Pair) : Prop where
  boxes : Boxes source source.length 0 (leading ++ pairs.flatMap Pair.boxes)
    source.length
  moov : ofKind .moov leading ≠ []
  moof : ofKind .moof leading = []
  kinds : ∀ pair ∈ pairs,
    pair.moof.2.kind = .moof ∧ pair.mdat.2.kind = .mdat

/-- The pairs wholly before the cut. -/
def kept (pairs : List Pair) (n : ℕ) : List Pair :=
  pairs.filter fun pair => pair.stop ≤ n

/-- What the cut leaves of a pair: the bytes after the last one kept, and
whether the `moof` is whole. -/
def partialPair (pairs : List Pair) (n : ℕ) : Option DroppedTail :=
  (pairs.find? fun pair => pair.start < n ∧ n < pair.stop).map fun pair =>
    { bytes := n - pair.start
      fragments := if pair.mdat.1 ≤ n then 1 else 0 }

/-- What the walk should find in the first `n` bytes of a file. -/
structure TailDropped (source : List UInt8) (leading : List (ℕ × BoxHeader))
    (pairs : List Pair) (n : ℕ) (metadata : Metadata) : Prop where
  fragments : metadata.fragments =
    (kept pairs n).map (Pair.fragment source)
  dropped : metadata.dropped = partialPair pairs n
  moov : ∃ entry, (ofKind .moov leading).getLast? = some entry ∧
    metadata.moov = ⟨entry.1, entry.2.size⟩ ∧
      metadata.moovBytes = readRange source ⟨entry.1, entry.2.size⟩

section

variable {pairs : List Pair} {n start : ℕ}

theorem Pair.le_stop_of_scan
    (h : Boxes source source.length start (pairs.flatMap Pair.boxes)
      source.length) {pair : Pair} (hpair : pair ∈ pairs) :
    start ≤ pair.start ∧ pair.start < pair.mdat.1 ∧
      pair.seenFrom source ≤ pair.stop ∧
        boxAt source source.length pair.mdat.1 = some pair.mdat.2 := by
  induction pairs generalizing start with
  | nil => simp at hpair
  | cons head pairs ih =>
      obtain ⟨hmoof, hmoofItem, hrest⟩ := Scan.cons_iff.mp h
      obtain ⟨hmdat, hmdatItem, hpairs⟩ := Scan.cons_iff.mp hrest
      have hpos := (boxAt_advances source source.length).pos hmoofItem
      rcases List.mem_cons.mp hpair with rfl | hmem
      · rw [← hmdat] at hmdatItem
        have hlength := headerLength_le hmdatItem
        refine ⟨hmoof.ge, ?_, ?_, hmdatItem⟩
        · unfold Pair.start
          omega
        · unfold Pair.seenFrom Pair.stop
          split <;> omega
      · obtain ⟨hle, hrest⟩ := ih hpairs hmem
        exact ⟨by omega, hrest⟩

/-- Either the file is not cut, or it is cut in or before the first pair not
kept. -/
theorem split_pairs
    (h : Boxes source source.length start (pairs.flatMap Pair.boxes)
      source.length) (hstart : start ≤ n) (hn : n ≤ source.length) :
    (n = source.length ∧ kept pairs n = pairs ∧ partialPair pairs n = none ∧
        ∀ pair ∈ pairs, pair.seenFrom source ≤ n) ∨
      ∃ before pair after, pairs = before ++ pair :: after ∧
        kept pairs n = before ∧ pair.start ≤ n ∧ n < pair.stop ∧
          (partialPair pairs n =
            if pair.start < n then
              some ⟨n - pair.start, if pair.mdat.1 ≤ n then 1 else 0⟩
            else none) ∧
          ((∀ pair ∈ pairs, n < pair.mdat.1 ∨ pair.seenFrom source ≤ n) ↔
            n < pair.mdat.1 ∨ pair.seenFrom source ≤ n) := by
  induction pairs generalizing start with
  | nil =>
      obtain rfl := Scan.nil_iff.mp h
      exact .inl ⟨Nat.le_antisymm hn hstart, rfl, rfl, by simp⟩
  | cons head pairs ih =>
      have hhead := Pair.le_stop_of_scan h List.mem_cons_self
      obtain ⟨hmoof, hmoofItem, hrest⟩ := Scan.cons_iff.mp h
      obtain ⟨hmdat, hmdatItem, hpairs⟩ := Scan.cons_iff.mp hrest
      rw [← hmdat] at hpairs
      change Boxes source source.length head.stop _ _ at hpairs
      by_cases hstop : head.stop ≤ n
      · have hkept : kept (head :: pairs) n = head :: kept pairs n := by
          unfold kept
          rw [List.filter_cons_of_pos (by simpa using hstop)]
        have hpartial : partialPair (head :: pairs) n = partialPair pairs n := by
          unfold partialPair
          rw [List.find?_cons_of_neg (by simp; omega)]
        rw [hkept, hpartial]
        rcases ih hpairs hstop with ⟨hend, hkept', hpartial', hseen⟩ |
          ⟨before, pair, after, hpairs', hkept', hle, hlt, hpartial', hseen⟩
        · refine .inl ⟨hend, by rw [hkept'], hpartial', ?_⟩
          rw [List.forall_mem_cons]
          exact ⟨hhead.2.2.1.trans hstop, hseen⟩
        · refine .inr ⟨head :: before, pair, after, by rw [hpairs']; rfl,
            by rw [hkept'], hle, hlt, hpartial', ?_⟩
          rw [List.forall_mem_cons, ← hseen]
          exact and_iff_right (.inr (hhead.2.2.1.trans hstop))
      · have hlater : ∀ pair ∈ pairs, n < pair.start ∧ n < pair.mdat.1 ∧
            n < pair.stop := by
          intro pair hpair
          obtain ⟨hle, hlt, hseen, hitem⟩ := Pair.le_stop_of_scan hpairs hpair
          have := (boxAt_advances source source.length).pos hitem
          unfold Pair.stop
          unfold Pair.stop at hstop hle
          omega
        refine .inr ⟨[], head, pairs, rfl, ?_, hmoof.trans_le hstart, by omega, ?_, ?_⟩
        · unfold kept
          rw [List.filter_eq_nil_iff]
          intro pair hpair
          rcases List.mem_cons.mp hpair with rfl | hmem
          · simpa using hstop
          · simpa using (hlater pair hmem).2.2
        · unfold partialPair
          by_cases hlt : head.start < n
          · rw [if_pos hlt, List.find?_cons_of_pos (by simp; omega)]
            rfl
          · rw [if_neg hlt, List.find?_cons_of_neg (by simp; omega),
              List.find?_eq_none.mpr]
            · rfl
            · intro pair hpair
              have := (hlater pair hpair).1
              simp only [decide_eq_true_eq, not_and]
              omega
        · rw [List.forall_mem_cons]
          exact and_iff_left fun pair hpair => .inl (hlater pair hpair).2.1

theorem ofKind_boxes (hkinds : ∀ pair ∈ pairs,
      pair.moof.2.kind = .moof ∧ pair.mdat.2.kind = .mdat) :
    ofKind .moof (pairs.flatMap Pair.boxes) = pairs.map Pair.moof ∧
      ofKind .mdat (pairs.flatMap Pair.boxes) = pairs.map Pair.mdat ∧
      ofKind .moov (pairs.flatMap Pair.boxes) = [] ∧
      ofKind .other (pairs.flatMap Pair.boxes) = [] := by
  induction pairs with
  | nil => simp
  | cons pair pairs ih =>
      obtain ⟨hmoof, hmdat⟩ := hkinds pair List.mem_cons_self
      obtain ⟨ihmoof, ihmdat, ihmoov, ihother⟩ :=
        ih fun other hother => hkinds other (List.mem_cons_of_mem _ hother)
      simp [Pair.boxes, ofKind_cons, hmoof, hmdat, ihmoof, ihmdat, ihmoov,
        ihother]

theorem fragmentsOf_boxes (hkinds : ∀ pair ∈ pairs,
      pair.moof.2.kind = .moof ∧ pair.mdat.2.kind = .mdat) :
    fragmentsOf source (pairs.flatMap Pair.boxes) =
      pairs.map (Pair.fragment source) := by
  unfold fragmentsOf
  rw [(ofKind_boxes hkinds).1, List.map_map]
  rfl

end

/-- Fewer boxes are within the limits if more of them are. -/
theorem Walk.Within.of_fewer {other : List UInt8}
    {l more : List (ℕ × BoxHeader)}
    (h : Walk.Within limits (Walk.keepAll source {} more))
    (hmoof : ofKind .moof l <+: ofKind .moof more)
    (hother : (ofKind .other l).length ≤ (ofKind .other more).length)
    (hmdat : (ofKind .mdat l).length ≤ (ofKind .mdat more).length) :
    Walk.Within limits (Walk.keepAll other {} l) ∧
      (Walk.keepAll other {} l).metadataBytes ≤
        (Walk.keepAll source {} more).metadataBytes := by
  obtain ⟨rest, hrest⟩ := hmoof
  have hword : (Walk.keepAll other {} l).metadataBytes < 2 ^ 64 :=
    Walk.keepAll_word (by decide)
  have hbytes : (Walk.keepAll other {} l).metadataBytes ≤
      (Walk.keepAll source {} more).metadataBytes := by
    rw [Walk.keepAll_metadataBytes] at hword ⊢
    rw [Walk.keepAll_metadataBytes, ← hrest, List.map_append,
      List.foldl_append]
    exact le_foldl_saturatingAdd _ hword
  obtain ⟨hfragments, hmax, hother', hmedia, -⟩ := h
  refine ⟨⟨?_, hbytes.trans hmax, ?_, ?_, hword⟩, hbytes⟩
  · refine le_trans ?_ hfragments
    simp only [Walk.keepAll_fragments, List.nil_append, fragmentsOf,
      List.length_map, ← hrest, List.length_append]
    omega
  · refine le_trans ?_ hother'
    simpa only [Walk.keepAll_otherBoxes, Nat.add_le_add_iff_left] using hother
  · refine le_trans ?_ hmedia
    simpa only [Walk.keepAll_mediaBoxes, Nat.add_le_add_iff_left] using hmdat

/-! ## The walk over a cut file -/

namespace Walk

variable {walk : Walk} {offset : ℕ}

/-- A cut that is not seen to be in an `mdat` drops what is there. -/
theorem finish_alone {cut : Cut} (hlt : offset < source.length)
    (htolerate : limits.tolerateTruncatedTail = true)
    (hne : walk.fragments ≠ []) (hcut : cutBox source offset = some cut)
    (halone : cut ≠ .mdat) :
    finish source limits walk offset =
      .ok { walk with dropped := some ⟨source.length - offset, 0⟩ } := by
  refine finish_eq_ok_iff.mpr (.inr ⟨hlt, hne, htolerate, cut, hcut, ?_, ?_⟩)
  · rwa [drop_of_ne_mdat halone]
  · rw [drop_of_ne_mdat halone]

/-- A cut `mdat` drops the last fragment. -/
theorem finish_mdat {fragments : List Fragment} {fragment : Fragment}
    (hlt : offset < source.length)
    (htolerate : limits.tolerateTruncatedTail = true)
    (hwalk : walk.fragments = fragments ++ [fragment])
    (hne : fragments ≠ []) (hcurrent : walk.Current)
    (hcut : cutBox source offset = some .mdat) :
    finish source limits walk offset =
      .ok { walk with
        fragments := fragments
        lastMoof := none
        dropped := some ⟨source.length - fragment.offset, 1⟩ } := by
  have hlast : walk.fragments.getLast? = some fragment := by
    rw [hwalk, List.getLast?_concat]
  have hdropLast : walk.fragments.dropLast = fragments := by
    rw [hwalk, List.dropLast_concat]
  refine finish_eq_ok_iff.mpr (.inr ⟨hlt, ?_, htolerate, .mdat, hcut, ?_, ?_⟩)
  · simp [hwalk]
  · rwa [drop_of_current hcurrent hlast, hdropLast]
  · rw [drop_of_current hcurrent hlast, hdropLast]

end Walk

namespace FragmentedFile

variable {leading : List (ℕ × BoxHeader)} {pairs : List Pair} {n last : ℕ}
  {whole : Metadata}

/-- A walk over the leading boxes and then some of the pairs' stays within the
limits the whole file is within. -/
theorem fetch_cut (h : FragmentedFile source leading pairs)
    (hwhole : fetchWith source limits false = .ok whole)
    {rest : List (ℕ × BoxHeader)} {walk : Walk}
    (hinside : ∀ entry ∈ leading, entry.1 + entry.2.size ≤ n)
    (hboxes : Boxes (source.take n) (source.take n).length 0
      (leading ++ rest) last)
    (hend : boxAt (source.take n) (source.take n).length last = none)
    (hmoov : ofKind .moov rest = []) (hother : ofKind .other rest = [])
    (hmoof : ofKind .moof rest <+: pairs.map Pair.moof)
    (hmdat : (ofKind .mdat rest).length ≤ pairs.length)
    (hfinish : Walk.finish (source.take n) limits
      (Walk.keepAll (source.take n) {} (leading ++ rest)) last = .ok walk) :
    ∃ metadata, fetchWith (source.take n) limits false = .ok metadata ∧
      metadata.fragments = walk.fragments ∧
      metadata.dropped = walk.dropped ∧
      ∃ entry, (ofKind .moov leading).getLast? = some entry ∧
        metadata.moov = ⟨entry.1, entry.2.size⟩ ∧
          metadata.moovBytes = readRange source ⟨entry.1, entry.2.size⟩ := by
  obtain ⟨hmoofs, hmdats, hmoovs, hothers⟩ := ofKind_boxes h.kinds
  obtain ⟨final, hrun, hfound, hle, -⟩ := fetchWith_eq_ok_iff.mp hwhole
  have hsteady : Walk.Steady false {} := ⟨rfl, .inl rfl⟩
  obtain ⟨hwithin, hfit, hfinal⟩ := (Walk.run_steady_eq_ok_iff hsteady
    (Walk.within_initial limits) h.boxes (boxAt_of_le le_rfl)).mp hrun
  obtain ⟨hfinalMoov, hfinalBytes⟩ := Walk.finish_rest hfinal
  have hfewer : Walk.Within limits
        (Walk.keepAll (source.take n) {} (leading ++ rest)) ∧
      (Walk.keepAll (source.take n) {} (leading ++ rest)).metadataBytes ≤
        (Walk.keepAll source {} (leading ++
          pairs.flatMap Pair.boxes)).metadataBytes := by
    apply hwithin.of_fewer
    · rw [ofKind_append, ofKind_append, hmoofs]
      exact (List.prefix_append_right_inj _).mpr hmoof
    · simp [hother, hothers]
    · rw [ofKind_append, ofKind_append, hmdats, List.length_append,
        List.length_append, List.length_map]
      omega
  have hlast := List.getLast?_eq_some_getLast h.moov
  generalize (ofKind .moov leading).getLast h.moov = entry at hlast
  have hentry : entry ∈ leading :=
    (mem_ofKind.mp (List.mem_of_getLast? hlast)).1
  have hmoovOf : ∀ bytes boxes, ofKind .moov boxes = [] →
      (Walk.keepAll bytes {} (leading ++ boxes)).moov =
        some (⟨entry.1, entry.2.size⟩,
          readRange bytes ⟨entry.1, entry.2.size⟩) := by
    intro bytes boxes hnil
    rw [Walk.keepAll_moov, ofKind_append, hnil, List.append_nil, hlast]
    rfl
  rw [hfinalMoov, hmoovOf source _ hmoovs, Option.some.injEq,
    Prod.mk.injEq] at hfound
  rw [hfinalBytes, ← hfound.1] at hle
  have hrun' : Walk.run (source.take n) limits false {} 0 = .ok walk :=
    (Walk.run_steady_eq_ok_iff hsteady (Walk.within_initial limits) hboxes
      hend).mpr ⟨hfewer.1, fun other hmem hkind => by
        rcases List.mem_append.mp hmem with hmem | hmem
        · exact hfit other (List.mem_append_left _ hmem) hkind
        · have hnone := mem_ofKind.mpr ⟨hmem, hkind⟩
          simp [hmoov] at hnone, hfinish⟩
  obtain ⟨hwalkMoov, hwalkBytes⟩ := Walk.finish_rest hfinish
  refine ⟨{ len := (source.take n).length
            moov := ⟨entry.1, entry.2.size⟩
            moovBytes := readRange source ⟨entry.1, entry.2.size⟩
            fragments := walk.fragments
            discovery := walk.discovery
            dropped := walk.dropped },
    fetchWith_eq_ok_iff.mpr ⟨walk, hrun', ?_, ?_, rfl, rfl, rfl, rfl⟩, rfl,
    rfl, entry, hlast, rfl, rfl⟩
  · rw [hwalkMoov, hmoovOf _ _ hmoov, readRange_take (hinside entry hentry)]
  · refine le_trans ?_ hle
    rw [hwalkBytes]
    unfold saturatingAdd
    have := hfewer.2
    dsimp only
    omega

/-- The file up to the pair the cut is in or before. -/
structure CutAt (source : List UInt8) (leading : List (ℕ × BoxHeader))
    (pairs before : List Pair) (pair : Pair) (n : ℕ) : Prop where
  split : ∃ after, pairs = before ++ pair :: after
  boxes : Boxes source source.length 0
    (leading ++ before.flatMap Pair.boxes) pair.start
  moofItem : boxAt source source.length pair.start = some pair.moof.2
  mdatStart : pair.mdat.1 = pair.start + pair.moof.2.size
  mdatItem : boxAt source source.length pair.mdat.1 = some pair.mdat.2
  start_le : pair.start ≤ n
  lt_stop : n < pair.stop
  le_length : n ≤ source.length

theorem cutAt (h : FragmentedFile source leading pairs)
    {before after : List Pair} {pair : Pair}
    (hpairs : pairs = before ++ pair :: after) (hstart : pair.start ≤ n)
    (hstop : n < pair.stop) (hn : n ≤ source.length) :
    CutAt source leading pairs before pair n := by
  have hboxes := h.boxes
  rw [hpairs, List.flatMap_append, ← List.append_assoc] at hboxes
  obtain ⟨middle, hbefore, hrest⟩ := Scan.append_iff.mp hboxes
  obtain ⟨hmoof, hmoofItem, hrest⟩ := Scan.cons_iff.mp hrest
  obtain ⟨hmdat, hmdatItem, -⟩ := Scan.cons_iff.mp hrest
  rw [← hmoof] at hbefore hmoofItem hmdat
  rw [← hmoof] at hmdatItem
  exact ⟨⟨after, hpairs⟩, hbefore, hmoofItem, hmdat, hmdat ▸ hmdatItem,
    hstart, hstop, hn⟩

namespace CutAt

variable {before : List Pair} {pair : Pair}

/-- A `moof` before an `mdat` gives its size. -/
theorem explicit (h : CutAt source leading pairs before pair n) :
    size32 source pair.start ≠ 0 := by
  intro hzero
  have hdeclares := (header_eq_ok_iff.mp
    (boxAt_eq_some_iff.mp h.moofItem)).1
  have hlt := Walk.lt_of_boxAt h.mdatItem
  have hmdat := h.mdatStart
  unfold Declares at hdeclares
  omega

theorem inside (h : CutAt source leading pairs before pair n) :
    ∀ entry ∈ leading ++ before.flatMap Pair.boxes,
      entry.1 + entry.2.size ≤ n :=
  fun _ hentry => (h.boxes.mem_bounds hentry).2.2.trans h.start_le

/-- The boxes up to the pair are still there. -/
theorem boxes_take (h : CutAt source leading pairs before pair n) :
    Boxes (source.take n) (source.take n).length 0
      (leading ++ before.flatMap Pair.boxes) pair.start :=
  Segmentor.boxes_take h.le_length h.boxes h.start_le

/-- The `moof` as well, if the cut is after it. -/
theorem boxes_moof (h : CutAt source leading pairs before pair n)
    (hmoof : pair.mdat.1 ≤ n) :
    Boxes (source.take n) (source.take n).length 0
      (leading ++ (before.flatMap Pair.boxes ++ [pair.moof])) pair.mdat.1 := by
  rw [← List.append_assoc, h.mdatStart]
  refine h.boxes_take.append ?_
  have hitem : boxAt (source.take n) (source.take n).length pair.start =
      some pair.moof.2 := by
    rw [List.length_take_of_le h.le_length]
    exact boxAt_take h.le_length h.moofItem (h.mdatStart.symm.trans_le hmoof)
  exact Scan.single hitem

theorem mem_pairs (h : CutAt source leading pairs before pair n) :
    pair ∈ pairs ∧ ∀ other ∈ before, other ∈ pairs := by
  obtain ⟨after, rfl⟩ := h.split
  exact ⟨by simp, fun other hother => List.mem_append_left _ hother⟩

end CutAt

/-- What the walk has kept after the leading boxes and some of the pairs'. -/
theorem keepAll_leading (h : FragmentedFile source leading pairs)
    {rest : List (ℕ × BoxHeader)}
    (hinside : ∀ entry ∈ rest, entry.1 + entry.2.size ≤ n) :
    (Walk.keepAll (source.take n) {} (leading ++ rest)).fragments =
      fragmentsOf source rest := by
  rw [Walk.keepAll_fragments, fragmentsOf_append,
    fragmentsOf_eq_nil_iff.mpr h.moof, fragmentsOf_take hinside]
  rfl

namespace CutAt

variable {before : List Pair} {pair : Pair}

theorem inside_before (h : CutAt source leading pairs before pair n) :
    ∀ entry ∈ before.flatMap Pair.boxes, entry.1 + entry.2.size ≤ n :=
  fun entry hentry => h.inside entry (List.mem_append_right _ hentry)

theorem inside_moof (h : CutAt source leading pairs before pair n)
    (hmoof : pair.mdat.1 ≤ n) :
    ∀ entry ∈ before.flatMap Pair.boxes ++ [pair.moof],
      entry.1 + entry.2.size ≤ n := by
  intro entry hentry
  rcases List.mem_append.mp hentry with hmem | hmem
  · exact h.inside_before entry hmem
  · obtain rfl := List.mem_singleton.mp hmem
    exact h.mdatStart.symm.trans_le hmoof

theorem kinds_before (hfile : FragmentedFile source leading pairs)
    (h : CutAt source leading pairs before pair n) :
    ∀ other ∈ before, other.moof.2.kind = .moof ∧ other.mdat.2.kind = .mdat :=
  fun other hother => hfile.kinds other (h.mem_pairs.2 other hother)

theorem prefix_moofs (h : CutAt source leading pairs before pair n) :
    before.map Pair.moof ++ [pair.moof] <+: pairs.map Pair.moof := by
  obtain ⟨after, rfl⟩ := h.split
  exact ⟨after.map Pair.moof, by simp⟩

theorem length_lt (h : CutAt source leading pairs before pair n) :
    before.length + 1 ≤ pairs.length := by
  obtain ⟨after, rfl⟩ := h.split
  simp

/-- A cut before or in the `moof` drops what there is of it. -/
theorem fetch_before_mdat (hfile : FragmentedFile source leading pairs)
    (h : CutAt source leading pairs before pair n)
    (hwhole : fetchWith source limits false = .ok whole)
    (htolerate : limits.tolerateTruncatedTail = true)
    (hbefore : before ≠ []) (hmdat : n < pair.mdat.1) :
    ∃ metadata, fetchWith (source.take n) limits false = .ok metadata ∧
      metadata.fragments = before.map (Pair.fragment source) ∧
      metadata.dropped =
        (if pair.start < n then some ⟨n - pair.start, 0⟩ else none) ∧
      ∃ entry, (ofKind .moov leading).getLast? = some entry ∧
        metadata.moov = ⟨entry.1, entry.2.size⟩ ∧
          metadata.moovBytes =
            readRange source ⟨entry.1, entry.2.size⟩ := by
  obtain ⟨hmoofs, hmdats, hmoovs, hothers⟩ :=
    ofKind_boxes (h.kinds_before hfile)
  have hfragments := (hfile.keepAll_leading h.inside_before).trans
    (fragmentsOf_boxes (h.kinds_before hfile))
  have hlength := List.length_take_of_le h.le_length
  have hcut : n < pair.start + pair.moof.2.size :=
    h.mdatStart.symm ▸ hmdat
  have hend : boxAt (source.take n) (source.take n).length pair.start =
      none := by
    rw [hlength]
    exact boxAt_cut h.le_length h.moofItem hcut (.inl h.explicit)
  have hfetch := fun walk => @fetch_cut _ _ _ _ _ _ _ hfile hwhole _ walk
    (fun entry hentry => h.inside entry (List.mem_append_left _ hentry))
    h.boxes_take hend hmoovs hothers
    (by
      rw [hmoofs]
      exact (List.prefix_append _ _).trans h.prefix_moofs)
    (by
      rw [hmdats, List.length_map]
      exact (Nat.le_succ _).trans h.length_lt)
  rcases h.start_le.lt_or_eq with hlt | heq
  · obtain ⟨cut, hbox, halone⟩ : ∃ cut,
        cutBox (source.take n) pair.start = some cut ∧ cut ≠ .mdat := by
      rw [cutBox_take h.le_length h.moofItem hcut (.inl h.explicit),
        (hfile.kinds pair h.mem_pairs.1).1]
      split
      · exact ⟨.header, rfl, by decide⟩
      · exact ⟨.moof, rfl, by decide⟩
    obtain ⟨metadata, hmetadata, hfound, hdropped, hmoov⟩ := hfetch _
      (Walk.finish_alone (by rwa [hlength]) htolerate
        (by
          rw [hfragments]
          simpa using hbefore) hbox halone)
    refine ⟨metadata, hmetadata, hfound.trans hfragments, ?_, hmoov⟩
    rw [hdropped, if_pos hlt, hlength]
  · obtain ⟨metadata, hmetadata, hfound, hdropped, hmoov⟩ := hfetch _
      (Walk.finish_eq_ok_iff.mpr (.inl ⟨by rw [hlength, heq], rfl⟩))
    refine ⟨metadata, hmetadata, hfound.trans hfragments, ?_, hmoov⟩
    rw [hdropped, if_neg (by omega), Walk.keepAll_rest.2.1]

/-- A cut seen to be in the `mdat` drops the pair. -/
theorem fetch_in_mdat (hfile : FragmentedFile source leading pairs)
    (h : CutAt source leading pairs before pair n)
    (hwhole : fetchWith source limits false = .ok whole)
    (htolerate : limits.tolerateTruncatedTail = true)
    (hbefore : before ≠ []) (hmdat : pair.mdat.1 ≤ n)
    (hseen : pair.seenFrom source ≤ n) :
    ∃ metadata, fetchWith (source.take n) limits false = .ok metadata ∧
      metadata.fragments = before.map (Pair.fragment source) ∧
      metadata.dropped = some ⟨n - pair.start, 1⟩ ∧
      ∃ entry, (ofKind .moov leading).getLast? = some entry ∧
        metadata.moov = ⟨entry.1, entry.2.size⟩ ∧
          metadata.moovBytes =
            readRange source ⟨entry.1, entry.2.size⟩ := by
  obtain ⟨hmoofKind, hmdatKind⟩ := hfile.kinds pair h.mem_pairs.1
  obtain ⟨hmoofs, hmdats, hmoovs, hothers⟩ :=
    ofKind_boxes (h.kinds_before hfile)
  have hlength := List.length_take_of_le h.le_length
  have hzero : size32 source pair.mdat.1 ≠ 0 := by
    intro hzero
    unfold Pair.seenFrom at hseen
    rw [if_pos hzero] at hseen
    exact absurd hseen h.lt_stop.not_ge
  unfold Pair.seenFrom at hseen
  rw [if_neg hzero] at hseen
  have hcut : n < pair.mdat.1 + pair.mdat.2.size := h.lt_stop
  have hend : boxAt (source.take n) (source.take n).length pair.mdat.1 =
      none := by
    rw [hlength]
    exact boxAt_cut h.le_length h.mdatItem hcut (.inl hzero)
  have hbox : cutBox (source.take n) pair.mdat.1 = some .mdat := by
    rw [cutBox_take h.le_length h.mdatItem hcut (.inl hzero),
      if_neg (by omega), hmdatKind]
  have hfragments :
      (Walk.keepAll (source.take n) {} (leading ++
        (before.flatMap Pair.boxes ++ [pair.moof]))).fragments =
      before.map (Pair.fragment source) ++ [pair.fragment source] := by
    rw [hfile.keepAll_leading (h.inside_moof hmdat), fragmentsOf_append,
      fragmentsOf_boxes (h.kinds_before hfile), fragmentsOf_cons,
      if_pos hmoofKind]
    rfl
  have hpos : 0 < headerLength source pair.mdat.1 := by
    unfold headerLength
    split <;> decide
  have hfinish := Walk.finish_mdat (by rw [hlength]; omega) htolerate
    hfragments (by simpa using hbefore) (Walk.Current.keepAll rfl) hbox
  obtain ⟨metadata, hmetadata, hfound, hdropped, hmoov⟩ :=
    hfile.fetch_cut hwhole
    (fun entry hentry => h.inside entry (List.mem_append_left _ hentry))
    (h.boxes_moof hmdat) hend
    (by simp [hmoovs, ofKind_cons, hmoofKind])
    (by simp [hothers, ofKind_cons, hmoofKind])
    (by
      rw [ofKind_append, hmoofs, ofKind_cons, if_pos hmoofKind]
      exact h.prefix_moofs)
    (by
      rw [ofKind_append, hmdats, ofKind_cons, if_neg (by simp [hmoofKind])]
      simpa using (Nat.le_succ _).trans h.length_lt) hfinish
  refine ⟨metadata, hmetadata, hfound, ?_, hmoov⟩
  rw [hdropped, hlength]
  rfl

/-- A cut that leaves the `moof` and too little of the `mdat` keeps the
`moof`. -/
theorem fetch_unseen (hfile : FragmentedFile source leading pairs)
    (h : CutAt source leading pairs before pair n)
    (hwhole : fetchWith source limits false = .ok whole)
    (htolerate : limits.tolerateTruncatedTail = true)
    (hmdat : pair.mdat.1 ≤ n) (hunseen : n < pair.seenFrom source) :
    ∃ metadata, fetchWith (source.take n) limits false = .ok metadata ∧
      metadata.fragments.length = before.length + 1 ∧
      ∀ dropped, metadata.dropped = some dropped → dropped.fragments = 0 := by
  obtain ⟨hmoofKind, hmdatKind⟩ := hfile.kinds pair h.mem_pairs.1
  obtain ⟨hmoofs, hmdats, hmoovs, hothers⟩ :=
    ofKind_boxes (h.kinds_before hfile)
  have hlength := List.length_take_of_le h.le_length
  have hinside : ∀ entry ∈ leading, entry.1 + entry.2.size ≤ n :=
    fun entry hentry => h.inside entry (List.mem_append_left _ hentry)
  have hcount : ∀ rest, (∀ entry ∈ before.flatMap Pair.boxes ++ [pair.moof] ++
      rest, entry.1 + entry.2.size ≤ n) → ofKind .moof rest = [] →
      (Walk.keepAll (source.take n) {} (leading ++
        (before.flatMap Pair.boxes ++ [pair.moof] ++
          rest))).fragments.length = before.length + 1 := by
    intro rest hrest hnil
    rw [hfile.keepAll_leading hrest]
    unfold fragmentsOf
    simp [hmoofs, ofKind_cons, hmoofKind, hnil]
  have hcut : n < pair.mdat.1 + pair.mdat.2.size := h.lt_stop
  by_cases hopen : size32 source pair.mdat.1 = 0 ∧ pair.mdat.1 + 8 ≤ n
  · -- What there is of an `mdat` of size zero is a whole box.
    have hkind : (⟨pair.mdat.2.name, n - pair.mdat.1⟩ : BoxHeader).kind =
        .mdat := hmdatKind
    have hitem : boxAt (source.take n) (source.take n).length pair.mdat.1 =
        some ⟨pair.mdat.2.name, n - pair.mdat.1⟩ := by
      rw [hlength]
      exact boxAt_rest h.mdatItem hopen.1 hopen.2
    have hboxes : Boxes (source.take n) (source.take n).length 0
        (leading ++ (before.flatMap Pair.boxes ++ [pair.moof] ++
          [(pair.mdat.1, ⟨pair.mdat.2.name, n - pair.mdat.1⟩)]))
        (source.take n).length := by
      have hsingle := @Scan.single _ _ BoxHeader.size _ _ hitem
      dsimp only at hsingle
      rw [show pair.mdat.1 + (n - pair.mdat.1) = (source.take n).length by
        omega] at hsingle
      rw [← List.append_assoc]
      exact (h.boxes_moof hmdat).append hsingle
    have hcount' := hcount
      [(pair.mdat.1, ⟨pair.mdat.2.name, n - pair.mdat.1⟩)]
      (by
        intro entry hentry
        rcases List.mem_append.mp hentry with hmem | hmem
        · exact h.inside_moof hmdat entry hmem
        · obtain rfl := List.mem_singleton.mp hmem
          dsimp only
          omega)
      (by simp [ofKind_cons, hkind])
    obtain ⟨metadata, hmetadata, hfound, hdropped, -⟩ :=
      hfile.fetch_cut hwhole hinside hboxes (boxAt_of_le le_rfl)
        (by simp [hmoovs, ofKind_cons, hmoofKind, hkind])
        (by simp [hothers, ofKind_cons, hmoofKind, hkind])
        (by
          simp only [ofKind_append, hmoofs, ofKind_cons, hmoofKind, hkind,
            if_true, ofKind_nil, reduceCtorEq, if_false, List.append_nil]
          exact h.prefix_moofs)
        (by
          simp only [ofKind_append, hmdats, ofKind_cons, hmoofKind, hkind,
            if_true, ofKind_nil, reduceCtorEq, if_false, List.append_nil,
            List.length_append, List.length_map, List.length_singleton]
          exact h.length_lt)
        (Walk.finish_eq_ok_iff.mpr (.inl ⟨le_rfl, rfl⟩))
    refine ⟨metadata, hmetadata, hfound ▸ hcount', ?_⟩
    rw [hdropped, Walk.keepAll_rest.2.1]
    simp
  · have hknown : size32 source pair.mdat.1 ≠ 0 ∨ n < pair.mdat.1 + 8 := by
      omega
    have hend : boxAt (source.take n) (source.take n).length pair.mdat.1 =
        none := by
      rw [hlength]
      exact boxAt_cut h.le_length h.mdatItem hcut hknown
    have hcount' := hcount [] (by simpa using h.inside_moof hmdat) rfl
    rw [List.append_nil] at hcount'
    obtain ⟨walk, hfinish, hwalk, hdropped⟩ : ∃ walk,
        Walk.finish (source.take n) limits (Walk.keepAll (source.take n) {}
          (leading ++ (before.flatMap Pair.boxes ++ [pair.moof])))
          pair.mdat.1 = .ok walk ∧
        walk.fragments.length = before.length + 1 ∧
        ∀ dropped, walk.dropped = some dropped → dropped.fragments = 0 := by
      rcases hmdat.lt_or_eq with hlt | heq
      · have hbox : cutBox (source.take n) pair.mdat.1 = some .header := by
          rw [cutBox_take h.le_length h.mdatItem hcut hknown, if_pos]
          unfold Pair.seenFrom at hunseen
          by_cases hzero : size32 source pair.mdat.1 = 0
          · unfold headerLength
            rw [if_neg (by omega)]
            omega
          · rwa [if_neg hzero] at hunseen
        refine ⟨_, Walk.finish_alone (by rwa [hlength]) htolerate ?_ hbox
          (by decide), hcount', ?_⟩
        · intro hnil
          rw [hnil] at hcount'
          simp at hcount'
        · rintro dropped hdropped
          obtain rfl := Option.some.inj hdropped
          rfl
      · refine ⟨_, Walk.finish_eq_ok_iff.mpr (.inl ⟨by rw [hlength, heq], rfl⟩),
          hcount', ?_⟩
        rw [Walk.keepAll_rest.2.1]
        simp
    obtain ⟨metadata, hmetadata, hfound, hfoundDropped, -⟩ :=
      hfile.fetch_cut hwhole hinside (h.boxes_moof hmdat) hend
        (by simp [hmoovs, ofKind_cons, hmoofKind])
        (by simp [hothers, ofKind_cons, hmoofKind])
        (by
          rw [ofKind_append, hmoofs, ofKind_cons, if_pos hmoofKind]
          exact h.prefix_moofs)
        (by
          rw [ofKind_append, hmdats, ofKind_cons,
            if_neg (by simp [hmoofKind])]
          simpa using (Nat.le_succ _).trans h.length_lt) hfinish
    exact ⟨metadata, hmetadata, hfound ▸ hwalk, hfoundDropped ▸ hdropped⟩

end CutAt

/-- What the walk box by box finds in a cut file. -/
theorem fetch_false (h : FragmentedFile source leading pairs)
    (hwhole : fetchWith source limits false = .ok whole)
    (htolerate : limits.tolerateTruncatedTail = true)
    (hkept : kept pairs n ≠ []) (hn : n ≤ source.length) :
    ∃ metadata, fetchWith (source.take n) limits false = .ok metadata ∧
      (((∀ pair ∈ pairs, n < pair.mdat.1 ∨ pair.seenFrom source ≤ n) ∧
          TailDropped source leading pairs n metadata) ∨
        (¬ (∀ pair ∈ pairs, n < pair.mdat.1 ∨ pair.seenFrom source ≤ n) ∧
          metadata.fragments.length = (kept pairs n).length + 1 ∧
          ∀ dropped, metadata.dropped = some dropped →
            dropped.fragments = 0)) := by
  obtain ⟨start, hleading, hpairs⟩ := Scan.append_iff.mp h.boxes
  have hstart : start ≤ n := by
    obtain ⟨pair, hpair⟩ := List.exists_mem_of_ne_nil _ hkept
    obtain ⟨hmem, hstop⟩ := List.mem_filter.mp hpair
    obtain ⟨hle, hlt, -⟩ := Pair.le_stop_of_scan hpairs hmem
    have hstop' : pair.stop ≤ n := by simpa using hstop
    unfold Pair.stop at hstop'
    omega
  rcases split_pairs hpairs hstart hn with ⟨rfl, hall, hpartial, hseen⟩ |
    ⟨before, pair, after, hsplit, hbefore, hle, hlt, hpartial, hseen⟩
  · obtain ⟨hmoofs, hmdats, hmoovs, hothers⟩ := ofKind_boxes h.kinds
    have htake := List.take_length (l := source)
    have hinside : ∀ entry ∈ leading ++ pairs.flatMap Pair.boxes,
        entry.1 + entry.2.size ≤ source.length :=
      fun entry hentry => (h.boxes.mem_bounds hentry).2.2
    obtain ⟨metadata, hmetadata, hfragments, hdropped, hmoov⟩ :=
      h.fetch_cut hwhole
        (fun entry hentry => hinside entry (List.mem_append_left _ hentry))
        (by
          rw [htake]
          exact h.boxes)
        (boxAt_of_le (by rw [htake])) hmoovs hothers
        (by rw [hmoofs]) (by rw [hmdats, List.length_map])
        (Walk.finish_eq_ok_iff.mpr (.inl ⟨by rw [htake], rfl⟩))
    refine ⟨metadata, hmetadata, .inl ⟨fun pair hpair =>
      .inr (hseen pair hpair), ?_, ?_, hmoov⟩⟩
    · rw [hfragments, hall, h.keepAll_leading fun entry hentry =>
        hinside entry (List.mem_append_right _ hentry), fragmentsOf_boxes h.kinds]
    · rw [hdropped, Walk.keepAll_rest.2.1, hpartial]
  · have hcut := h.cutAt hsplit hle hlt hn
    rw [hbefore] at hkept
    rw [hseen, hbefore]
    by_cases hmdat : n < pair.mdat.1
    · obtain ⟨metadata, hmetadata, hfragments, hdropped, hmoov⟩ :=
        hcut.fetch_before_mdat h hwhole htolerate hkept hmdat
      refine ⟨metadata, hmetadata, .inl ⟨.inl hmdat, ?_, ?_, hmoov⟩⟩
      · rw [hfragments, hbefore]
      · rw [hdropped, hpartial, if_neg hmdat.not_ge]
    · by_cases hfrom : pair.seenFrom source ≤ n
      · obtain ⟨metadata, hmetadata, hfragments, hdropped, hmoov⟩ :=
          hcut.fetch_in_mdat h hwhole htolerate hkept (by omega) hfrom
        refine ⟨metadata, hmetadata, .inl ⟨.inr hfrom, ?_, ?_, hmoov⟩⟩
        · rw [hfragments, hbefore]
        · have hpos := (boxAt_advances source source.length).pos hcut.moofItem
          have hmdatStart := hcut.mdatStart
          rw [hdropped, hpartial, if_pos (by omega), if_pos (by omega)]
      · obtain ⟨metadata, hmetadata, hlength, hdropped⟩ :=
          hcut.fetch_unseen h hwhole htolerate (by omega) (by omega)
        exact ⟨metadata, hmetadata, .inr ⟨by omega, hlength, hdropped⟩⟩

end FragmentedFile

/-- With `tolerate_truncated_tail`, the first bytes of a file that is read
whole give the pairs wholly among them, and say what they leave of the next,
exactly when no `moof` is left with too little of its `mdat` to see that it
was cut, and the `sidx`, if one is used, only jumps where that is harmless. -/
theorem tail_dropped_iff {leading : List (ℕ × BoxHeader)} {first : Pair}
    {rest : List Pair} {n : ℕ} {whole : Metadata} {useSidx : Bool}
    (hfile : FragmentedFile source leading (first :: rest))
    (hwhole : fetchWith source limits false = .ok whole)
    (htolerate : limits.tolerateTruncatedTail = true)
    (hfirst : first.stop ≤ n) (hn : n ≤ source.length) :
    (∃ metadata, fetchWith (source.take n) limits useSidx = .ok metadata ∧
        TailDropped source leading (first :: rest) n metadata) ↔
      (∀ pair ∈ first :: rest,
        n < pair.mdat.1 ∨ pair.seenFrom source ≤ n) ∧
      (useSidx = true → ∀ walk coverage stop,
        Jump (source.take n) limits walk coverage stop →
          HarmlessJump (source.take n) limits walk coverage stop) := by
  have hkept : kept (first :: rest) n ≠ [] := by
    unfold kept
    rw [List.filter_cons_of_pos (by simpa using hfirst)]
    simp
  obtain ⟨metadata, hmetadata, hcases⟩ :=
    hfile.fetch_false hwhole htolerate hkept hn
  cases useSidx with
  | false =>
      simp only [hmetadata, Except.ok.injEq, exists_eq_left',
        Bool.false_eq_true, false_implies, and_true]
      rcases hcases with ⟨hseen, hdropped⟩ | ⟨hunseen, hlength, -⟩
      · exact iff_of_true hdropped hseen
      · refine iff_of_false (fun hdropped => ?_) hunseen
        rw [hdropped.fragments, List.length_map] at hlength
        omega
  | true =>
      rw [forall_prop_of_true rfl, ← sidx_found_iff_harmless hmetadata]
      rcases hcases with ⟨hseen, hdropped⟩ | ⟨hunseen, hlength, hnone⟩
      · rw [and_iff_right hseen]
        constructor
        · rintro ⟨found, hfound, hfoundDropped⟩
          refine ⟨found, hfound, ?_⟩
          obtain ⟨entry, hentry, hmoov, hbytes⟩ := hdropped.moov
          obtain ⟨entry', hentry', hmoov', hbytes'⟩ := hfoundDropped.moov
          obtain rfl := Option.some.inj (hentry.symm.trans hentry')
          obtain ⟨-, -, -, -, hlen, -⟩ := fetchWith_eq_ok_iff.mp hmetadata
          obtain ⟨-, -, -, -, hlen', -⟩ := fetchWith_eq_ok_iff.mp hfound
          have hfragments := hfoundDropped.fragments.trans
            hdropped.fragments.symm
          have hsame := hfoundDropped.dropped.trans hdropped.dropped.symm
          cases found
          cases metadata
          simp_all
        · rintro ⟨found, hfound, heq⟩
          refine ⟨found, hfound, ?_⟩
          rw [heq]
          exact ⟨hdropped.fragments, hdropped.dropped, hdropped.moov⟩
      · refine iff_of_false ?_ fun h => hunseen h.1
        rintro ⟨found, hfound, hfoundDropped⟩
        have hle := length_fragments_le hmetadata hfound hnone
        rw [hfoundDropped.fragments, List.length_map] at hle
        omega

/-- A `moov` and two pairs, each `mdat` of one byte. -/
def twoPairs : List UInt8 :=
  encode 4 8 ++ code 'm' 'o' 'o' 'v' ++
    (List.replicate 2 (encode 4 8 ++ code 'm' 'o' 'o' 'f' ++ encode 4 9 ++
      code 'm' 'd' 'a' 't' ++ [0])).flatten

def twoPairsLimits : LimitsConfig :=
  { tolerateTruncatedTail := true }

def twoPairsLeading : List (ℕ × BoxHeader) :=
  [(0, ⟨code 'm' 'o' 'o' 'v', 8⟩)]

def pairAt (offset : ℕ) : Pair :=
  ⟨(offset, ⟨code 'm' 'o' 'o' 'f', 8⟩),
    (offset + 8, ⟨code 'm' 'd' 'a' 't', 9⟩)⟩

theorem fragmentedFile_twoPairs :
    FragmentedFile twoPairs twoPairsLeading [pairAt 8, pairAt 25] where
  boxes := by
    refine Scan.cons_iff.mpr ⟨rfl, by decide, ?_⟩
    refine Scan.cons_iff.mpr ⟨rfl, by decide, ?_⟩
    refine Scan.cons_iff.mpr ⟨rfl, by decide, ?_⟩
    refine Scan.cons_iff.mpr ⟨rfl, by decide, ?_⟩
    refine Scan.cons_iff.mpr ⟨rfl, by decide, ?_⟩
    exact Scan.nil_iff.mpr (by decide)
  moov := by decide
  moof := by decide
  kinds := by decide

/-- Cut between the second `moof` and its `mdat`, the walk keeps the `moof`. -/
theorem fetchWith_twoPairs_take :
    fetchWith (twoPairs.take 33) twoPairsLimits false = .ok
      { len := 33
        moov := ⟨0, 8⟩
        moovBytes := encode 4 8 ++ code 'm' 'o' 'o' 'v'
        fragments := [8, 25].map fun offset =>
          ⟨offset, encode 4 8 ++ code 'm' 'o' 'o' 'f'⟩
        discovery := .sequential
        dropped := none } := by
  decide

theorem cut_keeps_moof :
    FragmentedFile twoPairs twoPairsLeading [pairAt 8, pairAt 25] ∧
      (pairAt 8).stop ≤ 33 ∧ 33 ≤ twoPairs.length ∧
      ¬ ∃ metadata,
        fetchWith (twoPairs.take 33) twoPairsLimits false = .ok metadata ∧
          TailDropped twoPairs twoPairsLeading [pairAt 8, pairAt 25] 33
            metadata := by
  refine ⟨fragmentedFile_twoPairs, by decide, by decide, ?_⟩
  rintro ⟨metadata, hmetadata, hdropped⟩
  rw [fetchWith_twoPairs_take] at hmetadata
  obtain rfl := Except.ok.inj hmetadata
  have hlength := congrArg List.length hdropped.fragments
  revert hlength
  decide

theorem tail_dropped_iff_twoPairs :
    ∃ metadata,
      fetchWith (twoPairs.take 41) twoPairsLimits false = .ok metadata ∧
        TailDropped twoPairs twoPairsLeading [pairAt 8, pairAt 25] 41
          metadata := by
  have hwhole : ∃ whole,
      fetchWith twoPairs twoPairsLimits false = .ok whole :=
    exists_ok_of_isOk (by decide)
  obtain ⟨whole, hwhole⟩ := hwhole
  refine (tail_dropped_iff fragmentedFile_twoPairs hwhole rfl (by decide)
    (by decide)).mpr ⟨by decide, ?_⟩
  simp

end Segmentor
