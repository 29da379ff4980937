import Segmentor.MetadataWalk
import Segmentor.General.Scan

/-!
# The boxes a walk goes through

The top-level boxes of a file are a scan of it, and a walk without a jump does
to its state what each of them says.  So its result is that of the boxes taken
one after another, as long as they stay within the limits.
-/

namespace Segmentor

open General

/-! ## Boxes as a scan -/

/-- The box at `offset`, if one ends at or before `stop`. -/
def boxAt (source : List UInt8) (stop offset : ℕ) : Option BoxHeader :=
  (header source offset stop).toOption

/-- The boxes from one offset up to another, each of which ends at or before
`stop`. -/
abbrev Boxes (source : List UInt8) (stop : ℕ) :
    ℕ → List (ℕ × BoxHeader) → ℕ → Prop :=
  Scan (boxAt source stop) BoxHeader.size

/-- A box's size as its header gives it, in a region that ends at `stop`. -/
def Declares (source : List UInt8) (stop offset size : ℕ) : Prop :=
  (size32 source offset = 1 ∧ 16 ≤ size ∧
      size = extendedSize source offset) ∨
    (size32 source offset = 0 ∧ size = stop - offset) ∨
    (2 ≤ size32 source offset ∧ size = size32 source offset)

variable {source : List UInt8} {stop offset : ℕ} {box : BoxHeader}

theorem header_eq_ok_iff :
    header source offset stop = .ok box ↔
      Declares source stop offset box.size ∧ 8 ≤ box.size ∧
        offset + box.size ≤ stop ∧ box.name = boxName source offset := by
  obtain ⟨name, size⟩ := box
  unfold header Declares
  by_cases hroom : stop - offset < 8
  · rw [if_pos hroom]
    grind
  · rw [if_neg hroom]
    by_cases hone : size32 source offset = 1
    · rw [if_pos hone]
      by_cases hextended : stop - offset < 16
      · rw [if_pos hextended, error_bind]
        grind
      · rw [if_neg hextended, ok_bind]
        grind
    · rw [if_neg hone]
      by_cases hzero : size32 source offset = 0
      · rw [if_pos hzero, ok_bind]
        grind
      · rw [if_neg hzero, ok_bind]
        grind

theorem boxAt_eq_some_iff :
    boxAt source stop offset = some box ↔
      header source offset stop = .ok box := by
  unfold boxAt
  cases header source offset stop <;> simp [Except.toOption]

theorem boxAt_advances (source : List UInt8) (stop : ℕ) :
    Advances (boxAt source stop) BoxHeader.size stop where
  pos h := by
    have := header_eq_ok_iff.mp (boxAt_eq_some_iff.mp h)
    omega
  le h := (header_eq_ok_iff.mp (boxAt_eq_some_iff.mp h)).2.2.1

theorem boxAt_of_le (hle : stop ≤ offset) : boxAt source stop offset = none := by
  cases hbox : boxAt source stop offset with
  | none => rfl
  | some box =>
      have hpos := (boxAt_advances source stop).pos hbox
      have hle' := (boxAt_advances source stop).le hbox
      omega

/-- A box of a region is the same box in a longer one, unless its size is
zero: that stands for the rest of the region. -/
theorem boxAt_extend {wider : ℕ} (hle : stop ≤ wider)
    (h : boxAt source stop offset = some box) :
    boxAt source wider offset = some box ∨
      (size32 source offset = 0 ∧ box.size = stop - offset ∧
        boxAt source wider offset =
          some ⟨boxName source offset, wider - offset⟩) := by
  simp only [boxAt_eq_some_iff, header_eq_ok_iff] at h ⊢
  obtain ⟨hdeclared, hsize, hstop, hname⟩ := h
  unfold Declares at hdeclared ⊢
  rcases hdeclared with hext | ⟨hzero, hrest⟩ | hword
  · exact .inl ⟨.inl hext, hsize, hstop.trans hle, hname⟩
  · exact .inr ⟨hzero, hrest, .inr (.inl ⟨hzero, rfl⟩), by omega, by omega,
      trivial⟩
  · exact .inl ⟨.inr (.inr hword), hsize, hstop.trans hle, hname⟩

/-! ## What a box is to the walk -/

inductive BoxKind
  | moov
  | moof
  | mdat
  | other
  deriving DecidableEq, Repr

def BoxHeader.kind (box : BoxHeader) : BoxKind :=
  if box.name = code 'm' 'o' 'o' 'v' then .moov
  else if box.name = code 'm' 'o' 'o' 'f' then .moof
  else if box.name = code 'm' 'd' 'a' 't' then .mdat
  else .other

theorem BoxHeader.kind_eq_moof_iff :
    box.kind = .moof ↔ box.name = code 'm' 'o' 'o' 'f' := by
  unfold BoxHeader.kind
  grind [show code 'm' 'o' 'o' 'f' ≠ code 'm' 'o' 'o' 'v' by decide]

/-- The boxes of one kind. -/
def ofKind (kind : BoxKind) (l : List (ℕ × BoxHeader)) :
    List (ℕ × BoxHeader) :=
  l.filter fun entry => entry.2.kind = kind

@[simp] theorem ofKind_nil (kind : BoxKind) : ofKind kind [] = [] := rfl

theorem ofKind_cons (kind : BoxKind) (entry : ℕ × BoxHeader)
    (l : List (ℕ × BoxHeader)) :
    ofKind kind (entry :: l) =
      if entry.2.kind = kind then entry :: ofKind kind l else ofKind kind l := by
  unfold ofKind
  rw [List.filter_cons]
  simp only [decide_eq_true_eq]

@[simp] theorem ofKind_append (kind : BoxKind) (l rest : List (ℕ × BoxHeader)) :
    ofKind kind (l ++ rest) = ofKind kind l ++ ofKind kind rest :=
  List.filter_append ..

theorem mem_ofKind {kind : BoxKind} {l : List (ℕ × BoxHeader)}
    {entry : ℕ × BoxHeader} :
    entry ∈ ofKind kind l ↔ entry ∈ l ∧ entry.2.kind = kind := by
  unfold ofKind
  rw [List.mem_filter, decide_eq_true_eq]

/-- The fragments among the boxes. -/
def fragmentsOf (source : List UInt8) (l : List (ℕ × BoxHeader)) :
    List Fragment :=
  (ofKind .moof l).map fun entry => fragmentAt source entry.1 entry.2.size

@[simp] theorem fragmentsOf_nil : fragmentsOf source [] = [] := rfl

theorem fragmentsOf_cons (entry : ℕ × BoxHeader)
    (l : List (ℕ × BoxHeader)) :
    fragmentsOf source (entry :: l) =
      if entry.2.kind = .moof then
        fragmentAt source entry.1 entry.2.size :: fragmentsOf source l
      else fragmentsOf source l := by
  unfold fragmentsOf
  rw [ofKind_cons]
  split <;> rfl

@[simp] theorem fragmentsOf_append (l rest : List (ℕ × BoxHeader)) :
    fragmentsOf source (l ++ rest) =
      fragmentsOf source l ++ fragmentsOf source rest := by
  simp [fragmentsOf]

@[simp] theorem fragmentsOf_eq_nil_iff {l : List (ℕ × BoxHeader)} :
    fragmentsOf source l = [] ↔ ofKind .moof l = [] := by
  simp [fragmentsOf]

/-! ## Subsegments -/

theorem walkSubsegmentFuel_eq_some_iff {fuel : ℕ}
    {fragments found : List Fragment} (hfuel : stop - offset < fuel)
    (hle : offset ≤ stop) :
    walkSubsegmentFuel source stop fuel offset fragments = some found ↔
      ∃ l, Boxes source stop offset l stop ∧
        found = fragments ++ fragmentsOf source l ∧ found ≠ [] := by
  induction fuel generalizing offset fragments with
  | zero => omega
  | succ fuel ih =>
      rw [walkSubsegmentFuel]
      rcases hle.lt_or_eq with hlt | rfl
      · rw [if_pos hlt]
        cases hheader : header source offset stop with
        | error error =>
            have hnone : boxAt source stop offset = none := by
              simp [boxAt, hheader, Except.toOption]
            simp only [reduceCtorEq, false_iff, not_exists, not_and]
            intro l hl
            cases hl with
            | nil => omega
            | cons hitem _ => simp [hnone] at hitem
        | ok box =>
            have hitem := boxAt_eq_some_iff.mpr hheader
            have hpos := (boxAt_advances source stop).pos hitem
            have hstop := (boxAt_advances source stop).le hitem
            dsimp only
            rw [ih (by omega) hstop]
            simp only [← BoxHeader.kind_eq_moof_iff]
            constructor
            · rintro ⟨l, hl, rfl, hfound⟩
              refine ⟨_, .cons hitem hl, ?_, hfound⟩
              rw [fragmentsOf_cons]
              split <;> simp
            · rintro ⟨l, hl, rfl, hfound⟩
              cases hl with
              | nil => omega
              | cons hitem' hrest =>
                  obtain rfl := Option.some.inj (hitem.symm.trans hitem')
                  refine ⟨_, hrest, ?_, hfound⟩
                  rw [fragmentsOf_cons]
                  split <;> simp
      · rw [if_neg (lt_irrefl _)]
        constructor
        · intro h
          by_cases hnil : fragments = []
          · simp [hnil] at h
          · rw [if_neg hnil, Option.some.injEq] at h
            subst h
            exact ⟨[], .nil _, by simp, hnil⟩
        · rintro ⟨l, hl, rfl, hfound⟩
          cases hl with
          | nil => simpa using hfound
          | cons hitem _ => simp [boxAt_of_le le_rfl] at hitem

theorem walkSubsegment_eq_some_iff {found : List Fragment}
    (hle : offset ≤ stop) :
    walkSubsegment source offset stop = some found ↔
      ∃ l, Boxes source stop offset l stop ∧
        found = fragmentsOf source l ∧ ofKind .moof l ≠ [] := by
  unfold walkSubsegment
  rw [walkSubsegmentFuel_eq_some_iff (by omega) hle]
  simp only [List.nil_append]
  constructor
  · rintro ⟨l, hl, rfl, hfound⟩
    exact ⟨l, hl, rfl, by simpa using hfound⟩
  · rintro ⟨l, hl, rfl, hfound⟩
    exact ⟨l, hl, rfl, by simpa using hfound⟩

/-- The boxes of the subsegments of the sizes listed, from `offset` on.  Each
subsegment is a whole number of boxes and holds a `moof`. -/
inductive Subsegments (source : List UInt8) :
    ℕ → List ℕ → List (ℕ × BoxHeader) → Prop
  | nil (offset : ℕ) : Subsegments source offset [] []
  | cons {offset size : ℕ} {sizes : List ℕ} {l rest : List (ℕ × BoxHeader)}
      (hboxes : Boxes source (offset + size) offset l (offset + size))
      (hmoof : ofKind .moof l ≠ [])
      (hrest : Subsegments source (offset + size) sizes rest) :
      Subsegments source offset (size :: sizes) (l ++ rest)

theorem fetchSubsegments_eq_some_iff {sizes : List ℕ}
    {found : List Fragment} :
    fetchSubsegments source offset sizes = some found ↔
      ∃ l, Subsegments source offset sizes l ∧
        found = fragmentsOf source l := by
  induction sizes generalizing offset found with
  | nil =>
      simp only [fetchSubsegments, Option.some.injEq]
      constructor
      · rintro rfl
        exact ⟨[], .nil offset, rfl⟩
      · rintro ⟨l, hl, rfl⟩
        cases hl
        rfl
  | cons size sizes ih =>
      simp only [fetchSubsegments, Option.bind_eq_bind,
        Option.bind_eq_some_iff, walkSubsegment_eq_some_iff
          (Nat.le_add_right offset size), ih, Option.some.injEq]
      constructor
      · rintro ⟨_, ⟨l, hl, rfl, hmoof⟩, _, ⟨rest, hrest, rfl⟩, rfl⟩
        exact ⟨l ++ rest, .cons hl hmoof hrest, by simp⟩
      · rintro ⟨_, hl, rfl⟩
        cases hl with
        | cons hboxes hmoof hrest =>
            exact ⟨_, ⟨_, hboxes, rfl, hmoof⟩, _, ⟨_, hrest, rfl⟩, by simp⟩

theorem Coverage.stop_eq {coverage : Coverage} (h : coverage.stop = some stop) :
    stop = coverage.start + coverage.sizes.sum := by
  obtain ⟨start, sizes⟩ := coverage
  unfold Coverage.stop at h
  dsimp only at h ⊢
  induction sizes generalizing start with
  | nil => simpa using h.symm
  | cons size sizes ih =>
      rw [List.foldlM_cons, Option.bind_eq_bind,
        Option.bind_eq_some_iff] at h
      obtain ⟨middle, hmiddle, hrest⟩ := h
      obtain ⟨-, rfl⟩ := checkedAdd_eq_some_iff.mp hmiddle
      rw [ih _ hrest, List.sum_cons, Nat.add_assoc]

theorem Subsegments.ne_nil {sizes : List ℕ} {l : List (ℕ × BoxHeader)}
    (h : Subsegments source offset sizes l) (hsizes : sizes ≠ []) :
    ofKind .moof l ≠ [] := by
  cases h with
  | nil => exact absurd rfl hsizes
  | cons _ hmoof _ => simp [hmoof]

/-! ## What a box does to the state -/

namespace Walk

/-- What the box at an offset does to the state, limits apart. -/
def keep (source : List UInt8) (walk : Walk) (entry : ℕ × BoxHeader) : Walk :=
  match entry.2.kind with
  | .moov =>
      { walk with
        moov := some (⟨entry.1, entry.2.size⟩,
          readRange source ⟨entry.1, entry.2.size⟩) }
  | .moof =>
      { walk with
        fragments :=
          walk.fragments ++ [fragmentAt source entry.1 entry.2.size]
        metadataBytes :=
          saturatingAdd (2 ^ 64) walk.metadataBytes entry.2.size
        lastMoof := some entry.1 }
  | .mdat => { walk with mediaBoxes := walk.mediaBoxes + 1 }
  | .other => { walk with otherBoxes := walk.otherBoxes + 1 }

def keepAll (source : List UInt8) (walk : Walk) (l : List (ℕ × BoxHeader)) :
    Walk :=
  l.foldl (keep source) walk

/-- What has been kept and counted is within the limits. -/
structure Within (limits : LimitsConfig) (walk : Walk) : Prop where
  fragments : walk.fragments.length ≤ limits.maxFragments
  metadataBytes : walk.metadataBytes ≤ limits.maxMetadataBytes
  otherBoxes : walk.otherBoxes ≤ MAX_OTHER_BOXES
  mediaBoxes : walk.mediaBoxes ≤ limits.maxFragments + 16
  word : walk.metadataBytes < 2 ^ 64

/-- Every `moov` among the boxes may be held. -/
def MoovsFit (limits : LimitsConfig) (l : List (ℕ × BoxHeader)) : Prop :=
  ∀ entry ∈ l, entry.2.kind = .moov → entry.2.size ≤ limits.maxMetadataBytes

variable {limits : LimitsConfig} {walk next final : Walk}
  {entry : ℕ × BoxHeader} {l rest : List (ℕ × BoxHeader)}

theorem within_initial (limits : LimitsConfig) : Within limits {} := by
  constructor <;> simp

@[simp] theorem keepAll_nil : keepAll source walk [] = walk := rfl

@[simp] theorem keepAll_cons :
    keepAll source walk (entry :: l) =
      keepAll source (keep source walk entry) l := rfl

@[simp] theorem keepAll_append :
    keepAll source walk (l ++ rest) =
      keepAll source (keepAll source walk l) rest :=
  List.foldl_append ..

theorem moovsFit_cons :
    MoovsFit limits (entry :: l) ↔
      (entry.2.kind = .moov → entry.2.size ≤ limits.maxMetadataBytes) ∧
        MoovsFit limits l :=
  List.forall_mem_cons

theorem keep_word (hword : walk.metadataBytes < 2 ^ 64) :
    (keep source walk entry).metadataBytes < 2 ^ 64 := by
  unfold keep saturatingAdd
  cases entry.2.kind <;> dsimp only <;> omega

theorem keepAll_word (hword : walk.metadataBytes < 2 ^ 64) :
    (keepAll source walk l).metadataBytes < 2 ^ 64 := by
  induction l generalizing walk with
  | nil => exact hword
  | cons entry l ih => exact ih (keep_word hword)

/-- A state that fits after a box fitted before it. -/
theorem Within.of_keep (hword : walk.metadataBytes < 2 ^ 64)
    (h : Within limits (keep source walk entry)) : Within limits walk := by
  obtain ⟨hfragments, hbytes, hother, hmedia, -⟩ := h
  unfold keep saturatingAdd at *
  constructor <;> cases hkind : entry.2.kind <;>
    simp only [hkind, List.length_append, List.length_singleton] at * <;>
    omega

theorem Within.of_keepAll (hword : walk.metadataBytes < 2 ^ 64)
    (h : Within limits (keepAll source walk l)) : Within limits walk := by
  induction l generalizing walk with
  | nil => exact h
  | cons entry l ih => exact (ih (keep_word hword) h).of_keep hword

/-! What a run of boxes leaves in each field. -/

theorem keepAll_fragments :
    (keepAll source walk l).fragments =
      walk.fragments ++ fragmentsOf source l := by
  induction l generalizing walk with
  | nil => simp
  | cons entry l ih =>
      rw [keepAll_cons, ih, fragmentsOf_cons, keep]
      cases entry.2.kind <;> simp

theorem keepAll_metadataBytes :
    (keepAll source walk l).metadataBytes =
      ((ofKind .moof l).map fun entry => entry.2.size).foldl
        (saturatingAdd (2 ^ 64)) walk.metadataBytes := by
  induction l generalizing walk with
  | nil => rfl
  | cons entry l ih =>
      rw [keepAll_cons, ih, ofKind_cons, keep]
      cases entry.2.kind <;> simp

theorem keepAll_otherBoxes :
    (keepAll source walk l).otherBoxes =
      walk.otherBoxes + (ofKind .other l).length := by
  induction l generalizing walk with
  | nil => simp
  | cons entry l ih =>
      rw [keepAll_cons, ih, ofKind_cons, keep]
      cases entry.2.kind <;> simp [Nat.add_assoc, Nat.add_comm]

theorem keepAll_mediaBoxes :
    (keepAll source walk l).mediaBoxes =
      walk.mediaBoxes + (ofKind .mdat l).length := by
  induction l generalizing walk with
  | nil => simp
  | cons entry l ih =>
      rw [keepAll_cons, ih, ofKind_cons, keep]
      cases entry.2.kind <;> simp [Nat.add_assoc, Nat.add_comm]

theorem keepAll_lastMoof :
    (keepAll source walk l).lastMoof =
      ((ofKind .moof l).getLast?.map Prod.fst).or walk.lastMoof := by
  induction l generalizing walk with
  | nil => simp
  | cons entry l ih =>
      rw [keepAll_cons, ih, ofKind_cons, keep]
      cases entry.2.kind <;> simp [List.getLast?_cons]

theorem keepAll_moov :
    (keepAll source walk l).moov =
      ((ofKind .moov l).getLast?.map fun entry =>
        (⟨entry.1, entry.2.size⟩,
          readRange source ⟨entry.1, entry.2.size⟩)).or walk.moov := by
  induction l generalizing walk with
  | nil => simp
  | cons entry l ih =>
      rw [keepAll_cons, ih, ofKind_cons, keep]
      cases entry.2.kind <;> simp [List.getLast?_cons]

/-- The fields no box changes. -/
theorem keepAll_rest :
    (keepAll source walk l).discovery = walk.discovery ∧
      (keepAll source walk l).dropped = walk.dropped ∧
        (keepAll source walk l).pending = walk.pending := by
  induction l generalizing walk with
  | nil => simp
  | cons entry l ih =>
      rw [keepAll_cons]
      obtain ⟨hdiscovery, hdropped, hpending⟩ :=
        @ih (keep source walk entry)
      rw [hdiscovery, hdropped, hpending, keep]
      cases entry.2.kind <;> exact ⟨rfl, rfl, rfl⟩

/-! ## One box -/

/-- No `sidx` can be used from here on. -/
def Steady (useSidx : Bool) (walk : Walk) : Prop :=
  walk.pending = none ∧ (useSidx = false ∨ walk.fragments ≠ [])

theorem Steady.keep {useSidx : Bool} (h : Steady useSidx walk) :
    Steady useSidx (keep source walk entry) := by
  obtain ⟨hpending, hsidx⟩ := h
  unfold Steady Walk.keep
  refine ⟨by cases entry.2.kind <;> exact hpending, hsidx.imp_right ?_⟩
  intro hne
  cases entry.2.kind <;> simp [hne]

theorem countOther_eq_ok_iff :
    walk.countOther = .ok next ↔
      walk.otherBoxes + 1 ≤ MAX_OTHER_BOXES ∧
        next = { walk with otherBoxes := walk.otherBoxes + 1 } := by
  unfold countOther
  split
  · simp only [reduceCtorEq, false_iff, not_and]
    omega
  · simp only [Except.ok.injEq]
    exact ⟨fun h => ⟨by omega, h.symm⟩, fun h => h.2.symm⟩

theorem addMetadataBytes_eq_ok_iff {bytes : ℕ} :
    walk.addMetadataBytes limits bytes = .ok next ↔
      saturatingAdd (2 ^ 64) walk.metadataBytes bytes ≤
          limits.maxMetadataBytes ∧
        next = { walk with
          metadataBytes :=
            saturatingAdd (2 ^ 64) walk.metadataBytes bytes } := by
  unfold addMetadataBytes
  dsimp only
  split
  · simp only [reduceCtorEq, false_iff, not_and]
    omega
  · simp only [Except.ok.injEq]
    exact ⟨fun h => ⟨by omega, h.symm⟩, fun h => h.2.symm⟩

theorem record_steady {useSidx : Bool} (hsteady : Steady useSidx walk)
    (offset : ℕ) (box : BoxHeader) :
    walk.record source limits useSidx offset box =
      match box.kind with
      | .moov =>
          if limits.maxMetadataBytes < box.size then
            .error (invalidMedia "moov exceeds configured metadata limit")
          else .ok (walk.keep source (offset, box))
      | .moof =>
          if limits.maxFragments ≤ walk.fragments.length then
            .error (tooManyFragments limits)
          else do
            let walk ← walk.addMetadataBytes limits box.size
            .ok { walk with
              fragments :=
                walk.fragments ++ [fragmentAt source offset box.size]
              lastMoof := some offset }
      | .mdat =>
          if limits.maxFragments + 16 < walk.mediaBoxes + 1 then
            .error (invalidMedia "too many top-level MP4 boxes")
          else .ok (walk.keep source (offset, box))
      | .other => walk.countOther := by
  have hsidx : ¬ (box.name = code 's' 'i' 'd' 'x' ∧ useSidx ∧
      walk.fragments = [] ∧ walk.pending = none) := by
    rintro ⟨-, htrue, hnil, -⟩
    rcases hsteady.2 with hfalse | hne
    · simp [hfalse] at htrue
    · exact hne hnil
  unfold record
  rw [if_neg hsidx]
  unfold keep BoxHeader.kind
  split_ifs <;> rfl

theorem record_eq_ok_iff {useSidx : Bool} (hsteady : Steady useSidx walk)
    (hwithin : Within limits walk) :
    walk.record source limits useSidx entry.1 entry.2 = .ok next ↔
      next = keep source walk entry ∧ Within limits next ∧
        (entry.2.kind = .moov →
          entry.2.size ≤ limits.maxMetadataBytes) := by
  rw [record_steady hsteady]
  obtain ⟨hfragments, hbytes, hother, hmedia, hword⟩ := hwithin
  cases hkind : entry.2.kind with
  | moov =>
      have hkeep : Within limits (keep source walk entry) := by
        simp only [keep, hkind]
        exact ⟨hfragments, hbytes, hother, hmedia, hword⟩
      dsimp only
      split
      · simp only [reduceCtorEq, false_iff, not_and, forall_const]
        omega
      · simp only [Except.ok.injEq, forall_const]
        constructor
        · rintro rfl
          exact ⟨rfl, hkeep, by omega⟩
        · exact fun h => h.1.symm
  | moof =>
      dsimp only
      split
      · simp only [reduceCtorEq, false_iff, not_and]
        rintro rfl hnext
        have := hnext.fragments
        simp only [keep, hkind, List.length_append,
          List.length_singleton] at this
        omega
      · rw [bind_eq_ok_iff]
        simp only [addMetadataBytes_eq_ok_iff, Except.ok.injEq,
          reduceCtorEq, false_implies, and_true]
        constructor
        · rintro ⟨_, ⟨htotal, rfl⟩, rfl⟩
          refine ⟨by simp only [keep, hkind], ?_, ?_, hother, hmedia, ?_⟩
          · dsimp only
            rw [List.length_append, List.length_singleton]
            omega
          · exact htotal
          · simp only [saturatingAdd]
            omega
        · rintro ⟨rfl, hnext⟩
          have := hnext.metadataBytes
          simp only [keep, hkind] at this ⊢
          exact ⟨_, ⟨this, rfl⟩, rfl⟩
  | mdat =>
      dsimp only
      simp only [reduceCtorEq, false_implies, and_true]
      split
      · simp only [reduceCtorEq, false_iff, not_and]
        rintro rfl hnext
        have := hnext.mediaBoxes
        simp only [keep, hkind] at this
        omega
      · simp only [Except.ok.injEq]
        constructor
        · rintro rfl
          simp only [keep, hkind]
          exact ⟨trivial, hfragments, hbytes, hother, by
            dsimp only
            omega, hword⟩
        · exact fun h => h.1.symm
  | other =>
      simp only [countOther_eq_ok_iff, reduceCtorEq, false_implies, and_true]
      constructor
      · rintro ⟨hle, rfl⟩
        exact ⟨by simp only [keep, hkind], hfragments, hbytes, hle, hmedia,
          hword⟩
      · rintro ⟨rfl, hnext⟩
        have := hnext.otherBoxes
        simp only [keep, hkind] at this ⊢
        exact ⟨this, trivial⟩

end Walk

end Segmentor
