import Segmentor.BoxRoundTrip
import Segmentor.General.Loops
import Segmentor.General.Tiling

/-!
# Boxes tile what they are read from

A box gives its size in its first word, in a long word behind its name, or as
what is left.  What is read as a box is its header and payload in one of these
forms.  The loop over the child boxes ends on any bytes, and what it returns
are the boxes these bytes consist of, one after the other.
-/

namespace Segmentor

open General

/-! ## One box -/

/-- Where the size of a box is. -/
inductive SizeForm
  | word
  | long
  /-- The box ends where its bytes do. -/
  | toEnd
  deriving DecidableEq, Repr

namespace SizeForm

/-- The first word of a box of this size. -/
def first (form : SizeForm) (size : ℕ) : ℕ :=
  match form with
  | word => size
  | long => 1
  | toEnd => 0

/-- What stands between the name of the box and its payload. -/
def extended (form : SizeForm) (size : ℕ) : List UInt8 :=
  match form with
  | word => []
  | long => encode 8 size
  | toEnd => []

def headerSize (form : SizeForm) : ℕ :=
  match form with
  | word => 8
  | long => 16
  | toEnd => 8

def header (form : SizeForm) (box : RawBox) : List UInt8 :=
  encode 4 (form.first box.size) ++ (box.name ++ form.extended box.size)

/-- The whole box. -/
def bytes (form : SizeForm) (box : RawBox) : List UInt8 :=
  form.header box ++ box.payload

/-- The size can be given in this form where `rest` comes after the box. -/
def Holds (form : SizeForm) (size : ℕ) (rest : List UInt8) : Prop :=
  match form with
  | word => size < 2 ^ 32
  | long => size < 2 ^ 64
  | toEnd => rest = []

/-- The box can be in this form in front of `rest`. -/
structure Fits (form : SizeForm) (box : RawBox) (rest : List UInt8) :
    Prop where
  name : box.name.length = 4
  size : box.size = form.headerSize + box.payload.length
  holds : form.Holds box.size rest

@[simp] theorem first_word (size : ℕ) : word.first size = size := rfl

@[simp] theorem first_long (size : ℕ) : long.first size = 1 := rfl

@[simp] theorem first_toEnd (size : ℕ) : toEnd.first size = 0 := rfl

variable {form : SizeForm} {box : RawBox} {rest : List UInt8}

theorem bytes_append (form : SizeForm) (box : RawBox) (rest : List UInt8) :
    form.bytes box ++ rest =
      encode 4 (form.first box.size) ++
        (box.name ++ (form.extended box.size ++ (box.payload ++ rest))) := by
  simp only [bytes, header, List.append_assoc]

theorem length_header (hname : box.name.length = 4) :
    (form.header box).length = form.headerSize := by
  unfold header
  rw [List.length_append, List.length_append, length_encode, hname]
  cases form <;> simp [extended, headerSize]

theorem Fits.length_bytes (h : form.Fits box rest) :
    (form.bytes box).length = box.size := by
  unfold bytes
  rw [List.length_append, length_header h.name, h.size]

theorem eight_le_headerSize (form : SizeForm) : 8 ≤ form.headerSize := by
  cases form <;> simp [headerSize]

theorem Fits.eight_le_size (h : form.Fits box rest) : 8 ≤ box.size := by
  have height := form.eight_le_headerSize
  have hsize := h.size
  omega

theorem Fits.first_lt (h : form.Fits box rest) :
    form.first box.size < 2 ^ 32 := by
  have hholds := h.holds
  cases form with
  | word => exact hholds
  | long => simp
  | toEnd => simp

end SizeForm

section

variable {form : SizeForm} {box : RawBox} {data rest : List UInt8}

/-- The size that the box in front of `data` says it has, and the size of its
header. -/
def declared (data : List UInt8) : Result (ℕ × ℕ) :=
  if decode (data.take 4) = 1 then
    if ((data.drop 8).take 8).length < 8 then
      .error (invalidMedia "extended MP4 box header is truncated")
    else .ok (decode ((data.drop 8).take 8), 16)
  else if decode (data.take 4) = 0 then .ok (data.length, 8)
  else .ok (decode (data.take 4), 8)

theorem boxPayload_eq_ok_iff_declared :
    boxPayload data 0 = .ok box ↔
      8 ≤ data.length ∧ ∃ headerSize,
        declared data = .ok (box.size, headerSize) ∧
          headerSize ≤ box.size ∧ box.size ≤ data.length ∧
            box.name = (data.drop 4).take 4 ∧
              box.payload =
                (data.drop headerSize).take (box.size - headerSize) := by
  have hfour : (data.take 8).take 4 = data.take 4 := by
    rw [List.take_take, Nat.min_eq_left (by omega)]
  have hname : (data.take 8).drop 4 = (data.drop 4).take 4 :=
    List.drop_take
  unfold boxPayload
  simp only [List.drop_zero, Nat.zero_add, hfour, hname, Nat.sub_zero]
  rw [← declared]
  split
  · rename_i hshort
    rw [List.length_take] at hshort
    simp only [reduceCtorEq, false_iff]
    omega
  · rename_i hlong
    rw [List.length_take] at hlong
    simp only [bind_eq_ok_iff, Prod.exists]
    constructor
    · rintro ⟨size, headerSize, hdeclared, hrest⟩
      split at hrest
      · simp at hrest
      · obtain rfl := Except.ok.inj hrest
        exact ⟨by omega, headerSize, hdeclared, by dsimp only; omega,
          by dsimp only; omega, rfl, rfl⟩
    · rintro ⟨-, headerSize, hdeclared, hlow, hhigh, hname, hpayload⟩
      refine ⟨box.size, headerSize, hdeclared, ?_⟩
      rw [if_neg (by omega), ← hname, ← hpayload]

theorem drop_eq_append {small large : ℕ} (h : small ≤ large)
    (data : List UInt8) :
    data.drop small =
      (data.drop small).take (large - small) ++ data.drop large := by
  conv_lhs => rw [← List.take_append_drop (large - small) (data.drop small)]
  rw [List.drop_drop, Nat.add_sub_cancel' h]

theorem eq_encode_append {count : ℕ} (h : count ≤ data.length) :
    data = encode count (decode (data.take count)) ++ data.drop count := by
  have hencode := encode_decode (data.take count)
  rw [List.length_take_of_le h] at hencode
  rw [hencode, List.take_append_drop]

theorem decode_take_lt {count : ℕ} (h : count ≤ data.length) :
    decode (data.take count) < 256 ^ count := by
  have hlt := decode_lt (data.take count)
  rwa [List.length_take_of_le h] at hlt

theorem declared_bytes (h : form.Fits box rest) :
    declared (form.bytes box ++ rest) = .ok (box.size, form.headerSize) := by
  have hfirst : decode ((form.bytes box ++ rest).take 4) =
      form.first box.size := by
    rw [SizeForm.bytes_append, List.take_left' (length_encode 4 _)]
    exact decode_encode_of_lt (by have := h.first_lt; omega)
  have hbehind : (form.bytes box ++ rest).drop 8 =
      form.extended box.size ++ (box.payload ++ rest) := by
    rw [SizeForm.bytes_append, ← List.append_assoc,
      List.drop_left' (by simp [h.name])]
  have hsize := h.size
  have hholds := h.holds
  unfold declared
  rw [hfirst, hbehind]
  cases form with
  | word =>
      have height : SizeForm.word.headerSize = 8 := rfl
      rw [SizeForm.first_word, if_neg (by omega), if_neg (by omega), height]
  | long =>
      have hlong : decode (encode 8 box.size) = box.size :=
        decode_encode_of_lt (by
          have : box.size < 2 ^ 64 := hholds
          omega)
      have hextended : SizeForm.long.extended box.size =
          encode 8 box.size := rfl
      rw [SizeForm.first_long, if_pos rfl, hextended,
        List.take_left' (length_encode 8 _), if_neg (by simp), hlong]
      rfl
  | toEnd =>
      obtain rfl : rest = [] := hholds
      rw [SizeForm.first_toEnd, if_neg (by omega), if_pos rfl,
        List.length_append, h.length_bytes]
      rfl

theorem boxPayload_eq_ok_iff :
    boxPayload data 0 = .ok box ↔
      ∃ form rest, data = SizeForm.bytes form box ++ rest ∧
        form.Fits box rest := by
  rw [boxPayload_eq_ok_iff_declared]
  constructor
  · rintro ⟨hlength, headerSize, hdeclared, hlow, hhigh, hname, hpayload⟩
    have hnameLength : box.name.length = 4 := by
      rw [hname, List.length_take, List.length_drop]
      omega
    have hfirst := @eq_encode_append data 4 (by omega)
    have hafter : data.drop 4 = box.name ++ data.drop 8 := by
      rw [hname]
      exact @drop_eq_append 4 8 (by omega) data
    have hbehind : data.drop headerSize =
        box.payload ++ data.drop box.size := by
      rw [hpayload]
      exact drop_eq_append hlow data
    have hpayloadLength : box.size = headerSize + box.payload.length := by
      rw [hpayload, List.length_take, List.length_drop]
      omega
    unfold declared at hdeclared
    split_ifs at hdeclared with hone hshort hzero
    · obtain ⟨hsize, rfl⟩ := Prod.mk.inj (Except.ok.inj hdeclared)
      have hsixteen : 8 ≤ (data.drop 8).length := by
        rw [List.length_take] at hshort
        omega
      have hextended := eq_encode_append hsixteen
      rw [hsize, List.drop_drop, hbehind] at hextended
      rw [hone, hafter, hextended] at hfirst
      refine ⟨.long, data.drop box.size, ?_, hnameLength, hpayloadLength, ?_⟩
      · rw [SizeForm.bytes_append]
        exact hfirst
      · exact hsize ▸ decode_take_lt hsixteen
    · obtain ⟨hsize, rfl⟩ := Prod.mk.inj (Except.ok.inj hdeclared)
      rw [hzero, hafter, hbehind] at hfirst
      refine ⟨.toEnd, data.drop box.size, ?_, hnameLength, hpayloadLength, ?_⟩
      · rw [SizeForm.bytes_append]
        exact hfirst
      · exact List.drop_eq_nil_of_le hsize.le
    · obtain ⟨hsize, rfl⟩ := Prod.mk.inj (Except.ok.inj hdeclared)
      rw [hsize, hafter, hbehind] at hfirst
      refine ⟨.word, data.drop box.size, ?_, hnameLength, hpayloadLength, ?_⟩
      · rw [SizeForm.bytes_append]
        exact hfirst
      · exact hsize ▸ decode_take_lt (by omega)
  · rintro ⟨form, rest, rfl, hfits⟩
    have hlength := hfits.length_bytes
    have hheader := @SizeForm.length_header form _ hfits.name
    have height := form.eight_le_headerSize
    have hsize := hfits.size
    have hname : ((form.bytes box ++ rest).drop 4).take 4 = box.name := by
      rw [SizeForm.bytes_append, List.drop_left' (length_encode 4 _),
        List.take_left' hfits.name]
    have hbehind : (form.bytes box ++ rest).drop form.headerSize =
        box.payload ++ rest := by
      unfold SizeForm.bytes
      rw [List.append_assoc, List.drop_left' hheader]
    refine ⟨?_, form.headerSize, ?_, by omega, ?_, hname.symm, ?_⟩
    · rw [List.length_append]
      omega
    · exact declared_bytes hfits
    · rw [List.length_append]
      omega
    · rw [hbehind, List.take_left' (by omega)]

theorem boxPayload_bytes (h : form.Fits box rest) :
    boxPayload (form.bytes box ++ rest) 0 = .ok box :=
  boxPayload_eq_ok_iff.mpr ⟨form, rest, rfl, h⟩

end

/-! ## All the boxes -/

/-- The bytes are these boxes, headers included, one after the other. -/
inductive Tiled : List UInt8 → List RawBox → Prop
  | nil : Tiled [] []
  | cons {form : SizeForm} {box : RawBox} {rest : List UInt8}
      {boxes : List RawBox} (hfits : form.Fits box rest)
      (hrest : Tiled rest boxes) : Tiled (form.bytes box ++ rest) (box :: boxes)

theorem childBoxes_of_ne_nil {data : List UInt8} (h : data ≠ []) :
    childBoxes data = (do
      let child ← boxPayload data 0
      let children ← childBoxes (data.drop child.size)
      .ok (child :: children)) := by
  obtain ⟨byte, bytes, rfl⟩ := List.exists_cons_of_ne_nil h
  have hwalk : childBoxes (byte :: bytes) = (do
      let child ← boxPayload (byte :: bytes) 0
      let children ← childBoxesFuel bytes.length
        ((byte :: bytes).drop child.size)
      .ok (child :: children)) := rfl
  rw [hwalk]
  cases hchild : boxPayload (byte :: bytes) 0 with
  | error error => rfl
  | ok child =>
      have hsize := (boxPayload_size_le hchild).1
      rw [ok_bind, ok_bind, childBoxesFuel_eq (by
        rw [List.length_drop, List.length_cons]
        omega)]

theorem childBoxes_eq_ok_iff {data : List UInt8} {boxes : List RawBox} :
    childBoxes data = .ok boxes ↔ Tiled data boxes := by
  constructor
  · intro h
    induction boxes generalizing data with
    | nil =>
        by_cases hdata : data = []
        · subst hdata
          exact .nil
        · rw [childBoxes_of_ne_nil hdata, bind_eq_ok_iff] at h
          obtain ⟨child, -, h⟩ := h
          obtain ⟨children, -, h⟩ := bind_eq_ok_iff.mp h
          simp at h
    | cons box boxes ih =>
        have hdata : data ≠ [] := by
          rintro rfl
          simp at h
        rw [childBoxes_of_ne_nil hdata, bind_eq_ok_iff] at h
        obtain ⟨child, hchild, h⟩ := h
        obtain ⟨children, hchildren, h⟩ := bind_eq_ok_iff.mp h
        obtain ⟨rfl, rfl⟩ := List.cons.inj (Except.ok.inj h)
        obtain ⟨form, rest, rfl, hfits⟩ := boxPayload_eq_ok_iff.mp hchild
        rw [List.drop_left' hfits.length_bytes] at hchildren
        exact .cons hfits (ih hchildren)
  · intro h
    induction h with
    | nil => rfl
    | @cons form box rest boxes hfits _ ih =>
        have hdata : form.bytes box ++ rest ≠ [] := by
          have height := hfits.eight_le_size
          rw [← List.length_pos_iff, List.length_append, hfits.length_bytes]
          omega
        rw [childBoxes_of_ne_nil hdata, boxPayload_bytes hfits, ok_bind,
          List.drop_left' hfits.length_bytes, ih, ok_bind]

/-- Where each of the boxes starts and ends, when the first is at `start`. -/
def boxSpans : ℕ → List RawBox → List (ℕ × ℕ)
  | _, [] => []
  | start, box :: boxes =>
      (start, start + box.size) :: boxSpans (start + box.size) boxes

/-- The boxes cover the bytes exactly, in order. -/
theorem Tiled.tiles {data : List UInt8} {boxes : List RawBox}
    (h : Tiled data boxes) (start : ℕ) :
    Tiles start (boxSpans start boxes) (start + data.length) := by
  induction h generalizing start with
  | nil => rfl
  | @cons form box rest boxes hfits _ ih =>
      refine tiles_cons.mpr ⟨rfl, Nat.le_add_right _ _, ?_⟩
      rw [List.length_append, hfits.length_bytes, ← Nat.add_assoc]
      exact ih _

/-- What stands where a box is are its header and its payload. -/
theorem Tiled.whole {data front : List UInt8} {boxes : List RawBox}
    (h : Tiled data boxes) :
    List.Forall₂ (fun span box => ∃ form : SizeForm,
        readRange (front ++ data) ⟨span.1, box.size⟩ = form.bytes box)
      (boxSpans front.length boxes) boxes := by
  induction h generalizing front with
  | nil => exact .nil
  | @cons form box rest boxes hfits _ ih =>
      refine .cons ⟨form, ?_⟩ ?_
      · unfold readRange
        rw [List.drop_left, List.take_left' hfits.length_bytes]
      · have htail := @ih (front ++ form.bytes box)
        rwa [List.length_append, hfits.length_bytes, List.append_assoc]
          at htail

/-! ## The loop -/

/-- One round of the loop: the bytes left, and the boxes found. -/
def childBoxesRound (state : List UInt8 × List RawBox) :
    Result (Loop.Round (List UInt8 × List RawBox) (List RawBox)) :=
  if state.1 = [] then .ok (.done state.2)
  else do
    let child ← boxPayload state.1 0
    .ok (.again (state.1.drop child.size, state.2 ++ [child]))

theorem next_childBoxesRound_iff {state next : List UInt8 × List RawBox} :
    Loop.Next childBoxesRound state next ↔
      ∃ child, state.1 ≠ [] ∧ boxPayload state.1 0 = .ok child ∧
        next = (state.1.drop child.size, state.2 ++ [child]) := by
  unfold Loop.Next childBoxesRound
  by_cases hdata : state.1 = []
  · simp [hdata]
  · rw [if_neg hdata, bind_eq_ok_iff]
    simp [hdata, eq_comm]

/-- Every round takes a box off the bytes. -/
theorem childBoxesRound_descends :
    Loop.Descends childBoxesRound (fun _ => True)
      (fun state => state.1.length) where
  keeps := fun _ _ => trivial
  lowers := by
    intro state next _ hnext
    obtain ⟨child, -, hchild, rfl⟩ := next_childBoxesRound_iff.mp hnext
    have hsize := boxPayload_size_le hchild
    rw [List.length_drop]
    omega

/-- What the loop comes to from a state. -/
def childBoxesFrom (state : List UInt8 × List RawBox) :
    Result (List RawBox) :=
  (childBoxes state.1).map (state.2 ++ ·)

theorem childBoxesFrom_eq (state : List UInt8 × List RawBox) :
    childBoxesFrom state =
      childBoxesRound state >>= Loop.Round.resume childBoxesFrom := by
  obtain ⟨data, found⟩ := state
  unfold childBoxesFrom childBoxesRound
  dsimp only
  by_cases hdata : data = []
  · rw [if_pos hdata, hdata, childBoxes_nil, ok_bind]
    exact congrArg Except.ok (List.append_nil found)
  · rw [if_neg hdata, childBoxes_of_ne_nil hdata]
    cases boxPayload data 0 with
    | error error => rfl
    | ok child =>
        simp only [ok_bind, Loop.Round.resume]
        cases childBoxes (data.drop child.size) with
        | error error => rfl
        | ok children => exact congrArg Except.ok (List.append_cons ..)

/-- The loop ends on any bytes, and returns the child boxes. -/
theorem childBoxesRound_ends (data : List UInt8) :
    Loop.Ends childBoxesRound (data, []) (childBoxes data) := by
  have hends : Loop.Ends childBoxesRound (data, [])
      (childBoxesFrom (data, [])) :=
    childBoxesRound_descends.ends (fun state _ => childBoxesFrom_eq state)
      trivial
  have hstart : childBoxesFrom (data, []) = childBoxes data := by
    unfold childBoxesFrom
    cases childBoxes data <;> rfl
  rwa [hstart] at hends

/-! ## Writing and reading -/

theorem writeBoxes_eq_ok_iff {boxes : List BoxSpec}
    {written : List (List UInt8)} :
    boxes.mapM (fun box => writeBox box.1 box.2) = .ok written ↔
      (∀ box ∈ boxes, box.2.length + 8 < 2 ^ 32) ∧
        written = boxes.map fun box => boxBytes box.1 box.2 := by
  induction boxes generalizing written with
  | nil => simp [pure, Except.pure, eq_comm]
  | cons box boxes ih =>
      simp only [List.mapM_cons, bind_eq_ok_iff, writeBox_eq_ok_iff, ih]
      constructor
      · rintro ⟨_, ⟨hbox, rfl⟩, _, ⟨hboxes, rfl⟩, hwritten⟩
        obtain rfl := Except.ok.inj hwritten
        exact ⟨List.forall_mem_cons.mpr ⟨hbox, hboxes⟩, rfl⟩
      · rintro ⟨hboxes, rfl⟩
        obtain ⟨hbox, hrest⟩ := List.forall_mem_cons.mp hboxes
        exact ⟨_, ⟨hbox, rfl⟩, _, ⟨hrest, rfl⟩, rfl⟩

/-- Boxes that were written one behind the other are read back. -/
theorem childBoxes_flatten_written {boxes : List BoxSpec}
    {written : List (List UInt8)} (hnames : ∀ box ∈ boxes, box.1.length = 4)
    (hwritten : boxes.mapM (fun box => writeBox box.1 box.2) = .ok written) :
    childBoxes written.flatten = .ok (boxes.map BoxSpec.raw) := by
  obtain ⟨hsizes, rfl⟩ := writeBoxes_eq_ok_iff.mp hwritten
  rw [← List.flatMap_def]
  exact childBoxes_boxesBytes fun box hbox =>
    ⟨hnames box hbox, hsizes box hbox⟩

/-- Any bytes are walked to an end in rounds that each take a whole box off
what is left, and the boxes returned are those the bytes consist of and cover
them exactly.  Boxes are written where their sizes fit and then read back. -/
theorem boxes_tile_and_read_back :
    (∀ data, Loop.Ends childBoxesRound (data, []) (childBoxes data)) ∧
    (∀ data child, boxPayload data 0 = .ok child →
      8 ≤ child.size ∧ child.size ≤ data.length) ∧
    (∀ data boxes, childBoxes data = .ok boxes ↔ Tiled data boxes) ∧
    (∀ data boxes, childBoxes data = .ok boxes →
      Tiles 0 (boxSpans 0 boxes) data.length ∧
        List.Forall₂ (fun span box => ∃ form : SizeForm,
            readRange data ⟨span.1, box.size⟩ = form.bytes box)
          (boxSpans 0 boxes) boxes) ∧
    (∀ boxes : List BoxSpec, (∀ box ∈ boxes, box.1.length = 4) →
      (∀ box ∈ boxes, box.2.length + 8 < 2 ^ 32) →
        ∃ written,
          boxes.mapM (fun box => writeBox box.1 box.2) = .ok written ∧
            childBoxes written.flatten = .ok (boxes.map BoxSpec.raw)) := by
  refine ⟨childBoxesRound_ends, fun _ _ hchild => boxPayload_size_le hchild,
    fun _ _ => childBoxes_eq_ok_iff, fun data boxes hboxes => ?_,
    fun boxes hnames hsizes => ?_⟩
  · have htiled := childBoxes_eq_ok_iff.mp hboxes
    have htiles := htiled.tiles 0
    rw [Nat.zero_add] at htiles
    exact ⟨htiles, @Tiled.whole data [] boxes htiled⟩
  · have hwritten := writeBoxes_eq_ok_iff.mpr ⟨hsizes, rfl⟩
    exact ⟨_, hwritten, childBoxes_flatten_written hnames hwritten⟩

/-- Two boxes that are written, and then read. -/
theorem boxes_tile_and_read_back_moov :
    ∃ written,
      [(code 'f' 't' 'y' 'p', [1, 2]), (code 'm' 'o' 'o' 'v', [])].mapM
          (fun box => writeBox box.1 box.2) = .ok written ∧
        childBoxes written.flatten =
          .ok [⟨code 'f' 't' 'y' 'p', [1, 2], 10⟩,
            ⟨code 'm' 'o' 'o' 'v', [], 8⟩] := by
  obtain ⟨-, -, -, -, hread⟩ := boxes_tile_and_read_back
  exact hread [(code 'f' 't' 'y' 'p', [1, 2]), (code 'm' 'o' 'o' 'v', [])]
    (by decide) (by decide)

/-- The long form, and a box up to the end. -/
example :
    childBoxes ([0, 0, 0, 1, 102, 114, 101, 101, 0, 0, 0, 0, 0, 0, 0, 17, 7] ++
        [0, 0, 0, 0, 109, 100, 97, 116, 8, 9]) =
      .ok [⟨code 'f' 'r' 'e' 'e', [7], 17⟩, ⟨code 'm' 'd' 'a' 't', [8, 9], 10⟩] := by
  decide

end Segmentor
