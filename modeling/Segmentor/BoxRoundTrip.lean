import Segmentor.FragmentWriter

/-!
# Reading back what is written

A reader gives back each field the writer put in front of what is left, and
walking the children of a box gives back the boxes written into it.
-/

namespace Segmentor

open General

/-! ## Fields -/

namespace Reader

theorem take_append {bytes : List UInt8} {count : ℕ}
    (hlength : bytes.length = count) (rest : List UInt8) :
    (take count).run (bytes ++ rest) = .ok (bytes, rest) := by
  subst hlength
  simp [take, StateT.run]

theorem u8_append {n : ℕ} (hn : n < 2 ^ 8) (rest : List UInt8) :
    u8.run (encode 1 n ++ rest) = .ok (n, rest) := by
  unfold u8
  rw [StateT.run_bind, take_append (length_encode 1 n), ok_bind]
  simp only [decode_encode_of_lt (show n < 256 ^ 1 by omega)]
  rfl

theorem u16_append {n : ℕ} (hn : n < 2 ^ 16) (rest : List UInt8) :
    u16.run (encode 2 n ++ rest) = .ok (n, rest) := by
  unfold u16
  rw [StateT.run_bind, take_append (length_encode 2 n), ok_bind]
  simp only [decode_encode_of_lt (show n < 256 ^ 2 by omega)]
  rfl

theorem u32_append {n : ℕ} (hn : n < 2 ^ 32) (rest : List UInt8) :
    u32.run (encode 4 n ++ rest) = .ok (n, rest) := by
  unfold u32
  rw [StateT.run_bind, take_append (length_encode 4 n), ok_bind]
  simp only [decode_encode_of_lt (show n < 256 ^ 4 by omega)]
  rfl

theorem i32_append {z : ℤ} (hlow : -2 ^ 31 ≤ z) (hhigh : z < 2 ^ 31)
    (rest : List UInt8) :
    i32.run (encode 4 (toWord 32 z) ++ rest) = .ok (z, rest) := by
  have hword := toWord_lt 32 z
  unfold i32
  rw [StateT.run_bind, take_append (length_encode 4 _), ok_bind]
  simp only [decode_encode_of_lt (show toWord 32 z < 256 ^ 4 by omega),
    ofWord_toWord hlow hhigh]
  rfl

theorem fullBoxFlags_append {version flags : ℕ} (hversion : version < 2 ^ 8)
    (hflags : flags < 2 ^ 24) (rest : List UInt8) :
    fullBoxFlags.run (writeFullBoxFields version flags ++ rest) =
      .ok ((version, flags), rest) := by
  unfold fullBoxFlags writeFullBoxFields
  rw [StateT.run_bind, List.append_assoc, u8_append hversion, ok_bind,
    StateT.run_bind, drop_encode, take_append (length_encode 3 _), ok_bind]
  simp only [decode_encode_of_lt (show flags < 256 ^ 3 by omega)]
  rfl

theorem fullBox_append {version flags : ℕ} (hversion : version < 2 ^ 8)
    (rest : List UInt8) :
    fullBox.run (writeFullBoxFields version flags ++ rest) =
      .ok (version, rest) := by
  unfold fullBox writeFullBoxFields skip
  rw [StateT.run_bind, List.append_assoc, u8_append hversion, ok_bind,
    StateT.run_bind, StateT.run_bind, drop_encode,
    take_append (length_encode 3 _)]
  rfl

theorem run_bind_eq_ok {α β : Type} {first : Reader α}
    {next : α → Reader β} {unread : List UInt8} {result : β × List UInt8}
    (h : (first >>= next).run unread = .ok result) :
    ∃ a rest, first.run unread = .ok (a, rest) ∧
      (next a).run rest = .ok result := by
  rw [StateT.run_bind] at h
  obtain ⟨⟨a, rest⟩, hfirst, hnext⟩ := bind_eq_ok_iff.mp h
  exact ⟨a, rest, hfirst, hnext⟩

theorem run_lift_eq_ok {α : Type} {x : Except Error α} {a : α}
    {unread rest : List UInt8}
    (h : (StateT.lift x : Reader α).run unread = .ok (a, rest)) :
    x = .ok a ∧ unread = rest := by
  obtain ⟨found, hfound, hpair⟩ := bind_eq_ok_iff.mp h
  obtain ⟨rfl, rfl⟩ := Prod.mk.inj (Except.ok.inj hpair)
  exact ⟨hfound, rfl⟩

theorem run'_eq_ok_iff {α : Type} {reader : Reader α} {a : α}
    {unread : List UInt8} :
    reader.run' unread = .ok a ↔ ∃ rest, reader.run unread = .ok (a, rest) := by
  rw [StateT.run'_eq]
  cases reader.run unread with
  | error e => simp
  | ok result => simp [Prod.ext_iff]

theorem take_eq_ok {count : ℕ} {unread bytes rest : List UInt8}
    (h : (take count).run unread = .ok (bytes, rest)) :
    bytes.length = count ∧ unread = bytes ++ rest := by
  simp only [take, StateT.run] at h
  split at h
  · simp at h
  · obtain ⟨rfl, rfl⟩ := Prod.mk.inj (Except.ok.inj h)
    exact ⟨List.length_take_of_le (by omega),
      (List.take_append_drop count unread).symm⟩

theorem u32_eq_ok {n : ℕ} {unread rest : List UInt8}
    (h : u32.run unread = .ok (n, rest)) :
    n < 2 ^ 32 ∧ unread = encode 4 n ++ rest := by
  unfold u32 at h
  obtain ⟨bytes, after, htake, hpure⟩ := run_bind_eq_ok h
  obtain ⟨hlength, rfl⟩ := take_eq_ok htake
  obtain ⟨rfl, rfl⟩ := Prod.mk.inj (Except.ok.inj hpure)
  have hlt := decode_lt bytes
  rw [hlength] at hlt
  refine ⟨by omega, ?_⟩
  rw [← hlength, encode_decode]

theorem u64_lt {n : ℕ} {unread rest : List UInt8}
    (h : u64.run unread = .ok (n, rest)) : n < 2 ^ 64 := by
  unfold u64 at h
  obtain ⟨bytes, after, htake, hpure⟩ := run_bind_eq_ok h
  obtain ⟨hlength, -⟩ := take_eq_ok htake
  obtain ⟨rfl, -⟩ := Prod.mk.inj (Except.ok.inj hpure)
  have hlt := decode_lt bytes
  rw [hlength] at hlt
  exact hlt

@[simp] theorem run_optional_true {α : Type} {field : Reader α}
    (unread : List UInt8) :
    (optional true field).run unread =
      (field.run unread).map fun (a, rest) => (some a, rest) := by
  unfold optional
  rw [if_pos rfl, StateT.run_map]
  cases field.run unread <;> rfl

@[simp] theorem run_optional_false {α : Type} {field : Reader α}
    (unread : List UInt8) :
    (optional false field).run unread = .ok (none, unread) := rfl

@[simp] theorem run_lift_ok {α : Type} (a : α) (unread : List UInt8) :
    (StateT.lift (.ok a) : Reader α).run unread = .ok (a, unread) := rfl

/-! ### Fields that were read -/

theorem run_bind_eq_ok_iff {α β : Type} {first : Reader α}
    {next : α → Reader β} {unread : List UInt8} {result : β × List UInt8} :
    (first >>= next).run unread = .ok result ↔
      ∃ a rest, first.run unread = .ok (a, rest) ∧
        (next a).run rest = .ok result := by
  constructor
  · exact run_bind_eq_ok
  · rintro ⟨a, rest, hfirst, hnext⟩
    rw [StateT.run_bind, hfirst]
    exact hnext

theorem run_pure_eq_ok_iff {α : Type} {a b : α} {unread rest : List UInt8} :
    (pure a : Reader α).run unread = .ok (b, rest) ↔ b = a ∧ unread = rest := by
  rw [StateT.run_pure]
  change Except.ok (a, unread) = Except.ok (b, rest) ↔ _
  rw [Except.ok.injEq, Prod.mk.injEq, eq_comm (a := a)]

theorem run_lift_eq_ok_iff {α : Type} {x : Except Error α} {a : α}
    {unread rest : List UInt8} :
    (StateT.lift x : Reader α).run unread = .ok (a, rest) ↔
      x = .ok a ∧ unread = rest := by
  constructor
  · exact run_lift_eq_ok
  · rintro ⟨rfl, rfl⟩
    rfl

theorem take_eq_ok_iff {count : ℕ} {unread bytes rest : List UInt8} :
    (take count).run unread = .ok (bytes, rest) ↔
      bytes.length = count ∧ unread = bytes ++ rest := by
  constructor
  · exact take_eq_ok
  · rintro ⟨hlength, rfl⟩
    exact take_append hlength rest

theorem skip_eq_ok_iff {count : ℕ} {unread rest : List UInt8} {read : Unit} :
    (skip count).run unread = .ok (read, rest) ↔
      ∃ bytes, bytes.length = count ∧ unread = bytes ++ rest := by
  unfold skip
  rw [run_bind_eq_ok_iff]
  constructor
  · rintro ⟨bytes, after, htake, hpure⟩
    obtain ⟨-, rfl⟩ := run_pure_eq_ok_iff.mp hpure
    exact ⟨bytes, take_eq_ok_iff.mp htake⟩
  · rintro ⟨bytes, htake⟩
    exact ⟨bytes, rest, take_eq_ok_iff.mpr htake, rfl⟩

theorem skip_append {bytes : List UInt8} {count : ℕ}
    (h : bytes.length = count) (rest : List UInt8) :
    (skip count).run (bytes ++ rest) = .ok ((), rest) :=
  skip_eq_ok_iff.mpr ⟨bytes, h, rfl⟩

theorem word_eq_ok_iff {width n : ℕ} {unread rest : List UInt8} :
    (do let bytes ← take width; return decode bytes : Reader ℕ).run unread =
        .ok (n, rest) ↔
      n < 256 ^ width ∧ unread = encode width n ++ rest := by
  rw [run_bind_eq_ok_iff]
  constructor
  · rintro ⟨bytes, after, htake, hpure⟩
    obtain ⟨rfl, rfl⟩ := take_eq_ok htake
    obtain ⟨rfl, rfl⟩ := run_pure_eq_ok_iff.mp hpure
    exact ⟨decode_lt bytes, by rw [encode_decode]⟩
  · rintro ⟨hn, rfl⟩
    refine ⟨_, rest, take_append (length_encode width n) rest, ?_⟩
    rw [decode_encode_of_lt hn]
    rfl

theorem u8_eq_ok_iff {n : ℕ} {unread rest : List UInt8} :
    u8.run unread = .ok (n, rest) ↔
      n < 2 ^ 8 ∧ unread = encode 1 n ++ rest :=
  word_eq_ok_iff

theorem u16_eq_ok_iff {n : ℕ} {unread rest : List UInt8} :
    u16.run unread = .ok (n, rest) ↔
      n < 2 ^ 16 ∧ unread = encode 2 n ++ rest :=
  word_eq_ok_iff

theorem u32_eq_ok_iff {n : ℕ} {unread rest : List UInt8} :
    u32.run unread = .ok (n, rest) ↔
      n < 2 ^ 32 ∧ unread = encode 4 n ++ rest :=
  word_eq_ok_iff

theorem u64_eq_ok_iff {n : ℕ} {unread rest : List UInt8} :
    u64.run unread = .ok (n, rest) ↔
      n < 2 ^ 64 ∧ unread = encode 8 n ++ rest :=
  word_eq_ok_iff

theorem fullBox_eq_ok_iff {version : ℕ} {unread rest : List UInt8} :
    fullBox.run unread = .ok (version, rest) ↔
      version < 2 ^ 8 ∧ ∃ flags, flags.length = 3 ∧
        unread = encode 1 version ++ (flags ++ rest) := by
  unfold fullBox
  simp only [run_bind_eq_ok_iff, u8_eq_ok_iff, skip_eq_ok_iff,
    run_pure_eq_ok_iff]
  constructor
  · rintro ⟨n, after, ⟨hn, rfl⟩, _, _, ⟨flags, hflags, rfl⟩, rfl, rfl⟩
    exact ⟨hn, flags, hflags, rfl⟩
  · rintro ⟨hversion, flags, hflags, rfl⟩
    exact ⟨_, _, ⟨hversion, rfl⟩, (), _, ⟨flags, hflags, rfl⟩, rfl, rfl⟩

theorem fullBoxFlags_eq_ok_iff {version flags : ℕ}
    {unread rest : List UInt8} :
    fullBoxFlags.run unread = .ok ((version, flags), rest) ↔
      version < 2 ^ 8 ∧ flags < 2 ^ 24 ∧
        unread = writeFullBoxFields version flags ++ rest := by
  unfold fullBoxFlags writeFullBoxFields
  simp only [run_bind_eq_ok_iff, u8_eq_ok_iff, take_eq_ok_iff,
    run_pure_eq_ok_iff, Prod.mk.injEq, drop_encode]
  constructor
  · rintro ⟨n, after, ⟨hn, rfl⟩, bytes, _, ⟨hbytes, rfl⟩, ⟨rfl, rfl⟩, rfl⟩
    have hlt := decode_lt bytes
    rw [hbytes] at hlt
    refine ⟨hn, hlt, ?_⟩
    have hencode := encode_decode bytes
    rw [hbytes] at hencode
    rw [hencode, List.append_assoc]
  · rintro ⟨hversion, hflags, rfl⟩
    refine ⟨_, _, ⟨hversion, List.append_assoc ..⟩, _, _,
      ⟨length_encode 3 flags, rfl⟩, ⟨rfl, ?_⟩, rfl⟩
    rw [decode_encode_of_lt (by omega)]

theorem optional_true_eq_ok_iff {α : Type} {field : Reader α}
    {found : Option α} {unread rest : List UInt8} :
    (optional true field).run unread = .ok (found, rest) ↔
      ∃ a, field.run unread = .ok (a, rest) ∧ found = some a := by
  rw [run_optional_true]
  cases field.run unread with
  | error e => simp [Except.map]
  | ok result =>
      obtain ⟨a, after⟩ := result
      simp only [Except.map, Except.ok.injEq, Prod.mk.injEq]
      constructor
      · rintro ⟨rfl, rfl⟩
        exact ⟨a, ⟨rfl, rfl⟩, rfl⟩
      · rintro ⟨_, ⟨rfl, rfl⟩, rfl⟩
        exact ⟨rfl, rfl⟩

theorem optional_false_eq_ok_iff {α : Type} {field : Reader α}
    {found : Option α} {unread rest : List UInt8} :
    (optional false field).run unread = .ok (found, rest) ↔
      found = none ∧ unread = rest := by
  rw [run_optional_false, Except.ok.injEq, Prod.mk.injEq, eq_comm]

end Reader

/-! ## Boxes -/

/-- A box with a 32-bit size. -/
def boxBytes (name payload : List UInt8) : List UInt8 :=
  encode 4 (payload.length + 8) ++ name ++ payload

theorem writeBox_eq_ok_iff {name payload bytes : List UInt8} :
    writeBox name payload = .ok bytes ↔
      payload.length + 8 < 2 ^ 32 ∧ boxBytes name payload = bytes := by
  unfold writeBox writeBoxHeader boxBytes
  by_cases hsize : payload.length + 8 < 2 ^ 32
  · have hadd : checkedAdd (2 ^ 64) payload.length 8 =
        some (payload.length + 8) :=
      checkedAdd_eq_some_iff.mpr ⟨by omega, rfl⟩
    rw [hadd]
    simp only [okOr_some, ok_bind, if_pos hsize, Except.ok.injEq]
    simp only [hsize, true_and]
  · constructor
    · intro hrun
      obtain ⟨size, hadd, hrun⟩ := bind_eq_ok_iff.mp hrun
      obtain ⟨-, rfl⟩ := checkedAdd_eq_some_iff.mp (okOr_eq_ok_iff.mp hadd)
      rw [if_neg hsize] at hrun
      simp at hrun
    · intro h
      exact absurd h.1 hsize

theorem length_boxBytes {name : List UInt8} (hname : name.length = 4)
    (payload : List UInt8) :
    (boxBytes name payload).length = payload.length + 8 := by
  simp [boxBytes, hname]
  omega

@[simp] theorem length_boxBytes_code (a b c d : Char) (payload : List UInt8) :
    (boxBytes (code a b c d) payload).length = payload.length + 8 :=
  length_boxBytes rfl payload

theorem boxPayload_append {name payload : List UInt8} (hname : name.length = 4)
    (hsize : payload.length + 8 < 2 ^ 32) (rest : List UInt8) :
    boxPayload (boxBytes name payload ++ rest) 0 =
      .ok ⟨name, payload, payload.length + 8⟩ := by
  have hheader : (boxBytes name payload ++ rest).take 8 =
      encode 4 (payload.length + 8) ++ name := by
    unfold boxBytes
    rw [List.append_assoc, List.take_left' (by simp [hname])]
  have hbody : ((boxBytes name payload ++ rest).drop 8).take payload.length =
      payload := by
    unfold boxBytes
    rw [List.append_assoc, List.drop_left' (by simp [hname]), List.take_left]
  have hdecode : decode (encode 4 (payload.length + 8)) = payload.length + 8 :=
    decode_encode_of_lt (by omega)
  unfold boxPayload
  simp only [List.drop_zero, hheader]
  rw [if_neg (by simp [hname])]
  simp only [List.take_left' (length_encode 4 _),
    List.drop_left' (length_encode 4 _), hdecode]
  rw [if_neg (by omega), if_neg (by omega), ok_bind]
  dsimp only
  rw [if_neg (by simp [length_boxBytes hname])]
  simp only [Nat.zero_add, Nat.add_sub_cancel, hbody]

theorem boxPayload_size_le {data : List UInt8} {child : RawBox}
    (hchild : boxPayload data 0 = .ok child) :
    8 ≤ child.size ∧ child.size ≤ data.length := by
  unfold boxPayload at hchild
  dsimp only at hchild
  split at hchild
  · simp at hchild
  obtain ⟨⟨size, headerSize⟩, hheader, hchild⟩ := bind_eq_ok_iff.mp hchild
  have hheaderSize : 8 ≤ headerSize := by
    split at hheader
    · split at hheader
      · simp at hheader
      · have := congrArg Prod.snd (Except.ok.inj hheader)
        simp only at this
        omega
    · split at hheader
      all_goals
        have := congrArg Prod.snd (Except.ok.inj hheader)
        simp only at this
        omega
  dsimp only at hchild
  split at hchild
  · simp at hchild
  · rename_i hbounds
    obtain rfl := Except.ok.inj hchild
    dsimp only
    omega

theorem childBoxesFuel_eq {fuel : ℕ} {data : List UInt8}
    (hfuel : data.length ≤ fuel) :
    childBoxesFuel fuel data = childBoxes data := by
  unfold childBoxes
  induction fuel using Nat.strong_induction_on generalizing data with
  | _ fuel ih =>
      cases data with
      | nil => cases fuel <;> rfl
      | cons byte bytes =>
          cases fuel with
          | zero => simp at hfuel
          | succ fuel =>
              rw [List.length_cons]
              unfold childBoxesFuel
              cases hchild : boxPayload (byte :: bytes) 0 with
              | error e => rfl
              | ok child =>
                  obtain ⟨hlow, hhigh⟩ := boxPayload_size_le hchild
                  have hrest : ((byte :: bytes).drop child.size).length ≤
                      bytes.length := by
                    rw [List.length_drop, List.length_cons]
                    omega
                  simp only [ok_bind]
                  rw [List.length_cons] at hfuel
                  rw [ih fuel (by omega) (by omega)]
                  by_cases heq : bytes.length = fuel
                  · rw [heq, ih fuel (by omega) (by omega)]
                  · rw [ih bytes.length (by omega) hrest]

theorem childBoxes_append {name payload : List UInt8} (hname : name.length = 4)
    (hsize : payload.length + 8 < 2 ^ 32) (rest : List UInt8) :
    childBoxes (boxBytes name payload ++ rest) = (do
      let children ← childBoxes rest
      .ok (⟨name, payload, payload.length + 8⟩ :: children)) := by
  have hlength := length_boxBytes hname payload
  cases hdata : boxBytes name payload ++ rest with
  | nil =>
      have := congrArg List.length hdata
      simp [hlength] at this
  | cons byte bytes =>
      have hbox := boxPayload_append hname hsize rest
      rw [hdata] at hbox
      have hdrop : (byte :: bytes).drop (payload.length + 8) = rest := by
        rw [← hdata, List.drop_left' hlength]
      have hfuel : rest.length ≤ bytes.length := by
        have := congrArg List.length hdata
        rw [List.length_append, hlength, List.length_cons] at this
        omega
      have hwalk : childBoxes (byte :: bytes) = (do
          let child ← boxPayload (byte :: bytes) 0
          let children ← childBoxesFuel bytes.length
            ((byte :: bytes).drop child.size)
          .ok (child :: children)) := rfl
      rw [hwalk, hbox]
      simp only [ok_bind, hdrop, childBoxesFuel_eq hfuel]

@[simp] theorem childBoxes_nil : childBoxes [] = .ok [] := rfl

/-- A box by its name and payload. -/
abbrev BoxSpec : Type := List UInt8 × List UInt8

/-- A box that can be written. -/
structure BoxSpec.Fits (box : BoxSpec) : Prop where
  name : box.1.length = 4
  size : box.2.length + 8 < 2 ^ 32

def boxesBytes (boxes : List BoxSpec) : List UInt8 :=
  boxes.flatMap fun box => boxBytes box.1 box.2

def BoxSpec.raw (box : BoxSpec) : RawBox where
  name := box.1
  payload := box.2
  size := box.2.length + 8

@[simp] theorem boxesBytes_append (boxes others : List BoxSpec) :
    boxesBytes (boxes ++ others) = boxesBytes boxes ++ boxesBytes others :=
  List.flatMap_append

@[simp] theorem boxesBytes_cons (box : BoxSpec) (boxes : List BoxSpec) :
    boxesBytes (box :: boxes) = boxBytes box.1 box.2 ++ boxesBytes boxes :=
  List.flatMap_cons

@[simp] theorem boxesBytes_nil : boxesBytes [] = [] := rfl

theorem childBoxes_boxesBytes {boxes : List BoxSpec}
    (h : ∀ box ∈ boxes, box.Fits) :
    childBoxes (boxesBytes boxes) = .ok (boxes.map BoxSpec.raw) := by
  induction boxes with
  | nil => rfl
  | cons box boxes ih =>
      obtain ⟨hbox, hboxes⟩ := List.forall_mem_cons.mp h
      rw [boxesBytes_cons, childBoxes_append hbox.name hbox.size, ih hboxes]
      rfl

theorem find?_eq_none_of_names {boxes : List BoxSpec} {name : List UInt8}
    (h : name ∉ boxes.map Prod.fst) :
    boxes.find? (fun box => box.1 == name) = none := by
  rw [List.find?_eq_none]
  intro box hbox hname
  exact h (List.mem_map.mpr ⟨box, hbox, beq_iff_eq.mp hname⟩)

theorem optionalChild_boxesBytes {boxes : List BoxSpec}
    (h : ∀ box ∈ boxes, box.Fits) (name : List UInt8) :
    optionalChild (boxesBytes boxes) name =
      .ok ((boxes.find? fun box => box.1 == name).map BoxSpec.raw) := by
  unfold optionalChild
  rw [childBoxes_boxesBytes h, ok_bind, List.find?_map]
  rfl

theorem requiredChild_boxesBytes {boxes : List BoxSpec} {name : List UInt8}
    {box : BoxSpec} (h : ∀ box ∈ boxes, box.Fits)
    (hfind : boxes.find? (fun box => box.1 == name) = some box) :
    requiredChild (boxesBytes boxes) name = .ok box.raw := by
  unfold requiredChild
  rw [optionalChild_boxesBytes h, hfind]
  rfl

end Segmentor
