import Segmentor.General.BigEndian

/-!
# Parts behind their lengths

Byte strings written one after another, each behind its length in eight
bytes.  The parts are found again, where each is short enough to say how long
it is.
-/

namespace Segmentor.General

/-- One part, behind its length. -/
def frame (part : List UInt8) : List UInt8 :=
  encode 8 part.length ++ part

def lengthFramed (parts : List (List UInt8)) : List UInt8 :=
  parts.flatMap frame

/-- Every part's length fits a word. -/
def Framable (parts : List (List UInt8)) : Prop :=
  ∀ part ∈ parts, part.length < 2 ^ 64

theorem Framable.append {parts others : List (List UInt8)}
    (h : Framable parts) (hothers : Framable others) :
    Framable (parts ++ others) :=
  List.forall_mem_append.mpr ⟨h, hothers⟩

theorem encode_inj {width m n : ℕ} (hm : m < 256 ^ width)
    (hn : n < 256 ^ width) (h : encode width m = encode width n) : m = n := by
  rw [← decode_encode_of_lt hm, h, decode_encode_of_lt hn]

theorem frame_append_inj {part other rest more : List UInt8}
    (hpart : part.length < 2 ^ 64) (hother : other.length < 2 ^ 64)
    (h : frame part ++ rest = frame other ++ more) :
    part = other ∧ rest = more := by
  unfold frame at h
  rw [List.append_assoc, List.append_assoc] at h
  obtain ⟨hlength, hbytes⟩ := List.append_inj h (by simp)
  have hsame := encode_inj (by norm_num; omega) (by norm_num; omega) hlength
  exact List.append_inj hbytes hsame

theorem frame_ne_nil (part : List UInt8) : frame part ≠ [] := by
  intro h
  have hlength := congrArg List.length h
  simp [frame] at hlength

theorem lengthFramed_inj {parts others : List (List UInt8)} (hparts : Framable parts)
    (hothers : Framable others) (h : lengthFramed parts = lengthFramed others) :
    parts = others := by
  induction parts generalizing others with
  | nil =>
      cases others with
      | nil => rfl
      | cons other others =>
          have hempty : frame other = [] :=
            (List.append_eq_nil_iff.mp h.symm).1
          exact absurd hempty (frame_ne_nil other)
  | cons part parts ih =>
      obtain ⟨hpart, hparts⟩ := List.forall_mem_cons.mp hparts
      cases others with
      | nil =>
          have hempty : frame part = [] := (List.append_eq_nil_iff.mp h).1
          exact absurd hempty (frame_ne_nil part)
      | cons other others =>
          obtain ⟨hother, hmore⟩ := List.forall_mem_cons.mp hothers
          obtain ⟨rfl, hrest⟩ := frame_append_inj hpart hother h
          rw [ih hparts hmore hrest]

end Segmentor.General
