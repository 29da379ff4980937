import Segmentor.General.Numerals
import Segmentor.MpdManifests

/-!
# Texts that need no escaping

Letters, digits, hyphens and dots stand for themselves in a playlist and in
XML alike.  Ids, languages, codec strings, keys and versions are made of
them.
-/

namespace Segmentor

open General

def isPlainChar (c : Char) : Bool :=
  c.isAlphanum || c == '-' || c == '.'

/-- A text of letters, digits, hyphens and dots. -/
def Text.Plain (text : Text) : Prop :=
  ∀ c ∈ text, isPlainChar c = true

instance (text : Text) : Decidable (Text.Plain text) :=
  List.decidableBAll _ text

/-- A text that stands for itself in an attribute value. -/
def Text.IsValue (text : Text) : Prop :=
  ∀ c ∈ text, Xml.isValueChar c = true

instance (text : Text) : Decidable (Text.IsValue text) :=
  List.decidableBAll _ text

/-! ## Characters -/

theorem isPlainChar_of_isAlphanum {c : Char} (h : c.isAlphanum = true) :
    isPlainChar c = true := by
  unfold isPlainChar
  rw [h]
  rfl

theorem isPlainChar_of_isDigit {c : Char} (h : c.isDigit = true) :
    isPlainChar c = true := by
  exact isPlainChar_of_isAlphanum (isAlphanum_iff.mpr (.inr h))

namespace Text

variable {a b : Text}

theorem Plain.append (ha : a.Plain) (hb : b.Plain) :
    Text.Plain (a ++ b) :=
  List.forall_mem_append.mpr ⟨ha, hb⟩

theorem Plain.cons {c : Char} (hc : isPlainChar c = true) (ha : a.Plain) :
    Text.Plain (c :: a) :=
  List.forall_mem_cons.mpr ⟨hc, ha⟩

/-- What is no plain character is in no plain text. -/
theorem Plain.free (h : a.Plain) {stops : List Char}
    (hstops : stops.any isPlainChar = false) : Free stops a := by
  intro c hc hstop
  exact List.any_eq_false.mp hstops c hstop (h c hc)

theorem IsValue.append (ha : a.IsValue) (hb : b.IsValue) :
    Text.IsValue (a ++ b) :=
  List.forall_mem_append.mpr ⟨ha, hb⟩

theorem plain_decimal (n : ℕ) : Text.Plain (decimal n) := by
  intro c hc
  apply isPlainChar_of_isDigit
  exact Nat.isDigit_of_mem_toDigits (by decide) (by decide) hc

theorem plain_padded (width n : ℕ) : Text.Plain (padded width n) := by
  intro c hc
  unfold padded at hc
  rcases List.mem_append.mp hc with hzero | hdigit
  · rw [(List.mem_replicate.mp hzero).2]
    decide
  · exact plain_decimal n c hdigit

theorem plain_hexString (bytes : List UInt8) :
    Text.Plain (hexString bytes).toList := by
  have hdigit : ∀ n : Fin 16, isPlainChar (hexDigit n) = true := by decide
  unfold hexString
  rw [String.toList_ofList]
  intro c hc
  obtain ⟨byte, -, hc⟩ := List.mem_flatMap.mp hc
  have hbyte := byte.toNat_lt
  have hhigh := hdigit ⟨byte.toNat / 16, by omega⟩
  have hlow := hdigit ⟨byte.toNat % 16, by omega⟩
  simp only [List.mem_cons, List.not_mem_nil, or_false] at hc
  rcases hc with rfl | rfl
  · exact hhigh
  · exact hlow

theorem plain_upperHex (n : ℕ) : Text.Plain (upperHex n) := by
  have hdigit : ∀ n : Fin 16, isPlainChar (upperHexDigit n) = true := by decide
  unfold upperHex
  split
  · decide
  · intro c hc
    obtain ⟨digit, hmem, rfl⟩ := List.mem_map.mp hc
    rw [List.mem_reverse] at hmem
    exact hdigit ⟨digit, Nat.digits_lt_base (by decide) hmem⟩

theorem plain_hevc (record : HevcRecord) : Text.Plain record.codecs := by
  unfold HevcRecord.codecs
  refine Plain.append ?_ (.cons (by decide) (Plain.append
    (Plain.append ?_ (plain_decimal _)) (.cons (by decide)
      (Plain.append (plain_upperHex _) (.cons (by decide) (.cons ?_
        (Plain.append (plain_decimal _) ?_)))))))
  · cases record.tag <;> decide
  · split <;> decide
  · split <;> decide
  · intro c hc
    obtain ⟨byte, -, hc⟩ := List.mem_flatMap.mp hc
    rcases List.mem_cons.mp hc with rfl | hc
    · decide
    · exact plain_upperHex _ c hc

theorem plain_av1 (profileAndLevel flags : UInt8) :
    Text.Plain (av1Codecs profileAndLevel flags) := by
  unfold av1Codecs
  refine Plain.append (Plain.append (by decide) (plain_decimal _))
    (.cons (by decide) (Plain.append (plain_padded _ _)
      (.cons ?_ (.cons (by decide) (plain_padded _ _)))))
  split <;> decide

theorem plain_codecs (codec : CodecConfig) : Text.Plain codec.codecs := by
  cases codec with
  | avc width height profile compatibility level =>
      exact Plain.append (by decide) (plain_hexString _)
  | hevc width height record => exact plain_hevc record
  | vp9 width height profile level depthAndSampling =>
      exact Plain.append (Plain.append (by decide) (plain_padded _ _))
        (.cons (by decide) (Plain.append (plain_padded _ _)
          (.cons (by decide) (plain_padded _ _))))
  | av1 width height profileAndLevel flags => exact plain_av1 _ _
  | aac sampleRate channels objectType =>
      exact Plain.append (by decide) (plain_decimal _)
  | ac3 => exact (by decide : Text.Plain "ac-3".toList)
  | eac3 => exact (by decide : Text.Plain "ec-3".toList)
  | opus => exact (by decide : Text.Plain "opus".toList)
  | flac => exact (by decide : Text.Plain "fLaC".toList)

end Text

end Segmentor
