import Mathlib.Tactic.Ring
import PathQuery.Uuid

/-!
# Identifiers read back

The digits of an identifier give its number again, and the hyphens between their groups are found
where they were put.
-/

namespace PathQuery

namespace Text

/-! ## Hexadecimal numerals -/

theorem length_hexDigits (width n : Nat) : (hexDigits width n).length = width := by
  induction width generalizing n with
  | zero => rfl
  | succ width ih => rw [hexDigits, List.length_append, ih, List.length_singleton]

theorem hexValue_digitChar : ∀ d < 16, hexValue (Nat.digitChar d) = some d := by
  decide

theorem hexValue_hexDigit (n : Nat) : hexValue (hexDigit n) = some (n % 16) :=
  hexValue_digitChar (n % 16) (Nat.mod_lt n (by decide))

theorem readHex_concat (acc : Nat) (cs : List Char) (c : Char) :
    readHex acc (cs ++ [c]) =
      (readHex acc cs).bind fun m => (hexValue c).map fun d => m * 16 + d := by
  induction cs generalizing acc with
  | nil => cases h : hexValue c <;> simp [readHex, h]
  | cons b cs ih =>
    simp only [List.cons_append, readHex, ih, Option.bind_assoc]

/-- So many digits give the number back up to what does not fit into them. -/
theorem readHex_hexDigits (width n : Nat) :
    readHex 0 (hexDigits width n) = some (n % 16 ^ width) := by
  induction width generalizing n with
  | zero => rw [pow_zero, Nat.mod_one]; rfl
  | succ width ih =>
    rw [hexDigits, readHex_concat, ih, Option.bind_some, hexValue_hexDigit, Option.map_some,
      pow_succ', Nat.mod_mul]
    congr 1
    ring

end Text

namespace Uuid

open PathQuery.Text

theorem length_plain (u : Uuid) : u.plain.length = 32 :=
  length_hexDigits 32 _

theorem ofPlain?_plain (u : Uuid) : ofPlain? u.plain = some u := by
  have hvalue : u.value.toNat % 16 ^ 32 = u.value.toNat := by
    refine Nat.mod_eq_of_lt ?_
    have hlt := u.value.isLt
    norm_num at hlt ⊢
    exact hlt
  rw [ofPlain?, if_pos u.length_plain, plain, readHex_hexDigits, hvalue, Option.map_some,
    BitVec.ofNat_toNat, BitVec.setWidth_eq]

/-! ## Hyphens -/

-- Each hyphen stands behind its group, so that what is dropped before a group ends with one.
theorem unhyphenate?_groups {a b c d e : List Char} (ha : a.length = 8) (hb : b.length = 4)
    (hc : c.length = 4) (hd : d.length = 4) (he : e.length = 12) :
    unhyphenate? (a ++ '-' :: (b ++ '-' :: (c ++ '-' :: (d ++ '-' :: e)))) =
      some (a ++ (b ++ (c ++ (d ++ e)))) := by
  rw [unhyphenate?, if_pos (by simp [ha, hb, hc, hd, he])]
  simp [List.drop_append, List.drop_of_length_le, ha, hb, hc, hd]

theorem take_drop_append {α : Type} (xs : List α) (m k : Nat) :
    (xs.drop m).take k ++ xs.drop (m + k) = xs.drop m := by
  rw [← List.drop_drop, List.take_append_drop]

theorem unhyphenate?_hyphenate {ds : List Char} (h : ds.length = 32) :
    unhyphenate? (hyphenate ds) = some ds := by
  rw [hyphenate, unhyphenate?_groups (by simp [h]) (by simp [h]) (by simp [h]) (by simp [h])
    (by simp [h]), take_drop_append ds 16 4, take_drop_append ds 12 4, take_drop_append ds 8 4,
    List.take_append_drop]

theorem length_hyphenate {ds : List Char} (h : ds.length = 32) : (hyphenate ds).length = 36 := by
  simp [hyphenate, h]

/-- An identifier reads back from its written form. -/
theorem read?_text (u : Uuid) : read? u.text = some u := by
  have hlen : u.text.length = 36 := length_hyphenate u.length_plain
  have hread : read? u.text = ofHyphenated? u.text := by
    rw [read?, hlen]
    rfl
  rw [hread, ofHyphenated?, text, unhyphenate?_hyphenate u.length_plain, Option.bind_some,
    ofPlain?_plain]

end Uuid

end PathQuery
