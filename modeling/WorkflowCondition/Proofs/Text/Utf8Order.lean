import Mathlib.Algebra.Group.Nat.Defs
import Mathlib.Tactic.SplitIfs

/-!
# The order of strings in UTF-8

Strings are ordered by their characters, the first difference deciding, and this is the order of
their bytes in UTF-8 as well. A character is a first byte, which says how many bytes go on with it,
and then the digits of its number to the base 64 (`utf8EncodeChar_eq`). Of two characters the first
bytes decide, or else they have the same number of digits and these decide
(`utf8EncodeChar_append_lt`). So a map from strings that keeps the order finds it again:
`isLexOrder_utf8Bytes`, `isLexOrder_codePoints`.
-/

namespace WorkflowCondition

/-- The bytes of a string in UTF-8. -/
def utf8Bytes (s : String) : List UInt8 :=
  s.toUTF8.data.toList

/-- The numbers of the characters of a string. -/
def codePoints (s : String) : List Nat :=
  s.toList.map Char.toNat

/-! ## Bytes of a character -/

/-- How many bytes go on with the character of a number. -/
def tailLength (v : Nat) : Nat :=
  if v ≤ 0x7F then 0 else if v ≤ 0x7FF then 1 else if v ≤ 0xFFFF then 2 else 3

/-- What is added to a first byte by the number of bytes that go on with it. -/
def leadMark : Nat → Nat
  | 0 => 0
  | 1 => 0xC0
  | 2 => 0xE0
  | _ => 0xF0

/-- The first byte of the character of a number. -/
def leadByte (v : Nat) : Nat :=
  v / 64 ^ tailLength v + leadMark (tailLength v)

/-- The last `n` digits of a number to the base 64, each marked as a byte that goes on. -/
def tailBytes (v : Nat) : Nat → List UInt8
  | 0 => []
  | n + 1 => .ofNat (v / 64 ^ n % 64 + 0x80) :: tailBytes v n

theorem ofNat_lt_ofNat {m n : Nat} (h : m < n) (hn : n < 256) : UInt8.ofNat m < UInt8.ofNat n := by
  rw [UInt8.ofNat_lt_iff (Nat.lt_trans h hn), UInt8.toNat_ofNat_of_lt' hn]
  exact h

theorem char_toNat_lt (c : Char) : c.toNat < 0x110000 := by
  obtain h | ⟨-, h⟩ := c.valid
  · exact Nat.lt_trans h (by decide)
  · exact h

/-- The digits in front of the last ones fit into the first byte. -/
theorem utf8EncodeChar_eq (c : Char) : String.utf8EncodeChar c =
    .ofNat (leadByte c.toNat) :: tailBytes c.toNat (tailLength c.toNat) := by
  have hc := char_toNat_lt c
  have hval : c.val.toNat = c.toNat := rfl
  simp only [String.utf8EncodeChar, hval, leadByte, tailLength]
  split_ifs
  · simp only [leadMark, tailBytes, Nat.reducePow, Nat.div_one, Nat.add_zero]
  · have hlead : c.toNat / 64 % 0x20 = c.toNat / 64 := by omega
    simp only [leadMark, tailBytes, Nat.reducePow, Nat.div_one, hlead]
  · have hlead : c.toNat / 4096 % 0x10 = c.toNat / 4096 := by omega
    simp only [leadMark, tailBytes, Nat.reducePow, Nat.div_one, hlead]
  · have hlead : c.toNat / 262144 % 0x08 = c.toNat / 262144 := by omega
    simp only [leadMark, tailBytes, Nat.reducePow, Nat.div_one, hlead]

section

variable {v w : Nat}

theorem leadByte_lt (hv : v < 0x110000) : leadByte v < 256 := by
  rw [leadByte, tailLength]
  split_ifs <;> simp only [leadMark, Nat.reducePow] <;> omega

theorem leadByte_le (h : v ≤ w) (hw : w < 0x110000) : leadByte v ≤ leadByte w := by
  rw [leadByte, leadByte, tailLength, tailLength]
  split_ifs <;> simp only [leadMark, Nat.reducePow] <;> omega

/-- The first byte tells how many bytes there are. -/
theorem tailLength_eq (hv : v < 0x110000) (hw : w < 0x110000) (h : leadByte v = leadByte w) :
    tailLength v = tailLength w := by
  rw [leadByte, leadByte, tailLength, tailLength] at h
  rw [tailLength, tailLength]
  split_ifs at * <;> simp only [leadMark, Nat.reducePow] at h <;> omega

/-- Of two numbers with the same digits in front of the last ones these decide. -/
theorem tailBytes_append_lt {n : Nat} (h : v < w) (hfront : v / 64 ^ n = w / 64 ^ n)
    (x y : List UInt8) : tailBytes v n ++ x < tailBytes w n ++ y := by
  induction n with
  | zero =>
    rw [Nat.pow_zero, Nat.div_one, Nat.div_one] at hfront
    exact absurd hfront (Nat.ne_of_lt h)
  | succ n ih =>
    rw [Nat.pow_succ, ← Nat.div_div_eq_div_mul, ← Nat.div_div_eq_div_mul] at hfront
    rw [tailBytes, tailBytes, List.cons_append, List.cons_append, List.cons_lt_cons_iff]
    have hle : v / 64 ^ n ≤ w / 64 ^ n := Nat.div_le_div_right (Nat.le_of_lt h)
    by_cases heq : v / 64 ^ n = w / 64 ^ n
    · exact .inr ⟨by rw [heq], ih heq⟩
    · left
      exact ofNat_lt_ofNat (by omega) (by omega)

end

/-- The bytes of two characters differ before either of them ends. -/
theorem utf8EncodeChar_append_lt {c d : Char} (h : c < d) (x y : List UInt8) :
    String.utf8EncodeChar c ++ x < String.utf8EncodeChar d ++ y := by
  have hlt : c.toNat < d.toNat := h
  have hc := char_toNat_lt c
  have hd := char_toNat_lt d
  rw [utf8EncodeChar_eq, utf8EncodeChar_eq, List.cons_append, List.cons_append,
    List.cons_lt_cons_iff]
  obtain hlead | hlead := Nat.lt_or_eq_of_le (leadByte_le (Nat.le_of_lt hlt) hd)
  · left
    exact ofNat_lt_ofNat hlead (leadByte_lt hd)
  · have htail := tailLength_eq hc hd hlead
    refine .inr ⟨congrArg UInt8.ofNat hlead, ?_⟩
    rw [leadByte, leadByte, htail] at hlead
    rw [htail]
    exact tailBytes_append_lt hlt (Nat.add_right_cancel hlead) x y

/-! ## Strings -/

theorem utf8Bytes_eq (s : String) : utf8Bytes s = s.toList.flatMap String.utf8EncodeChar := by
  rw [utf8Bytes, String.toUTF8_eq_toByteArray, ← String.utf8Encode_toList]
  exact List.toList_data_toByteArray

/-- By induction on the first difference between the strings. -/
theorem flatMap_utf8EncodeChar_lt {cs ds : List Char} (h : cs < ds) :
    cs.flatMap String.utf8EncodeChar < ds.flatMap String.utf8EncodeChar := by
  induction h with
  | nil =>
    rw [List.flatMap_cons, utf8EncodeChar_eq]
    exact List.nil_lt_cons _ _
  | rel h => exact utf8EncodeChar_append_lt h _ _
  | cons h ih => exact List.append_left_lt ih

theorem utf8Bytes_lt {s t : String} (h : s < t) : utf8Bytes s < utf8Bytes t := by
  rw [utf8Bytes_eq, utf8Bytes_eq]
  exact flatMap_utf8EncodeChar_lt h

theorem codePoints_lt {s t : String} (h : s < t) : codePoints s < codePoints t :=
  List.map_lt (fun _ _ hlt => hlt) h

/-- The order `o` is that of two sequences in which the first difference counts, and a sequence
comes before those that go on with it. -/
structure IsLexOrder {α : Type} [LT α] (o : Ordering) (x y : List α) : Prop where
  lt_iff : o = .lt ↔ x < y
  eq_iff : o = .eq ↔ x = y
  gt_iff : o = .gt ↔ y < x

section

variable {α : Type} [LT α] [Std.Asymm (· < · : α → α → Prop)]

theorem IsLexOrder.refl (x : List α) : IsLexOrder .eq x x :=
  ⟨iff_of_false (by decide) (List.lt_irrefl x), iff_of_true rfl rfl,
    iff_of_false (by decide) (List.lt_irrefl x)⟩

theorem IsLexOrder.of_lt {x y : List α} (h : x < y) : IsLexOrder .lt x y := by
  refine ⟨iff_of_true rfl h, iff_of_false (by decide) ?_,
    iff_of_false (by decide) (List.lt_asymm h)⟩
  rintro rfl
  exact List.lt_irrefl x h

theorem IsLexOrder.of_gt {x y : List α} (h : y < x) : IsLexOrder .gt x y := by
  refine ⟨iff_of_false (by decide) (List.lt_asymm h), iff_of_false (by decide) ?_,
    iff_of_true rfl h⟩
  rintro rfl
  exact List.lt_irrefl x h

/-- A map that keeps the order of strings shows it. -/
theorem isLexOrder_of_lt {f : String → List α} (hf : ∀ {s t : String}, s < t → f s < f t)
    (s t : String) : IsLexOrder (compare s t) (f s) (f t) := by
  have hcompare : compare s t = if s < t then .lt else if s = t then .eq else .gt := rfl
  rw [hcompare]
  split_ifs with hlt heq
  · exact .of_lt (hf hlt)
  · rw [heq]
    exact .refl (f t)
  · exact .of_gt (hf (Std.lt_of_le_of_ne (Std.not_lt.mp hlt) (Ne.symm heq)))

end

theorem isLexOrder_toList (s t : String) : IsLexOrder (compare s t) s.toList t.toList :=
  isLexOrder_of_lt (fun h => h) s t

/-- The order of strings is that of their bytes. -/
theorem isLexOrder_utf8Bytes (s t : String) :
    IsLexOrder (compare s t) (utf8Bytes s) (utf8Bytes t) :=
  isLexOrder_of_lt utf8Bytes_lt s t

/-- It is that of their code points as well. -/
theorem isLexOrder_codePoints (s t : String) :
    IsLexOrder (compare s t) (codePoints s) (codePoints t) :=
  isLexOrder_of_lt codePoints_lt s t

end WorkflowCondition
