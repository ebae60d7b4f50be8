import FortranScope.Phrase.Literal
import Mathlib.Tactic.Use

/-!
# Written numbers

How the number and the kind of a literal are written, and that reading gives them back.
-/

namespace FortranScope

namespace Integer

/-- A natural number is written in its decimal digits. -/
theorem toList_toString_natCast (n : Nat) :
  (toString (n : Int)).toList = Nat.toDigits 10 n
  := by
  rw [Int.toString_eq_repr, Int.repr_eq_if, if_pos (Int.natCast_nonneg n), Int.toNat_natCast,
    Nat.toList_repr]

/-- A negative number is written as a sign before its absolute value. -/
theorem toList_toString_of_neg {n : Int} (h : n < 0) :
  (toString n).toList = '-' :: (toString (-n)).toList
  := by
  obtain ⟨m, hm⟩ := Int.eq_ofNat_of_zero_le (show 0 ≤ -n by omega)
  rw [hm, toList_toString_natCast, Int.toString_eq_repr, Int.repr_eq_if, if_neg (by omega), hm,
    String.toList_append, Int.toNat_natCast, Nat.toList_repr]
  rfl

/-- The digits of a number are written by digits only, of which there is at least one. -/
theorem digits_toDigits (n : Nat) :
  Nat.toDigits 10 n ≠ [] ∧ ∀ c ∈ Nat.toDigits 10 n, c.isDigit
  := by
  constructor
  · apply Nat.toDigits_ne_nil
  · intro c hc
    apply Nat.isDigit_of_mem_toDigits (by decide) (by decide) hc

/-- Decimal digits are read as the number that they write. -/
theorem magnitude?_toDigits (n : Nat) :
  magnitude? (Nat.toDigits 10 n) = some n
  := by
  obtain ⟨hne, hdigits⟩ := digits_toDigits n
  rw [magnitude?, if_pos ⟨hne, List.all_eq_true.mpr hdigits⟩, Nat.ofDigitChars_ten_toDigits]

/-- A number that is written is read again. -/
theorem ofChars?_toString (n : Int) :
  ofChars? (toString n).toList = some n
  := by
  rcases Int.lt_or_le n 0 with hn | hn
  · obtain ⟨m, hm⟩ := Int.eq_ofNat_of_zero_le (show 0 ≤ -n by omega)
    rw [toList_toString_of_neg hn, hm, toList_toString_natCast, ofChars?, magnitude?_toDigits]
    change some (-(m : Int)) = some n
    congr 1
    omega
  · obtain ⟨m, rfl⟩ := Int.eq_ofNat_of_zero_le hn
    rw [toList_toString_natCast]
    have hdigits := (digits_toDigits m).2
    unfold ofChars?
    split
    · next heq =>
      rw [heq] at hdigits
      cases hdigits '+' List.mem_cons_self
    · next heq =>
      rw [heq] at hdigits
      cases hdigits '-' List.mem_cons_self
    · rw [magnitude?_toDigits]
      rfl

/-- An integer of the width is read back from how it is written. -/
theorem ofText?_toString {w : Width} {n : Int} (h : Fits w n) :
  ofText? w (toString n) = some n
  := by
  rw [ofText?, ofChars?_toString, Option.filter_some, if_pos (decide_eq_true h)]

/-- No number is written with an underscore. -/
theorem underscore_notMem_toString (n : Int) :
  '_' ∉ (toString n).toList
  := by
  have hdigits (m : Nat) : '_' ∉ Nat.toDigits 10 m := by
    intro hmem
    cases (digits_toDigits m).2 '_' hmem
  rcases Int.lt_or_le n 0 with hn | hn
  · obtain ⟨m, hm⟩ := Int.eq_ofNat_of_zero_le (show 0 ≤ -n by omega)
    rw [toList_toString_of_neg hn, hm, toList_toString_natCast]
    simp [hdigits m]
  · obtain ⟨m, rfl⟩ := Int.eq_ofNat_of_zero_le hn
    rw [toList_toString_natCast]
    apply hdigits

end Integer

/-- `digits` with an underscore and the kind after it, if there is one. -/
def withKind (digits : String) : Option String → String
  | none => digits
  | some kind => digits ++ "_" ++ kind

/-- The kind is found behind the first underscore. -/
theorem splitKind_withKind {digits : String} (kind : Option String)
    (h : '_' ∉ digits.toList) :
  splitKind (withKind digits kind) = (digits, kind)
  := by
  have hne : ∀ c ∈ digits.toList, decide (c ≠ '_') = true := by
    intro c hc
    apply decide_eq_true
    rintro rfl
    apply h hc
  cases kind with
  | none =>
    rw [withKind, splitKind, ← List.append_nil digits.toList, List.dropWhile_append_of_pos hne,
      List.takeWhile_append_of_pos hne]
    simp
  | some kind =>
    have hlist : (withKind digits (some kind)).toList = digits.toList ++ '_' :: kind.toList := by
      simp [withKind]
    rw [splitKind, hlist, List.dropWhile_append_of_pos hne, List.takeWhile_append_of_pos hne]
    simp

/-- A number is written by its digits and its kind. -/
theorem withKind_splitKind (s : String) :
  withKind (splitKind s).1 (splitKind s).2 = s
  := by
  have hs := List.takeWhile_append_dropWhile (p := (· ≠ '_')) (l := s.toList)
  have hhead := List.head?_dropWhile_not (· ≠ '_') s.toList
  rw [← String.toList_inj]
  unfold splitKind
  split
  · next hdrop =>
    rw [hdrop, List.append_nil] at hs
    simp only [withKind, String.toList_ofList]
    apply hs
  · next c kind hdrop =>
    rw [hdrop] at hs hhead
    obtain rfl : c = '_' := by simpa using hhead
    simpa [withKind] using hs

end FortranScope
