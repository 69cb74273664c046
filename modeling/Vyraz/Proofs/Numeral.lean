import Mathlib
import Vyraz.Proofs.Lexeme

/-!
This module contains the way of a finite number through its text. Rounding keeps what the format
can hold, so the decimal that stands for a number is rounded to the number again; its text without
an exponent is one number token; and the sign in front of a text is the sign of the number.
-/

namespace Vyraz

open Scan

namespace Binary64

theorem binade_pos : 0 < binade := by
  decide

theorem roundDiv_mul (m : Nat) {den : Nat} (h : 0 < den) : roundDiv (m * den) den = m := by
  simp [roundDiv, Nat.mul_div_cancel m h, h]

theorem units_eq (bits : Nat) :
    units bits = (bits - (bits / binade - 1) * binade) * Nat.pow 2 (bits / binade - 1) := by
  unfold units
  split
  . next h =>
    rw [Nat.div_eq_of_lt h]
    simp
  . next h =>
    have hquot : 1 ≤ bits / binade := Nat.div_pos (Nat.le_of_not_lt h) binade_pos
    have hbits := Nat.div_add_mod' bits binade
    congr 1
    rw [Nat.sub_mul]
    have : 1 * binade ≤ bits / binade * binade := Nat.mul_le_mul_right _ hquot
    omega

theorem log2_normal {m : Nat} (hlow : binade ≤ m) (hhigh : m < 2 * binade) (e : Nat) :
    (m * Nat.pow 2 e).log2 = 52 + e := by
  have hpow : binade * Nat.pow 2 e = 2 ^ (52 + e) := (Nat.pow_add 2 52 e).symm
  have hpos : 0 < Nat.pow 2 e := Nat.pow_pos Nat.two_pos
  have hlow' := Nat.mul_le_mul_right (Nat.pow 2 e) hlow
  have hhigh' := Nat.mul_lt_mul_of_pos_right hhigh hpos
  rw [Nat.log2_eq_iff (Nat.mul_pos (binade_pos.trans_le hlow) hpos).ne']
  rw [Nat.mul_assoc, hpow] at hhigh'
  constructor
  . rw [← hpow]
    exact hlow'
  . rw [Nat.pow_succ']
    exact hhigh'

theorem log2_units (bits : Nat) : (units bits).log2 - 52 = bits / binade - 1 := by
  unfold units
  split
  . next h =>
    rw [Nat.div_eq_of_lt h, Nat.zero_sub, Nat.sub_eq_zero_iff_le]
    rcases Nat.eq_zero_or_pos bits with rfl | hpos
    . decide
    . exact ((Nat.log2_lt hpos.ne').2 h).le
  . have := Nat.mod_lt bits binade_pos
    rw [log2_normal (Nat.le_add_right _ _) (by omega), Nat.add_sub_cancel_left]

theorem nearestBits_eq {bits num den : Nat} (hbits : bits < infinityBits) (hden : 0 < den)
    (h : num * unitsPerOne = units bits * den) : nearestBits num den = bits := by
  have hquot : num * unitsPerOne / den = units bits := by
    rw [h, Nat.mul_div_cancel _ hden]
  -- The quotient is whole, so there is nothing to round.
  have hround (e : Nat) (hunits : units bits = (bits - e * binade) * Nat.pow 2 e) :
      roundDiv (units bits * den) (den * Nat.pow 2 e) = bits - e * binade := by
    rw [hunits, Nat.mul_assoc, Nat.mul_comm (Nat.pow 2 e) den]
    exact roundDiv_mul _ (Nat.mul_pos hden (Nat.pow_pos Nat.two_pos))
  have hle : (bits / binade - 1) * binade ≤ bits :=
    (Nat.mul_le_mul_right _ (Nat.sub_le _ _)).trans (Nat.div_mul_le_self _ _)
  unfold nearestBits
  dsimp only
  rw [hquot, h, log2_units, hround _ (units_eq bits), Nat.add_sub_cancel' hle]
  exact Nat.min_eq_right hbits.le

theorem five_pow_mul_unitsPerOne : Nat.pow 5 1074 * unitsPerOne = Nat.pow 10 1074 := by
  decide +kernel

theorem bits_exact {bits : Nat} (h : bits < infinityBits) : (exact bits).bits = bits := by
  have hnumerator : (exact bits).numerator = (exact bits).digits := Nat.mul_one _
  have hplaces : (-(exact bits).exponent).toNat = 1074 := rfl
  have hten := five_pow_mul_unitsPerOne
  rw [Decimal.bits, Decimal.denominator, hplaces, hnumerator, exact]
  -- With a variable as exponent, no step computes the powers.
  generalize 1074 = n at hten ⊢
  have hden : 0 < Nat.pow 10 n := Nat.pow_pos (by decide)
  apply nearestBits_eq h hden
  rw [Nat.mul_assoc, hten]

theorem bits_of_fewest? {bits : Nat} {d : Decimal} (h : fewest? bits = some d) : d.bits = bits := by
  unfold fewest? at h
  rcases List.exists_of_findSome?_eq_some h with ⟨count, -, hfind⟩
  simpa using List.find?_some hfind

theorem bits_shortest {bits : Nat} (h : bits < infinityBits) : (shortest bits).bits = bits := by
  unfold shortest
  cases hfewest : fewest? bits with
  | none => exact bits_exact h
  | some d => exact bits_of_fewest? hfewest

end Binary64

theorem isDigits_toDigits (n : Nat) : IsDigits (Nat.toDigits 10 n) :=
  ⟨Nat.toDigits_ne_nil, fun _ => Nat.isDigit_of_mem_toDigits (by decide) (by decide)⟩

namespace Decimal

section

variable {places n : Nat}

theorem isDigits_padded (places n : Nat) : IsDigits (padded places n) := by
  have hdigits := isDigits_toDigits n
  unfold padded
  constructor
  . simp [hdigits.1]
  . intro c hc
    rw [List.mem_append, List.mem_replicate] at hc
    rcases hc with ⟨-, rfl⟩ | hc
    . rfl
    . exact hdigits.2 c hc

theorem length_padded (hpos : 0 < places) (h : n < Nat.pow 10 places) :
    (padded places n).length = places := by
  have hle : (Nat.toDigits 10 n).length ≤ places :=
    (Nat.length_toDigits_le_iff (by decide) hpos).2 h
  simp only [padded, List.length_append, List.length_replicate]
  omega

theorem ofDigitChars_padded : Nat.ofDigitChars 10 (padded places n) 0 = n := by
  simp only [padded]
  rw [Nat.ofDigitChars_append, Nat.ofDigitChars_replicate_zero, Nat.mul_zero]
  exact Nat.ofDigitChars_ten_toDigits

end

theorem contains_positional (d : Decimal) : Family.number.Contains d.positional := by
  unfold positional
  split
  . exact .inl (isDigits_toDigits _)
  . exact .inr ⟨_, _, rfl, isDigits_toDigits _, isDigits_padded _ _⟩

theorem ofDigits_split (digits n : Nat) :
    ofDigits (Nat.toDigits 10 (digits / Nat.pow 10 (n + 1)))
        (padded (n + 1) (digits % Nat.pow 10 (n + 1))) =
      ⟨digits, .negSucc n⟩ := by
  have hpos : 0 < Nat.pow 10 (n + 1) := Nat.pow_pos (by decide)
  have hlength := length_padded n.succ_pos (Nat.mod_lt digits hpos)
  unfold ofDigits
  rw [hlength, Nat.ofDigitChars_append, Nat.ofDigitChars_ten_toDigits,
    Nat.ofDigitChars_eq_ofDigitChars_zero, hlength, ofDigitChars_padded]
  congr 1
  exact Nat.div_add_mod digits _

theorem toFloat_ofText_positional (d : Decimal) : (ofText d.positional).toFloat = d.toFloat := by
  rcases d with ⟨digits, exponent⟩
  cases exponent with
  | ofNat zeros =>
    rw [positional, ofText_whole (isDigits_toDigits _), ofDigits, List.append_nil,
      Nat.ofDigitChars_ten_toDigits]
    -- The zeros, which the exponent gave, are digits now.
    unfold toFloat
    congr 1
    . exact Nat.mul_one _
    . simp [denominator]
  | negSucc n =>
    rw [positional]
    dsimp only
    rw [ofText_fraction (isDigits_toDigits _), ofDigits_split]

end Decimal

theorem Scan.cut_number {text : List Char} (h : Family.number.Contains text) :
    Cut (.token (.number (Decimal.ofText text).toFloat)) text [] := by
  rcases h with hwhole | ⟨whole, digits, rfl, hwhole, hdigits⟩
  . rw [Decimal.ofText_whole hwhole]
    exact .number hwhole (by simp) (by simp)
  . rw [Decimal.ofText_fraction hwhole]
    exact .fraction hwhole hdigits (by simp)

namespace Binary64

theorem cut_magnitudeText {bits : Nat} (h : bits < infinityBits) :
    Cut (.token (.number (Float.ofBits bits.toUInt64))) (magnitudeText bits) [] := by
  unfold magnitudeText
  split
  . next hzero =>
    have hcut : Cut _ ['0'] [] := cut_number (.inl ⟨by simp, by simp⟩)
    have hread : (Decimal.ofText ['0']).toFloat = Float.ofBits bits.toUInt64 := by
      have hnumerator : (Decimal.ofText ['0']).numerator = 0 := rfl
      have hunits : units 0 = 0 := if_pos binade_pos
      rw [Decimal.toFloat, nearest, nearestBits_eq h]
      . decide
      . rw [hzero, hnumerator, hunits, Nat.zero_mul, Nat.zero_mul]
    rw [hread] at hcut
    exact hcut
  . rw [if_neg h.ne]
    have hcut := cut_number (shortest bits).contains_positional
    rw [Decimal.toFloat_ofText_positional] at hcut
    have hread : (shortest bits).toFloat = Float.ofBits bits.toUInt64 :=
      congrArg (fun n : Nat => Float.ofBits n.toUInt64) (bits_shortest h)
    rw [hread] at hcut
    exact hcut

section

-- Lemmas about the components of numbers are reached only with the whole library.
open Float.Model.UnpackedFloat

variable {sign : Sign} {e : BitVec 11} {m : BitVec 52}

theorem toNat_packComponents :
    (packComponents .binary64 sign e m).toNat =
      sign.toBitVec.toNat * signBit + (e.toNat * binade + m.toNat) := by
  simp only [packComponents, BitVec.toNat_append]
  have hm := m.isLt
  have he := e.isLt
  rw [← Nat.shiftLeft_add_eq_or_of_lt hm, ← Nat.shiftLeft_add_eq_or_of_lt he]
  simp only [Nat.shiftLeft_eq, signBit, binade]
  have h52 : Nat.pow 2 52 = 2 ^ 52 := rfl
  have h63 : Nat.pow 2 63 = 2 ^ 63 := rfl
  rw [h52, h63]
  ring

theorem unpack_packComponents_negative :
    unpack .binary64 (packComponents .binary64 .negative e m) =
      (unpack .binary64 (packComponents .binary64 .positive e m)).neg := by
  unfold unpack
  simp only [unpackMantissa_packComponents, unpackExponent_packComponents,
    unpackSign_packComponents, Sign.ofBitVec_toBitVec]
  -- The cases are those of the exponent and the mantissa, which both sides share.
  split
  . split <;> rfl
  . split
    . split <;> rfl
    . rfl

theorem exists_components {x : Float} (h : x.isFinite) :
    ∃ sign e m, x.toBits.toBitVec = packComponents .binary64 sign e m ∧ e ≠ -1#11 := by
  refine ⟨_, _, _,
    (@packComponents_unpackSign_unpackExponent_unpackMantissa .binary64 x.toBits.toBitVec).symm, ?_⟩
  intro he
  have hfinite : (unpack .binary64 x.toBits.toBitVec).isFinite = true := h
  unfold unpack at hfinite
  rw [if_pos he] at hfinite
  split at hfinite <;> contradiction

theorem neg_ofBits {u v : UInt64} (hu : u.toBitVec = packComponents .binary64 .positive e m)
    (hv : v.toBitVec = packComponents .binary64 .negative e m) (he : e ≠ -1#11) :
    -Float.ofBits u = Float.ofBits v := by
  have hnumber : @isNaNBits .binary64 u.toBitVec = false := by
    rw [hu, isNaNBits, unpackExponent_packComponents]
    exact decide_eq_false fun hnan => he hnan.1
  have hpack : pack .binary64 (unpack .binary64 u.toBitVec) = u.toBitVec := by
    rw [pack_unpack, hnumber]
    rfl
  have hneg : (unpack .binary64 u.toBitVec).neg = unpack .binary64 v.toBitVec := by
    rw [hu, hv, unpack_packComponents_negative]
  have hunpack : (Float.ofBits u).toModel.unpack = unpack .binary64 u.toBitVec :=
    congrArg (unpack .binary64) hpack
  calc -Float.ofBits u
    _ = ⟨.pack (Float.ofBits u).toModel.unpack.neg⟩ := rfl
    _ = ⟨.pack (unpack .binary64 v.toBitVec)⟩ := by rw [hunpack, hneg]
    _ = Float.ofBits v := rfl

theorem magnitude_lt (he : e ≠ -1#11) (m : BitVec 52) :
    e.toNat * binade + m.toNat < infinityBits := by
  have hbinade : binade = 2 ^ 52 := rfl
  have hne : e.toNat ≠ 0x7ff := fun h => he (BitVec.eq_of_toNat_eq h)
  have := e.isLt
  have := m.isLt
  rw [infinityBits, hbinade]
  omega

theorem sign_cases {x : Float} (h : x.isFinite) :
    ∃ bits < infinityBits,
      x.toBits.toNat = bits ∧ Float.ofBits bits.toUInt64 = x
        ∨ x.toBits.toNat = signBit + bits ∧ -Float.ofBits bits.toUInt64 = x := by
  rcases exists_components h with ⟨sign, e, m, hx, he⟩
  have htoNat : x.toBits.toNat = sign.toBitVec.toNat * signBit + (e.toNat * binade + m.toNat) :=
    (congrArg BitVec.toNat hx).trans toNat_packComponents
  refine ⟨e.toNat * binade + m.toNat, magnitude_lt he m, ?_⟩
  cases sign with
  | positive =>
    have hbits : x.toBits.toNat = e.toNat * binade + m.toNat := by
      simpa [Sign.toBitVec] using htoNat
    refine .inl ⟨hbits, ?_⟩
    rw [← hbits]
    simp
  | negative =>
    refine .inr ⟨by simpa [Sign.toBitVec] using htoNat, ?_⟩
    rw [neg_ofBits _ hx he, Float.ofBits_toBits]
    have hlt : e.toNat * binade + m.toNat < UInt64.size :=
      (magnitude_lt he m).trans (by decide)
    apply BitVec.eq_of_toNat_eq
    rw [toNat_packComponents, UInt64.toNat_toBitVec, Nat.toUInt64_eq, UInt64.toNat_ofNat_of_lt' hlt]
    simp [Sign.toBitVec]

theorem isNaN_of_isFinite {x : Float} (h : x.isFinite) : x.isNaN = false := by
  have hfinite : x.toModel.unpack.isFinite = true := h
  have hnan : x.isNaN = x.toModel.unpack.isNaN := rfl
  rw [hnan]
  cases hunpack : x.toModel.unpack with
  | notANumber =>
    rw [hunpack] at hfinite
    contradiction
  | infinity s | zero s | finite s m e hm => rfl

theorem text_cases {x : Float} (h : x.isFinite) :
    ∃ bits < infinityBits,
      x.toBits.toNat < signBit ∧ text x = String.ofList (magnitudeText bits)
          ∧ Float.ofBits bits.toUInt64 = x
        ∨ signBit ≤ x.toBits.toNat ∧ text x = String.ofList ('-' :: magnitudeText bits)
          ∧ -Float.ofBits bits.toUInt64 = x := by
  rcases sign_cases h with ⟨bits, hbits, hcases⟩
  refine ⟨bits, hbits, ?_⟩
  have hsign : infinityBits < signBit := by decide
  unfold text
  rw [if_neg (Bool.eq_false_iff.1 (isNaN_of_isFinite h))]
  dsimp only
  rcases hcases with ⟨htoNat, hx⟩ | ⟨htoNat, hx⟩
  . have hlt := hbits.trans hsign
    rw [htoNat, if_pos hlt]
    exact .inl ⟨hlt, rfl, hx⟩
  . have hle := Nat.le_add_right signBit bits
    rw [htoNat, if_neg hle.not_gt, Nat.add_sub_cancel_left]
    exact .inr ⟨hle, rfl, hx⟩

end

end Binary64

end Vyraz
