import HtmlTemplate.Number.Exact
import Mathlib

/-!
# The fields of a double

A double is a sign, a biased exponent and the digits behind a mantissa's first one. What the three
fields stand for is unpacked by `unpack_packComponents`, and from it follows that the mantissas and
exponents that doubles have (`IsCanonical`) are packed without loss (`unpack_pack`). The other way,
a double is the packing of what it stands for (`pack_unpack`).

## Normal and subnormal

A biased exponent of zero marks the subnormal numbers, which have no hidden digit and all have the
least exponent. Every other exponent below the largest one stands for a mantissa with a hidden first
digit. A canonical mantissa is short only if its exponent is the least, so the two cases exclude
each other and no pair is packed in two ways.
-/

namespace HtmlTemplate.Number

open Float.Model (UnpackedFloat)
open Float.Model.UnpackedFloat (Sign packComponents unpackExponent_packComponents
  unpackMantissa_packComponents unpackSign_packComponents
  packComponents_unpackSign_unpackExponent_unpackMantissa)

/-! ## Three fields -/

theorem exists_eq_packComponents (b : BitVec 64) :
    ∃ s e m, b = packComponents .binary64 s e m :=
  ⟨_, _, _, (@packComponents_unpackSign_unpackExponent_unpackMantissa .binary64 b).symm⟩

private theorem toNat_one_append (m : BitVec 52) : (1#1 ++ m).toNat = 2 ^ 52 + m.toNat := by
  rw [BitVec.toNat_append, ← Nat.shiftLeft_add_eq_or_of_lt m.isLt]
  rfl

theorem unpack_packComponents (s : Sign) (e : BitVec 11) (m : BitVec 52) :
    UnpackedFloat.unpack .binary64 (packComponents .binary64 s e m) =
      if e = -1#11 then if m = 0#52 then .infinity s else .notANumber
      else if e = 0#11 then
        if h : m = 0#52 then .zero s
        else .finite s m.toNat (-1074) (BitVec.toNat_pos_of_ne_zero h)
      else .finite s (2 ^ 52 + m.toNat) (e.toNat - 1075) (Nat.add_pos_left (by decide) _) := by
  rw [UnpackedFloat.unpack]
  simp only [unpackMantissa_packComponents, unpackExponent_packComponents,
    unpackSign_packComponents, Sign.ofBitVec_toBitVec]
  split
  · rfl
  split
  · rename_i h0
    subst h0
    rfl
  · congr 1
    exact toNat_one_append m

theorem pack_normal (s : Sign) {e : BitVec 11} (m : BitVec 52) (hinf : e ≠ -1#11)
    (h : 0 < 2 ^ 52 + m.toNat) :
    UnpackedFloat.pack .binary64 (.finite s (2 ^ 52 + m.toNat) (e.toNat - 1075) h) =
      packComponents .binary64 s e m := by
  have he : e.toNat ≠ 2047 := BitVec.toNat_ne.mp hinf
  have helt : e.toNat < 2048 := e.isLt
  have hmlt : m.toNat < 2 ^ 52 := m.isLt
  have hlog : (2 ^ 52 + m.toNat).log2 = 52 := (Nat.log2_eq_iff (by omega)).mpr (by omega)
  have hbiased : ((e.toNat : Int) - 1075 + 1023 + 52).toNat = e.toNat := by omega
  have hm : BitVec.ofNat 52 (2 ^ 52 + m.toNat) = m := by
    refine BitVec.eq_of_toNat_eq ?_
    rw [BitVec.toNat_ofNat]
    omega
  rw [UnpackedFloat.pack]
  show (if 2 ^ 11 ≤ ((e.toNat : Int) - 1075 + 1023 + 52).toNat + 1 then _
    else if (2 ^ 52 + m.toNat).log2 + 1 = 53 then
      packComponents .binary64 s (.ofNat 11 ((e.toNat : Int) - 1075 + 1023 + 52).toNat)
        (.ofNat 52 (2 ^ 52 + m.toNat))
    else _) = _
  rw [hbiased, hlog, if_neg (by omega), if_pos rfl, hm, BitVec.ofNat_toNat, BitVec.setWidth_eq]

private theorem pack_subnormal (s : Sign) (m : BitVec 52) (h : 0 < m.toNat) :
    UnpackedFloat.pack .binary64 (.finite s m.toNat (-1074) h) =
      packComponents .binary64 s 0#11 m := by
  have hlog : m.toNat.log2 + 1 ≠ 53 := by
    have : m.toNat.log2 < 52 := (Nat.log2_lt (Nat.ne_of_gt h)).mpr m.isLt
    omega
  rw [UnpackedFloat.pack]
  show (if 2 ^ 11 ≤ ((-1074 : Int) + 1023 + 52).toNat + 1 then _
    else if m.toNat.log2 + 1 = 53 then _
    else packComponents .binary64 s 0#11 (.ofNat 52 m.toNat)) = _
  rw [if_neg (show ¬2 ^ 11 ≤ ((-1074 : Int) + 1023 + 52).toNat + 1 by decide), if_neg hlog,
    BitVec.ofNat_toNat, BitVec.setWidth_eq]

/-! ## Mantissas and exponents -/

/-- A mantissa and an exponent that a positive double can have. -/
structure IsCanonical (m : Nat) (e : Int) : Prop where
  pos : 0 < m
  lt : m < 2 ^ 53
  le : -1074 ≤ e
  le_max : e ≤ 971
  /-- Only on the least exponent has a mantissa fewer than 53 digits. -/
  normal : 2 ^ 52 ≤ m ∨ e = -1074

theorem isCanonical_of_unpack {x : Float.Model} {s : Sign} {m : Nat} {e : Int} {hm : 0 < m}
    (h : x.unpack = .finite s m e hm) : IsCanonical m e := by
  obtain ⟨s', ev, mv, hb⟩ := exists_eq_packComponents x.toBits.toBitVec
  have hevlt : ev.toNat < 2048 := ev.isLt
  have hmvlt : mv.toNat < 2 ^ 52 := mv.isLt
  rw [Float.Model.unpack, hb, unpack_packComponents] at h
  split_ifs at h with hinf hz hsub hm0
  · cases h
    exact ⟨hm, by omega, by omega, by omega, .inr rfl⟩
  · cases h
    have h1 : ev.toNat ≠ 2047 := BitVec.toNat_ne.mp hinf
    have h0 : ev.toNat ≠ 0 := BitVec.toNat_ne.mp hsub
    exact ⟨hm, by omega, by omega, by omega, .inl (by omega)⟩

theorem unpack_pack {m : Nat} {e : Int} (h : IsCanonical m e) (s : Sign) :
    (Float.Model.pack (.finite s m e h.pos)).unpack = .finite s m e h.pos := by
  obtain ⟨hpos, hlt, hle, hmax, hnormal⟩ := h
  show UnpackedFloat.unpack .binary64 (UnpackedFloat.pack .binary64 _) = _
  by_cases hm : 2 ^ 52 ≤ m
  · obtain ⟨ev, hev⟩ : ∃ ev : BitVec 11, ev.toNat = (e + 1075).toNat :=
      ⟨.ofNat 11 (e + 1075).toNat, by rw [BitVec.toNat_ofNat]; omega⟩
    obtain ⟨mv, rfl⟩ : ∃ mv : BitVec 52, m = 2 ^ 52 + mv.toNat :=
      ⟨.ofNat 52 m, by rw [BitVec.toNat_ofNat]; omega⟩
    obtain rfl : e = ev.toNat - 1075 := by omega
    have hinf : ev ≠ -1#11 := by
      rintro rfl
      exact absurd hmax (by decide)
    have hsub : ev ≠ 0#11 := by
      rintro rfl
      exact absurd hle (by decide)
    rw [pack_normal s mv hinf, unpack_packComponents, if_neg hinf, if_neg hsub]
  · obtain ⟨mv, rfl⟩ : ∃ mv : BitVec 52, m = mv.toNat :=
      ⟨.ofNat 52 m, by rw [BitVec.toNat_ofNat]; omega⟩
    obtain rfl : e = -1074 := hnormal.resolve_left hm
    have hmv : mv ≠ 0#52 := by
      rintro rfl
      exact absurd hpos (by decide)
    rw [pack_subnormal, unpack_packComponents, if_neg (by decide), if_pos rfl, dif_neg hmv]

theorem pack_unpack (x : Float.Model) : Float.Model.pack x.unpack = x := by
  obtain ⟨bits, hvalid⟩ := x
  simp only [Float.Model.pack, Float.Model.unpack, UnpackedFloat.pack_unpack_of_valid hvalid]

end HtmlTemplate.Number
