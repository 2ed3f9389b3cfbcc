import TableFlow.Value.Basic

/-!
# NaN and the infinities

There is one NaN and there are two infinities, so each is the constant that its name
stands for.
-/

namespace TableFlow.Number

open Float.Model

theorem eq_of_toBits {x y : Float} (h : x.toBits = y.toBits) : x = y := by
  obtain ⟨⟨a, ha⟩⟩ := x
  obtain ⟨⟨b, hb⟩⟩ := y
  obtain rfl : a = b := h
  rfl

theorem of_ite {α : Type} {p : Prop} [Decidable p] {f : α → Bool} {a b : α}
    (h : f (if p then a else b) = true) : p ∧ f a = true ∨ ¬p ∧ f b = true := by
  by_cases hp : p
  · rw [if_pos hp] at h
    exact .inl ⟨hp, h⟩
  · rw [if_neg hp] at h
    exact .inr ⟨hp, h⟩

theorem of_dite {α : Type} {p : Prop} [Decidable p] {f : α → Bool} {a : p → α} {b : ¬p → α}
    (h : f (dite p a b) = true) :
    (∃ hp, f (a hp) = true) ∨ ∃ hp, f (b hp) = true := by
  by_cases hp : p
  · rw [dif_pos hp] at h
    exact .inl ⟨hp, h⟩
  · rw [dif_neg hp] at h
    exact .inr ⟨hp, h⟩

theorem eq_nan {x : Float} (h : x.isNaN = true) : x = 0.0 / 0.0 := by
  apply eq_of_toBits
  have pattern : x.toBits.toBitVec = UnpackedFloat.packedNaN Format.binary64 := by
    obtain ⟨⟨bits, valid⟩⟩ := x
    unfold Float.isNaN Float.Model.isNaN Float.Model.unpack UnpackedFloat.unpack at h
    dsimp only at h
    rcases of_ite h with ⟨ones, h⟩ | ⟨-, h⟩
    · rcases of_ite h with ⟨-, h⟩ | ⟨some, -⟩
      · cases h
      · exact valid.eq_packedNaN ones some
    · rcases of_ite h with ⟨-, h⟩ | ⟨-, h⟩
      · rcases of_dite h with ⟨_, h⟩ | ⟨_, h⟩ <;> cases h
      · cases h
  have nan : (0.0 / 0.0 : Float).toBits.toBitVec = UnpackedFloat.packedNaN Format.binary64 := by
    decide
  exact UInt64.toBitVec_inj.1 (pattern.trans nan.symm)

/-- The exponent of an infinity is all ones, and nothing follows it. -/
theorem bits_of_isInf {x : Float} (h : x.isInf = true) :
    x.toBits = 0x7FF0000000000000 ∨ x.toBits = 0xFFF0000000000000 := by
  obtain ⟨⟨bits, valid⟩⟩ := x
  unfold Float.isInf Float.Model.isInf Float.Model.unpack UnpackedFloat.unpack at h
  dsimp only at h
  rcases of_ite h with ⟨ones, h⟩ | ⟨-, h⟩
  · rcases of_ite h with ⟨zero, -⟩ | ⟨-, h⟩
    · have exponent := congrArg BitVec.toNat ones
      have mantissa := congrArg BitVec.toNat zero
      simp [UnpackedFloat.unpackExponent, UnpackedFloat.unpackMantissa,
        Nat.shiftRight_eq_div_pow] at exponent mantissa
      have bound := bits.toNat_lt
      rw [← UInt64.toNat_inj, ← UInt64.toNat_inj]
      show bits.toNat = 0x7FF0000000000000 ∨ bits.toNat = 0xFFF0000000000000
      omega
    · cases h
  · rcases of_ite h with ⟨-, h⟩ | ⟨-, h⟩
    · rcases of_dite h with ⟨_, h⟩ | ⟨_, h⟩ <;> cases h
    · cases h

theorem eq_infinity {x : Float} (h : x.isInf = true) :
    x = if x > 0.0 then 1.0 / 0.0 else -(1.0 / 0.0) := by
  have up : (1.0 / 0.0 : Float).toBits = 0x7FF0000000000000 := by decide
  have down : (-(1.0 / 0.0) : Float).toBits = 0xFFF0000000000000 := by decide
  rcases bits_of_isInf h with bits | bits
  · obtain rfl := eq_of_toBits (bits.trans up.symm)
    have positive : (1.0 / 0.0 : Float) > 0.0 := by decide
    rw [if_pos positive]
  · obtain rfl := eq_of_toBits (bits.trans down.symm)
    have negative : ¬(-(1.0 / 0.0) : Float) > 0.0 := by decide
    rw [if_neg negative]

end TableFlow.Number
