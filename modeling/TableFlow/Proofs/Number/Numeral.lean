import TableFlow.Number.Reading
import TableFlow.Value.Basic

/-!
# Text of numbers

Natural numbers are written as digits that read back. The text of a finite double is a
sign and then digits with a point or an exponent among them (`DecimalText`).
-/

namespace TableFlow.Number

structure Digits (l : List Char) : Prop where
  some : l ≠ []
  each : ∀ c ∈ l, c.isDigit = true

theorem Digits.append {l m : List Char} (hl : Digits l) (hm : ∀ c ∈ m, c.isDigit = true) :
    Digits (l ++ m) :=
  ⟨List.append_ne_nil_of_left_ne_nil hl.some m, fun c hc =>
    (List.mem_append.1 hc).elim (hl.each c) (hm c)⟩

theorem digits_zero : Digits ['0'] := ⟨by simp, List.forall_mem_singleton.2 rfl⟩

theorem digits_toString (n : Nat) : Digits (toString n).toList := by
  rw [Nat.toString_eq_ofList_toDigits, String.toList_ofList]
  exact ⟨Nat.toDigits_ne_nil, fun c hc => Nat.isDigit_of_mem_toDigits (by decide) (by decide) hc⟩

theorem digitsValue_toString (n : Nat) : digitsValue (toString n).toList = n := by
  rw [Nat.toString_eq_ofList_toDigits, String.toList_ofList]
  have value := @Nat.ofDigitChars_toDigits 10 n (by decide) (by decide)
  rwa [Nat.ofDigitChars_eq_foldl] at value

theorem readNat?_toString (n : Nat) : readNat? (toString n).toList = some n := by
  have digits := digits_toString n
  rw [readNat?, digitsValue_toString, if_pos]
  simpa [digits.some] using digits.each

/-- Digits with a point among them or an exponent behind them. -/
inductive DecimalText : List Char → Prop where
  | point {a b : List Char} : Digits a → Digits b → DecimalText (a ++ '.' :: b)
  | exponent {a sign c : List Char} :
      Digits a → sign = [] ∨ sign = ['-'] → Digits c → DecimalText (a ++ 'e' :: (sign ++ c))
  | both {a b sign c : List Char} :
      Digits a → Digits b → sign = [] ∨ sign = ['-'] → Digits c →
      DecimalText (a ++ '.' :: (b ++ 'e' :: (sign ++ c)))

theorem DecimalText.head {text : List Char} (h : DecimalText text) :
    ∃ c rest, text = c :: rest ∧ c.isDigit = true := by
  have first : ∀ {a rest : List Char}, Digits a →
      ∃ c more, a ++ rest = c :: more ∧ c.isDigit = true := by
    intro a rest digits
    obtain ⟨c, a, rfl⟩ := List.exists_cons_of_ne_nil digits.some
    exact ⟨c, a ++ rest, rfl, digits.each c (List.mem_cons_self ..)⟩
  cases h with
  | point a => exact first a
  | exponent a => exact first a
  | both a => exact first a

theorem replicate_zero_isDigit {n : Nat} : ∀ c ∈ List.replicate n '0', c.isDigit = true := by
  intro c hc
  rw [(List.mem_replicate.1 hc).2]
  rfl

theorem place_decimalText (l : Layout) (plus : l.plus = "") (d : Decimal) :
    DecimalText (l.place d).toList := by
  have digits := digits_toString d.digits
  unfold Layout.place
  generalize (toString d.digits).toList = text at digits
  have long : 0 < text.length := List.length_pos_iff.2 digits.some
  dsimp only
  split
  · split
    · rename_i small
      rw [String.toList_ofList]
      exact .point digits_zero (.mk (by simp [digits.some]) fun c hc =>
        (List.mem_append.1 hc).elim (replicate_zero_isDigit c) (digits.each c))
    · split
      · rw [String.toList_ofList]
        exact .point (digits.append replicate_zero_isDigit) digits_zero
      · rename_i fits lead negative
        rw [String.toList_ofList]
        refine .point ⟨?_, fun c hc => digits.each c (List.mem_of_mem_take hc)⟩
          ⟨?_, fun c hc => digits.each c (List.mem_of_mem_drop hc)⟩
        · rw [← List.length_pos_iff, List.length_take]
          omega
        · rw [← List.length_pos_iff, List.length_drop]
          omega
  · have first : Digits (text.take 1) :=
      ⟨by simp [digits.some], fun c hc => digits.each c (List.mem_of_mem_take hc)⟩
    have rest : ∀ c ∈ text.drop 1, c.isDigit = true := fun c hc =>
      digits.each c (List.mem_of_mem_drop hc)
    have mark : "e".toList = ['e'] := rfl
    generalize (text.length : Int) - 1 + d.exponent = lead
    have signed : (if lead < 0 then "-" else l.plus).toList = [] ∨
        (if lead < 0 then "-" else l.plus).toList = ['-'] := by
      rw [plus]
      split <;> simp
    simp only [String.toList_append, String.toList_ofList, mark, List.append_assoc,
      List.cons_append, List.nil_append]
    split
    · exact .exponent first signed (digits_toString _)
    · rename_i more
      exact .both first ⟨by simpa using more, rest⟩ signed (digits_toString _)

/-- The text of a finite double is a decimal behind its sign. -/
theorem finite_sign (x : Float) : ∃ body, DecimalText body ∧ (Value.layout.finite x).toList =
    if (Binary.ofFloat x).negative then '-' :: body else body := by
  unfold Layout.finite Layout.fraction
  dsimp only
  generalize Decimal.shortest _ _ _ = d
  have placed := place_decimalText Value.layout rfl d
  split
  · refine ⟨_, .point digits_zero digits_zero, ?_⟩
    split <;> simp
  · refine ⟨_, placed, ?_⟩
    split <;> simp

/-- The text of a finite double is a decimal with or without a sign. -/
theorem finite_text (x : Float) : ∃ body, DecimalText body ∧
    ((Value.layout.finite x).toList = body ∨ (Value.layout.finite x).toList = '-' :: body) := by
  obtain ⟨body, decimal, text⟩ := finite_sign x
  refine ⟨body, decimal, ?_⟩
  split at text
  · exact .inr text
  · exact .inl text

end TableFlow.Number
