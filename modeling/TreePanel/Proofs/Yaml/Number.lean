import Mathlib.Data.Nat.Digits.Defs
import Mathlib.Data.Nat.Digits.Lemmas
import Mathlib.Tactic.IntervalCases
import TreePanel.Decimal.Text
import TreePanel.Proofs.Yaml.Word
import TreePanel.Yaml.Value

/-!
# Numbers as words

Numbers are written as words. The text of a natural number begins with no zero but its only digit,
so it is read as the decimal number that it is (`Value.unsigned?_natText`). The text of a machine
number has a point or an exponent in it and decimal digits around it (`word_floatText`); whether it
reads back as the same number is a matter of two roundings and not said here.
-/

namespace TreePanel

namespace Decimal

/-! ## Digits -/

/-- The decimal digits of a positive number. -/
theorem lowDigits_eq_digits {n : Nat} (h : 0 < n) : lowDigits n = Nat.digits 10 n := by
  induction n using lowDigits.induct with
  | case1 n hsmall =>
    rw [lowDigits, if_pos hsmall, Nat.digits_of_lt 10 n (Nat.ne_of_gt h) hsmall]
  | case2 n hlarge ih =>
    have hquotient : 0 < n / 10 := by omega
    rw [lowDigits, if_neg hlarge, ih hquotient, Nat.digits_def' (by decide) h]

/-- Zero has one digit. -/
theorem lowDigits_zero : lowDigits 0 = [0] := by
  rw [lowDigits, if_pos (by decide)]

/-- The digits of a number are decimal, the last one first. -/
theorem lt_ten_of_mem_lowDigits {n d : Nat} (h : d ∈ lowDigits n) : d < 10 := by
  rcases Nat.eq_zero_or_pos n with rfl | hn
  · rw [lowDigits_zero, List.mem_singleton] at h
    omega
  · rw [lowDigits_eq_digits hn] at h
    exact Nat.digits_lt_base (by decide) h

/-- The digits of a number give it back. -/
theorem foldl_digitsOf (n : Nat) : (digitsOf n).foldl (fun n d => 10 * n + d) 0 = n := by
  rcases Nat.eq_zero_or_pos n with rfl | hn
  · rw [digitsOf, lowDigits_zero]
    rfl
  · have hcomm : (fun d n => 10 * n + d : Nat → Nat → Nat) = fun d n => (d : Nat) + 10 * n := by
      funext d n
      omega
    rw [digitsOf, List.foldl_reverse, lowDigits_eq_digits hn, hcomm]
    exact (Nat.ofDigits_eq_foldr 10 _).symm.trans (Nat.ofDigits_digits 10 n)

/-- No number but zero begins with the digit zero. -/
theorem digitsOf_cons (n : Nat) :
    ∃ d more, digitsOf n = d :: more ∧ d < 10 ∧ (d = 0 → more = []) := by
  rcases Nat.eq_zero_or_pos n with rfl | hn
  · refine ⟨0, [], ?_, by decide, fun _ => rfl⟩
    rw [digitsOf, lowDigits_zero]
    rfl
  · have hne : Nat.digits 10 n ≠ [] := Nat.digits_ne_nil_iff_ne_zero.2 (Nat.ne_of_gt hn)
    have hlast : (Nat.digits 10 n).getLast hne ≠ 0 :=
      Nat.getLast_digit_ne_zero 10 (Nat.ne_of_gt hn)
    have hlt : (Nat.digits 10 n).getLast hne < 10 :=
      Nat.digits_lt_base (by decide) (List.getLast_mem hne)
    refine ⟨(Nat.digits 10 n).getLast hne, (Nat.digits 10 n).dropLast.reverse, ?_, hlt,
      fun h => absurd h hlast⟩
    calc digitsOf n = (Nat.digits 10 n).reverse := by rw [digitsOf, lowDigits_eq_digits hn]
      _ = ((Nat.digits 10 n).dropLast ++ [(Nat.digits 10 n).getLast hne]).reverse := by
        rw [List.dropLast_append_getLast hne]
      _ = (Nat.digits 10 n).getLast hne :: (Nat.digits 10 n).dropLast.reverse :=
        List.reverse_concat' ..

/-- The digits of a number are decimal, in the order in which they are written. -/
theorem lt_ten_of_mem_digitsOf {n d : Nat} (h : d ∈ digitsOf n) : d < 10 :=
  lt_ten_of_mem_lowDigits (List.mem_reverse.1 h)

/-- The digits of a scaled number are decimal. -/
theorem lt_ten_of_mem_ofScaled {n d : Nat} {scale : Int}
    (h : d ∈ (Digits.ofScaled n scale).digits) : d < 10 := by
  have hlow : d ∈ (lowDigits n).dropWhile (· = 0) := List.mem_reverse.1 h
  exact lt_ten_of_mem_lowDigits ((List.dropWhile_suffix _).mem hlow)

/-- The digits of a machine number are decimal. -/
theorem lt_ten_of_mem_shortest {f : Format} {tie : Tie} {s : Scaled} {d : Nat}
    (h : d ∈ (f.shortest tie s).digits) : d < 10 := by
  unfold Format.shortest at h
  dsimp only at h
  cases hfound : (List.range mostDigits).findSome? _ with
  | none =>
    rw [hfound] at h
    have hzero : d = 0 := List.mem_singleton.1 h
    omega
  | some found =>
    rw [hfound] at h
    obtain ⟨count, -, hcount⟩ := List.exists_of_findSome?_eq_some hfound
    obtain ⟨n, -, hn⟩ := Option.map_eq_some_iff.1 hcount
    rw [Option.getD_some, ← hn] at h
    exact lt_ten_of_mem_ofScaled h

end Decimal

namespace Yaml

open Decimal

/-- A digit is a character that words are made of. -/
theorem isPlainChar_digitChar : ∀ d < 10, isPlainChar (digitChar d) = true := by decide

/-- The character of a digit has the value of the digit. -/
theorem hexValue?_digitChar : ∀ d < 10, hexValue? (digitChar d) = some d := by decide

/-- No digit is written as a minus. -/
theorem digitChar_ne_dash : ∀ d < 10, digitChar d ≠ '-' := by decide

/-- Digits are read in order. -/
theorem foldlM_digitChar {digits : List Nat} (h : ∀ d ∈ digits, d < 10) (n : Nat) :
    (digits.map digitChar).foldlM
        (fun n c => do
          let digit ← hexValue? c
          if digit < 10 then return 10 * n + digit else none) n =
      some (digits.foldl (fun n d => 10 * n + d) n) := by
  induction digits generalizing n with
  | nil => rfl
  | cons d more ih =>
    obtain ⟨hd, hmore⟩ := List.forall_mem_cons.1 h
    rw [List.map_cons, List.foldlM_cons, hexValue?_digitChar d hd, List.foldl_cons, ← ih hmore]
    simp only [Option.bind_eq_bind, Option.bind_some, if_pos hd]
    rfl

/-- A natural number reads back. -/
theorem Value.unsigned?_natText (n : Nat) : Value.unsigned? (natText n) = some n := by
  obtain ⟨d, more, hdigits, hd, hzero⟩ := digitsOf_cons n
  have htext : natText n = digitChar d :: more.map digitChar := by
    rw [natText, hdigits, List.map_cons]
  -- Neither a sign, a base nor a zero stands before the digits.
  have hplain : Value.unsigned? (natText n) = Value.ofDigits? 10 (natText n) := by
    rw [htext]
    rcases Nat.eq_zero_or_pos d with rfl | hpos
    · rw [hzero rfl]
      rfl
    · interval_cases d <;> rfl
  have hnonempty : (natText n).isEmpty = false := by rw [htext]; rfl
  rw [hplain, Value.ofDigits?, hnonempty]
  exact (foldlM_digitChar (fun d => lt_ten_of_mem_digitsOf) 0).trans
    (congrArg some (foldl_digitsOf n))

/-! ## Numbers as words -/

/-- Digits are characters of words. -/
theorem isPlainChar_of_mem_map {digits : List Nat} (h : ∀ d ∈ digits, d < 10) :
    ∀ c ∈ digits.map digitChar, isPlainChar c = true := by
  intro c hc
  obtain ⟨d, hd, rfl⟩ := List.mem_map.1 hc
  exact isPlainChar_digitChar d (h d hd)

/-- A natural number is a word. -/
theorem word_natText (n : Nat) : Word (natText n) := by
  obtain ⟨d, more, hdigits, hd, -⟩ := digitsOf_cons n
  have hmem : digitChar d ∈ natText n := by
    rw [natText, hdigits]
    exact List.mem_cons_self
  exact Word.of_mem (isPlainChar_of_mem_map fun d => lt_ten_of_mem_digitsOf) hmem
    (digitChar_ne_dash d hd)

variable {d : Digits}

/-- A decimal that is written out is a word. -/
theorem word_plain (h : ∀ x ∈ d.digits, x < 10) : Word d.plain := by
  have hdigits : ∀ c ∈ d.digits.map digitChar, isPlainChar c = true := isPlainChar_of_mem_map h
  have hzeros : ∀ (n : Nat) (c : Char), c ∈ List.replicate n '0' → isPlainChar c = true := by
    intro n c hc
    rw [List.eq_of_mem_replicate hc]
    rfl
  have hpoint : '.' ∈ d.plain := by
    unfold Digits.plain
    dsimp only
    split <;> simp
  refine Word.of_mem (fun c hc => ?_) hpoint (by decide)
  unfold Digits.plain at hc
  dsimp only at hc
  split at hc
  · rw [List.mem_cons, List.mem_cons, List.mem_append] at hc
    rcases hc with rfl | rfl | hc | hc
    · rfl
    · rfl
    · exact hzeros _ c hc
    · exact hdigits c hc
  · rw [List.mem_append, List.mem_append, List.mem_cons] at hc
    rcases hc with (hc | hc) | rfl | hc
    · exact hdigits c (List.mem_of_mem_take hc)
    · exact hzeros _ c hc
    · rfl
    · split at hc
      · rw [List.mem_singleton.1 hc]
        rfl
      · exact hdigits c (List.mem_of_mem_drop hc)

/-- An integer is written in characters of words. -/
theorem isPlainChar_of_mem_intText {i : Int} : ∀ c ∈ intText i, isPlainChar c = true := by
  intro c hc
  unfold intText at hc
  split at hc
  · rcases List.mem_cons.1 hc with rfl | hc
    · rfl
    · exact (word_natText _).plain c hc
  · exact (word_natText _).plain c hc

/-- A decimal with an exponent is a word. -/
theorem word_scientific (h : ∀ x ∈ d.digits, x < 10) : Word d.scientific := by
  have hdigits : ∀ c ∈ d.digits.map digitChar, isPlainChar c = true := isPlainChar_of_mem_map h
  have hexponent : ∀ c ∈ 'e' :: intText (d.point - 1), isPlainChar c = true := by
    intro c hc
    rcases List.mem_cons.1 hc with rfl | hc
    · rfl
    · exact isPlainChar_of_mem_intText c hc
  have hmark : 'e' ∈ d.scientific := by
    unfold Digits.scientific
    dsimp only
    split <;> simp
  refine Word.of_mem (fun c hc => ?_) hmark (by decide)
  unfold Digits.scientific at hc
  dsimp only at hc
  split at hc
  · exact hexponent c hc
  · next first heq =>
    rw [heq] at hdigits
    rcases List.mem_cons.1 hc with rfl | hc
    · exact hdigits _ List.mem_cons_self
    · exact hexponent c hc
  · next first rest _ heq =>
    rw [heq] at hdigits
    rw [List.mem_append, List.mem_cons, List.mem_cons] at hc
    rcases hc with (rfl | rfl | hc) | hc
    · exact hdigits _ List.mem_cons_self
    · rfl
    · exact hdigits c (List.mem_cons_of_mem _ hc)
    · exact hexponent c hc

/-- A magnitude is a word, if the word for infinity is. -/
theorem word_magnitude {style : Style} (hinfinity : Word style.infinity) (f : Format)
    (pattern : Nat) : Word (style.magnitude f pattern) := by
  have hdigits : ∀ x ∈ (f.shortest style.tie (f.decode pattern)).digits, x < 10 := fun x =>
    lt_ten_of_mem_shortest
  unfold Style.magnitude
  split
  · exact Word.of_all rfl rfl
  · split
    · unfold Style.layout
      split
      · exact word_plain hdigits
      · split
        · exact word_plain hdigits
        · exact word_scientific hdigits
    · exact hinfinity

/-- A word after a minus sign is a word. -/
theorem Word.negative {word : List Char} (h : Word word) : Word ('-' :: word) where
  ne_nil := List.cons_ne_nil _ _
  plain := by
    intro c hc
    rcases List.mem_cons.1 hc with rfl | hc
    · rfl
    · exact h.plain c hc
  ne_dash := fun heq => h.ne_nil (List.cons.inj heq).2

/-- A number of 32 bits is a word, if what has no digits is. -/
theorem word_floatText {style : Style} (hinfinity : Word style.infinity)
    (hnone : Word style.notANumber) (x : Float32) : Word (style.floatText x) := by
  unfold Style.floatText Style.text
  dsimp only
  split
  · exact hnone
  · split
    · exact (word_magnitude hinfinity _ _).negative
    · exact word_magnitude hinfinity _ _

end Yaml

end TreePanel
