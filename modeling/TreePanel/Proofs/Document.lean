import TreePanel.Document

/-!
# What a replacement leaves of a text

A replacement touches nothing but its range: the characters in front of the range stay where they
are, and those behind it move together (`Document.take_splice`, `Document.drop_splice`). So what was
taken out can be put back in (`Document.splice_splice`).
-/

namespace TreePanel.Document

variable {text inserted : List Char} {start stop offset : Nat}

/-- Number of characters after a replacement. -/
theorem length_splice (hrange : start ≤ stop ∧ stop ≤ text.length) :
    (splice text start stop inserted).length =
      text.length - (stop - start) + inserted.length := by
  simp only [splice, List.length_append, List.length_take, List.length_drop]
  omega

/-- In front of the range, the text is what it was. -/
theorem take_splice (hstart : start ≤ text.length) (hfront : offset ≤ start) :
    (splice text start stop inserted).take offset = text.take offset := by
  have hlength : (text.take start).length = start := List.length_take_of_le hstart
  calc (splice text start stop inserted).take offset
      = (text.take start ++ (inserted ++ text.drop stop)).take offset := by
        rw [splice, List.append_assoc]
    _ = (text.take start).take offset := List.take_append_of_le_length (by omega)
    _ = text.take offset := by rw [List.take_take, Nat.min_eq_left hfront]

/-- Behind the range, the text is what it was. -/
theorem drop_splice (hstart : start ≤ text.length) (hrange : start ≤ stop)
    (hbehind : stop ≤ offset) :
    (splice text start stop inserted).drop (offset - (stop - start) + inserted.length) =
      text.drop offset := by
  have hfront : (text.take start ++ inserted).length = start + inserted.length := by
    rw [List.length_append, List.length_take_of_le hstart]
  have hmoved : offset - (stop - start) + inserted.length =
      (text.take start ++ inserted).length + (offset - stop) := by omega
  calc (splice text start stop inserted).drop (offset - (stop - start) + inserted.length)
      = (text.drop stop).drop (offset - stop) := by
        rw [splice, hmoved, List.drop_length_add_append]
    _ = text.drop offset := by rw [List.drop_drop, Nat.add_sub_cancel' hbehind]

/-- A character in front of the range is where it was. -/
theorem getElem?_splice_front (hstart : start ≤ text.length) (hfront : offset < start) :
    (splice text start stop inserted)[offset]? = text[offset]? := by
  have hsame : (splice text start stop inserted).take (offset + 1) = text.take (offset + 1) :=
    take_splice hstart hfront
  calc (splice text start stop inserted)[offset]?
      = ((splice text start stop inserted).take (offset + 1))[offset]? :=
        (List.getElem?_take_of_lt (Nat.lt_succ_self offset)).symm
    _ = (text.take (offset + 1))[offset]? := by rw [hsame]
    _ = text[offset]? := List.getElem?_take_of_lt (Nat.lt_succ_self offset)

/-- A character behind the range has moved by as much as the text has grown or shrunk. -/
theorem getElem?_splice_behind (hstart : start ≤ text.length) (hrange : start ≤ stop)
    (hbehind : stop ≤ offset) :
    (splice text start stop inserted)[offset - (stop - start) + inserted.length]? =
      text[offset]? := by
  have hsame : (splice text start stop inserted).drop (offset - (stop - start) + inserted.length) =
      text.drop offset := drop_splice hstart hrange hbehind
  rw [← List.head?_drop, hsame, List.head?_drop]

/-- What a replacement took out can be put back in. -/
theorem splice_splice (hrange : start ≤ stop) (hstop : stop ≤ text.length) :
    splice (splice text start stop inserted) start (start + inserted.length)
      ((text.take stop).drop start) = text := by
  have hstart : start ≤ text.length := Nat.le_trans hrange hstop
  have hback : start + inserted.length = stop - (stop - start) + inserted.length := by omega
  have hfront : (splice text start stop inserted).take start = (text.take stop).take start := by
    rw [take_splice hstart (Nat.le_refl start), List.take_take, Nat.min_eq_left hrange]
  have hbehind : (splice text start stop inserted).drop (start + inserted.length) =
      text.drop stop := by
    rw [hback, drop_splice hstart hrange (Nat.le_refl stop)]
  rw [splice, hfront, hbehind, List.take_append_drop, List.take_append_drop]

end TreePanel.Document
