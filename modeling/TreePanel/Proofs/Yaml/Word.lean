import TreePanel.Yaml.Scan

/-!
# Words

A word is written in letters, digits, dots, dashes and low lines. None of them has a meaning of its
own in YAML, only a lone dash has, so a word is read as one plain scalar up to what ends it: a colon
before white space (`Plain.read?_key`), or a break (`Plain.read?_value`). Every character takes one
byte, so that positions count bytes and characters alike (`Word.pass_eq`).
-/

namespace TreePanel.Yaml

/-- The characters of words. -/
def isPlainChar (c : Char) : Bool := isWordChar c || c == '.'

/-- A text that is scanned as one plain scalar wherever such a scalar may stand. -/
structure Word (text : List Char) : Prop where
  ne_nil : text ≠ []
  plain : ∀ c ∈ text, isPlainChar c = true
  /-- A lone dash stands before an entry. -/
  ne_dash : text ≠ ['-']

/-! ## Characters of words -/

section Characters

variable {c d : Char}

/-- What is no character of words is another character. -/
theorem beq_of_isPlainChar (hc : isPlainChar c = true) (hd : isPlainChar d = false) :
    (c == d) = false := by
  refine beq_false_of_ne ?_
  rintro rfl
  rw [hc] at hd
  cases hd

/-- Words are written in printable characters of one byte. -/
theorem toNat_of_isPlainChar (hc : isPlainChar c = true) : 0x2d ≤ c.toNat ∧ c.toNat ≤ 0x7a := by
  change (((((decide ('A'.val ≤ c.val ∧ c.val ≤ 'Z'.val) ||
    (decide ('a'.val ≤ c.val) && decide (c.val ≤ 'z'.val))) ||
    (decide ('0'.val ≤ c.val) && decide (c.val ≤ '9'.val))) || c == '_') || c == '-') || c == '.') =
      true at hc
  simp only [Bool.or_eq_true, Bool.and_eq_true, decide_eq_true_eq, beq_iff_eq,
    UInt32.le_iff_toNat_le] at hc
  change (((((65 ≤ c.toNat ∧ c.toNat ≤ 90) ∨ (97 ≤ c.toNat ∧ c.toNat ≤ 122)) ∨
    (48 ≤ c.toNat ∧ c.toNat ≤ 57)) ∨ c = '_') ∨ c = '-') ∨ c = '.' at hc
  rcases hc with ((((hupper | hlower) | hdigit) | rfl) | rfl) | rfl
  · omega
  · omega
  · omega
  · decide
  · decide
  · decide

/-- A character that words are made of takes one byte. -/
theorem utf8Size_of_isPlainChar (hc : isPlainChar c = true) : c.utf8Size = 1 := by
  have hhigh : c.toNat ≤ 0x7a := (toNat_of_isPlainChar hc).2
  rw [Char.utf8Size_eq_one_iff, UInt32.le_iff_toNat_le]
  exact Nat.le_trans hhigh (by decide)

/-- A character that words are made of may stand in a text. -/
theorem isAllowed_of_isPlainChar (hc : isPlainChar c = true) : isAllowed c = true := by
  obtain ⟨hlow, hhigh⟩ := toNat_of_isPlainChar hc
  have hprintable : (decide (0x20 ≤ c.toNat) && decide (c.toNat ≤ 0x7e)) = true := by
    rw [decide_eq_true (by omega), decide_eq_true (by omega)]
    rfl
  simp [isAllowed, hprintable]

/-- No character of words is white space. -/
theorem isWhite_of_isPlainChar (hc : isPlainChar c = true) : (isBlank c || isBreak c) = false := by
  simp only [isBlank, isBreak, beq_of_isPlainChar hc (d := ' ') (by decide),
    beq_of_isPlainChar hc (d := '\t') (by decide), beq_of_isPlainChar hc (d := '\n') (by decide),
    beq_of_isPlainChar hc (d := '\r') (by decide),
    beq_of_isPlainChar hc (d := '\u0085') (by decide),
    beq_of_isPlainChar hc (d := '\u2028') (by decide),
    beq_of_isPlainChar hc (d := '\u2029') (by decide), Bool.or_false]

end Characters

/-! ## A word in a text -/

namespace Word

variable {word rest : List Char}

/-- Characters of words that are not all dashes make up a word. -/
theorem of_mem {c : Char} (hplain : ∀ c ∈ word, isPlainChar c = true) (hc : c ∈ word)
    (hdash : c ≠ '-') : Word word where
  ne_nil := List.ne_nil_of_mem hc
  plain := hplain
  ne_dash := by
    rintro rfl
    exact hdash (List.mem_singleton.1 hc)

/-- The same as a test of a text that is known. -/
theorem of_all (hplain : word.all isPlainChar = true) (hdash : word.all (· == '-') = false) :
    Word word := by
  obtain ⟨c, hc, hother⟩ := List.all_eq_false.1 hdash
  refine of_mem (List.all_eq_true.1 hplain) hc fun h => hother ?_
  rw [h]
  rfl

/-- A word begins with one of its characters, and a dash is not all of it. -/
theorem exists_cons (h : Word word) :
    ∃ c more, word = c :: more ∧ isPlainChar c = true ∧ (c = '-' → more ≠ []) := by
  cases word with
  | nil => exact absurd rfl h.ne_nil
  | cons c more =>
    refine ⟨c, more, rfl, h.plain c List.mem_cons_self, ?_⟩
    rintro rfl rfl
    exact h.ne_dash rfl

/-- After a word, positions count its characters. -/
theorem pass_eq (h : ∀ c ∈ word, isPlainChar c = true) (p : Position) :
    Source.pass ⟨word ++ rest, p⟩ word = ⟨rest, p.skip word.length⟩ := by
  have hfold : word.foldl Position.past p = p.skip word.length := by
    induction word generalizing p with
    | nil => rfl
    | cons c more ih =>
      obtain ⟨hc, hmore⟩ := List.forall_mem_cons.1 h
      rw [List.foldl_cons, ih hmore, Position.past, utf8Size_of_isPlainChar hc, Position.skip,
        Position.skip, List.length_cons]
      simp only [Position.mk.injEq, true_and]
      omega
  rw [Source.pass, List.drop_left, hfold]

/-- A plain scalar goes on to the end of a word at least. -/
theorem run?_append (h : ∀ c ∈ word, isPlainChar c = true)
    (hend : Plain.run? false rest = some []) : Plain.run? false (word ++ rest) = some word := by
  induction word with
  | nil => exact hend
  | cons c more ih =>
    obtain ⟨hc, hmore⟩ := List.forall_mem_cons.1 h
    rw [List.cons_append, Plain.run?, isWhite_of_isPlainChar hc, beq_of_isPlainChar hc (d := ':')
      (by decide), ih hmore]
    rfl

end Word

/-! ## A word as a plain scalar -/

namespace Plain

variable {word rest : List Char} {p : Position} {indent : Int}

/-- Where a word is not taken for a mark of documents, a plain scalar is read that begins with
it. -/
theorem read?_word (h : Word word) (hend : run? false rest = some [])
    (hmark : Source.atDocumentMark ⟨word ++ rest, p⟩ = false) :
    read? false indent ⟨word ++ rest, p⟩ =
      if rest.isEmpty || !blankNext rest then some ⟨word, ⟨rest, p.skip word.length⟩, false⟩
      else (Gap.cut? indent ⟨rest, p.skip word.length⟩).bind fun (gap, s) =>
        if s.pos.column < indent then some ⟨word, s, gap.folded⟩
        else more? false indent (word ++ rest).length word gap s := by
  obtain ⟨c, more, hword, hc, -⟩ := h.exists_cons
  have hcomment : Source.next ⟨word ++ rest, p⟩ '#' = false := by
    rw [Source.next, hword]
    exact beq_of_isPlainChar hc (by decide)
  have hnonempty : word.isEmpty = false := by rw [hword]; rfl
  have hrun : run? false (word ++ rest) = some word := Word.run?_append h.plain hend
  have hpass : Source.pass ⟨word ++ rest, p⟩ word = ⟨rest, p.skip word.length⟩ :=
    Word.pass_eq h.plain p
  rw [read?, more?, hmark, hcomment, hrun]
  simp only [Bool.or_self, Bool.false_eq_true, if_false, Option.bind_eq_bind, Option.bind_some,
    hnonempty, hpass, Gap.empty, List.nil_append, Bool.not_false, Bool.true_and, decide_eq_true_eq]
  rfl

/-- A word before a colon is the scalar. -/
theorem read?_key (h : Word word) (hblank : blankNext rest = true)
    (hmark : Source.atDocumentMark ⟨word ++ ':' :: rest, p⟩ = false) :
    read? false indent ⟨word ++ ':' :: rest, p⟩ =
      some ⟨word, ⟨':' :: rest, p.skip word.length⟩, false⟩ := by
  have hend : run? false (':' :: rest) = some [] := by
    rw [run?, hblank]
    rfl
  rw [read?_word h hend hmark]
  rfl

/-- A word before a break is the scalar, if the next line begins in the first column. -/
theorem read?_value (h : Word word) (hcolumn : p.column ≠ 0)
    (hnext : rest = [] ∨ ∃ c more, rest = c :: more ∧ isPlainChar c = true) :
    read? false 1 ⟨word ++ '\n' :: rest, p⟩ =
      some ⟨word, ⟨rest, (p.skip word.length).newLine 1⟩, true⟩ := by
  have hmark : Source.atDocumentMark ⟨word ++ '\n' :: rest, p⟩ = false := by
    rw [Source.atDocumentMark, beq_false_of_ne hcolumn, Bool.false_and]
  -- No white space follows the break.
  have hbreaks : ∀ q : Position, Gap.breaksAfter? 1 rest q = some ([], ⟨rest, q⟩) := by
    intro q
    rcases hnext with rfl | ⟨c, more, rfl, hc⟩
    · rfl
    · have hwhite : (isBlank c || isBreak c) = false := isWhite_of_isPlainChar hc
      obtain ⟨hblank, hbreak⟩ := Bool.or_eq_false_iff.1 hwhite
      obtain ⟨hspace, htab⟩ := Bool.or_eq_false_iff.1 hblank
      rw [Gap.breaksAfter?]
      · simp only [hspace, htab, hbreak, Bool.false_eq_true, if_false]
      · rintro rest rfl -
        exact absurd hc (by decide)
  have hgap : Gap.cut? 1 ⟨'\n' :: rest, p.skip word.length⟩ =
      some (⟨[' '], true⟩, ⟨rest, (p.skip word.length).newLine 1⟩) := by
    show (Gap.breaksAfter? 1 rest ((p.skip word.length).newLine 1)).bind _ = _
    rw [hbreaks]
    rfl
  rw [read?_word h rfl hmark, hgap]
  rfl

end Plain

end TreePanel.Yaml
