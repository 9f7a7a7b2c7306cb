import TreePanel.Proofs.Yaml.Word

/-!
# The tokens of a line

A line with a key and a value, both of them words, is scanned in three steps: the key
(`Scan.next_key`), the colon (`Scan.next_colon`) and the value (`Scan.next_value`). Between lines
the scan stands in the first column, outside brackets, and at most the one block mapping is open.
That only the colon shows what the key was is seen in the tokens: those of the key and of the
mapping are put before the scalar that was read already.
-/

namespace TreePanel.Yaml

/-! ## Entries -/

/-- A key and its value. -/
structure Entry where
  key : List Char
  value : List Char

namespace Entry

/-- The line of an entry. -/
def line (e : Entry) : List Char := e.key ++ ':' :: ' ' :: e.value ++ ['\n']

/-- An entry of two words. The key begins with a letter, so its line is none between documents, and
the colon is near enough to its beginning. -/
structure Formed (e : Entry) : Prop where
  key : Word e.key
  begins : ∃ c more, e.key = c :: more ∧ c.isAlpha = true
  short : e.key.length ≤ 1024
  value : Word e.value

/-- Where the colon is, if the line begins at a position. -/
def colonPos (e : Entry) (p : Position) : Position := p.skip e.key.length

/-- Where the value is. -/
def valuePos (e : Entry) (p : Position) : Position := ((e.colonPos p).skip 1).skip 1

/-- Where the next line begins. -/
def nextPos (e : Entry) (p : Position) : Position :=
  ((e.valuePos p).skip e.value.length).newLine 1

/-- The tokens of an entry. -/
def tokens (e : Entry) (p : Position) : List Token :=
  [⟨.key, p, p⟩, ⟨.scalar .plain e.key, p, e.colonPos p⟩,
    ⟨.value, e.colonPos p, (e.colonPos p).skip 1⟩,
    ⟨.scalar .plain e.value, e.valuePos p, e.nextPos p⟩]

end Entry

namespace Scan

/-! ## The beginning of a token -/

section Begin

variable {s : Scan} {c : Char} {rest : List Char}

/-- A plain scalar may begin with a character of words, and with a dash if no white space
follows. -/
theorem begins_word (hc : isPlainChar c = true) (hdash : c = '-' → blankNext rest = false) :
    Plain.begins false c rest = true := by
  have hno : ∀ d, isPlainChar d = false → (c == d) = false := fun d hd =>
    beq_of_isPlainChar hc hd
  obtain ⟨hblank, hbreak⟩ := Bool.or_eq_false_iff.1 (isWhite_of_isPlainChar hc)
  by_cases h : c = '-'
  · have hnext : blankNext rest = false := hdash h
    unfold Plain.begins
    rw [if_pos (beq_iff_eq.2 h)]
    cases rest with
    | nil => rfl
    | cons d more =>
      show (!isBlank d) = true
      rw [(Bool.or_eq_false_iff.1 hnext).1]
      rfl
  · simp only [Plain.begins, Plain.isFlowIndicator, beq_false_of_ne h, hblank, hbreak,
      hno '?' (by decide), hno ':' (by decide), hno ',' (by decide), hno '[' (by decide),
      hno ']' (by decide), hno '\x7b' (by decide), hno '\x7d' (by decide), hno '#' (by decide),
      hno '&' (by decide), hno '*' (by decide), hno '!' (by decide), hno '|' (by decide),
      hno '>' (by decide), hno '\x27' (by decide), hno '\x22' (by decide), hno '%' (by decide),
      hno '@' (by decide), hno '\x60' (by decide), Bool.or_false, Bool.false_eq_true, if_false,
      Bool.not_false]

/-- A character of words begins a plain scalar. -/
theorem token_word (hc : isPlainChar c = true) (hdash : c = '-' → blankNext rest = false)
    (hmark : s.source.atDocumentMark = false) (houter : s.outer = []) :
    s.token c rest = s.plainScalar := by
  have hflow : s.inFlow = false := by rw [inFlow, houter]; rfl
  have hno : ∀ d, isPlainChar d = false → (c == d) = false := fun d hd =>
    beq_of_isPlainChar hc hd
  have hentry : (c == '-' && blankNext rest) = false := by
    by_cases h : c = '-'
    · rw [hdash h, Bool.and_false]
    · rw [beq_false_of_ne h, Bool.false_and]
  unfold token
  simp only [hflow, hmark, hentry, begins_word hc hdash, hno '%' (by decide), hno '[' (by decide),
    hno '\x7b' (by decide), hno ']' (by decide), hno '\x7d' (by decide), hno ',' (by decide),
    hno '?' (by decide), hno ':' (by decide), hno '*' (by decide), hno '&' (by decide),
    hno '!' (by decide), hno '|' (by decide), hno '>' (by decide), hno '\x27' (by decide),
    hno '\x22' (by decide), Bool.and_false, Bool.false_and, if_true, if_false, Bool.false_eq_true]

/-- A colon before white space. -/
theorem token_colon (hblank : blankNext rest = true) (hrest : s.source.rest = ':' :: rest) :
    s.token ':' rest = s.colon := by
  have hmark : s.source.atDocumentMark = false := by
    rw [Source.atDocumentMark, hrest]
    exact Bool.and_false _
  unfold token
  rw [hmark, hblank]
  simp

/-- No white space is left out before a character that is none. -/
theorem skipWhite_self (flow keyAllowed : Bool) (p : Position)
    (hwhite : (isBlank c || isBreak c) = false) (hcomment : c ≠ '#') (hmark : c ≠ '\ufeff') :
    skipWhite flow keyAllowed false (c :: rest) p = (keyAllowed, ⟨c :: rest, p⟩) := by
  obtain ⟨hblank, hbreak⟩ := Bool.or_eq_false_iff.1 hwhite
  obtain ⟨hspace, htab⟩ := Bool.or_eq_false_iff.1 hblank
  have hreturn : c ≠ '\r' := by
    rintro rfl
    exact absurd hbreak (by decide)
  rw [skipWhite]
  · simp only [hbreak, hspace, htab, beq_false_of_ne hcomment, beq_false_of_ne hmark, Bool.or_false,
      Bool.false_and, Bool.false_eq_true, if_false]
  · rintro more rfl -
    exact absurd rfl hreturn

/-- The next token comes after white space. -/
theorem toNext_eq {keyAllowed : Bool} {source : Source}
    (h : skipWhite s.inFlow s.keyAllowed false s.source.rest s.pos = (keyAllowed, source)) :
    s.toNext = { s with keyAllowed := keyAllowed, source := source } := by
  rw [toNext, h]

/-- A block collection in the first column does not end before a token. -/
theorem endBlocks_eq_self (column : Nat) (houter : s.outer = [])
    (hcolumns : s.columns = [] ∨ s.columns = [0]) : s.endBlocks column = s := by
  have hflow : s.inFlow = false := by rw [inFlow, houter]; rfl
  have hnone : (s.columns.takeWhile fun (begun : Nat) => (column : Int) < begun) = [] := by
    rcases hcolumns with h | h
    · rw [h]
      rfl
    · have hnot : ¬((column : Int) < (0 : Nat)) := by omega
      rw [h, List.takeWhile_cons, decide_eq_false hnot]
      rfl
  unfold endBlocks
  rw [hflow, hnone]
  rfl

/-- Outside brackets, with no block collection to the right of it and a candidate on its line if
any, a scan goes on with the next token. -/
theorem next_eq {text : List Char} {p q : Position} {columns : List Nat}
    {candidate : Option Candidate} {keyAllowed : Bool} {tokens : List Token}
    (hwhite : skipWhite false keyAllowed false text p = (keyAllowed, ⟨c :: rest, q⟩))
    (hfresh : keepFresh q candidate = some candidate) (hcolumns : columns = [] ∨ columns = [0]) :
    next ⟨⟨text, p⟩, columns, candidate, [], keyAllowed, tokens⟩ =
      token ⟨⟨c :: rest, q⟩, columns, candidate, [], keyAllowed, tokens⟩ c rest := by
  obtain ⟨s, hs⟩ : ∃ s : Scan, s = ⟨⟨c :: rest, q⟩, columns, candidate, [], keyAllowed, tokens⟩ :=
    ⟨_, rfl⟩
  have hto : toNext ⟨⟨text, p⟩, columns, candidate, [], keyAllowed, tokens⟩ = s := by
    rw [hs]
    exact toNext_eq hwhite
  have hstale : s.dropStale = some s := by
    rw [hs, dropStale]
    show (keepFresh q candidate >>= _) = _
    rw [hfresh]
    rfl
  have hblocks : s.endBlocks s.pos.column = s :=
    endBlocks_eq_self _ (by rw [hs]) (by rw [hs]; exact hcolumns)
  have hrest : s.source.rest = c :: rest := by rw [hs]
  rw [next, hto, hstale, ← hs]
  simp only [Option.bind_eq_bind, Option.bind_some, hblocks, hrest]

end Begin

/-! ## The steps of a line -/

/-- A scan at the beginning of a line outside brackets, where a key may begin. -/
def atLine (text : List Char) (p : Position) (columns : List Nat) (tokens : List Token) : Scan :=
  ⟨⟨text, p⟩, columns, none, [], true, tokens⟩

variable {e : Entry} {rest : List Char} {p : Position} {columns : List Nat}

/-- A line that begins with a letter is none between documents. -/
theorem atDocumentMark_of_isAlpha {c : Char} (hc : c.isAlpha = true) :
    Source.atDocumentMark ⟨c :: rest, p⟩ = false := by
  have hdash : c ≠ '-' := by
    rintro rfl
    exact absurd hc (by decide)
  have hdot : c ≠ '.' := by
    rintro rfl
    exact absurd hc (by decide)
  rw [Source.atDocumentMark]
  split
  · next heq => exact absurd (List.cons.inj heq).1 hdash
  · next heq => exact absurd (List.cons.inj heq).1 hdot
  · exact Bool.and_false _

/-- A plain scalar is added after the tokens. -/
theorem plainScalar_eq {s t : Scan} {read : Plain.Read} (hsave : s.saveCandidate = some t)
    (hread : Plain.read? t.inFlow (t.indent + 1) t.source = some read) :
    s.plainScalar = some { t.push (.scalar .plain read.text) t.pos read.source.pos with
      source := read.source, keyAllowed := read.onNewLine } := by
  rw [plainScalar, hsave]
  simp only [Option.bind_eq_bind, Option.bind_some, hread]
  rfl

/-- The key of an entry is a token, and a candidate for the key of a mapping. -/
theorem next_key (tokens : List Token) (he : e.Formed) (hcolumns : columns = [] ∨ columns = [0])
    (hblank : blankNext rest = true) :
    ∃ required, (atLine (e.key ++ ':' :: rest) p columns tokens).next =
      some ⟨⟨':' :: rest, e.colonPos p⟩, columns, some ⟨tokens.length, required, p⟩, [], false,
        ⟨.scalar .plain e.key, p, e.colonPos p⟩ :: tokens⟩ := by
  obtain ⟨c, more, hkey, hc⟩ := he.begins
  have hplain : isPlainChar c = true := by
    refine he.key.plain c ?_
    rw [hkey]
    exact List.mem_cons_self
  have hdash : c ≠ '-' := by
    rintro rfl
    exact absurd hc (by decide)
  have hmark : Source.atDocumentMark ⟨e.key ++ ':' :: rest, p⟩ = false := by
    rw [hkey]
    exact atDocumentMark_of_isAlpha hc
  have htext : e.key ++ ':' :: rest = c :: (more ++ ':' :: rest) := by rw [hkey]; rfl
  have hstart : (atLine (e.key ++ ':' :: rest) p columns tokens).next =
      (atLine (e.key ++ ':' :: rest) p columns tokens).plainScalar := by
    rw [atLine, htext, next_eq (skipWhite_self false true p (isWhite_of_isPlainChar hplain) ?_ ?_)
      rfl hcolumns]
    · refine token_word hplain (fun h => absurd h hdash) ?_ rfl
      rw [← htext]
      exact hmark
    · rintro rfl
      exact absurd hplain (by decide)
    · rintro rfl
      exact absurd hplain (by decide)
  obtain ⟨required, hsave⟩ : ∃ required,
      (atLine (e.key ++ ':' :: rest) p columns tokens).saveCandidate =
        some ⟨⟨e.key ++ ':' :: rest, p⟩, columns, some ⟨tokens.length, required, p⟩, [], true,
          tokens⟩ := ⟨_, rfl⟩
  refine ⟨required, ?_⟩
  rw [hstart, plainScalar_eq hsave (Plain.read?_key he.key hblank hmark)]
  rfl

/-- A token that is inserted goes between the tokens before it and those since. -/
theorem insert_eq {s : Scan} (since : List Token) {before : List Token}
    (h : s.tokens = since ++ before) (kind : Token.Kind) (pos : Position) :
    s.insert before.length kind pos = { s with tokens := since ++ ⟨kind, pos, pos⟩ :: before } := by
  have hsince : s.tokens.length - before.length = since.length := by
    rw [h, List.length_append, Nat.add_sub_cancel]
  unfold insert
  dsimp only
  rw [hsince, h, List.take_left, List.drop_left]

/-- No block collection begins where one is open. -/
theorem beginBlock_open {s : Scan} (hcolumns : s.columns = [0]) (number : Nat) (kind : Token.Kind)
    (pos : Position) : s.beginBlock 0 number kind pos = s := by
  have hindent : s.indent = 0 := by rw [indent, hcolumns]; rfl
  rw [beginBlock, hindent]
  exact if_pos (Bool.or_true _)

/-- The first block collection begins at its first key. -/
theorem beginBlock_first {s : Scan} (houter : s.outer = []) (hcolumns : s.columns = [])
    (number : Nat) (kind : Token.Kind) (pos : Position) :
    s.beginBlock 0 number kind pos = { s.insert number kind pos with columns := [0] } := by
  have hflow : s.inFlow = false := by rw [inFlow, houter]; rfl
  have hindent : s.indent = -1 := by rw [indent, hcolumns]
  rw [beginBlock, hflow, hindent, hcolumns]
  rfl

/-- The colon after the first word of a line ends a key. The key begins the mapping if none was
open, and the token of the key goes before its scalar. -/
theorem next_colon (tokens : List Token) (required : Bool) (he : e.Formed)
    (hblank : blankNext rest = true) (hcolumn : p.column = 0)
    (hcolumns : columns = [] ∨ columns = [0]) :
    next ⟨⟨':' :: rest, e.colonPos p⟩, columns, some ⟨tokens.length, required, p⟩, [], false,
        ⟨.scalar .plain e.key, p, e.colonPos p⟩ :: tokens⟩ =
      some ⟨⟨rest, (e.colonPos p).skip 1⟩, [0], none, [], false,
        ⟨.value, e.colonPos p, (e.colonPos p).skip 1⟩ ::
        ⟨.scalar .plain e.key, p, e.colonPos p⟩ :: ⟨.key, p, p⟩ ::
        (if columns = [] then ⟨.blockMappingStart, p, p⟩ :: tokens else tokens)⟩ := by
  -- The key began on the same line, and not far away.
  have hfresh : keepFresh (e.colonPos p) (some ⟨tokens.length, required, p⟩) =
      some (some ⟨tokens.length, required, p⟩) := by
    have hnear : isStale (e.colonPos p) ⟨tokens.length, required, p⟩ = false := by
      have hshort : e.key.length ≤ 1024 := he.short
      show (decide (p.line < p.line) || decide (p.index + 1024 < p.index + e.key.length)) = false
      rw [decide_eq_false (by omega), decide_eq_false (by omega)]
      rfl
    rw [keepFresh, hnear]
    rfl
  rw [next_eq (skipWhite_self false false _ rfl (by decide) (by decide)) hfresh hcolumns,
    token_colon hblank rfl]
  unfold colon
  dsimp only
  rw [insert_eq [⟨.scalar .plain e.key, p, e.colonPos p⟩] rfl, hcolumn]
  rcases hcolumns with rfl | rfl
  · rw [beginBlock_first rfl rfl, insert_eq [⟨.scalar .plain e.key, p, e.colonPos p⟩,
      ⟨.key, p, p⟩] rfl]
    rfl
  · rw [beginBlock_open rfl]
    rfl

/-- The value of an entry is a token, and the next line may begin with a key. -/
theorem next_value (tokens : List Token) (q : Position) (he : e.Formed)
    (hnext : rest = [] ∨ ∃ c more, rest = c :: more ∧ isPlainChar c = true) :
    next ⟨⟨' ' :: e.value ++ '\n' :: rest, q⟩, [0], none, [], false, tokens⟩ =
      some (atLine rest (((q.skip 1).skip e.value.length).newLine 1) [0]
        (⟨.scalar .plain e.value, q.skip 1, ((q.skip 1).skip e.value.length).newLine 1⟩ ::
          tokens)) := by
  obtain ⟨c, more, hvalue, hplain, hdash⟩ := he.value.exists_cons
  have hmark : Source.atDocumentMark ⟨e.value ++ '\n' :: rest, q.skip 1⟩ = false := by
    have hright : (q.skip 1).column ≠ 0 := Nat.succ_ne_zero _
    rw [Source.atDocumentMark, beq_false_of_ne hright, Bool.false_and]
  have htext : e.value ++ '\n' :: rest = c :: (more ++ '\n' :: rest) := by rw [hvalue]; rfl
  have hwhite : skipWhite false false false (' ' :: e.value ++ '\n' :: rest) q =
      (false, ⟨c :: (more ++ '\n' :: rest), q.skip 1⟩) := by
    have hself : skipWhite false false false (c :: (more ++ '\n' :: rest)) (q.skip 1) =
        (false, ⟨c :: (more ++ '\n' :: rest), q.skip 1⟩) := by
      refine skipWhite_self false false _ (isWhite_of_isPlainChar hplain) ?_ ?_
      · rintro rfl
        exact absurd hplain (by decide)
      · rintro rfl
        exact absurd hplain (by decide)
    rw [List.cons_append, htext, ← hself]
    rfl
  have hread : Plain.read? false 1 ⟨e.value ++ '\n' :: rest, q.skip 1⟩ =
      some ⟨e.value, ⟨rest, ((q.skip 1).skip e.value.length).newLine 1⟩, true⟩ :=
    Plain.read?_value he.value (Nat.succ_ne_zero _) hnext
  -- What follows a dash is no white space.
  have hblank : c = '-' → blankNext (more ++ '\n' :: rest) = false := by
    intro h
    obtain ⟨d, after, hmore⟩ := List.exists_cons_of_ne_nil (hdash h)
    have hd : isPlainChar d = true := by
      refine he.value.plain d ?_
      rw [hvalue, hmore]
      exact List.mem_cons_of_mem _ List.mem_cons_self
    rw [hmore]
    exact isWhite_of_isPlainChar hd
  have hsave : saveCandidate ⟨⟨e.value ++ '\n' :: rest, q.skip 1⟩, [0], none, [], false, tokens⟩ =
      some ⟨⟨e.value ++ '\n' :: rest, q.skip 1⟩, [0], none, [], false, tokens⟩ := rfl
  rw [next_eq hwhite rfl (Or.inr rfl), token_word hplain hblank (by rw [← htext]; exact hmark) rfl,
    ← htext, plainScalar_eq hsave hread]
  rfl

/-- The end of the text ends the mapping and the stream. -/
theorem next_end (tokens : List Token) (hcolumn : p.column = 0) :
    next (atLine [] p [0] tokens) =
      some ⟨⟨[], p⟩, [], none, [], false,
        ⟨.streamEnd, p, p⟩ :: ⟨.blockEnd, p, p⟩ :: tokens⟩ := by
  have hto : toNext (atLine [] p [0] tokens) = atLine [] p [0] tokens := rfl
  have hstale : dropStale (atLine [] p [0] tokens) = some (atLine [] p [0] tokens) := rfl
  have hblocks : endBlocks p.column (atLine [] p [0] tokens) = atLine [] p [0] tokens :=
    endBlocks_eq_self _ rfl (Or.inr rfl)
  -- In the first column the end of the text is no new line.
  have hend : atEnd (atLine [] p [0] tokens) = some ⟨⟨[], p⟩, [], none, [], false,
      ⟨.streamEnd, p, p⟩ :: ⟨.blockEnd, p, p⟩ :: tokens⟩ := by
    have hpos : (atLine [] p [0] tokens).pos.column = 0 := hcolumn
    rw [atEnd, if_pos hpos]
    rfl
  calc next (atLine [] p [0] tokens)
      = atEnd (endBlocks p.column (atLine [] p [0] tokens)) := by
        rw [next, hto, hstale]
        rfl
    _ = atEnd (atLine [] p [0] tokens) := by rw [hblocks]
    _ = _ := hend

end Scan

end TreePanel.Yaml
