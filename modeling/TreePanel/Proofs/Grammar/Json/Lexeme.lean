import Mathlib.Data.List.TakeDrop
import TreePanel.Proofs.Grammar.Json.Part

/-!
# Lexemes lose nothing

Every function that cuts a piece off a text gives that piece and the rest, and the two make up the
text. So do the lexemes (`Json.lexemes?_spec`). They are clean: gaps in them hold separators only,
and the parts of a string begin with its quote. Since a gap is as long as it can be, the gaps before
the first token are all the blanks that the text begins with.
-/

namespace TreePanel.Json

/-! ## Cutting -/

variable {text taken rest : List Char}

/-- The characters that a text begins with and what follows them make up the text. -/
theorem append_of_span {p : Char → Bool} (h : text.span p = (taken, rest)) :
    taken ++ rest = text ∧ ∀ c ∈ taken, p c = true := by
  rw [List.span_eq_takeWhile_dropWhile] at h
  cases h
  exact ⟨List.takeWhile_append_dropWhile, fun c hc => List.mem_takeWhile_imp hc⟩

/-- A minus, if there is one, and what follows it make up the text. -/
theorem append_of_cutMinus (h : cutMinus text = (taken, rest)) : taken ++ rest = text := by
  unfold cutMinus at h
  split at h <;>
  · cases h
    rfl

/-- The digits at the beginning and what follows them make up the text. -/
theorem append_of_cutDigits (h : cutDigits text = (taken, rest)) : taken ++ rest = text :=
  (append_of_span h).1

/-- The whole part of a number and what follows it make up the text. -/
theorem append_of_cutWhole? (h : cutWhole? text = some (taken, rest)) : taken ++ rest = text := by
  unfold cutWhole? at h
  split at h
  · cases h
  · next c after =>
    split at h
    · cases h
      rfl
    · split at h
      · cases h
        exact congrArg (c :: ·) (append_of_cutDigits rfl)
      · cases h

/-- A fraction, if there is one, and what follows it make up the text. -/
theorem append_of_cutFraction (h : cutFraction text = (taken, rest)) : taken ++ rest = text := by
  unfold cutFraction at h
  split at h
  · cases h
    exact congrArg ('.' :: ·) (append_of_cutDigits rfl)
  · cases h
    rfl

/-- An exponent, if there is one, and what follows it make up the text. -/
theorem append_of_cutExponent (h : cutExponent text = (taken, rest)) : taken ++ rest = text := by
  unfold cutExponent at h
  split at h
  · cases h
    rfl
  · next c after =>
    obtain ⟨minus, afterMinus, hminus⟩ : ∃ minus afterMinus, cutMinus after = (minus, afterMinus) :=
      ⟨_, _, rfl⟩
    obtain ⟨digits, afterDigits, hdigits⟩ :
        ∃ digits afterDigits, cutDigits afterMinus = (digits, afterDigits) := ⟨_, _, rfl⟩
    rw [hminus] at h
    dsimp only at h
    rw [hdigits] at h
    split at h
    · split at h
      · cases h
        rfl
      · cases h
        rw [List.append_assoc, append_of_cutDigits hdigits, List.cons_append,
          append_of_cutMinus hminus]
    · cases h
      rfl

/-- A number and what follows it make up the text. -/
theorem append_of_cutNumber? (h : cutNumber? text = some (taken, rest)) : taken ++ rest = text := by
  unfold cutNumber? at h
  obtain ⟨minus, afterMinus, hminus⟩ : ∃ minus afterMinus, cutMinus text = (minus, afterMinus) :=
    ⟨_, _, rfl⟩
  rw [hminus] at h
  obtain ⟨⟨whole, afterWhole⟩, hwhole, h⟩ := Option.bind_eq_some_iff.1 h
  obtain ⟨fraction, afterFraction, hfraction⟩ :
      ∃ fraction afterFraction, cutFraction afterWhole = (fraction, afterFraction) := ⟨_, _, rfl⟩
  obtain ⟨exponent, afterExponent, hexponent⟩ :
      ∃ exponent afterExponent, cutExponent afterFraction = (exponent, afterExponent) :=
    ⟨_, _, rfl⟩
  dsimp only at h
  rw [hfraction] at h
  dsimp only at h
  rw [hexponent] at h
  cases h
  calc minus ++ whole ++ fraction ++ exponent ++ afterExponent
      = minus ++ (whole ++ (fraction ++ (exponent ++ afterExponent))) := by
        simp only [List.append_assoc]
    _ = minus ++ (whole ++ (fraction ++ afterFraction)) := by rw [append_of_cutExponent hexponent]
    _ = minus ++ (whole ++ afterWhole) := by rw [append_of_cutFraction hfraction]
    _ = minus ++ afterMinus := by rw [append_of_cutWhole? hwhole]
    _ = text := append_of_cutMinus hminus

/-- A comment up to its end and what follows it make up the text. -/
theorem append_of_cutBlock? (h : cutBlock? text = some (taken, rest)) : taken ++ rest = text := by
  fun_induction cutBlock? text generalizing taken rest with
  | case1 => cases h
  | case2 rest' => cases h; rfl
  | case3 c text _ ih =>
    obtain ⟨⟨inside, after⟩, hinside, hdone⟩ := Option.bind_eq_some_iff.1 h
    cases hdone
    exact congrArg (c :: ·) (ih hinside)

/-- A comment and what follows it make up the text. -/
theorem append_of_cutComment? (h : cutComment? text = some (taken, rest)) :
    taken ++ rest = text := by
  unfold cutComment? at h
  split at h
  · cases h
    exact congrArg ('/' :: ·) (append_of_span rfl).1
  · obtain ⟨⟨inside, after⟩, hinside, hdone⟩ := Option.bind_eq_some_iff.1 h
    cases hdone
    exact congrArg ('*' :: ·) (append_of_cutBlock? hinside)
  · cases h

/-- A word and what follows it make up the text. -/
theorem append_of_cutWord? {word : List Char} (h : cutWord? word text = some rest) :
    word ++ rest = text := by
  unfold cutWord? at h
  split at h
  · next hprefix =>
    cases h
    obtain ⟨after, rfl⟩ := List.isPrefixOf_iff_prefix.1 hprefix
    rw [List.drop_left]
  · cases h

/-! ## Clean parts -/

namespace Part

/-- If the part is a gap, it holds separators only. -/
def Blank (p : Part) : Prop := p.isGap = true → ∀ c ∈ p.text, isSeparator c = true

/-- A part that open nodes can take. -/
structure Formed (p : Part) : Prop where
  /-- Groups begin with a part that is no gap. -/
  begun : p.Begun
  /-- An anonymous token is a punctuation mark. -/
  mark : ∀ kind text, p = .token kind false text → ∃ c, p = .mark c

/-- A part as it is cut off a text. -/
structure Clean (p : Part) : Prop extends Formed p where
  /-- Gaps hold separators only. -/
  blank : ∀ q ∈ p.pieces, q.Blank

/-- A gap is formed, whatever it holds. -/
theorem formed_gap (text : List Char) : (gap text).Formed := ⟨.gap, nofun⟩

/-- A gap of separators is clean. -/
theorem clean_gap {text : List Char} (h : ∀ c ∈ text, isSeparator c = true) : (gap text).Clean := by
  refine ⟨formed_gap text, fun q hq _ => ?_⟩
  rw [List.mem_singleton.1 hq]
  exact h

/-- No piece of a token is a gap. -/
theorem blank_token (kind : String) (named : Bool) (text : List Char) :
    ∀ q ∈ (token kind named text).pieces, q.Blank := by
  intro q hq hgap
  rw [List.mem_singleton.1 hq] at hgap
  cases hgap

/-- A named token is clean. -/
theorem clean_token (kind : String) (text : List Char) : (token kind true text).Clean :=
  ⟨⟨.token, nofun⟩, blank_token kind true text⟩

/-- A punctuation mark is clean. -/
theorem clean_mark (c : Char) : (mark c).Clean :=
  ⟨⟨.token, fun _ _ _ => ⟨c, rfl⟩⟩, blank_token _ false [c]⟩

/-- A group that begins with a token is clean if its parts are. -/
theorem clean_group {kind : String} {first : Part} {rest : List Part} (hfirst : first.isGap = false)
    (h : ∀ p ∈ first :: rest, p.Clean) : (group kind (first :: rest)).Clean := by
  refine ⟨⟨.group hfirst fun p hp => (h p hp).begun, nofun⟩, fun q hq => ?_⟩
  rw [pieces, piecesAll_eq_flatMap] at hq
  obtain ⟨p, hp, hq⟩ := List.mem_flatMap.1 hq
  exact (h p hp).blank q hq

end Part

/-- Clean parts that a text begins with, and what follows them. -/
structure Cut (parts : List Part) (rest text : List Char) : Prop where
  /-- They make up the text. -/
  append : Part.textAll parts ++ rest = text
  /-- The parts are clean. -/
  clean : ∀ p ∈ parts, p.Clean

namespace Cut

/-- Nothing is cut off. -/
theorem nil (text : List Char) : Cut [] text text := ⟨rfl, nofun⟩

/-- One more part is cut off before the others. -/
theorem cons {p : Part} {parts : List Part} (hp : p.Clean) (h : Cut parts rest text) :
    Cut (p :: parts) rest (p.text ++ text) := by
  refine ⟨?_, List.forall_mem_cons.2 ⟨hp, h.clean⟩⟩
  rw [Part.textAll, List.append_assoc, h.append]

/-- A single part is cut off. -/
theorem single {p : Part} (hp : p.Clean) (h : p.text ++ rest = text) : Cut [p] rest text := by
  rw [← h]
  exact (nil rest).cons hp

end Cut

/-! ## Strings -/

/-- A gap in a string holds separators only. -/
theorem clean_lineFeed {blanks after : List Char} (h : text.span isSeparator = (blanks, after)) :
    (Part.gap ('\n' :: blanks)).Clean :=
  Part.clean_gap (List.forall_mem_cons.2 ⟨rfl, (append_of_span h).2⟩)

/-- A string is cut into clean parts. -/
theorem cut_of_stringParts? {bound : Nat} {parts : List Part}
    (h : stringParts? bound text = some (parts, rest)) : Cut parts rest text := by
  fun_induction stringParts? bound text generalizing parts rest with
  | case3 bound after =>
    -- The closing quote.
    cases h
    exact (Cut.nil _).cons (Part.clean_mark _)
  | case4 bound c after _ ih =>
    obtain ⟨⟨others, rest'⟩, hothers, hdone⟩ := Option.bind_eq_some_iff.1 h
    cases hdone
    exact (ih hothers).cons (Part.clean_token _ ['\x5c', c])
  | case7 bound after blanks gap rest' =>
    -- A gap before the closing quote.
    rename_i hblanks
    cases h
    rw [← (append_of_span hblanks).1]
    exact ((Cut.nil _).cons (Part.clean_mark '\x22')).cons (clean_lineFeed hblanks)
  | case8 bound after blanks gap rest' hblanks =>
    -- A gap before a comment.
    rename_i ih
    obtain ⟨⟨comment, afterComment⟩, hcomment, h⟩ := Option.bind_eq_some_iff.1 h
    obtain ⟨⟨others, rest''⟩, hothers, hdone⟩ := Option.bind_eq_some_iff.1 h
    cases hdone
    rw [← (append_of_span hblanks).1, ← append_of_cutComment? hcomment]
    exact ((ih afterComment hothers).cons (Part.clean_token _ ('/' :: comment))).cons
      (clean_lineFeed hblanks)
  | case10 bound c after _ _ _ run rest' hrun ih =>
    obtain ⟨⟨others, rest''⟩, hothers, hdone⟩ := Option.bind_eq_some_iff.1 h
    cases hdone
    rw [← (append_of_span hrun).1]
    exact (ih hothers).cons (Part.clean_token _ (c :: run))
  | _ => cases h

/-! ## Lexemes -/

/-- A lexeme is cut off as one clean part. It is a gap exactly if the text begins with a
separator. -/
theorem cut_of_cutLexeme? {length : Nat} {c : Char} {lexeme : Part}
    (h : cutLexeme? length (c :: text) = some (lexeme, rest)) :
    Cut [lexeme] rest (c :: text) ∧ lexeme.isGap = isSeparator c := by
  unfold cutLexeme? at h
  dsimp only at h
  split at h
  · next hseparator =>
    cases h
    obtain ⟨happend, hblank⟩ := append_of_span
      (show (c :: text).span isSeparator = (_, _) from rfl)
    exact ⟨.single (Part.clean_gap hblank) happend, hseparator.symm⟩
  · next hseparator =>
    rw [Bool.eq_false_iff.2 hseparator]
    split at h
    · -- A punctuation mark.
      cases h
      exact ⟨.single (Part.clean_mark c) rfl, rfl⟩
    · split at h
      · -- A string, which begins with its opening quote.
        next hquote =>
        obtain ⟨⟨parts, after⟩, hparts, hdone⟩ := Option.bind_eq_some_iff.1 h
        cases hdone
        have hcut := cut_of_stringParts? hparts
        have hclean : (Part.group "string" (.mark '\x22' :: parts)).Clean :=
          Part.clean_group rfl (List.forall_mem_cons.2 ⟨Part.clean_mark _, hcut.clean⟩)
        refine ⟨.single hclean ?_, rfl⟩
        rw [eq_of_beq hquote]
        exact congrArg ('\x22' :: ·) hcut.append
      · split at h
        · -- A comment.
          next hslash =>
          obtain ⟨⟨comment, after⟩, hcomment, hdone⟩ := Option.bind_eq_some_iff.1 h
          cases hdone
          refine ⟨.single (Part.clean_token _ _) ?_, rfl⟩
          rw [eq_of_beq hslash]
          exact congrArg ('/' :: ·) (append_of_cutComment? hcomment)
        · split at h
          · next number after hnumber =>
            cases h
            exact ⟨.single (Part.clean_token _ number) (append_of_cutNumber? hnumber), rfl⟩
          · -- What is no number must be one of the three words.
            obtain ⟨word, -, hword⟩ := List.exists_of_findSome?_eq_some h
            obtain ⟨after, hafter, hdone⟩ := Option.map_eq_some_iff.1 hword
            cases hdone
            exact ⟨.single (Part.clean_token _ word.toList) (append_of_cutWord? hafter), rfl⟩

/-- Lexemes of a text: clean parts that make it up, the first gap being as long as it can be. -/
structure Lexed (lexemes : List Part) (text : List Char) : Prop extends Cut lexemes [] text where
  /-- The gaps before the first token hold the separators that the text begins with. -/
  lead : Part.textAll (lexemes.takeWhile Part.isGap) = text.takeWhile isSeparator

/-- A lexeme before others leaves them as long as they can be. -/
theorem Lexed.cons {c : Char} {lexeme : Part} {lexemes : List Part}
    (hcut : Cut [lexeme] rest (c :: text)) (hgap : lexeme.isGap = isSeparator c)
    (h : Lexed lexemes rest) : Lexed (lexeme :: lexemes) (c :: text) := by
  have hclean := hcut.clean lexeme List.mem_cons_self
  have hsplit : lexeme.text ++ rest = c :: text := by
    rw [← hcut.append, Part.textAll, Part.textAll, List.append_nil]
  refine ⟨hsplit ▸ h.toCut.cons hclean, ?_⟩
  by_cases hseparator : isSeparator c = true
  · -- The gap and the separators behind it are all the separators there are.
    rw [hseparator] at hgap
    cases lexeme with
    | gap blanks =>
      have hblanks : ∀ b ∈ blanks, isSeparator b = true :=
        hclean.blank _ List.mem_cons_self rfl
      have htake : (c :: text).takeWhile isSeparator = blanks ++ rest.takeWhile isSeparator := by
        rw [← hsplit]
        exact List.takeWhile_append_of_pos hblanks
      rw [List.takeWhile_cons_of_pos rfl, Part.textAll, h.lead, htake]
      rfl
    | _ => cases hgap
  · rw [List.takeWhile_cons_of_neg hseparator,
      List.takeWhile_cons_of_neg (by rw [hgap]; exact hseparator)]
    rfl

/-- The lexemes of a text are clean and make it up. -/
theorem lexed_of_lexemesWithin? {length : Nat} {lexemes : List Part}
    (h : lexemesWithin? length text = some lexemes) : Lexed lexemes text := by
  fun_induction lexemesWithin? length text generalizing lexemes with
  | case1 =>
    cases h
    exact ⟨.nil [], rfl⟩
  | case2 => cases h
  | case3 length c text ih =>
    obtain ⟨⟨lexeme, after⟩, hlexeme, h⟩ := Option.bind_eq_some_iff.1 h
    obtain ⟨others, hothers, hdone⟩ := Option.bind_eq_some_iff.1 h
    cases hdone
    obtain ⟨hcut, hgap⟩ := cut_of_cutLexeme? hlexeme
    exact .cons hcut hgap (ih after hothers)

/-- The blanks that a text begins with: separators, behind a byte order mark if there is one. -/
def blanks : List Char → List Char
  | '\ufeff' :: rest => '\ufeff' :: rest.takeWhile isSeparator
  | text => text.takeWhile isSeparator

/-- The lexemes of a text may follow a byte order mark, which is a gap of its own. -/
theorem lexed_of_lexemes? {lexemes : List Part} (h : lexemes? text = some lexemes) :
    Lexed lexemes text ∧ blanks text = text.takeWhile isSeparator ∨
      ∃ others after, lexemes = .gap ['\ufeff'] :: others ∧ text = '\ufeff' :: after ∧
        Lexed others after := by
  unfold lexemes? at h
  split at h
  · obtain ⟨others, hothers, hdone⟩ := Option.bind_eq_some_iff.1 h
    cases hdone
    exact .inr ⟨others, _, rfl, rfl, lexed_of_lexemesWithin? hothers⟩
  · next hmark =>
    refine .inl ⟨lexed_of_lexemesWithin? h, ?_⟩
    unfold blanks
    split
    · exact absurd rfl (hmark _)
    · rfl

end TreePanel.Json
