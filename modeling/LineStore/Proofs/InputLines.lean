import LineStore.Console
import LineStore.Proofs.Lines
import LineStore.Proofs.RequestGrammar

/-!
# Lines of input

Input comes as bytes, and is read as lines of text.  A line loses its blanks at
both ends before it is sent.  This module says that neither changes what the
line asks for.

* `Text.lines` divides a text as `Console.inputLines` divides its bytes, by
  `Console.inputLines_encode`.
* `Text.trims_trim`: trimming takes the blanks off both ends, and nothing else.
* `Command.executeLine_trim`: a line is executed as if it had been trimmed.
* `Console.isFarewell_trim_iff` spells out what ends a dialogue.
-/

namespace LineStore

/-! ## Pieces of bytes and pieces of text -/

namespace Bytes

theorem linesAndTail_eq_splitOn (bytes : Bytes) :
    linesAndTail bytes = bytes.splitOn newline := by
  induction bytes with
  | nil => rfl
  | cons byte bytes ih =>
    rw [List.splitOn_cons_eq_if_modifyHead, ← ih]
    unfold linesAndTail
    by_cases hb : byte = newline
    · rw [hb, cutLines_newline]
      rfl
    · rw [cutLines_cons hb, if_neg (by simpa using hb)]
      rcases cutLines bytes with ⟨lines, tail⟩
      cases lines <;> rfl

theorem splitOn_append {front : Bytes} (h : newline ∉ front) (rest : Bytes) :
    (front ++ rest).splitOn newline = (rest.splitOn newline).modifyHead (front ++ ·) := by
  induction front with
  | nil =>
    rw [List.nil_append]
    cases rest.splitOn newline <;> rfl
  | cons byte front ih =>
    rcases not_or.mp (mt List.mem_cons.mpr h) with ⟨hb, hfront⟩
    rw [List.cons_append, List.splitOn_cons_eq_if_modifyHead, ih hfront,
      if_neg (by simpa using Ne.symm hb), List.modifyHead_modifyHead]
    rfl

end Bytes

namespace Utf8

/-- The pieces of the bytes of a text are those of the text. -/
theorem splitOn_encode (text : List Char) :
    (encode text).splitOn Bytes.newline = (text.splitOn '\n').map encode := by
  induction text with
  | nil => rfl
  | cons c text ih =>
    rw [List.splitOn_cons_eq_if_modifyHead]
    by_cases hc : c = '\n'
    · subst hc
      show (Bytes.newline :: encode text).splitOn Bytes.newline = _
      rw [List.splitOn_cons_eq_if_modifyHead, ih]
      rfl
    · have hbytes : Bytes.newline ∉ String.utf8EncodeChar c := fun hmem =>
        hc (newline_mem_utf8EncodeChar.mp hmem)
      rw [encode_cons, Bytes.splitOn_append hbytes, ih, if_neg (by simpa using hc)]
      cases text.splitOn '\n' <;> rfl

/-- A carriage return at the end of the bytes is one at the end of the text. -/
theorem getLast?_encode_eq_return_iff {text : List Char} :
    (encode text).getLast? = some 13 ↔ text.getLast? = some '\r' := by
  rcases text.eq_nil_or_concat with rfl | ⟨front, last, rfl⟩
  · simp
  · have hlast : last = '\r' ↔ last.val.toNat = 13 := by
      rw [Char.ext_iff, ← UInt32.toNat_inj]
      rfl
    rw [List.concat_eq_append, encode_append, List.getLast?_concat, Option.some.injEq]
    constructor
    · intro h
      have hne : encode [last] ≠ [] := by simp [String.utf8EncodeChar_ne_nil]
      rw [List.getLast?_append_of_ne_nil _ hne] at h
      have hmem : (13 : UInt8) ∈ encode [last] := List.mem_of_getLast? h
      rw [encode_cons, encode_nil, List.append_nil] at hmem
      exact hlast.mpr ((ofNat_mem_utf8EncodeChar (by decide)).mp hmem)
    · rintro rfl
      exact List.getLast?_concat

end Utf8

/-! ## Lines -/

/-- A line without a carriage return at its end. -/
def Text.withoutReturn (line : List Char) : List Char :=
  if line.getLast? = some '\r' then line.dropLast else line

/-- The lines of a text.  Each newline ends one, together with a carriage return
in front of it, and what no newline ends is a line too. -/
def Text.lines (text : List Char) : List (List Char) :=
  let pieces := text.splitOn '\n'
  pieces.dropLast.map withoutReturn ++ pieces.getLast?.toList.filter (· ≠ [])

namespace Text

theorem newline_notMem_of_mem_splitOn {text piece : List Char} (h : piece ∈ text.splitOn '\n') :
    '\n' ∉ piece := by
  induction text generalizing piece with
  | nil =>
    rw [List.splitOn_nil, List.mem_singleton] at h
    rw [h]
    exact List.not_mem_nil
  | cons c text ih =>
    rw [List.splitOn_cons_eq_if_modifyHead] at h
    by_cases hc : c = '\n'
    · rw [if_pos (by simpa using hc)] at h
      rcases List.mem_cons.mp h with rfl | hmem
      · exact List.not_mem_nil
      · exact ih hmem
    · rw [if_neg (by simpa using hc)] at h
      rcases List.exists_cons_of_ne_nil (List.splitOn_ne_nil '\n' text) with ⟨first, more, hpieces⟩
      rw [hpieces, List.modifyHead_cons] at h
      rw [hpieces] at ih
      rcases List.mem_cons.mp h with rfl | hmem
      · exact mt List.mem_cons.mp (not_or.mpr ⟨Ne.symm hc, ih List.mem_cons_self⟩)
      · exact ih (List.mem_cons_of_mem first hmem)

/-- There is no newline in a line. -/
theorem newline_notMem_of_mem_lines {text line : List Char} (h : line ∈ lines text) :
    '\n' ∉ line := by
  rcases List.mem_append.mp h with hended | hlast
  · rcases List.mem_map.mp hended with ⟨piece, hpiece, rfl⟩
    have hnone := newline_notMem_of_mem_splitOn ((List.dropLast_sublist _).mem hpiece)
    unfold withoutReturn
    split
    · exact mt (List.dropLast_sublist piece).mem hnone
    · exact hnone
  · have hpiece := (List.mem_filter.mp hlast).1
    exact newline_notMem_of_mem_splitOn (List.mem_of_getLast? (Option.mem_toList.mp hpiece))

end Text

namespace Console

theorem withoutReturn_encode (line : List Char) :
    (if (Utf8.encode line).getLast? = some 13 then (Utf8.encode line).dropLast
      else Utf8.encode line) = Utf8.encode (Text.withoutReturn line) := by
  unfold Text.withoutReturn
  by_cases hreturn : line.getLast? = some '\r'
  · rcases List.getLast?_eq_some_iff.mp hreturn with ⟨front, rfl⟩
    rw [if_pos (Utf8.getLast?_encode_eq_return_iff.mpr hreturn), if_pos hreturn,
      Utf8.encode_append, List.dropLast_concat]
    exact List.dropLast_concat
  · rw [if_neg (mt Utf8.getLast?_encode_eq_return_iff.mp hreturn), if_neg hreturn]

/-- The lines of the bytes of a text are the bytes of its lines. -/
theorem inputLines_encode (text : List Char) :
    inputLines (Utf8.encode text) = (Text.lines text).map Utf8.encode := by
  rcases List.eq_nil_or_concat (text.splitOn '\n') with hnil | ⟨pieces, last, hpieces⟩
  · exact absurd hnil (List.splitOn_ne_nil '\n' text)
  · have hbytes : Bytes.linesAndTail (Utf8.encode text) = _ :=
      (Bytes.linesAndTail_eq_splitOn _).trans (Utf8.splitOn_encode text)
    rw [hpieces, List.concat_eq_append, List.map_append, List.map_singleton] at hbytes
    rcases List.append_inj' hbytes rfl with ⟨hlines, htail⟩
    replace htail : (Bytes.cutLines (Utf8.encode text)).2 = Utf8.encode last :=
      List.singleton_inj.mp htail
    unfold inputLines Text.lines
    simp only [hlines, htail, hpieces, List.concat_eq_append, List.dropLast_concat,
      List.getLast?_concat, List.map_append, List.map_map]
    congr 1
    · exact List.map_congr_left fun line _ => withoutReturn_encode line
    · cases last with
      | nil => rfl
      | cons c last => simp [String.utf8EncodeChar_ne_nil]

end Console

/-! ## Trimming -/

namespace Text

variable {start start' : Nat} {lead trail text : List Char} {words words' : List Word}

theorem exists_trimStart (text : List Char) :
    ∃ lead, AllBlank lead ∧ text = lead ++ trimStart text :=
  ⟨text.takeWhile isBlank, fun _ hc => List.mem_takeWhile_imp hc,
    List.takeWhile_append_dropWhile.symm⟩

theorem AllBlank.reverse (h : AllBlank text) : AllBlank text.reverse :=
  fun c hc => h c (List.mem_reverse.mp hc)

theorem AllBlank.append (h : AllBlank lead) (h' : AllBlank trail) : AllBlank (lead ++ trail) :=
  List.forall_mem_append.mpr ⟨h, h'⟩

theorem head?_trimStart (text : List Char) : ∀ c ∈ (trimStart text).head?, isBlank c = false := by
  intro c hc
  have hhead := List.head?_dropWhile_not isBlank text
  have hfirst : (text.dropWhile isBlank).head? = some c := hc
  rwa [hfirst] at hhead

/-- A trimmed text and the blanks behind it make up the text from its first other
character on. -/
theorem exists_trimEnd (text : List Char) :
    ∃ trail, AllBlank trail ∧ trimStart text = trim text ++ trail := by
  rcases exists_trimStart (trimStart text).reverse with ⟨trail, htrail, hrest⟩
  refine ⟨trail.reverse, htrail.reverse, ?_⟩
  rw [← List.reverse_reverse (trimStart text), hrest, List.reverse_append]
  rfl

/-- Tells that `text` is what a line holds between the blanks at its ends. -/
structure Trims (line text : List Char) : Prop where
  between : ∃ lead trail, AllBlank lead ∧ AllBlank trail ∧ line = lead ++ (text ++ trail)
  first : ∀ c ∈ text.head?, isBlank c = false
  last : ∀ c ∈ text.getLast?, isBlank c = false

theorem trims_trim (line : List Char) : Trims line (trim line) := by
  rcases exists_trimStart line with ⟨lead, hlead, hline⟩
  rcases exists_trimEnd line with ⟨trail, htrail, hrest⟩
  constructor
  · exact ⟨lead, trail, hlead, htrail, by rw [← hrest, ← hline]⟩
  · intro c hc
    refine head?_trimStart line c ?_
    rw [hrest, List.head?_append, Option.mem_def.mp hc]
    rfl
  · intro c hc
    have hreverse : (trim line).getLast? = (trimStart (trimStart line).reverse).head? :=
      List.getLast?_reverse
    rw [hreverse] at hc
    exact head?_trimStart _ c hc

theorem mem_of_mem_trim {c : Char} (h : c ∈ trim text) : c ∈ text := by
  rcases (trims_trim text).between with ⟨lead, trail, -, -, htext⟩
  rw [htext]
  exact List.mem_append_right _ (List.mem_append_left _ h)

/-- Nothing is left of blanks. -/
theorem trim_eq_nil_iff : trim text = [] ↔ AllBlank text := by
  constructor
  · intro hnil
    rcases (trims_trim text).between with ⟨lead, trail, hlead, htrail, htext⟩
    rw [hnil] at htext
    rw [htext]
    exact hlead.append htrail
  · intro hblank
    by_contra hne
    rcases List.exists_cons_of_ne_nil hne with ⟨first, rest, htrim⟩
    have hfirst : isBlank first = false := (trims_trim text).first first (by rw [htrim]; rfl)
    rw [hblank first (mem_of_mem_trim (htrim ▸ List.mem_cons_self))] at hfirst
    exact Bool.noConfusion hfirst

/-! ## The words of a trimmed text -/

theorem map_chars_wordsOfRuns (start : Nat) (runs : List (List Char)) :
    (wordsOfRuns start [] runs).map Word.chars = runs.filter fun run => !run.any isBlank := by
  induction runs generalizing start with
  | nil => rfl
  | cons run runs ih =>
    rw [wordsOfRuns, wordsOfRuns_eq, List.map_append, ih]
    cases hblank : run.any isBlank <;> simp [hblank]

/-- The words of a text do not depend on where it stands. -/
theorem Layout.chars_eq (h : Layout start text words) (h' : Layout start' text words') :
    words.map Word.chars = words'.map Word.chars := by
  rw [← h.wordsOfRuns_eq, ← h'.wordsOfRuns_eq, map_chars_wordsOfRuns, map_chars_wordsOfRuns]

theorem Interrupts.append_blanks (h : Interrupts text) (htrail : AllBlank trail) :
    Interrupts (text ++ trail) := by
  cases text with
  | nil => exact htrail.interrupts
  | cons c text => exact h

/-- Blanks behind a text add no word. -/
theorem Layout.append_blanks (h : Layout start text words) (htrail : AllBlank trail) :
    Layout start (text ++ trail) words := by
  induction h with
  | blanks hgap => exact .blanks (hgap.append htrail)
  | word hgap hword hrest _ ih =>
    rw [List.append_assoc, List.append_assoc]
    exact .word hgap hword (hrest.append_blanks htrail) ih

/-- Blanks in front of a text move its words, and add none. -/
theorem Layout.behind_blanks (h : Layout (start + byteCount lead) text words)
    (hlead : AllBlank lead) : Layout start (lead ++ text) words := by
  cases h with
  | blanks hgap => exact .blanks (hlead.append hgap)
  | word hgap hword hrest hlater =>
    rw [Nat.add_assoc start, ← byteCount_append] at hlater ⊢
    rw [← List.append_assoc]
    exact .word (hlead.append hgap) hword hrest hlater

theorem map_chars_words_trim (text : List Char) :
    (Text.words (trim text)).map Word.chars = (Text.words text).map Word.chars := by
  rcases (trims_trim text).between with ⟨lead, trail, hlead, htrail, htext⟩
  rcases exists_layout (0 + byteCount lead) (trim text) with ⟨words, hwords⟩
  have hwhole : Layout 0 text words := by
    rw [htext]
    exact (hwords.append_blanks htrail).behind_blanks hlead
  rw [words_eq_iff.mpr hwhole]
  exact (words_eq_iff.mp rfl : Layout 0 (trim text) _).chars_eq hwords

end Text

namespace Command

theorem map_ofArguments? {α β : Type} (f : α → β) (verb : Verb) (arguments : List α) :
    (ofArguments? verb arguments).map (Command.map f) = ofArguments? verb (arguments.map f) := by
  cases hcommand : ofArguments? verb arguments with
  | none =>
    rw [ofArguments?_eq_none_iff] at hcommand
    exact (ofArguments?_eq_none_iff.mpr (by rwa [List.length_map])).symm
  | some command =>
    rcases ofArguments?_eq_some_iff.mp hcommand with ⟨hverb, harguments⟩
    refine (ofArguments?_eq_some_iff.mpr ⟨?_, ?_⟩).symm
    · cases command <;> exact hverb
    · rw [arguments_map, harguments]

/-- What words are read as depends on their characters, and not on their places. -/
theorem ofWords_congr {words words' : List Text.Word}
    (h : words.map Text.Word.chars = words'.map Text.Word.chars) :
    (ofWords words).map (Command.map Text.Word.bytes) =
      (ofWords words').map (Command.map Text.Word.bytes) := by
  cases words with
  | nil => rw [List.map_eq_nil_iff.mp h.symm]
  | cons first arguments =>
    rcases List.map_eq_cons_iff.mp h.symm with ⟨first', arguments', rfl, hfirst, harguments⟩
    have hlength : arguments'.length = arguments.length := by
      simpa using congrArg List.length harguments
    have hbytes : arguments'.map Text.Word.bytes = arguments.map Text.Word.bytes := by
      have hencoded := congrArg (List.map Utf8.encode) harguments
      rwa [List.map_map, List.map_map] at hencoded
    simp only [ofWords, Text.Word.toString, hfirst, hlength]
    cases Verb.ofWord? first.chars with
    | none => rfl
    | some verb =>
      have hsame := map_ofArguments? Text.Word.bytes verb arguments
      rw [← hbytes, ← map_ofArguments?] at hsame
      dsimp only
      cases hread : ofArguments? verb arguments with
      | none =>
        rw [hread, Option.map_none, eq_comm, Option.map_eq_none_iff] at hsame
        rw [hsame]
      | some command =>
        rw [hread, Option.map_some, eq_comm, Option.map_eq_some_iff] at hsame
        rcases hsame with ⟨command', hread', hsame⟩
        rw [hread']
        exact congrArg Except.ok hsame.symm

/-- A line is executed as if it had been trimmed. -/
theorem executeLine_trim (store : Store) (text : List Char) :
    executeLine store (Utf8.encode (Text.trim text)) = executeLine store (Utf8.encode text) := by
  unfold executeLine
  rw [ofLine_encode, ofLine_encode, ofWords_congr (Text.map_chars_words_trim text)]

end Command

/-! ## The end of a dialogue -/

namespace Console

/-- A line that ends a dialogue: between blanks it holds one of two words, and each
letter is lower case or upper case. -/
def Dismisses (line : List Char) : Prop :=
  ∃ word ∈ ["quit", "exit"],
    List.Forall₂ (fun c lower => c = lower ∨ c = lower.toUpper) (Text.trim line) word.toList

instance : DecidablePred Dismisses := fun _ =>
  inferInstanceAs (Decidable (∃ word ∈ ["quit", "exit"], List.Forall₂ _ _ _))

theorem toLower_eq_iff {c lower : Char} (h : lower.isLower = true) :
    c.toLower = lower ↔ c = lower ∨ c = lower.toUpper := by
  have hlower : 'a'.val ≤ lower.val ∧ lower.val ≤ 'z'.val := by
    rcases (Bool.and_eq_true _ _).mp h with ⟨hlow, hhigh⟩
    exact ⟨of_decide_eq_true hlow, of_decide_eq_true hhigh⟩
  have hrange : 97 ≤ lower.val.toNat ∧ lower.val.toNat ≤ 122 := hlower
  have hupper : lower.toUpper.val.toNat = lower.val.toNat - 32 := by
    have hto : lower.toUpper = _ := dif_pos hlower
    rw [hto]
    -- the difference of the two alphabets, modulo the width
    show (lower.val + 4294967264).toNat = _
    rw [UInt32.toNat_add]
    show (lower.val.toNat + 4294967264) % 2 ^ 32 = _
    omega
  simp only [Char.ext_iff, ← UInt32.toNat_inj, hupper]
  delta Char.toLower
  split
  · rename_i hc
    have hlarge : 65 ≤ c.val.toNat ∧ c.val.toNat ≤ 90 := hc
    show (c.val + 32).toNat = _ ↔ _
    rw [UInt32.toNat_add]
    show (c.val.toNat + 32) % 2 ^ 32 = _ ↔ _
    omega
  · rename_i hc
    have hother : ¬ (65 ≤ c.val.toNat ∧ c.val.toNat ≤ 90) := hc
    omega

theorem isFarewell_trim_iff {line : List Char} :
    isFarewell (Text.trim line) = true ↔ Dismisses line := by
  have hspell : ∀ word ∈ ["quit", "exit"], ((Text.trim line).map Char.toLower = word.toList ↔
      List.Forall₂ (fun c lower => c = lower ∨ c = lower.toUpper) (Text.trim line)
        word.toList) := by
    intro word hword
    have hletters : word.toList.all Char.isLower = true := by
      rcases List.mem_cons.mp hword with rfl | hexit
      · decide
      · rw [List.mem_singleton.mp hexit]
        decide
    exact Verb.map_eq_iff_forall₂ fun lower hmem _ =>
      toLower_eq_iff (List.all_eq_true.mp hletters lower hmem)
  have heither : isFarewell (Text.trim line) = true ↔
      ∃ word ∈ ["quit", "exit"], (Text.trim line).map Char.toLower = word.toList := by
    simp [isFarewell]
  rw [heither]
  exact exists_congr fun word => and_congr_right (hspell word)

end Console

end LineStore
