import LineStore.Proofs.Encoding
import LineStore.Text.Blank
import Mathlib.Data.List.SplitBy
import Mathlib.Data.List.TakeWhile

/-!
# The words of a text

`Text.words` divides a text into runs, and keeps those that are not blank.
This module says what it finds, without mentioning runs of blanks.

* `Text.IsWord` is what may stand for a word, `Text.AllBlank` what may stand
  between words.
* `Text.Layout` is the grammar: words, each behind blanks and in front of a
  blank or of the end, and blanks behind the last one.
* `words_eq_iff`: a text has exactly one layout, and `Text.words` finds it.
* `Layout.ascending` and `Layout.exists_slice` are the places of the words.
-/

namespace LineStore.Text

/-- A text that is one word: there is something in it, and nothing blank. -/
def IsWord (text : List Char) : Prop :=
  text ≠ [] ∧ ∀ c ∈ text, isBlank c = false

theorem isWord_iff {text : List Char} :
    IsWord text ↔ text.isEmpty = false ∧ text.any isBlank = false := by
  unfold IsWord
  rw [List.isEmpty_eq_false_iff, List.any_eq_false]
  simp only [Bool.not_eq_true]

instance (text : List Char) : Decidable (IsWord text) :=
  decidable_of_iff _ isWord_iff.symm

/-- A text without anything in it but blanks. -/
def AllBlank (text : List Char) : Prop :=
  ∀ c ∈ text, isBlank c = true

instance (text : List Char) : Decidable (AllBlank text) :=
  decidable_of_iff (text.all isBlank = true) List.all_eq_true

/-- A text that nothing can make a word in front of longer: it is empty, or it
begins with a blank. -/
def Interrupts (text : List Char) : Prop :=
  ∀ c ∈ text.head?, isBlank c = true

/-- The words of a text, with their places, if the text stands behind `start`
bytes.  The words cannot be extended on either side, and what they leave out
is blank. -/
inductive Layout : Nat → List Char → List Word → Prop
  | blanks {start : Nat} {gap : List Char} (hgap : AllBlank gap) : Layout start gap []
  | word {start : Nat} {gap chars rest : List Char} {words : List Word} (hgap : AllBlank gap)
      (hword : IsWord chars) (hrest : Interrupts rest)
      (h : Layout (start + byteCount gap + byteCount chars) rest words) :
    Layout start (gap ++ (chars ++ rest)) (⟨start + byteCount gap, chars⟩ :: words)

/-- The number of bytes in front of what follows a word. -/
def Word.stop (word : Word) : Nat :=
  word.start + word.bytes.length

/-! ## Counting bytes -/

theorem byteCount_eq (text : List Char) : byteCount text = (Utf8.encode text).length := by
  have hfrom : ∀ count, text.foldl (fun count c => count + c.utf8Size) count =
      count + (Utf8.encode text).length := by
    induction text with
    | nil => exact fun count => rfl
    | cons c text ih =>
      intro count
      rw [List.foldl_cons, ih, Utf8.encode_cons, List.length_append,
        String.length_utf8EncodeChar]
      omega
  have hzero := hfrom 0
  rwa [Nat.zero_add] at hzero

theorem byteCount_append (text more : List Char) :
    byteCount (text ++ more) = byteCount text + byteCount more := by
  simp only [byteCount_eq, Utf8.encode_append, List.length_append]

theorem Word.stop_mk (start : Nat) (chars : List Char) :
    Word.stop ⟨start, chars⟩ = start + byteCount chars := by
  rw [byteCount_eq]
  rfl

/-! ## Runs of blanks and of other characters -/

variable {gap chars rest text : List Char} {words : List Word} {start : Nat}

theorem IsWord.any_isBlank (h : IsWord chars) : chars.any isBlank = false :=
  (isWord_iff.mp h).2

/-- A text in which all characters are blank, or none is, is one run. -/
theorem runs_of_forall {blank : Bool} (hne : chars ≠ [])
    (h : ∀ c ∈ chars, isBlank c = blank) : runs chars = [chars] := by
  refine List.splitBy_of_isChain hne (List.Pairwise.isChain ?_)
  refine List.pairwise_of_forall_mem_list ?_
  intro a ha b hb
  rw [h a ha, h b hb]
  exact beq_self_eq_true blank

theorem runs_append {front : List Char} {blank : Bool}
    (hfront : ∀ c ∈ front, isBlank c = blank) (hrest : ∀ c ∈ rest.head?, isBlank c = !blank) :
    runs (front ++ rest) = runs front ++ runs rest := by
  refine List.splitBy_append ?_
  intro a ha b hb
  rw [hfront a (List.mem_of_getLast? ha), hrest b hb]
  cases blank <;> rfl

theorem IsWord.head?_append (h : IsWord chars) :
    ∀ c ∈ (chars ++ rest).head?, isBlank c = false := by
  obtain ⟨hne, hblank⟩ := h
  obtain ⟨first, others, rfl⟩ := List.exists_cons_of_ne_nil hne
  intro c hc
  obtain rfl : first = c := Option.some.inj hc
  exact hblank first List.mem_cons_self

theorem wordsOfRuns_eq (start : Nat) (found : List Word) (runs : List (List Char)) :
    wordsOfRuns start found runs = found.reverse ++ wordsOfRuns start [] runs := by
  induction runs generalizing start found with
  | nil => simp [wordsOfRuns]
  | cons run runs ih =>
    rw [wordsOfRuns, wordsOfRuns, ih, ih _ (if run.any isBlank then [] else _)]
    split <;> simp

theorem wordsOfRuns_blanks (hgap : AllBlank gap) (start : Nat) (others : List (List Char)) :
    wordsOfRuns start [] (runs gap ++ others) =
      wordsOfRuns (start + byteCount gap) [] others := by
  by_cases hne : gap = []
  · subst hne
    rfl
  · obtain ⟨first, more, rfl⟩ := List.exists_cons_of_ne_nil hne
    have hany : (first :: more).any isBlank = true :=
      List.any_eq_true.mpr ⟨first, List.mem_cons_self, hgap first List.mem_cons_self⟩
    rw [runs_of_forall hne hgap, List.singleton_append, wordsOfRuns, if_pos hany]

theorem wordsOfRuns_word (hword : IsWord chars) (start : Nat) (others : List (List Char)) :
    wordsOfRuns start [] (runs chars ++ others) =
      ⟨start, chars⟩ :: wordsOfRuns (start + byteCount chars) [] others := by
  rw [runs_of_forall hword.1 hword.2, List.singleton_append, wordsOfRuns,
    if_neg (by simp [hword.any_isBlank]), wordsOfRuns_eq]
  rfl

/-! ## Every text has one layout -/

theorem Layout.wordsOfRuns_eq (h : Layout start text words) :
    wordsOfRuns start [] (runs text) = words := by
  induction h with
  | @blanks start gap hgap =>
    have hnone := wordsOfRuns_blanks hgap start []
    rwa [List.append_nil] at hnone
  | @word start gap chars rest words hgap hword hrest _ ih =>
    rw [runs_append hgap hword.head?_append, runs_append hword.2 hrest, wordsOfRuns_blanks hgap,
      wordsOfRuns_word hword, ih]

/-- A text that is not blank has a first word. -/
theorem allBlank_or_exists_word (text : List Char) :
    AllBlank text ∨ ∃ gap chars rest, text = gap ++ (chars ++ rest) ∧ AllBlank gap ∧
      IsWord chars ∧ Interrupts rest := by
  have htext : text.takeWhile isBlank ++ text.dropWhile isBlank = text :=
    List.takeWhile_append_dropWhile
  have hgap : AllBlank (text.takeWhile isBlank) := fun c hc => List.mem_takeWhile_imp hc
  cases hafter : text.dropWhile isBlank with
  | nil =>
    rw [hafter, List.append_nil] at htext
    exact .inl (htext ▸ hgap)
  | cons c after =>
    have hc : isBlank c = false := by
      have hhead := List.head?_dropWhile_not isBlank text
      rw [hafter] at hhead
      simpa using hhead
    let isOther : Char → Bool := fun c => !isBlank c
    have hparts : (c :: after).takeWhile isOther ++ (c :: after).dropWhile isOther = c :: after :=
      List.takeWhile_append_dropWhile
    refine .inr ⟨_, (c :: after).takeWhile isOther, (c :: after).dropWhile isOther, ?_, hgap,
      ⟨?_, ?_⟩, ?_⟩
    · rw [hparts, ← hafter, htext]
    · simp [isOther, hc]
    · intro d hd
      simpa [isOther] using List.mem_takeWhile_imp hd
    · intro d hd
      have hhead := List.head?_dropWhile_not isOther (c :: after)
      rw [Option.mem_def.mp hd] at hhead
      simpa [isOther] using hhead

theorem exists_layout (start : Nat) (text : List Char) : ∃ words, Layout start text words := by
  induction hn : text.length using Nat.strongRecOn generalizing start text with
  | ind n ih =>
    rcases allBlank_or_exists_word text with hblank | hword
    · exact ⟨[], .blanks hblank⟩
    · obtain ⟨gap, chars, rest, rfl, hgap, hchars, hrest⟩ := hword
      have hpos := List.length_pos_iff.mpr hchars.1
      have hlt : rest.length < n := by
        rw [← hn, List.length_append, List.length_append]
        omega
      obtain ⟨words, hwords⟩ :=
        ih rest.length hlt (start + byteCount gap + byteCount chars) rest rfl
      exact ⟨_, .word hgap hchars hrest hwords⟩

/-- The words of a text are those of its layout, which is the only one. -/
theorem words_eq_iff : Text.words text = words ↔ Layout 0 text words := by
  constructor
  · rintro rfl
    obtain ⟨words, hlayout⟩ := exists_layout 0 text
    rwa [← hlayout.wordsOfRuns_eq] at hlayout
  · exact Layout.wordsOfRuns_eq

/-! ## The words and their places -/

theorem Layout.isWord (h : Layout start text words) : ∀ word ∈ words, IsWord word.chars := by
  induction h with
  | blanks => simp
  | word _ hword _ _ ih => exact List.forall_mem_cons.mpr ⟨hword, ih⟩

theorem Layout.start_le (h : Layout start text words) : ∀ word ∈ words, start ≤ word.start := by
  induction h with
  | blanks => simp
  | word _ _ _ _ ih =>
    refine List.forall_mem_cons.mpr ⟨Nat.le_add_right _ _, ?_⟩
    intro later hlater
    have hle := ih later hlater
    omega

/-- Between two words there is a blank at least. -/
theorem Layout.start_lt (h : Layout start text words) (hi : Interrupts text) :
    ∀ word ∈ words, start < word.start := by
  cases h with
  | blanks => simp
  | @word _ gap chars rest words hgap hword hrest h =>
    have hne : gap ≠ [] := by
      rintro rfl
      obtain ⟨first, others, rfl⟩ := List.exists_cons_of_ne_nil hword.1
      have hblank := hi first rfl
      rw [hword.2 first List.mem_cons_self] at hblank
      simp at hblank
    have hpos : 0 < byteCount gap := by
      obtain ⟨first, others, rfl⟩ := List.exists_cons_of_ne_nil hne
      rw [byteCount_eq, Utf8.encode_cons, List.length_append, String.length_utf8EncodeChar]
      have hsize := first.utf8Size_pos
      omega
    refine List.forall_mem_cons.mpr ⟨Nat.lt_add_of_pos_right hpos, ?_⟩
    intro later hlater
    have hle := h.start_le later hlater
    omega

/-- The words stand one behind another, with something between them. -/
theorem Layout.ascending (h : Layout start text words) :
    words.Pairwise fun first second => first.stop < second.start := by
  induction h with
  | blanks => exact List.Pairwise.nil
  | word _ _ hrest h ih =>
    refine List.pairwise_cons.mpr ⟨?_, ih⟩
    intro later hlater
    rw [Word.stop_mk]
    exact h.start_lt hrest later hlater

/-- A word is a part of the text, at its place. -/
theorem Layout.exists_slice (h : Layout start text words) :
    ∀ word ∈ words, ∃ before after,
      text = before ++ (word.chars ++ after) ∧ word.start = start + byteCount before := by
  induction h with
  | blanks => simp
  | @word start gap chars rest words hgap hword hrest _ ih =>
    refine List.forall_mem_cons.mpr ⟨⟨gap, rest, rfl, rfl⟩, ?_⟩
    intro later hlater
    obtain ⟨before, after, hslice, hstart⟩ := ih later hlater
    refine ⟨gap ++ (chars ++ before), after, by simp [hslice], ?_⟩
    rw [hstart, byteCount_append, byteCount_append]
    omega

/-- The bytes of a word are the slice of the text's bytes at its place. -/
theorem Layout.slice (h : Layout 0 text words) {word : Word} (hmem : word ∈ words) :
    word.stop ≤ (Utf8.encode text).length ∧
      ((Utf8.encode text).drop word.start).take word.bytes.length = word.bytes := by
  obtain ⟨before, after, rfl, hstart⟩ := h.exists_slice word hmem
  rw [Nat.zero_add, byteCount_eq] at hstart
  rw [Utf8.encode_append, Utf8.encode_append, Word.stop, hstart]
  constructor
  · simp [Word.bytes]
  · rw [List.drop_left' rfl]
    exact List.take_left' rfl

end LineStore.Text
