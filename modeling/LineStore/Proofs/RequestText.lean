import LineStore.Command.Line
import LineStore.Proofs.Decoding
import LineStore.Proofs.Words

/-!
# Request lines that are written word by word

A request line is a verb and its arguments with blanks between them.  This
module says that the server reads the same words, whatever characters they are
made of, as long as none of them is a blank, and whatever blanks stand between
them.

* `Text.behindGaps` writes texts, each behind a gap, and
  `Text.exists_layout_behindGaps` finds them.
* `Verb.Spells` says how a verb may be written, and `Verb.ofWord?_eq_some_iff`
  that nothing else is read as it.
* `Command.ofLine_written` reads back a whole command, and
  `Command.ofLine_requestText` the form in which clients write it.
-/

namespace LineStore

namespace Text

/-- Texts, each behind a gap. -/
def behindGaps (parts : List (List Char × List Char)) : List Char :=
  parts.flatMap fun (gap, chars) => gap ++ chars

@[simp] theorem behindGaps_nil : behindGaps [] = [] := rfl

@[simp] theorem behindGaps_cons (gap chars : List Char) (parts : List (List Char × List Char)) :
    behindGaps ((gap, chars) :: parts) = gap ++ (chars ++ behindGaps parts) := by
  simp [behindGaps]

/-- A gap that separates two words. -/
def IsGap (gap : List Char) : Prop :=
  gap ≠ [] ∧ AllBlank gap

instance (gap : List Char) : Decidable (IsGap gap) :=
  inferInstanceAs (Decidable (gap ≠ [] ∧ AllBlank gap))

theorem AllBlank.interrupts {gap : List Char} (h : AllBlank gap) : Interrupts gap :=
  fun c hc => h c (List.mem_of_head? hc)

theorem IsGap.interrupts {gap : List Char} (h : IsGap gap) (rest : List Char) :
    Interrupts (gap ++ rest) := by
  obtain ⟨first, more, rfl⟩ := List.exists_cons_of_ne_nil h.1
  intro c hc
  obtain rfl : first = c := Option.some.inj hc
  exact h.2 first List.mem_cons_self

/-- Words that were written with gaps between them, and with blanks at both
ends, are found again. -/
theorem exists_layout_behindGaps {lead first trail : List Char}
    {parts : List (List Char × List Char)} (start : Nat) (hlead : AllBlank lead)
    (hfirst : IsWord first) (htrail : AllBlank trail)
    (hparts : ∀ part ∈ parts, IsGap part.1 ∧ IsWord part.2) :
    ∃ words, Layout start (lead ++ (first ++ (behindGaps parts ++ trail))) words ∧
      words.map Word.chars = first :: parts.map Prod.snd := by
  induction parts generalizing start lead first with
  | nil => exact ⟨_, .word hlead hfirst htrail.interrupts (.blanks htrail), rfl⟩
  | cons part parts ih =>
    obtain ⟨gap, chars⟩ := part
    obtain ⟨⟨hgap, hchars⟩, hrest⟩ := List.forall_mem_cons.mp hparts
    obtain ⟨words, hlayout, hwords⟩ :=
      ih (start + byteCount lead + byteCount first) hgap.2 hchars hrest
    refine ⟨⟨start + byteCount lead, first⟩ :: words, ?_, ?_⟩
    · rw [behindGaps_cons]
      simp only [List.append_assoc]
      exact .word hlead hfirst (hgap.interrupts _) hlayout
    · rw [List.map_cons, hwords]
      rfl

/-- Words with single spaces between them. -/
def unwords (texts : List (List Char)) : List Char :=
  [' '].intercalate texts

@[simp] theorem unwords_singleton (text : List Char) : unwords [text] = text :=
  List.intercalate_singleton

@[simp] theorem unwords_cons_cons (text next : List Char) (texts : List (List Char)) :
    unwords (text :: next :: texts) = text ++ ' ' :: unwords (next :: texts) := by
  simp [unwords]

/-- Single spaces are gaps. -/
theorem unwords_cons (text : List Char) (texts : List (List Char)) :
    unwords (text :: texts) = text ++ behindGaps (texts.map fun text => ([' '], text)) := by
  induction texts generalizing text with
  | nil => simp
  | cons next texts ih => simp [ih]

theorem newline_notMem_unwords {texts : List (List Char)} (h : ∀ text ∈ texts, IsWord text) :
    '\n' ∉ unwords texts := by
  induction texts with
  | nil => exact List.not_mem_nil
  | cons text texts ih =>
    obtain ⟨hword, hwords⟩ := List.forall_mem_cons.mp h
    have htext : '\n' ∉ text := by
      intro hmem
      exact Bool.noConfusion (hword.2 _ hmem)
    cases texts with
    | nil => rwa [unwords_singleton]
    | cons next texts =>
      rw [unwords_cons_cons, List.mem_append, List.mem_cons]
      intro hmem
      rcases hmem with hfirst | hspace | hlater
      · exact htext hfirst
      · exact absurd hspace (by decide)
      · exact ih hwords hlater

end Text

namespace Verb

theorem isWord_name (verb : Verb) : Text.IsWord verb.name.toList := by
  cases verb <;> decide

/-- The ways to write a verb: each letter is upper case or lower case. -/
def Spells (verb : Verb) (word : List Char) : Prop :=
  List.Forall₂ (fun c upper => c = upper ∨ c = upper.toLower) word verb.name.toList

instance (verb : Verb) (word : List Char) : Decidable (verb.Spells word) :=
  inferInstanceAs (Decidable (List.Forall₂ _ _ _))

theorem spells_name (verb : Verb) : verb.Spells verb.name.toList := by
  cases verb <;> decide

theorem isWord_of_forall₂ {word name : List Char} (hne : name ≠ [])
    (hname : ∀ c ∈ name, (!Text.isBlank c && !Text.isBlank c.toLower) = true)
    (h : List.Forall₂ (fun c upper => c = upper ∨ c = upper.toLower) word name) :
    Text.IsWord word := by
  refine ⟨fun hnil => hne (List.forall₂_nil_left_iff.mp (hnil ▸ h)), ?_⟩
  clear hne
  induction h with
  | nil => simp
  | cons hc _ ih =>
    obtain ⟨hfirst, hrest⟩ := List.forall_mem_cons.mp hname
    obtain ⟨hupper, hlower⟩ := Bool.and_eq_true_iff.mp hfirst
    refine List.forall_mem_cons.mpr ⟨?_, ih hrest⟩
    rcases hc with rfl | rfl
    · exact Bool.not_eq_true' _ ▸ hupper
    · exact Bool.not_eq_true' _ ▸ hlower

theorem Spells.isWord {verb : Verb} {word : List Char} (h : verb.Spells word) :
    Text.IsWord word := by
  refine isWord_of_forall₂ verb.isWord_name.1 (List.all_eq_true.mp ?_) h
  cases verb <;> decide

theorem toUpper_eq_iff {c upper : Char} (h : upper.isUpper = true) :
    c.toUpper = upper ↔ c = upper ∨ c = upper.toLower := by
  have hupper := of_decide_eq_true h
  have hrange : 65 ≤ upper.val.toNat ∧ upper.val.toNat ≤ 90 := hupper
  have hlower : upper.toLower.val.toNat = upper.val.toNat + 32 := by
    have hto : upper.toLower = _ := dif_pos hupper
    rw [hto]
    show (upper.val + 32).toNat = _
    rw [UInt32.toNat_add]
    show (upper.val.toNat + 32) % 2 ^ 32 = _
    omega
  simp only [Char.ext_iff, ← UInt32.toNat_inj, hlower]
  delta Char.toUpper
  split
  · rename_i hc
    have hsmall : 97 ≤ c.val.toNat ∧ c.val.toNat ≤ 122 := hc
    -- the difference of the two alphabets, modulo the width
    show (c.val + 4294967264).toNat = _ ↔ _
    rw [UInt32.toNat_add]
    show (c.val.toNat + 4294967264) % 2 ^ 32 = _ ↔ _
    omega
  · rename_i hc
    have hother : ¬ (97 ≤ c.val.toNat ∧ c.val.toNat ≤ 122) := hc
    omega

/-- A text comes to be another one, letter by letter. -/
theorem map_eq_iff_forall₂ {f : Char → Char} {R : Char → Char → Prop} {word name : List Char}
    (h : ∀ letter ∈ name, ∀ c, f c = letter ↔ R c letter) :
    word.map f = name ↔ List.Forall₂ R word name := by
  induction word generalizing name with
  | nil => simp [eq_comm]
  | cons c word ih =>
    cases name with
    | nil => simp
    | cons letter name =>
      rcases List.forall_mem_cons.mp h with ⟨hletter, hname⟩
      rw [List.map_cons, List.cons.injEq, List.forall₂_cons, ih hname, hletter]

theorem map_toUpper_eq_iff {word name : List Char} (h : ∀ c ∈ name, c.isUpper = true) :
    name = word.map Char.toUpper ↔
      List.Forall₂ (fun c upper => c = upper ∨ c = upper.toLower) word name := by
  rw [eq_comm]
  exact map_eq_iff_forall₂ fun upper hupper _ => toUpper_eq_iff (h upper hupper)

theorem name_eq_map_toUpper_iff {verb : Verb} {word : List Char} :
    verb.name.toList = word.map Char.toUpper ↔ verb.Spells word := by
  refine map_toUpper_eq_iff (List.all_eq_true.mp ?_)
  cases verb <;> decide

/-- A word is read as the verb that it spells. -/
theorem ofWord?_eq_some_iff {verb : Verb} {word : List Char} :
    ofWord? word = some verb ↔ verb.Spells word := by
  rw [← name_eq_map_toUpper_iff]
  unfold ofWord?
  generalize word.map Char.toUpper = upper
  constructor
  · intro h
    simpa using List.find?_some h
  · rintro rfl
    cases verb <;> decide

end Verb

namespace Command

def arguments {α : Type} : Command α → List α
  | put key value => [key, value]
  | get key => [key]
  | delete key => [key]

theorem arguments_map {α β : Type} (f : α → β) (command : Command α) :
    (command.map f).arguments = command.arguments.map f := by
  cases command <;> rfl

variable {command : Command (List Char)}

theorem ofWords_of_chars {words : List Text.Word} {verbText : List Char}
    (hverb : command.verb.Spells verbText)
    (h : words.map Text.Word.chars = verbText :: command.arguments) :
    (ofWords words).map (map Text.Word.bytes) = .ok (command.map Utf8.encode) := by
  obtain ⟨first, rest, rfl, rfl, hrest⟩ := List.map_eq_cons_iff.mp h
  simp only [ofWords, Verb.ofWord?_eq_some_iff.mpr hverb]
  cases command with
  | put key value =>
    obtain ⟨second, more, rfl, rfl, hmore⟩ := List.map_eq_cons_iff.mp hrest
    obtain ⟨third, none, rfl, rfl, hnone⟩ := List.map_eq_cons_iff.mp hmore
    obtain rfl := List.map_eq_nil_iff.mp hnone
    rfl
  | get key =>
    obtain ⟨second, none, rfl, rfl, hnone⟩ := List.map_eq_cons_iff.mp hrest
    obtain rfl := List.map_eq_nil_iff.mp hnone
    rfl
  | delete key =>
    obtain ⟨second, none, rfl, rfl, hnone⟩ := List.map_eq_cons_iff.mp hrest
    obtain rfl := List.map_eq_nil_iff.mp hnone
    rfl

/-- A command is read back from any line that it can be written as. -/
theorem ofLine_written {lead verbText trail : List Char} {parts : List (List Char × List Char)}
    (hlead : Text.AllBlank lead) (hverb : command.verb.Spells verbText)
    (htrail : Text.AllBlank trail)
    (hparts : ∀ part ∈ parts, Text.IsGap part.1 ∧ Text.IsWord part.2)
    (harguments : parts.map Prod.snd = command.arguments) :
    (ofLine (Utf8.encode (lead ++ (verbText ++ (Text.behindGaps parts ++ trail))))).map
        (map Text.Word.bytes) = .ok (command.map Utf8.encode) := by
  obtain ⟨words, hlayout, hwords⟩ :=
    Text.exists_layout_behindGaps 0 hlead hverb.isWord htrail hparts
  rw [harguments] at hwords
  unfold ofLine
  rw [Utf8.decode_encode]
  dsimp only
  rw [Text.words_eq_iff.mpr hlayout]
  exact ofWords_of_chars hverb hwords

/-- The request line of a command. -/
def requestText (command : Command (List Char)) : List Char :=
  Text.unwords (command.verb.name.toList :: command.arguments)

/-- A request line is read as the command that it was written for. -/
theorem ofLine_requestText (h : ∀ text ∈ command.arguments, Text.IsWord text) :
    (ofLine (Utf8.encode command.requestText)).map (map Text.Word.bytes) =
      .ok (command.map Utf8.encode) := by
  let parts := command.arguments.map fun text => ([' '], text)
  have hspace : Text.IsGap [' '] := by decide
  have hparts : ∀ part ∈ parts, Text.IsGap part.1 ∧ Text.IsWord part.2 := by
    intro part hpart
    obtain ⟨text, htext, rfl⟩ := List.mem_map.mp hpart
    exact ⟨hspace, h text htext⟩
  have harguments : parts.map Prod.snd = command.arguments := by
    simp [parts, Function.comp_def]
  have hnone : Text.AllBlank [] := by decide
  have hread := ofLine_written hnone command.verb.spells_name hnone hparts harguments
  rwa [List.nil_append, List.append_nil, ← Text.unwords_cons] at hread

theorem newline_notMem_requestText (h : ∀ text ∈ command.arguments, Text.IsWord text) :
    '\n' ∉ command.requestText :=
  Text.newline_notMem_unwords (List.forall_mem_cons.mpr ⟨command.verb.isWord_name, h⟩)

end Command

end LineStore
