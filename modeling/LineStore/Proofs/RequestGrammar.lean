import LineStore.Proofs.RequestText

/-!
# The grammar of request lines

Every byte string is read as a command or as one error.  This module says
which, in terms of the words of the line.

* `Command.Reading` lists what the words of a line can be read as.
* `ofWords_eq_iff` says that the list is complete, and that its entries exclude
  each other.
* The main result adds the two layers below, bytes and words, with the places
  of the words in the line, and the way back: every way to write a command
  down is read as that command.
-/

namespace LineStore.Command

/-- What the words of a line are read as. -/
inductive Reading : List Text.Word → Except RequestError (Command Text.Word) → Prop
  | emptyLine : Reading [] (.error .emptyLine)
  | put {first key value : Text.Word} (hv : Verb.put.Spells first.chars) :
    Reading [first, key, value] (.ok (.put key value))
  | get {first key : Text.Word} (hv : Verb.get.Spells first.chars) :
    Reading [first, key] (.ok (.get key))
  | delete {first key : Text.Word} (hv : Verb.delete.Spells first.chars) :
    Reading [first, key] (.ok (.delete key))
  | wrongArity {verb : Verb} {first : Text.Word} {arguments : List Text.Word}
      (hv : verb.Spells first.chars) (hn : arguments.length ≠ verb.arity) :
    Reading (first :: arguments) (.error (.wrongArity verb verb.arity arguments.length))
  | unknownVerb {first : Text.Word} {arguments : List Text.Word}
      (hv : ∀ verb : Verb, ¬ verb.Spells first.chars) :
    Reading (first :: arguments) (.error (.unknownVerb first.toString))

variable {words : List Text.Word} {result : Except RequestError (Command Text.Word)}

theorem ofArguments?_eq_none_iff {α : Type} {verb : Verb} {arguments : List α} :
    ofArguments? verb arguments = none ↔ arguments.length ≠ verb.arity := by
  cases verb with
  | put =>
    match arguments with
    | [] | [_] | [_, _] | _ :: _ :: _ :: _ => simp [ofArguments?, Verb.arity]
  | get | delete =>
    match arguments with
    | [] | [_] | _ :: _ :: _ => simp [ofArguments?, Verb.arity]

theorem ofArguments?_eq_some_iff {α : Type} {verb : Verb} {arguments : List α}
    {command : Command α} :
    ofArguments? verb arguments = some command ↔
      command.verb = verb ∧ command.arguments = arguments := by
  constructor
  · intro h
    unfold ofArguments? at h
    split at h
    · obtain rfl := Option.some.inj h
      exact ⟨rfl, rfl⟩
    · obtain rfl := Option.some.inj h
      exact ⟨rfl, rfl⟩
    · obtain rfl := Option.some.inj h
      exact ⟨rfl, rfl⟩
    · simp at h
  · rintro ⟨rfl, rfl⟩
    cases command <;> rfl

theorem reading_of_command {first : Text.Word} {command : Command Text.Word}
    (hv : command.verb.Spells first.chars) :
    Reading (first :: command.arguments) (.ok command) := by
  cases command with
  | put key value => exact .put hv
  | get key => exact .get hv
  | delete key => exact .delete hv

/-- The words of a line are read as the one thing that the list has for
them. -/
theorem ofWords_eq_iff : ofWords words = result ↔ Reading words result := by
  constructor
  · rintro rfl
    cases words with
    | nil => exact .emptyLine
    | cons first arguments =>
      rw [ofWords]
      cases hverb : Verb.ofWord? first.chars with
      | none =>
        refine .unknownVerb ?_
        intro verb hspells
        rw [Verb.ofWord?_eq_some_iff.mpr hspells] at hverb
        simp at hverb
      | some verb =>
        have hspells := Verb.ofWord?_eq_some_iff.mp hverb
        dsimp only
        cases hcommand : ofArguments? verb arguments with
        | none => exact .wrongArity hspells (ofArguments?_eq_none_iff.mp hcommand)
        | some command =>
          obtain ⟨rfl, rfl⟩ := ofArguments?_eq_some_iff.mp hcommand
          exact reading_of_command hspells
  · intro h
    cases h with
    | emptyLine => rfl
    | put hv | get hv | delete hv => rw [ofWords, Verb.ofWord?_eq_some_iff.mpr hv]; rfl
    | wrongArity hv hn =>
      rw [ofWords, Verb.ofWord?_eq_some_iff.mpr hv]
      dsimp only
      rw [ofArguments?_eq_none_iff.mpr hn]
    | @unknownVerb first _ hv =>
      have hnone : Verb.ofWord? first.chars = none := by
        rw [Option.eq_none_iff_forall_ne_some]
        intro verb hverb
        exact hv verb (Verb.ofWord?_eq_some_iff.mp hverb)
      rw [ofWords, hnone]

theorem ofLine_encode (text : List Char) :
    ofLine (Utf8.encode text) = ofWords (Text.words text) := by
  unfold ofLine
  rw [Utf8.decode_encode]

theorem exists_ofLine_eq_notUtf8_iff {line : Bytes} :
    (∃ fault, ofLine line = .error (.notUtf8 fault)) ↔ ∀ text, Utf8.encode text ≠ line := by
  rw [← Utf8.exists_decode_eq_error_iff]
  constructor
  · rintro ⟨fault, h⟩
    cases hdecode : Utf8.decode line with
    | error other => exact ⟨other, rfl⟩
    | ok text =>
      -- no reading of words is this error
      obtain rfl := Utf8.decode_eq_ok_iff.mp hdecode
      rw [ofLine_encode, ofWords_eq_iff] at h
      generalize Text.words text = words at h
      cases h
  · rintro ⟨fault, h⟩
    refine ⟨fault, ?_⟩
    unfold ofLine
    rw [h]

/-- The arguments of a command that was read are words. -/
theorem isWord_of_ofLine {line : Bytes} {command : Command Text.Word}
    (h : ofLine line = .ok command) : ∀ word ∈ command.arguments, Text.IsWord word.chars := by
  cases hdecode : Utf8.decode line with
  | error fault => simp [ofLine, hdecode] at h
  | ok text =>
    obtain rfl := Utf8.decode_eq_ok_iff.mp hdecode
    have hlayout : Text.Layout 0 text (Text.words text) := Text.words_eq_iff.mp rfl
    have hwords := hlayout.isWord
    rw [ofLine_encode, ofWords_eq_iff] at h
    generalize Text.words text = words at h hwords
    cases h with
    | put | get | delete => exact (List.forall_mem_cons.mp hwords).2

/-- Request lines are read by their grammar, and by nothing else.

* A line that is the encoding of no text is refused as such, whatever else may
  be wrong with it.
* The text of any other line has one division into words, and these words
  alone decide what the line is read as.  They stand in the line at their
  places, one behind another with something between them, so the key and the
  value of a command are slices of the line.
* A command is read back from every line that has its verb in any case and its
  arguments, with any blanks between them and at both ends. -/
theorem ofLine_classifies :
    (∀ line : Bytes,
      ((∃ fault, ofLine line = .error (.notUtf8 fault)) ↔ ∀ text, Utf8.encode text ≠ line) ∧
        ∀ text, Utf8.encode text = line →
          (∃! words, Text.Layout 0 text words) ∧
            ∀ words, Text.Layout 0 text words →
              (∀ result, ofLine line = result ↔ Reading words result) ∧
                (words.Pairwise fun first second => first.stop < second.start) ∧
                ∀ word ∈ words, word.stop ≤ line.length ∧
                  (line.drop word.start).take word.bytes.length = word.bytes) ∧
      ∀ (command : Command (List Char)) (lead verbText trail : List Char)
        (parts : List (List Char × List Char)),
        Text.AllBlank lead → command.verb.Spells verbText → Text.AllBlank trail →
        (∀ part ∈ parts, Text.IsGap part.1 ∧ Text.IsWord part.2) →
        parts.map Prod.snd = command.arguments →
        (ofLine (Utf8.encode
            (lead ++ (verbText ++ (Text.behindGaps parts ++ trail))))).map
          (map Text.Word.bytes) = .ok (command.map Utf8.encode) := by
  refine ⟨?_, fun command lead verbText trail parts => ofLine_written⟩
  intro line
  refine ⟨exists_ofLine_eq_notUtf8_iff, ?_⟩
  rintro text rfl
  refine ⟨⟨Text.words text, Text.words_eq_iff.mp rfl, ?_⟩, ?_⟩
  · intro others hothers
    exact (Text.words_eq_iff.mpr hothers).symm
  · intro words hwords
    refine ⟨?_, hwords.ascending, fun word hmem => hwords.slice hmem⟩
    intro result
    rw [ofLine_encode, Text.words_eq_iff.mpr hwords, ofWords_eq_iff]

/-- Blanks of two and three bytes around a verb in mixed case, and a key that
is not ASCII.  The same line without its value has one argument too few. -/
theorem ofLine_classifies_wide_blanks :
    let lead : List Char := ['\u3000']
    let verbText : List Char := ['p', 'U', 't']
    let parts : List (List Char × List Char) :=
      [(['\u2003', ' '], ['k', '\u00e9']), (['\u00a0'], ['v'])]
    (ofLine (Utf8.encode (lead ++ (verbText ++ (Text.behindGaps parts ++ ['\r']))))).map
        (map Text.Word.bytes) =
          .ok (.put (Utf8.encode ['k', '\u00e9']) (Utf8.encode ['v'])) ∧
      ofLine (Utf8.encode ['\u3000', 'p', 'U', 't', ' ', 'k']) =
        .error (.wrongArity .put 2 1) := by
  intro lead verbText parts
  refine ⟨?_, ?_⟩
  · exact ofLine_classifies.2 (.put ['k', '\u00e9'] ['v']) lead verbText ['\r'] parts
      (by decide) (by decide) (by decide) (by decide) rfl
  · have hlayout : Text.Layout 0 ['\u3000', 'p', 'U', 't', ' ', 'k']
        [⟨3, ['p', 'U', 't']⟩, ⟨7, ['k']⟩] := Text.words_eq_iff.mp (by decide)
    obtain ⟨hreading, -, -⟩ :=
      ((ofLine_classifies.1 (Utf8.encode ['\u3000', 'p', 'U', 't', ' ', 'k'])).2 _ rfl).2 _
        hlayout
    exact (hreading _).mpr (@Reading.wrongArity .put _ _ (by decide) (by decide))

end LineStore.Command
