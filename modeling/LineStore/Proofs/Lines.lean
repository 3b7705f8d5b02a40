import LineStore.Bytes
import Mathlib.Data.List.TakeWhile

/-!
# The division of a stream into lines

`Bytes.cutLines` divides a whole stream at once, and a connection takes one
line after another from the front of its buffer.  This module relates the
two.

There are four groups.

* The end of the first line.  `lineEnd?_eq_none_iff` and `eq_of_lineEnd?`
  read `Bytes.lineEnd?` as a statement about the bytes.
* Division.  `cutLines_line` takes one line off the front, and
  `cutLines_endLines` takes several.
* The limit on lines.  `Bytes.linesWithin` are the lines in front of the
  first piece that is over a limit, and `Bytes.Fits` says that there is no such
  piece.
* Composition.  `Bytes.endLines` puts newlines behind lines, and
  `endLines_cutLines` is the way back from a division.  `fits_endLines` and
  `Fits.of_append` judge a stream by its front.
-/

namespace LineStore.Bytes

/-! ## The end of the first line -/

theorem lineEnd?_eq_none_iff {bytes : Bytes} :
    lineEnd? bytes = none ↔ newline ∉ bytes :=
  List.idxOf?_eq_none_iff

/-- The first line, its newline and the rest make up the bytes. -/
theorem eq_of_lineEnd? {bytes : Bytes} {size : Nat} (h : lineEnd? bytes = some size) :
    bytes = bytes.take size ++ newline :: bytes.drop (size + 1) := by
  obtain ⟨hlt, hat, -⟩ := List.idxOf?_eq_some_iff.mp h
  have hdrop : bytes.drop size = newline :: bytes.drop (size + 1) := by
    rw [List.drop_eq_getElem_cons hlt, hat]
  rw [← hdrop, List.take_append_drop]

theorem newline_notMem_of_lineEnd? {bytes : Bytes} {size : Nat}
    (h : lineEnd? bytes = some size) : newline ∉ bytes.take size := by
  obtain ⟨hlt, -, hbefore⟩ := List.idxOf?_eq_some_iff.mp h
  intro hmem
  obtain ⟨i, hi, hget⟩ := List.mem_iff_getElem.mp hmem
  rw [List.length_take] at hi
  rw [List.getElem_take] at hget
  exact hbefore i (by omega) hget

theorem length_take_of_lineEnd? {bytes : Bytes} {size : Nat}
    (h : lineEnd? bytes = some size) : (bytes.take size).length = size := by
  have hlt := lt_length_of_lineEnd? h
  rw [List.length_take]
  omega

theorem lineEnd?_line {line : Bytes} (h : newline ∉ line) (rest : Bytes) :
    lineEnd? (line ++ newline :: rest) = some line.length := by
  refine List.idxOf?_eq_some_iff.mpr ⟨by simp, by simp, fun i hi hat => h ?_⟩
  rw [List.getElem_append_left hi] at hat
  exact hat ▸ List.getElem_mem hi

/-! ## Division -/

@[simp] theorem cutLines_nil : cutLines [] = ([], []) := rfl

@[simp] theorem cutLines_newline (rest : Bytes) :
    cutLines (newline :: rest) = ([] :: (cutLines rest).1, (cutLines rest).2) := rfl

theorem cutLines_cons {byte : UInt8} (hb : byte ≠ newline) (rest : Bytes) :
    cutLines (byte :: rest) =
      match cutLines rest with
      | ([], tail) => ([], byte :: tail)
      | (line :: more, tail) => ((byte :: line) :: more, tail) := by
  show cutStep byte (cutLines rest) = _
  rcases cutLines rest with ⟨lines, tail⟩
  cases lines with
  | nil => simp [cutStep, hb]
  | cons line more => simp [cutStep, hb]

theorem cutLines_of_notMem {bytes : Bytes} (h : newline ∉ bytes) :
    cutLines bytes = ([], bytes) := by
  induction bytes with
  | nil => rfl
  | cons byte rest ih =>
    obtain ⟨hb, hrest⟩ := not_or.mp (mt List.mem_cons.mpr h)
    rw [cutLines_cons (Ne.symm hb), ih hrest]

theorem cutLines_line {line : Bytes} (h : newline ∉ line) (rest : Bytes) :
    cutLines (line ++ newline :: rest) =
      (line :: (cutLines rest).1, (cutLines rest).2) := by
  induction line with
  | nil => exact cutLines_newline rest
  | cons byte line ih =>
    obtain ⟨hb, hline⟩ := not_or.mp (mt List.mem_cons.mpr h)
    rw [List.cons_append, cutLines_cons (Ne.symm hb), ih hline]

/-- What follows the first line is divided as it is on its own. -/
theorem cutLines_of_lineEnd? {bytes : Bytes} {size : Nat} (h : lineEnd? bytes = some size)
    (rest : Bytes) :
    cutLines (bytes ++ rest) =
      (bytes.take size :: (cutLines (bytes.drop (size + 1) ++ rest)).1,
        (cutLines (bytes.drop (size + 1) ++ rest)).2) := by
  conv => lhs; rw [eq_of_lineEnd? h]
  rw [List.append_assoc, List.cons_append, cutLines_line (newline_notMem_of_lineEnd? h)]

theorem newline_notMem_tail (stream : Bytes) : newline ∉ (cutLines stream).2 := by
  induction stream with
  | nil => exact List.not_mem_nil
  | cons byte stream ih =>
    by_cases hb : byte = newline
    · rw [hb, cutLines_newline]
      exact ih
    · rw [cutLines_cons hb]
      rcases hcut : cutLines stream with ⟨lines, tail⟩
      rw [hcut] at ih
      cases lines with
      | nil =>
        intro hmem
        rcases List.mem_cons.mp hmem with hnewline | htail
        · exact hb hnewline.symm
        · exact ih htail
      | cons line more => exact ih

theorem newline_notMem_of_mem_cutLines {stream line : Bytes} (h : line ∈ (cutLines stream).1) :
    newline ∉ line := by
  induction stream generalizing line with
  | nil => exact absurd h List.not_mem_nil
  | cons byte stream ih =>
    by_cases hb : byte = newline
    · rw [hb, cutLines_newline] at h
      rcases List.mem_cons.mp h with rfl | hmem
      · exact List.not_mem_nil
      · exact ih hmem
    · rw [cutLines_cons hb] at h
      rcases hcut : cutLines stream with ⟨lines, tail⟩
      rw [hcut] at h ih
      cases lines with
      | nil => exact absurd h List.not_mem_nil
      | cons first more =>
        rcases List.mem_cons.mp h with rfl | hmem
        · exact mt List.mem_cons.mp (not_or.mpr ⟨Ne.symm hb, ih List.mem_cons_self⟩)
        · exact ih (List.mem_cons_of_mem first hmem)

/-- The pieces of a stream: its complete lines, and then its tail. -/
def linesAndTail (stream : Bytes) : List Bytes :=
  (cutLines stream).1 ++ [(cutLines stream).2]

theorem linesAndTail_of_lineEnd? {bytes : Bytes} {size : Nat}
    (h : lineEnd? bytes = some size) (rest : Bytes) :
    linesAndTail (bytes ++ rest) =
      bytes.take size :: linesAndTail (bytes.drop (size + 1) ++ rest) := by
  unfold linesAndTail
  rw [cutLines_of_lineEnd? h, List.cons_append]

/-- Bytes without a newline in front belong to the first piece, be it a line
or the tail. -/
theorem exists_linesAndTail_append {bytes : Bytes} (h : newline ∉ bytes) (rest : Bytes) :
    ∃ piece more, linesAndTail (bytes ++ rest) = piece :: more ∧ bytes <+: piece := by
  induction bytes with
  | nil =>
    unfold linesAndTail
    cases (cutLines ([] ++ rest)).1 with
    | nil => exact ⟨_, [], rfl, List.nil_prefix⟩
    | cons line more => exact ⟨line, _, rfl, List.nil_prefix⟩
  | cons byte bytes ih =>
    obtain ⟨hb, hbytes⟩ := not_or.mp (mt List.mem_cons.mpr h)
    obtain ⟨piece, more, hpieces, hprefix⟩ := ih hbytes
    refine ⟨byte :: piece, more, ?_, List.cons_prefix_cons.mpr ⟨rfl, hprefix⟩⟩
    unfold linesAndTail at hpieces ⊢
    rw [List.cons_append, cutLines_cons (Ne.symm hb)]
    rcases hcut : cutLines (bytes ++ rest) with ⟨lines, tail⟩
    rw [hcut] at hpieces
    cases lines with
    | nil =>
      obtain ⟨rfl, rfl⟩ := List.cons.inj hpieces
      rfl
    | cons line others =>
      obtain ⟨rfl, rfl⟩ := List.cons.inj hpieces
      rfl

/-! ## The limit on lines -/

/-- The complete lines of a stream in front of its first piece, line or tail,
that is longer than `max`. -/
def linesWithin (max : Nat) (stream : Bytes) : List Bytes :=
  (cutLines stream).1.takeWhile (·.length ≤ max)

/-- No piece of a stream is longer than `max`. -/
def Fits (max : Nat) (stream : Bytes) : Prop :=
  ∀ piece ∈ linesAndTail stream, piece.length ≤ max

instance (max : Nat) (stream : Bytes) : Decidable (Fits max stream) :=
  inferInstanceAs (Decidable (∀ piece ∈ linesAndTail stream, piece.length ≤ max))

theorem linesWithin_of_fits {max : Nat} {stream : Bytes} (h : Fits max stream) :
    linesWithin max stream = (cutLines stream).1 := by
  refine List.takeWhile_eq_self_iff.mpr ?_
  intro line hline
  exact decide_eq_true (h line (List.mem_append_left _ hline))

/-- A first piece over the limit leaves no line in front of it. -/
theorem linesWithin_of_first {max : Nat} {stream piece : Bytes} {more : List Bytes}
    (hp : linesAndTail stream = piece :: more) (hlong : max < piece.length) :
    linesWithin max stream = [] ∧ ¬ Fits max stream := by
  constructor
  · unfold linesAndTail at hp
    unfold linesWithin
    cases hlines : (cutLines stream).1 with
    | nil => rfl
    | cons line others =>
      rw [hlines, List.cons_append] at hp
      obtain ⟨rfl, -⟩ := List.cons.inj hp
      exact List.takeWhile_cons_of_neg (by simpa using hlong)
  · intro hfits
    have hle := hfits piece (hp ▸ List.mem_cons_self)
    omega

variable {max size : Nat} {bytes : Bytes}

/-- A first line within the limit is the first of the lines within it. -/
theorem linesWithin_of_lineEnd? (h : lineEnd? bytes = some size) (hs : size ≤ max)
    (rest : Bytes) :
    linesWithin max (bytes ++ rest) =
      bytes.take size :: linesWithin max (bytes.drop (size + 1) ++ rest) := by
  unfold linesWithin
  rw [cutLines_of_lineEnd? h]
  refine List.takeWhile_cons_of_pos ?_
  simpa [length_take_of_lineEnd? h] using hs

/-- Whether a stream fits does not depend on a first line within the limit. -/
theorem fits_of_lineEnd? (h : lineEnd? bytes = some size) (hs : size ≤ max)
    (rest : Bytes) :
    Fits max (bytes ++ rest) ↔ Fits max (bytes.drop (size + 1) ++ rest) := by
  unfold Fits
  rw [linesAndTail_of_lineEnd? h, List.forall_mem_cons, length_take_of_lineEnd? h]
  exact and_iff_right hs

/-- The check on a complete line refuses what does not fit. -/
theorem tooLong_of_lineEnd? (h : lineEnd? bytes = some size) (hs : max < size)
    (rest : Bytes) :
    linesWithin max (bytes ++ rest) = [] ∧ ¬ Fits max (bytes ++ rest) := by
  refine linesWithin_of_first (linesAndTail_of_lineEnd? h rest) ?_
  rwa [length_take_of_lineEnd? h]

/-- The check on bytes without a newline refuses what does not fit, whether
the newline is still to come or not. -/
theorem tooLong_of_length (h : lineEnd? bytes = none) (hb : max < bytes.length)
    (rest : Bytes) :
    linesWithin max (bytes ++ rest) = [] ∧ ¬ Fits max (bytes ++ rest) := by
  obtain ⟨piece, more, hp, hprefix⟩ :=
    exists_linesAndTail_append (lineEnd?_eq_none_iff.mp h) rest
  exact linesWithin_of_first hp (Nat.lt_of_lt_of_le hb hprefix.length_le)

/-! ## Composition -/

/-- Lines, each with its newline, one after another. -/
def endLines (lines : List Bytes) : Bytes :=
  lines.flatMap (· ++ [newline])

@[simp] theorem endLines_nil : endLines [] = [] := rfl

@[simp] theorem endLines_cons (line : Bytes) (lines : List Bytes) :
    endLines (line :: lines) = line ++ newline :: endLines lines := by
  simp [endLines]

@[simp] theorem endLines_append (lines more : List Bytes) :
    endLines (lines ++ more) = endLines lines ++ endLines more :=
  List.flatMap_append

theorem cutLines_endLines {lines : List Bytes} (h : ∀ line ∈ lines, newline ∉ line)
    (rest : Bytes) :
    cutLines (endLines lines ++ rest) =
      (lines ++ (cutLines rest).1, (cutLines rest).2) := by
  induction lines with
  | nil => rfl
  | cons line lines ih =>
    have hline : newline ∉ line := h line List.mem_cons_self
    have hlines : ∀ other ∈ lines, newline ∉ other := fun other ho =>
      h other (List.mem_cons_of_mem line ho)
    rw [endLines_cons, List.append_assoc, List.cons_append, cutLines_line hline, ih hlines]
    rfl

/-- The lines of a division, with their newlines, and its tail make up the
stream. -/
theorem endLines_cutLines (bytes : Bytes) :
    endLines (cutLines bytes).1 ++ (cutLines bytes).2 = bytes := by
  induction bytes with
  | nil => rfl
  | cons byte bytes ih =>
    by_cases hb : byte = newline
    · subst hb
      rw [cutLines_newline, endLines_cons, List.nil_append, List.cons_append, ih]
    · rw [cutLines_cons hb]
      rcases hcut : cutLines bytes with ⟨lines, tail⟩
      rw [hcut] at ih
      cases lines with
      | nil => simpa using ih
      | cons line more => simpa using ih

/-- Lines that stand at the front of a stream with their newlines are the
first of its complete lines. -/
theorem prefix_cutLines {lines : List Bytes} {stream : Bytes}
    (hlines : ∀ line ∈ lines, newline ∉ line) (h : endLines lines <+: stream) :
    lines <+: (cutLines stream).1 := by
  obtain ⟨rest, rfl⟩ := h
  rw [cutLines_endLines hlines]
  exact List.prefix_append lines _

/-- Whole lines in front of a stream are pieces of it, and so are the pieces of
the rest. -/
theorem linesAndTail_endLines {lines : List Bytes} (h : ∀ line ∈ lines, newline ∉ line)
    (rest : Bytes) : linesAndTail (endLines lines ++ rest) = lines ++ linesAndTail rest := by
  unfold linesAndTail
  rw [cutLines_endLines h, List.append_assoc]

theorem fits_endLines {max : Nat} {lines : List Bytes} (h : ∀ line ∈ lines, newline ∉ line)
    (rest : Bytes) :
    Fits max (endLines lines ++ rest) ↔ (∀ line ∈ lines, line.length ≤ max) ∧ Fits max rest := by
  unfold Fits
  rw [linesAndTail_endLines h, List.forall_mem_append]

theorem fits_of_notMem {max : Nat} {bytes : Bytes} (h : newline ∉ bytes) :
    Fits max bytes ↔ bytes.length ≤ max := by
  simp [Fits, linesAndTail, cutLines_of_notMem h]

/-- What more is sent makes no piece shorter. -/
theorem Fits.of_append {max : Nat} {stream more : Bytes} (h : Fits max (stream ++ more)) :
    Fits max stream := by
  have hlines : ∀ line ∈ (cutLines stream).1, newline ∉ line := fun _ hmem =>
    newline_notMem_of_mem_cutLines hmem
  have htail := newline_notMem_tail stream
  rw [← endLines_cutLines stream] at h ⊢
  rw [List.append_assoc, fits_endLines hlines] at h
  rw [fits_endLines hlines, fits_of_notMem htail]
  refine ⟨h.1, ?_⟩
  obtain ⟨piece, others, hpieces, hprefix⟩ := exists_linesAndTail_append htail more
  have hpiece : piece.length ≤ max := h.2 piece (hpieces ▸ List.mem_cons_self)
  exact Nat.le_trans hprefix.length_le hpiece

end LineStore.Bytes
