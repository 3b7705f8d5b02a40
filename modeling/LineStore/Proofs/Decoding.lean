import LineStore.Proofs.Encoding

/-!
# Bytes as texts

The decoder reads back every text that was encoded.  This module is the other
direction: bytes that the decoder takes for a text are the encoding of that
text.  Together they say that the bytes which are UTF-8 are the encodings, and
no others.

* `Utf8.Opens` is the invariant of the decoder inside a character: whatever
  bytes may follow complete the encoding of the character that the machine
  will record.
* `reached_lead` establishes it at a first byte, and `reached_step` carries
  it over a later one.
* `encode_of_foldl` is the induction over the bytes, and
  `decode_eq_ok_iff` the result.
-/

namespace LineStore.Utf8

/-! ## The bytes of a character, put together again -/

section Characters

variable {v : Nat} {a b c d : UInt8}

theorem toNat_val_ofNat (h : v < 0xD800 ∨ 0xDFFF < v ∧ v < 0x110000) :
    (Char.ofNat v).val.toNat = v := by
  rw [Char.ofNat, dif_pos h]
  rfl

theorem eq_ofNat (h : b.toNat = v) : b = UInt8.ofNat v := by
  rw [← h, UInt8.ofNat_toNat]

theorem utf8EncodeChar_one (h : a.toNat < 0x80) :
    [a] = String.utf8EncodeChar (Char.ofNat a.toNat) := by
  unfold String.utf8EncodeChar
  rw [toNat_val_ofNat (by omega)]
  dsimp only
  rw [if_pos (by omega), UInt8.ofNat_toNat]

theorem utf8EncodeChar_two (hlo : 0x80 ≤ v) (hhi : v < 0x800)
    (ha : a.toNat = v / 64 + 0xC0) (hb : b.toNat = v % 64 + 0x80) :
    [a, b] = String.utf8EncodeChar (Char.ofNat v) := by
  have hlead : v / 64 % 32 = v / 64 := by omega
  unfold String.utf8EncodeChar
  rw [toNat_val_ofNat (by omega)]
  dsimp only
  rw [if_neg (by omega), if_pos (by omega), hlead, ← eq_ofNat ha, ← eq_ofNat hb]

theorem utf8EncodeChar_three (hlo : 0x800 ≤ v) (hhi : v < 0x10000)
    (hvalid : v < 0xD800 ∨ 0xDFFF < v) (ha : a.toNat = v / 4096 + 0xE0)
    (hb : b.toNat = v / 64 % 64 + 0x80) (hc : c.toNat = v % 64 + 0x80) :
    [a, b, c] = String.utf8EncodeChar (Char.ofNat v) := by
  have hlead : v / 4096 % 16 = v / 4096 := by omega
  unfold String.utf8EncodeChar
  rw [toNat_val_ofNat (by omega)]
  dsimp only
  rw [if_neg (by omega), if_neg (by omega), if_pos (by omega), hlead, ← eq_ofNat ha,
    ← eq_ofNat hb, ← eq_ofNat hc]

theorem utf8EncodeChar_four (hlo : 0x10000 ≤ v) (hhi : v < 0x110000)
    (ha : a.toNat = v / 262144 + 0xF0) (hb : b.toNat = v / 4096 % 64 + 0x80)
    (hc : c.toNat = v / 64 % 64 + 0x80) (hd : d.toNat = v % 64 + 0x80) :
    [a, b, c, d] = String.utf8EncodeChar (Char.ofNat v) := by
  have hlead : v / 262144 % 8 = v / 262144 := by omega
  unfold String.utf8EncodeChar
  rw [toNat_val_ofNat (by omega)]
  dsimp only
  rw [if_neg (by omega), if_neg (by omega), if_neg (by omega), hlead, ← eq_ofNat ha,
    ← eq_ofNat hb, ← eq_ofNat hc, ← eq_ofNat hd]

end Characters

/-! ## The decoder inside a character -/

/-- The bytes `read` open a character: the next byte in the range, and `more`
bytes behind it, complete the encoding of the character that they make of
`bits`. -/
def Opens : Bytes → UInt8 → UInt8 → Nat → Nat → Prop
  | read, lo, hi, 0, bits => ∀ byte, lo ≤ byte ∧ byte ≤ hi →
    read ++ [byte] = String.utf8EncodeChar (Char.ofNat (bits * 64 + (byte.toNat - 0x80)))
  | read, lo, hi, more + 1, bits => ∀ byte, lo ≤ byte ∧ byte ≤ hi →
    Opens (read ++ [byte]) 0x80 0xBF more (bits * 64 + (byte.toNat - 0x80))

/-- The bytes read of a character take the decoder where it stands. -/
def Phase.Reads (read : Bytes) : Phase → Prop
  | .between => read = []
  | .inside lo hi more bits => Opens read lo hi more bits

/-- What a step leads to, behind the bytes read of a character. -/
def Reached (read : Bytes) : Phase × Option Char → Prop
  | (phase, none) => phase.Reads read
  | (phase, some c) => phase = .between ∧ read = String.utf8EncodeChar c

section Leads

variable {byte lo hi : UInt8} {bits : Nat}

theorem opens_two (hbyte : byte.toNat = bits + 0xC0) (hlong : 2 ≤ bits) (hbits : bits < 32) :
    Opens [byte] 0x80 0xBF 0 bits := by
  intro next hnext
  have hn : 0x80 ≤ next.toNat ∧ next.toNat ≤ 0xBF := hnext
  exact utf8EncodeChar_two (by omega) (by omega) (by omega) (by omega)

/-- The first of three bytes.  The range of the second keeps out the forms that
are too long and the surrogates. -/
theorem opens_three (hbyte : byte.toNat = bits + 0xE0) (hbits : bits < 16)
    (hlo : 0x80 ≤ lo.toNat) (hhi : hi.toNat ≤ 0xBF) (hlong : bits = 0 → 0xA0 ≤ lo.toNat)
    (hsurrogate : bits = 0xD → hi.toNat ≤ 0x9F) : Opens [byte] lo hi 1 bits := by
  intro second hsecond third hthird
  have h2 : lo.toNat ≤ second.toNat ∧ second.toNat ≤ hi.toNat := hsecond
  have h3 : 0x80 ≤ third.toNat ∧ third.toNat ≤ 0xBF := hthird
  have hvalid : bits < 0xD ∨ bits = 0xD ∨ 0xD < bits := Nat.lt_trichotomy bits 0xD
  exact utf8EncodeChar_three (by omega) (by omega) (by omega) (by omega) (by omega) (by omega)

/-- The first of four bytes.  The range of the second keeps out the forms that
are too long and what is beyond the last code point. -/
theorem opens_four (hbyte : byte.toNat = bits + 0xF0) (hbits : bits ≤ 4)
    (hlo : 0x80 ≤ lo.toNat) (hhi : hi.toNat ≤ 0xBF) (hlong : bits = 0 → 0x90 ≤ lo.toNat)
    (hlast : bits = 4 → hi.toNat ≤ 0x8F) : Opens [byte] lo hi 2 bits := by
  intro second hsecond third hthird fourth hfourth
  have h2 : lo.toNat ≤ second.toNat ∧ second.toNat ≤ hi.toNat := hsecond
  have h3 : 0x80 ≤ third.toNat ∧ third.toNat ≤ 0xBF := hthird
  have h4 : 0x80 ≤ fourth.toNat ∧ fourth.toNat ≤ 0xBF := hfourth
  exact utf8EncodeChar_four (by omega) (by omega) (by omega) (by omega) (by omega) (by omega)

theorem reached_lead {reached : Phase × Option Char} (h : Phase.lead byte = some reached) :
    Reached [byte] reached := by
  rw [← UInt8.ofNat_toNat (x := byte), lead_ofNat byte.toNat_lt] at h
  have hnat : byte.toNat < 256 := byte.toNat_lt
  split at h
  · rename_i hone
    obtain rfl := Option.some.inj h
    exact ⟨rfl, utf8EncodeChar_one hone⟩
  split at h
  · simp at h
  split at h
  · obtain rfl := Option.some.inj h
    exact opens_two (by omega) (by omega) (by omega)
  split at h
  · obtain rfl := Option.some.inj h
    exact opens_three (by omega) (by omega) (by decide) (by decide) (by decide) (by decide)
  split at h
  · obtain rfl := Option.some.inj h
    exact opens_three (by omega) (by omega) (by decide) (by decide) (by decide) (by decide)
  split at h
  · obtain rfl := Option.some.inj h
    exact opens_three (by omega) (by omega) (by decide) (by decide) (by omega) (by omega)
  split at h
  · obtain rfl := Option.some.inj h
    exact opens_four (by omega) (by omega) (by decide) (by decide) (by decide) (by decide)
  split at h
  · obtain rfl := Option.some.inj h
    exact opens_four (by omega) (by omega) (by decide) (by decide) (by omega) (by omega)
  split at h
  · obtain rfl := Option.some.inj h
    exact opens_four (by omega) (by omega) (by decide) (by decide) (by decide) (by decide)
  · simp at h

end Leads

/-- A step takes the bytes read one byte further. -/
theorem reached_step {read : Bytes} {phase : Phase} (hr : phase.Reads read) {byte : UInt8}
    {reached : Phase × Option Char} (h : phase.step byte = some reached) :
    Reached (read ++ [byte]) reached := by
  cases phase with
  | between =>
    obtain rfl : read = [] := hr
    exact reached_lead h
  | inside lo hi more bits =>
    rw [Phase.step] at h
    split at h
    · rename_i hrange
      cases more with
      | zero =>
        obtain rfl := Option.some.inj h
        exact ⟨rfl, hr byte hrange⟩
      | succ more =>
        obtain rfl := Option.some.inj h
        exact hr byte hrange
    · simp at h

/-! ## The whole of the bytes -/

theorem mem_found_begin {segment : Segment} {found : List Segment} (h : segment ∈ found)
    (byte : UInt8) : segment ∈ (Scan.begin found byte).found := by
  unfold Scan.begin
  split <;> simp [h]

theorem mem_found_push {segment : Segment} {scan : Scan} (h : segment ∈ scan.found)
    (byte : UInt8) : segment ∈ (scan.push byte).found := by
  unfold Scan.push
  split
  · exact mem_found_begin h byte
  · split
    · exact h
    · exact List.mem_cons_of_mem _ h
    · exact mem_found_begin (List.mem_cons_of_mem _ h) byte

/-- What the decoder has found it keeps. -/
theorem mem_finish {segment : Segment} {scan : Scan} (h : segment ∈ scan.found)
    (bytes : Bytes) : segment ∈ (bytes.foldl Scan.push scan).finish := by
  induction bytes generalizing scan with
  | nil =>
    unfold Scan.finish
    rw [List.foldl_nil]
    split <;> simp [h]
  | cons byte bytes ih => exact ih (mem_found_push h byte)

/-- A byte that cannot stand where it stands is a fault. -/
theorem exists_broken_of_step {phase : Phase} {byte : UInt8} (h : phase.step byte = none)
    (size : Nat) (found : List Segment) :
    ∃ size', Segment.broken size' ∈ (Scan.push ⟨phase, size, found⟩ byte).found := by
  cases phase with
  | between =>
    have hlead : Phase.lead byte = none := h
    exact ⟨1, by simp [Scan.push, Scan.begin, hlead]⟩
  | inside lo hi more bits =>
    refine ⟨size, ?_⟩
    simp only [Scan.push, h]
    exact mem_found_begin List.mem_cons_self byte

theorem push_of_step {phase next : Phase} {byte : UInt8} {c? : Option Char}
    (h : phase.step byte = some (next, c?)) (size : Nat) (found : List Segment) :
    ∃ size', Scan.push ⟨phase, size, found⟩ byte =
      match c? with
      | none => ⟨next, size', found⟩
      | some c => ⟨.between, 0, .char c :: found⟩ := by
  cases phase with
  | between =>
    have hlead : Phase.lead byte = some (next, c?) := h
    refine ⟨1, ?_⟩
    simp only [Scan.push, Scan.begin, hlead]
    cases c? <;> rfl
  | inside lo hi more bits =>
    refine ⟨size + 1, ?_⟩
    simp only [Scan.push, h]
    cases c? <;> rfl

/-- A decoder that finds no fault in the bytes to come had found none before,
and it has read the encoding of the text that it finds. -/
theorem encode_of_foldl {read bytes : Bytes} {phase : Phase} {size : Nat}
    {found : List Segment} (hr : phase.Reads read) {text : List Char}
    (h : (bytes.foldl Scan.push ⟨phase, size, found⟩).finish = text.map .char) :
    ∃ earlier : List Char, found.reverse = earlier.map .char ∧
      encode earlier ++ (read ++ bytes) = encode text := by
  induction bytes generalizing read phase size found with
  | nil =>
    cases phase with
    | between =>
      obtain rfl : read = [] := hr
      exact ⟨text, h, by simp⟩
    | inside =>
      -- a character cut off by the end is a fault
      have hmem : Segment.unfinished size ∈ text.map Segment.char := by
        rw [← h]
        simp [Scan.finish]
      simp at hmem
  | cons byte bytes ih =>
    rw [List.foldl_cons] at h
    cases hstep : phase.step byte with
    | none =>
      obtain ⟨broken, hbroken⟩ := exists_broken_of_step hstep size found
      have hmem := mem_finish hbroken bytes
      rw [h] at hmem
      simp at hmem
    | some reached =>
      obtain ⟨next, c?⟩ := reached
      have hreached := reached_step hr hstep
      obtain ⟨size', hpush⟩ := push_of_step hstep size found
      rw [hpush] at h
      cases c? with
      | none =>
        obtain ⟨earlier, hfound, hencode⟩ := ih hreached h
        exact ⟨earlier, hfound, by simpa using hencode⟩
      | some c =>
        -- the byte completes a character, which is the last of those found so far
        obtain ⟨rfl, hchar⟩ := hreached
        obtain ⟨earlier, hfound, hencode⟩ := ih (show Phase.between.Reads [] from rfl) h
        rw [List.reverse_cons] at hfound
        obtain ⟨front, last, rfl, hfront, hlast⟩ := List.map_eq_append_iff.mp hfound.symm
        obtain ⟨d, rfl, hd⟩ := List.map_eq_singleton_iff.mp hlast
        obtain rfl : d = c := Segment.char.inj hd
        refine ⟨front, hfront.symm, ?_⟩
        rw [← hencode, encode_append, encode_cons, encode_nil, List.append_nil, ← hchar]
        simp

theorem exists_chars_of_firstFault? {start : Nat} {segments : List Segment}
    (h : firstFault? start segments = none) : ∃ text : List Char, segments = text.map .char := by
  induction segments generalizing start with
  | nil => exact ⟨[], rfl⟩
  | cons segment segments ih =>
    cases segment with
    | char c =>
      obtain ⟨text, rfl⟩ := ih h
      exact ⟨c :: text, rfl⟩
    | broken | unfinished => simp [firstFault?] at h

/-- Bytes are decoded to the text that they are the encoding of. -/
theorem decode_eq_ok_iff {bytes : Bytes} {text : List Char} :
    decode bytes = .ok text ↔ encode text = bytes := by
  constructor
  · intro h
    unfold decode at h
    split at h
    · simp at h
    · rename_i hnone
      obtain ⟨chars, hchars⟩ := exists_chars_of_firstFault? hnone
      have htext : chars = text := by
        simpa [hchars, List.filterMap_map, Function.comp_def, Segment.char?] using h
      rw [htext] at hchars
      obtain ⟨earlier, hfound, hencode⟩ :=
        encode_of_foldl (show Phase.between.Reads [] from rfl) hchars
      obtain rfl : earlier = [] := List.map_eq_nil_iff.mp hfound.symm
      exact hencode.symm
  · rintro rfl
    exact decode_encode text

/-- Bytes are refused if they are the encoding of no text. -/
theorem exists_decode_eq_error_iff {bytes : Bytes} :
    (∃ fault, decode bytes = .error fault) ↔ ∀ text, encode text ≠ bytes := by
  simp only [ne_eq, ← decode_eq_ok_iff]
  cases decode bytes with
  | error fault => simp
  | ok text => simp

end LineStore.Utf8
