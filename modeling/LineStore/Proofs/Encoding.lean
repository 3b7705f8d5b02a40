import LineStore.Text.Utf8
import Mathlib.Data.List.Basic

/-!
# Texts as bytes

Whatever text is encoded, the decoder reads it back.  The decoder is a machine
over bytes, so the argument goes character by character: `push_encoded` says
that the bytes of one character take the machine from one place between
characters to the next, and record that character.

* `lead_two`, `lead_three` and `lead_four` are the first byte of a character,
  `push_inside` is a later one.
* `decode_encode` is the round trip, and `encode_injective` follows.
* `newline_mem_encode` says that a newline in the bytes is one in the text.
-/

namespace LineStore.Utf8

/-! ## The first byte of a character -/

theorem toNat_ofNat {n : Nat} (h : n < 256) : (UInt8.ofNat n).toNat = n := by
  rw [UInt8.toNat_ofNat']
  exact Nat.mod_eq_of_lt h

theorem ofNat_lt_iff {n : Nat} (h : n < 256) (byte : UInt8) :
    UInt8.ofNat n < byte ↔ n < byte.toNat := by
  rw [UInt8.lt_iff_toNat_lt, toNat_ofNat h]

theorem ofNat_eq_iff {n : Nat} (h : n < 256) (byte : UInt8) :
    UInt8.ofNat n = byte ↔ n = byte.toNat := by
  rw [← UInt8.toNat_inj, toNat_ofNat h]

theorem lead_ofNat {n : Nat} (h : n < 256) :
    Phase.lead (UInt8.ofNat n) =
      if n < 0x80 then some (.between, some (Char.ofNat n))
      else if n < 0xC2 then none
      else if n < 0xE0 then some (.inside 0x80 0xBF 0 (n - 0xC0), none)
      else if n = 0xE0 then some (.inside 0xA0 0xBF 1 0, none)
      else if n = 0xED then some (.inside 0x80 0x9F 1 0xD, none)
      else if n < 0xF0 then some (.inside 0x80 0xBF 1 (n - 0xE0), none)
      else if n = 0xF0 then some (.inside 0x90 0xBF 2 0, none)
      else if n < 0xF4 then some (.inside 0x80 0xBF 2 (n - 0xF0), none)
      else if n = 0xF4 then some (.inside 0x80 0x8F 2 4, none)
      else none := by
  unfold Phase.lead
  simp only [ofNat_lt_iff h, ofNat_eq_iff h, toNat_ofNat h]
  rfl

theorem lead_one {n : Nat} (h : n < 0x80) :
    Phase.lead (UInt8.ofNat n) = some (.between, some (Char.ofNat n)) := by
  rw [lead_ofNat (by omega), if_pos h]

theorem lead_two {v : Nat} (hlo : 0x80 ≤ v) (hhi : v < 0x800) :
    Phase.lead (UInt8.ofNat (v / 64 % 32 + 0xC0)) =
      some (.inside 0x80 0xBF 0 (v / 64), none) := by
  have hbits : v / 64 % 32 + 0xC0 - 0xC0 = v / 64 := by omega
  rw [lead_ofNat (by omega), if_neg (by omega), if_neg (by omega), if_pos (by omega), hbits]

/-- The first of three bytes, and what the second must be. -/
theorem lead_three {v : Nat} (hlo : 0x800 ≤ v) (hhi : v < 0x10000)
    (hvalid : v < 0xD800 ∨ 0xDFFF < v) :
    ∃ lo hi : UInt8,
      Phase.lead (UInt8.ofNat (v / 4096 % 16 + 0xE0)) =
          some (.inside lo hi 1 (v / 4096), none) ∧
        lo.toNat ≤ v / 64 % 64 + 0x80 ∧ v / 64 % 64 + 0x80 ≤ hi.toNat := by
  rw [lead_ofNat (by omega), if_neg (by omega), if_neg (by omega), if_neg (by omega)]
  by_cases hfirst : v < 0x1000
  · -- `E0`: a second byte below `A0` would make a form that is too long
    have hbits : v / 4096 = 0 := by omega
    refine ⟨0xA0, 0xBF, ?_, ?_, ?_⟩
    · rw [if_pos (by omega), hbits]
    · show 0xA0 ≤ _
      omega
    · show _ ≤ 0xBF
      omega
  · rw [if_neg (by omega)]
    by_cases hsurrogate : 0xD000 ≤ v ∧ v < 0xE000
    · -- `ED`: a second byte above `9F` would make a surrogate
      have hbits : v / 4096 = 0xD := by omega
      refine ⟨0x80, 0x9F, ?_, ?_, ?_⟩
      · rw [if_pos (by omega), hbits]
      · show 0x80 ≤ _
        omega
      · show _ ≤ 0x9F
        omega
    · have hbits : v / 4096 % 16 + 0xE0 - 0xE0 = v / 4096 := by omega
      refine ⟨0x80, 0xBF, ?_, ?_, ?_⟩
      · rw [if_neg (by omega), if_pos (by omega), hbits]
      · show 0x80 ≤ _
        omega
      · show _ ≤ 0xBF
        omega

theorem lead_four {v : Nat} (hlo : 0x10000 ≤ v) (hhi : v < 0x110000) :
    ∃ lo hi : UInt8,
      Phase.lead (UInt8.ofNat (v / 262144 % 8 + 0xF0)) =
          some (.inside lo hi 2 (v / 262144), none) ∧
        lo.toNat ≤ v / 4096 % 64 + 0x80 ∧ v / 4096 % 64 + 0x80 ≤ hi.toNat := by
  rw [lead_ofNat (by omega), if_neg (by omega), if_neg (by omega), if_neg (by omega),
    if_neg (by omega), if_neg (by omega), if_neg (by omega)]
  by_cases hfirst : v < 0x40000
  · -- `F0`: a second byte below `90` would make a form that is too long
    have hbits : v / 262144 = 0 := by omega
    refine ⟨0x90, 0xBF, ?_, ?_, ?_⟩
    · rw [if_pos (by omega), hbits]
    · show 0x90 ≤ _
      omega
    · show _ ≤ 0xBF
      omega
  · rw [if_neg (by omega)]
    by_cases hlast : v < 0x100000
    · have hbits : v / 262144 % 8 + 0xF0 - 0xF0 = v / 262144 := by omega
      refine ⟨0x80, 0xBF, ?_, ?_, ?_⟩
      · rw [if_pos (by omega), hbits]
      · show 0x80 ≤ _
        omega
      · show _ ≤ 0xBF
        omega
    · -- `F4`: a second byte above `8F` would be beyond the last code point
      have hbits : v / 262144 = 4 := by omega
      refine ⟨0x80, 0x8F, ?_, ?_, ?_⟩
      · rw [if_neg (by omega), if_pos (by omega), hbits]
      · show 0x80 ≤ _
        omega
      · show _ ≤ 0x8F
        omega

/-! ## The bytes of a character -/

variable {found : List Segment}

section Inside

variable {lo hi : UInt8} {n : Nat}

theorem ofNat_mem_range (hlo : lo.toNat ≤ n) (hhi : n ≤ hi.toNat) :
    (lo ≤ UInt8.ofNat n ∧ UInt8.ofNat n ≤ hi) ∧ (UInt8.ofNat n).toNat = n := by
  have hbyte : n < 256 := Nat.lt_of_le_of_lt hhi hi.toNat_lt
  rw [UInt8.le_iff_toNat_le, UInt8.le_iff_toNat_le, toNat_ofNat hbyte]
  exact ⟨⟨hlo, hhi⟩, rfl⟩

theorem push_last (hlo : lo.toNat ≤ n) (hhi : n ≤ hi.toNat) (bits size : Nat) :
    Scan.push ⟨.inside lo hi 0 bits, size, found⟩ (UInt8.ofNat n) =
      ⟨.between, 0, .char (Char.ofNat (bits * 64 + (n - 0x80))) :: found⟩ := by
  obtain ⟨hrange, hn⟩ := ofNat_mem_range hlo hhi
  simp only [Scan.push, Phase.step, if_pos hrange, hn]

theorem push_inside (hlo : lo.toNat ≤ n) (hhi : n ≤ hi.toNat) (more bits size : Nat) :
    Scan.push ⟨.inside lo hi (more + 1) bits, size, found⟩ (UInt8.ofNat n) =
      ⟨.inside 0x80 0xBF more (bits * 64 + (n - 0x80)), size + 1, found⟩ := by
  obtain ⟨hrange, hn⟩ := ofNat_mem_range hlo hhi
  simp only [Scan.push, Phase.step, if_pos hrange, hn]

end Inside

theorem continuation_mem_range (v : Nat) :
    UInt8.toNat 0x80 ≤ v % 64 + 0x80 ∧ v % 64 + 0x80 ≤ UInt8.toNat 0xBF := by
  show 0x80 ≤ _ ∧ _ ≤ 0xBF
  omega

theorem push_lead {byte : UInt8} {phase : Phase} (h : Phase.lead byte = some (phase, none)) :
    Scan.push ⟨.between, 0, found⟩ byte = ⟨phase, 1, found⟩ := by
  simp only [Scan.push, Scan.begin, h]

/-- The bytes of a character are read as that character. -/
theorem push_encoded (c : Char) (found : List Segment) :
    (String.utf8EncodeChar c).foldl Scan.push ⟨.between, 0, found⟩ =
      ⟨.between, 0, .char c :: found⟩ := by
  have hvalid : c.val.toNat < 0xD800 ∨ 0xDFFF < c.val.toNat ∧ c.val.toNat < 0x110000 := c.valid
  have hchar : Char.ofNat c.val.toNat = c := Char.ofNat_toNat c
  unfold String.utf8EncodeChar
  generalize c.val.toNat = v at hvalid hchar
  obtain ⟨hlo, hhi⟩ := continuation_mem_range v
  dsimp only
  split
  · have hone : v < 0x80 := by omega
    simp only [List.foldl_cons, List.foldl_nil, Scan.push, Scan.begin, lead_one hone, hchar]
  split
  · have hbits : v / 64 * 64 + (v % 64 + 0x80 - 0x80) = v := by omega
    simp only [List.foldl_cons, List.foldl_nil]
    rw [push_lead (lead_two (by omega) (by omega)), push_last hlo hhi, hbits, hchar]
  split
  · have hbits : (v / 4096 * 64 + (v / 64 % 64 + 0x80 - 0x80)) * 64 +
        (v % 64 + 0x80 - 0x80) = v := by omega
    obtain ⟨_, _, hlead, hlo', hhi'⟩ := lead_three (v := v) (by omega) (by omega) (by omega)
    simp only [List.foldl_cons, List.foldl_nil]
    rw [push_lead hlead, push_inside hlo' hhi', push_last hlo hhi, hbits, hchar]
  · have hbits : ((v / 262144 * 64 + (v / 4096 % 64 + 0x80 - 0x80)) * 64 +
        (v / 64 % 64 + 0x80 - 0x80)) * 64 + (v % 64 + 0x80 - 0x80) = v := by omega
    obtain ⟨_, _, hlead, hlo', hhi'⟩ := lead_four (v := v) (by omega) (by omega)
    obtain ⟨hlo'', hhi''⟩ := continuation_mem_range (v / 64)
    simp only [List.foldl_cons, List.foldl_nil]
    rw [push_lead hlead, push_inside hlo' hhi', push_inside hlo'' hhi'', push_last hlo hhi,
      hbits, hchar]

/-! ## The round trip -/

@[simp] theorem encode_nil : encode [] = [] := rfl

@[simp] theorem encode_cons (c : Char) (text : List Char) :
    encode (c :: text) = String.utf8EncodeChar c ++ encode text := rfl

@[simp] theorem encode_append (text more : List Char) :
    encode (text ++ more) = encode text ++ encode more :=
  List.flatMap_append

theorem push_encode (text : List Char) (found : List Segment) :
    (encode text).foldl Scan.push ⟨.between, 0, found⟩ =
      ⟨.between, 0, (text.map .char).reverse ++ found⟩ := by
  induction text generalizing found with
  | nil => rfl
  | cons c text ih =>
    rw [encode_cons, List.foldl_append, push_encoded, ih]
    simp

theorem segments_encode (text : List Char) : segments (encode text) = text.map .char := by
  unfold segments Scan.start
  rw [push_encode]
  simp [Scan.finish]

theorem firstFault?_chars (start : Nat) (text : List Char) :
    firstFault? start (text.map .char) = none := by
  induction text generalizing start with
  | nil => rfl
  | cons c text ih => exact ih _

/-- What was encoded is decoded. -/
theorem decode_encode (text : List Char) : decode (encode text) = .ok text := by
  unfold decode
  rw [segments_encode, firstFault?_chars]
  simp [List.filterMap_map, Function.comp_def, Segment.char?]

theorem encode_injective : Function.Injective encode := by
  intro text other h
  have hdecode := decode_encode text
  rw [h, decode_encode] at hdecode
  exact (Except.ok.inj hdecode).symm

theorem ofString_injective : Function.Injective ofString := fun _ _ h =>
  String.toList_inj.mp (encode_injective h)

/-- Among the bytes of a character there is one below 128 if the character is this
byte, and not otherwise. -/
theorem ofNat_mem_utf8EncodeChar {n : Nat} (h : n < 128) {c : Char} :
    UInt8.ofNat n ∈ String.utf8EncodeChar c ↔ c.val.toNat = n := by
  have hbyte : ∀ {m : Nat}, m < 256 → (UInt8.ofNat n = UInt8.ofNat m ↔ m = n) := by
    intro m hm
    rw [eq_comm, ofNat_eq_iff hm, toNat_ofNat (by omega)]
  unfold String.utf8EncodeChar
  generalize c.val.toNat = v
  have hcontinuation : ∀ m, m % 64 + 0x80 < 256 ∧ m % 64 + 0x80 ≠ n := by
    intro m
    omega
  dsimp only
  split
  · rw [List.mem_singleton, hbyte (by omega)]
  split
  · simp only [List.mem_cons, List.not_mem_nil, or_false, hbyte (hcontinuation _).1,
      hbyte (show v / 64 % 32 + 0xC0 < 256 by omega)]
    omega
  split
  · simp only [List.mem_cons, List.not_mem_nil, or_false, hbyte (hcontinuation _).1,
      hbyte (show v / 4096 % 16 + 0xE0 < 256 by omega)]
    omega
  · simp only [List.mem_cons, List.not_mem_nil, or_false, hbyte (hcontinuation _).1,
      hbyte (show v / 262144 % 8 + 0xF0 < 256 by omega)]
    omega

theorem newline_mem_utf8EncodeChar {c : Char} :
    Bytes.newline ∈ String.utf8EncodeChar c ↔ c = '\n' := by
  have hchar : c = '\n' ↔ c.val.toNat = 10 := by
    rw [Char.ext_iff, ← UInt32.toNat_inj]
    rfl
  rw [hchar]
  exact ofNat_mem_utf8EncodeChar (by decide)

/-- A newline among the bytes is one in the text. -/
theorem newline_mem_encode {text : List Char} :
    Bytes.newline ∈ encode text ↔ '\n' ∈ text := by
  unfold encode
  rw [List.mem_flatMap]
  simp only [newline_mem_utf8EncodeChar, exists_eq_right]

/-- Bytes fall apart at a newline where their text does. -/
theorem encode_eq_append_newline_iff {text : List Char} {first rest : Bytes} :
    encode text = first ++ Bytes.newline :: rest ↔
      ∃ front back, text = front ++ '\n' :: back ∧ encode front = first ∧ encode back = rest := by
  constructor
  · intro h
    induction text generalizing first with
    | nil => simp at h
    | cons c text ih =>
      rw [encode_cons] at h
      rcases List.append_eq_append_iff.mp h with ⟨more, rfl, hmore⟩ | ⟨more, hchar, hmore⟩
      · -- the newline is behind the first character
        obtain ⟨front, back, rfl, rfl, rfl⟩ := ih hmore
        exact ⟨c :: front, back, rfl, rfl, rfl⟩
      · cases more with
        | nil =>
          have hnext : encode text = [] ++ Bytes.newline :: rest := hmore.symm
          obtain ⟨front, back, rfl, hfront, rfl⟩ := ih hnext
          refine ⟨c :: front, back, rfl, ?_, rfl⟩
          rw [encode_cons, hfront, hchar, List.append_nil, List.append_nil]
        | cons byte more =>
          -- the newline is a byte of the first character, so it is all of it
          obtain ⟨rfl, hrest⟩ := List.cons.inj hmore
          have hmem : Bytes.newline ∈ String.utf8EncodeChar c := by simp [hchar]
          obtain rfl := newline_mem_utf8EncodeChar.mp hmem
          have hsingle : String.utf8EncodeChar '\n' = [Bytes.newline] := by decide
          rw [hsingle, List.singleton_eq_append_iff] at hchar
          rcases hchar with ⟨rfl, hmore⟩ | ⟨-, hnil⟩
          · obtain rfl : more = [] := (List.cons.inj hmore).2
            exact ⟨[], text, rfl, rfl, hrest.symm⟩
          · simp at hnil
  · rintro ⟨front, back, rfl, rfl, rfl⟩
    rw [encode_append]
    rfl

end LineStore.Utf8
