import Mathlib.Data.List.Induction
import ParserCombinators.Text.Utf8

/-! # Decoding, line by line

A line feed is complete by itself and is not part of any longer sequence. So it makes no difference
whether bytes are cut at line feeds before they are read as text or after that, also where the bytes
are no text.

* **`Utf8.Decoder.BeyondAscii`** — the invariant of an open sequence: what continues it is no ASCII
  byte, and what completes it is no ASCII character.
* **`Utf8.Started`**, **`Utf8.started_start`** — the three things that a first byte may be.
* **`Utf8.step_newline`** — a line feed closes whatever is open and starts afresh.
* **`Utf8.decode_append_newline`** — decoding goes through line feeds.
* **`Utf8.splitOnP_decode`** — the lines of the text are the texts of the lines.
* **`Utf8.decode_eq_nil_iff`** — no bytes are dropped.
* **`Utf8.decode_utf8Encode`** — the encoding of a text is read as that text. -/

namespace ParserCombinators.Utf8

/-! ## Line feeds -/

/-- A sequence that is open is continued by no ASCII byte and will be completed to no ASCII
character. -/
def Decoder.BeyondAscii : Decoder → Prop
  | .idle => True
  | .awaiting low _ 0 bits => 0x80 ≤ low ∧ 0x80 ≤ bits * 64 + (low - 0x80)
  | .awaiting low _ (_ + 1) bits => 0x80 ≤ low ∧ 2 ≤ bits * 64 + (low - 0x80)

/-- Only the code point of the line feed is the line feed. -/
theorem ofNat_ne_newline {n : Nat} (other : n ≠ 0x0A) : Char.ofNat n ≠ '\n' := by
  intro same
  have code : (Char.ofNat n).toNat = 0x0A := congrArg Char.toNat same
  by_cases valid : n.isValidChar
  · rw [Char.ofNat, dif_pos valid] at code
    exact other code
  · -- what is no code point is read as the null character
    rw [Char.ofNat, dif_neg valid] at code
    cases code

/-- What the first byte of a sequence leads to. -/
inductive Started (n : Nat) : List Char × Decoder → Prop
  /-- The byte is a character of its own. -/
  | character : Started n ([Char.ofNat n], .idle)
  /-- No sequence starts with the byte. -/
  | refused : Started n ([replacement], .idle)
  /-- The byte opens a sequence that is beyond ASCII. -/
  | opened {low high more bits : Nat} (beyond : (Decoder.awaiting low high more bits).BeyondAscii) :
      Started n ([], .awaiting low high more bits)

/-- **A first byte is a character, or refused, or opens a sequence beyond ASCII.** -/
theorem started_start (byte : UInt8) : Started byte.toNat (start byte) := by
  unfold start
  dsimp only
  refine iteInduction (fun _ => .character) fun _ => ?_
  refine iteInduction (fun _ => .refused) fun _ => ?_
  -- the ranges of the first byte that open a sequence, each with its own range of the second one
  iterate 7
    refine iteInduction (fun _ => .opened ⟨by omega, by omega⟩) fun _ => ?_
  exact .refused

/-- What a first byte leaves open is beyond ASCII. -/
theorem beyondAscii_start (byte : UInt8) : (start byte).2.BeyondAscii := by
  have started := started_start byte
  generalize start byte = result at started
  cases started with
  | character => trivial
  | refused => trivial
  | opened beyond => exact beyond

/-- What a first byte completes is a line feed only if the byte is. -/
theorem newline_notMem_start {byte : UInt8} (other : byte ≠ 0x0A) : '\n' ∉ (start byte).1 := by
  have code : byte.toNat ≠ 0x0A := fun same => other (UInt8.toNat_inj.1 same)
  have started := started_start byte
  generalize start byte = result at started
  cases started with
  | character => exact fun mem => ofNat_ne_newline code (List.mem_singleton.1 mem).symm
  | refused => decide
  | opened beyond => exact List.not_mem_nil

/-- A first byte after which nothing is open has completed a character. -/
theorem start_ne_nil_of_idle {byte : UInt8} (closed : (start byte).2 = .idle) :
    (start byte).1 ≠ [] := by
  have started := started_start byte
  generalize start byte = result at started closed
  cases started with
  | character => exact List.cons_ne_nil _ _
  | refused => exact List.cons_ne_nil _ _
  | opened beyond => cases closed

variable {decoder : Decoder}

/-- **A line feed closes whatever is open**, and nothing is open behind it. -/
theorem step_newline (beyond : decoder.BeyondAscii) :
    step decoder 0x0A = (finish decoder ++ ['\n'], .idle) := by
  cases decoder with
  | idle => rfl
  | awaiting low high more bits =>
      have above : 0x80 ≤ low := by
        cases more with
        | zero => exact beyond.1
        | succ more => exact beyond.1
      have refused : ¬ (low ≤ (0x0A : UInt8).toNat ∧ (0x0A : UInt8).toNat ≤ high) := by
        rintro ⟨fits, -⟩
        have small : (0x0A : UInt8).toNat = 10 := rfl
        omega
      rw [step, if_neg refused]
      rfl

/-- What is open after a byte is beyond ASCII if what was open before it is. -/
theorem beyondAscii_step (beyond : decoder.BeyondAscii) (byte : UInt8) :
    (step decoder byte).2.BeyondAscii := by
  cases decoder with
  | idle => exact beyondAscii_start byte
  | awaiting low high more bits =>
      by_cases fits : low ≤ byte.toNat ∧ byte.toNat ≤ high
      · cases more with
        | zero =>
            rw [step, if_pos fits]
            trivial
        | succ more =>
            obtain ⟨above, large⟩ := beyond
            rw [step, if_pos fits]
            cases more with
            | zero => exact ⟨Nat.le_refl _, by omega⟩
            | succ more => exact ⟨Nat.le_refl _, by omega⟩
      · rw [step, if_neg fits]
        exact beyondAscii_start byte

/-- What is complete with a byte is free of line feeds unless the byte is one. -/
theorem newline_notMem_step (beyond : decoder.BeyondAscii) {byte : UInt8} (other : byte ≠ 0x0A) :
    '\n' ∉ (step decoder byte).1 := by
  cases decoder with
  | idle => exact newline_notMem_start other
  | awaiting low high more bits =>
      by_cases fits : low ≤ byte.toNat ∧ byte.toNat ≤ high
      · cases more with
        | zero =>
            obtain ⟨above, large⟩ := beyond
            have code : bits * 64 + (byte.toNat - 0x80) ≠ 0x0A := by omega
            rw [step, if_pos fits]
            simpa using (ofNat_ne_newline code).symm
        | succ more =>
            rw [step, if_pos fits]
            exact List.not_mem_nil
      · rw [step, if_neg fits]
        simpa [replacement] using newline_notMem_start other

/-- Between sequences nothing is open. -/
theorem beyondAscii_idle : Decoder.idle.BeyondAscii := trivial

/-- What the end of the bytes adds is no line feed. -/
theorem newline_notMem_finish (decoder : Decoder) : '\n' ∉ finish decoder := by
  cases decoder with
  | idle => exact List.not_mem_nil
  | awaiting low high more bits => exact fun mem => by cases List.mem_singleton.1 mem

/-- One byte is a step, and then the bytes behind it. -/
theorem decodeFrom_cons (decoder : Decoder) (byte : UInt8) (bytes : List UInt8) :
    decodeFrom decoder (byte :: bytes) =
      (step decoder byte).1 ++ decodeFrom (step decoder byte).2 bytes := rfl

/-- Decoding goes through a line feed, whatever is open before it. -/
theorem decodeFrom_append_newline (beyond : decoder.BeyondAscii) (before behind : List UInt8) :
    decodeFrom decoder (before ++ 0x0A :: behind) =
      decodeFrom decoder before ++ '\n' :: decode behind := by
  -- the invariant holds of the decoder that each byte leaves
  induction before generalizing decoder with
  | nil =>
      rw [List.nil_append, decodeFrom_cons, step_newline beyond, List.append_assoc]
      rfl
  | cons byte before ih =>
      rw [List.cons_append, decodeFrom_cons, decodeFrom_cons, ih (beyondAscii_step beyond byte),
        List.append_assoc]

/-- Bytes without a line feed are read without one. -/
theorem newline_notMem_decodeFrom (beyond : decoder.BeyondAscii) {bytes : List UInt8}
    (none : 0x0A ∉ bytes) : '\n' ∉ decodeFrom decoder bytes := by
  induction bytes generalizing decoder with
  | nil => exact newline_notMem_finish decoder
  | cons byte bytes ih =>
      rw [List.mem_cons, not_or] at none
      rw [decodeFrom_cons, List.mem_append, not_or]
      exact ⟨newline_notMem_step beyond (Ne.symm none.1), ih (beyondAscii_step beyond byte) none.2⟩

/-- **Decoding goes through line feeds**: what stands before one and what stands behind it are read
apart. -/
theorem decode_append_newline (before behind : List UInt8) :
    decode (before ++ 0x0A :: behind) = decode before ++ '\n' :: decode behind :=
  decodeFrom_append_newline beyondAscii_idle before behind

/-- **The lines of the text are the texts of the lines**, in number and content. -/
theorem splitOnP_decode (bytes : List UInt8) :
    (decode bytes).splitOnP (· == '\n') = (bytes.splitOnP (· == 0x0A)).map decode := by
  induction size : bytes.length using Nat.strongRecOn generalizing bytes with
  | ind length ih =>
      by_cases newline : 0x0A ∈ bytes
      · -- both sides split at any of the line feeds
        obtain ⟨before, behind, rfl⟩ := List.append_of_mem newline
        rw [List.length_append, List.length_cons] at size
        rw [decode_append_newline, List.splitOnP_append_cons _ _ rfl,
          List.splitOnP_append_cons _ _ rfl, List.map_append, ih before.length (by omega) before rfl,
          ih behind.length (by omega) behind rfl]
      · have text : '\n' ∉ decode bytes := newline_notMem_decodeFrom beyondAscii_idle newline
        rw [List.splitOnP_eq_singleton, List.splitOnP_eq_singleton, List.map_singleton]
        · intro byte mem
          exact beq_false_of_ne fun same => newline (same ▸ mem)
        · intro c mem
          exact beq_false_of_ne fun same => text (same ▸ mem)

/-- A byte after which nothing is open has completed a character. -/
theorem step_ne_nil_of_idle {byte : UInt8} (closed : (step decoder byte).2 = .idle) :
    (step decoder byte).1 ≠ [] := by
  cases decoder with
  | idle => exact start_ne_nil_of_idle closed
  | awaiting low high more bits =>
      rw [step] at closed ⊢
      split_ifs at closed ⊢
      · cases more with
        | zero => exact List.cons_ne_nil _ _
        | succ more => cases closed
      · exact List.cons_ne_nil _ _

/-- Something comes of bytes, and of what is open. -/
theorem decodeFrom_eq_nil_iff {bytes : List UInt8} :
    decodeFrom decoder bytes = [] ↔ decoder = .idle ∧ bytes = [] := by
  induction bytes generalizing decoder with
  | nil => cases decoder <;> simp [decodeFrom, finish]
  | cons byte bytes ih =>
      rw [decodeFrom_cons, List.append_eq_nil_iff, ih]
      refine iff_of_false ?_ fun both => List.cons_ne_nil _ _ both.2
      rintro ⟨nothing, closed, -⟩
      exact step_ne_nil_of_idle closed nothing

/-- **No bytes are dropped**: only of no bytes comes no text. -/
theorem decode_eq_nil_iff {bytes : List UInt8} : decode bytes = [] ↔ bytes = [] := by
  rw [decode, decodeFrom_eq_nil_iff, and_iff_right rfl]

/-! ## The encoding of a text -/

/-- A byte in the range of the last one of a sequence completes a character. -/
theorem decodeFrom_last {low high bits n : Nat} (small : n < 256) (fits : low ≤ n ∧ n ≤ high)
    (bytes : List UInt8) :
    decodeFrom (.awaiting low high 0 bits) (UInt8.ofNat n :: bytes) =
      Char.ofNat (bits * 64 + (n - 0x80)) :: decode bytes := by
  have code : (UInt8.ofNat n).toNat = n := UInt8.toNat_ofNat_of_lt' small
  rw [decodeFrom_cons, step, code, if_pos fits]
  rfl

/-- A byte in the range of one that is not the last leaves the sequence open. -/
theorem decodeFrom_further {low high more bits n : Nat} (small : n < 256) (fits : low ≤ n ∧ n ≤ high)
    (bytes : List UInt8) :
    decodeFrom (.awaiting low high (more + 1) bits) (UInt8.ofNat n :: bytes) =
      decodeFrom (.awaiting 0x80 0xBF more (bits * 64 + (n - 0x80))) bytes := by
  have code : (UInt8.ofNat n).toNat = n := UInt8.toNat_ofNat_of_lt' small
  rw [decodeFrom_cons, step, code, if_pos fits]
  rfl

/-- The first byte of two. -/
theorem start_two {v : Nat} (least : 0x80 ≤ v) (most : v < 0x800) :
    start (UInt8.ofNat (v / 64 % 32 + 192)) = ([], .awaiting 0x80 0xBF 0 (v / 64)) := by
  have code : (UInt8.ofNat (v / 64 % 32 + 192)).toNat = v / 64 + 192 := by
    rw [UInt8.toNat_ofNat_of_lt' (by simp only [UInt8.size]; omega)]
    omega
  simp only [start, code]
  rw [if_neg (by omega), if_neg (by omega), if_pos (by omega), Nat.add_sub_cancel]

/-- The first byte of three leaves room for the second one, unless the sequence is overlong or of a
surrogate. -/
theorem exists_start_three {v : Nat} (least : 0x800 ≤ v) (most : v < 0x10000)
    (scalar : v < 0xD800 ∨ 0xDFFF < v) :
    ∃ low high, start (UInt8.ofNat (v / 4096 % 16 + 224)) = ([], .awaiting low high 1 (v / 4096)) ∧
      low ≤ v / 64 % 64 + 128 ∧ v / 64 % 64 + 128 ≤ high := by
  have code : (UInt8.ofNat (v / 4096 % 16 + 224)).toNat = v / 4096 + 224 := by
    rw [UInt8.toNat_ofNat_of_lt' (by simp only [UInt8.size]; omega)]
    omega
  simp only [start, code]
  rw [if_neg (by omega), if_neg (by omega), if_neg (by omega)]
  rcases Nat.eq_zero_or_pos (v / 4096) with zero | pos
  · rw [zero, if_pos rfl]
    exact ⟨_, _, rfl, by omega, by omega⟩
  · rw [if_neg (by omega)]
    by_cases surrogates : v / 4096 = 13
    · rw [surrogates, if_pos rfl]
      exact ⟨_, _, rfl, by omega, by omega⟩
    · rw [if_neg (by omega), if_pos (by omega), Nat.add_sub_cancel]
      exact ⟨_, _, rfl, by omega, by omega⟩

/-- The first byte of four leaves room for the second one, unless the sequence is overlong or beyond
the last code point. -/
theorem exists_start_four {v : Nat} (least : 0x10000 ≤ v) (most : v < 0x110000) :
    ∃ low high, start (UInt8.ofNat (v / 262144 % 8 + 240)) =
        ([], .awaiting low high 2 (v / 262144)) ∧
      low ≤ v / 4096 % 64 + 128 ∧ v / 4096 % 64 + 128 ≤ high := by
  have code : (UInt8.ofNat (v / 262144 % 8 + 240)).toNat = v / 262144 + 240 := by
    rw [UInt8.toNat_ofNat_of_lt' (by simp only [UInt8.size]; omega)]
    omega
  simp only [start, code]
  rw [if_neg (by omega), if_neg (by omega), if_neg (by omega), if_neg (by omega), if_neg (by omega),
    if_neg (by omega)]
  rcases Nat.eq_zero_or_pos (v / 262144) with zero | pos
  · rw [zero, if_pos rfl]
    exact ⟨_, _, rfl, by omega, by omega⟩
  · rw [if_neg (by omega)]
    by_cases last : v / 262144 = 4
    · rw [last, if_neg (by omega), if_pos rfl]
      exact ⟨_, _, rfl, by omega, by omega⟩
    · rw [if_pos (by omega), Nat.add_sub_cancel]
      exact ⟨_, _, rfl, by omega, by omega⟩

/-- **The encoding of a character is read as that character**, whatever follows. -/
theorem decode_utf8EncodeChar_append (c : Char) (bytes : List UInt8) :
    decode (String.utf8EncodeChar c ++ bytes) = c :: decode bytes := by
  have char : Char.ofNat c.val.toNat = c := Char.ofNat_toNat c
  have valid : c.val.toNat < 0xD800 ∨ 0xDFFF < c.val.toNat ∧ c.val.toNat < 0x110000 := c.valid
  rw [String.utf8EncodeChar]
  generalize c.val.toNat = v at char valid
  -- one case for each width of the encoding
  by_cases one : v ≤ 127
  · have code : (UInt8.ofNat v).toNat = v :=
      UInt8.toNat_ofNat_of_lt' (by simp only [UInt8.size]; omega)
    rw [if_pos one, List.singleton_append, decode, decodeFrom_cons, step, start, code,
      if_pos (by omega), char]
    rfl
  rw [if_neg one]
  by_cases two : v ≤ 2047
  · rw [if_pos two, List.cons_append, List.singleton_append, decode, decodeFrom_cons, step,
      start_two (by omega) (by omega), List.nil_append, decodeFrom_last (by omega) (by omega),
      show v / 64 * 64 + (v % 64 + 128 - 0x80) = v by omega, char]
  rw [if_neg two]
  by_cases three : v ≤ 65535
  · obtain ⟨low, high, opens, fits⟩ :=
      exists_start_three (v := v) (by omega) (by omega) (by omega)
    rw [if_pos three]
    simp only [List.cons_append, List.nil_append]
    rw [decode, decodeFrom_cons, step, opens, List.nil_append,
      decodeFrom_further (by omega) fits, decodeFrom_last (by omega) (by omega),
      show (v / 4096 * 64 + (v / 64 % 64 + 128 - 0x80)) * 64 + (v % 64 + 128 - 0x80) = v by omega,
      char]
  · obtain ⟨low, high, opens, fits⟩ := exists_start_four (v := v) (by omega) (by omega)
    rw [if_neg three]
    simp only [List.cons_append, List.nil_append]
    rw [decode, decodeFrom_cons, step, opens, List.nil_append,
      decodeFrom_further (by omega) fits, decodeFrom_further (by omega) (by omega),
      decodeFrom_last (by omega) (by omega),
      show ((v / 262144 * 64 + (v / 4096 % 64 + 128 - 0x80)) * 64 + (v / 64 % 64 + 128 - 0x80)) * 64 +
        (v % 64 + 128 - 0x80) = v by omega, char]

/-- **The encoding of a text is read as that text.** -/
theorem decode_utf8Encode (text : List Char) :
    decode (text.flatMap String.utf8EncodeChar) = text := by
  induction text with
  | nil => rfl
  | cons c text ih => rw [List.flatMap_cons, decode_utf8EncodeChar_append, ih]

end ParserCombinators.Utf8
