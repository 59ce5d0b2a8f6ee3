/-! # Reading bytes as text

Bytes are read as UTF-8. Where they are no UTF-8, the reading goes on: the longest beginning of a
well-formed sequence that stands there, or a single byte if none does, is shown as one replacement
character, and the byte that did not fit is looked at again as the start of something new.

* **`Utf8.Decoder`** — what has been read of a sequence that is not complete yet.
* **`Utf8.step`** — takes one byte and tells which characters are complete with it.
* **`Utf8.decode`** — the characters of a list of bytes.

Overlong forms, surrogates and code points above U+10FFFF are excluded by the range of the second
byte, so every sequence that `Utf8.step` completes is a character. -/

namespace ParserCombinators.Utf8

/-- The character that stands for bytes that are no text. -/
def replacement : Char := '\uFFFD'

/-- What has been read of a sequence. -/
inductive Decoder where
  /-- The bytes so far are complete characters. -/
  | idle
  /-- Inside a sequence whose first bytes gave `bits`: the next byte has to lie between `low` and
  `high`, and `more` continuation bytes follow it. -/
  | awaiting (low high more bits : Nat)
  deriving DecidableEq

/-- Takes the first byte of a sequence. -/
def start (byte : UInt8) : List Char × Decoder :=
  let n := byte.toNat
  if n < 0x80 then ([Char.ofNat n], .idle)
  else if n < 0xC2 then ([replacement], .idle)
  else if n < 0xE0 then ([], .awaiting 0x80 0xBF 0 (n - 0xC0))
  else if n = 0xE0 then ([], .awaiting 0xA0 0xBF 1 0)
  else if n = 0xED then ([], .awaiting 0x80 0x9F 1 0xD)
  else if n < 0xF0 then ([], .awaiting 0x80 0xBF 1 (n - 0xE0))
  else if n = 0xF0 then ([], .awaiting 0x90 0xBF 2 0)
  else if n < 0xF4 then ([], .awaiting 0x80 0xBF 2 (n - 0xF0))
  else if n = 0xF4 then ([], .awaiting 0x80 0x8F 2 4)
  else ([replacement], .idle)

/-- Takes one byte: the characters that are complete with it, and what is left open. -/
def step : Decoder → UInt8 → List Char × Decoder
  | .idle, byte => start byte
  | .awaiting low high more bits, byte =>
      if low ≤ byte.toNat ∧ byte.toNat ≤ high then
        let extended := bits * 64 + (byte.toNat - 0x80)
        match more with
        | 0 => ([Char.ofNat extended], .idle)
        | more + 1 => ([], .awaiting 0x80 0xBF more extended)
      else
        let (characters, next) := start byte
        (replacement :: characters, next)

/-- The characters that the end of the bytes adds: a sequence that is not complete is no text. -/
def finish : Decoder → List Char
  | .idle => []
  | .awaiting .. => [replacement]

/-- The characters of the bytes that follow what the decoder has read. -/
def decodeFrom (decoder : Decoder) : List UInt8 → List Char
  | [] => finish decoder
  | byte :: bytes =>
      let (characters, next) := step decoder byte
      characters ++ decodeFrom next bytes

/-- The characters of a list of bytes. -/
def decode (bytes : List UInt8) : List Char :=
  decodeFrom .idle bytes

end ParserCombinators.Utf8
