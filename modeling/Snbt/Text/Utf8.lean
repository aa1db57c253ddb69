import Snbt.Text.Utf16

namespace Snbt.Utf8

/-!
# UTF-8

A well-formed sequence is recognised by the ranges its bytes may lie in, so
that overlong forms, surrogates and values past U+10FFFF are refused.  Decoding
never fails: where no well-formed sequence starts, as many bytes as one could
begin with are rejected together.  Each of them becomes one U+FFFD, and reading
goes on behind them.
-/

/-- A byte that may stand after the second place of a sequence. -/
def isContinuation (byte : UInt8) : Bool :=
  0x80 ≤ byte && byte ≤ 0xBF

/-- The six bits that a continuation byte carries. -/
def payload (byte : UInt8) : Nat :=
  byte.toNat % 0x40

/-- The bytes that a sequence of two may begin with. -/
def beginsTwo (lead second : UInt8) : Bool :=
  0xC2 ≤ lead && lead ≤ 0xDF && isContinuation second

/--
The bytes that a sequence of three may
begin with: no overlong form, no surrogate.
-/
def beginsThree (lead second : UInt8) : Bool :=
  if lead = 0xE0 then
    0xA0 ≤ second && second ≤ 0xBF
  else if lead = 0xED then
    0x80 ≤ second && second ≤ 0x9F
  else
    0xE1 ≤ lead && lead ≤ 0xEF && isContinuation second

/--
The bytes that a sequence of four may begin with: no overlong form,
none past U+10FFFF.
-/
def beginsFour (lead second : UInt8) : Bool :=
  if lead = 0xF0 then
    0x90 ≤ second && second ≤ 0xBF
  else if lead = 0xF4 then
    0x80 ≤ second && second ≤ 0x8F
  else
    0xF1 ≤ lead && lead ≤ 0xF3 && isContinuation second

/-- The character of a sequence of two bytes, and what follows it. -/
def two? (lead : UInt8) : List UInt8 → Option (Char × List UInt8)
  | second :: rest =>
      if beginsTwo lead second then
        some (Char.ofNat (lead.toNat % 0x20 * 0x40 + payload second), rest)
      else
        none
  | [] =>
      none

/-- The character of a sequence of three bytes, and what follows it. -/
def three? (lead : UInt8) : List UInt8 → Option (Char × List UInt8)
  | second :: third :: rest =>
      if beginsThree lead second && isContinuation third then
        some
          (Char.ofNat
            ((lead.toNat % 0x10 * 0x40 + payload second) * 0x40 +
              payload third),
          rest)
      else
        none
  | _ =>
      none

/-- The character of a sequence of four bytes, and what follows it. -/
def four? (lead : UInt8) : List UInt8 → Option (Char × List UInt8)
  | second :: third :: fourth :: rest =>
      if beginsFour lead second && isContinuation third &&
        isContinuation fourth then
        some
          (Char.ofNat
            (((lead.toNat % 0x08 * 0x40 + payload second) * 0x40 +
              payload third) * 0x40 +
              payload fourth),
          rest)
      else
        none
  | _ =>
      none

/--
The character of the well-formed sequence that starts with `lead`,
and what follows it.
-/
def front? (lead : UInt8) (rest : List UInt8) : Option (Char × List UInt8) :=
  if lead < 0x80 then
    some (Char.ofNat lead.toNat, rest)
  else
    two? lead rest <|> three? lead rest <|> four? lead rest

/--
Reading a sequence never gives back more bytes than stood after its first.
-/
theorem front?_length
    {lead : UInt8}
    {rest after : List UInt8}
    {char : Char}
    (found : front? lead rest = some (char, after)) :
    after.length ≤ rest.length := by
  unfold front? at found
  split at found
  · simp_all
  · simp only [Option.orElse_eq_orElse, Option.orElse_eq_or,
      Option.or_eq_some_iff] at found
    rcases found with two | ⟨_, three | ⟨_, four⟩⟩
    · unfold two? at two
      split at two <;> grind
    · unfold three? at three
      split at three <;> grind
    · unfold four? at four
      split at four <;> grind

/--
How many bytes behind `lead` are rejected with it where no well-formed sequence
starts: as many as one that starts with `lead` could go on with.
-/
def rejected (lead : UInt8) : List UInt8 → Nat
  | second :: rest =>
      if beginsFour lead second then
        if rest.head?.any isContinuation then 2 else 1
      else if beginsThree lead second then
        1
      else
        0
  | [] =>
      0

/-- Append the code units of the text that the bytes spell. -/
def decodeOnto (units : Array CodeUnit) : List UInt8 → Array CodeUnit
  | [] =>
      units
  | lead :: rest =>
      match _found : front? lead rest with
      | some (char, after) =>
          decodeOnto (units ++ Utf16.encodeChar char) after
      | none =>
          let more := rejected lead rest
          decodeOnto (units ++ List.replicate (1 + more) CodeUnit.replacement)
            (rest.drop more)
termination_by bytes => bytes.length
decreasing_by
  · have := front?_length _found
    simp only [List.length_cons]
    omega
  · simp only [List.length_cons, List.length_drop]
    omega

/--
The code units of the text that the bytes spell, each rejected byte as U+FFFD.
-/
def decode (bytes : List UInt8) : Array CodeUnit :=
  decodeOnto #[] bytes

end Snbt.Utf8
