import Lettre.Smtp.Response
import Lettre.Io.BufReader

/-!
# The hand-written reply parser

`transport/smtp/response.rs` holds a second reply parser, the one `Client::get_reply` uses: a
`ResponseParser` fed one line at a time, CRLF removed, by `read_line`, which answers whether
more lines follow. `Severity` and `Category` are the nom parser's enums, with the same digits;
`Code` is not, its third digit is a `u8`.

`read_line` reads the code with `Code::from_str` on `line[0..3]`, or checks it against the code
read first; then, only when the line is longer than four bytes, it keeps `line[4..]` as a message
line and answers whether the fourth byte is `-`. A line of four bytes or fewer ends the reply.
Every slice is a `Str.slice`, `none` where Rust panics, so a call's outcome is
`Option (Except Error _)`, none for a panic.

* `readLine_panics`: the slices are taken at fixed byte offsets, so `read_line` panics on a line
  whose byte 3 does not start a character, on a first line whose byte 1 does not, and on a line
  with the expected code whose byte 4 does not.
-/

namespace Lettre.Transport.Smtp

open Lettre.Smtp (Severity Category Severity.digit Category.digit)

/-- A 3 digit SMTP response code. -/
structure Code where
  severity : Severity
  category : Category
  detail : UInt8
  deriving DecidableEq, Repr

/-- `Code::code`: `format!("{}{}{}", severity, category, detail)`. -/
def Code.code (c : Code) : List UInt8 :=
  [c.severity.digit, c.category.digit] ++ c.detail.toNat.repr.toList.map Char.toUInt8

/-- Contains an SMTP reply, with separated code and message. -/
structure Response where
  code : Code
  message : List Str
  deriving DecidableEq

/-- `Response::is_positive`. -/
def Response.isPositive (r : Response) : Bool :=
  match r.code.severity with
  | .positiveCompletion | .positiveIntermediate => true
  | _ => false

/-- The errors of `transport::smtp::error` that the client and the parser return. Modelled from
their uses: the error module is not part of the source. -/
inductive Error
  /-- `Error::ResponseParsing`. -/
  | responseParsing (msg : String)
  /-- `From<io::Error>`: what `try!` makes of an I/O error. -/
  | io (e : Io.IoError)
  /-- `From<Response>`: a reply that is not positive. -/
  | reply (r : Response)
  /-- `From<&str>`: what `return_err!` makes of a text. -/
  | client (msg : String)
  deriving DecidableEq

/-! ### `FromStr` -/

/-- The `FromStr` impls of `Severity` and `Category`: a match of the whole text against one-digit
texts. -/
def fromStrTable {α : Type} (table : List (List UInt8 × α)) (err : String) (s : List UInt8) :
    Except Error α :=
  match table.lookup s with
  | some a => .ok a
  | none => .error (.responseParsing err)

/-- `Severity::from_str`. -/
def severityFromStr : List UInt8 → Except Error Severity :=
  fromStrTable [([50], .positiveCompletion), ([51], .positiveIntermediate),
    ([52], .transientNegativeCompletion), ([53], .permanentNegativeCompletion)]
    "First digit must be between 2 and 5"

/-- `Category::from_str`. -/
def categoryFromStr : List UInt8 → Except Error Category :=
  fromStrTable [([48], .syntaxError), ([49], .information), ([50], .connections),
    ([51], .unspecified3), ([52], .unspecified4), ([53], .mailSystem)]
    "Second digit must be between 0 and 5"

/-- The value of a text of ASCII decimal digits. -/
def decimalValue (digits : List UInt8) : Nat :=
  digits.foldl (fun n d => n * 10 + (d.toNat - 48)) 0

/-- `u8::from_str`: an optional `+`, then at least one decimal digit, with a value below 256. -/
def parseU8 (s : List UInt8) : Option UInt8 :=
  let digits := if s.head? = some 43 ∧ 1 < s.length then s.tail else s
  if digits ≠ [] ∧ digits.all (fun d => 48 ≤ d.toNat ∧ d.toNat ≤ 57) ∧ decimalValue digits < 256
  then some (decimalValue digits).toUInt8 else none

/-- `Code::from_str`: three bytes, read digit by digit from the slices `s[0..1]`, `s[1..2]` and
`s[2..3]`; none where a slice panics. -/
def Code.fromStr (s : Str) : Option (Except Error Code) :=
  if s.len = 3 then do
    let s0 ← s.slice 0 1
    let s1 ← s.slice 1 2
    let s2 ← s.slice 2 3
    pure <| match severityFromStr s0.bytes, categoryFromStr s1.bytes, parseU8 s2.bytes with
      | .ok severity, .ok category, some detail => .ok ⟨severity, category, detail⟩
      | _, _, _ => .error (.responseParsing "Could not parse response code")
  else some (.error (.responseParsing "Wrong code length (should be 3 digit)"))

/-! ### `ResponseParser` -/

/-- Parses an SMTP response: the code once read, and the message lines so far. -/
structure ResponseParser where
  code : Option Code
  message : List Str
  deriving DecidableEq

/-- `ResponseParser::default()`. -/
def ResponseParser.default : ResponseParser := ⟨none, []⟩

/-- The code check of `read_line`: against the code read first, or read with `Code::from_str`. -/
def ResponseParser.readCode (self : ResponseParser) (head : Str) : Option (Except Error Code) :=
  match self.code with
  | some code =>
    some (if code.code ≠ head.bytes then
      .error (.responseParsing "Response code has changed during a reponse") else .ok code)
  | none => Code.fromStr head

/-- `ResponseParser::read_line`: parses a line and returns whether more lines are to come; none
where it panics. -/
def ResponseParser.readLine (self : ResponseParser) (line : Str) :
    Option (Except Error (Bool × ResponseParser)) :=
  if line.len < 3 then some (.error (.responseParsing "Wrong code length (should be 3 digit)"))
  else do
    let head ← line.slice 0 3
    match ← self.readCode head with
    | .error e => pure (.error e)
    | .ok code =>
      if 4 < line.len then do
        let text ← line.slice 4 line.len
        pure (.ok (line.bytes[3]? = some 45, ⟨some code, self.message ++ [text]⟩))
      else pure (.ok (false, { self with code := some code }))

/-- `ResponseParser::response`. -/
def ResponseParser.response (self : ResponseParser) : Except Error Response :=
  match self.code with
  | some code => .ok ⟨code, self.message⟩
  | none => .error (.responseParsing "Incomplete response, could not read response code")

/-! ### Where `read_line` panics -/

theorem Code.fromStr_eq_none {s : Str} (hlen : s.len = 3)
    (h1 : Utf8.isCharBoundary s.bytes 1 = false) : Code.fromStr s = none := by
  simp [Code.fromStr, hlen, Str.slice_eq_none h1]

/-- The first three bytes of a line, when byte 3 starts a character. -/
theorem slice_zero_three {line : Str} (hlen : 3 ≤ line.len)
    (h3 : Utf8.isCharBoundary line.bytes 3 = true) :
    ∃ head : Str, line.slice 0 3 = some head ∧ head.bytes = line.bytes.take 3 ∧ head.len = 3 := by
  obtain ⟨head, hhead, hbytes⟩ :=
    Str.slice_eq_some (Nat.zero_le 3) (Utf8.isCharBoundary_zero _) h3
  refine ⟨head, hhead, by simpa using hbytes, ?_⟩
  simp only [Str.len, hbytes, List.drop_zero, List.length_take] at hlen ⊢
  omega

/-- **`read_line` panics where its slices meet a multi-byte character.** For every parser and
every line of three bytes or more: when byte 3 does not start a character, `line[0..3]` panics;
before the code is read, when byte 1 does not, `s[0..1]` of `Code::from_str` panics; after it is
read, on a line that starts with that code, when byte 4 does not, `line[4..]` panics. -/
theorem readLine_panics :
    (∀ (self : ResponseParser) (line : Str), 3 ≤ line.len →
      Utf8.isCharBoundary line.bytes 3 = false → self.readLine line = none) ∧
    (∀ (self : ResponseParser) (line : Str), self.code = none → 3 ≤ line.len →
      Utf8.isCharBoundary line.bytes 1 = false → self.readLine line = none) ∧
    (∀ (self : ResponseParser) (code : Code) (line : Str), self.code = some code → 4 < line.len →
      line.bytes.take 3 = code.code → Utf8.isCharBoundary line.bytes 4 = false →
      self.readLine line = none) := by
  have hslice : ∀ (self : ResponseParser) (line : Str), 3 ≤ line.len →
      Utf8.isCharBoundary line.bytes 3 = false → self.readLine line = none :=
    fun self line hlen h3 => by
      simp [ResponseParser.readLine, Str.slice_eq_none h3, show ¬ line.len < 3 by omega]
  refine ⟨hslice, fun self line hcode hlen h1 => ?_, fun self code line hcode hlen htake h4 => ?_⟩
  · cases h3 : Utf8.isCharBoundary line.bytes 3
    · exact hslice self line hlen h3
    obtain ⟨head, hhead, hbytes, hlen3⟩ := slice_zero_three hlen h3
    have h1' : Utf8.isCharBoundary head.bytes 1 = false := by
      rw [hbytes, Utf8.isCharBoundary_take (by omega), h1]
    simp [ResponseParser.readLine, hhead, ResponseParser.readCode, hcode,
      Code.fromStr_eq_none hlen3 h1', show ¬ line.len < 3 by omega]
  · cases h3 : Utf8.isCharBoundary line.bytes 3
    · exact hslice self line (by omega) h3
    obtain ⟨head, hhead, hbytes, -⟩ := slice_zero_three (by omega) h3
    simp [ResponseParser.readLine, hhead, ResponseParser.readCode, hcode, hbytes, htake,
      Str.slice_eq_none_left h4, hlen, show ¬ line.len < 3 by omega]

/-- `12é`: `line[0..3]` cuts the `é`. `é0`: `s[0..1]` cuts it. `250é`: `line[4..]` cuts it, on a
parser that has read 250 and on a fresh one. -/
theorem readLine_panics_on_e_acute :
    let twelve : Str := ⟨[49, 50, 195, 169], by decide⟩
    let eacute0 : Str := ⟨[195, 169, 48], by decide⟩
    let code250 : Code := ⟨.positiveCompletion, .mailSystem, 0⟩
    let reply : Str := ⟨[50, 53, 48, 195, 169], by decide⟩
    (3 ≤ twelve.len ∧ Utf8.isCharBoundary twelve.bytes 3 = false ∧
      ResponseParser.default.readLine twelve = none) ∧
    (ResponseParser.default.code = none ∧ 3 ≤ eacute0.len ∧
      Utf8.isCharBoundary eacute0.bytes 1 = false ∧
      ResponseParser.default.readLine eacute0 = none) ∧
    ((⟨some code250, []⟩ : ResponseParser).code = some code250 ∧ 4 < reply.len ∧
      reply.bytes.take 3 = code250.code ∧ Utf8.isCharBoundary reply.bytes 4 = false ∧
      (⟨some code250, []⟩ : ResponseParser).readLine reply = none) ∧
    ResponseParser.default.readLine reply = none :=
  ⟨⟨by decide, by decide, readLine_panics.1 _ _ (by decide) (by decide)⟩,
    ⟨rfl, by decide, by decide, readLine_panics.2.1 _ _ rfl (by decide) (by decide)⟩,
    ⟨rfl, by decide, by decide, by decide,
      readLine_panics.2.2 _ _ _ rfl (by decide) (by decide) (by decide)⟩, rfl⟩

end Lettre.Transport.Smtp
