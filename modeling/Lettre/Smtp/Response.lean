import Lettre.Nom
import Lettre.Utf8

/-!
# SMTP responses

`lettre/src/smtp/response.rs`. A reply code is three digits, each an enum (`Severity`,
`Category`, `Detail`), and a `Response` is a code with the text of each line. `parse_response`
reads a reply with nom: any number of continuation lines `C-text CRLF`, then a final line
`C CRLF` or `C SP text CRLF`, after which a `map_res!` checks that every line carried the final
line's code and that every text is UTF-8.

The three digit parsers are one family, `digit` over a table of ASCII digits and values
(`digit_cons`); `parseCode_display` and `parseCode_eq_ok` say that `parseCode` reads exactly the
digits `Display for Code` writes.
-/

namespace Lettre.Smtp

open Nom Nom.IResult Nom.Parser

/-- First digit: severity. -/
inductive Severity
  | positiveCompletion
  | positiveIntermediate
  | transientNegativeCompletion
  | permanentNegativeCompletion
  deriving DecidableEq, Repr

/-- Second digit. -/
inductive Category
  /-- `Category::Syntax`, a name Lean reserves. -/
  | syntaxError
  | information
  | connections
  | unspecified3
  | unspecified4
  | mailSystem
  deriving DecidableEq, Repr

/-- The detail digit of a response code (third digit). -/
inductive Detail
  | zero | one | two | three | four | five | six | seven | eight | nine
  deriving DecidableEq, Repr

/-- `Display for Severity`: `*self as u8`, one ASCII digit. -/
def Severity.digit : Severity → UInt8
  | .positiveCompletion => 50
  | .positiveIntermediate => 51
  | .transientNegativeCompletion => 52
  | .permanentNegativeCompletion => 53

/-- `Display for Category`. -/
def Category.digit : Category → UInt8
  | .syntaxError => 48
  | .information => 49
  | .connections => 50
  | .unspecified3 => 51
  | .unspecified4 => 52
  | .mailSystem => 53

/-- `Display for Detail`. -/
def Detail.digit : Detail → UInt8
  | .zero => 48 | .one => 49 | .two => 50 | .three => 51 | .four => 52
  | .five => 53 | .six => 54 | .seven => 55 | .eight => 56 | .nine => 57

/-- A 3 digit SMTP response code. -/
structure Code where
  severity : Severity
  category : Category
  detail : Detail
  deriving DecidableEq, Repr

/-- `Display for Code`: the three digits. -/
def Code.display (c : Code) : List UInt8 := [c.severity.digit, c.category.digit, c.detail.digit]

/-- An SMTP reply, with separated code and message lines. -/
structure Response where
  code : Code
  message : List Str
  deriving DecidableEq

/-- `Response::is_positive`: the severity is 2 or 3. -/
def Response.isPositive (r : Response) : Bool :=
  match r.code.severity with
  | .positiveCompletion | .positiveIntermediate => true
  | _ => false

/-- `Response::has_code`: the code's digits against the decimal digits of `code`. -/
def Response.hasCode (r : Response) (code : UInt16) : Bool :=
  r.code.display = code.toNat.repr.toList.map Char.toUInt8

/-! ### The parsers -/

/-- One digit parser of `parse_response`: `alt!` over a `tag!` per ASCII digit, each mapped to
its value. -/
def digit {α : Type} (table : List (UInt8 × α)) : Parser α :=
  alt (table.map fun e => (tag [e.1]).map fun _ => e.2)

/-- `parse_severity`. -/
def parseSeverity : Parser Severity :=
  digit [(50, .positiveCompletion), (51, .positiveIntermediate),
    (52, .transientNegativeCompletion), (53, .permanentNegativeCompletion)]

/-- `parse_category`. -/
def parseCategory : Parser Category :=
  digit [(48, .syntaxError), (49, .information), (50, .connections), (51, .unspecified3),
    (52, .unspecified4), (53, .mailSystem)]

/-- `parse_detail`. -/
def parseDetail : Parser Detail :=
  digit [(48, .zero), (49, .one), (50, .two), (51, .three), (52, .four), (53, .five),
    (54, .six), (55, .seven), (56, .eight), (57, .nine)]

/-- `parse_code`. -/
def parseCode : Parser Code :=
  (parseSeverity.pair (parseCategory.pair parseDetail)).map fun (s, c, d) => ⟨s, c, d⟩

/-- A continuation line of `parse_response`: the code, `-`, the text up to and with CRLF. -/
def continuationLine : Parser (Code × List UInt8) :=
  parseCode.pair ((char 45).preceded (takeUntilAndConsume [13, 10]))

/-- The final line of `parse_response`: the code, then `SP text` or nothing, then CRLF. -/
def lastLine : Parser (Code × Option (List UInt8)) :=
  parseCode.pair (((char 32).preceded (takeUntil [13, 10])).opt.terminated crlf)

/-- The closure of `parse_response`'s `map_res!`: every continuation line carries the final
line's code, and every text, the final one appended, is UTF-8. -/
def buildResponse : List (Code × List UInt8) × Code × Option (List UInt8) → Option Response
  | (lines, lastCode, lastText) =>
    if lines.all (·.1 = lastCode) then
      ((lines.map (·.2) ++ lastText.toList).mapM fromUtf8).map fun message => ⟨lastCode, message⟩
    else none

/-- `parse_response`. -/
def parseResponse : Parser Response :=
  ((many0 continuationLine).pair lastLine).mapRes buildResponse

/-! ### Reading a code -/

section Digit

variable {α : Type}

theorem digit_nil {table : List (UInt8 × α)} (h : table ≠ []) : digit table [] = incomplete := by
  obtain ⟨e, es, rfl⟩ := List.exists_cons_of_ne_nil h
  simp [digit, alt, orElse, tag]

/-- A digit parser reads the first byte and looks it up in its table. -/
theorem digit_cons (table : List (UInt8 × α)) (b : UInt8) (s : List UInt8) :
    digit table (b :: s) = match table.lookup b with | some v => ok s v | none => error := by
  induction table with
  | nil => rfl
  | cons e es ih =>
    obtain ⟨k, v⟩ := e
    have htag : tag [k] (b :: s) = if k = b then ok s [k] else error := by
      by_cases hb : k = b
      · subst hb; simpa using tag_append [k] s
      · have h1 : ¬ [k] <+: b :: s := by simpa using hb
        have h2 : ¬ b :: s <+: [k] := fun h =>
          hb (by simpa using (List.cons_prefix_cons.mp h).1.symm)
        simp [tag, h1, h2, hb]
    simp only [digit, alt, List.map_cons, List.foldr_cons, List.lookup_cons] at ih ⊢
    by_cases hb : k = b
    · subst hb; simp [orElse, htag]
    · have : (b == k) = false := by simpa using Ne.symm hb
      simp only [orElse, map_apply, htag, hb, ↓reduceIte, bind_error, this]
      exact ih

theorem mem_of_lookup_eq_some :
    ∀ {l : List (UInt8 × α)} {b : UInt8} {v : α}, l.lookup b = some v → (b, v) ∈ l
  | [], _, _, h => by cases h
  | (k, w) :: l, b, v, h => by
    simp only [List.lookup_cons] at h
    split at h
    · next hb =>
      cases h
      rw [beq_iff_eq.mp hb]
      exact List.mem_cons_self _ _
    · exact List.mem_cons_of_mem _ (mem_of_lookup_eq_some h)

theorem digit_eq_ok {table : List (UInt8 × α)} {i r : List UInt8} {v : α}
    (h : digit table i = ok r v) : ∃ b, (b, v) ∈ table ∧ i = b :: r := by
  cases i with
  | nil =>
    cases table with
    | nil => cases h
    | cons e es => rw [digit_nil (List.cons_ne_nil e es)] at h; cases h
  | cons b s =>
    rw [digit_cons] at h
    split at h
    · next v' hv =>
      cases h
      exact ⟨b, mem_of_lookup_eq_some hv, rfl⟩
    · cases h

end Digit

theorem parseSeverity_digit (s : Severity) (rest : List UInt8) :
    parseSeverity (s.digit :: rest) = ok rest s := by
  rw [parseSeverity, digit_cons]; cases s <;> rfl

theorem parseCategory_digit (c : Category) (rest : List UInt8) :
    parseCategory (c.digit :: rest) = ok rest c := by
  rw [parseCategory, digit_cons]; cases c <;> rfl

theorem parseDetail_digit (d : Detail) (rest : List UInt8) :
    parseDetail (d.digit :: rest) = ok rest d := by
  rw [parseDetail, digit_cons]; cases d <;> rfl

/-- `parse_code` reads back the digits `Display for Code` writes. -/
theorem parseCode_display (c : Code) (rest : List UInt8) :
    parseCode (c.display ++ rest) = ok rest c := by
  simp [parseCode, Code.display, parseSeverity_digit, parseCategory_digit, parseDetail_digit]

/-- A code `parse_code` read is the digits of its `Display`. -/
theorem parseCode_eq_ok {i r : List UInt8} {c : Code} (h : parseCode i = ok r c) :
    i = c.display ++ r := by
  simp only [parseCode, map_apply, pair_apply, bind_eq_ok] at h
  obtain ⟨_, _, ⟨_, s, hs, _, _, ⟨_, cat, hcat, _, d, hd, h1⟩, h2⟩, h3⟩ := h
  cases h1; cases h2; cases h3
  obtain ⟨b1, hb1, rfl⟩ := digit_eq_ok hs
  obtain ⟨b2, hb2, rfl⟩ := digit_eq_ok hcat
  obtain ⟨b3, hb3, rfl⟩ := digit_eq_ok hd
  have e1 : ∀ e ∈ [((50 : UInt8), Severity.positiveCompletion), (51, .positiveIntermediate),
      (52, .transientNegativeCompletion), (53, .permanentNegativeCompletion)], e.1 = e.2.digit := by
    decide
  have e2 : ∀ e ∈ [((48 : UInt8), Category.syntaxError), (49, .information), (50, .connections),
      (51, .unspecified3), (52, .unspecified4), (53, .mailSystem)], e.1 = e.2.digit := by decide
  have e3 : ∀ e ∈ [((48 : UInt8), Detail.zero), (49, .one), (50, .two), (51, .three), (52, .four),
      (53, .five), (54, .six), (55, .seven), (56, .eight), (57, .nine)], e.1 = e.2.digit := by
    decide
  rw [show b1 = s.digit from e1 _ hb1, show b2 = cat.digit from e2 _ hb2,
    show b3 = d.digit from e3 _ hb3]
  rfl

/-- Before its third digit, a code is `incomplete`. -/
theorem parseCode_prefix_display {c : Code} {q : List UInt8} (hq : q <+: c.display)
    (hne : q ≠ c.display) : parseCode q = incomplete := by
  obtain ⟨s, cat, d⟩ := c
  rcases List.prefix_cons_iff.mp hq with rfl | ⟨q1, rfl, hq1⟩
  · simp [parseCode, parseSeverity, digit_nil]
  rcases List.prefix_cons_iff.mp hq1 with rfl | ⟨q2, rfl, hq2⟩
  · simp [parseCode, parseSeverity_digit, parseCategory, digit_nil]
  rcases List.prefix_cons_iff.mp hq2 with rfl | ⟨q3, rfl, hq3⟩
  · simp [parseCode, parseSeverity_digit, parseCategory_digit, parseDetail, digit_nil]
  · rw [List.prefix_nil.mp hq3] at hne
    exact absurd rfl hne

end Lettre.Smtp
