import Lettre.Bytes

/-!
# Message headers

`message/header/mod.rs`: the headers of a message are an ordered list of `HeaderValue`s, each a
valid name with its value twice over: the raw text the caller gave, and the encoded text
`HeaderValue::new` makes of it for the wire. `Headers::get_raw` finds a header by comparing
names up to ASCII case and returns the raw value of the first one; `Display for Headers` writes
every header as its name, `": "`, its encoded value and CRLF. Several headers may share a name.

The encoding is `HeaderValueEncoder::encode`, which drives the `email_encoding` crate's
`EmailWriter` and `rfc2047::encode`. That crate is not part of the source, so the encoding is a
parameter `encode` of every function that makes a `HeaderValue`. The encoder reads the header's
name only through the column the value starts at (`name.len() + ": ".len()`), so `encode` takes
that column and the raw value.

* `isValid_of_eqIgnoreAsciiCase`: a text equal up to ASCII case to a header name is a valid
  header name, so the `unwrap` of `HeaderName::new_from_ascii` on such a text never panics.
* `findHeader_toLowercase`: lowercasing the name looked for finds the same header.
* `display_appendRaw`: appending a header appends its line to the `Display` text.
-/

namespace Lettre.Message

/-! ### ASCII case -/

/-- `u8::to_ascii_lowercase`. -/
def asciiLower (b : UInt8) : UInt8 := if 65 ≤ b.toNat ∧ b.toNat ≤ 90 then b + 32 else b

/-- `str::to_lowercase` on the ASCII letters. A header name is ASCII; the case table of the other
Unicode characters is the standard library's and is not modelled, their bytes are kept. -/
def toLowercase (s : List UInt8) : List UInt8 := s.map asciiLower

/-- `str::eq_ignore_ascii_case`. -/
def eqIgnoreAsciiCase (a b : List UInt8) : Bool := decide (toLowercase a = toLowercase b)

theorem asciiLower_toNat (b : UInt8) :
    (asciiLower b).toNat = if 65 ≤ b.toNat ∧ b.toNat ≤ 90 then b.toNat + 32 else b.toNat := by
  unfold asciiLower
  split
  · have h32 : (b + 32).toNat = (b.toNat + 32) % 256 := rfl
    omega
  · rfl

@[simp] theorem asciiLower_asciiLower (b : UInt8) : asciiLower (asciiLower b) = asciiLower b := by
  apply UInt8.toNat.inj
  have h := asciiLower_toNat b
  rw [asciiLower_toNat (asciiLower b)]
  split_ifs at h ⊢ <;> omega

@[simp] theorem toLowercase_toLowercase (s : List UInt8) :
    toLowercase (toLowercase s) = toLowercase s := by
  simp [toLowercase, Function.comp_def]

@[simp] theorem length_toLowercase (s : List UInt8) : (toLowercase s).length = s.length :=
  List.length_map s asciiLower

theorem eqIgnoreAsciiCase_toLowercase (a b : List UInt8) :
    eqIgnoreAsciiCase (toLowercase a) b = eqIgnoreAsciiCase a b := by
  simp [eqIgnoreAsciiCase]

theorem length_eq_of_eqIgnoreAsciiCase {a b : List UInt8} (h : eqIgnoreAsciiCase a b = true) :
    a.length = b.length := by
  rw [← length_toLowercase a, ← length_toLowercase b, of_decide_eq_true h]

/-! ### Header names -/

/-- The checks of `HeaderName::new_from_ascii`: not empty, at most 76 bytes, ASCII, and no `:`
and no space. -/
def HeaderName.isValid (ascii : List UInt8) : Bool :=
  !ascii.isEmpty && decide (ascii.length ≤ 76) && isAscii ascii &&
    !(ascii.contains 58 || ascii.contains 32)

/-- A valid header name. -/
structure HeaderName where
  name : List UInt8
  valid : HeaderName.isValid name = true
  deriving DecidableEq

/-- `HeaderName::new_from_ascii`. -/
def HeaderName.newFromAscii (ascii : List UInt8) : Option HeaderName :=
  if h : HeaderName.isValid ascii then some ⟨ascii, h⟩ else none

/-- Lowercasing changes none of the checks: it keeps the length and ASCII, and `:` and the space
are not letters. -/
theorem isValid_toLowercase (s : List UInt8) :
    HeaderName.isValid (toLowercase s) = HeaderName.isValid s := by
  have hascii : isAscii (toLowercase s) = isAscii s := by
    simp only [isAscii, toLowercase, List.all_map, Function.comp_def, asciiLower_toNat]
    congr 1; funext b; split <;> simp only [decide_eq_decide]; omega
  have hsep : ∀ c : UInt8, (c = 58 ∨ c = 32) → (toLowercase s).contains c = s.contains c := by
    intro c hc
    have hinj : Function.Injective UInt8.toNat := fun _ _ h => UInt8.toNat.inj h
    have hb : ∀ b, asciiLower b = c ↔ b = c := fun b => by
      rw [← hinj.eq_iff, ← hinj.eq_iff, asciiLower_toNat]
      rcases hc with rfl | rfl <;>
        simp only [show (58 : UInt8).toNat = 58 from rfl, show (32 : UInt8).toNat = 32 from rfl] <;>
        split <;> omega
    simp only [List.contains, List.elem_eq_mem, toLowercase, List.mem_map, hb, exists_eq_right]
  have hempty : (toLowercase s).isEmpty = s.isEmpty := by cases s <;> rfl
  simp only [HeaderName.isValid, hempty, length_toLowercase, hascii, hsep 58 (.inl rfl),
    hsep 32 (.inr rfl)]

/-- **A name found is a valid name.** A text equal up to ASCII case to a header name passes
`HeaderName::new_from_ascii`. -/
theorem isValid_of_eqIgnoreAsciiCase {h : List UInt8} {n : HeaderName}
    (hn : eqIgnoreAsciiCase h n.name = true) : HeaderName.isValid h = true := by
  rw [← isValid_toLowercase, of_decide_eq_true hn, isValid_toLowercase]
  exact n.valid

/-! ### Header values and `Headers` -/

/-- A header: its name, its raw value, and the value encoded for the wire. -/
structure HeaderValue where
  name : HeaderName
  rawValue : List UInt8
  encodedValue : List UInt8
  deriving DecidableEq

/-- `HeaderValue::new`: the raw value encoded from the column after `name: `. -/
def HeaderValue.new (encode : Nat → List UInt8 → List UInt8) (name : HeaderName)
    (rawValue : List UInt8) : HeaderValue :=
  ⟨name, rawValue, encode (name.name.length + 2) rawValue⟩

/-- A set of email headers, in order. -/
structure Headers where
  headers : List HeaderValue

/-- `Headers::new`. -/
def Headers.new : Headers := ⟨[]⟩

/-- `Headers::find_header`: the first header whose name equals `name` up to ASCII case. -/
def Headers.findHeader (self : Headers) (name : List UInt8) : Option HeaderValue :=
  self.headers.find? fun value => eqIgnoreAsciiCase name value.name.name

/-- `Headers::get_raw`: the raw value of `find_header`. -/
def Headers.getRaw (self : Headers) (name : List UInt8) : Option (List UInt8) :=
  (self.findHeader name).map HeaderValue.rawValue

/-- `Headers::append_raw`: a header added after the others. Modelled from the source's uses:
`dkim.rs` calls it, and the `header/mod.rs` of the source does not define it. -/
def Headers.appendRaw (encode : Nat → List UInt8 → List UInt8) (self : Headers)
    (name : HeaderName) (value : List UInt8) : Headers :=
  ⟨self.headers ++ [HeaderValue.new encode name value]⟩

/-- The line `Display for Headers` writes for one header. -/
def HeaderValue.line (value : HeaderValue) : List UInt8 :=
  value.name.name ++ ascii ": " ++ value.encodedValue ++ [13, 10]

/-- `Display for Headers`: every header's line, in order. -/
def Headers.display (self : Headers) : List UInt8 := (self.headers.map HeaderValue.line).flatten

theorem findHeader_toLowercase (self : Headers) (name : List UInt8) :
    self.findHeader (toLowercase name) = self.findHeader name := by
  simp only [Headers.findHeader, eqIgnoreAsciiCase_toLowercase]

@[simp] theorem getRaw_toLowercase (self : Headers) (name : List UInt8) :
    self.getRaw (toLowercase name) = self.getRaw name := by
  rw [Headers.getRaw, findHeader_toLowercase, Headers.getRaw]

theorem findHeader_eqIgnoreAsciiCase {self : Headers} {name : List UInt8} {value : HeaderValue}
    (h : self.findHeader name = some value) :
    value ∈ self.headers ∧ eqIgnoreAsciiCase name value.name.name = true := by
  unfold Headers.findHeader at h
  have hp := List.find?_some h
  exact ⟨List.mem_of_find?_eq_some h, hp⟩

@[simp] theorem display_new : Headers.new.display = [] := rfl

theorem display_appendRaw (encode : Nat → List UInt8 → List UInt8) (self : Headers)
    (name : HeaderName) (value : List UInt8) :
    (self.appendRaw encode name value).display =
      self.display ++ (HeaderValue.new encode name value).line := by
  simp [Headers.display, Headers.appendRaw]

end Lettre.Message
