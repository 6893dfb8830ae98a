import Lettre.Utf8

/-!
# The header value encoder

`message/header/mod.rs`: `HeaderValue::new` encodes a raw value with `HeaderValueEncoder`. The
encoder cuts the value into words with `WordsPlusFillIterator`, each word but the first starting
with the space or tab before it. A word that `allowed_str` accepts is written as it is; the others
gather in `encode_buf`. `flush_encode_buf` writes a gathered run in three parts: the plain text
before its first byte that `allowed_char` rejects, the text from there to its last rejected byte,
which `rfc2047::encode` turns into encoded words, and the plain text after it.

The writer (`EmailWriter`, with its line folding) and `rfc2047::encode` belong to the
`email_encoding` crate, which is not part of the source. The model records what the encoder hands
them, in order, as a list of `WriterCall`s. Writing to a `String` never fails, so the `?`s of the
source never return early, and the encoder can only stop by a panic: a slice or a `split_at` off
a character boundary, or the `unwrap` of `last_not_allowed`. `none` stands for one.

* `HeaderValueEncoder.encode_lossless`: for every name and value, the encoder does not panic, the
  texts it hands on concatenate to the value, every plain text is made of allowed bytes, and
  every text handed to `rfc2047::encode` starts and ends with a rejected byte.

The proof runs on two facts, both resting on every allowed byte being ASCII.
`WordsPlusFillIterator::next` cuts before a space or a tab, or at the end (`next_eq_some`). And
`flush_encode_buf` cuts after the last rejected byte, so before an allowed byte or at the end, and
before the first rejected byte, after allowed bytes only, so that the text from there is valid
and cannot start with a continuation byte (`flushEncodeBuf_sound`).
-/

namespace Lettre.Message

open Lettre.Utf8

/-! ### Bytes that need no encoding -/

/-- `WHITESPACE_CHARS`: the bytes a word may start with. -/
def whitespaceChars : List UInt8 := [32, 9]

/-- `allowed_char`: the bytes a header may carry as they are, all of ASCII but NUL, LF and CR. -/
def allowedChar (c : UInt8) : Bool :=
  1 ≤ c.toNat && c.toNat ≤ 9 || c.toNat == 11 || c.toNat == 12 ||
    14 ≤ c.toNat && c.toNat ≤ 127

/-- `allowed_str`. -/
def allowedStr (s : Str) : Bool := s.bytes.all allowedChar

theorem allowedChar_ascii {c : UInt8} (h : allowedChar c = true) : c.toNat < 0x80 := by
  simp [allowedChar] at h
  omega

/-! ### `WordsPlusFillIterator` -/

/-- The index `WordsPlusFillIterator::next` cuts at: that of the first space or tab after the
first byte (`enumerate().skip(1).find(..)`), or the length. -/
def nextWordEnd (s : List UInt8) : Nat :=
  (((s.drop 1).findIdx? fun c => whitespaceChars.contains c).map (· + 1)).getD s.length

/-- `WordsPlusFillIterator::next`, on the text `s` it has left: `some none` when that is empty,
else the next word and the text after it; `none` where a slice panics. -/
def WordsPlusFillIterator.next (s : Str) : Option (Option (Str × Str)) :=
  if s.bytes.isEmpty then some none
  else do
    let word ← s.slice 0 (nextWordEnd s.bytes)
    let rest ← s.slice word.len s.len
    pure (some (word, rest))

/-- The cut `next` makes falls before a space, a tab or the end, after one byte at least. -/
theorem nextWordEnd_spec {s : List UInt8} (hs : s ≠ []) :
    ∃ a b, s = a ++ b ∧ a ≠ [] ∧ nextWordEnd s = a.length ∧
      ∀ x ∈ b.head?, x.toNat < 0x80 := by
  obtain ⟨c, t, rfl⟩ := List.exists_cons_of_ne_nil hs
  cases h : t.findIdx? fun c => whitespaceChars.contains c with
  | none =>
    refine ⟨c :: t, [], by simp, by simp, ?_, by simp⟩
    simp only [nextWordEnd, List.drop_one, List.tail_cons, h, Option.map_none', Option.getD_none]
  | some j =>
    obtain ⟨u, x, w, rfl, rfl, -, hx⟩ := findIdx?_eq_some_split h
    refine ⟨c :: u, x :: w, by simp, by simp, ?_, ?_⟩
    · simp only [nextWordEnd, List.drop_one, List.tail_cons, h, Option.map_some',
        Option.getD_some, List.length_cons]
    simp only [whitespaceChars, List.elem_eq_mem, List.mem_cons, List.mem_singleton,
      List.not_mem_nil, or_false, decide_eq_true_eq] at hx
    rcases hx with rfl | rfl <;> rintro y ⟨⟩ <;> decide

theorem next_eq_none {s : Str} (hs : s.bytes = []) : WordsPlusFillIterator.next s = some none := by
  simp [WordsPlusFillIterator.next, hs]

/-- **`next` does not panic.** On a text that is not empty it returns a word of one byte at
least and the text after it. -/
theorem next_eq_some {s : Str} (hs : s.bytes ≠ []) :
    ∃ word rest, WordsPlusFillIterator.next s = some (some (word, rest)) ∧ word.bytes ≠ [] ∧
      word.bytes ++ rest.bytes = s.bytes := by
  obtain ⟨a, b, hab, ha, hend, hb⟩ := nextWordEnd_spec hs
  have hcut : isCharBoundary s.bytes a.length = true := by
    rw [hab]
    exact isCharBoundary_append_of_ascii hb
  obtain ⟨word, hw, hwb⟩ := Str.slice_eq_some (Nat.zero_le _) (isCharBoundary_zero _) hcut
  have hwa : word.bytes = a := by simp [hwb, hab]
  have hall : isCharBoundary s.bytes s.len = true := isCharBoundary_length _
  obtain ⟨rest, hr, hrb⟩ := Str.slice_eq_some (isCharBoundary_le hcut) hcut hall
  refine ⟨word, rest, ?_, hwa ▸ ha, ?_⟩
  · simp [WordsPlusFillIterator.next, hs, hend, hw, Str.len, hwa, hr]
  · simp [hwa, hrb, hab, Str.len]

/-! ### `flush_encode_buf` -/

/-- What `HeaderValueEncoder` hands its `EmailWriter`. -/
inductive WriterCall
  /-- `writer.folding().write_str(s)`. -/
  | plain (s : Str)
  /-- `rfc2047::encode(s, &mut writer)`. -/
  | encode (s : Str)
  deriving DecidableEq

/-- The text a call hands on. -/
def WriterCall.text : WriterCall → List UInt8
  | plain s => s.bytes
  | encode s => s.bytes

/-- A call as the encoder means to make it: plain text of allowed bytes only, and encoded text
that starts and ends with a byte `allowed_char` rejects. -/
def WriterCall.Sound : WriterCall → Prop
  | plain s => ∀ c ∈ s.bytes, allowedChar c = true
  | encode s => (∃ c, s.bytes.head? = some c ∧ allowedChar c = false) ∧
      ∃ c, s.bytes.getLast? = some c ∧ allowedChar c = false

/-- `HeaderValueEncoder::flush_encode_buf`: the calls that write `encode_buf`, or none where Rust
panics. `before` is the source's `prefix`. -/
def HeaderValueEncoder.flushEncodeBuf (encodeBuf : Str) : Option (List WriterCall) :=
  if encodeBuf.bytes.isEmpty then some []
  else
    let firstNotAllowed := encodeBuf.bytes.findIdx? fun c => !allowedChar c
    let lastNotAllowed := (encodeBuf.bytes.reverse.findIdx? fun c => !allowedChar c).map
      fun j => encodeBuf.len - 1 - j + 1
    match firstNotAllowed with
    | some firstNotAllowed => do
      let lastNotAllowed ← lastNotAllowed
      let (remaining, suffix) ← encodeBuf.splitAt lastNotAllowed
      let (before, toEncode) ← remaining.splitAt firstNotAllowed
      pure [.plain before, .encode toEncode, .plain suffix]
    | none => some [.plain Str.empty, .encode encodeBuf, .plain Str.empty]

/-- A rejected byte in the buffer splits it at its first and its last rejected bytes. -/
theorem exists_first_last_rejected {b : List UInt8} {c : UInt8} (hc : c ∈ b)
    (hrej : allowedChar c = false) :
    ∃ u x t w y v, b = u ++ x :: t ∧ b = w ++ y :: v ∧
      b.findIdx? (fun c => !allowedChar c) = some u.length ∧
      b.reverse.findIdx? (fun c => !allowedChar c) = some v.length ∧
      (∀ a ∈ u, allowedChar a = true) ∧ allowedChar x = false ∧
      allowedChar y = false ∧ (∀ a ∈ v, allowedChar a = true) := by
  obtain ⟨f, hf⟩ := findIdx?_isSome_of_mem hc (p := fun c => !allowedChar c) (by simp [hrej])
  obtain ⟨r, hr⟩ := findIdx?_isSome_of_mem (List.mem_reverse.mpr hc)
    (p := fun c => !allowedChar c) (by simp [hrej])
  obtain ⟨u, x, t, hb, rfl, hu, hx⟩ := findIdx?_eq_some_split hf
  obtain ⟨v', y, w', hb', rfl, hv, hy⟩ := findIdx?_eq_some_split hr
  refine ⟨u, x, t, w'.reverse, y, v'.reverse, hb, ?_, hf, by simpa using hr, by simpa using hu,
    by simpa using hx, by simpa using hy, by simpa using hv⟩
  rw [← List.reverse_reverse b, hb']
  simp

/-- The text from the first rejected byte to the last one, which the buffer's first part ends
with. -/
theorem exists_encoded_middle {b u t w v : List UInt8} {x y : UInt8} (hb1 : b = u ++ x :: t)
    (hb2 : b = w ++ y :: v) (hu : ∀ a ∈ u, allowedChar a = true) (hy : allowedChar y = false) :
    ∃ m, w ++ [y] = u ++ m ∧ m.head? = some x ∧ m.getLast? = some y := by
  rcases List.append_eq_append_iff.mp (hb1.symm.trans hb2) with ⟨a, rfl, ha⟩ | ⟨c, rfl, hc⟩
  · refine ⟨a ++ [y], by simp, ?_, by simp⟩
    cases a with
    | nil => simp_all
    | cons z a => simp_all
  · cases c with
    | nil => exact ⟨[y], by simp, by simp_all, by simp⟩
    | cons z c =>
      simp only [List.cons_append, List.cons.injEq] at hc
      simp [hc.1, hu z (by simp)] at hy

/-- **`flush_encode_buf` does not panic.** On a buffer that is empty or holds a rejected byte,
it hands on the buffer, cut into plain text of allowed bytes, a text that starts and ends with a
rejected byte for `rfc2047::encode`, and plain text of allowed bytes again. -/
theorem flushEncodeBuf_sound (buf : Str)
    (h : buf.bytes = [] ∨ ∃ c ∈ buf.bytes, allowedChar c = false) :
    ∃ calls, HeaderValueEncoder.flushEncodeBuf buf = some calls ∧
      (calls.map WriterCall.text).flatten = buf.bytes ∧ ∀ c ∈ calls, c.Sound := by
  rcases h with h | ⟨c, hc, hrej⟩
  · exact ⟨[], by simp [HeaderValueEncoder.flushEncodeBuf, h], by simp [h], by simp⟩
  obtain ⟨u, x, t, w, y, v, hb1, hb2, hf, hr, hu, hx, hy, hv⟩ :=
    exists_first_last_rejected hc hrej
  obtain ⟨m, hwm, hm1, hm2⟩ := exists_encoded_middle hb1 hb2 hu hy
  have hb3 : buf.bytes = (w ++ [y]) ++ v := by rw [hb2]; simp
  -- `split_at(last_not_allowed)` cuts before an allowed byte or at the end
  have hcut1 : isCharBoundary buf.bytes (w ++ [y]).length = true := by
    rw [hb3]
    exact isCharBoundary_append_of_ascii fun a ha =>
      allowedChar_ascii (hv a (List.mem_of_mem_head? ha))
  obtain ⟨remaining, suffix, hsplit1, hrem, hsuf⟩ := Str.splitAt_eq_some hcut1
  have hrem' : remaining.bytes = u ++ m := by rw [hrem, hb3, List.take_left, hwm]
  have hsuf' : suffix.bytes = v := by rw [hsuf, hb3, List.drop_left]
  -- `split_at(first_not_allowed)` cuts after allowed bytes, before a valid text
  have hcut2 : isCharBoundary remaining.bytes u.length = true := by
    have hm : valid m = true :=
      valid_of_ascii_append (fun a ha => allowedChar_ascii (hu a ha)) (hrem' ▸ remaining.valid)
    rw [hrem']
    exact isCharBoundary_append_of_valid hm
  obtain ⟨before, toEncode, hsplit2, hbef, henc⟩ := Str.splitAt_eq_some hcut2
  have hbef' : before.bytes = u := by rw [hbef, hrem']; simp
  have henc' : toEncode.bytes = m := by rw [henc, hrem']; simp
  have hlast : buf.len - 1 - v.length + 1 = (w ++ [y]).length := by simp [Str.len, hb2]
  refine ⟨[.plain before, .encode toEncode, .plain suffix], ?_, ?_, ?_⟩
  · have hne : buf.bytes.isEmpty = false := by rw [hb1]; simp
    have hsplit1' : buf.splitAt (w.length + 1) = some (remaining, suffix) := by simpa using hsplit1
    simp [HeaderValueEncoder.flushEncodeBuf, hne, hf, hr, hlast, hsplit1', hsplit2]
  · simp [WriterCall.text, hbef', henc', hsuf', hb3, hwm]
  · simp [WriterCall.Sound, hbef', henc', hsuf', hm1, hm2, hx, hy]
    exact ⟨hu, hv⟩

/-! ### `format` -/

/-- The `for` loop of `HeaderValueEncoder::format` with room for `fuel` words, from the text `s`
the iterator has left, the buffer `encodeBuf` and the calls made so far; then the last flush. -/
def HeaderValueEncoder.formatAux :
    Nat → Str → Str → List WriterCall → Option (List WriterCall)
  | 0, _, _, _ => none
  | fuel + 1, s, encodeBuf, calls =>
    match WordsPlusFillIterator.next s with
    | none => none
    | some none => (flushEncodeBuf encodeBuf).map (calls ++ ·)
    | some (some (nextWord, rest)) =>
      if allowedStr nextWord then
        (flushEncodeBuf encodeBuf).bind fun flushed =>
          formatAux fuel rest Str.empty (calls ++ flushed ++ [.plain nextWord])
      else formatAux fuel rest (encodeBuf.pushStr nextWord) calls

/-- `HeaderValueEncoder::format`. Every word is a byte long at least, so one more than the
value's length is fuel enough (`formatAux_sound`). -/
def HeaderValueEncoder.format (value : Str) : Option (List WriterCall) :=
  formatAux (value.len + 1) value Str.empty []

/-- `HeaderValueEncoder::encode`: the column the `EmailWriter` starts at, after `name: `, and the
calls `format` makes on it. -/
def HeaderValueEncoder.encode (name : List UInt8) (value : Str) :
    Nat × Option (List WriterCall) :=
  (name.length + 2, format value)

/-- **The loop of `format`.** From a buffer that is empty or holds a rejected byte, and calls
that are sound, the loop does not panic, and hands on what it had, the buffer and the text the
iterator has left, in that order, in sound calls. -/
theorem formatAux_sound : ∀ (fuel : Nat) (s encodeBuf : Str) (calls : List WriterCall),
    s.len < fuel → (encodeBuf.bytes = [] ∨ ∃ c ∈ encodeBuf.bytes, allowedChar c = false) →
    (∀ c ∈ calls, c.Sound) →
    ∃ out, HeaderValueEncoder.formatAux fuel s encodeBuf calls = some out ∧
      (out.map WriterCall.text).flatten =
        (calls.map WriterCall.text).flatten ++ encodeBuf.bytes ++ s.bytes ∧
      ∀ c ∈ out, c.Sound
  | 0, _, _, _, hfuel, _, _ => absurd hfuel (Nat.not_lt_zero _)
  | fuel + 1, s, encodeBuf, calls, hfuel, hbuf, hcalls => by
    obtain ⟨flushed, hfl, htext, hsound⟩ := flushEncodeBuf_sound encodeBuf hbuf
    by_cases hs : s.bytes = []
    · -- the iterator is done: the last flush
      refine ⟨calls ++ flushed, by simp [HeaderValueEncoder.formatAux, next_eq_none hs, hfl],
        ?_, ?_⟩
      · simp [htext, hs]
      · simpa using fun c hc => (List.mem_append.mp hc).elim (hcalls c) (hsound c)
    obtain ⟨word, rest, hnext, hword, hsplit⟩ := next_eq_some hs
    have hrest : rest.len < fuel := by
      have := List.length_pos.mpr hword
      have := congrArg List.length hsplit
      simp only [List.length_append, Str.len] at this hfuel ⊢
      omega
    by_cases hallowed : allowedStr word
    · -- an allowed word: flush, then write the word
      obtain ⟨out, hout, houtText, houtSound⟩ := formatAux_sound fuel rest Str.empty
        (calls ++ flushed ++ [.plain word]) hrest (.inl rfl) (by
          simp only [List.mem_append, List.mem_singleton]
          rintro c ((hc | hc) | rfl)
          · exact hcalls c hc
          · exact hsound c hc
          · simpa [allowedStr] using hallowed)
      refine ⟨out, by simpa [HeaderValueEncoder.formatAux, hnext, hallowed, hfl] using hout, ?_,
        houtSound⟩
      simp [houtText, htext, WriterCall.text, ← hsplit]
    · -- a word to encode: into the buffer
      have hrej : ∃ c ∈ (encodeBuf.pushStr word).bytes, allowedChar c = false := by
        simp only [allowedStr, List.all_eq_true, not_forall, Bool.not_eq_true] at hallowed
        obtain ⟨c, hc, hc'⟩ := hallowed
        exact ⟨c, by simp [hc], hc'⟩
      obtain ⟨out, hout, houtText, houtSound⟩ :=
        formatAux_sound fuel rest (encodeBuf.pushStr word) calls hrest (.inr hrej) hcalls
      refine ⟨out, by simp [HeaderValueEncoder.formatAux, hnext, hallowed, hout], ?_, houtSound⟩
      simp [houtText, ← hsplit]

/-- **The encoder loses nothing and encodes only what it must.** For every header name and every
value, `HeaderValueEncoder::encode` does not panic; the texts it hands the writer concatenate to
the value; the plain texts are made of allowed bytes; and every text it passes to
`rfc2047::encode` starts and ends with a byte `allowed_char` rejects. -/
theorem HeaderValueEncoder.encode_lossless (name : List UInt8) (value : Str) :
    ∃ calls, (HeaderValueEncoder.encode name value).2 = some calls ∧
      (calls.map WriterCall.text).flatten = value.bytes ∧ ∀ c ∈ calls, c.Sound := by
  obtain ⟨calls, h, htext, hsound⟩ :=
    formatAux_sound (value.len + 1) value Str.empty [] (Nat.lt_succ_self _) (.inl rfl) (by simp)
  exact ⟨calls, h, by simpa using htext, hsound⟩

/-- `Hello Émile`: the space before `Émile` and its plain tail stay out of the encoded word. -/
example : (HeaderValueEncoder.format
      ⟨ascii "Hello " ++ [0xC3, 0x89] ++ ascii "mile", by decide⟩).map
        (·.map WriterCall.text) =
    some [ascii "Hello", ascii " ", [0xC3, 0x89], ascii "mile"] := by
  rfl

end Lettre.Message
