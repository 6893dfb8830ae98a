import Lettre.Transport.Smtp.Client

/-!
# What `get_reply` reads

The client reads a reply line by line: `get_reply` takes a line with `read_line`, strips its CRLF
with `remove_crlf`, and hands it to `ResponseParser::read_line`, which reads the code from the
first three bytes and keeps the bytes after the fourth as a text. `parse_response` reads the same
replies at once, from the bytes (`Lettre.Smtp.parseResponse_eq_ok_iff`). This file says where
the two agree.

`getReply_empty_continuation` shows that they part on a line with an empty text, which
`read_line` takes for the last line. The texts of a reply are read back here under two
conditions, both on the texts a server writes: a text is not empty, and it holds no LF, on which
`read_line` would cut the line.

* `getReply_parseResponse`: **`get_reply` reads what `parse_response` reads.** Whenever
  `parse_response` reads a reply from the pending bytes, with no empty text and no LF in a
  text, `get_reply` returns the same response, or the same response as an error when it is
  not positive, and leaves pending exactly the bytes `parse_response` leaves.

It goes line by line: `readLine_codeLine` and `readLine_code` say what `read_line` makes of a
line of the reply, whether the parser has read the code yet or not; `getReplyLoop_contLine` and
`getReplyLoop_finalLine` are one turn of the loop of `get_reply`, and `getReplyLoop_lines` runs
the loop over the continuation lines, reading each from the socket with `readLine_replyLine`.
-/

namespace Lettre.Transport.Smtp

open Io
open Lettre.Smtp (Severity Category contLine finalLine)

/-! ### Codes -/

/-- The code of the hand-written parser for a code of `parse_response`: the same digits, the
third kept as its value. -/
def toCode (c : Lettre.Smtp.Code) : Code := ⟨c.severity, c.category, c.detail.digit - 48⟩

/-- The response of `parse_response` in the types of the hand-written parser. -/
def toResponse (R : Lettre.Smtp.Response) : Response := ⟨toCode R.code, R.message⟩

/-- `Code::code` writes the digits `Display for Code` writes. -/
theorem code_toCode (c : Lettre.Smtp.Code) : (toCode c).code = c.display := by
  have hd : (c.detail.digit - 48).toNat.repr.toList.map Char.toUInt8 = [c.detail.digit] := by
    cases c.detail <;> decide
  rw [toCode, Code.code, hd]
  rfl

theorem severityFromStr_digit (s : Severity) : severityFromStr [s.digit] = .ok s := by
  cases s <;> rfl

theorem categoryFromStr_digit (k : Category) : categoryFromStr [k.digit] = .ok k := by
  cases k <;> rfl

theorem parseU8_digit (d : Lettre.Smtp.Detail) : parseU8 [d.digit] = some (d.digit - 48) := by
  cases d <;> rfl

/-- `Code::from_str` reads the digits of a code. -/
theorem Code.fromStr_display (c : Lettre.Smtp.Code) (h : Utf8.valid c.display = true) :
    Code.fromStr ⟨c.display, h⟩ = some (.ok (toCode c)) := by
  have hb : ∀ i ≤ 3, Utf8.isCharBoundary c.display i = true := fun i hi =>
    Utf8.isCharBoundary_of_ascii c.display_ascii (by simpa [Lettre.Smtp.Code.display] using hi)
  simp only [Lettre.Smtp.Code.display] at hb
  simp [Code.fromStr, Str.slice, Str.len, hb, Lettre.Smtp.Code.display, severityFromStr_digit,
    categoryFromStr_digit, parseU8_digit, toCode]

theorem display_digit (c : Lettre.Smtp.Code) :
    ∀ x ∈ c.display, 48 ≤ x.toNat ∧ x.toNat ≤ 57 := by
  have h1 : ∀ s : Severity, 48 ≤ s.digit.toNat ∧ s.digit.toNat ≤ 57 := by
    intro s; cases s <;> decide
  have h2 : ∀ k : Category, 48 ≤ k.digit.toNat ∧ k.digit.toNat ≤ 57 := by
    intro k; cases k <;> decide
  have h3 : ∀ d : Lettre.Smtp.Detail, 48 ≤ d.digit.toNat ∧ d.digit.toNat ≤ 57 := by
    intro d; cases d <;> decide
  simp [Lettre.Smtp.Code.display, h1, h2, h3]

/-! ### One line through `read_line` -/

/-- The parser has not read a code yet, or it has read this one. -/
def CodeSoFar (parser : ResponseParser) (c : Lettre.Smtp.Code) : Prop :=
  parser.code = none ∨ parser.code = some (toCode c)

theorem readCode_display {parser : ResponseParser} {c : Lettre.Smtp.Code}
    (hcode : CodeSoFar parser c) {head : Str} (hhead : head.bytes = c.display) :
    parser.readCode head = some (.ok (toCode c)) := by
  rcases hcode with hcode | hcode
  · obtain ⟨bytes, hv⟩ := head
    subst hhead
    simpa [ResponseParser.readCode, hcode] using Code.fromStr_display c hv
  · simp [ResponseParser.readCode, hcode, code_toCode, hhead]

/-- **`read_line` on a line with a text.** The code is read, or found equal to the one read
first; the text after the separator is kept, and more lines follow when the separator is `-`. -/
theorem readLine_codeLine {parser : ResponseParser} {c : Lettre.Smtp.Code}
    (hcode : CodeSoFar parser c) {line t : Str} {b : UInt8} (hb : b.toNat < 0x80)
    (hline : line.bytes = c.display ++ b :: t.bytes) (ht : t.bytes ≠ []) :
    parser.readLine line =
      some (.ok (decide (b = 45), ⟨some (toCode c), parser.message ++ [t]⟩)) := by
  have hd : c.display.length = 3 := rfl
  have hsplit : line.bytes = (c.display ++ [b]) ++ t.bytes := by simp [hline]
  have hd4 : (c.display ++ [b]).length = 4 := by simp [hd]
  have hlen : line.len = 4 + t.bytes.length := by rw [Str.len, hsplit, List.length_append, hd4]
  have hpos : 0 < t.bytes.length := List.length_pos.mpr ht
  have h3 : Utf8.isCharBoundary line.bytes 3 = true := by
    rw [hline, ← hd]; exact Utf8.isCharBoundary_append_of_ascii (by simpa using hb)
  have h4 : Utf8.isCharBoundary line.bytes 4 = true := by
    rw [hsplit, ← hd4]; exact Utf8.isCharBoundary_append_of_valid t.valid
  obtain ⟨head, hhead, hhb, -⟩ := slice_zero_three (by omega) h3
  obtain ⟨text, htext, htb⟩ := Str.slice_eq_some (show 4 ≤ line.len by omega) h4
    (Utf8.isCharBoundary_length line.bytes)
  have hheadb : head.bytes = c.display := by rw [hhb, hline, ← hd, List.take_left]
  have htextb : text = t := Str.eq_of_bytes (by
    rw [htb, hlen, hsplit, ← hd4, List.drop_left, Nat.add_sub_cancel_left, List.take_length])
  have hsep : line.bytes[3]? = some b := by
    rw [hline, ← hd, List.getElem?_append_right (le_refl _), Nat.sub_self, List.getElem?_cons_zero]
  simp [ResponseParser.readLine, hhead, readCode_display hcode hheadb, htext, htextb, hsep,
    show ¬ line.len < 3 by omega, show 4 < line.len by omega]

/-- `read_line` on a line of the code alone: the reply is over. -/
theorem readLine_code {parser : ResponseParser} {c : Lettre.Smtp.Code}
    (hcode : CodeSoFar parser c) {line : Str} (hline : line.bytes = c.display) :
    parser.readLine line = some (.ok (false, ⟨some (toCode c), parser.message⟩)) := by
  have hlen : line.len = 3 := by rw [Str.len, hline]; rfl
  obtain ⟨head, hhead, hhb, -⟩ := slice_zero_three (show 3 ≤ line.len by omega)
    (by rw [hline]; exact Utf8.isCharBoundary_length c.display)
  have hheadb : head.bytes = c.display := by rw [hhb, hline]; rfl
  simp [ResponseParser.readLine, hhead, readCode_display hcode hheadb, hlen]

/-! ### One turn of the loop -/

/-- A text as `get_reply` reads it back: not empty, and with no LF. -/
def LineText (t : Str) : Prop := t.bytes ≠ [] ∧ (10 : UInt8) ∉ t.bytes

instance (t : Str) : Decidable (LineText t) := inferInstanceAs (Decidable (_ ∧ _))

theorem noCRLF_display_append (c : Lettre.Smtp.Code) {u : List UInt8} (hu : NoCRLF u) :
    NoCRLF (c.display ++ u) := by
  have hd := display_digit c
  simp only [Lettre.Smtp.Code.display, List.mem_cons, List.mem_singleton, List.not_mem_nil,
    or_false, forall_eq_or_imp, forall_eq] at hd
  have hne : ∀ x : UInt8, 48 ≤ x.toNat → x ≠ 13 := fun x hx h => absurd (h ▸ hx) (by decide)
  simp [Lettre.Smtp.Code.display, noCRLF_cons, hu, hne _ hd.1.1, hne _ hd.2.1.1, hne _ hd.2.2.1]

theorem removeCrlf_bytes {line : Str} {x : List UInt8} (hx : NoCRLF x)
    (hline : line.bytes = x ++ [13, 10]) : (removeCrlf line).bytes = x := by
  show replace line.bytes [13, 10] [] = x
  rw [hline, replace_crlf_end hx]

/-- A continuation line hands its text to the parser and the loop reads the next line. -/
theorem getReplyLoop_contLine {parser : ResponseParser} {c : Lettre.Smtp.Code}
    (hcode : CodeSoFar parser c) {t line line' : Str} (ht : LineText t) (hcrlf : NoCRLF t.bytes)
    (hline : line.bytes = contLine c t.bytes) {r r' : BufReader}
    (hr : r.readLine = (.ok line', r')) (fuel : Nat) :
    getReplyLoop (fuel + 1) parser line r =
      getReplyLoop fuel ⟨some (toCode c), parser.message ++ [t]⟩ line' r' := by
  have hrm : (removeCrlf line).bytes = c.display ++ 45 :: t.bytes :=
    removeCrlf_bytes (noCRLF_display_append c (noCRLF_cons.mpr ⟨by simp, hcrlf⟩))
      (by simp [hline, contLine])
  simp [getReplyLoop, readLine_codeLine hcode (by decide) hrm ht.1, hr]

/-- A final line hands its text, if any, to the parser and ends the loop, reading nothing. -/
theorem getReplyLoop_finalLine {parser : ResponseParser} {c : Lettre.Smtp.Code}
    (hcode : CodeSoFar parser c) {last : Option Str}
    (ht : ∀ t ∈ last, LineText t ∧ NoCRLF t.bytes) {line : Str}
    (hline : line.bytes = finalLine c (last.map Str.bytes)) (fuel : Nat) (r : BufReader) :
    getReplyLoop (fuel + 1) parser line r =
      (some (.ok ⟨some (toCode c), parser.message ++ last.toList⟩), r) := by
  cases last with
  | none =>
    have hrm : (removeCrlf line).bytes = c.display :=
      removeCrlf_bytes (by simpa using noCRLF_display_append c noCRLF_nil) hline
    simp [getReplyLoop, readLine_code hcode hrm]
  | some t =>
    obtain ⟨⟨hne, -⟩, hcrlf⟩ := ht t rfl
    have hrm : (removeCrlf line).bytes = c.display ++ 32 :: t.bytes :=
      removeCrlf_bytes (noCRLF_display_append c (noCRLF_cons.mpr ⟨by simp, hcrlf⟩))
        (by simp [hline, finalLine])
    simp [getReplyLoop, readLine_codeLine hcode (by decide) hrm hne]

/-! ### Lines from the socket -/

theorem lf_not_mem_display_append (c : Lettre.Smtp.Code) {u : List UInt8}
    (hu : (10 : UInt8) ∉ u) : (10 : UInt8) ∉ c.display ++ u := by
  intro h
  rcases List.mem_append.mp h with h | h
  · exact absurd (display_digit c 10 h).1 (by decide)
  · exact hu h

/-- `read_line` hands out a reply line whole. -/
theorem readLine_replyLine {L w : List UInt8} (hL : ∃ l, (10 : UInt8) ∉ l ∧ L = l ++ [10])
    (hv : Utf8.valid L = true) {r : BufReader} (hall : AllData r.inner.reads)
    (h : r.pending = L ++ w) :
    ∃ line r', r.readLine = (.ok line, r') ∧ line.bytes = L ∧ r'.pending = w ∧
      AllData r'.inner.reads := by
  obtain ⟨l, hl, rfl⟩ := hL
  exact BufReader.readLine_line hl hv hall (by simp [h])

theorem readLine_contLine (c : Lettre.Smtp.Code) {t : Str} (ht : LineText t) {w : List UInt8}
    {r : BufReader} (hall : AllData r.inner.reads) (h : r.pending = contLine c t.bytes ++ w) :
    ∃ line r', r.readLine = (.ok line, r') ∧ line.bytes = contLine c t.bytes ∧ r'.pending = w ∧
      AllData r'.inner.reads :=
  readLine_replyLine ⟨c.display ++ 45 :: t.bytes ++ [13], by
      rw [List.append_assoc]; exact lf_not_mem_display_append c (by simp [ht.2]),
      by simp [contLine]⟩ (Lettre.Smtp.valid_contLine c t.valid) hall h

theorem readLine_finalLine (c : Lettre.Smtp.Code) {last : Option Str}
    (ht : ∀ t ∈ last, LineText t) {w : List UInt8} {r : BufReader}
    (hall : AllData r.inner.reads) (h : r.pending = finalLine c (last.map Str.bytes) ++ w) :
    ∃ line r', r.readLine = (.ok line, r') ∧ line.bytes = finalLine c (last.map Str.bytes) ∧
      r'.pending = w ∧ AllData r'.inner.reads := by
  have hv := @Lettre.Smtp.valid_finalLine c (last.map Str.bytes) fun _ h => by
    obtain ⟨s, -, rfl⟩ := Option.mem_map.mp h; exact s.valid
  cases last with
  | none =>
    exact readLine_replyLine ⟨c.display ++ [13], lf_not_mem_display_append c (by simp),
      by simp [finalLine]⟩ hv hall h
  | some t =>
    exact readLine_replyLine ⟨c.display ++ 32 :: t.bytes ++ [13], by
      rw [List.append_assoc]; exact lf_not_mem_display_append c (by simp [(ht t rfl).2]),
      by simp [finalLine]⟩ hv hall h

/-! ### The whole reply -/

theorem length_le_flatten_contLine (c : Lettre.Smtp.Code) :
    ∀ ls : List Str, ls.length ≤ (ls.map fun t => contLine c t.bytes).flatten.length
  | [] => le_refl 0
  | t :: ls => by
    have := length_le_flatten_contLine c ls
    have := List.length_pos.mpr (Lettre.Smtp.contLine_ne_nil c t.bytes)
    rw [List.map_cons, List.flatten_cons, List.length_append, List.length_cons]
    omega

section Loop

variable (c : Lettre.Smtp.Code) {last : Option Str}
  (hlast : ∀ t ∈ last, LineText t ∧ NoCRLF t.bytes) (rest : List UInt8)
include hlast

/-- The loop of `get_reply` on a continuation line, with the rest of the reply pending: it reads
every line, hands every text to the parser, and leaves pending what follows the reply. -/
theorem getReplyLoop_lines : ∀ (ls : List Str), (∀ t ∈ ls, LineText t ∧ NoCRLF t.bytes) →
    ∀ (t : Str) (parser : ResponseParser) (line : Str) (r : BufReader) (fuel : Nat),
      LineText t → NoCRLF t.bytes → CodeSoFar parser c → line.bytes = contLine c t.bytes →
      r.pending = (ls.map fun t => contLine c t.bytes).flatten ++
        (finalLine c (last.map Str.bytes) ++ rest) →
      AllData r.inner.reads → ls.length + 1 < fuel →
      ∃ r', getReplyLoop fuel parser line r =
          (some (.ok ⟨some (toCode c), parser.message ++ t :: ls ++ last.toList⟩), r') ∧
        r'.pending = rest ∧ AllData r'.inner.reads
  | [], _, t, parser, line, r, fuel + 2, ht, hcrlf, hcode, hline, hp, hall, _ => by
    obtain ⟨line', r', hr, hline', hp', hall'⟩ :=
      readLine_finalLine c (fun t h => (hlast t h).1) hall (by simpa using hp)
    refine ⟨r', ?_, hp', hall'⟩
    rw [getReplyLoop_contLine hcode ht hcrlf hline hr,
      getReplyLoop_finalLine (.inr rfl) hlast hline']
  | t' :: ls, hls, t, parser, line, r, fuel + 1, ht, hcrlf, hcode, hline, hp, hall, hfuel => by
    obtain ⟨ht', hls'⟩ := List.forall_mem_cons.mp hls
    obtain ⟨line', r', hr, hline', hp', hall'⟩ :=
      readLine_contLine c ht'.1 hall (by simpa [List.append_assoc] using hp)
    obtain ⟨r'', hloop, hp'', hall''⟩ := getReplyLoop_lines ls hls' t'
      ⟨some (toCode c), parser.message ++ [t]⟩ line' r' fuel ht'.1 ht'.2 (.inr rfl) hline' hp'
      hall' (by simp at hfuel; omega)
    refine ⟨r'', ?_, hp'', hall''⟩
    rw [getReplyLoop_contLine hcode ht hcrlf hline hr, hloop]
    simp

end Loop

/-- **`get_reply` reads what `parse_response` reads.** Whenever `parse_response` reads a reply
`R` from bytes `w` and leaves `rest`, and no text of `R` is empty or holds an LF, `get_reply` on
a reader whose pending bytes are `w` returns `R`, as an error when it is not positive, and leaves
`rest` pending, however the socket's reads split the bytes. -/
theorem getReply_parseResponse {w rest : List UInt8} {R : Lettre.Smtp.Response}
    (h : Lettre.Smtp.parseResponse w = .ok rest R) (htexts : ∀ t ∈ R.message, LineText t)
    {reader : BufReader} (hp : reader.pending = w) (hall : AllData reader.inner.reads) :
    ∃ reader', Client.getReply ⟨some reader⟩ =
        (some (if (toResponse R).isPositive then .ok (toResponse R)
          else .error (.reply (toResponse R))), ⟨some reader'⟩) ∧ reader'.pending = rest := by
  obtain ⟨⟨c, ls, last, hnc⟩, rfl, rfl⟩ := Lettre.Smtp.parseResponse_eq_ok h
  have htext : ∀ t ∈ ls ++ last.toList, LineText t ∧ NoCRLF t.bytes :=
    fun t ht => ⟨htexts t ht, hnc t ht⟩
  have hlast : ∀ t ∈ last, LineText t ∧ NoCRLF t.bytes :=
    fun t ht => htext t (by simp [Option.mem_def.mp ht])
  have hp' : reader.pending = (ls.map fun t => contLine c t.bytes).flatten ++
      (finalLine c (last.map Str.bytes) ++ rest) := by
    rw [hp, Lettre.Smtp.Reply.bytes, List.append_assoc]
  cases ls with
  | nil =>
    obtain ⟨line, r', hr, hline, hp'', -⟩ :=
      readLine_finalLine c (fun t h => (hlast t h).1) hall (by simpa using hp')
    refine ⟨r', ?_, hp''⟩
    simp only [Client.getReply, hr]
    rw [show r'.pending.length + 2 = r'.pending.length + 1 + 1 from rfl,
      getReplyLoop_finalLine (.inl rfl) hlast hline]
    simp [ResponseParser.response, ResponseParser.default, toResponse,
      Lettre.Smtp.Reply.response]
  | cons t ls =>
    obtain ⟨ht, hls⟩ := List.forall_mem_cons.mp fun t h => htext t (List.mem_append_left _ h)
    obtain ⟨line, r', hr, hline, hp'', hall'⟩ :=
      readLine_contLine c ht.1 hall (by simpa [List.append_assoc] using hp')
    have hfuel : ls.length + 1 < r'.pending.length + 2 := by
      have := length_le_flatten_contLine c ls
      rw [hp'', List.length_append]
      omega
    obtain ⟨r'', hloop, hp''', -⟩ := getReplyLoop_lines c hlast rest ls hls t
      ResponseParser.default line r' _ ht.1 ht.2 (.inl rfl) hline hp'' hall' hfuel
    refine ⟨r'', ?_, hp'''⟩
    simp only [Client.getReply, hr, hloop]
    simp [ResponseParser.response, ResponseParser.default, toResponse, Lettre.Smtp.Reply.response]

/-- The reply `250-a` CRLF `250 ok` CRLF, read by `parse_response` and by `get_reply`. -/
theorem getReply_parseResponse_250 :
    let w : List UInt8 := [50, 53, 48, 45, 97, 13, 10, 50, 53, 48, 32, 111, 107, 13, 10]
    let R : Lettre.Smtp.Response :=
      ⟨⟨.positiveCompletion, .mailSystem, .zero⟩, [⟨[97], rfl⟩, ⟨[111, 107], rfl⟩]⟩
    let reader : BufReader := ⟨w, ⟨false, [], [], true, [], [], false⟩⟩
    Lettre.Smtp.parseResponse w = .ok [] R ∧ (∀ t ∈ R.message, LineText t) ∧
      reader.pending = w ∧ AllData reader.inner.reads ∧
      ∃ reader', Client.getReply ⟨some reader⟩ =
          (some (if (toResponse R).isPositive then .ok (toResponse R)
            else .error (.reply (toResponse R))), ⟨some reader'⟩) ∧ reader'.pending = [] :=
  by
  intro w R reader
  exact ⟨rfl, by decide, rfl, (fun _ h => by cases h),
    @getReply_parseResponse w [] R rfl (by decide) reader rfl (fun _ h => by cases h)⟩

end Lettre.Transport.Smtp
