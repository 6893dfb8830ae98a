import Lettre.Smtp.Reply
import Lettre.Smtp.Extension

/-!
# `SmtpConnection`

`transport/smtp/client/connection.rs`. A connection is a `BufReader` over the socket, the panic
flag `has_broken` reports, and the `ServerInfo` of the last EHLO. Its methods are programs in
`EStateM Error SmtpConnection`: Rust's `?` is the monad's bind, and `try_smtp!` is `trySmtp`,
which on an error calls `abort` before it returns the error.

* `write` makes one write on the socket (`write_all` then `flush`), and `read_response` reads
  lines into a buffer until `parse_response` reads a reply from it, which it returns when
  positive and turns into `error::code` otherwise.
* `command` writes a command and reads its reply; `abort` marks the connection broken and, the
  first time only, sends QUIT, then shuts the socket down.

Next to the connection the model keeps `trace`, the writes and the replies in the order they
happened. It is not in the source; its writes stay the socket's (`Logged`, in `Steps`), and it is
what the results about whole runs (`send`, `auth`) are stated over.

* `readResponse_reply`: **`read_response` reads exactly one reply.** When the pending bytes are a
  well-formed reply followed by anything, however the reads split them, `read_response` returns
  that reply if positive and its code and lines as an error otherwise, and leaves exactly what
  follows the reply pending. On the way, `parse_response` answers `incomplete` on every proper
  prefix of the reply.
-/

namespace Lettre.Smtp

open Io Nom

/-! ### Commands -/

/-- `MailBodyParameter`. Modelled from the source's uses: `extension.rs` of this version is not
part of the source. -/
inductive MailBodyParameter
  | eightBitMime
  deriving DecidableEq, Repr

/-- `MailParameter`, the two `send` uses. -/
inductive MailParameter
  | body (value : MailBodyParameter)
  | smtpUtfEight
  deriving DecidableEq, Repr

/-- `Display for MailParameter`. Modelled from the spec (§4.3). -/
def MailParameter.display : MailParameter → List UInt8
  | .body .eightBitMime => ascii "BODY=8BITMIME"
  | .smtpUtfEight => ascii "SMTPUTF8"

/-- The commands the connection sends (`commands.rs`). Modelled from the spec (§4.3): that file
is not part of the source. `auth` and `authResponse` carry the bytes the SASL mechanism made,
base64 included. -/
inductive Command
  | ehlo (helloName : Str)
  | mail (sender : Option Str) (parameters : List MailParameter)
  | rcpt (recipient : Str)
  | data
  | quit
  | starttls
  | noop
  | auth (mechanism : List UInt8) (initialResponse : Option (List UInt8))
  | authResponse (response : List UInt8)
  deriving DecidableEq

/-- `Display` of a command, its CRLF included. Modelled from the spec (§4.3). -/
def Command.display : Command → List UInt8
  | .ehlo n => ascii "EHLO " ++ n.bytes ++ [13, 10]
  | .mail s ps =>
    ascii "MAIL FROM:<" ++ ((s.map Str.bytes).getD []) ++ ascii ">" ++
      (ps.map fun p => 32 :: p.display).flatten ++ [13, 10]
  | .rcpt r => ascii "RCPT TO:<" ++ r.bytes ++ ascii ">" ++ [13, 10]
  | .data => ascii "DATA" ++ [13, 10]
  | .quit => ascii "QUIT" ++ [13, 10]
  | .starttls => ascii "STARTTLS" ++ [13, 10]
  | .noop => ascii "NOOP" ++ [13, 10]
  | .auth m i => ascii "AUTH " ++ m ++ ((i.map (32 :: ·)).getD []) ++ [13, 10]
  | .authResponse r => r ++ [13, 10]

/-! ### The connection -/

/-- What a connection did: a write, with the bytes it was given, or a reply `read_response`
parsed. -/
inductive Event
  | wrote (bytes : List UInt8)
  | replied (response : Response)
  deriving DecidableEq

/-- Structure that implements the SMTP client. -/
structure SmtpConnection where
  /-- TCP stream between client and server. -/
  stream : BufReader
  /-- Panic state. -/
  panic : Bool
  /-- Information about the server. -/
  serverInfo : ServerInfo
  /-- What the connection wrote and read, in order. Not in the source. -/
  trace : List Event

namespace SmtpConnection

/-- `write`: `write_all` then `flush`; a failure is `error::network`. -/
def write (bytes : List UInt8) : EStateM Error SmtpConnection Unit := fun c =>
  match c.stream.inner.write bytes with
  | (ok, inner) =>
    let c := { c with stream := { c.stream with inner := inner },
                      trace := c.trace ++ [.wrote bytes] }
    if ok then .ok () c else .error (.network .write) c

/-- `read_line` on the stream; a failure is `error::network`. -/
def readLine : EStateM Error SmtpConnection Str := fun c =>
  match c.stream.readLine with
  | (.ok line, r) => .ok line { c with stream := r }
  | (.error e, r) => .error (.network e) { c with stream := r }

/-- What `read_response` returns once `parse_response` has read a reply: the reply when it is
positive, `error::code` with its code and lines otherwise. -/
def replyOf (response : Response) : EStateM Error SmtpConnection Response := fun c =>
  let c := { c with trace := c.trace ++ [.replied response] }
  if response.isPositive then .ok response c else .error (.code response.code response.message) c

/-- The loop of `read_response`: read a line into the buffer, and parse the buffer. -/
def readResponseLoop : Nat → List UInt8 → EStateM Error SmtpConnection Response
  | 0, _ => throw (.response "incomplete response")
  | fuel + 1, buffer => do
    let line ← readLine
    if line.len = 0 then throw (.response "incomplete response")
    else
      match parseResponse (buffer ++ line.bytes) with
      | .ok _ response => replyOf response
      | .error => throw .parse
      | .incomplete => readResponseLoop fuel (buffer ++ line.bytes)

/-- `read_response`. Every turn of its loop but the last takes at least one pending byte, so the
pending bytes plus one are fuel enough. -/
def readResponse : EStateM Error SmtpConnection Response := fun c =>
  readResponseLoop (c.stream.pending.length + 1) [] c

/-- `command`: write the command, read the reply. -/
def command (cmd : Command) : EStateM Error SmtpConnection Response := do
  write cmd.display
  readResponse

/-- `shutdown(Both)` on the socket; its result is ignored. -/
def shutdown : EStateM Error SmtpConnection Unit := modify fun c =>
  { c with stream := { c.stream with inner := { c.stream.inner with shut := true } } }

/-- `abort`: only try to quit if not already broken; then shut the socket down. -/
def abort : EStateM Error SmtpConnection Unit := do
  if !(← get).panic then
    modify fun c => { c with panic := true }
    tryCatch (discard (command .quit)) fun _ => pure ()
  shutdown

/-- `try_smtp!`: on an error, `abort`, then return the error. A panic is not a `Result` and
passes through. -/
def trySmtp {α : Type} (x : EStateM Error SmtpConnection α) : EStateM Error SmtpConnection α :=
  tryCatch x fun e => if e = .panic then throw e else do abort; throw e

/-- `message`: the body as the codec encodes it, then `\r\n.\r\n`, then the reply. `encode` is
`ClientCodec::encode`, which is not part of the source. -/
def message (encode : List UInt8 → List UInt8) (m : List UInt8) :
    EStateM Error SmtpConnection Response := do
  write (encode m)
  write [13, 10, 46, 13, 10]
  readResponse

/-- `has_broken`. -/
def hasBroken (c : SmtpConnection) : Bool := c.panic

end SmtpConnection

/-! ### Reading a reply -/

namespace SmtpConnection

/-- `read_line` on the connection returns the next line when the pending bytes start with one,
and changes nothing but the reader. -/
theorem readLine_line {c : SmtpConnection} {l w : List UInt8} (hl : (10 : UInt8) ∉ l)
    (hv : Utf8.valid (l ++ [10]) = true) (hall : AllData c.stream.inner.reads)
    (h : c.stream.pending = l ++ 10 :: w) :
    ∃ s : BufReader, readLine c = .ok ⟨l ++ [10], hv⟩ { c with stream := s } ∧ s.pending = w ∧
      AllData s.inner.reads ∧ s.inner = c.stream.inner.setReads s.inner.reads := by
  obtain ⟨buf', reads', h1, h2, h3, -⟩ := Io.readLine_line hl hv hall h
  refine ⟨⟨buf', c.stream.inner.setReads reads'⟩, ?_, by simpa [BufReader.pending] using h2,
    by simpa using h3, by simp⟩
  simp [readLine, BufReader.readLine, h1]

theorem readResponseLoop_reply (r : Reply) (rest : List UInt8) :
    ∀ (fuel : Nat) (buffer u : List UInt8) (c : SmtpConnection), buffer ++ u = r.bytes →
      (∃ p, u = p ++ [10]) → Utf8.valid u = true → u.length < fuel →
      c.stream.pending = u ++ rest → AllData c.stream.inner.reads →
      ∃ s : BufReader, s.pending = rest ∧ AllData s.inner.reads ∧
        s.inner = c.stream.inner.setReads s.inner.reads ∧
        readResponseLoop fuel buffer c = replyOf r.response { c with stream := s }
  | 0, _, _, _, _, _, _, hlen, _, _ => absurd hlen (Nat.not_lt_zero _)
  | fuel + 1, buffer, u, c, hbu, hlast, hvalid, hlen, hp, hall => by
    have hmem : (10 : UInt8) ∈ u := by obtain ⟨p, hp⟩ := hlast; rw [hp]; simp
    obtain ⟨l, u', rfl, hl⟩ := exists_first_lf hmem
    obtain ⟨hvl, hvu'⟩ := Utf8.valid_of_append_ascii (by decide) hvalid
    have hv : Utf8.valid (l ++ [10]) = true := Utf8.valid_append hvl rfl
    obtain ⟨s, hread, hs, hall', hinner⟩ :=
      @readLine_line c l (u' ++ rest) hl hv hall (by rw [hp]; simp)
    have hlen0 : ¬ (⟨l ++ [10], hv⟩ : Str).len = 0 := by simp [Str.len]
    simp only [readResponseLoop, bind, EStateM.bind, hread, hlen0, ↓reduceIte]
    by_cases hu' : u' = []
    · subst hu'
      have hparse : parseResponse (buffer ++ (l ++ [10])) = .ok [] r.response := by
        rw [show buffer ++ (l ++ [10]) = r.bytes ++ [] by simpa using hbu]
        exact parseResponse_reply r []
      exact ⟨s, by simpa using hs, hall', hinner, by simp only [hparse]⟩
    · have hpre : buffer ++ (l ++ [10]) <+: r.bytes := ⟨u', by rw [← hbu]; simp⟩
      have hne : buffer ++ (l ++ [10]) ≠ r.bytes := by
        rw [← hbu]; simpa using hu'
      have hlast' : ∃ p, u' = p ++ [10] := by
        obtain ⟨p, hp'⟩ := hlast
        obtain ⟨L, b, rfl⟩ := (List.eq_nil_or_concat u').resolve_left hu'
        rw [List.concat_eq_append, ← List.cons_append, ← List.append_assoc] at hp'
        obtain ⟨-, hb⟩ := List.append_inj' hp' rfl
        exact ⟨L, by rw [List.concat_eq_append, hb]⟩
      obtain ⟨s', hs', hall'', hinner', hloop⟩ := readResponseLoop_reply r rest fuel
        (buffer ++ (l ++ [10])) u' { c with stream := s } (by rw [← hbu]; simp) hlast' hvu'
        (by simp at hlen; omega) (by simpa using hs) hall'
      refine ⟨s', hs', hall'', by rw [hinner', hinner]; simp, ?_⟩
      simp only [parseResponse_prefix_incomplete r hpre hne]
      exact hloop

/-- **`read_response` reads exactly one reply.** Whatever follows a well-formed reply, and however
the reads split the two, `parse_response` answers `incomplete` on every proper prefix of the
reply, and `read_response` returns the reply when its first digit is 2 or 3 and `error::code`
with its code and lines otherwise, leaving what follows the reply pending and the socket as it
was but for the reads. -/
theorem readResponse_reply (r : Reply) (rest : List UInt8) (c : SmtpConnection)
    (hp : c.stream.pending = r.bytes ++ rest) (hall : AllData c.stream.inner.reads) :
    (∀ q, q <+: r.bytes → q ≠ r.bytes → parseResponse q = .incomplete) ∧
    ∃ s : BufReader, s.pending = rest ∧ s.inner = c.stream.inner.setReads s.inner.reads ∧
      readResponse c =
        let c' := { c with stream := s, trace := c.trace ++ [.replied r.response] }
        if r.response.isPositive then .ok r.response c'
        else .error (.code r.code r.response.message) c' :=
  have ⟨s, hs, _, hinner, h⟩ := readResponseLoop_reply r rest _ [] r.bytes c rfl r.bytes_eq_append
    r.valid_bytes (by simp [hp]; omega) hp hall
  ⟨fun _ hq hne => parseResponse_prefix_incomplete r hq hne, s, hs, hinner, h⟩

theorem readResponse_reply_split :
    let c : SmtpConnection := ⟨⟨[], ⟨false, [.data [50, 53, 48], .data [32, 111, 107, 13, 10, 51]],
      [], true, [], [], false⟩⟩, false, .default, []⟩
    let r : Reply :=
      ⟨⟨.positiveCompletion, .mailSystem, .zero⟩, [], some ⟨[111, 107], rfl⟩, by decide⟩
    (c.stream.pending = r.bytes ++ [51] ∧ AllData c.stream.inner.reads) ∧
    (∀ q, q <+: r.bytes → q ≠ r.bytes → parseResponse q = .incomplete) ∧
    ∃ s : BufReader, s.pending = [51] ∧ s.inner = c.stream.inner.setReads s.inner.reads ∧
      readResponse c =
        let c' := { c with stream := s, trace := c.trace ++ [.replied r.response] }
        if r.response.isPositive then .ok r.response c'
        else .error (.code r.code r.response.message) c' :=
  have hall : AllData [.data [50, 53, 48], .data [32, 111, 107, 13, 10, 51]] := by simp [AllData]
  ⟨⟨rfl, hall⟩, readResponse_reply _ [51] _ rfl hall⟩

end SmtpConnection

end Lettre.Smtp
