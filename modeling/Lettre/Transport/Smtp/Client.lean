import Lettre.Transport.Smtp.DotStuffing
import Lettre.Transport.Smtp.Response
import Lettre.Smtp.Reply

/-!
# `Client`

`transport/smtp/client/mod.rs`: the client writes a command or a message followed by its ending
in one write (`send_server`), then reads the reply with `get_reply`: it reads one line, and feeds
it, CRLF removed by `remove_crlf`, to a fresh `ResponseParser` for as long as the parser answers
that more lines follow, reading the next line each time.

A client's outcome is `Option (Except Error _)`, none for a panic. The loop of `get_reply` runs on
fuel, the pending bytes plus two: every turn takes a line, and a turn on an empty line, the end
of the stream, ends the loop, since `read_line` rejects a line shorter than a code.

* `getReply_empty_continuation`: **the hand-written parser does not agree with `parse_response`
  on a continuation line with no text.** On the reply `250-` CRLF `250 ok` CRLF, `parse_response`
  reads two lines, the empty text and `ok`, while `read_line` takes `250-` for the last line:
  `get_reply` returns the reply 250 with no text and leaves `250 ok` CRLF unread, where the next
  command will take it for its own reply.
* `getReply_eq_none`: `get_reply` panics with `read_line`, which slices at fixed byte offsets
  (`readLine_panics`), so a reply line with a multi-byte character across byte 3 or 4 crashes
  the client.
-/

namespace Lettre.Transport.Smtp

open Io

/-- `CRLF`. Modelled from the spec: the constant lives in `transport/smtp/mod.rs`, which is not
part of the source. -/
def crlf : List UInt8 := [13, 10]

/-- `remove_crlf`: every CRLF removed. -/
def removeCrlf (string : Str) : Str :=
  ⟨replace string.bytes crlf [],
    Utf8.valid_replace (by simp [crlf]) (by decide) (show Utf8.valid [] = true from rfl) _
      string.valid⟩

/-- Structure that implements the SMTP client: the stream, none before a connection. -/
structure Client where
  stream : Option BufReader
  deriving DecidableEq

/-- The loop of `get_reply`: feed `line` to the parser; while it answers that more lines follow,
read the next line. Returns the parser when it answers that the reply is over. -/
def getReplyLoop : Nat → ResponseParser → Str → BufReader →
    Option (Except Error ResponseParser) × BufReader
  | 0, _, _, r =>
    (some (.error (.responseParsing "Incomplete response, could not read response code")), r)
  | fuel + 1, parser, line, r =>
    match parser.readLine (removeCrlf line) with
    | none => (none, r)
    | some (.error e) => (some (.error e), r)
    | some (.ok (false, parser')) => (some (.ok parser'), r)
    | some (.ok (true, parser')) =>
      match r.readLine with
      | (.error e, r') => (some (.error (.io e)), r')
      | (.ok line', r') => getReplyLoop fuel parser' line' r'

/-- `Client::get_reply`: read a line, feed lines to a fresh parser, and return its response when
positive, and an error made of it otherwise. -/
def Client.getReply (self : Client) : Option (Except Error Response) × Client :=
  match self.stream with
  | none => (none, self)
  | some r =>
    match r.readLine with
    | (.error e, r') => (some (.error (.io e)), ⟨some r'⟩)
    | (.ok line, r') =>
      match getReplyLoop (r'.pending.length + 2) ResponseParser.default line r' with
      | (none, r'') => (none, ⟨some r''⟩)
      | (some (.error e), r'') => (some (.error e), ⟨some r''⟩)
      | (some (.ok parser), r'') =>
        (some (match parser.response with
          | .error e => .error e
          | .ok response => if response.isPositive then .ok response else .error (.reply response)),
          ⟨some r''⟩)

/-- `Client::send_server`: one write of the string and its ending, then the reply. -/
def Client.sendServer (self : Client) (string ending : List UInt8) :
    Option (Except Error Response) × Client :=
  match self.stream with
  | none => (some (.error (.client "Connection closed")), self)
  | some r =>
    match r.inner.write (string ++ ending) with
    | (false, inner) => (some (.error (.io .write)), ⟨some ⟨r.buf, inner⟩⟩)
    | (true, inner) => Client.getReply ⟨some ⟨r.buf, inner⟩⟩

/-- `Client::command`: the command followed by CRLF. -/
def Client.command (self : Client) (command : List UInt8) :
    Option (Except Error Response) × Client :=
  self.sendServer command crlf

/-- `Client::message`: the message with its dots stuffed, followed by `MESSAGE_ENDING`. -/
def Client.message (self : Client) (messageContent : List UInt8) :
    Option (Except Error Response) × Client :=
  self.sendServer (escapeDot messageContent) messageEnding

theorem sent_getReplyLoop : ∀ (fuel : Nat) (parser : ResponseParser) (line : Str) (r : BufReader),
    (getReplyLoop fuel parser line r).2.inner.sent = r.inner.sent
  | 0, _, _, _ => rfl
  | fuel + 1, parser, line, r => by
    simp only [getReplyLoop]
    split
    · rfl
    · rfl
    · rfl
    · split
      · next h => simp [← BufReader.sent_readLine r, h]
      · next line' r' h => rw [sent_getReplyLoop, ← BufReader.sent_readLine r, h]

/-- `get_reply` only reads. -/
theorem sent_getReply (r : BufReader) :
    ((Client.getReply ⟨some r⟩).2.stream.map fun r => r.inner.sent) = some r.inner.sent := by
  simp only [Client.getReply]
  split
  · next e r' h => simp [← BufReader.sent_readLine r, h]
  · next line r' h =>
    have hs : r'.inner.sent = r.inner.sent := by rw [← BufReader.sent_readLine r, h]
    have hl := sent_getReplyLoop (r'.pending.length + 2) ResponseParser.default line r'
    generalize getReplyLoop (r'.pending.length + 2) ResponseParser.default line r' = g at hl ⊢
    obtain ⟨o, r''⟩ := g
    cases o with
    | none => simpa using hl.trans hs
    | some e => cases e <;> simpa using hl.trans hs

/-- What `Client::message` writes: `escape_dot` of the message, then the terminator. -/
theorem sent_message (r : BufReader) (m : List UInt8) :
    ((Client.message ⟨some r⟩ m).2.stream.map fun r => r.inner.sent) =
      some (r.inner.sent ++ [escapeDot m ++ messageEnding]) := by
  simp only [Client.message, Client.sendServer]
  generalize hw : r.inner.write (escapeDot m ++ messageEnding) = w
  obtain ⟨ok, inner⟩ := w
  have hsent : inner.sent = r.inner.sent ++ [escapeDot m ++ messageEnding] := by
    simp only [NetworkStream.write, Prod.mk.injEq] at hw
    rw [← hw.2]
  cases ok
  · simp [hsent]
  · rw [sent_getReply]
    simp [hsent]

/-! ### A continuation line with no text -/

/-- **The two parsers part on `250-`.** `parse_response` reads `250-` CRLF `250 ok` CRLF as the
reply 250 with the lines `""` and `ok`. `read_line` answers that `250-` ends the reply, so
`get_reply` returns 250 with no line, leaves `250 ok` CRLF unread, and the next `get_reply`
returns that line as its own reply. -/
theorem getReply_empty_continuation :
    Lettre.Smtp.parseResponse [50, 53, 48, 45, 13, 10, 50, 53, 48, 32, 111, 107, 13, 10] =
      .ok [] ⟨⟨.positiveCompletion, .mailSystem, .zero⟩, [⟨[], rfl⟩, ⟨[111, 107], rfl⟩]⟩ ∧
    ResponseParser.default.readLine ⟨[50, 53, 48, 45], rfl⟩ =
      some (.ok (false, ⟨some ⟨.positiveCompletion, .mailSystem, 0⟩, []⟩)) ∧
    Client.getReply ⟨some ⟨[50, 53, 48, 45, 13, 10, 50, 53, 48, 32, 111, 107, 13, 10],
        ⟨false, [], [], true, [], [], false⟩⟩⟩ =
      (some (.ok ⟨⟨.positiveCompletion, .mailSystem, 0⟩, []⟩),
        ⟨some ⟨[50, 53, 48, 32, 111, 107, 13, 10], ⟨false, [], [], true, [], [], false⟩⟩⟩) ∧
    (Client.getReply ⟨some ⟨[50, 53, 48, 32, 111, 107, 13, 10],
        ⟨false, [], [], true, [], [], false⟩⟩⟩).1 =
      some (.ok ⟨⟨.positiveCompletion, .mailSystem, 0⟩, [⟨[111, 107], rfl⟩]⟩) :=
  ⟨rfl, rfl, rfl, rfl⟩

/-! ### A line that `read_line` cannot take -/

/-- `get_reply` panics when `read_line` panics on the first line. -/
theorem getReply_eq_none {r r' : BufReader} {line : Str} (h : r.readLine = (.ok line, r'))
    (hp : ResponseParser.default.readLine (removeCrlf line) = none) :
    (Client.getReply ⟨some r⟩).1 = none := by
  simp [Client.getReply, h, getReplyLoop, hp]

/-- A server that answers `12é` crashes the client. -/
example : (Client.getReply ⟨some ⟨[49, 50, 195, 169, 13, 10],
    ⟨false, [], [], true, [], [], false⟩⟩⟩).1 = none := rfl

end Lettre.Transport.Smtp
