import Lettre.Transport.Smtp.Client
import Lettre.Smtp.Extension

/-!
# The commands of `Client`

`transport/smtp/client/mod.rs`: every SMTP command of `Client` is `Client::command` of a fixed
text, the command's arguments written in as they are, and `auth` drives a SASL exchange over
`command`. With a mechanism that supports an initial response, `auth` sends it with the `AUTH`
command. Otherwise it sends `AUTH` alone, decodes the first word of the reply as the challenge,
and answers it while the server replies 334, at most three times. The answer is computed once
more on each turn, but always from the first challenge: the replies to the answers are not read
for a new one.

`Mechanism` and base64, from the authentication module and the `base64` crate, are not part of
the source: a mechanism is what `auth` uses of it, and base64 is a pair of parameters. The two
errors only `auth` returns, `Utf8Parsing` and `ChallengeParsing`, are the two more cases of
`AuthError`.

* `auth_sent`: **without an initial response, `auth` writes `AUTH` and then at most three
  lines, all the same.** On every run, whatever the server replies, what `auth` writes is the
  `AUTH` command followed by at most three copies of the base64 of the mechanism's response to
  one challenge.
-/

namespace Lettre.Transport.Smtp

open Io

/-! ### `Response` -/

/-- `Response::has_code`: the digits of the code against the decimal digits of `code`. -/
def Response.hasCode (r : Response) (code : UInt16) : Bool :=
  r.code.code == code.toNat.repr.toList.map Char.toUInt8

/-- `Response::first_word`: the first word of the first line, none without a line. -/
def Response.firstWord (r : Response) : Option Str :=
  match r.message with
  | [] => none
  | line :: _ => (Lettre.Smtp.splitWhitespace line).head?

/-! ### Commands -/

/-- `Client::ehlo`. -/
def Client.ehlo (self : Client) (hostname : List UInt8) : Option (Except Error Response) × Client :=
  self.command (ascii "EHLO " ++ hostname)

/-- `Client::mail`. -/
def Client.mail (self : Client) (address : List UInt8) (options : Option (List UInt8)) :
    Option (Except Error Response) × Client :=
  match options with
  | some options => self.command (ascii "MAIL FROM:<" ++ address ++ ascii "> " ++ options)
  | none => self.command (ascii "MAIL FROM:<" ++ address ++ ascii ">")

/-- `Client::rcpt`. -/
def Client.rcpt (self : Client) (address : List UInt8) : Option (Except Error Response) × Client :=
  self.command (ascii "RCPT TO:<" ++ address ++ ascii ">")

/-- `Client::data`. -/
def Client.data (self : Client) : Option (Except Error Response) × Client :=
  self.command (ascii "DATA")

/-- `Client::quit`. -/
def Client.quit (self : Client) : Option (Except Error Response) × Client :=
  self.command (ascii "QUIT")

/-- `Client::noop`. -/
def Client.noop (self : Client) : Option (Except Error Response) × Client :=
  self.command (ascii "NOOP")

/-- `Client::help`. -/
def Client.help (self : Client) (argument : Option (List UInt8)) :
    Option (Except Error Response) × Client :=
  match argument with
  | some argument => self.command (ascii "HELP " ++ argument)
  | none => self.command (ascii "HELP")

/-- `Client::vrfy`. -/
def Client.vrfy (self : Client) (address : List UInt8) : Option (Except Error Response) × Client :=
  self.command (ascii "VRFY " ++ address)

/-- `Client::expn`. -/
def Client.expn (self : Client) (address : List UInt8) : Option (Except Error Response) × Client :=
  self.command (ascii "EXPN " ++ address)

/-- `Client::rset`. -/
def Client.rset (self : Client) : Option (Except Error Response) × Client :=
  self.command (ascii "RSET")

/-- `Client::starttls`. -/
def Client.starttls (self : Client) : Option (Except Error Response) × Client :=
  self.command (ascii "STARTTLS")

/-- `Client::is_connected`: `noop().is_ok()`; none where `noop` panics. -/
def Client.isConnected (self : Client) : Option Bool × Client :=
  match self.noop with
  | (r, self') => (r.map fun r => r.toBool, self')

/-- A command writes its text and CRLF, in one write, and keeps the stream. -/
theorem Client.command_sent (r : BufReader) (command : List UInt8) :
    ∃ r', (Client.command ⟨some r⟩ command).2 = ⟨some r'⟩ ∧
      r'.inner.sent = r.inner.sent ++ [command ++ crlf] := by
  simp only [Client.command, Client.sendServer]
  generalize hw : r.inner.write (command ++ crlf) = w
  obtain ⟨ok, inner⟩ := w
  have hsent : inner.sent = r.inner.sent ++ [command ++ crlf] := by
    simp only [NetworkStream.write, Prod.mk.injEq] at hw
    rw [← hw.2]
  cases ok <;> simp only
  · exact ⟨_, rfl, hsent⟩
  · have h := sent_getReply ⟨r.buf, inner⟩
    generalize Client.getReply ⟨some ⟨r.buf, inner⟩⟩ = g at h ⊢
    obtain ⟨o, ⟨_ | r'⟩⟩ := g
    · cases h
    · exact ⟨r', rfl, (Option.some.inj h).trans hsent⟩

/-! ### `auth` -/

/-- What `Client::auth` uses of a `Mechanism`: its `Display`, `supports_initial_response`, and
`response`, which answers a challenge, or starts the exchange without one. -/
structure Mechanism where
  display : List UInt8
  supportsInitialResponse : Bool
  response : List UInt8 → List UInt8 → Option Str → Except Error Str

/-- The errors of `auth`: those of `command` and of the mechanism, and the two only it returns. -/
inductive AuthError
  | error (e : Error)
  /-- `Error::Utf8Parsing`: the decoded challenge is not UTF-8. -/
  | utf8Parsing
  /-- `Error::ChallengeParsing`: the challenge is not base64. -/
  | challengeParsing
  deriving DecidableEq

/-- An outcome of `command`, as an outcome of `auth`. -/
def liftAuth (result : Option (Except Error Response)) : Option (Except AuthError Response) :=
  result.map (·.mapError .error)

section Auth

variable (mechanism : Mechanism) (encode : List UInt8 → List UInt8)
  (decode : List UInt8 → Option (List UInt8)) (username password : List UInt8)

/-- The loop of `auth`: while turns are left, answer the challenge and return the reply when its
code is not 334. -/
def Client.authLoop (challenge : Str) : Nat → Client → Option (Except AuthError Response) × Client
  | 0, self => (some (.error (.error (.responseParsing "Unexpected number of challenges"))), self)
  | n + 1, self =>
    match mechanism.response username password (some challenge) with
    | .error e => (some (.error (.error e)), self)
    | .ok answer =>
      match self.command (encode answer.bytes) with
      | (some (.ok response), self') =>
        if !response.hasCode 334 then (some (.ok response), self')
        else Client.authLoop challenge n self'
      | (result, self') => (liftAuth result, self')

/-- `Client::auth`. -/
def Client.auth (self : Client) : Option (Except AuthError Response) × Client :=
  if mechanism.supportsInitialResponse then
    match mechanism.response username password none with
    | .error e => (some (.error (.error e)), self)
    | .ok initial =>
      match self.command (ascii "AUTH " ++ mechanism.display ++ ascii " " ++ encode initial.bytes)
      with
      | (result, self') => (liftAuth result, self')
  else
    match self.command (ascii "AUTH " ++ mechanism.display) with
    | (some (.ok response), self') =>
      match response.firstWord with
      | none => (some (.error (.error (.responseParsing "Could not read auth challenge"))), self')
      | some encodedChallenge =>
        match decode encodedChallenge.bytes with
        | none => (some (.error .challengeParsing), self')
        | some challenge =>
          match fromUtf8 challenge with
          | none => (some (.error .utf8Parsing), self')
          | some decodedChallenge => Client.authLoop mechanism encode username password
              decodedChallenge 3 self'
    | (result, self') => (liftAuth result, self')

/-- Each turn of the loop writes the same answer: the base64 of the response to the challenge, and
CRLF. -/
theorem authLoop_sent (challenge : Str) (answer : List UInt8)
    (hanswer : ∀ t, mechanism.response username password (some challenge) = .ok t →
      answer = encode t.bytes ++ crlf) :
    ∀ (n : Nat) (r : BufReader), ∃ k ≤ n, ∃ r',
      (Client.authLoop mechanism encode username password challenge n ⟨some r⟩).2 = ⟨some r'⟩ ∧
        r'.inner.sent = r.inner.sent ++ List.replicate k answer
  | 0, r => ⟨0, le_refl 0, r, rfl, by simp⟩
  | n + 1, r => by
    rw [Client.authLoop]
    cases ht : mechanism.response username password (some challenge) with
    | error e => exact ⟨0, Nat.zero_le _, r, rfl, by simp⟩
    | ok t =>
      obtain ⟨r', hc, hs⟩ := Client.command_sent r (encode t.bytes)
      have hs' : r'.inner.sent = r.inner.sent ++ [answer] := by rw [hs, hanswer t ht]
      simp only
      generalize hcmd : Client.command ⟨some r⟩ (encode t.bytes) = cmd at hc
      obtain ⟨result, self'⟩ := cmd
      cases hc
      rcases result with _ | _ | response
      · exact ⟨1, by omega, r', rfl, hs'⟩
      · exact ⟨1, by omega, r', rfl, hs'⟩
      · simp only
        split
        · exact ⟨1, by omega, r', rfl, hs'⟩
        · obtain ⟨k, hk, r'', hl, hs''⟩ := authLoop_sent challenge answer hanswer n r'
          refine ⟨k + 1, by omega, r'', hl, ?_⟩
          rw [hs'', hs', List.append_assoc, List.singleton_append, List.replicate_succ]

/-- **Without an initial response, `auth` writes `AUTH` and at most three answers, all the
same.** On every run of `auth` with a mechanism that does not support an initial response,
whatever the server replies, `auth` keeps the stream and writes the command `AUTH` with the
mechanism's name, then `k ≤ 3` copies of one line: the base64 of the mechanism's response to a
challenge, and CRLF. -/
theorem auth_sent (hir : mechanism.supportsInitialResponse = false) (r : BufReader) :
    ∃ k ≤ 3, ∃ answer r',
      (Client.auth mechanism encode decode username password ⟨some r⟩).2 = ⟨some r'⟩ ∧
      r'.inner.sent =
        r.inner.sent ++ (ascii "AUTH " ++ mechanism.display ++ crlf) :: List.replicate k answer ∧
      (0 < k → ∃ challenge t, mechanism.response username password (some challenge) = .ok t ∧
        answer = encode t.bytes ++ crlf) := by
  obtain ⟨r', hc, hs⟩ := Client.command_sent r (ascii "AUTH " ++ mechanism.display)
  have hnone : ∀ r'' : BufReader, r''.inner.sent = r'.inner.sent → ∃ k ≤ 3, ∃ answer r₀,
      (⟨some r''⟩ : Client) = ⟨some r₀⟩ ∧
      r₀.inner.sent =
        r.inner.sent ++ (ascii "AUTH " ++ mechanism.display ++ crlf) :: List.replicate k answer ∧
      (0 < k → ∃ challenge t, mechanism.response username password (some challenge) = .ok t ∧
        answer = encode t.bytes ++ crlf) :=
    fun r'' h => ⟨0, by omega, [], r'', rfl, by simp [h, hs], fun h => absurd h (lt_irrefl 0)⟩
  rw [Client.auth, if_neg (by simp [hir])]
  generalize hcmd : Client.command ⟨some r⟩ (ascii "AUTH " ++ mechanism.display) = cmd at hc
  obtain ⟨result, self'⟩ := cmd
  cases hc
  rcases result with _ | _ | response
  · exact hnone r' rfl
  · exact hnone r' rfl
  · simp only
    split
    · exact hnone r' rfl
    · split
      · exact hnone r' rfl
      · split
        · exact hnone r' rfl
        · next challenge _ decoded _ =>
          cases hresp : mechanism.response username password (some decoded) with
          | error e =>
            exact ⟨0, by omega, [], r', by simp [Client.authLoop, hresp], by simp [hs],
              fun h => absurd h (lt_irrefl 0)⟩
          | ok t =>
            obtain ⟨k, hk, r'', hl, hs''⟩ := authLoop_sent mechanism encode username password
              decoded (encode t.bytes ++ crlf) (fun t' h => by rw [hresp] at h; cases h; rfl) 3 r'
            refine ⟨k, hk, _, r'', hl, by rw [hs'', hs, List.append_assoc]; rfl,
              fun _ => ⟨decoded, t, hresp, rfl⟩⟩

end Auth

/-- A mechanism without an initial response, against any reader. -/
theorem auth_sent_login :
    let login : Mechanism := ⟨ascii "LOGIN", false, fun _ _ _ => .ok ⟨[117], rfl⟩⟩
    let r : BufReader := ⟨[], ⟨false, [], [], true, [], [], false⟩⟩
    login.supportsInitialResponse = false ∧ ∃ k ≤ 3, ∃ answer r',
      (Client.auth login id some [] [] ⟨some r⟩).2 = ⟨some r'⟩ ∧
      r'.inner.sent = r.inner.sent ++ (ascii "AUTH " ++ login.display ++ crlf) ::
        List.replicate k answer ∧
      (0 < k → ∃ challenge t, login.response [] [] (some challenge) = .ok t ∧
        answer = id t.bytes ++ crlf) := by
  intro login r
  exact ⟨rfl, auth_sent login id some [] [] rfl r⟩

/-- `LOGIN` answers `User` with the user name `u` and anything else with the password `p`. The
server asks for `User`, then for `Pass`: `auth` answers `u` twice. -/
example :
    let login : Mechanism := ⟨ascii "LOGIN", false, fun _ _ challenge =>
      if challenge.map Str.bytes = some (ascii "User") then .ok ⟨[117], rfl⟩
      else .ok ⟨[112], rfl⟩⟩
    let r : BufReader := ⟨ascii "334 User\r\n334 Pass\r\n235 ok\r\n",
      ⟨false, [], [], true, [], [], false⟩⟩
    ((Client.auth login id some [] [] ⟨some r⟩).2.stream.map fun r => r.inner.sent) =
      some [ascii "AUTH LOGIN\r\n", ascii "u\r\n", ascii "u\r\n"] := by
  decide

end Lettre.Transport.Smtp
