import Lettre.Smtp.Steps

/-!
# `connect`, `ehlo` and `starttls`

`connect` reads the greeting and sends EHLO, and `ehlo` replaces the server information with
what the reply announces. `starttls` sends STARTTLS, upgrades the socket to TLS in place with
`self.stream.get_mut().upgrade_tls(..)`, and sends EHLO again. The upgrade is made on the socket
under the `BufReader`: the reader, and the bytes it holds, stay.

* `command_last_read`: a reply that came in the last read, with more bytes after it, leaves
  those bytes in the reader.
* `starttls_reads_plaintext`: **the reply to the EHLO sent over TLS is read from the plaintext
  bytes first.** When the read that carried the reply to STARTTLS carried more bytes, those bytes
  come before the TLS session's in what the reader hands out after the upgrade, so they are taken
  for the EHLO reply, and the server information comes from bytes no TLS session protected.
-/

namespace Lettre.Smtp

open Io

namespace SmtpConnection

/-- `self.stream.get_mut().upgrade_tls(..)?`: the socket under the reader is upgraded, and the
reader's buffer stays. -/
def upgradeTls : EStateM Error SmtpConnection Unit := fun c =>
  match c.stream.inner.upgradeTls with
  | some inner => .ok () { c with stream := { c.stream with inner := inner } }
  | none => .error .tls c

/-- `ehlo`: send EHLO and update server info. -/
def ehlo (helloName : Str) : EStateM Error SmtpConnection Unit := do
  let ehloResponse ← trySmtp (command (.ehlo helloName))
  let serverInfo ← trySmtp (match ServerInfo.fromResponse ehloResponse with
    | .ok serverInfo => pure serverInfo
    | .error e => throw e)
  modify fun c => { c with serverInfo := serverInfo }

/-- `starttls`: STARTTLS, the upgrade, and EHLO again, when the server announced STARTTLS. -/
def starttls (helloName : Str) : EStateM Error SmtpConnection Unit := do
  if (← get).serverInfo.supportsFeature .startTls then
    let _ ← trySmtp (command .starttls)
    upgradeTls
    trySmtp (ehlo helloName)
  else throw (.client "STARTTLS is not supported on this server")

/-- **A reply in the last read leaves the rest of that read in the reader.** When the reply to a
command starts the last read the channel has, with `x` after it, the command returns the reply;
afterwards the reader holds `x` and the channel has no read left. -/
theorem command_last_read (cmd : Command) {c : SmtpConnection} {r : Reply} {x : List UInt8}
    (hbuf : c.stream.buf = []) (hreads : c.stream.inner.reads = [.data (r.bytes ++ x)])
    (hw : ∀ b ∈ c.stream.inner.writes, b = true) (hr : r.response.isPositive = true) :
    ∃ s : BufReader, command cmd c = .ok r.response
        { c with stream := s, trace := c.trace ++ [.wrote cmd.display] ++ [.replied r.response] } ∧
      s.buf = x ∧ s.inner = (c.stream.inner.write cmd.display).2.setReads [] := by
  have hrne : r.bytes ≠ [] := by obtain ⟨p, hp⟩ := r.bytes_eq_append; simp [hp]
  have h₀ : Ready [r] x c := ⟨by simp [BufReader.pending, pending, hbuf, hreads, Recv.bytes],
    by
      simp only [hreads, AllData]
      exact fun _ h => ⟨_, by simp [hrne], List.eq_of_mem_singleton h⟩,
    hw⟩
  let cw : SmtpConnection := { c with
    stream := { c.stream with inner := (c.stream.inner.write cmd.display).2 },
    trace := c.trace ++ [.wrote cmd.display] }
  obtain ⟨s, hread, h₁⟩ := readResponse_ready (h₀.write cmd.display)
  have hans := readResponse_answered cw
  rw [hread] at hans
  simp only [replyOf, hr, ↓reduceIte] at hans
  -- the reader has read on into the one read, so it holds what is left of it
  obtain ⟨k, hk⟩ := hans.2.drop
  simp only [NetworkStream.reads_write, hreads] at hk
  have hp : s.buf ++ (s.inner.reads.map Recv.bytes).flatten = x := by simpa using h₁.pending
  have hnil : s.inner.reads = [] := by
    rcases k with _ | k
    · have := congrArg List.length hp
      simp only [hk, List.drop_zero, List.map_singleton, Recv.bytes, List.flatten_singleton,
        List.length_append] at this
      have := List.length_pos.mpr hrne
      omega
    · simpa using hk
  refine ⟨s, ?_, by simpa [hnil] using hp, by rw [hans.2.inner]; simp [hnil]⟩
  simp only [command, bind, EStateM.bind, write_ready hw, hread, replyOf, hr, ↓reduceIte]

/-- `ehlo` against a server whose next reply is positive and announces a server: the server
information becomes what that reply announces. -/
theorem ehlo_ready {e : Reply} {rs : List Reply} {rest : List UInt8} {c : SmtpConnection}
    (h : Ready (e :: rs) rest c) (he : e.response.isPositive = true) {si : ServerInfo}
    (hsi : ServerInfo.fromResponse e.response = .ok si) (helloName : Str) :
    ∃ c', ehlo helloName c = .ok () c' ∧ c'.serverInfo = si ∧ Ready rs rest c' := by
  obtain ⟨c₁, hx, -, -, -, h₁⟩ :=
    completes_trySmtp (completes_command (.ehlo helloName)) e rs rest c h he
  refine ⟨{ c₁ with serverInfo := si }, ?_, rfl, h₁.1, h₁.2, h₁.3⟩
  simp only [ehlo, bind, EStateM.bind, hx]
  simp only [hsi, trySmtp, tryCatch, MonadExcept.tryCatch, MonadExceptOf.tryCatch, EStateM.tryCatch,
    tryCatchThe]
  rfl

/-- **The reply to the EHLO sent over TLS is read from the plaintext bytes first.** Let the last
plaintext read carry the positive reply to STARTTLS followed by bytes `x`, and let the handshake
succeed. After the upgrade the reader hands out `x` before anything the TLS session delivers, so
the EHLO reply is the first reply of `x` followed by the TLS bytes, and the server information
is what that reply announces. When `x` is itself a reply, the server information comes from the
plaintext, and every TLS byte is still unread after `starttls`. -/
theorem starttls_reads_plaintext (helloName : Str) (c : SmtpConnection) (r : Reply) (x : List UInt8)
    (hfeat : c.serverInfo.supportsFeature .startTls = true) (hbuf : c.stream.buf = [])
    (henc : c.stream.inner.encrypted = false)
    (hplain : c.stream.inner.plain = [.data (r.bytes ++ x)])
    (hhand : c.stream.inner.handshake = true) (htls : AllData c.stream.inner.tls)
    (hw : ∀ b ∈ c.stream.inner.writes, b = true) (hr : r.response.isPositive = true)
    (e : Reply) (rest : List UInt8) (he : e.response.isPositive = true) (si : ServerInfo)
    (hsi : ServerInfo.fromResponse e.response = .ok si)
    (hx : x ++ (c.stream.inner.tls.map Recv.bytes).flatten = e.bytes ++ rest) :
    ∃ c', starttls helloName c = .ok () c' ∧ c'.serverInfo = si ∧ c'.stream.pending = rest := by
  -- STARTTLS: its reply is read from the one plaintext read, and `x` stays in the reader
  have hreads : c.stream.inner.reads = [.data (r.bytes ++ x)] := by
    simp [NetworkStream.reads, henc, hplain]
  obtain ⟨s, hcmd, hsbuf, hsinner⟩ := command_last_read .starttls hbuf hreads hw hr
  -- the upgrade keeps the reader, and the EHLO reads `x`, then the TLS bytes
  let c₁ : SmtpConnection :=
    { c with stream := s,
             trace := c.trace ++ [.wrote Command.starttls.display] ++ [.replied r.response] }
  have hsinner' : s.inner =
      { c.stream.inner with writes := c.stream.inner.writes.tail,
                            sent := c.stream.inner.sent ++ [Command.starttls.display],
                            plain := [] } := by
    simp [hsinner, NetworkStream.setReads, NetworkStream.write, henc]
  let c₂ : SmtpConnection :=
    { c₁ with stream := { s with inner := { s.inner with encrypted := true } } }
  have hup : upgradeTls c₁ = .ok () c₂ := by
    simp [upgradeTls, NetworkStream.upgradeTls, c₁, c₂, hsinner', hhand]
  have h₂ : Ready [e] rest c₂ :=
    ⟨by simp [BufReader.pending, pending, NetworkStream.reads, c₂, hsinner', hsbuf, hx],
      by simpa [NetworkStream.reads, c₂, hsinner'] using htls,
      fun b hb => hw b (List.mem_of_mem_tail (by simpa [c₂, hsinner'] using hb))⟩
  obtain ⟨c₃, hehlo, hsi₃, h₃⟩ := ehlo_ready h₂ he hsi helloName
  refine ⟨c₃, ?_, hsi₃, by simpa using h₃.pending⟩
  simp only [starttls, bind, EStateM.bind, get, getThe, MonadStateOf.get, EStateM.get, hfeat,
    ↓reduceIte, trySmtp_ok hcmd, hup, trySmtp_ok hehlo]

/-- Two runs with the same TLS session, which answers EHLO with `250 good`: in the first the read
that carries `220 go` also carries `250 evil`, and `starttls` ends with the server `evil`; in the
second it does not, and `starttls` ends with the server `good`. -/
theorem starttls_reads_plaintext_evil :
    let helloName : Str := ⟨[99], rfl⟩
    let r220 : Reply := ⟨⟨.positiveCompletion, .connections, .zero⟩, [], some ⟨[103, 111], rfl⟩,
      by decide⟩
    let evil : Reply := ⟨⟨.positiveCompletion, .mailSystem, .zero⟩, [],
      some ⟨[101, 118, 105, 108], rfl⟩, by decide⟩
    let good : Reply := ⟨⟨.positiveCompletion, .mailSystem, .zero⟩, [],
      some ⟨[103, 111, 111, 100], rfl⟩, by decide⟩
    let run (x : List UInt8) : SmtpConnection := ⟨⟨[], ⟨false, [.data (r220.bytes ++ x)],
      [.data good.bytes], true, [], [], false⟩⟩, false, ⟨⟨[104], rfl⟩, [.startTls]⟩, []⟩
    ((run evil.bytes).serverInfo.supportsFeature .startTls = true ∧
      (run evil.bytes).stream.buf = [] ∧
      (run evil.bytes).stream.inner.encrypted = false ∧
      (run evil.bytes).stream.inner.plain = [.data (r220.bytes ++ evil.bytes)] ∧
      (run evil.bytes).stream.inner.handshake = true ∧ AllData (run evil.bytes).stream.inner.tls ∧
      (∀ b ∈ (run evil.bytes).stream.inner.writes, b = true) ∧ r220.response.isPositive = true ∧
      evil.response.isPositive = true ∧
      ServerInfo.fromResponse evil.response = .ok ⟨⟨[101, 118, 105, 108], rfl⟩, []⟩ ∧
      evil.bytes ++ ((run evil.bytes).stream.inner.tls.map Recv.bytes).flatten =
        evil.bytes ++ good.bytes) ∧
    (∃ c', starttls helloName (run evil.bytes) = .ok () c' ∧
      c'.serverInfo = ⟨⟨[101, 118, 105, 108], rfl⟩, []⟩ ∧ c'.stream.pending = good.bytes) ∧
    ((run []).serverInfo.supportsFeature .startTls = true ∧ (run []).stream.buf = [] ∧
      (run []).stream.inner.encrypted = false ∧
      (run []).stream.inner.plain = [.data (r220.bytes ++ [])] ∧
      (run []).stream.inner.handshake = true ∧ AllData (run []).stream.inner.tls ∧
      (∀ b ∈ (run []).stream.inner.writes, b = true) ∧ r220.response.isPositive = true ∧
      good.response.isPositive = true ∧
      ServerInfo.fromResponse good.response = .ok ⟨⟨[103, 111, 111, 100], rfl⟩, []⟩ ∧
      [] ++ ((run []).stream.inner.tls.map Recv.bytes).flatten = good.bytes ++ []) ∧
    (∃ c', starttls helloName (run []) = .ok () c' ∧
      c'.serverInfo = ⟨⟨[103, 111, 111, 100], rfl⟩, []⟩ ∧ c'.stream.pending = []) := by
  intro helloName r220 evil good run
  have htls : AllData [.data good.bytes] := fun _ h =>
    ⟨_, fun h' => by obtain ⟨p, hp⟩ := good.bytes_eq_append; simp [hp] at h',
      List.eq_of_mem_singleton h⟩
  have hw : ∀ (x : List UInt8), ∀ b ∈ (run x).stream.inner.writes, b = true := by simp [run]
  exact ⟨⟨by decide, rfl, rfl, rfl, rfl, htls, hw _, rfl, rfl, rfl, rfl⟩,
    starttls_reads_plaintext helloName _ r220 evil.bytes (by decide) rfl rfl rfl rfl htls (hw _) rfl
      evil good.bytes rfl _ rfl rfl,
    ⟨by decide, rfl, rfl, rfl, rfl, htls, hw _, rfl, rfl, rfl, by simp [Recv.bytes]⟩,
    starttls_reads_plaintext helloName _ r220 [] (by decide) rfl rfl rfl rfl htls (hw _) rfl
      good [] rfl _ rfl (by simp [Recv.bytes])⟩

end SmtpConnection

end Lettre.Smtp
