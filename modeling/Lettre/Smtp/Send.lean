import Lettre.Smtp.Steps

/-!
# `SmtpConnection::send`

`send` checks the envelope and the message against the features the server announced, then
writes MAIL, one RCPT per recipient, DATA, and the message, each inside `try_smtp!`, and reads
the reply after each. The elements of this transaction, each a list of writes, are
`transaction`; a run of it is described by `Run`, from the events of the trace: every element
written after a positive reply to the one before, and either all of them answered positively,
or the run stopped in one element, after which the connection is broken and shut down and only
`abort`'s QUIT, with maybe its reply, follows.

* `send_transaction`: **what `send` writes and reads.** A refused envelope or message changes
  nothing and returns a client error; otherwise MAIL carries SMTPUTF8 and BODY=8BITMIME exactly
  when they are needed, every run of `send` is a `Run` of the transaction, `send` returns the
  last reply it read, and the trace's writes are the socket's.
* `send_positive_replies`: against a server that answers every element with a well-formed
  positive reply, 2yz or 3yz, `send` writes the whole transaction; in particular it writes the
  body after a 250 reply to DATA.
-/

namespace Lettre.Smtp

open Io

/-! ### The envelope -/

/-- Simple email envelope representation: the recipients, which can not be empty, and the sender.
An `Address` is a text. -/
structure Envelope where
  /-- The envelope recipients' addresses. -/
  forwardPath : List Str
  /-- The envelope sender address. -/
  reversePath : Option Str
  forwardPath_ne_nil : forwardPath ≠ []

/-- `Envelope::has_non_ascii_addresses`. Modelled from the spec: an envelope is UTF-8 when one of
its addresses holds a byte of 0x80 or more. -/
def Envelope.hasNonAsciiAddresses (e : Envelope) : Bool :=
  (e.reversePath.toList ++ e.forwardPath).any fun a => !isAscii a.bytes

/-! ### `send` -/

namespace SmtpConnection

/-- The checks `send` makes before MAIL, and the MAIL parameters they choose: SMTPUTF8 for an
envelope with a non-ASCII address, then BODY=8BITMIME for a non-ASCII message, each refused with
`error::client` when the server did not announce the feature. -/
def mailOptions (serverInfo : ServerInfo) (envelope : Envelope) (email : List UInt8) :
    Except Error (List MailParameter) :=
  if envelope.hasNonAsciiAddresses ∧ !serverInfo.supportsFeature .smtpUtfEight then
    .error (.client "Envelope contains non-ascii chars but server does not support SMTPUTF8")
  else if !isAscii email ∧ !serverInfo.supportsFeature .eightBitMime then
    .error (.client "Message contains non-ascii chars but server does not support 8BITMIME")
  else
    .ok ((if envelope.hasNonAsciiAddresses then [.smtpUtfEight] else []) ++
      (if !isAscii email then [.body .eightBitMime] else []))

/-- The loop of `send` over the recipients: RCPT for each, inside `try_smtp!`. -/
def rcptLoop : List Str → EStateM Error SmtpConnection Unit
  | [] => pure ()
  | toAddress :: rest => do
    let _ ← trySmtp (command (.rcpt toAddress))
    rcptLoop rest

/-- `send`: the checks, MAIL, RCPT for each recipient, DATA, then the message; the result is the
reply to the message. -/
def send (encode : List UInt8 → List UInt8) (envelope : Envelope) (email : List UInt8) :
    EStateM Error SmtpConnection Response := do
  match mailOptions (← get).serverInfo envelope email with
  | .error e => throw e
  | .ok options =>
    let _ ← trySmtp (command (.mail envelope.reversePath options))
    rcptLoop envelope.forwardPath
    let _ ← trySmtp (command .data)
    trySmtp (message encode email)

/-! ### Runs of a transaction -/

/-- The writes of the transaction, element by element: MAIL, one RCPT per recipient in the
envelope's order, DATA, then the encoded body and the end of data. -/
def transaction (encode : List UInt8 → List UInt8) (envelope : Envelope) (email : List UInt8)
    (options : List MailParameter) : List (List (List UInt8)) :=
  [(Command.mail envelope.reversePath options).display] ::
    (envelope.forwardPath.map fun r => [(Command.rcpt r).display]) ++
    [[Command.data.display], [encode email, [13, 10, 46, 13, 10]]]

/-- What a run of the transaction `es` from `c` can be. Either every element was written, each
after a positive reply to the one before, its own reply was positive too, and the panic flag is
unchanged; or the run stopped in one element, after positive replies to all elements before it,
and then the connection is broken and shut down, and only `abort`'s QUIT, with maybe its reply,
follows the stopped element. -/
def Run {α : Type} (es : List (List (List UInt8))) (c : SmtpConnection) :
    EStateM.Result Error SmtpConnection α → Prop
  | .ok _ c' => ∃ Rs : List Response, Rs.length = es.length ∧ (∀ R ∈ Rs, R.isPositive = true) ∧
      c'.panic = c.panic ∧ c'.trace = c.trace ++ dialogue es Rs
  | .error _ c' => c'.panic = true ∧ c'.stream.inner.shut = true ∧
      ∃ pre e post, es = pre ++ e :: post ∧ ∃ Rs : List Response, Rs.length = pre.length ∧
        (∀ R ∈ Rs, R.isPositive = true) ∧
        ∃ t q, Stopped e t ∧ Quit c.panic q ∧ c'.trace = c.trace ++ dialogue pre Rs ++ t ++ q

theorem run_pure {α : Type} (a : α) (c : SmtpConnection) :
    Run [] c ((pure a : EStateM Error SmtpConnection α) c) :=
  ⟨[], rfl, by simp, rfl, by simp [dialogue]⟩

theorem run_element {e : List (List UInt8)} {c : SmtpConnection}
    {r : EStateM.Result Error SmtpConnection Response} (h : Element e c r) : Run [e] c r := by
  match r, h with
  | .ok R _, ⟨hR, hp, ht⟩ => exact ⟨[R], rfl, by simpa using hR, hp, by simp [dialogue, ht]⟩
  | .error _ _, ⟨hp, hs, t, q, hst, hq, ht⟩ =>
    exact ⟨hp, hs, [], e, [], rfl, [], rfl, by simp, t, q, hst, hq, by simpa [dialogue] using ht⟩

theorem run_bind {α β : Type} {es₁ es₂ : List (List (List UInt8))}
    {x : EStateM Error SmtpConnection α} {f : α → EStateM Error SmtpConnection β}
    {c : SmtpConnection} (hx : Run es₁ c (x c))
    (hf : ∀ a c₁, x c = .ok a c₁ → Run es₂ c₁ (f a c₁)) : Run (es₁ ++ es₂) c ((x >>= f) c) := by
  simp only [bind, EStateM.bind]
  generalize hxc : x c = r at hx hf ⊢
  match r, hx with
  | .ok a c₁, ⟨Rs₁, hl₁, hR₁, hp₁, ht₁⟩ =>
    have hf₁ := hf a c₁ rfl
    show Run _ c (f a c₁)
    generalize f a c₁ = r₂ at hf₁ ⊢
    match r₂, hf₁ with
    | .ok _ _, ⟨Rs₂, hl₂, hR₂, hp₂, ht₂⟩ =>
      refine ⟨Rs₁ ++ Rs₂, by simp [hl₁, hl₂], ?_, hp₂.trans hp₁, ?_⟩
      · intro R hR
        rcases List.mem_append.mp hR with hR | hR
        exacts [hR₁ R hR, hR₂ R hR]
      · rw [ht₂, ht₁, dialogue_append _ _ _ _ hl₁, List.append_assoc]
    | .error _ _, ⟨hp, hs, pre, e, post, hes, Rs₂, hl₂, hR₂, t, q, hst, hq, ht₂⟩ =>
      refine ⟨hp, hs, es₁ ++ pre, e, post, by simp [hes], Rs₁ ++ Rs₂, by simp [hl₁, hl₂], ?_, t, q,
        hst, hp₁ ▸ hq, ?_⟩
      · intro R hR
        rcases List.mem_append.mp hR with hR | hR
        exacts [hR₁ R hR, hR₂ R hR]
      · rw [ht₂, ht₁, dialogue_append _ _ _ _ hl₁]
        simp only [List.append_assoc]
  | .error _ _, ⟨hp, hs, pre, e, post, hes, Rs, hl, hR, t, q, hst, hq, ht⟩ =>
    exact ⟨hp, hs, pre, e, post ++ es₂, by simp [hes], Rs, hl, hR, t, q, hst, hq, ht⟩

theorem run_rcptLoop : ∀ (rs : List Str) (c : SmtpConnection),
    Run (rs.map fun r => [(Command.rcpt r).display]) c (rcptLoop rs c)
  | [], c => run_pure () c
  | _ :: rs, c =>
    run_bind (run_element (trySmtp_element (command_exchanged _) c))
      fun _ c₁ _ => run_rcptLoop rs c₁

/-! ### What `send` does -/

theorem bind_eq_ok {α β : Type} {x : EStateM Error SmtpConnection α}
    {f : α → EStateM Error SmtpConnection β} {c c' : SmtpConnection} {b : β}
    (h : (x >>= f) c = .ok b c') : ∃ a c₁, x c = .ok a c₁ ∧ f a c₁ = .ok b c' := by
  simp only [bind, EStateM.bind] at h
  split at h
  · exact ⟨_, _, ‹_›, h⟩
  · cases h

/-- The reply a run returns is the last event of its trace, when its last step is `try_smtp!`
around an exchange. -/
theorem getLast_trace_of_element {α : Type} {x : EStateM Error SmtpConnection α}
    {y : EStateM Error SmtpConnection Response} {ws : List (List UInt8)}
    (hy : ∀ c, Element ws c (y c)) {c c' : SmtpConnection} {R : Response}
    (h : (x >>= fun _ => y) c = .ok R c') :
    c'.trace.getLast? = some (.replied R) := by
  obtain ⟨_, c₁, -, h⟩ := bind_eq_ok h
  have hy₁ := hy c₁
  rw [h] at hy₁
  simp [hy₁.2.2]

theorem mailOptions_ok {serverInfo : ServerInfo} {envelope : Envelope} {email : List UInt8}
    {options : List MailParameter} (h : mailOptions serverInfo envelope email = .ok options) :
    (MailParameter.smtpUtfEight ∈ options ↔ envelope.hasNonAsciiAddresses = true) ∧
      (MailParameter.body .eightBitMime ∈ options ↔ isAscii email = false) := by
  unfold mailOptions at h
  split at h
  · cases h
  · split at h
    · cases h
    · cases h
      constructor <;> cases envelope.hasNonAsciiAddresses <;> cases isAscii email <;> simp

theorem mailOptions_error {serverInfo : ServerInfo} {envelope : Envelope} {email : List UInt8}
    {e : Error} (h : mailOptions serverInfo envelope email = .error e) :
    ∃ msg, e = .client msg := by
  unfold mailOptions at h
  split_ifs at h <;> cases h
  exacts [⟨_, rfl⟩, ⟨_, rfl⟩]

theorem logged_rcptLoop : ∀ rs : List Str, Logged (rcptLoop rs)
  | [] => logged_pure ()
  | _ :: rs => logged_bind (logged_trySmtp (logged_command _)) fun _ => logged_rcptLoop rs

theorem send_eq_error {encode : List UInt8 → List UInt8} {envelope : Envelope} {email : List UInt8}
    {c : SmtpConnection} {e : Error} (h : mailOptions c.serverInfo envelope email = .error e) :
    send encode envelope email c = .error e c := by
  simp only [send, bind, EStateM.bind, get, getThe, MonadStateOf.get, EStateM.get, h]
  rfl

theorem send_eq_ok {encode : List UInt8 → List UInt8} {envelope : Envelope} {email : List UInt8}
    {c : SmtpConnection} {options : List MailParameter}
    (h : mailOptions c.serverInfo envelope email = .ok options) :
    send encode envelope email c =
      (do
        let _ ← trySmtp (command (.mail envelope.reversePath options))
        rcptLoop envelope.forwardPath
        let _ ← trySmtp (command .data)
        trySmtp (message encode email)) c := by
  simp only [send, bind, EStateM.bind, get, getThe, MonadStateOf.get, EStateM.get, h]

/-- **What `send` writes and reads.** When the envelope holds a non-ASCII address and the server
did not announce SMTPUTF8, or the message is not ASCII and the server did not announce 8BITMIME,
`send` returns a client error and changes nothing. Otherwise MAIL carries SMTPUTF8 exactly when an
address is not ASCII, and BODY=8BITMIME exactly when the message is not; every run of `send` is a
`Run` of the transaction MAIL, RCPT for each recipient in order, DATA, and the message, each
written after a positive reply to the one before; a success returns the last reply read; and
the trace's writes stay the socket's. -/
theorem send_transaction (encode : List UInt8 → List UInt8) (envelope : Envelope)
    (email : List UInt8) :
    Logged (send encode envelope email) ∧ ∀ c : SmtpConnection,
      match mailOptions c.serverInfo envelope email with
      | .error e => (∃ msg, e = .client msg) ∧ send encode envelope email c = .error e c
      | .ok options =>
        (MailParameter.smtpUtfEight ∈ options ↔ envelope.hasNonAsciiAddresses = true) ∧
        (MailParameter.body .eightBitMime ∈ options ↔ isAscii email = false) ∧
        Run (transaction encode envelope email options) c (send encode envelope email c) ∧
        ∀ R c', send encode envelope email c = .ok R c' →
          c'.trace.getLast? = some (.replied R) := by
  refine ⟨?_, fun c => ?_⟩
  · refine logged_bind (fun _ hc => hc) fun s => ?_
    split
    · exact logged_throw _
    · exact logged_bind (logged_trySmtp (logged_command _)) fun _ => logged_bind (logged_rcptLoop _)
        fun _ => logged_bind (logged_trySmtp (logged_command _)) fun _ =>
          logged_trySmtp (logged_message _ _)
  · split
    · next e h => exact ⟨mailOptions_error h, send_eq_error h⟩
    · next options h =>
      refine ⟨(mailOptions_ok h).1, (mailOptions_ok h).2, ?_, fun R c' hs => ?_⟩
      · have hes : transaction encode envelope email options = [_] ++ (_ ++ ([_] ++ [_])) := rfl
        rw [send_eq_ok h, hes]
        exact run_bind (run_element (trySmtp_element (command_exchanged _) c)) fun _ c₁ _ =>
          run_bind (run_rcptLoop envelope.forwardPath c₁) fun _ c₂ _ =>
            run_bind (run_element (trySmtp_element (command_exchanged .data) c₂)) fun _ c₃ _ =>
              run_element (trySmtp_element (message_exchanged encode email) c₃)
      · rw [send_eq_ok h] at hs
        obtain ⟨_, c₁, -, hs⟩ := bind_eq_ok hs
        obtain ⟨_, c₂, -, hs⟩ := bind_eq_ok hs
        exact getLast_trace_of_element (trySmtp_element (message_exchanged encode email)) hs

/-! ### Against a server that answers every element positively -/

/-- `x` runs, against a server whose next replies `rs` are positive, one for each element of `es`,
the dialogue of `es` and `rs`, and leaves the replies after them pending. -/
def CompletesAll {α : Type} (es : List (List (List UInt8))) (x : EStateM Error SmtpConnection α) :
    Prop :=
  ∀ (rs rs' : List Reply) (rest : List UInt8) (c : SmtpConnection), rs.length = es.length →
    (∀ r ∈ rs, r.response.isPositive = true) → Ready (rs ++ rs') rest c →
    ∃ a c', x c = .ok a c' ∧ c'.trace = c.trace ++ dialogue es (rs.map Reply.response) ∧
      Ready rs' rest c'

theorem completesAll_pure {α : Type} (a : α) :
    CompletesAll [] (pure a : EStateM Error SmtpConnection α) := by
  intro rs rs' rest c hl _ h
  obtain rfl : rs = [] := List.length_eq_zero.mp hl
  exact ⟨a, c, rfl, by simp [dialogue], by simpa using h⟩

theorem completesAll_element {ws : List (List UInt8)} {x : EStateM Error SmtpConnection Response}
    (hx : Completes ws x) : CompletesAll [ws] x := by
  intro rs rs' rest c hl hpos h
  obtain ⟨r, rfl⟩ := List.length_eq_one.mp hl
  obtain ⟨c', hx', -, -, ht, hready⟩ := hx r rs' rest c h (hpos r (by simp))
  exact ⟨_, c', hx', by simp [dialogue, ht], hready⟩

theorem completesAll_bind {α β : Type} {es₁ es₂ : List (List (List UInt8))}
    {x : EStateM Error SmtpConnection α} {f : α → EStateM Error SmtpConnection β}
    (hx : CompletesAll es₁ x) (hf : ∀ a, CompletesAll es₂ (f a)) :
    CompletesAll (es₁ ++ es₂) (x >>= f) := by
  intro rs rs' rest c hl hpos h
  have hl₁ : (rs.take es₁.length).length = es₁.length := by simp at hl; simp; omega
  obtain ⟨a, c₁, hx', ht₁, h₁⟩ := hx (rs.take es₁.length) (rs.drop es₁.length ++ rs') rest c hl₁
    (fun r hr => hpos r (List.mem_of_mem_take hr))
    (by rwa [← List.append_assoc, List.take_append_drop])
  obtain ⟨b, c₂, hf', ht₂, h₂⟩ := hf a (rs.drop es₁.length) rs' rest c₁ (by simp at hl ⊢; omega)
    (fun r hr => hpos r (List.mem_of_mem_drop hr)) h₁
  refine ⟨b, c₂, by simp only [bind, EStateM.bind, hx', hf'], ?_, h₂⟩
  rw [ht₂, ht₁, List.append_assoc, ← dialogue_append _ _ _ _ (by simpa using hl₁),
    ← List.map_append, List.take_append_drop]

theorem completesAll_rcptLoop : ∀ rs : List Str,
    CompletesAll (rs.map fun r => [(Command.rcpt r).display]) (rcptLoop rs)
  | [] => completesAll_pure ()
  | r :: rs =>
    completesAll_bind (completesAll_element (completes_trySmtp (completes_command (.rcpt r))))
      fun _ => completesAll_rcptLoop rs

/-- Against replies that are well formed and positive, each exchange of the transaction completes,
and the next is written after it. -/
theorem send_completesAll (encode : List UInt8 → List UInt8) (envelope : Envelope)
    (email : List UInt8) (c : SmtpConnection) (options : List MailParameter)
    (hopt : mailOptions c.serverInfo envelope email = .ok options) (rs : List Reply)
    (rest : List UInt8) (hlen : rs.length = (transaction encode envelope email options).length)
    (hpos : ∀ r ∈ rs, r.response.isPositive = true) (hready : Ready rs rest c) :
    ∃ R c', send encode envelope email c = .ok R c' ∧ c'.trace =
      c.trace ++ dialogue (transaction encode envelope email options) (rs.map Reply.response) := by
  have hes : transaction encode envelope email options = [_] ++ (_ ++ ([_] ++ [_])) := rfl
  rw [send_eq_ok hopt, hes]
  rw [hes] at hlen
  obtain ⟨R, c', h, ht, -⟩ := completesAll_bind (completesAll_element
      (completes_trySmtp (completes_command (.mail envelope.reversePath options))))
    (fun _ => completesAll_bind (completesAll_rcptLoop envelope.forwardPath) fun _ =>
      completesAll_bind (completesAll_element (completes_trySmtp (completes_command .data)))
        fun _ => completesAll_element (completes_trySmtp (completes_message encode email)))
    rs [] rest c hlen hpos (by simpa using hready)
  exact ⟨R, c', h, ht⟩

/-- **`send` goes on after every positive reply.** Against a server whose replies to the elements
of the transaction are well formed and positive, 2yz or 3yz, and a socket that takes every
write, `send` writes every element, each after the reply to the one before, and returns. So a
3yz reply to MAIL or RCPT is taken as leave to go on, and the body is written after a 2yz reply
to DATA. -/
theorem send_positive_replies (encode : List UInt8 → List UInt8) (envelope : Envelope)
    (email : List UInt8) (c : SmtpConnection) (options : List MailParameter)
    (hopt : mailOptions c.serverInfo envelope email = .ok options) (rs : List Reply)
    (rest : List UInt8) (hlen : rs.length = (transaction encode envelope email options).length)
    (hpos : ∀ r ∈ rs, r.response.isPositive = true) (hready : Ready rs rest c) :
    ∃ R c', send encode envelope email c = .ok R c' ∧
      c'.trace = c.trace ++
        dialogue (transaction encode envelope email options) (rs.map Reply.response) :=
  send_completesAll encode envelope email c options hopt rs rest hlen hpos hready

/-- A server that answers MAIL and RCPT with `250 ok`, DATA with `354 go` and the body with
`250 ok`, all in one read. -/
theorem send_positive_replies_354 :
    let a : Str := ⟨[97, 64, 120], rfl⟩
    let b : Str := ⟨[98, 64, 120], rfl⟩
    let envelope : Envelope := ⟨[b], some a, List.cons_ne_nil _ _⟩
    let ok250 : Reply := ⟨⟨.positiveCompletion, .mailSystem, .zero⟩, [], some ⟨[111, 107], rfl⟩,
      by decide⟩
    let go354 : Reply := ⟨⟨.positiveIntermediate, .mailSystem, .four⟩, [], some ⟨[103, 111], rfl⟩,
      by decide⟩
    let rs := [ok250, ok250, go354, ok250]
    let c : SmtpConnection :=
      ⟨⟨[], ⟨false,
        [.data [50, 53, 48, 32, 111, 107, 13, 10, 50, 53, 48, 32, 111, 107, 13, 10,
                51, 53, 52, 32, 103, 111, 13, 10, 50, 53, 48, 32, 111, 107, 13, 10]],
        [], true, [], [], false⟩⟩, false, .default, []⟩
    (mailOptions c.serverInfo envelope [104, 105] = .ok [] ∧
      rs.length = (transaction id envelope [104, 105] []).length ∧
      (∀ r ∈ rs, r.response.isPositive = true) ∧ Ready rs [] c) ∧
    ∃ R c', send id envelope [104, 105] c = .ok R c' ∧
      c'.trace = c.trace ++
        dialogue (transaction id envelope [104, 105] []) (rs.map Reply.response) := by
  intro a b envelope ok250 go354 rs c
  have hready : Ready rs [] c :=
    ⟨rfl, by simp [AllData, NetworkStream.reads, c], by simp [c]⟩
  exact ⟨⟨rfl, rfl, by decide, hready⟩,
    send_positive_replies id envelope [104, 105] c [] rfl rs [] rfl (by decide) hready⟩

/-- **The body is written after a 250 reply to DATA.** A server that answers MAIL, RCPT, DATA and
the body with `250 ok`, all in one read: the reply to DATA has code 250, not 354, and `send`
still writes the body and the end of data after it. -/
theorem send_body_after_250_to_data :
    let a : Str := ⟨[97, 64, 120], rfl⟩
    let b : Str := ⟨[98, 64, 120], rfl⟩
    let envelope : Envelope := ⟨[b], some a, List.cons_ne_nil _ _⟩
    let ok250 : Reply := ⟨⟨.positiveCompletion, .mailSystem, .zero⟩, [], some ⟨[111, 107], rfl⟩,
      by decide⟩
    let c : SmtpConnection :=
      ⟨⟨[], ⟨false,
        [.data [50, 53, 48, 32, 111, 107, 13, 10, 50, 53, 48, 32, 111, 107, 13, 10,
                50, 53, 48, 32, 111, 107, 13, 10, 50, 53, 48, 32, 111, 107, 13, 10]],
        [], true, [], [], false⟩⟩, false, .default, []⟩
    ok250.response.hasCode 250 = true ∧ ok250.response.hasCode 354 = false ∧
    ∃ R c', send id envelope [104, 105] c = .ok R c' ∧
      c'.trace = [.wrote (Command.mail (some a) []).display, .replied ok250.response,
        .wrote (Command.rcpt b).display, .replied ok250.response, .wrote Command.data.display,
        .replied ok250.response, .wrote [104, 105], .wrote [13, 10, 46, 13, 10],
        .replied ok250.response] := by
  intro a b envelope ok250 c
  have hready : Ready [ok250, ok250, ok250, ok250] [] c :=
    ⟨rfl, by simp [AllData, NetworkStream.reads, c], by simp [c]⟩
  obtain ⟨R, c', h, ht⟩ :=
    send_completesAll id envelope [104, 105] c [] rfl _ [] rfl (by decide) hready
  exact ⟨by decide, by decide, R, c', h, ht.trans rfl⟩

end SmtpConnection

end Lettre.Smtp
