import Lettre.Smtp.Steps

/-!
# `SmtpConnection::auth`

`auth` starts a SASL session, sends AUTH with the mechanism's initial response, and answers the
server's 334 challenges with the mechanism's next steps, at most ten of them. The session is
rsasl's, and `Auth::initial` and `Auth::from_response` live in `commands.rs`, none of which is
part of the source: a session is modelled as the mechanism's name and what its step does at each
call, so that a result over every session is a result over every behaviour of the mechanism.

The loop returns early in three places, and only one of them, the `try_smtp!` around the
command, aborts: an eleventh 334, a 334 after the mechanism has finished, and a challenge the
mechanism fails on all return an error and leave the connection as it was, though the server
waits for an answer to a challenge it sent.

* `auth_unanswered_challenge`: **`auth` leaves a challenge unanswered on a connection it does not
  mark broken.** Against a server that answers 334, when the mechanism finished with its initial
  response, when it fails on the challenge, and when the server sends 334 eleven times in a row,
  `auth` returns an error after reading a challenge it did not answer, and the panic flag is
  what it was.
* `logged_auth`: the lines `auth` records in the trace are those the socket was given.
* `auth_writesAtMost`: **the exchange is bounded.** Whatever the server answers and whatever the
  mechanism does, `auth` writes at most eleven lines when it returns and twelve when it fails.
-/

namespace Lettre.Smtp

/-! ### The SASL session -/

/-- What one call of a mechanism's step does: it goes on, or finishes, each with the message to
send if any, or it fails. Modelled from the source's uses: rsasl is not part of the source. -/
inductive SaslStep
  | running (out : Option (List UInt8))
  | finished (out : Option (List UInt8))
  | failed
  deriving DecidableEq

/-- rsasl's `State` after a step. -/
inductive SaslState
  | running
  | finished
  deriving DecidableEq

/-- A SASL session: the mechanism's name, and what its step does at each call, in order; a call
past the end fails. -/
structure Session where
  mechanism : List UInt8
  steps : List SaslStep

/-- One step of the session, and the command that carries its message: `Auth::initial` and
`Auth::from_response`, which differ only in the command. Modelled from the spec (§4.3): a step
that fails is an error of the mechanism. -/
def saslCommand (mk : Option (List UInt8) → Command) (s : Session) :
    Except Error (Command × SaslState × Session) :=
  match s.steps with
  | .running out :: steps => .ok (mk out, .running, ⟨s.mechanism, steps⟩)
  | .finished out :: steps => .ok (mk out, .finished, ⟨s.mechanism, steps⟩)
  | .failed :: _ | [] => .error .sasl

/-- `Auth::initial`: AUTH with the mechanism's name and the first step's message, if any. -/
def authInitial (s : Session) : Except Error (Command × SaslState × Session) :=
  saslCommand (.auth s.mechanism) s

/-- `Auth::from_response`: the next step's message, alone on its line. -/
def authFromResponse (s : Session) : Except Error (Command × SaslState × Session) :=
  saslCommand (fun out => .authResponse (out.getD [])) s

/-! ### `auth` -/

namespace SmtpConnection

/-- The loop of `auth`: while the reply is 334, answer it with the next step, at most `challenges`
more times, and never after the mechanism has finished. -/
def authLoop : (challenges : Nat) → SaslState → Session → Response →
    EStateM Error SmtpConnection (Response × SaslState × Session)
  | challenges, state, session, response =>
    if response.hasCode 334 then
      match challenges with
      | 0 => throw (.response "Unexpected number of challenges")
      | n + 1 =>
        if state = .finished then throw (.response "Unexpected number of challenges")
        else
          match authFromResponse session with
          | .error e => throw e
          | .ok (cmd, state', session') => do
            let response ← trySmtp (command cmd)
            authLoop n state' session' response
    else pure (response, state, session)

/-- `auth`, from the session `start_suggested_iter` returned, none when no mechanism was
compatible: AUTH, the challenges, and the last step of a mechanism still running. -/
def auth (session : Option Session) : EStateM Error SmtpConnection Response :=
  match session with
  | none => throw (.client "No compatible authentication mechanism was found")
  | some session =>
    match authInitial session with
    | .error e => throw e
    | .ok (cmd, state, session) => do
      let response ← command cmd
      let (response, state, session) ← authLoop 10 state session response
      if state = .running then
        match session.steps with
        | .failed :: _ | [] => throw .sasl
        | _ => pure response
      else pure response

/-! ### Challenges left unanswered -/

theorem isPositive_of_hasCode_334 {R : Response} (h : R.hasCode 334 = true) :
    R.isPositive = true := by
  have hd : R.code.display = [51, 51, 52] := (of_decide_eq_true h).trans (by decide)
  cases hs : R.code.severity <;>
    simp [Code.display, Severity.digit, hs, Response.isPositive] at hd ⊢

/-- The loop answers a run of 334 replies, one per step of a mechanism that keeps running, and
stops with an error at the first 334 it has no challenge left for, having changed nothing but
the reader and the trace. -/
theorem authLoop_challenges (mech : List UInt8) (more : List SaslStep) (rest : List UInt8) :
    ∀ (os : List (Option (List UInt8))) (rs rs' : List Reply) (R : Response) (c : SmtpConnection),
      rs.length = os.length → R.hasCode 334 = true → (∀ r ∈ rs, r.response.hasCode 334 = true) →
      Ready (rs ++ rs') rest c →
      ∃ c', authLoop os.length .running ⟨mech, os.map .running ++ more⟩ R c =
          .error (.response "Unexpected number of challenges") c' ∧ c'.panic = c.panic ∧
        c'.trace = c.trace ++
          dialogue (os.map fun o => [(Command.authResponse (o.getD [])).display])
            (rs.map Reply.response)
  | [], rs, rs', R, c, hl, hR, _, _ => by
    obtain rfl : rs = [] := List.length_eq_zero.mp hl
    refine ⟨c, ?_, rfl, by simp [dialogue]⟩
    rw [List.length_nil, authLoop]
    simp only [hR, ↓reduceIte]
    rfl
  | o :: os, rs, rs', R, c, hl, hR, h334, h => by
    obtain ⟨r, rs, rfl⟩ := List.exists_cons_of_length_eq_add_one hl
    have hr := h334 r (List.mem_cons_self _ _)
    obtain ⟨c₁, hx, hp, -, ht, h₁⟩ := completes_trySmtp
      (completes_command (.authResponse (o.getD []))) r (rs ++ rs') rest c h
      (isPositive_of_hasCode_334 hr)
    obtain ⟨c', hloop, hp', ht'⟩ := authLoop_challenges mech more rest os rs rs' r.response c₁
      (by simpa using hl) hr (fun r' hr' => h334 r' (List.mem_cons_of_mem _ hr')) h₁
    refine ⟨c', ?_, hp'.trans hp, by rw [ht', ht]; simp [dialogue]⟩
    rw [List.length_cons, authLoop]
    simp only [hR, ↓reduceIte, reduceCtorEq, authFromResponse, saslCommand, List.map_cons,
      List.cons_append, bind, EStateM.bind, hx, hloop]

theorem authLoop_finished (n : Nat) (session : Session) {R : Response} (hR : R.hasCode 334 = true)
    (c : SmtpConnection) :
    authLoop (n + 1) .finished session R c =
      .error (.response "Unexpected number of challenges") c := by
  rw [authLoop]
  simp only [hR, ↓reduceIte]
  rfl

theorem authLoop_failed (n : Nat) (mech : List UInt8) (more : List SaslStep) {R : Response}
    (hR : R.hasCode 334 = true) (c : SmtpConnection) :
    authLoop (n + 1) .running ⟨mech, .failed :: more⟩ R c = .error .sasl c := by
  rw [authLoop]
  simp only [hR, ↓reduceIte, reduceCtorEq, authFromResponse, saslCommand]
  rfl

/-- **`auth` leaves a challenge unanswered on a connection it does not mark broken.** Let the
server answer AUTH, and every answer to a challenge, with 334. When the mechanism finished with
its initial response, and when it fails on the first challenge, `auth` returns an error right
after reading the first 334; when the mechanism keeps running, it answers ten challenges and
returns an error after reading the eleventh 334. Each time the last event is a 334 that was not
answered, and the panic flag is what it was before `auth`. -/
theorem auth_unanswered_challenge (c : SmtpConnection) (mech : List UInt8) (r : Reply)
    (rs : List Reply) (rest : List UInt8) (hready : Ready (r :: rs) rest c)
    (h334 : ∀ r' ∈ r :: rs, r'.response.hasCode 334 = true) :
    (∀ (out : Option (List UInt8)) (more : List SaslStep),
      ∃ c', auth (some ⟨mech, .finished out :: more⟩) c =
        .error (.response "Unexpected number of challenges") c' ∧ c'.panic = c.panic ∧
      c'.trace = c.trace ++ [.wrote (Command.auth mech out).display, .replied r.response]) ∧
    (∀ (out : Option (List UInt8)) (more : List SaslStep),
      ∃ c', auth (some ⟨mech, .running out :: .failed :: more⟩) c = .error .sasl c' ∧
      c'.panic = c.panic ∧
      c'.trace = c.trace ++ [.wrote (Command.auth mech out).display, .replied r.response]) ∧
    (∀ (o : Option (List UInt8)) (os : List (Option (List UInt8))) (more : List SaslStep),
      os.length = 10 → 10 ≤ rs.length →
      ∃ c', auth (some ⟨mech, .running o :: os.map .running ++ more⟩) c =
          .error (.response "Unexpected number of challenges") c' ∧ c'.panic = c.panic ∧
        c'.trace = c.trace ++
          dialogue ([(Command.auth mech o).display] ::
              os.map fun o => [(Command.authResponse (o.getD [])).display])
            ((r :: rs.take 10).map Reply.response)) := by
  have hr := h334 r (List.mem_cons_self _ _)
  have hpos := isPositive_of_hasCode_334 hr
  refine ⟨fun out more => ?_, fun out more => ?_, fun o os more hos hrs => ?_⟩
  · obtain ⟨c₁, hx, hp, -, ht, -⟩ := completes_command (.auth mech out) r rs rest c hready hpos
    refine ⟨c₁, ?_, hp, by simpa using ht⟩
    simp only [auth, authInitial, saslCommand, bind, EStateM.bind, hx, authLoop_finished 9 _ hr]
  · obtain ⟨c₁, hx, hp, -, ht, -⟩ := completes_command (.auth mech out) r rs rest c hready hpos
    refine ⟨c₁, ?_, hp, by simpa using ht⟩
    simp only [auth, authInitial, saslCommand, bind, EStateM.bind, hx, authLoop_failed 9 _ _ hr]
  · obtain ⟨c₁, hx, hp, -, ht, h₁⟩ := completes_command (.auth mech o) r rs rest c hready hpos
    obtain ⟨c', hloop, hp', ht'⟩ := authLoop_challenges mech more rest os (rs.take 10) (rs.drop 10)
      r.response c₁ (by simp [hos]; omega) hr (fun r' hr' => h334 r' (List.mem_cons_of_mem _
        (List.mem_of_mem_take hr'))) (by simpa using h₁)
    refine ⟨c', ?_, hp'.trans hp, by rw [ht', ht]; simp [dialogue]⟩
    rw [hos] at hloop
    simp only [auth, authInitial, saslCommand, List.cons_append, bind, EStateM.bind, hx, hloop]

theorem auth_unanswered_challenge_eleven :
    let r334 : Reply := ⟨⟨.positiveIntermediate, .unspecified3, .four⟩, [], none, by decide⟩
    let rs := List.replicate 10 r334
    let mech : List UInt8 := [80, 76, 65, 73, 78]
    let c : SmtpConnection := ⟨⟨[], ⟨false, [.data ((r334 :: rs).map Reply.bytes).flatten], [],
      true, [], [], false⟩⟩, false, .default, []⟩
    (Ready (r334 :: rs) [] c ∧ ∀ r' ∈ r334 :: rs, r'.response.hasCode 334 = true) ∧
    (∀ (out : Option (List UInt8)) (more : List SaslStep),
      ∃ c', auth (some ⟨mech, .finished out :: more⟩) c =
        .error (.response "Unexpected number of challenges") c' ∧ c'.panic = c.panic ∧
      c'.trace = c.trace ++ [.wrote (Command.auth mech out).display, .replied r334.response]) ∧
    (∀ (out : Option (List UInt8)) (more : List SaslStep),
      ∃ c', auth (some ⟨mech, .running out :: .failed :: more⟩) c = .error .sasl c' ∧
      c'.panic = c.panic ∧
      c'.trace = c.trace ++ [.wrote (Command.auth mech out).display, .replied r334.response]) ∧
    (∀ (o : Option (List UInt8)) (os : List (Option (List UInt8))) (more : List SaslStep),
      os.length = 10 → 10 ≤ rs.length →
      ∃ c', auth (some ⟨mech, .running o :: os.map .running ++ more⟩) c =
          .error (.response "Unexpected number of challenges") c' ∧ c'.panic = c.panic ∧
        c'.trace = c.trace ++
          dialogue ([(Command.auth mech o).display] ::
              os.map fun o => [(Command.authResponse (o.getD [])).display])
            ((r334 :: rs.take 10).map Reply.response)) := by
  intro r334 rs mech c
  have hready : Ready (r334 :: rs) [] c :=
    ⟨rfl, by
      simp only [Io.AllData, Io.NetworkStream.reads, c]
      exact fun x hx => ⟨_, fun h => by obtain ⟨p, hp⟩ := r334.bytes_eq_append; simp [hp] at h,
        List.eq_of_mem_singleton hx⟩, by simp [c]⟩
  have h334 : ∀ r' ∈ r334 :: rs, r'.response.hasCode 334 = true := by decide
  exact ⟨⟨hready, h334⟩, auth_unanswered_challenge c mech r334 rs [] hready h334⟩

/-! ### What every step of `auth` keeps -/

section Keeps

variable {P : SmtpConnection → Prop}

/-- A property that every command inside `try_smtp!` keeps is kept by the loop. -/
theorem keeps_authLoop (hcmd : ∀ cmd, Keeps P (trySmtp (command cmd))) :
    ∀ n state session response, Keeps P (authLoop n state session response)
  | 0, _, _, _ => by
    rw [authLoop]
    exact keeps_ite _ (keeps_throw _) (keeps_pure _)
  | n + 1, _, _, _ => by
    rw [authLoop]
    refine keeps_ite _ (keeps_ite _ (keeps_throw _) ?_) (keeps_pure _)
    split
    · exact keeps_throw _
    · exact keeps_bind (hcmd _) fun R => keeps_authLoop hcmd n _ _ R

/-- A property that every command keeps, alone and inside `try_smtp!`, is kept by `auth`. -/
theorem keeps_auth (hc : ∀ cmd, Keeps P (command cmd))
    (hcmd : ∀ cmd, Keeps P (trySmtp (command cmd))) (session : Option Session) :
    Keeps P (auth session) := by
  unfold auth
  split
  · exact keeps_throw _
  · split
    · exact keeps_throw _
    · refine keeps_bind (hc _) fun _ => keeps_bind (keeps_authLoop hcmd 10 _ _ _) ?_
      rintro ⟨_, _, _⟩
      refine keeps_ite _ ?_ (keeps_pure _)
      split
      · exact keeps_throw _
      · exact keeps_throw _
      · exact keeps_pure _

end Keeps

/-- `auth`'s writes are the socket's: the trace it records is what the socket was given. -/
theorem logged_auth (session : Option Session) : Logged (auth session) :=
  keeps_auth logged_command (fun _ => logged_trySmtp (logged_command _)) session

/-! ### The exchange is bounded -/

/-- The loop answers at most `n` challenges, and a failure may add `abort`'s QUIT. -/
theorem writesAtMost_authLoop :
    ∀ n state session response, WritesAtMost n (n + 1) (authLoop n state session response)
  | 0, _, _, _ => by
    rw [authLoop]
    exact (writesAtMost_ite _ (writesAtMost_throw _) (writesAtMost_pure _)).mono le_rfl
      (Nat.zero_le _)
  | n + 1, _, _, _ => by
    rw [authLoop]
    refine writesAtMost_ite _ (writesAtMost_ite _ ?_ ?_) ?_
    · exact (writesAtMost_throw _).mono (Nat.zero_le _) (Nat.zero_le _)
    · split
      · exact (writesAtMost_throw _).mono (Nat.zero_le _) (Nat.zero_le _)
      · refine (writesAtMost_bind (writesAtMost_element (trySmtp_element (command_exchanged _)))
          fun R => writesAtMost_authLoop n _ _ R).mono ?_ ?_ <;>
          simp only [List.length_singleton] <;> omega
    · exact (writesAtMost_pure _).mono (Nat.zero_le _) (Nat.zero_le _)

theorem writesAtMost_auth (session : Option Session) : WritesAtMost 11 12 (auth session) := by
  unfold auth
  split
  · exact (writesAtMost_throw _).mono (Nat.zero_le _) (Nat.zero_le _)
  · split
    · exact (writesAtMost_throw _).mono (Nat.zero_le _) (Nat.zero_le _)
    · refine (writesAtMost_bind (writesAtMost_exchanged (command_exchanged _)) fun _ =>
        @writesAtMost_bind _ _ 10 11 0 0 _ _ (writesAtMost_authLoop 10 _ _ _) ?_).mono ?_ ?_
      · rintro ⟨_, _, _⟩
        refine writesAtMost_ite _ ?_ (writesAtMost_pure _)
        split
        · exact writesAtMost_throw _
        · exact writesAtMost_throw _
        · exact writesAtMost_pure _
      all_goals simp only [List.length_singleton]; omega

/-- **`auth`'s exchange is bounded.** Over every server and every mechanism, `auth` writes at
most 11 lines when it returns, AUTH and at most ten answers to challenges, and at most 12 when it
fails, the last being `abort`'s QUIT; and the trace's writes stay the socket's, so the socket is
given no more. -/
theorem auth_writesAtMost (session : Option Session) :
    WritesAtMost 11 12 (auth session) ∧ Logged (auth session) :=
  ⟨writesAtMost_auth session, logged_auth session⟩

end SmtpConnection

end Lettre.Smtp
