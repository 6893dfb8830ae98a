import Lettre.Smtp.Connection

/-!
# What each operation of the connection does

`send`, `auth` and `starttls` are made of `command`, `message`, `abort` and `try_smtp!`. Each of
these has one lemma here that says everything it can do to the panic flag and to the trace, so
that the results about whole runs only put them together and never unfold them.

* `readResponse_answered`: `read_response` returns a positive reply it read, or fails, after a
  negative reply or before any; it never panics, and it only reads.
* `command_exchanged`, `message_exchanged`: the command, or the body and its ending, is written,
  then the reply is read. A failure stops the exchange after some of its writes, or after a
  negative reply.
* `abort_quit`: `abort` sets the panic flag, shuts the socket down, and writes QUIT, maybe
  followed by its reply, on a connection that was not broken; it writes nothing on one that was.
* `trySmtp_element`: what `try_smtp!` makes of an exchange.
* `Logged`: the writes of the trace stay the socket's writes.
* `WritesAtMost`: a bound on the lines a program writes when it returns and when it fails, with
  one lemma per way of putting programs together.
* `completes_command`, `completes_message`: against a server whose next reply is well formed and
  positive, and a socket that takes every write, an exchange writes, reads that reply and
  returns it, and leaves the replies after it pending.
-/

namespace Lettre.Smtp

open Io

namespace SmtpConnection

/-- The connection an outcome leaves. -/
def after {α : Type} : EStateM.Result Error SmtpConnection α → SmtpConnection
  | .ok _ c => c
  | .error _ c => c

/-! ### Reading -/

/-- `c'` is `c` after reads that recorded the replies `t`: only the reader and the trace changed,
and the socket only delivered bytes. -/
structure ReadFrom (c c' : SmtpConnection) (t : List Event) : Prop where
  panic : c'.panic = c.panic
  serverInfo : c'.serverInfo = c.serverInfo
  trace : c'.trace = c.trace ++ t
  inner : c'.stream.inner = c.stream.inner.setReads c'.stream.inner.reads
  drop : ∃ k, c'.stream.inner.reads = c.stream.inner.reads.drop k

theorem ReadFrom.trans {c c₁ c₂ : SmtpConnection} {t₁ t₂ : List Event} (h₁ : ReadFrom c c₁ t₁)
    (h₂ : ReadFrom c₁ c₂ t₂) : ReadFrom c c₂ (t₁ ++ t₂) where
  panic := h₂.panic.trans h₁.panic
  serverInfo := h₂.serverInfo.trans h₁.serverInfo
  trace := by rw [h₂.trace, h₁.trace, List.append_assoc]
  inner := by rw [h₂.inner, h₁.inner]; simp
  drop := by
    obtain ⟨k₁, hk₁⟩ := h₁.drop
    obtain ⟨k₂, hk₂⟩ := h₂.drop
    exact ⟨k₁ + k₂, by rw [hk₂, hk₁, List.drop_drop, Nat.add_comm]⟩

/-- What `read_response` can do from `c`: return a positive reply it read, or fail, after a
negative reply or before any reply. It never panics. -/
def Answered (c : SmtpConnection) : EStateM.Result Error SmtpConnection Response → Prop
  | .ok R c' => R.isPositive = true ∧ ReadFrom c c' [.replied R]
  | .error e c' => e ≠ .panic ∧
      (ReadFrom c c' [] ∨ ∃ R : Response, R.isPositive = false ∧ ReadFrom c c' [.replied R])

theorem Answered.of_readFrom {c c₁ : SmtpConnection}
    {r : EStateM.Result Error SmtpConnection Response} (h₁ : ReadFrom c c₁ []) (h : Answered c₁ r) :
    Answered c r := by
  match r, h with
  | .ok _ _, ⟨hp, h⟩ => exact ⟨hp, by simpa using h₁.trans h⟩
  | .error _ _, ⟨he, .inl h⟩ => exact ⟨he, .inl (by simpa using h₁.trans h)⟩
  | .error _ _, ⟨he, .inr ⟨R, hR, h⟩⟩ => exact ⟨he, .inr ⟨R, hR, by simpa using h₁.trans h⟩⟩

theorem readFrom_self (c : SmtpConnection) : ReadFrom c c [] := ⟨rfl, rfl, by simp, by simp, 0, rfl⟩

/-- `read_line` returns a line or a network error, and only reads. -/
theorem readLine_readFrom (c : SmtpConnection) : ∃ c', ReadFrom c c' [] ∧
    ((∃ line, readLine c = .ok line c') ∨ ∃ e, readLine c = .error (.network e) c') := by
  obtain ⟨k, hk⟩ := Io.readLine_drop c.stream.buf c.stream.inner.reads
  simp only [readLine, BufReader.readLine]
  generalize Io.readLine c.stream.buf c.stream.inner.reads = x at hk
  obtain ⟨_ | line, buf, reads⟩ := x
  · exact ⟨{ c with stream := ⟨buf, c.stream.inner.setReads reads⟩ },
      ⟨rfl, rfl, by simp, by simp, k, by simpa using hk⟩, .inr ⟨_, rfl⟩⟩
  · exact ⟨{ c with stream := ⟨buf, c.stream.inner.setReads reads⟩ },
      ⟨rfl, rfl, by simp, by simp, k, by simpa using hk⟩, .inl ⟨line, rfl⟩⟩

theorem replyOf_answered {c c₁ : SmtpConnection} (h₁ : ReadFrom c c₁ []) (R : Response) :
    Answered c (replyOf R c₁) := by
  have h : ReadFrom c { c₁ with trace := c₁.trace ++ [.replied R] } [.replied R] :=
    h₁.trans (⟨rfl, rfl, rfl, by simp, 0, rfl⟩ :
      ReadFrom c₁ { c₁ with trace := c₁.trace ++ [.replied R] } _)
  cases hR : R.isPositive
  · simp only [replyOf, hR, Bool.false_eq_true, ↓reduceIte]
    exact ⟨by simp, .inr ⟨R, hR, h⟩⟩
  · simp only [replyOf, hR, ↓reduceIte]
    exact ⟨hR, h⟩

/-- **`read_response` only reads, and never panics.** -/
theorem readResponseLoop_answered : ∀ (fuel : Nat) (buffer : List UInt8) (c : SmtpConnection),
    Answered c (readResponseLoop fuel buffer c)
  | 0, _, c => ⟨by simp, .inl (readFrom_self c)⟩
  | fuel + 1, buffer, c => by
    obtain ⟨c₁, h₁, ⟨line, hl⟩ | ⟨e, hl⟩⟩ := readLine_readFrom c
    · simp only [readResponseLoop, bind, EStateM.bind, hl]
      split_ifs
      · exact ⟨by simp, .inl h₁⟩
      · cases parseResponse (buffer ++ line.bytes) with
        | ok _ response => exact replyOf_answered h₁ response
        | error => exact ⟨by simp, .inl h₁⟩
        | incomplete => exact (readResponseLoop_answered fuel _ c₁).of_readFrom h₁
    · simp only [readResponseLoop, bind, EStateM.bind, hl]
      exact ⟨by simp, .inl h₁⟩

theorem readResponse_answered (c : SmtpConnection) : Answered c (readResponse c) :=
  readResponseLoop_answered _ _ c

/-! ### Exchanges -/

/-- How an exchange that writes `ws` and then reads a reply stopped short: after its first `j`
writes, `0 < j`, with no reply read, or after all of them and a negative reply. -/
def Stopped (ws : List (List UInt8)) (t : List Event) : Prop :=
  (∃ j, 0 < j ∧ j ≤ ws.length ∧ t = (ws.take j).map .wrote) ∨
    ∃ R : Response, R.isPositive = false ∧ t = ws.map .wrote ++ [.replied R]

/-- What an exchange that writes `ws` and then reads the reply can do from `c`: write all of `ws`
and return the positive reply it read, or stop short with an error that is not a panic. The
panic flag does not change. -/
def Exchanged (ws : List (List UInt8)) (c : SmtpConnection) :
    EStateM.Result Error SmtpConnection Response → Prop
  | .ok R c' => R.isPositive = true ∧ c'.panic = c.panic ∧
      c'.trace = c.trace ++ ws.map .wrote ++ [.replied R]
  | .error e c' => e ≠ .panic ∧ c'.panic = c.panic ∧ ∃ t, Stopped ws t ∧ c'.trace = c.trace ++ t

theorem stopped_first (b : List UInt8) (ws : List (List UInt8)) : Stopped (b :: ws) [.wrote b] :=
  .inl ⟨1, by omega, by simp, by simp⟩

theorem Stopped.cons {ws : List (List UInt8)} {t : List Event} (b : List UInt8) :
    Stopped ws t → Stopped (b :: ws) (.wrote b :: t)
  | .inl ⟨j, hj, hjl, ht⟩ => .inl ⟨j + 1, by omega, by simp; omega, by simp [ht]⟩
  | .inr ⟨R, hR, ht⟩ => .inr ⟨R, hR, by simp [ht]⟩

theorem Stopped.single {b : List UInt8} {t : List Event} :
    Stopped [b] t → t = [.wrote b] ∨ ∃ R : Response, t = [.wrote b, .replied R]
  | .inl ⟨j, hj, hjl, ht⟩ => .inl (by obtain rfl : j = 1 := by simp at hjl; omega
                                      simpa using ht)
  | .inr ⟨R, _, ht⟩ => .inr ⟨R, by simpa using ht⟩

/-- `write` records its bytes whatever the socket answers. -/
theorem write_cases (bytes : List UInt8) (c : SmtpConnection) :
    ∃ c', c'.panic = c.panic ∧ c'.trace = c.trace ++ [.wrote bytes] ∧
      (write bytes c = .ok () c' ∨ write bytes c = .error (.network .write) c') := by
  simp only [write]
  generalize c.stream.inner.write bytes = x
  obtain ⟨_ | _, inner⟩ := x <;>
    refine ⟨{ c with stream := { c.stream with inner := inner },
                     trace := c.trace ++ [.wrote bytes] }, rfl, rfl, ?_⟩
  exacts [.inr rfl, .inl rfl]

theorem exchanged_write_read (b : List UInt8) (c : SmtpConnection) :
    Exchanged [b] c ((write b >>= fun _ => readResponse) c) := by
  obtain ⟨c₁, hp, ht, hw | hw⟩ := write_cases b c
  · simp only [bind, EStateM.bind, hw]
    have ha := readResponse_answered c₁
    generalize readResponse c₁ = r at ha ⊢
    match r, ha with
    | .ok R c', ⟨hR, h⟩ => exact ⟨hR, h.panic.trans hp, by rw [h.trace, ht]; simp⟩
    | .error _ c', ⟨he, .inl h⟩ =>
      exact ⟨he, h.panic.trans hp, _, stopped_first b [], by rw [h.trace, ht]; simp⟩
    | .error _ c', ⟨he, .inr ⟨R, hR, h⟩⟩ =>
      exact ⟨he, h.panic.trans hp, _, .inr ⟨R, hR, rfl⟩, by rw [h.trace, ht]; simp⟩
  · simp only [bind, EStateM.bind, hw]
    exact ⟨by simp, hp, _, stopped_first b [], ht⟩

theorem exchanged_write_cons (b : List UInt8) {ws : List (List UInt8)}
    {x : EStateM Error SmtpConnection Response} (hx : ∀ c, Exchanged ws c (x c))
    (c : SmtpConnection) : Exchanged (b :: ws) c ((write b >>= fun _ => x) c) := by
  obtain ⟨c₁, hp, ht, hw | hw⟩ := write_cases b c
  · simp only [bind, EStateM.bind, hw]
    have hx₁ := hx c₁
    generalize x c₁ = r at hx₁ ⊢
    match r, hx₁ with
    | .ok R c', ⟨hR, hp', ht'⟩ => exact ⟨hR, hp'.trans hp, by rw [ht', ht]; simp⟩
    | .error _ c', ⟨he, hp', t, hs, ht'⟩ =>
      exact ⟨he, hp'.trans hp, _, hs.cons b, by rw [ht', ht]; simp⟩
  · simp only [bind, EStateM.bind, hw]
    exact ⟨by simp, hp, _, stopped_first b ws, ht⟩

/-- **A command is written, then its reply read.** -/
theorem command_exchanged (cmd : Command) (c : SmtpConnection) :
    Exchanged [cmd.display] c (command cmd c) :=
  exchanged_write_read _ c

/-- **The body is written, then its ending, then the reply read.** -/
theorem message_exchanged (encode : List UInt8 → List UInt8) (m : List UInt8) (c : SmtpConnection) :
    Exchanged [encode m, [13, 10, 46, 13, 10]] c (message encode m c) :=
  exchanged_write_cons _ (exchanged_write_read _) c

/-! ### `abort` and `try_smtp!` -/

/-- What `abort` writes and reads: QUIT, maybe followed by its reply, on a connection that was
not broken; nothing on one that was. -/
def Quit : Bool → List Event → Prop
  | true, q => q = []
  | false, q => q = [.wrote Command.quit.display] ∨
      ∃ R : Response, q = [.wrote Command.quit.display, .replied R]

theorem abort_quit (c : SmtpConnection) : ∃ c', abort c = .ok () c' ∧ c'.panic = true ∧
    c'.stream.inner.shut = true ∧ ∃ q, Quit c.panic q ∧ c'.trace = c.trace ++ q := by
  cases hp : c.panic
  · simp only [abort, bind, EStateM.bind, get, getThe, MonadStateOf.get, EStateM.get, hp,
      Bool.not_false, ↓reduceIte, modify, modifyGet, MonadStateOf.modifyGet, EStateM.modifyGet,
      tryCatch, MonadExcept.tryCatch, MonadExceptOf.tryCatch, EStateM.tryCatch, discard,
      Functor.discard, tryCatchThe, Functor.mapConst, Functor.map, EStateM.map, Function.comp,
      Function.const]
    have hq := command_exchanged .quit { c with panic := true }
    generalize command .quit { c with panic := true } = r at hq ⊢
    match r, hq with
    | .ok R c', ⟨_, hp', ht'⟩ =>
      exact ⟨_, rfl, hp', rfl, _, .inr ⟨R, rfl⟩, by simp [ht']⟩
    | .error _ c', ⟨_, hp', t, hs, ht'⟩ =>
      exact ⟨_, rfl, hp', rfl, t, hs.single, ht'⟩
  · simp only [abort, bind, EStateM.bind, get, getThe, MonadStateOf.get, EStateM.get, hp,
      Bool.not_true, ↓reduceIte, Bool.false_eq_true, pure, EStateM.pure]
    exact ⟨_, rfl, hp, rfl, [], rfl, by simp⟩

/-- What `try_smtp!` around an exchange that writes `ws` can do from `c`: return the positive
reply, or fail, after which the connection is broken and shut down, and `abort` has written at
most one QUIT. -/
def Element (ws : List (List UInt8)) (c : SmtpConnection) :
    EStateM.Result Error SmtpConnection Response → Prop
  | .ok R c' => R.isPositive = true ∧ c'.panic = c.panic ∧
      c'.trace = c.trace ++ ws.map .wrote ++ [.replied R]
  | .error _ c' => c'.panic = true ∧ c'.stream.inner.shut = true ∧
      ∃ t q, Stopped ws t ∧ Quit c.panic q ∧ c'.trace = c.trace ++ t ++ q

theorem trySmtp_ok {α : Type} {x : EStateM Error SmtpConnection α} {c c' : SmtpConnection} {a : α}
    (h : x c = .ok a c') : trySmtp x c = .ok a c' := by
  simp only [trySmtp, tryCatch, MonadExcept.tryCatch, MonadExceptOf.tryCatch, EStateM.tryCatch,
    tryCatchThe, h]

theorem trySmtp_element {ws : List (List UInt8)} {x : EStateM Error SmtpConnection Response}
    (hx : ∀ c, Exchanged ws c (x c)) (c : SmtpConnection) : Element ws c (trySmtp x c) := by
  have h := hx c
  simp only [trySmtp, tryCatch, MonadExcept.tryCatch, MonadExceptOf.tryCatch, EStateM.tryCatch,
    tryCatchThe]
  generalize x c = r at h ⊢
  match r, h with
  | .ok R c', h => exact h
  | .error e c', ⟨he, hp, t, hs, ht⟩ =>
    obtain ⟨c'', ha, hp'', hshut, q, hq, hq'⟩ := abort_quit c'
    simp only [he, ↓reduceIte, bind, EStateM.bind, EStateM.Backtrackable.restore,
      EStateM.dummyRestore, ha]
    exact ⟨hp'', hshut, t, q, hs, hp ▸ hq, by rw [hq', ht]⟩

/-! ### The trace and the socket -/

/-- The writes a trace records, in order. -/
def written : List Event → List (List UInt8)
  | [] => []
  | .wrote b :: t => b :: written t
  | .replied _ :: t => written t

@[simp] theorem written_nil : written [] = [] := rfl

@[simp] theorem written_append : ∀ t u : List Event, written (t ++ u) = written t ++ written u
  | [], _ => rfl
  | .wrote b :: t, u => congrArg (b :: ·) (written_append t u)
  | .replied _ :: t, u => written_append t u

@[simp] theorem written_wrote (b : List UInt8) : written [.wrote b] = [b] := rfl

@[simp] theorem written_replied (R : Response) : written [.replied R] = [] := rfl

/-- The trace's writes are the socket's: what the socket was given is what the trace says was
written. -/
def Synced (c : SmtpConnection) : Prop := c.stream.inner.sent = written c.trace

/-- A program that keeps the property `P` of the connection, whatever it returns. -/
def Keeps {α : Type} (P : SmtpConnection → Prop) (x : EStateM Error SmtpConnection α) : Prop :=
  ∀ c, P c → P (after (x c))

/-- A program that keeps the trace's writes the socket's, whatever it returns. -/
def Logged {α : Type} (x : EStateM Error SmtpConnection α) : Prop :=
  ∀ c, Synced c → Synced (after (x c))

section Keeps

variable {α β : Type} {P : SmtpConnection → Prop}

theorem keeps_bind {x : EStateM Error SmtpConnection α} {f : α → EStateM Error SmtpConnection β}
    (hx : Keeps P x) (hf : ∀ a, Keeps P (f a)) : Keeps P (x >>= f) := by
  intro c hc
  have h := hx c hc
  simp only [bind, EStateM.bind]
  generalize x c = r at h ⊢
  cases r with
  | ok a c' => exact hf a c' h
  | error e c' => exact h

theorem keeps_tryCatch {x : EStateM Error SmtpConnection α}
    {handle : Error → EStateM Error SmtpConnection α} (hx : Keeps P x)
    (hh : ∀ e, Keeps P (handle e)) : Keeps P (tryCatch x handle) := by
  intro c hc
  have h := hx c hc
  simp only [tryCatch, MonadExcept.tryCatch, MonadExceptOf.tryCatch, EStateM.tryCatch, tryCatchThe,
    EStateM.Backtrackable.restore, EStateM.dummyRestore]
  generalize x c = r at h ⊢
  cases r with
  | ok a c' => exact h
  | error e c' => exact hh e c' h

theorem keeps_pure (a : α) : Keeps P (pure a : EStateM Error SmtpConnection α) := fun _ h => h

theorem keeps_throw (e : Error) : Keeps P (throw e : EStateM Error SmtpConnection α) := fun _ h => h

theorem keeps_get : Keeps P (get : EStateM Error SmtpConnection SmtpConnection) := fun _ h => h

theorem keeps_ite (p : Prop) [Decidable p] {x y : EStateM Error SmtpConnection α} (hx : Keeps P x)
    (hy : Keeps P y) : Keeps P (if p then x else y) := by
  split
  · exact hx
  · exact hy

theorem logged_bind {x : EStateM Error SmtpConnection α} {f : α → EStateM Error SmtpConnection β}
    (hx : Logged x) (hf : ∀ a, Logged (f a)) : Logged (x >>= f) :=
  keeps_bind hx hf

theorem logged_tryCatch {x : EStateM Error SmtpConnection α}
    {handle : Error → EStateM Error SmtpConnection α} (hx : Logged x)
    (hh : ∀ e, Logged (handle e)) : Logged (tryCatch x handle) :=
  keeps_tryCatch hx hh

theorem logged_pure (a : α) : Logged (pure a : EStateM Error SmtpConnection α) := keeps_pure a

theorem logged_throw (e : Error) : Logged (throw e : EStateM Error SmtpConnection α) :=
  keeps_throw e

theorem logged_ite (p : Prop) [Decidable p] {x y : EStateM Error SmtpConnection α} (hx : Logged x)
    (hy : Logged y) : Logged (if p then x else y) :=
  keeps_ite p hx hy

end Keeps

theorem logged_write (bytes : List UInt8) : Logged (write bytes) := by
  intro c hc
  simp only [write, NetworkStream.write]
  split <;> simpa [after, Synced] using hc

theorem ReadFrom.synced {c c' : SmtpConnection} {t : List Event} (h : ReadFrom c c' t)
    (ht : written t = []) (hc : Synced c) : Synced c' := by
  rw [Synced, h.inner, h.trace]
  simpa [ht] using hc

theorem logged_readResponse : Logged readResponse := by
  intro c hc
  have h := readResponse_answered c
  generalize readResponse c = r at h ⊢
  match r, h with
  | .ok _ _, ⟨_, h⟩ => exact h.synced rfl hc
  | .error _ _, ⟨_, .inl h⟩ => exact h.synced rfl hc
  | .error _ _, ⟨_, .inr ⟨_, _, h⟩⟩ => exact h.synced rfl hc

theorem logged_command (cmd : Command) : Logged (command cmd) :=
  logged_bind (logged_write _) fun _ => logged_readResponse

theorem logged_message (encode : List UInt8 → List UInt8) (m : List UInt8) :
    Logged (message encode m) :=
  logged_bind (logged_write _) fun _ => logged_bind (logged_write _) fun _ => logged_readResponse

theorem logged_abort : Logged abort := by
  refine logged_bind (fun _ hc => hc) fun s => logged_ite _ ?_ (fun _ hc => hc)
  refine logged_bind (fun _ hc => hc) fun _ => logged_bind ?_ fun _ _ hc => hc
  refine logged_tryCatch ?_ fun _ => logged_pure _
  intro c hc
  have h := logged_command .quit c hc
  simp only [discard, Functor.discard, Functor.mapConst, Functor.map, EStateM.map, Function.comp,
    Function.const]
  generalize command .quit c = r at h ⊢
  cases r <;> exact h

theorem logged_trySmtp {α : Type} {x : EStateM Error SmtpConnection α} (hx : Logged x) :
    Logged (trySmtp x) :=
  logged_tryCatch hx fun _ =>
    logged_ite _ (logged_throw _) (logged_bind logged_abort fun _ => logged_throw _)

/-! ### How many lines a program writes -/

/-- A program that adds at most `ok` writes to the trace when it returns, and at most `err` when
it fails. -/
def WritesAtMost {α : Type} (ok err : Nat) (x : EStateM Error SmtpConnection α) : Prop :=
  ∀ c, match x c with
    | .ok _ c' => (written c'.trace).length ≤ (written c.trace).length + ok
    | .error _ c' => (written c'.trace).length ≤ (written c.trace).length + err

section WritesAtMost

variable {α β : Type}

theorem WritesAtMost.mono {ok err ok' err' : Nat} {x : EStateM Error SmtpConnection α}
    (h : WritesAtMost ok err x) (hok : ok ≤ ok') (herr : err ≤ err') :
    WritesAtMost ok' err' x := by
  intro c
  have h := h c
  generalize x c = r at h ⊢
  cases r <;> (simp only at h ⊢; omega)

/-- After a run that returned, the next program's writes add up; a failure of either ends it. -/
theorem writesAtMost_bind {ok err ok' err' : Nat} {x : EStateM Error SmtpConnection α}
    {f : α → EStateM Error SmtpConnection β} (hx : WritesAtMost ok err x)
    (hf : ∀ a, WritesAtMost ok' err' (f a)) :
    WritesAtMost (ok + ok') (max err (ok + err')) (x >>= f) := by
  intro c
  have h := hx c
  simp only [bind, EStateM.bind]
  generalize x c = r at h ⊢
  cases r with
  | ok a c₁ =>
    simp only at h ⊢
    have h' := hf a c₁
    generalize f a c₁ = r' at h' ⊢
    cases r' <;> (simp only at h' ⊢; omega)
  | error e c₁ => simp only at h ⊢; omega

theorem writesAtMost_pure (a : α) : WritesAtMost 0 0 (pure a : EStateM Error SmtpConnection α) :=
  fun _ => Nat.le_refl _

theorem writesAtMost_throw (e : Error) :
    WritesAtMost 0 0 (throw e : EStateM Error SmtpConnection α) :=
  fun _ => Nat.le_refl _

theorem writesAtMost_ite (p : Prop) [Decidable p] {ok err : Nat}
    {x y : EStateM Error SmtpConnection α} (hx : WritesAtMost ok err x)
    (hy : WritesAtMost ok err y) : WritesAtMost ok err (if p then x else y) := by
  split
  · exact hx
  · exact hy

end WritesAtMost

@[simp] theorem written_map_wrote (ws : List (List UInt8)) : written (ws.map .wrote) = ws := by
  induction ws with
  | nil => rfl
  | cons b ws ih => simp [written, ih]

theorem Stopped.length_written {ws : List (List UInt8)} {t : List Event} :
    Stopped ws t → (written t).length ≤ ws.length
  | .inl ⟨j, _, _, ht⟩ => by rw [ht, written_map_wrote]; exact List.length_take_le' _ _
  | .inr ⟨_, _, ht⟩ => by simp [ht]

theorem Quit.length_written : ∀ {b : Bool} {q : List Event}, Quit b q → (written q).length ≤ 1
  | true, _, hq => by simp [show _ = [] from hq]
  | false, _, .inl hq => by simp [hq]
  | false, _, .inr ⟨_, hq⟩ => by simp [hq, written]

/-- An exchange writes its lines, or some of them. -/
theorem writesAtMost_exchanged {ws : List (List UInt8)} {x : EStateM Error SmtpConnection Response}
    (hx : ∀ c, Exchanged ws c (x c)) : WritesAtMost ws.length ws.length x := by
  intro c
  have h := hx c
  generalize x c = r at h ⊢
  match r, h with
  | .ok _ _, ⟨_, _, ht⟩ => simp [ht]
  | .error _ _, ⟨_, _, t, hs, ht⟩ => simpa [ht] using hs.length_written

/-- `try_smtp!` around an exchange adds at most `abort`'s QUIT to a failure. -/
theorem writesAtMost_element {ws : List (List UInt8)} {x : EStateM Error SmtpConnection Response}
    (hx : ∀ c, Element ws c (x c)) : WritesAtMost ws.length (ws.length + 1) x := by
  intro c
  have h := hx c
  generalize x c = r at h ⊢
  match r, h with
  | .ok _ _, ⟨_, _, ht⟩ => simp [ht]
  | .error _ _, ⟨_, _, t, q, hs, hq, ht⟩ =>
    have := hs.length_written
    have := hq.length_written
    simp only [ht, written_append, List.length_append]
    omega

/-! ### Against a server that answers -/

/-- The events of elements `es` written one after the other, each answered by the reply of `Rs`
at its place before the next is written. -/
def dialogue : List (List (List UInt8)) → List Response → List Event
  | e :: es, R :: Rs => e.map .wrote ++ .replied R :: dialogue es Rs
  | _, _ => []

theorem dialogue_append :
    ∀ (es₁ es₂ : List (List (List UInt8))) (Rs₁ Rs₂ : List Response), Rs₁.length = es₁.length →
      dialogue (es₁ ++ es₂) (Rs₁ ++ Rs₂) = dialogue es₁ Rs₁ ++ dialogue es₂ Rs₂
  | [], _, [], _, _ => rfl
  | _ :: es₁, es₂, _ :: Rs₁, Rs₂, h => by
    simp [dialogue, dialogue_append es₁ es₂ Rs₁ Rs₂ (by simpa using h)]

/-- The server has answered: the bytes still to come are the well-formed replies `rs`, then
`rest`, every read delivers bytes, and every write the socket has still to make succeeds. -/
structure Ready (rs : List Reply) (rest : List UInt8) (c : SmtpConnection) : Prop where
  pending : c.stream.pending = (rs.map Reply.bytes).flatten ++ rest
  allData : AllData c.stream.inner.reads
  writes : ∀ b ∈ c.stream.inner.writes, b = true

theorem write_ready {c : SmtpConnection} (h : ∀ b ∈ c.stream.inner.writes, b = true)
    (bytes : List UInt8) :
    write bytes c = .ok ()
      { c with stream := { c.stream with inner := (c.stream.inner.write bytes).2 },
               trace := c.trace ++ [.wrote bytes] } := by
  have hd : c.stream.inner.writes.headD true = true := by
    cases hw : c.stream.inner.writes with
    | nil => rfl
    | cons b _ => exact h b (by simp [hw])
  simp only [write, NetworkStream.write, hd, ↓reduceIte]

theorem Ready.write {rs : List Reply} {rest : List UInt8} {c : SmtpConnection} (h : Ready rs rest c)
    (bytes : List UInt8) :
    Ready rs rest
      { c with stream := { c.stream with inner := (c.stream.inner.write bytes).2 },
               trace := c.trace ++ [.wrote bytes] } where
  pending := by rw [← h.pending]; rfl
  allData := h.allData
  writes := fun b hb => h.writes b (List.mem_of_mem_tail hb)

/-- `read_response` against a server whose next reply is `r`: it returns `r` when positive, and
leaves the replies after it pending. -/
theorem readResponse_ready {r : Reply} {rs : List Reply} {rest : List UInt8} {c : SmtpConnection}
    (h : Ready (r :: rs) rest c) : ∃ s : BufReader,
      readResponse c = replyOf r.response { c with stream := s } ∧
        Ready rs rest { c with stream := s } := by
  obtain ⟨s, hs, hall, hinner, hread⟩ := readResponseLoop_reply r
    ((rs.map Reply.bytes).flatten ++ rest) (c.stream.pending.length + 1) [] r.bytes c rfl
    r.bytes_eq_append r.valid_bytes
    (by rw [h.pending]; simp; omega)
    (by rw [h.pending]; simp) h.allData
  refine ⟨s, hread, hs, hall, fun b hb => h.writes b ?_⟩
  rw [hinner] at hb
  simpa using hb

/-- `x` does, against a server that answers with a positive reply, what an exchange of the writes
`ws` does: it writes them, reads the next reply, and returns it. -/
def Completes (ws : List (List UInt8)) (x : EStateM Error SmtpConnection Response) : Prop :=
  ∀ (r : Reply) (rs : List Reply) (rest : List UInt8) (c : SmtpConnection), Ready (r :: rs) rest c →
    r.response.isPositive = true → ∃ c', x c = .ok r.response c' ∧ c'.panic = c.panic ∧
      c'.serverInfo = c.serverInfo ∧ c'.trace = c.trace ++ ws.map .wrote ++ [.replied r.response] ∧
      Ready rs rest c'

theorem completes_write_read (b : List UInt8) :
    Completes [b] (write b >>= fun _ => readResponse) := by
  intro r rs rest c h hpos
  obtain ⟨s, hread, hready⟩ := readResponse_ready (h.write b)
  have hx : (write b >>= fun _ => readResponse) c = .ok r.response
      { c with stream := s, trace := c.trace ++ [.wrote b] ++ [.replied r.response] } := by
    simp only [bind, EStateM.bind, write_ready h.writes, hread, replyOf, hpos, ↓reduceIte]
  exact ⟨_, hx, rfl, rfl, by simp, ⟨hready.1, hready.2, hready.3⟩⟩

theorem completes_write_cons (b : List UInt8) {ws : List (List UInt8)}
    {x : EStateM Error SmtpConnection Response} (hx : Completes ws x) :
    Completes (b :: ws) (write b >>= fun _ => x) := by
  intro r rs rest c h hpos
  obtain ⟨c', hx', hp, hi, ht, hready⟩ := hx r rs rest _ (h.write b) hpos
  refine ⟨c', ?_, hp, hi, by simp [ht], hready⟩
  simp only [bind, EStateM.bind, write_ready h.writes, hx']

theorem completes_command (cmd : Command) : Completes [cmd.display] (command cmd) :=
  completes_write_read _

theorem completes_message (encode : List UInt8 → List UInt8) (m : List UInt8) :
    Completes [encode m, [13, 10, 46, 13, 10]] (message encode m) :=
  completes_write_cons _ (completes_write_read _)

theorem completes_trySmtp {ws : List (List UInt8)} {x : EStateM Error SmtpConnection Response}
    (hx : Completes ws x) : Completes ws (trySmtp x) := by
  intro r rs rest c h hpos
  obtain ⟨c', hx', hrest⟩ := hx r rs rest c h hpos
  exact ⟨c', trySmtp_ok hx', hrest⟩

end SmtpConnection

end Lettre.Smtp
