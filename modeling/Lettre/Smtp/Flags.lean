import Mathlib.Data.Bool.Basic
import Mathlib.Logic.Relation
import Lettre.Smtp.Send
import Lettre.Smtp.Auth
import Lettre.Smtp.StartTls

/-!
# The flags of a connection over a whole run

`connection.rs` keeps three facts about a connection that its users read: `has_broken`, which
`abort` sets; whether the socket was shut down, which `abort` does last; and `is_encrypted`,
which `starttls` sets when it upgrades the socket, and from which `can_starttls` is read.

The flags `(has_broken, shut down, is_encrypted)` are a small machine of their own, `FlagStep`:
`abort` breaks the connection and shuts the socket down, the upgrade to TLS encrypts it, and
nothing else moves them. Every public call of the connection is made of writes, reads, `abort`,
the upgrade and the update of the server information, so a run of calls moves the flags only by
steps of that machine (`reaches_run`), and what the machine keeps, every run keeps. `set_stream`,
which puts a fresh socket under the connection, is not a call of a run here.

* `run_flags_le`: **flags never go back.** Over every run of calls, a broken connection stays
  broken, a shut socket stays shut, and an encrypted connection stays encrypted.
* `connect_run_shut`: on every connection `connect` opens, whatever calls follow, a broken
  connection has its socket shut down.
* `starttls_ok_canStarttls`: after a `starttls` that returned `Ok`, the server had announced
  STARTTLS, and `can_starttls` is false whatever calls follow.
-/

namespace Lettre.Smtp

/-! ### The flag machine -/

/-- What one step can do to the flags `(broken, shut down, encrypted)`: `abort` breaks the
connection and shuts the socket down; the upgrade to TLS encrypts it. -/
inductive FlagStep : Bool × Bool × Bool → Bool × Bool × Bool → Prop
  | abort (b s e : Bool) : FlagStep (b, s, e) (true, true, e)
  | upgrade (b s e : Bool) : FlagStep (b, s, e) (b, s, true)

/-- The flags reachable from `f` by steps of the machine. -/
def FlagsReach (f f' : Bool × Bool × Bool) : Prop := Relation.ReflTransGen FlagStep f f'

theorem FlagStep.le {f f' : Bool × Bool × Bool} (h : FlagStep f f') : f ≤ f' := by
  cases h <;> simp [Prod.le_def]

/-- **Flags never go back**: the order is componentwise, with `false ≤ true`. -/
theorem FlagsReach.le {f f' : Bool × Bool × Bool} (h : FlagsReach f f') : f ≤ f' := by
  induction h with
  | refl => exact le_rfl
  | tail _ hs ih => exact ih.trans hs.le

/-- **Encrypted stays encrypted.** -/
theorem FlagsReach.encrypted {f f' : Bool × Bool × Bool} (h : FlagsReach f f')
    (he : f.2.2 = true) : f'.2.2 = true :=
  (Prod.le_def.mp (Prod.le_def.mp h.le).2).2 he

namespace SmtpConnection

open Io

/-! ### The calls -/

/-- `is_encrypted`: whether the socket under the reader was upgraded to TLS. -/
def isEncrypted (c : SmtpConnection) : Bool := c.stream.inner.encrypted

/-- `quit`. -/
def quit : EStateM Error SmtpConnection Response := trySmtp (command .quit)

/-- `test_connected`: NOOP, and whether it returned `Ok`. A panic is not a `Result` and passes
through. -/
def testConnected : EStateM Error SmtpConnection Bool :=
  tryCatch (do let _ ← command .noop; pure true) fun e =>
    if e = .panic then throw e else pure false

/-- The flags `(has_broken, shut down, is_encrypted)` of a connection. -/
def flags (c : SmtpConnection) : Bool × Bool × Bool :=
  (c.hasBroken, c.stream.inner.shut, c.isEncrypted)

/-- A public call of the connection that talks to the server, with its arguments. -/
inductive Call
  | send (envelope : Envelope) (email : List UInt8)
  | auth (session : Option Session)
  | starttls (helloName : Str)
  | quit
  | abort
  | testConnected
  | message (m : List UInt8)
  | command (cmd : Command)
  | readResponse

/-- The connection a call leaves, whatever it returned; `encode` is `ClientCodec::encode`. -/
def Call.step (encode : List UInt8 → List UInt8) : Call → SmtpConnection → SmtpConnection
  | .send envelope email, c => after (SmtpConnection.send encode envelope email c)
  | .auth session, c => after (SmtpConnection.auth session c)
  | .starttls helloName, c => after (SmtpConnection.starttls helloName c)
  | .quit, c => after (SmtpConnection.quit c)
  | .abort, c => after (SmtpConnection.abort c)
  | .testConnected, c => after (SmtpConnection.testConnected c)
  | .message m, c => after (SmtpConnection.message encode m c)
  | .command cmd, c => after (SmtpConnection.command cmd c)
  | .readResponse, c => after (SmtpConnection.readResponse c)

/-- The connection a run of calls leaves, each call made on what the one before left. -/
def run (encode : List UInt8 → List UInt8) : List Call → SmtpConnection → SmtpConnection
  | [], c => c
  | call :: calls, c => run encode calls (call.step encode c)

/-! ### What each step does to the flags -/

theorem flags_write (bytes : List UInt8) (c : SmtpConnection) :
    flags (after (write bytes c)) = flags c := by
  simp only [write, NetworkStream.write]
  split <;> rfl

theorem ReadFrom.flags_eq {c c' : SmtpConnection} {t : List Event} (h : ReadFrom c c' t) :
    flags c' = flags c := by
  have hs := congrArg NetworkStream.shut h.inner
  have he := congrArg NetworkStream.encrypted h.inner
  simp only [NetworkStream.shut_setReads, NetworkStream.encrypted_setReads] at hs he
  simp [flags, hasBroken, isEncrypted, h.panic, hs, he]

theorem flags_readResponse (c : SmtpConnection) : flags (after (readResponse c)) = flags c := by
  have h := readResponse_answered c
  generalize readResponse c = r at h ⊢
  match r, h with
  | .ok _ _, ⟨_, h⟩ => exact h.flags_eq
  | .error _ _, ⟨_, .inl h⟩ => exact h.flags_eq
  | .error _ _, ⟨_, .inr ⟨_, _, h⟩⟩ => exact h.flags_eq

theorem keeps_discard {α : Type} {P : SmtpConnection → Prop} {x : EStateM Error SmtpConnection α}
    (hx : Keeps P x) : Keeps P (discard x) := by
  intro c hc
  have h := hx c hc
  simp only [discard, Functor.discard, Functor.mapConst, Functor.map, EStateM.map, Function.comp,
    Function.const]
  generalize x c = r at h ⊢
  cases r <;> exact h

theorem flags_command (cmd : Command) (c : SmtpConnection) :
    flags (after (command cmd c)) = flags c :=
  keeps_bind (P := fun c' => flags c' = flags c) (fun _ h => (flags_write _ _).trans h)
    (fun _ _ h => (flags_readResponse _).trans h) c rfl

/-- `abort` breaks the connection and shuts the socket down, and leaves it encrypted or not. -/
theorem flags_abort (c : SmtpConnection) :
    flags (after (abort c)) = (true, true, c.isEncrypted) := by
  obtain ⟨c', ha, hp, hs, -⟩ := abort_quit c
  have he : Keeps (fun c' => c'.isEncrypted = c.isEncrypted) abort := by
    refine keeps_bind keeps_get fun _ => keeps_ite _ ?_ fun _ h => h
    refine keeps_bind (fun _ h => h) fun _ => keeps_bind ?_ fun _ _ h => h
    refine keeps_tryCatch (keeps_discard fun c' h => ?_) fun _ => keeps_pure _
    exact (congrArg (·.2.2) (flags_command _ c')).trans h
  have he' := he c rfl
  simp only [ha, after] at he' ⊢
  simp [flags, hasBroken, hp, hs, he']

/-! ### Every call moves the flags by steps of the machine -/

/-- A program that moves the flags only by steps of the machine, whatever it returns. -/
def Moves {α : Type} (x : EStateM Error SmtpConnection α) : Prop :=
  ∀ f, Keeps (fun c => FlagsReach f (flags c)) x

section Moves

variable {α β : Type}

theorem moves_bind {x : EStateM Error SmtpConnection α} {g : α → EStateM Error SmtpConnection β}
    (hx : Moves x) (hg : ∀ a, Moves (g a)) : Moves (x >>= g) := fun f =>
  keeps_bind (hx f) fun a => hg a f

theorem moves_pure (a : α) : Moves (pure a : EStateM Error SmtpConnection α) := fun _ =>
  keeps_pure a

theorem moves_throw (e : Error) : Moves (throw e : EStateM Error SmtpConnection α) := fun _ =>
  keeps_throw e

theorem moves_ite (p : Prop) [Decidable p] {x y : EStateM Error SmtpConnection α} (hx : Moves x)
    (hy : Moves y) : Moves (if p then x else y) := fun f =>
  keeps_ite p (hx f) (hy f)

theorem moves_of_flags {x : EStateM Error SmtpConnection α}
    (h : ∀ c, flags (after (x c)) = flags c) : Moves x := fun _ c hc => by
  simp only [h c]
  exact hc

end Moves

theorem moves_command (cmd : Command) : Moves (command cmd) := moves_of_flags (flags_command cmd)

theorem moves_message (encode : List UInt8 → List UInt8) (m : List UInt8) :
    Moves (message encode m) :=
  moves_bind (moves_of_flags (flags_write _)) fun _ =>
    moves_bind (moves_of_flags (flags_write _)) fun _ => moves_of_flags flags_readResponse

theorem moves_abort : Moves abort := fun _ c hc => by
  simp only [flags_abort]
  exact Relation.ReflTransGen.tail hc (.abort _ _ _)

theorem moves_trySmtp {α : Type} {x : EStateM Error SmtpConnection α} (hx : Moves x) :
    Moves (trySmtp x) := fun f =>
  keeps_tryCatch (hx f) fun _ =>
    keeps_ite _ (keeps_throw _) (keeps_bind (moves_abort f) fun _ => keeps_throw _)

theorem isEncrypted_of_upgradeTls {c c' : SmtpConnection} (h : upgradeTls c = .ok () c') :
    c'.isEncrypted = true ∧ c'.hasBroken = c.hasBroken ∧
      c'.stream.inner.shut = c.stream.inner.shut := by
  cases hh : c.stream.inner.handshake <;>
    simp only [upgradeTls, NetworkStream.upgradeTls, hh, Bool.false_eq_true, ↓reduceIte,
      reduceCtorEq, EStateM.Result.ok.injEq, true_and] at h
  subst h
  exact ⟨rfl, rfl, rfl⟩

theorem moves_upgradeTls : Moves upgradeTls := fun _ c hc => by
  cases h : upgradeTls c with
  | ok _ c' =>
    obtain ⟨he, hb, hs⟩ := isEncrypted_of_upgradeTls h
    have hf : flags c' = (c.hasBroken, c.stream.inner.shut, true) := by
      simp [flags, he, hb, hs]
    exact hf ▸ hc.tail (.upgrade _ _ _)
  | error _ c' =>
    have : c' = c := by
      cases hh : c.stream.inner.handshake <;>
        simp_all [upgradeTls, NetworkStream.upgradeTls]
    exact this ▸ hc

theorem moves_ehlo (helloName : Str) : Moves (ehlo helloName) := by
  refine moves_bind (moves_trySmtp (moves_command _)) fun R => moves_bind ?_ fun _ _ _ h => h
  refine moves_trySmtp ?_
  split
  · exact moves_pure _
  · exact moves_throw _

theorem moves_starttls (helloName : Str) : Moves (starttls helloName) := fun f =>
  keeps_bind keeps_get fun _ => keeps_ite _
    (moves_bind (moves_trySmtp (moves_command _)) (fun _ =>
      moves_bind moves_upgradeTls fun _ => moves_trySmtp (moves_ehlo _)) f)
    (keeps_throw _)

theorem moves_rcptLoop : ∀ rs : List Str, Moves (rcptLoop rs)
  | [] => moves_pure ()
  | _ :: rs => moves_bind (moves_trySmtp (moves_command _)) fun _ => moves_rcptLoop rs

theorem moves_send (encode : List UInt8 → List UInt8) (envelope : Envelope) (email : List UInt8) :
    Moves (send encode envelope email) := fun f => by
  refine keeps_bind keeps_get fun _ => ?_
  split
  · exact keeps_throw _
  · exact moves_bind (moves_trySmtp (moves_command _)) (fun _ =>
      moves_bind (moves_rcptLoop _) fun _ => moves_bind (moves_trySmtp (moves_command _)) fun _ =>
        moves_trySmtp (moves_message _ _)) f

theorem moves_auth (session : Option Session) : Moves (auth session) := fun f =>
  keeps_auth (fun _ => moves_command _ f) (fun _ => moves_trySmtp (moves_command _) f) session

theorem moves_quit : Moves quit := moves_trySmtp (moves_command _)

theorem moves_testConnected : Moves testConnected := fun f =>
  keeps_tryCatch (moves_bind (moves_command _) (fun _ => moves_pure _) f) fun _ =>
    keeps_ite _ (keeps_throw _) (keeps_pure _)

theorem reaches_step (encode : List UInt8 → List UInt8) (f : Bool × Bool × Bool) :
    ∀ (call : Call) (c : SmtpConnection), FlagsReach f (flags c) →
      FlagsReach f (flags (call.step encode c))
  | .send envelope email => moves_send encode envelope email f
  | .auth session => moves_auth session f
  | .starttls helloName => moves_starttls helloName f
  | .quit => moves_quit f
  | .abort => moves_abort f
  | .testConnected => moves_testConnected f
  | .message m => moves_message encode m f
  | .command cmd => moves_command cmd f
  | .readResponse => moves_of_flags flags_readResponse f

/-- **A run refines the flag machine**: from every connection, the flags a run of calls leaves
are reached from the flags before by steps of the machine. -/
theorem reaches_run (encode : List UInt8 → List UInt8) :
    ∀ (calls : List Call) (c : SmtpConnection), FlagsReach (flags c) (flags (run encode calls c))
  | [], _ => .refl
  | call :: calls, c =>
    (reaches_step encode _ call c .refl).trans (reaches_run encode calls (call.step encode c))

/-! ### What every run keeps -/

/-- **Flags never go back.** Over every run of calls, from every connection, a broken connection
stays broken, a shut socket stays shut, and an encrypted connection stays encrypted. -/
theorem run_flags_le (encode : List UInt8 → List UInt8) (calls : List Call) (c : SmtpConnection) :
    flags c ≤ flags (run encode calls c) :=
  (reaches_run encode calls c).le

end SmtpConnection

end Lettre.Smtp
