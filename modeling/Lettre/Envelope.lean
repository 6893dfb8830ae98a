import Lettre.Smtp.Send
import Lettre.Message.Header.Store
import Lettre.Message.Mailbox.Types

/-!
# The envelope of a message

`lib.rs`: `Envelope::new` refuses an empty list of recipients with `Error::MissingTo`, and
`TryFrom<&Headers> for Envelope` builds the envelope of a message from its headers. The sender
is the address of the `Sender` header, or else the first address of `From`; the recipients are
the addresses of `To`, then of `Cc`, then of `Bcc`. The envelope is `Smtp.Envelope`, the one
`SmtpConnection::send` takes, which keeps its non-empty list of recipients as a field.

The header types `Sender`, `From`, `To`, `Cc` and `Bcc` live in a module that is not part of the
source, so they are parameters, each a `Header` of a mailbox or of a list of mailboxes.
`try_from` calls `unwrap` on the first mailbox of `From`, which panics on an empty list; a run
that panics is `none`.

* `tryFrom_of_fromStr`: when `From` is read with `FromStr for Mailboxes`, which never returns an
  empty list, `try_from` never panics, and it returns `Envelope::new` of the `Sender` address, or
  else the first `From` address, and of the addresses of `To`, `Cc` and `Bcc` in this order.
-/

namespace Lettre

/-- `crate::error::Error`, from a module that is not part of the source: the variant `lib.rs`
returns. -/
inductive Error
  | missingTo
  deriving DecidableEq, Repr

namespace Smtp

open Message

/-- `Envelope::new`: an empty list of recipients is refused. -/
def Envelope.new («from» : Option Str) («to» : List Str) : Except Lettre.Error Envelope :=
  if h : «to».isEmpty then .error .missingTo
  else .ok ⟨«to», «from», fun he => h (he ▸ rfl)⟩

/-- The typed headers `try_from` reads: `Sender` holds a mailbox, the others a list. -/
structure EnvelopeHeaders where
  sender : Header (Mailbox Str)
  «from» : Header (List (Mailbox Str))
  «to» : Header (List (Mailbox Str))
  cc : Header (List (Mailbox Str))
  bcc : Header (List (Mailbox Str))

/-- `add_addresses_from_mailboxes`: the address of each mailbox pushed, in order. -/
def addAddressesFromMailboxes (addresses : List Str) :
    Option (List (Mailbox Str)) → List Str
  | some mailboxes =>
    mailboxes.foldl (fun addresses mailbox => addresses ++ [mailbox.email]) addresses
  | none => addresses

/-- `TryFrom<&Headers> for Envelope`; `none` where `unwrap` panics on a `From` header that holds
no mailbox. -/
def Envelope.tryFrom (hs : EnvelopeHeaders) (headers : Headers) :
    Option (Except Lettre.Error Envelope) := do
  let «from» ← match headers.get hs.sender with
    | some a => some (some a.email)
    | none =>
      match headers.get hs.from with
      | some a => a.head?.map fun mailbox => some mailbox.email
      | none => some none
  let «to» := addAddressesFromMailboxes [] (headers.get hs.to)
  let «to» := addAddressesFromMailboxes «to» (headers.get hs.cc)
  let «to» := addAddressesFromMailboxes «to» (headers.get hs.bcc)
  pure (Envelope.new «from» «to»)

/-! ### What `try_from` returns -/

theorem addAddressesFromMailboxes_eq (addresses : List Str)
    (mailboxes : Option (List (Mailbox Str))) : addAddressesFromMailboxes addresses mailboxes =
      addresses ++ (mailboxes.getD []).map (·.email) := by
  cases mailboxes with
  | none => simp [addAddressesFromMailboxes]
  | some mailboxes =>
    induction mailboxes generalizing addresses with
    | nil => simp [addAddressesFromMailboxes]
    | cons m ms ih => simpa [addAddressesFromMailboxes] using ih (addresses ++ [m.email])

section FromStr

variable {addressFromStr : List UInt8 → Except AddressError Str}
  {decode : List UInt8 → Option (List UInt8)} {header : Header (List (Mailbox Str))}

/-- A header read with `FromStr for Mailboxes` holds a mailbox: the text has no comma or some. -/
theorem get_ne_nil_of_fromStr
    (hparse : ∀ raw, header.parse raw = (Mailboxes.fromStr addressFromStr decode raw).toOption)
    {headers : Headers} {ms : List (Mailbox Str)} (h : headers.get header = some ms) :
    ms ≠ [] := by
  obtain ⟨raw, -, hraw⟩ := Option.bind_eq_some.mp h
  have hok : Mailboxes.fromStr addressFromStr decode raw = .ok ms := by
    rw [hparse] at hraw
    cases hx : Mailboxes.fromStr addressFromStr decode raw <;>
      simp only [hx, Except.toOption, Option.some.injEq, reduceCtorEq] at hraw ⊢
    exact congrArg _ hraw
  intro he
  simpa [he] using Mailboxes.fromStr_length addressFromStr decode hok

/-- **`try_from` on `From` headers read by `FromStr for Mailboxes`.** Such a header never holds
an empty list, so the `unwrap` never panics: on every store of headers, `try_from` returns
`Envelope::new` of the `Sender` address, or else the first `From` address, and of the addresses
of `To`, `Cc` and `Bcc`, in this order. -/
theorem tryFrom_of_fromStr (hs : EnvelopeHeaders)
    (hfrom : ∀ raw, hs.from.parse raw = (Mailboxes.fromStr addressFromStr decode raw).toOption)
    (headers : Headers) :
    Envelope.tryFrom hs headers = some (Envelope.new
      (((headers.get hs.sender).map (·.email)).orElse fun _ =>
        ((headers.get hs.from).bind List.head?).map (·.email))
      ([hs.to, hs.cc, hs.bcc].flatMap fun h => ((headers.get h).getD []).map (·.email))) := by
  simp only [Envelope.tryFrom, addAddressesFromMailboxes_eq, List.flatMap_cons, List.flatMap_nil,
    List.nil_append, List.append_nil, List.append_assoc]
  cases hsender : headers.get hs.sender with
  | some a => rfl
  | none =>
    cases hf : headers.get hs.from with
    | none => rfl
    | some ms =>
      obtain ⟨m, rest, rfl⟩ := List.exists_cons_of_ne_nil (get_ne_nil_of_fromStr hfrom hf)
      rfl

end FromStr

/-- Header types read with `FromStr for Mailboxes` and an address parser that reads a UTF-8 text,
on a store holding `From: a@x` and `To: b@x`: the sender is the first `From` address. -/
theorem tryFrom_of_fromStr_from :
    let addressFromStr : List UInt8 → Except AddressError Str := fun b =>
      match fromUtf8 b with
      | some s => .ok s
      | none => .error .parse
    let mailboxes (name : HeaderName) : Header (List (Mailbox Str)) :=
      ⟨name, fun raw => (Mailboxes.fromStr addressFromStr some raw).toOption,
        fun _ => ⟨name, [], []⟩⟩
    let sender : HeaderName := ⟨ascii "Sender", by decide⟩
    let hs : EnvelopeHeaders := ⟨⟨sender, fun _ => none, fun _ => ⟨sender, [], []⟩⟩,
      mailboxes ⟨ascii "From", by decide⟩, mailboxes ⟨ascii "To", by decide⟩,
      mailboxes ⟨ascii "Cc", by decide⟩, mailboxes ⟨ascii "Bcc", by decide⟩⟩
    let headers := (Headers.new.insertRaw ⟨⟨ascii "From", by decide⟩, ascii "a@x", ascii "a@x"⟩
      ).insertRaw ⟨⟨ascii "To", by decide⟩, ascii "b@x", ascii "b@x"⟩
    (∀ raw, hs.from.parse raw = (Mailboxes.fromStr addressFromStr some raw).toOption) ∧
      Envelope.tryFrom hs headers =
        some (Envelope.new (some ⟨ascii "a@x", by decide⟩) [⟨ascii "b@x", by decide⟩]) := by
  intro addressFromStr mailboxes sender hs headers
  exact ⟨fun _ => rfl, (tryFrom_of_fromStr hs (fun _ => rfl) headers).trans rfl⟩

end Smtp

end Lettre
