import Lettre.Smtp.Response
import Lettre.Io.BufReader

/-!
# Errors of the SMTP connection

The errors `SmtpConnection` returns, from `transport::smtp::error`. That module is not part of
the source: the constructors are modelled from the calls the source makes (`error::network`,
`error::response`, `error::code`, `error::client`, and the `?` on `upgrade_tls` and on the SASL
steps), each with the data the call passes.
-/

namespace Lettre.Smtp

/-- The errors of `transport::smtp::error`, with a constructor for a panic of the calling thread,
which ends a run of the model where it would end the program. -/
inductive Error
  /-- `error::network`: an I/O error of the socket. -/
  | network (e : Io.IoError)
  /-- `error::response` with a literal text. -/
  | response (msg : String)
  /-- `error::response(e.to_string())` for a nom error; the text is nom's and not modelled. -/
  | parse
  /-- `error::code`: a negative reply, its code and its lines. -/
  | code (c : Code) (message : List Str)
  /-- `error::client`. -/
  | client (msg : String)
  /-- What `?` makes of an error of `upgrade_tls`. -/
  | tls
  /-- What `?` makes of an error of the SASL mechanism. -/
  | sasl
  /-- The thread panics. -/
  | panic
  deriving DecidableEq

end Lettre.Smtp
