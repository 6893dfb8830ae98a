import Lettre.Transport.Smtp.Client
import Lettre.Transport.Smtp.GetReply
import Lettre.Transport.Smtp.Commands
import Lettre.Smtp.Send
import Lettre.Smtp.Auth
import Lettre.Smtp.StartTls
import Lettre.Smtp.Flags
import Lettre.Message.Dkim.Body
import Lettre.Message.Header.Encoder
import Lettre.Message.Header.Store
import Lettre.Message.Mailbox.Types
import Lettre.Message.Mailbox.Rfc2822
import Lettre.Envelope
