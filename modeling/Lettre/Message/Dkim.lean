import Lettre.Message.Header
import Lettre.Utf8
import Mathlib.Data.List.DropRight

/-!
# DKIM signing

`message/dkim.rs`: `dkim_sign` adds a `DKIM-Signature` header to a message. It canonicalizes the
body and hashes it (`bh=`). It canonicalizes the headers the configuration names, then a
`DKIM-Signature` header with an empty `b=`, and hashes the two texts together (`to_be_signed`).
It signs that hash with the configured key (`b=`). Headers and body each have their own
canonicalization, `simple` or `relaxed`; the key is RSA or Ed25519.

The hash, base64 and the two signing operations come from other crates (`sha2`, `base64`, `rsa`,
`ed25519_dalek`). They are the fields of a `DkimCrypto`, and every result holds for all of them.
A key is kept as the text it is parsed from: the parse belongs to those crates, and the panic of
its `unwrap` on a key they reject is left out. The timestamp is the clock's reading, an argument.
The regular expressions are written as the scans they perform:
* `[\t ]+` replaced by one space (`collapseWsp`);
* `[\t ]\r\n` replaced by CRLF (`removeWspEol`);
* `(\r\n)+$` replaced by one CRLF at its leftmost match (`replaceTrailingCrlf`).

Against this model the file states what an RFC 6376 verifier hashes from the message as it is
sent (`verifierHeaderInput`). The two differ:

* `toBeSigned_eq`, `dkimSign_eq`: what the signer hashes, for every message and configuration,
  and the header it appends. Canonicalization never panics.
* `new_consistent_iff`: `DkimConfig::new` builds an RSA key whatever algorithm it is given, so
  with `Ed25519` the signer signs with RSA under `a=ed25519-sha256`
  (`new_ed25519_signs_with_rsa`). `default_config` and `update_key` keep the key and the tag in
  step.
* `simple_field_diverges`: the signer reads the top-most instance of a header, a verifier the
  bottom-most. In `simple` mode the signer also writes the name as configured, where a verifier
  reads the name as sent.
* `relaxed_leading_wsp_diverges`: in `relaxed` mode the signer keeps the whitespace a value starts
  with, where a verifier deletes it.
-/

namespace Lettre.Message

open Utf8 (trimEnd prefix_trimEnd)

/-! ### Configuration -/

/-- `DkimCanonicalizationType`. -/
inductive DkimCanonicalizationType
  | simple
  | relaxed
  deriving DecidableEq, Repr

/-- `Display for DkimCanonicalizationType`. -/
def DkimCanonicalizationType.display : DkimCanonicalizationType → List UInt8
  | .simple => ascii "simple"
  | .relaxed => ascii "relaxed"

/-- `DkimCanonicalization`: the canonicalization of the headers, and that of the body. -/
structure DkimCanonicalization where
  header : DkimCanonicalizationType
  body : DkimCanonicalizationType
  deriving DecidableEq, Repr

/-- `Display for DkimCanonicalization`: `header/body`. -/
def DkimCanonicalization.display (self : DkimCanonicalization) : List UInt8 :=
  self.header.display ++ ascii "/" ++ self.body.display

/-- `DkimSigningAlgorithm`. -/
inductive DkimSigningAlgorithm
  | rsa
  | ed25519
  deriving DecidableEq, Repr

/-- `Display for DkimSigningAlgorithm`. -/
def DkimSigningAlgorithm.display : DkimSigningAlgorithm → List UInt8
  | .rsa => ascii "rsa"
  | .ed25519 => ascii "ed25519"

/-- `DkimSigningKey`, each key with the text it is parsed from. -/
inductive DkimSigningKey
  | rsa (privateKey : List UInt8)
  | ed25519 (privateKey : List UInt8)
  deriving DecidableEq, Repr

/-- `DkimSigningKey::new`: the key of the given algorithm. -/
def DkimSigningKey.new (privateKey : List UInt8) : DkimSigningAlgorithm → DkimSigningKey
  | .rsa => .rsa privateKey
  | .ed25519 => .ed25519 privateKey

/-- The algorithm a key signs with. -/
def DkimSigningKey.algorithm : DkimSigningKey → DkimSigningAlgorithm
  | .rsa _ => .rsa
  | .ed25519 _ => .ed25519

/-- `DkimConfig`. -/
structure DkimConfig where
  selector : List UInt8
  domain : List UInt8
  privateKey : DkimSigningKey
  headers : List (List UInt8)
  canonicalization : DkimCanonicalization
  signingAlgorithm : DkimSigningAlgorithm

/-- `DkimConfig::default_config`: `From`, `Subject`, `To` and `Date`, `simple/relaxed`, RSA. -/
def DkimConfig.defaultConfig (selector domain privateKey : List UInt8) : DkimConfig where
  selector := selector
  domain := domain
  privateKey := .new privateKey .rsa
  headers := [ascii "From", ascii "Subject", ascii "To", ascii "Date"]
  canonicalization := ⟨.simple, .relaxed⟩
  signingAlgorithm := .rsa

/-- `DkimConfig::update_key`. -/
def DkimConfig.updateKey (self : DkimConfig) (privateKey : List UInt8)
    (algorithm : DkimSigningAlgorithm) : DkimConfig :=
  { self with signingAlgorithm := algorithm, privateKey := .new privateKey algorithm }

/-- `DkimConfig::new`: the key is made with `DkimSigningAlgorithm::Rsa`, whatever
`signing_algorithm` is. -/
def DkimConfig.new (selector domain privateKey : List UInt8) (headers : List (List UInt8))
    (canonicalization : DkimCanonicalization) (signingAlgorithm : DkimSigningAlgorithm) :
    DkimConfig where
  selector := selector
  domain := domain
  privateKey := .new privateKey .rsa
  headers := headers
  canonicalization := canonicalization
  signingAlgorithm := signingAlgorithm

/-- The invariant the specification asks of a configuration: the algorithm tag and the key
agree. -/
def DkimConfig.Consistent (self : DkimConfig) : Prop :=
  self.privateKey.algorithm = self.signingAlgorithm

theorem defaultConfig_consistent (selector domain privateKey : List UInt8) :
    (DkimConfig.defaultConfig selector domain privateKey).Consistent :=
  rfl

theorem updateKey_consistent (self : DkimConfig) (privateKey : List UInt8)
    (algorithm : DkimSigningAlgorithm) : (self.updateKey privateKey algorithm).Consistent := by
  cases algorithm <;> rfl

/-- **`new` keeps the tag and the key in step only for RSA.** -/
theorem new_consistent_iff (selector domain privateKey : List UInt8) (headers : List (List UInt8))
    (canonicalization : DkimCanonicalization) (signingAlgorithm : DkimSigningAlgorithm) :
    (DkimConfig.new selector domain privateKey headers canonicalization signingAlgorithm).Consistent
      ↔ signingAlgorithm = .rsa := by
  cases signingAlgorithm <;> simp [DkimConfig.Consistent, DkimConfig.new, DkimSigningKey.new,
    DkimSigningKey.algorithm]

/-! ### Canonicalization -/

/-- `[\t ]`. -/
def isWsp (b : UInt8) : Bool := decide (b = 9 ∨ b = 32)

/-- The scan of `Regex::replace_all` of `[\t ]+` by a space: each maximal run of tabs and spaces
becomes one space. `inRun` says the byte before was in a run. -/
def collapseWsp (inRun : Bool) : List UInt8 → List UInt8
  | [] => []
  | b :: s =>
    if isWsp b then
      if inRun then collapseWsp true s else 32 :: collapseWsp true s
    else b :: collapseWsp false s

/-- The scan of `Regex::replace_all` of `[\t ]\r\n` by CRLF, leftmost match first: a tab or space
before a line end is dropped. `skip` counts the bytes of the line end just written that are still
to be passed over. -/
def removeWspEolAux : Nat → List UInt8 → List UInt8
  | _, [] => []
  | skip + 1, _ :: s => removeWspEolAux skip s
  | 0, b :: s =>
    if isWsp b ∧ [13, 10] <+: s then 13 :: 10 :: removeWspEolAux 2 s else b :: removeWspEolAux 0 s

/-- `Regex::replace_all` of `[\t ]\r\n` by CRLF. -/
def removeWspEol (s : List UInt8) : List UInt8 := removeWspEolAux 0 s

/-- `(\r\n)+` up to the end: one CRLF or more, and nothing else. -/
def isCrlfRun : List UInt8 → Bool
  | [13, 10] => true
  | 13 :: 10 :: s => isCrlfRun s
  | _ => false

/-- `Regex::replace` of `(\r\n)+$` by one CRLF: only the leftmost match, the first position from
which the rest is CRLFs. -/
def replaceTrailingCrlf : List UInt8 → List UInt8
  | [] => []
  | b :: s => if isCrlfRun (b :: s) then [13, 10] else b :: replaceTrailingCrlf s

/-- `dkim_canonicalize_body`. -/
def dkimCanonicalizeBody (body : List UInt8) : DkimCanonicalizationType → List UInt8
  | .simple => replaceTrailingCrlf body
  | .relaxed => replaceTrailingCrlf (removeWspEol (collapseWsp false body))

/-- `dkim_canonicalize_header_value`: the value itself for `simple`. For `relaxed`, every CRLF
is deleted, each run of tabs and spaces becomes one space, the end is trimmed (`str::trim_end`),
and a CRLF is appended. -/
def dkimCanonicalizeHeaderValue (value : List UInt8) : DkimCanonicalizationType → List UInt8
  | .simple => value
  | .relaxed => trimEnd (collapseWsp false (replace value [13, 10] [])) ++ [13, 10]

/-- One turn of the loop of `dkim_canonicalize_headers`. The state holds the headers kept for
`simple` and the text built for `relaxed`; `none` is the panic of `HeaderName::new_from_ascii(h)
.unwrap()`. -/
def canonicalizeHeader (encode : Nat → List UInt8 → List UInt8) (mailHeaders : Headers)
    (canonicalization : DkimCanonicalizationType) (state : Headers × List UInt8)
    (h : List UInt8) : Option (Headers × List UInt8) :=
  let h := match canonicalization with
    | .simple => h
    | .relaxed => toLowercase h
  match mailHeaders.getRaw h with
  | none => some state
  | some value =>
    match canonicalization with
    | .simple => (HeaderName.newFromAscii h).map fun name =>
        (state.1.appendRaw encode name (dkimCanonicalizeHeaderValue value .simple), state.2)
    | .relaxed =>
      some (state.1, state.2 ++ h ++ ascii ":" ++ dkimCanonicalizeHeaderValue value .relaxed)

/-- `dkim_canonicalize_headers`: for `simple` the `Display` of the headers kept, for `relaxed`
the text built. -/
def dkimCanonicalizeHeaders (encode : Nat → List UInt8 → List UInt8)
    (headersList : List (List UInt8)) (mailHeaders : Headers)
    (canonicalization : DkimCanonicalizationType) : Option (List UInt8) :=
  (headersList.foldlM (canonicalizeHeader encode mailHeaders canonicalization)
    (Headers.new, [])).map fun state =>
      match canonicalization with
      | .simple => state.1.display
      | .relaxed => state.2

/-! ### Signing -/

/-- The primitives of other crates that `dkim_sign` calls: `Sha256::digest`, `base64::encode`,
and the signing of `rsa` (PKCS#1 v1.5 over SHA-256) and of `ed25519_dalek`, each with the text of
its key. -/
structure DkimCrypto where
  digest : List UInt8 → List UInt8
  base64 : List UInt8 → List UInt8
  signRsa : List UInt8 → List UInt8 → List UInt8
  signEd25519 : List UInt8 → List UInt8 → List UInt8

end Lettre.Message

namespace Lettre

/-- The parts of a `Message` the signer reads and writes: its headers and the raw bytes of its
body (`Message::body_raw`). Modelled from the source's uses: `message/mod.rs` is not part of the
source. -/
structure Message where
  headers : Message.Headers
  body : List UInt8

end Lettre

namespace Lettre.Message

open Utf8 (trimEnd prefix_trimEnd)

/-- `HeaderName::new_from_ascii_str("DKIM-Signature")`. -/
def dkimSignatureName : HeaderName := ⟨ascii "DKIM-Signature", by decide⟩

/-- `HeaderName::new_from_ascii_str("dkim-signature")`. -/
def dkimSignatureLowerName : HeaderName := ⟨ascii "dkim-signature", by decide⟩

/-- The value `dkim_header_format` gives the `DKIM-Signature`: its `format!`. -/
def dkimTags (config : DkimConfig) (timestamp headersList bodyHash signature : List UInt8) :
    List UInt8 :=
  ascii "v=1; a=" ++ config.signingAlgorithm.display ++ ascii "-sha256; d=" ++ config.domain ++
    ascii "; s=" ++ config.selector ++ ascii "; c=" ++ config.canonicalization.display ++
    ascii "; q=dns/txt; t=" ++ timestamp ++ ascii "; h=" ++ headersList ++ ascii "; bh=" ++
    bodyHash ++ ascii "; b=" ++ signature

/-- `dkim_header_format`: headers holding the one `DKIM-Signature`, named in the case of the
header canonicalization. -/
def dkimHeaderFormat (encode : Nat → List UInt8 → List UInt8) (config : DkimConfig)
    (timestamp headersList bodyHash signature : List UInt8) : Headers :=
  let headerName := match config.canonicalization.header with
    | .simple => dkimSignatureName
    | .relaxed => dkimSignatureLowerName
  Headers.new.appendRaw encode headerName (dkimTags config timestamp headersList bodyHash signature)

/-- `signed_headers_list` of `dkim_sign`: the names joined by `:`, lowercased for `relaxed`. -/
def signedHeadersList (config : DkimConfig) : List UInt8 :=
  match config.canonicalization.header with
  | .simple => [58].intercalate config.headers
  | .relaxed => toLowercase ([58].intercalate config.headers)

/-- `bh` of `dkim_sign`: the canonicalized body, hashed, in base64. -/
def bodyHash (crypto : DkimCrypto) (message : Message) (config : DkimConfig) : List UInt8 :=
  crypto.base64 (crypto.digest (dkimCanonicalizeBody message.body config.canonicalization.body))

/-- `to_be_signed` of `dkim_sign`: the canonicalized signed headers, then the canonicalized
`DKIM-Signature` with an empty `b=`, trimmed at the end. -/
def toBeSigned (encode : Nat → List UInt8 → List UInt8) (crypto : DkimCrypto)
    (timestamp : List UInt8) (message : Message) (dkimConfig : DkimConfig) :
    Option (List UInt8) := do
  let dkimHeader := dkimHeaderFormat encode dkimConfig timestamp (signedHeadersList dkimConfig)
    (bodyHash crypto message dkimConfig) []
  let signedHeaders ← dkimCanonicalizeHeaders encode dkimConfig.headers message.headers
    dkimConfig.canonicalization.header
  let canonicalizedDkimHeader ← dkimCanonicalizeHeaders encode [ascii "DKIM-Signature"]
    dkimHeader dkimConfig.canonicalization.header
  pure (trimEnd (signedHeaders ++ canonicalizedDkimHeader))

/-- The `signature` of `dkim_sign`: the hashed headers signed with the key, in base64. -/
def DkimSigningKey.signature (crypto : DkimCrypto) (key : DkimSigningKey)
    (hashedHeaders : List UInt8) : List UInt8 :=
  match key with
  | .rsa privateKey => crypto.base64 (crypto.signRsa privateKey hashedHeaders)
  | .ed25519 privateKey => crypto.base64 (crypto.signEd25519 privateKey hashedHeaders)

/-- `dkim_sign`: the message with its `DKIM-Signature` appended. -/
def dkimSign (encode : Nat → List UInt8 → List UInt8) (crypto : DkimCrypto)
    (timestamp : List UInt8) (message : Message) (dkimConfig : DkimConfig) : Option Message := do
  let toBeSigned ← toBeSigned encode crypto timestamp message dkimConfig
  let signature := dkimConfig.privateKey.signature crypto (crypto.digest toBeSigned)
  let dkimHeader := dkimHeaderFormat encode dkimConfig timestamp (signedHeadersList dkimConfig)
    (bodyHash crypto message dkimConfig) signature
  let value ← dkimHeader.getRaw (ascii "DKIM-Signature")
  pure { message with headers := message.headers.appendRaw encode dkimSignatureName value }

/-! ### What the signer hashes -/

section Signer

variable (encode : Nat → List UInt8 → List UInt8) (mailHeaders : Headers)

/-- What the signer writes for one name of the list: the top-most header of that name,
canonicalized, or nothing when the message has none. -/
def signedField : DkimCanonicalizationType → List UInt8 → List UInt8
  | .simple, h =>
    match mailHeaders.getRaw h with
    | none => []
    | some value => h ++ ascii ": " ++ encode (h.length + 2) value ++ [13, 10]
  | .relaxed, h =>
    match mailHeaders.getRaw (toLowercase h) with
    | none => []
    | some value => toLowercase h ++ ascii ":" ++ dkimCanonicalizeHeaderValue value .relaxed

theorem signedField_simple_eq {h value : List UInt8} (hv : mailHeaders.getRaw h = some value) :
    signedField encode mailHeaders .simple h =
      h ++ ascii ": " ++ encode (h.length + 2) value ++ [13, 10] := by
  simp [signedField, hv]

theorem signedField_relaxed_eq {h value : List UInt8} (hv : mailHeaders.getRaw h = some value) :
    signedField encode mailHeaders .relaxed h =
      toLowercase h ++ ascii ":" ++ dkimCanonicalizeHeaderValue value .relaxed := by
  simp [signedField, hv]

/-- A `simple` field starts with the name and its colon. -/
theorem prefix_signedField_simple {h value : List UInt8} (hv : mailHeaders.getRaw h = some value) :
    h ++ [58] <+: signedField encode mailHeaders .simple h := by
  simp [signedField_simple_eq encode mailHeaders hv, show ascii ": " = [58, 32] from rfl]

/-- A `relaxed` field starts with the lowercased name and its colon. -/
theorem prefix_signedField_relaxed {h value : List UInt8} (hv : mailHeaders.getRaw h = some value) :
    toLowercase h ++ [58] <+: signedField encode mailHeaders .relaxed h := by
  simp [signedField_relaxed_eq encode mailHeaders hv, show ascii ":" = [58] from rfl]

theorem canonicalizeHeader_simple (hs : Headers) (acc h : List UInt8) :
    ∃ hs', canonicalizeHeader encode mailHeaders .simple (hs, acc) h = some (hs', acc) ∧
      hs'.display = hs.display ++ signedField encode mailHeaders .simple h := by
  simp only [canonicalizeHeader, signedField]
  cases hv : mailHeaders.getRaw h with
  | none => exact ⟨hs, rfl, by simp⟩
  | some value =>
    obtain ⟨v, hv', -⟩ := Option.map_eq_some'.mp hv
    have hvalid := isValid_of_eqIgnoreAsciiCase (findHeader_eqIgnoreAsciiCase hv').2
    refine ⟨hs.appendRaw encode ⟨h, hvalid⟩ value, ?_, by rw [display_appendRaw]; rfl⟩
    simp [HeaderName.newFromAscii, hvalid, dkimCanonicalizeHeaderValue]

theorem canonicalizeHeader_relaxed (hs : Headers) (acc h : List UInt8) :
    canonicalizeHeader encode mailHeaders .relaxed (hs, acc) h =
      some (hs, acc ++ signedField encode mailHeaders .relaxed h) := by
  simp only [canonicalizeHeader, signedField]
  cases mailHeaders.getRaw (toLowercase h) <;> simp

theorem foldlM_canonicalizeHeader_simple :
    ∀ (l : List (List UInt8)) (hs : Headers) (acc : List UInt8), ∃ hs',
      l.foldlM (canonicalizeHeader encode mailHeaders .simple) (hs, acc) = some (hs', acc) ∧
        hs'.display = hs.display ++ (l.map (signedField encode mailHeaders .simple)).flatten
  | [], hs, _ => ⟨hs, rfl, by simp⟩
  | h :: l, hs, acc => by
    obtain ⟨hs₁, e₁, d₁⟩ := canonicalizeHeader_simple encode mailHeaders hs acc h
    obtain ⟨hs₂, e₂, d₂⟩ := foldlM_canonicalizeHeader_simple l hs₁ acc
    exact ⟨hs₂, by simp [e₁, e₂], by simp [d₂, d₁]⟩

theorem foldlM_canonicalizeHeader_relaxed :
    ∀ (l : List (List UInt8)) (hs : Headers) (acc : List UInt8),
      l.foldlM (canonicalizeHeader encode mailHeaders .relaxed) (hs, acc) =
        some (hs, acc ++ (l.map (signedField encode mailHeaders .relaxed)).flatten)
  | [], _, _ => by simp
  | h :: l, hs, acc => by
    simp [canonicalizeHeader_relaxed, foldlM_canonicalizeHeader_relaxed l]

/-- **Canonicalizing the headers never panics**: it is the fields of the names, in order. -/
theorem dkimCanonicalizeHeaders_eq (headersList : List (List UInt8))
    (c : DkimCanonicalizationType) :
    dkimCanonicalizeHeaders encode headersList mailHeaders c =
      some (headersList.map (signedField encode mailHeaders c)).flatten := by
  cases c with
  | simple =>
    obtain ⟨hs, e, d⟩ :=
      foldlM_canonicalizeHeader_simple encode mailHeaders headersList Headers.new []
    simp [dkimCanonicalizeHeaders, e, d]
  | relaxed => simp [dkimCanonicalizeHeaders, foldlM_canonicalizeHeader_relaxed]

end Signer

theorem dkimHeaderFormat_getRaw (encode : Nat → List UInt8 → List UInt8) (config : DkimConfig)
    (timestamp headersList bodyHash signature : List UInt8) :
    (dkimHeaderFormat encode config timestamp headersList bodyHash signature).getRaw
      (ascii "DKIM-Signature") =
        some (dkimTags config timestamp headersList bodyHash signature) := by
  unfold dkimHeaderFormat
  split <;> rfl

section Sign

variable (encode : Nat → List UInt8 → List UInt8) (crypto : DkimCrypto) (timestamp : List UInt8)
  (message : Message) (config : DkimConfig)

/-- **What the signer hashes.** The fields of the configured names, then the field of the
`DKIM-Signature` with an empty `b=`, trimmed at the end. -/
theorem toBeSigned_eq :
    toBeSigned encode crypto timestamp message config = some (trimEnd
      ((config.headers.map
        (signedField encode message.headers config.canonicalization.header)).flatten ++
        signedField encode (dkimHeaderFormat encode config timestamp (signedHeadersList config)
          (bodyHash crypto message config) []) config.canonicalization.header
          (ascii "DKIM-Signature"))) := by
  simp [toBeSigned, dkimCanonicalizeHeaders_eq]

/-- **The header the signer appends.** `dkim_sign` always returns, and appends one
`DKIM-Signature`, whose `b=` is the key's signature of the hash of `to_be_signed`. -/
theorem dkimSign_eq : ∃ t, toBeSigned encode crypto timestamp message config = some t ∧
    dkimSign encode crypto timestamp message config = some { message with
      headers := message.headers.appendRaw encode dkimSignatureName
        (dkimTags config timestamp (signedHeadersList config) (bodyHash crypto message config)
          (config.privateKey.signature crypto (crypto.digest t))) } := by
  obtain ⟨t, ht⟩ : ∃ t, toBeSigned encode crypto timestamp message config = some t :=
    ⟨_, toBeSigned_eq encode crypto timestamp message config⟩
  exact ⟨t, ht, by simp [dkimSign, ht, dkimHeaderFormat_getRaw]⟩

/-- **The signer's input starts with the signed fields.** `trim_end` cuts only the end of the
`DKIM-Signature` field, which comes after them and holds a colon. -/
theorem prefix_toBeSigned {t p : List UInt8}
    (ht : toBeSigned encode crypto timestamp message config = some t)
    (hp : p <+: (config.headers.map
      (signedField encode message.headers config.canonicalization.header)).flatten) :
    p <+: t := by
  rw [toBeSigned_eq] at ht
  cases ht
  have hraw := dkimHeaderFormat_getRaw encode config timestamp (signedHeadersList config)
    (bodyHash crypto message config) []
  obtain ⟨name, hname⟩ : ∃ name, name ++ [58] <+: signedField encode (dkimHeaderFormat encode config
      timestamp (signedHeadersList config) (bodyHash crypto message config) [])
      config.canonicalization.header (ascii "DKIM-Signature") := by
    cases config.canonicalization.header
    · exact ⟨_, prefix_signedField_simple encode _ hraw⟩
    · exact ⟨_, prefix_signedField_relaxed encode _ hraw⟩
  have hD := (List.prefix_append_right_inj (config.headers.map
    (signedField encode message.headers config.canonicalization.header)).flatten).mpr hname
  rw [← List.append_assoc] at hD
  exact (hp.trans ((List.prefix_append _ _).trans (List.prefix_append _ _))).trans
    (prefix_trimEnd (by decide) hD)

end Sign

/-! ### What a verifier hashes -/

/-- The bottom-most element that satisfies `p`, and the list without it. -/
def takeLast {α : Type} (p : α → Bool) : List α → Option (α × List α)
  | [] => none
  | x :: xs =>
    match takeLast p xs with
    | some (y, ys) => some (y, x :: ys)
    | none => if p x then some (x, xs) else none

/-- The bottom-most header of a name, up to ASCII case. -/
def Headers.findLast (self : Headers) (name : List UInt8) : Option HeaderValue :=
  self.headers.reverse.find? fun value => eqIgnoreAsciiCase name value.name.name

/-- RFC 6376 §5.4.2: for each name of the `h=` list, in order, the bottom-most instance of that
header not used yet; a name with no instance left adds nothing. -/
def selectHeaders (names : List (List UInt8)) (headers : List HeaderValue) : List HeaderValue :=
  match names with
  | [] => []
  | n :: ns =>
    match takeLast (fun v => eqIgnoreAsciiCase n v.name.name) headers with
    | none => selectHeaders ns headers
    | some (v, rest) => v :: selectHeaders ns rest

/-- Tabs and spaces deleted at both ends. -/
def trimWsp (s : List UInt8) : List UInt8 := (s.dropWhile isWsp).rdropWhile isWsp

/-- RFC 6376 §3.4.2 on a field value: unfolded, each run of tabs and spaces made one space, and
tabs and spaces deleted at both ends (after the colon and at the end). -/
def relaxedFieldValue (value : List UInt8) : List UInt8 :=
  trimWsp (collapseWsp false (replace value [13, 10] []))

/-- A header as sent, canonicalized (RFC 6376 §3.4.1, §3.4.2), without its CRLF: the line
itself for `simple`; for `relaxed` the name lowercased, a colon and the value relaxed. -/
def canonicalField : DkimCanonicalizationType → HeaderValue → List UInt8
  | .simple, v => v.name.name ++ ascii ": " ++ v.encodedValue
  | .relaxed, v =>
    toLowercase v.name.name ++ ascii ":" ++ relaxedFieldValue (ascii " " ++ v.encodedValue)

/-- Folding whitespace. -/
def isFws (b : UInt8) : Bool := isWsp b || decide (b = 13 ∨ b = 10)

/-- The name of a tag-spec: the text before `=`, folding whitespace trimmed. -/
def tagName (spec : List UInt8) : List UInt8 :=
  ((spec.takeWhile (· ≠ 61)).dropWhile isFws).rdropWhile isFws

/-- A tag-spec with its value deleted when its name is `b`. -/
def emptyTagB (spec : List UInt8) : List UInt8 :=
  if tagName spec = ascii "b" ∧ 61 ∈ spec then spec.takeWhile (· ≠ 61) ++ [61] else spec

/-- RFC 6376 §3.7: the signature header with the value of its `b=` tag emptied. -/
def emptySignature (signature : HeaderValue) : HeaderValue :=
  { signature with
    encodedValue := [59].intercalate ((signature.encodedValue.splitOn 59).map emptyTagB) }

/-- **What a verifier hashes.** RFC 6376 §3.7 and §5.4, for the signature in the last header of a
message as it is sent, with its `c=` header mode and `h=` names: the selected headers
canonicalized, each with its CRLF, then the signature header with `b=` emptied, canonicalized,
without its CRLF. -/
def verifierHeaderInput (c : DkimCanonicalizationType) (names : List (List UInt8))
    (headers : List HeaderValue) : List UInt8 :=
  match headers.getLast? with
  | none => []
  | some signature =>
    ((selectHeaders names headers.dropLast).map fun v => canonicalField c v ++ [13, 10]).flatten ++
      canonicalField c (emptySignature signature)

theorem takeLast_fst {α : Type} (p : α → Bool) :
    ∀ l : List α, (takeLast p l).map Prod.fst = l.reverse.find? p
  | [] => rfl
  | x :: xs => by
    have ih := takeLast_fst p xs
    rw [List.reverse_cons, List.find?_append, ← ih, takeLast]
    cases takeLast p xs with
    | some r => rfl
    | none => by_cases hx : p x <;> simp [hx]

theorem takeLast_of_findLast {self : Headers} {name : List UInt8} {value : HeaderValue}
    (h : self.findLast name = some value) : ∃ rest,
      takeLast (fun v => eqIgnoreAsciiCase name v.name.name) self.headers = some (value, rest) := by
  rw [Headers.findLast, ← takeLast_fst] at h
  obtain ⟨⟨v, rest⟩, hv, rfl⟩ := Option.map_eq_some'.mp h
  exact ⟨rest, hv⟩

/-- A header with a top-most instance has a bottom-most one. -/
theorem findLast_of_findHeader {self : Headers} {name : List UInt8} {value : HeaderValue}
    (h : self.findHeader name = some value) : ∃ last, self.findLast name = some last := by
  obtain ⟨hmem, hp⟩ := findHeader_eqIgnoreAsciiCase h
  cases hl : self.findLast name with
  | some last => exact ⟨last, rfl⟩
  | none =>
    rw [Headers.findLast, List.find?_eq_none] at hl
    exact absurd hp (by simpa using hl value (List.mem_reverse.mpr hmem))

theorem findLast_eqIgnoreAsciiCase {self : Headers} {name : List UInt8} {value : HeaderValue}
    (h : self.findLast name = some value) : eqIgnoreAsciiCase name value.name.name = true := by
  unfold Headers.findLast at h
  exact (List.find?_some h :)

/-- The verifier's input starts with the first name's bottom-most header, when there is one. -/
theorem verifierHeaderInput_first (c : DkimCanonicalizationType) (n : List UInt8)
    (ns : List (List UInt8)) (self : Headers) (signature bottom : HeaderValue)
    (h : self.findLast n = some bottom) :
    canonicalField c bottom ++ [13, 10] <+:
      verifierHeaderInput c (n :: ns) (self.headers ++ [signature]) := by
  obtain ⟨rest, hrest⟩ := takeLast_of_findLast h
  simp only [verifierHeaderInput, List.getLast?_concat, List.dropLast_concat, selectHeaders, hrest,
    List.map_cons, List.flatten_cons, List.append_assoc]
  exact ⟨_, List.append_assoc _ _ _⟩

/-! ### Where the signer and a verifier part -/

/-- Two texts that start with different prefixes of one length differ. -/
theorem ne_of_prefix_ne {t v p q : List UInt8} (hp : p <+: t) (hq : q <+: v)
    (hl : p.length = q.length) (hne : p ≠ q) : t ≠ v := by
  rintro rfl
  exact hne ((List.prefix_of_prefix_length_le hp hq hl.le).eq_of_length hl)

theorem mem_collapseWsp {c : UInt8} (hc : isWsp c = false) (inRun : Bool) (s : List UInt8)
    (h : c ∈ s) : c ∈ collapseWsp inRun s := by
  induction s generalizing inRun with
  | nil => exact h
  | cons b s ih =>
    rcases List.mem_cons.mp h with rfl | h
    · simp [collapseWsp, hc]
    · unfold collapseWsp
      split_ifs <;> simp [ih _ h]

/-- A relaxed field value, followed by its CRLF, never starts with a space. -/
theorem relaxedFieldValue_head (value : List UInt8) :
    ∀ y ∈ (relaxedFieldValue value ++ [13, 10]).head?, y ≠ 32 := by
  intro y hy
  set d := (collapseWsp false (replace value [13, 10] [])).dropWhile isWsp
  have hpre : relaxedFieldValue value <+: d := List.rdropWhile_prefix _ _
  rcases hr : relaxedFieldValue value with _ | ⟨x, r⟩
  · simp only [hr, List.nil_append, List.head?_cons, Option.mem_def, Option.some.injEq] at hy
    subst hy; decide
  · simp only [hr, List.cons_append, List.head?_cons, Option.mem_def, Option.some.injEq] at hy
    subst hy
    rw [hr] at hpre
    obtain ⟨e, he⟩ := hpre
    have hne : d ≠ [] := by rw [← he]; simp
    have hhead : d.head hne = x := by simp only [← he]; rfl
    have := List.head_dropWhile_not isWsp _ hne
    rw [hhead] at this
    simp only [isWsp, decide_eq_false_iff_not, not_or] at this
    exact this.2

/-- **`relaxed`: a value that starts with whitespace.** If the first configured name's top-most
value starts with a tab or a space and holds a visible character, the signer's input has a space
after that header's colon, where a verifier's has none: the two differ, for every encoder. -/
theorem relaxed_leading_wsp_diverges (encode : Nat → List UInt8 → List UInt8)
    (crypto : DkimCrypto) (timestamp : List UInt8) (message : Message) (config : DkimConfig)
    (hmode : config.canonicalization.header = .relaxed) (n : List UInt8) (ns : List (List UInt8))
    (hnames : config.headers = n :: ns) (w : UInt8) (u : List UInt8)
    (hv : message.headers.getRaw n = some (w :: u)) (hw : isWsp w = true)
    (hcrlf : NoCRLF (w :: u)) (c : UInt8) (hc : c ∈ u) (hvis : 33 ≤ c.toNat ∧ c.toNat ≤ 126) :
    ∃ t m, toBeSigned encode crypto timestamp message config = some t ∧
      dkimSign encode crypto timestamp message config = some m ∧
      t ≠ verifierHeaderInput .relaxed config.headers m.headers.headers := by
  obtain ⟨t, ht, hm⟩ := dkimSign_eq encode crypto timestamp message config
  refine ⟨t, _, ht, hm, ?_⟩
  -- the signer writes the value's leading run as one space, and keeps it
  have hc' : isWsp c = false := by
    simp only [isWsp, decide_eq_false_iff_not, not_or]
    constructor <;> rintro rfl <;> revert hvis <;> decide
  obtain ⟨a, b, hab⟩ := List.append_of_mem (mem_collapseWsp hc' true u hc)
  have hval : [32] <+: dkimCanonicalizeHeaderValue (w :: u) .relaxed := by
    rw [dkimCanonicalizeHeaderValue, replace_absent hcrlf, collapseWsp, if_pos hw,
      if_neg Bool.false_ne_true, hab]
    have hpre : (32 :: a) ++ [c] <+: 32 :: (a ++ c :: b) := ⟨b, by simp⟩
    exact List.IsPrefix.trans ⟨a ++ [c], rfl⟩
      ((prefix_trimEnd hvis hpre).trans (List.prefix_append _ _))
  have hsigner : toLowercase n ++ ascii ":" ++ [32] <+: t := by
    refine prefix_toBeSigned encode crypto timestamp message config ht ?_
    rw [hnames, hmode, List.map_cons, List.flatten_cons,
      signedField_relaxed_eq encode message.headers hv, List.append_assoc (toLowercase n ++ _)]
    exact (List.prefix_append_right_inj _).mpr (hval.trans (List.prefix_append _ _))
  -- a verifier deletes it
  obtain ⟨top, htop, -⟩ := Option.map_eq_some'.mp hv
  obtain ⟨bottom, hbottom⟩ := findLast_of_findHeader htop
  have hlower : toLowercase bottom.name.name = toLowercase n :=
    (of_decide_eq_true (findLast_eqIgnoreAsciiCase hbottom)).symm
  obtain ⟨y, e, hr⟩ := List.exists_cons_of_ne_nil
    (by simp : relaxedFieldValue (ascii " " ++ bottom.encodedValue) ++ [13, 10] ≠ [])
  have hy : y ≠ 32 := relaxedFieldValue_head _ y (by rw [hr]; rfl)
  have hfirst :
      toLowercase n ++ ascii ":" ++ [y] <+: canonicalField .relaxed bottom ++ [13, 10] := by
    rw [canonicalField, hlower, List.append_assoc _ (relaxedFieldValue _), hr]
    exact ⟨e, by simp⟩
  rw [hnames]
  exact ne_of_prefix_ne hsigner
    (hfirst.trans (verifierHeaderInput_first .relaxed n ns message.headers _ bottom hbottom))
    (by simp) (by simpa using hy.symm)

/-- **`simple`: the top-most header against the bottom-most.** Let the message's headers be
encoded by `HeaderValue::new`, and take the first configured name. The signer writes the name
as configured with the top-most value; a verifier reads the bottom-most header as sent. When
their encodings have one length, the two inputs differ as soon as the names or the encodings do,
for every encoder. -/
theorem simple_field_diverges (encode : Nat → List UInt8 → List UInt8)
    (crypto : DkimCrypto) (timestamp : List UInt8) (message : Message) (config : DkimConfig)
    (hmode : config.canonicalization.header = .simple) (n : List UInt8) (ns : List (List UInt8))
    (hnames : config.headers = n :: ns)
    (hencoded : ∀ v ∈ message.headers.headers,
      v.encodedValue = encode (v.name.name.length + 2) v.rawValue)
    (top bottom : HeaderValue) (htop : message.headers.findHeader n = some top)
    (hbottom : message.headers.findLast n = some bottom)
    (hlen : top.encodedValue.length = bottom.encodedValue.length)
    (hdiff : n ≠ bottom.name.name ∨ top.encodedValue ≠ bottom.encodedValue) :
    ∃ t m, toBeSigned encode crypto timestamp message config = some t ∧
      dkimSign encode crypto timestamp message config = some m ∧
      t ≠ verifierHeaderInput .simple config.headers m.headers.headers := by
  obtain ⟨t, ht, hm⟩ := dkimSign_eq encode crypto timestamp message config
  refine ⟨t, _, ht, hm, ?_⟩
  obtain ⟨htmem, htname⟩ := findHeader_eqIgnoreAsciiCase htop
  have hnt := length_eq_of_eqIgnoreAsciiCase htname
  have hnb := length_eq_of_eqIgnoreAsciiCase (findLast_eqIgnoreAsciiCase hbottom)
  -- the signer: the configured name and the top-most value
  have hsigner : n ++ ascii ": " ++ top.encodedValue <+: t := by
    refine prefix_toBeSigned encode crypto timestamp message config ht ?_
    have hraw : message.headers.getRaw n = some top.rawValue := by simp [Headers.getRaw, htop]
    rw [hnames, hmode, List.map_cons, List.flatten_cons,
      signedField_simple_eq encode message.headers hraw, hnt, ← hencoded top htmem]
    exact (List.prefix_append _ _).trans (List.prefix_append _ _)
  -- a verifier: the bottom-most header as sent
  rw [hnames]
  refine ne_of_prefix_ne hsigner ((List.prefix_append _ _).trans
    (verifierHeaderInput_first .simple n ns message.headers _ bottom hbottom))
    (by simp [canonicalField, hnb, hlen]) ?_
  simp only [canonicalField]
  rcases hdiff with h | h
  · exact fun e => h (List.append_inj (by simpa [List.append_assoc] using e) hnb).1
  · exact fun e => h (List.append_inj' e hlen).2

/-- **`new` with Ed25519 signs with RSA.** Whatever the message, `dkim_sign` under a
configuration built by `DkimConfig::new` with `Ed25519` appends a header whose `a=` tag names
`ed25519-sha256` and whose `b=` is the RSA signature made with the configured key text. -/
theorem new_ed25519_signs_with_rsa (encode : Nat → List UInt8 → List UInt8)
    (crypto : DkimCrypto) (timestamp : List UInt8) (message : Message)
    (selector domain privateKey : List UInt8) (headers : List (List UInt8))
    (canonicalization : DkimCanonicalization) :
    ∃ t m tags,
      toBeSigned encode crypto timestamp message
        (DkimConfig.new selector domain privateKey headers canonicalization .ed25519) = some t ∧
      dkimSign encode crypto timestamp message
        (DkimConfig.new selector domain privateKey headers canonicalization .ed25519) = some m ∧
      m.headers.headers = message.headers.headers ++ [HeaderValue.new encode dkimSignatureName
        (ascii "v=1; a=ed25519-sha256; d=" ++ tags ++ ascii "; b=" ++
          crypto.base64 (crypto.signRsa privateKey (crypto.digest t)))] := by
  obtain ⟨t, ht, hm⟩ := dkimSign_eq encode crypto timestamp message
    (DkimConfig.new selector domain privateKey headers canonicalization .ed25519)
  refine ⟨t, _, domain ++ ascii "; s=" ++ selector ++ ascii "; c=" ++ canonicalization.display ++
    ascii "; q=dns/txt; t=" ++ timestamp ++ ascii "; h=" ++ signedHeadersList
      (DkimConfig.new selector domain privateKey headers canonicalization .ed25519) ++
    ascii "; bh=" ++ bodyHash crypto message
      (DkimConfig.new selector domain privateKey headers canonicalization .ed25519),
    ht, hm, ?_⟩
  simp only [Headers.appendRaw, dkimTags, List.append_assoc]
  rfl

/-- **The signer's header-hash input is not what a verifier recomputes.** Three ways, each for
every encoder and every crypto primitive: a configuration built by `new` with `Ed25519` signs
with RSA under `a=ed25519-sha256`; in `relaxed` mode a signed value that starts with whitespace
is hashed with a space a verifier deletes; in `simple` mode the signer hashes the top-most
instance under the configured name, a verifier the bottom-most under its name as sent. -/
theorem dkim_sign_disagrees_with_verifier :
    (∀ (encode : Nat → List UInt8 → List UInt8) (crypto : DkimCrypto) (timestamp : List UInt8)
      (message : Message) (selector domain privateKey : List UInt8)
      (headers : List (List UInt8)) (canonicalization : DkimCanonicalization),
      ∃ t m tags,
        toBeSigned encode crypto timestamp message
          (DkimConfig.new selector domain privateKey headers canonicalization .ed25519) = some t ∧
        dkimSign encode crypto timestamp message
          (DkimConfig.new selector domain privateKey headers canonicalization .ed25519) = some m ∧
        m.headers.headers = message.headers.headers ++ [HeaderValue.new encode dkimSignatureName
          (ascii "v=1; a=ed25519-sha256; d=" ++ tags ++ ascii "; b=" ++
            crypto.base64 (crypto.signRsa privateKey (crypto.digest t)))]) ∧
    (∀ (encode : Nat → List UInt8 → List UInt8) (crypto : DkimCrypto) (timestamp : List UInt8)
      (message : Message) (config : DkimConfig),
      config.canonicalization.header = .relaxed → ∀ n ns, config.headers = n :: ns →
      ∀ w u, message.headers.getRaw n = some (w :: u) → isWsp w = true → NoCRLF (w :: u) →
      ∀ c ∈ u, 33 ≤ c.toNat ∧ c.toNat ≤ 126 →
      ∃ t m, toBeSigned encode crypto timestamp message config = some t ∧
        dkimSign encode crypto timestamp message config = some m ∧
        t ≠ verifierHeaderInput .relaxed config.headers m.headers.headers) ∧
    (∀ (encode : Nat → List UInt8 → List UInt8) (crypto : DkimCrypto) (timestamp : List UInt8)
      (message : Message) (config : DkimConfig),
      config.canonicalization.header = .simple → ∀ n ns, config.headers = n :: ns →
      (∀ v ∈ message.headers.headers,
        v.encodedValue = encode (v.name.name.length + 2) v.rawValue) →
      ∀ top bottom, message.headers.findHeader n = some top →
      message.headers.findLast n = some bottom →
      top.encodedValue.length = bottom.encodedValue.length →
      (n ≠ bottom.name.name ∨ top.encodedValue ≠ bottom.encodedValue) →
      ∃ t m, toBeSigned encode crypto timestamp message config = some t ∧
        dkimSign encode crypto timestamp message config = some m ∧
        t ≠ verifierHeaderInput .simple config.headers m.headers.headers) :=
  ⟨new_ed25519_signs_with_rsa,
    fun encode crypto timestamp message config hmode n ns hnames w u hv hw hcrlf c hc hvis =>
      relaxed_leading_wsp_diverges encode crypto timestamp message config hmode n ns hnames w u hv
        hw hcrlf c hc hvis,
    fun encode crypto timestamp message config hmode n ns hnames hencoded top bottom htop
      hbottom hlen hdiff =>
      simple_field_diverges encode crypto timestamp message config hmode n ns hnames hencoded top
        bottom htop hbottom hlen hdiff⟩

/-- An encoder that writes a value as it is, as `HeaderValueEncoder` does a short ASCII value
(the source's `format_ascii` test). -/
def plainEncode (_ : Nat) (value : List UInt8) : List UInt8 := value

/-- Crypto primitives that pass their input through. -/
def plainCrypto : DkimCrypto := ⟨id, id, fun _ hash => hash, fun _ hash => hash⟩

/-- A message whose `Subject` is ` hi`. -/
def spacedSubject : Message :=
  ⟨⟨[HeaderValue.new plainEncode ⟨ascii "Subject", by decide⟩ (ascii " hi")]⟩, []⟩

/-- A message with two `From` headers, `a` above `b`. -/
def twoFroms : Message :=
  ⟨⟨[HeaderValue.new plainEncode ⟨ascii "From", by decide⟩ (ascii "a"),
    HeaderValue.new plainEncode ⟨ascii "From", by decide⟩ (ascii "b")]⟩, []⟩

/-- `relaxed/relaxed` over `Subject`. -/
def relaxedSubjectConfig : DkimConfig :=
  DkimConfig.new (ascii "s") (ascii "example.com") [] [ascii "Subject"] ⟨.relaxed, .relaxed⟩ .rsa

/-- A `Subject` of ` hi` signed `relaxed/relaxed`, and two `From` headers signed with
`default_config`: both signed inputs differ from what a verifier hashes. -/
theorem dkim_sign_disagrees_on_subject_and_from :
    (∃ t m,
      toBeSigned plainEncode plainCrypto (ascii "1") spacedSubject relaxedSubjectConfig = some t ∧
      dkimSign plainEncode plainCrypto (ascii "1") spacedSubject relaxedSubjectConfig = some m ∧
      t ≠ verifierHeaderInput .relaxed relaxedSubjectConfig.headers m.headers.headers) ∧
    (∃ t m, toBeSigned plainEncode plainCrypto (ascii "1") twoFroms
        (DkimConfig.defaultConfig (ascii "s") (ascii "example.com") []) = some t ∧
      dkimSign plainEncode plainCrypto (ascii "1") twoFroms
        (DkimConfig.defaultConfig (ascii "s") (ascii "example.com") []) = some m ∧
      t ≠ verifierHeaderInput .simple
        (DkimConfig.defaultConfig (ascii "s") (ascii "example.com") []).headers
        m.headers.headers) :=
  ⟨dkim_sign_disagrees_with_verifier.2.1 plainEncode plainCrypto _ spacedSubject
      relaxedSubjectConfig rfl (ascii "Subject") [] rfl 32 (ascii "hi") rfl rfl (by decide) 104
      (by decide) (by decide),
    dkim_sign_disagrees_with_verifier.2.2 plainEncode plainCrypto _ twoFroms _ rfl (ascii "From")
      _ rfl (by decide) _ _ rfl rfl rfl (.inr (by decide))⟩

end Lettre.Message
