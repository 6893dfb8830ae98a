import Lettre.Smtp.Error

/-!
# ESMTP features

`transport/smtp/extension.rs`: `ServerInfo::from_response` reads the server's name, the first
word of the first line of an EHLO reply, and the features its lines announce, each line's first
word against the keywords `8BITMIME`, `SMTPUTF8`, `STARTTLS` and `AUTH`, and after `AUTH` the
mechanisms `PLAIN` and `CRAM-MD5`. It indexes `splitted[0]`, which panics on a line with no word.

Words are `str::split_whitespace`: the maximal runs of characters that are not Unicode
`White_Space`. On UTF-8 bytes, a whitespace character is one of the byte sequences of
`Utf8.whitespaceTable`, none of which starts with a continuation byte, so the table only ever
matches at a character; a word of a valid text is then a slice between character boundaries, and
valid (`valid_of_mem_splitBytes`).

The `HashSet` of features is a list with `List.insert`, so that each feature is in it once; two
`ServerInfo`s are equal as Rust values when their names are equal and their lists have the same
members.

* `fromResponse_outcomes`: `from_response` panics exactly when the first line has a word and
  some line has none; it reads every line, the greeting included, and compares the keywords byte
  for byte, so `STARTTLS` is supported exactly when some line starts with it in upper case.
* `fromResponse_supportsFeature`: every feature is supported exactly when some line announces it
  as `Display for Extension` writes it, a mechanism anywhere after a first word `AUTH`.
-/

namespace Lettre.Smtp

/-! ### `split_whitespace` -/

/-- The whitespace character the text starts with, if any. -/
def whitespaceAt (s : List UInt8) : Option (List UInt8) := Utf8.whitespaceTable.find? (· <+: s)

/-- The loop of `split_whitespace` on bytes: `skip` counts the bytes of a whitespace character
still to pass over, `word` is the word so far. -/
def splitBytes (skip : Nat) (word : List UInt8) : List UInt8 → List (List UInt8)
  | [] => if word = [] then [] else [word]
  | b :: s =>
    match skip with
    | k + 1 => splitBytes k word s
    | 0 =>
      match whitespaceAt (b :: s) with
      | none => splitBytes 0 (word ++ [b]) s
      | some w => (if word = [] then [] else [word]) ++ splitBytes (w.length - 1) [] s

theorem whitespaceAt_eq_some {s w : List UInt8} (h : whitespaceAt s = some w) :
    w ∈ Utf8.whitespaceTable ∧ w <+: s :=
  ⟨List.mem_of_find?_eq_some h, by simpa using List.find?_some h⟩

theorem splitBytes_cons (word : List UInt8) (b : UInt8) (s : List UInt8) :
    splitBytes 0 word (b :: s) =
      match whitespaceAt (b :: s) with
      | none => splitBytes 0 (word ++ [b]) s
      | some w => (if word = [] then [] else [word]) ++ splitBytes (w.length - 1) [] s := rfl

theorem splitBytes_skip (word : List UInt8) :
    ∀ (l s : List UInt8), splitBytes l.length word (l ++ s) = splitBytes 0 word s
  | [], _ => rfl
  | _ :: l, s => splitBytes_skip word l s

/-- The word a whitespace character ends is the only one it emits. -/
theorem eq_of_mem_emitted {w word : List UInt8} (h : w ∈ if word = [] then [] else [word]) :
    w = word := by
  split_ifs at h
  · cases h
  · exact List.mem_singleton.mp h

/-- **Words of a valid text are valid.** -/
theorem valid_of_mem_splitBytes (s word : List UInt8) (h : Utf8.valid (word ++ s) = true) :
    ∀ w ∈ splitBytes 0 word s, Utf8.valid w = true := by
  intro w hw
  match s with
  | [] =>
    unfold splitBytes at hw
    exact eq_of_mem_emitted hw ▸ by simpa using h
  | b :: s =>
    rw [splitBytes_cons] at hw
    split at hw
    · exact valid_of_mem_splitBytes s (word ++ [b]) (by simpa using h) w hw
    · next ws hws =>
      obtain ⟨hmem, t, hbt⟩ := whitespaceAt_eq_some hws
      obtain ⟨hvw, hne, hhead⟩ := Utf8.whitespaceTable_valid ws hmem
      obtain ⟨x, u, rfl⟩ := List.exists_cons_of_ne_nil hne
      simp only [List.cons_append, List.cons.injEq] at hbt
      obtain ⟨rfl, hs⟩ := hbt
      rw [← hs] at h
      rw [← hs, List.length_cons, Nat.add_sub_cancel, splitBytes_skip] at hw
      obtain ⟨hword, hrest⟩ := Utf8.valid_cut h hhead
      rcases List.mem_append.mp hw with hw | hw
      · exact eq_of_mem_emitted hw ▸ hword
      · refine valid_of_mem_splitBytes t [] ?_ w hw
        rw [List.nil_append, ← Utf8.validFrom_append t hvw]
        rw [← List.cons_append] at hrest
        exact hrest
termination_by s.length
decreasing_by
  all_goals simp_wf
  all_goals first | omega | (rw [← hs]; simp; omega)

/-- `str::split_whitespace`: the words of a text. -/
def splitWhitespace (s : Str) : List Str :=
  (splitBytes 0 [] s.bytes).attach.map fun w =>
    ⟨w.1, valid_of_mem_splitBytes s.bytes [] s.valid w.1 w.2⟩

/-- `Response::first_word`: the first word of the first line. -/
def Response.firstWord (r : Response) : Option Str :=
  r.message.head?.bind fun line => (splitWhitespace line).head?

/-! ### `ServerInfo` -/

/-- `transport::smtp::authentication::Mechanism`, the mechanisms `from_response` knows. Modelled
from the source's uses: the authentication module is not part of the source. -/
inductive Mechanism
  | plain
  | cramMd5
  deriving DecidableEq, Repr

/-- Supported ESMTP keywords. -/
inductive Extension
  | eightBitMime
  | smtpUtfEight
  | startTls
  | authentication (mechanism : Mechanism)
  deriving DecidableEq, Repr

/-- Contains information about an SMTP server: the name given in the banner, and the features
it announced and the client knows. -/
structure ServerInfo where
  name : Str
  features : List Extension
  deriving DecidableEq

/-- `ServerInfo::default()`: no name and no feature. -/
def ServerInfo.default : ServerInfo := ⟨⟨[], rfl⟩, []⟩

/-- `ServerInfo::supports_feature`. -/
def ServerInfo.supportsFeature (self : ServerInfo) (keyword : Extension) : Bool :=
  keyword ∈ self.features

/-- `ServerInfo::supports_auth_mechanism`. -/
def ServerInfo.supportsAuthMechanism (self : ServerInfo) (mechanism : Mechanism) : Bool :=
  .authentication mechanism ∈ self.features

/-- `Display for Mechanism`, from the authentication module, which is not part of the source:
the names `from_response` matches. -/
def Mechanism.display : Mechanism → List UInt8
  | .plain => ascii "PLAIN"
  | .cramMd5 => ascii "CRAM-MD5"

/-- `Display for Extension`. -/
def Extension.display : Extension → List UInt8
  | .eightBitMime => ascii "8BITMIME"
  | .smtpUtfEight => ascii "SMTPUTF8"
  | .startTls => ascii "STARTTLS"
  | .authentication mechanism => ascii "AUTH " ++ mechanism.display

/-- The body of the `AUTH` arm: one mechanism word. -/
def authFeature (features : List Extension) (mechanism : List UInt8) : List Extension :=
  if mechanism = ascii "PLAIN" then features.insert (.authentication .plain)
  else if mechanism = ascii "CRAM-MD5" then features.insert (.authentication .cramMd5)
  else features

/-- One turn of the loop of `from_response`: the features a line adds, by its first word; none
when the line has no word, where `splitted[0]` panics. -/
def lineFeatures (features : List Extension) (line : Str) : Option (List Extension) :=
  match (splitWhitespace line).map Str.bytes with
  | [] => none
  | keyword :: mechanisms =>
    some (if keyword = ascii "8BITMIME" then features.insert .eightBitMime
      else if keyword = ascii "SMTPUTF8" then features.insert .smtpUtfEight
      else if keyword = ascii "STARTTLS" then features.insert .startTls
      else if keyword = ascii "AUTH" then mechanisms.foldl authFeature features
      else features)

/-- `ServerInfo::from_response`: the name is the first word of the reply, and every line of the
reply, the first included, is read for a feature. -/
def ServerInfo.fromResponse (response : Response) : Except Error ServerInfo :=
  match response.firstWord with
  | none => .error (.response "Could not read server name")
  | some name =>
    match response.message.foldlM lineFeatures [] with
    | none => .error .panic
    | some features => .ok ⟨name, features⟩

/-! ### What `from_response` reads -/

theorem lineFeatures_eq_none {features : List Extension} {line : Str} :
    lineFeatures features line = none ↔ splitWhitespace line = [] := by
  unfold lineFeatures
  split
  · next h => simpa using h
  · next h => simpa using fun h' => by simp [h'] at h

theorem foldlM_lineFeatures_eq_none : ∀ (features : List Extension) (lines : List Str),
    lines.foldlM lineFeatures features = none ↔ ∃ line ∈ lines, splitWhitespace line = []
  | _, [] => by simp
  | features, line :: lines => by
    rw [List.foldlM_cons]
    cases h : lineFeatures features line with
    | none => simp [lineFeatures_eq_none.mp h]
    | some fs =>
      have hline : splitWhitespace line ≠ [] := fun h' => by
        rw [lineFeatures_eq_none.mpr h'] at h; cases h
      simp [foldlM_lineFeatures_eq_none fs lines, hline]

theorem startTls_mem_foldl_authFeature (features : List Extension)
    (mechanisms : List (List UInt8)) :
    Extension.startTls ∈ mechanisms.foldl authFeature features ↔ .startTls ∈ features := by
  induction mechanisms generalizing features with
  | nil => rfl
  | cons m ms ih =>
    rw [List.foldl_cons, ih]
    unfold authFeature
    split_ifs <;> simp [List.mem_insert_iff]

/-- A line adds `StartTls` exactly when its first word is `STARTTLS`, byte for byte. -/
theorem startTls_mem_lineFeatures {features fs : List Extension} {line : Str}
    (h : lineFeatures features line = some fs) :
    Extension.startTls ∈ fs ↔ .startTls ∈ features ∨
      ((splitWhitespace line).map Str.bytes).head? = some (ascii "STARTTLS") := by
  unfold lineFeatures at h
  split at h
  · cases h
  · next keyword mechanisms hwords =>
    cases h
    have h8 : ascii "8BITMIME" ≠ ascii "STARTTLS" := by decide
    have hu : ascii "SMTPUTF8" ≠ ascii "STARTTLS" := by decide
    have ha : ascii "AUTH" ≠ ascii "STARTTLS" := by decide
    rw [hwords, List.head?_cons, Option.some.injEq]
    split_ifs with k8 ku ks ka
    · subst k8; simp [List.mem_insert_iff, h8]
    · subst ku; simp [List.mem_insert_iff, hu]
    · subst ks; simp [List.mem_insert_iff]
    · subst ka; simp [startTls_mem_foldl_authFeature, ha]
    · simp [ks]

theorem startTls_mem_foldlM {fs : List Extension} :
    ∀ {features : List Extension} {lines : List Str},
    lines.foldlM lineFeatures features = some fs →
      (Extension.startTls ∈ fs ↔ .startTls ∈ features ∨
        ∃ line ∈ lines, ((splitWhitespace line).map Str.bytes).head? = some (ascii "STARTTLS"))
  | _, [], h => by cases h; simp
  | features, line :: lines, h => by
    rw [List.foldlM_cons] at h
    cases hl : lineFeatures features line with
    | none => rw [hl] at h; cases h
    | some gs =>
      rw [hl] at h
      rw [startTls_mem_foldlM h, startTls_mem_lineFeatures hl]
      simp only [List.mem_cons, exists_eq_or_imp, or_assoc]

/-- **What `from_response` does with every reply.** It panics, on `splitted[0]`, exactly when the
first line has a word and some line, the first included, has none; it returns an error exactly
when the first line has no word. And when it returns, the server supports `StartTls` exactly when
some line, the greeting included, has the first word `STARTTLS` byte for byte: a lower-case
`starttls` is not read, and a `STARTTLS` in the greeting is. -/
theorem fromResponse_outcomes :
    (∀ R : Response, ServerInfo.fromResponse R = .error .panic ↔
      R.firstWord.isSome ∧ ∃ line ∈ R.message, splitWhitespace line = []) ∧
    (∀ R : Response, ServerInfo.fromResponse R = .error (.response "Could not read server name") ↔
      R.firstWord = none) ∧
    (∀ (R : Response) (info : ServerInfo), ServerInfo.fromResponse R = .ok info →
      (info.supportsFeature .startTls = true ↔
        ∃ line ∈ R.message,
          ((splitWhitespace line).map Str.bytes).head? = some (ascii "STARTTLS"))) := by
  refine ⟨fun R => ?_, fun R => ?_, fun R info h => ?_⟩
  · unfold ServerInfo.fromResponse
    rcases R.firstWord with _ | name
    · simp
    · rw [← foldlM_lineFeatures_eq_none []]
      cases R.message.foldlM lineFeatures [] <;> simp
  · unfold ServerInfo.fromResponse
    rcases R.firstWord with _ | name
    · simp
    · cases R.message.foldlM lineFeatures [] <;> simp
  · unfold ServerInfo.fromResponse at h
    cases hw : R.firstWord with
    | none => rw [hw] at h; cases h
    | some name =>
      cases hf : R.message.foldlM lineFeatures [] with
      | none => rw [hw, hf] at h; cases h
      | some fs =>
        rw [hw, hf] at h
        cases h
        simpa [ServerInfo.supportsFeature] using startTls_mem_foldlM hf

/-- A reply with a blank second line panics; one that announces `starttls` in lower case gets no
`StartTls`; one whose greeting is `STARTTLS` gets it. -/
theorem fromResponse_outcomes_starttls :
    let code : Code := ⟨.positiveCompletion, .mailSystem, .zero⟩
    let mx : Str := ⟨ascii "mx", by decide⟩
    let starttls : Str := ⟨ascii "STARTTLS", by decide⟩
    let blank : Response := ⟨code, [mx, ⟨[], rfl⟩]⟩
    let lower : Response := ⟨code, [mx, ⟨ascii "starttls", by decide⟩]⟩
    let greeting : Response := ⟨code, [starttls]⟩
    ServerInfo.fromResponse blank = .error .panic ∧
    ServerInfo.fromResponse lower = .ok ⟨mx, []⟩ ∧
    ((⟨mx, []⟩ : ServerInfo).supportsFeature .startTls = true ↔ ∃ line ∈ lower.message,
      ((splitWhitespace line).map Str.bytes).head? = some (ascii "STARTTLS")) ∧
    ServerInfo.fromResponse greeting = .ok ⟨starttls, [.startTls]⟩ ∧
    ((⟨starttls, [.startTls]⟩ : ServerInfo).supportsFeature .startTls = true ↔
      ∃ line ∈ greeting.message,
        ((splitWhitespace line).map Str.bytes).head? = some (ascii "STARTTLS")) :=
  ⟨(fromResponse_outcomes.1 _).mpr
      ⟨rfl, _, List.mem_cons_of_mem _ (List.mem_singleton_self _), rfl⟩,
    rfl, fromResponse_outcomes.2.2 _ _ rfl, rfl, fromResponse_outcomes.2.2 _ _ rfl⟩

/-! ### Every feature -/

/-- The words of a line that announce a feature, as `Display for Extension` writes it: the
keyword as the first word, or `AUTH` first and the mechanism's name among the words after it. -/
def Announces (words : List (List UInt8)) : Extension → Prop
  | .authentication mechanism =>
    words.head? = some (ascii "AUTH") ∧ mechanism.display ∈ words.tail
  | .eightBitMime => words.head? = some Extension.eightBitMime.display
  | .smtpUtfEight => words.head? = some Extension.smtpUtfEight.display
  | .startTls => words.head? = some Extension.startTls.display

theorem mem_authFeature {features : List Extension} {word : List UInt8} {f : Extension} :
    f ∈ authFeature features word ↔
      f ∈ features ∨ ∃ mechanism, f = .authentication mechanism ∧ mechanism.display = word := by
  have hne : ascii "CRAM-MD5" ≠ ascii "PLAIN" := by decide
  unfold authFeature
  split_ifs with hp hc
  · subst hp
    rcases f with _ | _ | _ | _ | _ <;> simp [List.mem_insert_iff, Mechanism.display, hne]
  · subst hc
    rcases f with _ | _ | _ | _ | _ <;> simp [List.mem_insert_iff, Mechanism.display, hne.symm]
  · refine ⟨.inl, fun h => h.elim id ?_⟩
    rintro ⟨_ | _, -, rfl⟩
    exacts [absurd rfl hp, absurd rfl hc]

theorem mem_foldl_authFeature {f : Extension} : ∀ (features : List Extension)
    (words : List (List UInt8)), f ∈ words.foldl authFeature features ↔
      f ∈ features ∨ ∃ mechanism, f = .authentication mechanism ∧ mechanism.display ∈ words
  | _, [] => by simp
  | features, w :: ws => by
    rw [List.foldl_cons, mem_foldl_authFeature, mem_authFeature]
    simp only [List.mem_cons, or_assoc, and_or_left, exists_or]

/-- A line adds a feature exactly when its words announce it. -/
theorem mem_lineFeatures {features fs : List Extension} {line : Str} {f : Extension}
    (h : lineFeatures features line = some fs) :
    f ∈ fs ↔ f ∈ features ∨ Announces ((splitWhitespace line).map Str.bytes) f := by
  have hne : ascii "8BITMIME" ≠ ascii "SMTPUTF8" ∧ ascii "8BITMIME" ≠ ascii "STARTTLS" ∧
      ascii "8BITMIME" ≠ ascii "AUTH" ∧ ascii "SMTPUTF8" ≠ ascii "STARTTLS" ∧
      ascii "SMTPUTF8" ≠ ascii "AUTH" ∧ ascii "STARTTLS" ≠ ascii "AUTH" := by decide
  obtain ⟨h8u, h8s, h8a, hus, hua, hsa⟩ := hne
  unfold lineFeatures at h
  split at h
  · cases h
  · next keyword mechanisms hwords =>
    cases h
    rw [hwords]
    split_ifs with k8 ku ks ka
    · subst k8
      cases f <;> simp [Announces, Extension.display, List.mem_insert_iff, h8u, h8s, h8a]
    · subst ku
      cases f <;> simp [Announces, Extension.display, List.mem_insert_iff, h8u.symm, hus, hua]
    · subst ks
      cases f <;> simp [Announces, Extension.display, List.mem_insert_iff, h8s.symm, hus.symm,
        hsa]
    · subst ka
      cases f <;> simp [Announces, Extension.display, mem_foldl_authFeature, h8a.symm, hua.symm,
        hsa.symm]
    · cases f <;> simp [Announces, Extension.display, k8, ku, ks, ka]

theorem mem_foldlM_lineFeatures {f : Extension} {fs : List Extension} :
    ∀ {features : List Extension} {lines : List Str},
    lines.foldlM lineFeatures features = some fs → (f ∈ fs ↔ f ∈ features ∨
      ∃ line ∈ lines, Announces ((splitWhitespace line).map Str.bytes) f)
  | _, [], h => by cases h; simp
  | features, line :: lines, h => by
    rw [List.foldlM_cons] at h
    cases hl : lineFeatures features line with
    | none => rw [hl] at h; cases h
    | some gs =>
      rw [hl] at h
      rw [mem_foldlM_lineFeatures h, mem_lineFeatures hl]
      simp only [List.mem_cons, exists_eq_or_imp, or_assoc]

/-- **Every feature `from_response` reads.** When `from_response` returns, the server supports a
feature exactly when some line of the reply, the greeting included, announces it as `Display for
Extension` writes it: `8BITMIME`, `SMTPUTF8` or `STARTTLS` as the line's first word, byte for
byte, and an authentication mechanism as a word after the first word `AUTH`, in any place. -/
theorem fromResponse_supportsFeature {R : Response} {info : ServerInfo}
    (h : ServerInfo.fromResponse R = .ok info) (f : Extension) :
    info.supportsFeature f = true ↔
      ∃ line ∈ R.message, Announces ((splitWhitespace line).map Str.bytes) f := by
  unfold ServerInfo.fromResponse at h
  cases hw : R.firstWord with
  | none => rw [hw] at h; cases h
  | some name =>
    cases hf : R.message.foldlM lineFeatures [] with
    | none => rw [hw, hf] at h; cases h
    | some fs =>
      rw [hw, hf] at h
      cases h
      simpa [ServerInfo.supportsFeature] using mem_foldlM_lineFeatures hf

/-- The greeting `me`, then `AUTH PLAIN CRAM-MD5 OTHER` and `8BITMIME`: both mechanisms and
8BITMIME are supported. -/
theorem fromResponse_supportsFeature_me :
    let code : Code := ⟨.positiveCompletion, .mailSystem, .zero⟩
    let R : Response := ⟨code, [⟨ascii "me", by decide⟩,
      ⟨ascii "AUTH PLAIN CRAM-MD5 OTHER", by decide⟩, ⟨ascii "8BITMIME", by decide⟩]⟩
    let info : ServerInfo := ⟨⟨ascii "me", by decide⟩,
      [.eightBitMime, .authentication .cramMd5, .authentication .plain]⟩
    ServerInfo.fromResponse R = .ok info ∧
      (info.supportsFeature (.authentication .cramMd5) = true ↔
        ∃ line ∈ R.message, Announces ((splitWhitespace line).map Str.bytes)
          (.authentication .cramMd5)) := by
  intro code R info
  have h : ServerInfo.fromResponse R = .ok info := rfl
  exact ⟨h, fromResponse_supportsFeature h _⟩

end Lettre.Smtp
