import Lettre.Chumsky
import Lettre.Message.Mailbox.Types

/-!
# The RFC 2822 address parsers

`message/mailbox/parsers/rfc2822.rs` writes the grammar of RFC 2822 §3.2 to §3.4 and §4 with
chumsky parsers over `char`s, one function for each rule. They are modelled here one for one,
on the combinators of `Lettre.Chumsky`. The rules of RFC 2234 (`WSP`, `CRLF`, `ALPHA`, `DIGIT`,
`DQUOTE`) and of RFC 5336 (`UTF8-non-ascii`) come from sibling modules that are not part of the
source; they are modelled from the source's uses, as the rules those RFCs define.

The parsers return the characters they read, CFWS included: `fws` its whitespace, `comment` the
text inside its parentheses, and `atom` and `dot_atom` chain the CFWS around their text into
their output. And `cfws` cannot end with a comment: its greedy repetition of `[FWS] comment`
takes every comment, so the final `([FWS] comment) / FWS` can only be FWS (`cfws_end`).

`mailbox` tries `addr_spec` first and `name_addr` after it. A display name is a `phrase`, which
tries `obs-phrase` before `1*word`; its words keep the CFWS after them, and `name_addr` trims the
white space at the end with `str::trim_end`. Every item of `obs-phrase` reads a character, so
its repetition never fails, and `obs-phrase` fails only where `1*word` fails too: the second
branch of `phrase` is never taken (`phrase_eq_obsPhrase`). `mailbox_list` reads mailboxes
separated by commas with white space around them.

* `cfws_end`: whatever `cfws` reads ends with a space or a tab;
* `phrase_eq_obsPhrase`: on every input, `phrase` returns what `obs_phrase` returns;
* `addrSpec_cfws`: for letters and digits `a`, `c`, `d`, `addr_spec` rejects the valid address
  `a(c)@d`, reads `a @d` with the local part `a ` and `a(c) @d` with the local part `ac `;
* `mailbox_display`: `mailbox` reads the two texts `Display for Mailbox` writes, `l@d` and
  `name <l@d>`, for a name of words of letters and digits and an address of letters and digits;
* `mailboxList_display`: the UTF-8 bytes of the text of a list of such mailboxes are what
  `Display for Mailboxes` writes for them, and `mailbox_list` reads the list back from it.
-/

namespace Lettre.Message.Rfc2822

open Lettre.Chumsky Lettre.Chumsky.Parser

/-! ### RFC 2234 and RFC 5336 -/

/-- `rfc2234::wsp`: `WSP = SP / HTAB`. -/
def wsp : Parser Char := filter fun c => c = ' ' ∨ c = '\t'

/-- `rfc2234::crlf`: `CRLF = CR LF`. -/
def crlf : Parser (List Char) := (just '\r').exactlyOne.chain (just '\n').exactlyOne

/-- `rfc2234::alpha`: `ALPHA = %x41-5A / %x61-7A`. -/
def alpha : Parser Char :=
  filter fun c => 0x41 ≤ c.toNat ∧ c.toNat ≤ 0x5A ∨ 0x61 ≤ c.toNat ∧ c.toNat ≤ 0x7A

/-- `rfc2234::digit`: `DIGIT = %x30-39`. -/
def digit : Parser Char := filter fun c => 0x30 ≤ c.toNat ∧ c.toNat ≤ 0x39

/-- `rfc2234::dquote`: `DQUOTE = %x22`. -/
def dquote : Parser Char := just '"'

/-- `rfc5336::utf8_non_ascii`: a character beyond ASCII. -/
def utf8NonAscii : Parser Char := filter fun c => 0x80 ≤ c.toNat

/-! ### Primitive tokens, quoted characters, folding white space and comments -/

/-- `no_ws_ctl`. -/
def noWsCtl : Parser Char := filter fun c =>
  1 ≤ c.toNat ∧ c.toNat ≤ 8 ∨ c.toNat = 11 ∨ c.toNat = 12 ∨ 14 ≤ c.toNat ∧ c.toNat ≤ 31 ∨
    c.toNat = 127

/-- `text`. -/
def text : Parser Char := filter fun c =>
  1 ≤ c.toNat ∧ c.toNat ≤ 9 ∨ c.toNat = 11 ∨ c.toNat = 12 ∨ 14 ≤ c.toNat ∧ c.toNat ≤ 127

/-- `quoted_pair`. -/
def quotedPair : Parser Char := (just '\\').ignoreThen text

/-- `fws`: `[*WSP CRLF] 1*WSP`, without `obs-FWS`. -/
def fws : Parser (List Char) := ((wsp.repeated 0).chain crlf).orEmpty.chain (wsp.repeated 1)

/-- `ctext`. -/
def ctext : Parser Char := filter fun c =>
  33 ≤ c.toNat ∧ c.toNat ≤ 39 ∨ 42 ≤ c.toNat ∧ c.toNat ≤ 91 ∨ 93 ≤ c.toNat ∧ c.toNat ≤ 126

/-- `comment` with room for `fuel` levels of nesting: `recursive` unrolled. -/
def commentAux : Nat → Parser (List Char)
  | 0 => fail
  | fuel + 1 =>
    let ccontent := choice [ctext.exactlyOne, quotedPair.exactlyOne, commentAux fuel]
    (((fws.orNot.ignoreThen ccontent).repeated 0).map List.flatten |>.thenIgnore fws.orNot)
      |>.delimitedBy (just '(') (just ')')

theorem commentAux_succ (fuel : Nat) :
    commentAux (fuel + 1) =
      ((((fws.orNot.ignoreThen
          (choice [ctext.exactlyOne, quotedPair.exactlyOne, commentAux fuel])).repeated 0).map
        List.flatten |>.thenIgnore fws.orNot) |>.delimitedBy (just '(') (just ')')) := rfl

/-- `comment`: every level of nesting opens with a `(`, so one more than the input's length is
room enough. -/
def comment : Parser (List Char) := fun s => commentAux (s.length + 1) s

/-- `cfws`: `*([FWS] comment) (([FWS] comment) / FWS)`. -/
def cfws : Parser (List Char) :=
  ((fws.orEmpty.chain comment).repeated 0).map List.flatten
    |>.chain (choice [fws.orEmpty.chain comment, fws])

/-! ### Atoms -/

/-- The specials `atext` allows. -/
def atextSpecials : List Char :=
  ['!', '#', '$', '%', '&', '\'', '*', '+', '-', '/', '=', '?', '^', '_', '`', '{', '|', '}',
    '~']

/-- `atext`, with the characters beyond ASCII. -/
def atext : Parser Char :=
  choice [alpha, digit, filter (atextSpecials.contains ·), utf8NonAscii]

/-- `atom`: `[CFWS] 1*atext [CFWS]`. -/
def atom : Parser (List Char) :=
  cfws.orEmpty.chain (atext.repeated 1) |>.chain cfws.orEmpty

/-- `dot_atom_text`: `1*atext` then `"." 1*atext` once or more. -/
def dotAtomText : Parser (List Char) :=
  (atext.repeated 1).chain
    ((((just '.').exactlyOne.chain (atext.repeated 1)).repeated 1).map List.flatten)

/-- `dot_atom`: `[CFWS] dot-atom-text [CFWS]`. -/
def dotAtom : Parser (List Char) := cfws.orEmpty.chain dotAtomText |>.chain cfws.orEmpty

/-! ### Quoted strings and words -/

/-- `qtext`. -/
def qtext : Parser Char :=
  choice [noWsCtl, filter fun c =>
    c.toNat = 33 ∨ 35 ≤ c.toNat ∧ c.toNat ≤ 91 ∨ 93 ≤ c.toNat ∧ c.toNat ≤ 126]

/-- `qcontent`. -/
def qcontent : Parser Char := choice [qtext, quotedPair, utf8NonAscii]

/-- `quoted_string`: `[CFWS] DQUOTE *([FWS] qcontent) [FWS] DQUOTE [CFWS]`, the quotes and the
CFWS after it dropped. -/
def quotedString : Parser (List Char) :=
  cfws.orEmpty.chain
    ((dquote.ignoreThen (((fws.orEmpty.chain qcontent.exactlyOne).repeated 0).map List.flatten)
      |>.chain fws.orEmpty) |>.thenIgnore dquote)
    |>.thenIgnore cfws.orEmpty

/-- `word`: `atom / quoted-string`. -/
def word : Parser (List Char) := choice [atom, quotedString]

/-! ### Addresses -/

/-- `obs_local_part`: `word *("." word)`. -/
def obsLocalPart : Parser (List Char) :=
  word.chain ((((just '.').exactlyOne.chain word).repeated 0).map List.flatten)

/-- `local_part`: `dot-atom / quoted-string / obs-local-part`. -/
def localPart : Parser (List Char) := choice [dotAtom, quotedString, obsLocalPart]

/-- `dtext`. -/
def dtext : Parser Char :=
  choice [noWsCtl, filter fun c => 33 ≤ c.toNat ∧ c.toNat ≤ 90 ∨ 94 ≤ c.toNat ∧ c.toNat ≤ 126]

/-- `dcontent`. -/
def dcontent : Parser Char := choice [dtext, quotedPair]

/-- `domain_literal`: `[CFWS] "[" *([FWS] dcontent) [FWS] "]" [CFWS]`, the text between the
brackets. -/
def domainLiteral : Parser (List Char) :=
  cfws.orNot.ignoreThen
    ((((fws.orNot.ignoreThen dcontent).repeated 0).thenIgnore fws.orNot).delimitedBy
      (just '[') (just ']'))
    |>.thenIgnore cfws.orNot

/-- `obs_domain`: `atom *("." atom)`. -/
def obsDomain : Parser (List Char) :=
  atom.chain ((((just '.').exactlyOne.chain atom).repeated 0).map List.flatten)

/-- `domain`: `dot-atom / domain-literal / obs-domain`. -/
def domain : Parser (List Char) := choice [dotAtom, domainLiteral, obsDomain]

/-- `addr_spec`: `local-part "@" domain`, the local part and the domain. -/
def addrSpec : Parser (List Char × List Char) := (localPart.thenIgnore (just '@')).then domain

/-! ### `trim_end` -/

/-- `str::trim_end`: the whitespace at the end removed. -/
def trimEnd (s : List Char) : List Char := (s.reverse.dropWhile isWhitespace).reverse

/-! ### Mailboxes -/

/-- `obs_phrase`: `word *(word / "." / CFWS)`. -/
def obsPhrase : Parser (List Char) :=
  word.chain (((choice [word, (just '.').exactlyOne, cfws]).repeated 0).map List.flatten)

/-- `phrase`: `obs-phrase / 1*word`, the obsolete form first, since it also starts with a
word. -/
def phrase : Parser (List Char) := choice [obsPhrase, (word.repeated 1).map List.flatten]

/-- `display_name`: `phrase`. -/
def displayName : Parser (List Char) := phrase

/-- `angle_addr`: `[CFWS] "<" addr-spec ">" [CFWS]`. -/
def angleAddr : Parser (List Char × List Char) :=
  cfws.orNot.ignoreThen (addrSpec.delimitedBy (just '<') (just '>')) |>.thenIgnore cfws.orNot

/-- `name_addr`: `[display-name] angle-addr`, the display name with the white space at its end
trimmed. -/
def nameAddr : Parser (Option (List Char) × (List Char × List Char)) :=
  (displayName.map trimEnd).orNot.then angleAddr

/-- `mailbox`: `addr-spec / name-addr`. -/
def mailbox : Parser (Option (List Char) × (List Char × List Char)) :=
  choice [addrSpec.map fun addr => (none, addr), nameAddr]

/-- `mailbox_list`: `mailbox *("," mailbox)`, each comma padded with white space. -/
def mailboxList : Parser (List (Option (List Char) × (List Char × List Char))) :=
  mailbox.separatedBy (just ',').padded

/-! ### Reading mailboxes -/

/-! ### Letters and digits -/

section Alphanum

variable {x : Char} (hx : x.isAlphanum = true) (s : List Char)
include hx

theorem toNat_of_isAlphanum :
    48 ≤ x.toNat ∧ x.toNat ≤ 57 ∨ 65 ≤ x.toNat ∧ x.toNat ≤ 90 ∨ 97 ≤ x.toNat ∧ x.toNat ≤ 122 := by
  simp only [Char.isAlphanum, Char.isAlpha, Char.isUpper, Char.isLower, Char.isDigit,
    Bool.or_eq_true, Bool.and_eq_true, decide_eq_true_eq, ge_iff_le, UInt32.le_def,
    BitVec.le_def] at hx
  simp only [Char.toNat, UInt32.toNat]
  simp at hx
  omega

theorem ne_of_isAlphanum {c : Char} (hc : c.isAlphanum = false) : x ≠ c := by
  rintro rfl
  simp [hx] at hc

theorem atext_alnum : atext (x :: s) = some (x, s) := by
  have h := toNat_of_isAlphanum hx
  by_cases ha : 0x41 ≤ x.toNat ∧ x.toNat ≤ 0x5A ∨ 0x61 ≤ x.toNat ∧ x.toNat ≤ 0x7A
  · simp [atext, choice, or_some, alpha, filter_cons, ha]
  · have hd : 0x30 ≤ x.toNat ∧ x.toNat ≤ 0x39 := by omega
    simp [atext, choice, alpha, digit, filter_cons, ha, hd, Parser.or]

theorem ctext_alnum : ctext (x :: s) = some (x, s) :=
  filter_of (by have := toNat_of_isAlphanum hx; simp; omega) s

theorem wsp_alnum : wsp (x :: s) = none :=
  filter_of_not (by simp [ne_of_isAlphanum hx (by decide : ' '.isAlphanum = false),
    ne_of_isAlphanum hx (by decide : '\t'.isAlphanum = false)]) s

theorem just_alnum {c : Char} (hc : c.isAlphanum = false) : just c (x :: s) = none := by
  simp [just_cons, ne_of_isAlphanum hx hc]

end Alphanum

/-! ### Folding white space and comments -/

/-- A text that starts with neither white space nor a comment: its first character, if any, is
no `WSP`, no CR, and no `(`. -/
def StartsPlain (t : List Char) : Prop := wsp t = none ∧ just '\r' t = none ∧ just '(' t = none

theorem startsPlain_nil : StartsPlain [] := ⟨rfl, rfl, rfl⟩

theorem startsPlain_at (d : List Char) : StartsPlain ('@' :: d) := ⟨rfl, rfl, rfl⟩

theorem startsPlain_alnum {x : Char} (hx : x.isAlphanum = true) (t : List Char) :
    StartsPlain (x :: t) :=
  ⟨wsp_alnum hx t, just_alnum hx t (by decide), just_alnum hx t (by decide)⟩

/-- FWS starts with a `WSP` or a CR. -/
theorem fws_none {t : List Char} (hw : wsp t = none) (hcr : just '\r' t = none) :
    fws t = none := by
  have hcrlf : ((wsp.repeated 0).chain crlf) t = none := by
    simp [chain_some (repeated_stop hw), crlf, exactlyOne, chain_none, hcr]
  simp [fws, chain_some (orEmpty_none hcrlf), repeated_stop_succ hw]

section Plain

variable {t : List Char} (ht : StartsPlain t)
include ht

theorem fws_plain : fws t = none := fws_none ht.1 ht.2.1

/-- One space before plain text is FWS. -/
theorem fws_space : fws (' ' :: t) = some ([' '], t) := by
  have hsp : ∀ c ∈ [' '], ∀ r, wsp (c :: r) = some (id c, r) := by simp [wsp, filter_cons]
  have hw : ∀ n ≤ 1, wsp.repeated n (' ' :: t) = some ([' '], t) :=
    fun _ hn => by simpa using repeated_chars hsp ht.1 hn
  have hcrlf : ((wsp.repeated 0).chain crlf) (' ' :: t) = none := by
    simp [chain_some (hw 0 (by omega)), crlf, exactlyOne, chain_none, ht.2.1]
  simpa [fws, chain_some (orEmpty_none hcrlf)] using hw 1 le_rfl

theorem commentAux_none : ∀ fuel, commentAux fuel t = none
  | 0 => rfl
  | _ + 1 => by simp [commentAux, delimitedBy, ignoreThen, then_none ht.2.2]

theorem comment_none : comment t = none := commentAux_none ht _

end Plain

theorem startsPlain_close (r : List Char) : StartsPlain (')' :: r) := ⟨rfl, rfl, rfl⟩

/-- The content of a comment, one letter or digit at a time. -/
theorem ccontent_alnum {x : Char} (hx : x.isAlphanum = true) (r : List Char) (fuel : Nat) :
    (fws.orNot.ignoreThen (choice [ctext.exactlyOne, quotedPair.exactlyOne, commentAux fuel]))
      (x :: r) = some ([x], r) := by
  simp [ignoreThen, then_some (orNot_none (fws_plain (startsPlain_alnum hx r))), choice,
    or_some, exactlyOne, ctext_alnum hx]

theorem ccontent_close (r : List Char) (fuel : Nat) :
    (fws.orNot.ignoreThen (choice [ctext.exactlyOne, quotedPair.exactlyOne, commentAux fuel]))
      (')' :: r) = none := by
  have hq : quotedPair (')' :: r) = none := rfl
  have hct : ctext (')' :: r) = none := rfl
  simp [ignoreThen, then_some (orNot_none (fws_plain (startsPlain_close r))), choice, or_none,
    exactlyOne, hq, hct, commentAux_none (startsPlain_close r), fail]

/-- **A comment of letters and digits** reads as its text. -/
theorem comment_alnum {c : List Char} (hc : ∀ x ∈ c, x.isAlphanum = true) (r : List Char) :
    comment ('(' :: (c ++ ')' :: r)) = some (c, r) := by
  have hrep : ∀ fuel, (fws.orNot.ignoreThen
      (choice [ctext.exactlyOne, quotedPair.exactlyOne, commentAux fuel])).repeated 0
        (c ++ ')' :: r) = some (c.map ([·]), ')' :: r) := fun fuel =>
    repeated_chars (fun x hx r => ccontent_alnum (hc x hx) r fuel) (ccontent_close r fuel)
      (Nat.zero_le _)
  have hflat : (c.map ([·])).flatten = c := by rw [← List.flatMap_def, List.flatMap_singleton']
  have hinner : ∀ fuel, ((((fws.orNot.ignoreThen
      (choice [ctext.exactlyOne, quotedPair.exactlyOne, commentAux fuel])).repeated 0).map
        List.flatten).thenIgnore fws.orNot) (c ++ ')' :: r) = some (c, ')' :: r) := fun fuel => by
    have hmap : (((fws.orNot.ignoreThen
        (choice [ctext.exactlyOne, quotedPair.exactlyOne, commentAux fuel])).repeated 0).map
          List.flatten) (c ++ ')' :: r) = some (c, ')' :: r) := by
      simp [hrep, hflat]
    rw [thenIgnore_some hmap, orNot_none (fws_plain (startsPlain_close r))]
    rfl
  have hopen : just '(' ('(' :: (c ++ ')' :: r)) = some ('(', c ++ ')' :: r) := by
    simp [just_cons]
  rw [comment, commentAux_succ, delimitedBy, ignoreThen_some hopen,
    thenIgnore_some (hinner _)]
  simp [just_cons]

/-! ### CFWS -/

theorem fws_open (s : List Char) : fws ('(' :: s) = none := fws_none rfl rfl

theorem cfws_eq : cfws = ((((fws.orEmpty.chain comment).repeated 0).map List.flatten).chain
    (choice [fws.orEmpty.chain comment, fws])) := rfl

/-- `cfws` runs its repetition of `[FWS] comment`, then `([FWS] comment) / FWS` where the
repetition stopped. -/
theorem cfws_run {t t' : List Char} {ys : List (List Char)}
    (h : ((fws.orEmpty.chain comment).repeated 0) t = some (ys, t')) :
    cfws t = (choice [fws.orEmpty.chain comment, fws] t').map
      fun (zs, r) => (ys.flatten ++ zs, r) := by
  rw [cfws_eq, chain_some (by simp [h] : (((fws.orEmpty.chain comment).repeated 0).map
    List.flatten) t = some (ys.flatten, t'))]

/-- `[FWS] comment` on a comment of letters and digits. -/
theorem fwsComment_alnum {c : List Char} (hc : ∀ x ∈ c, x.isAlphanum = true) (t : List Char) :
    (fws.orEmpty.chain comment) ('(' :: (c ++ ')' :: t)) = some (c, t) := by
  rw [chain_some (orEmpty_none (fws_open _)), comment_alnum hc]
  rfl

section Plain

variable {t : List Char} (ht : StartsPlain t)
include ht

theorem fwsComment_plain : (fws.orEmpty.chain comment) t = none := by
  rw [chain_some (orEmpty_none (fws_plain ht)), comment_none ht]
  rfl

theorem fwsComment_space : (fws.orEmpty.chain comment) (' ' :: t) = none := by
  rw [chain_some (orEmpty_some (fws_space ht)), comment_none ht]
  rfl

/-- What may end CFWS, `([FWS] comment) / FWS`, does not start plain text. -/
theorem cfwsTail_plain : choice [fws.orEmpty.chain comment, fws] t = none := by
  simp [choice, or_none, fwsComment_plain ht, fws_plain ht, fail]

theorem cfwsTail_space : choice [fws.orEmpty.chain comment, fws] (' ' :: t) = some ([' '], t) := by
  simp [choice, or_none, fwsComment_space ht, or_some (fws_space ht)]

/-- Plain text is not CFWS. -/
theorem cfws_plain : cfws t = none := by
  rw [cfws_run (repeated_stop (fwsComment_plain ht)), cfwsTail_plain ht]
  rfl

/-- One space before plain text is CFWS. -/
theorem cfws_space : cfws (' ' :: t) = some ([' '], t) := by
  rw [cfws_run (repeated_stop (fwsComment_space ht)), cfwsTail_space ht]
  rfl

variable {c : List Char} (hc : ∀ x ∈ c, x.isAlphanum = true)
include hc

/-- **A comment before plain text is not CFWS**: the greedy repetition takes the comment, and
no FWS is left for the final `([FWS] comment) / FWS`. -/
theorem cfws_comment : cfws ('(' :: (c ++ ')' :: t)) = none := by
  have hrep : ((fws.orEmpty.chain comment).repeated 0) ('(' :: (c ++ ')' :: t)) =
      some ([c], t) := by
    rw [repeated_cons (fwsComment_alnum hc t) (by simp; omega),
      repeated_stop (fwsComment_plain ht)]
    rfl
  rw [cfws_run hrep, cfwsTail_plain ht]
  rfl

/-- A comment and a space before plain text are CFWS, and both are kept. -/
theorem cfws_comment_space :
    cfws ('(' :: (c ++ ')' :: ' ' :: t)) = some (c ++ [' '], t) := by
  have hrep : ((fws.orEmpty.chain comment).repeated 0) ('(' :: (c ++ ')' :: ' ' :: t)) =
      some ([c], ' ' :: t) := by
    rw [repeated_cons (fwsComment_alnum hc (' ' :: t)) (by simp; omega),
      repeated_stop (fwsComment_space ht)]
    rfl
  rw [cfws_run hrep, cfwsTail_space ht]
  simp

end Plain

/-! ### CFWS never ends with a comment -/

theorem crlf_forward : crlf.Forward :=
  chain_forward (exactlyOne_forward (filter_forward _)) (exactlyOne_forward (filter_forward _))

/-- The optional `*WSP CRLF` that FWS starts with. -/
theorem fwsHead_forward : ((wsp.repeated 0).chain crlf).orEmpty.Forward :=
  orEmpty_forward (chain_forward (repeated_forward (filter_forward _) 0) crlf_forward)

theorem fws_forward : fws.Forward :=
  chain_forward fwsHead_forward (repeated_forward (filter_forward _) 1)

/-- The text between a comment's parentheses. -/
theorem commentBody_forward {fuel : Nat} (hc : (commentAux fuel).Forward) :
    ((((fws.orNot.ignoreThen (choice [ctext.exactlyOne, quotedPair.exactlyOne,
      commentAux fuel])).repeated 0).map List.flatten).thenIgnore fws.orNot).Forward := by
  have hcontent :
      ∀ p ∈ [ctext.exactlyOne, quotedPair.exactlyOne, commentAux fuel], p.Forward := by
    simp only [List.forall_mem_cons, List.not_mem_nil, false_implies, implies_true, and_true]
    exact ⟨exactlyOne_forward (filter_forward _),
      exactlyOne_forward (ignoreThen_forward (filter_forward _) (filter_forward _)), hc⟩
  exact thenIgnore_forward (map_forward (repeated_forward
    (ignoreThen_forward (orNot_forward fws_forward) (choice_forward hcontent)) 0))
    (orNot_forward fws_forward)

theorem commentAux_forward : ∀ fuel, (commentAux fuel).Forward
  | 0 => fun _ _ _ h => by cases h
  | fuel + 1 => by
    rw [commentAux_succ]
    exact delimitedBy_forward (commentBody_forward (commentAux_forward fuel)) (filter_forward _)
      (filter_forward _)

theorem comment_forward : comment.Forward := fun s => commentAux_forward (s.length + 1) s

/-- The repeated `[FWS] comment` that CFWS starts with. -/
theorem cfwsHead_forward : (((fws.orEmpty.chain comment).repeated 0).map List.flatten).Forward :=
  map_forward (repeated_forward (chain_forward (orEmpty_forward fws_forward) comment_forward) 0)

/-- **CFWS ends with white space.** Whatever `cfws` reads ends with a space or a tab: the greedy
`*([FWS] comment)` stops where `[FWS] comment` fails, so of the final `([FWS] comment) / FWS`
only FWS, which ends with `1*WSP`, can succeed. A comment is CFWS only with white space after it.
-/
theorem cfws_end {s v r : List Char} (h : cfws s = some (v, r)) :
    ∃ p w, s = p ++ w :: r ∧ (w = ' ' ∨ w = '\t') := by
  rw [cfws_eq] at h
  obtain ⟨v₁, r₁, v₂, hx, hz, -⟩ := chain_eq_some h
  obtain ⟨ys, hys, -⟩ := map_eq_some hx
  have hy : (fws.orEmpty.chain comment) r₁ = none := repeated_stopped hys
  have hf : fws r₁ = some (v₂, r) := by
    rw [choice, or_none hy, choice] at hz
    cases hfws : fws r₁ with
    | none => rw [or_none hfws] at hz; cases hz
    | some x => rw [or_some hfws] at hz; exact hz
  obtain ⟨u, r₂, ws, hu, hws, -⟩ := chain_eq_some hf
  obtain ⟨rfl, hlen, hall⟩ := repeated_filter hws
  obtain ⟨q₁, rfl⟩ := cfwsHead_forward s v₁ _ hx
  obtain ⟨q₂, rfl⟩ := fwsHead_forward _ u _ hu
  obtain ⟨ws', w, rfl⟩ := (List.eq_nil_or_concat ws).resolve_left
    (fun he => by simp [he] at hlen)
  refine ⟨q₁ ++ q₂ ++ ws', w, by simp, ?_⟩
  simpa using hall w (by simp)

/-- A comment and a space: `(c) ` ends with its space. -/
theorem cfws_end_comment_space :
    cfws ['(', 'c', ')', ' '] = some (['c', ' '], []) ∧
      ∃ p w, ['(', 'c', ')', ' '] = p ++ w :: [] ∧ (w = ' ' ∨ w = '\t') := by
  have h : cfws ['(', 'c', ')', ' '] = some (['c', ' '], []) :=
    cfws_comment_space (c := ['c']) startsPlain_nil (by decide)
  exact ⟨h, cfws_end h⟩

/-! ### Every item of `obs_phrase` reads a character -/

theorem commentAux_progresses : ∀ fuel, (commentAux fuel).Progresses
  | 0 => fun _ _ _ h => by cases h
  | fuel + 1 => by
    rw [commentAux_succ]
    exact delimitedBy_progresses (commentBody_forward (commentAux_forward fuel))
      (filter_progresses _) (filter_forward _)

theorem comment_progresses : comment.Progresses := fun s => commentAux_progresses (s.length + 1) s

theorem fws_progresses : fws.Progresses :=
  chain_progresses_right fwsHead_forward
    (repeated_progresses (filter_forward _) (filter_progresses _) 0)

theorem cfws_forward : cfws.Forward := by
  refine chain_forward cfwsHead_forward (choice_forward ?_)
  simp only [List.forall_mem_cons, List.not_mem_nil, false_implies, implies_true, and_true]
  exact ⟨chain_forward (orEmpty_forward fws_forward) comment_forward, fws_forward⟩

theorem cfws_progresses : cfws.Progresses := by
  refine chain_progresses_right cfwsHead_forward (choice_progresses ?_)
  simp only [List.forall_mem_cons, List.not_mem_nil, false_implies, implies_true, and_true]
  exact ⟨chain_progresses_right (orEmpty_forward fws_forward) comment_progresses, fws_progresses⟩

theorem atext_forward : atext.Forward := by
  refine choice_forward ?_
  simp only [List.forall_mem_cons, List.not_mem_nil, false_implies, implies_true, and_true]
  exact ⟨filter_forward _, filter_forward _, filter_forward _, filter_forward _⟩

theorem atext_progresses : atext.Progresses := by
  refine choice_progresses ?_
  simp only [List.forall_mem_cons, List.not_mem_nil, false_implies, implies_true, and_true]
  exact ⟨filter_progresses _, filter_progresses _, filter_progresses _, filter_progresses _⟩

theorem qcontent_forward : qcontent.Forward := by
  refine choice_forward ?_
  simp only [List.forall_mem_cons, List.not_mem_nil, false_implies, implies_true, and_true]
  refine ⟨choice_forward ?_, ignoreThen_forward (filter_forward _) (filter_forward _),
    filter_forward _⟩
  simp only [List.forall_mem_cons, List.not_mem_nil, false_implies, implies_true, and_true]
  exact ⟨filter_forward _, filter_forward _⟩

theorem atom_progresses : atom.Progresses :=
  chain_progresses_left (chain_progresses_right (orEmpty_forward cfws_forward)
    (repeated_progresses atext_forward atext_progresses 0)) (orEmpty_forward cfws_forward)

theorem quotedString_progresses : quotedString.Progresses :=
  thenIgnore_progresses (chain_progresses_right (orEmpty_forward cfws_forward)
    (thenIgnore_progresses (chain_progresses_left (ignoreThen_progresses (filter_progresses _)
      (map_forward (repeated_forward (chain_forward (orEmpty_forward fws_forward)
        (exactlyOne_forward qcontent_forward)) 0)))
      (orEmpty_forward fws_forward)) (filter_forward _))) (orEmpty_forward cfws_forward)

theorem word_progresses : word.Progresses := by
  refine choice_progresses ?_
  simp only [List.forall_mem_cons, List.not_mem_nil, false_implies, implies_true, and_true]
  exact ⟨atom_progresses, quotedString_progresses⟩

/-- Each item of `*(word / "." / CFWS)` reads at least one character. -/
theorem phraseItem_progresses : (choice [word, (just '.').exactlyOne, cfws]).Progresses := by
  refine choice_progresses ?_
  simp only [List.forall_mem_cons, List.not_mem_nil, false_implies, implies_true, and_true]
  exact ⟨word_progresses, map_progresses (filter_progresses _), cfws_progresses⟩

/-- **`phrase` is `obs_phrase`.** `obs_phrase` fails only where its first `word` does, since the
`*(word / "." / CFWS)` after it never fails; and there `1*word` fails too. So the second branch
of `phrase` never gives its result: on every input `phrase` returns what `obs_phrase` returns. -/
theorem phrase_eq_obsPhrase (s : List Char) : phrase s = obsPhrase s := by
  rw [phrase, choice, choice, choice]
  cases h : obsPhrase s with
  | some x => exact or_some h
  | none =>
    have hw : word s = none := by
      cases hw : word s with
      | none => rfl
      | some x =>
        have hrest := repeated_zero_isSome phraseItem_progresses x.2
        rw [obsPhrase, chain_some hw, map_apply, Option.map_eq_none', Option.map_eq_none'] at h
        simp [h] at hrest
    rw [or_none h, or_none (by rw [map_apply, repeated_stop_succ hw]; rfl)]
    rfl

/-! ### Atoms, words and local parts of letters and digits -/

/-- Where no dot follows, `*("." x)` reads nothing. -/
theorem dotTail_none {t : List Char} (hdot : just '.' t = none) (p : Parser (List Char)) :
    ((just '.').exactlyOne.chain p) t = none := by
  simp [exactlyOne, chain_none, hdot]

section Word

variable {a : List Char} (ha : a ≠ []) (hat : ∀ x ∈ a, x.isAlphanum = true) (s : List Char)
include ha hat

theorem startsPlain_alnum_append : StartsPlain (a ++ s) := by
  obtain ⟨x, a', rfl⟩ := List.exists_cons_of_ne_nil ha
  exact startsPlain_alnum (hat x (List.mem_cons_self x a')) (a' ++ s)

theorem atext_repeated_alnum (hs : atext s = none) : atext.repeated 1 (a ++ s) = some (a, s) := by
  simpa using repeated_chars (g := id) (fun x hx r => atext_alnum (hat x hx) r) hs
    (List.length_pos.mpr ha)

/-- An atom of letters and digits takes the CFWS after it into its text. -/
theorem atom_alnum {v r : List Char} (hs : atext s = none) (h : cfws.orEmpty s = some (v, r)) :
    atom (a ++ s) = some (a ++ v, r) := by
  rw [atom, chain_some (by
    rw [chain_some (orEmpty_none (cfws_plain (startsPlain_alnum_append ha hat s))),
      atext_repeated_alnum ha hat s hs]
    rfl : (cfws.orEmpty.chain (atext.repeated 1)) (a ++ s) = some (a, s)), h]
  rfl

/-- Letters and digits with no dot after them are no `dot-atom`. -/
theorem dotAtom_alnum (hs : atext s = none) (hdot : just '.' s = none) :
    dotAtom (a ++ s) = none := by
  have htail : ((((just '.').exactlyOne.chain (atext.repeated 1)).repeated 1).map List.flatten)
      s = none := by
    simp [repeated_stop_succ (dotTail_none hdot _) 0]
  have htext : (cfws.orEmpty.chain dotAtomText) (a ++ s) = none := by
    rw [chain_some (orEmpty_none (cfws_plain (startsPlain_alnum_append ha hat s))), dotAtomText,
      chain_some (atext_repeated_alnum ha hat s hs), htail]
    rfl
  exact chain_none htext

/-- Letters and digits are no `quoted-string`. -/
theorem quotedString_alnum : quotedString (a ++ s) = none := by
  have hq : dquote (a ++ s) = none := by
    obtain ⟨x, a', rfl⟩ := List.exists_cons_of_ne_nil ha
    exact just_alnum (hat x (List.mem_cons_self x a')) _ (by decide)
  have hinner : ((dquote.ignoreThen (((fws.orEmpty.chain qcontent.exactlyOne).repeated 0).map
      List.flatten) |>.chain fws.orEmpty) |>.thenIgnore dquote) (a ++ s) = none :=
    thenIgnore_none (chain_none (ignoreThen_none hq))
  rw [quotedString]
  refine thenIgnore_none ?_
  rw [chain_some (orEmpty_none (cfws_plain (startsPlain_alnum_append ha hat s))), hinner]
  rfl

/-- **The local part of letters and digits** is `obs-local-part`, with the CFWS after it. -/
theorem localPart_alnum {v r : List Char} (hs : atext s = none) (hdot : just '.' s = none)
    (h : cfws.orEmpty s = some (v, r)) (hr : just '.' r = none) :
    localPart (a ++ s) = some (a ++ v, r) := by
  have hword : word (a ++ s) = some (a ++ v, r) := or_some (atom_alnum ha hat s hs h)
  have htail : ((((just '.').exactlyOne.chain word).repeated 0).map List.flatten) r =
      some ([], r) := by
    simp [repeated_stop (dotTail_none hr word)]
  have hobs : obsLocalPart (a ++ s) = some (a ++ v, r) := by
    rw [obsLocalPart, chain_some hword, htail]
    simp
  rw [localPart, choice, or_none (dotAtom_alnum ha hat s hs hdot), choice,
    or_none (quotedString_alnum ha hat s), choice, or_some hobs]

/-- A domain of letters and digits, before text that is no `atext`, no dot and no CFWS, is
`obs-domain`. -/
theorem domain_alnum_of (hs : atext s = none) (hdot : just '.' s = none) (hp : StartsPlain s) :
    domain (a ++ s) = some (a, s) := by
  have hatom : atom (a ++ s) = some (a, s) := by
    simpa using atom_alnum ha hat s hs (orEmpty_none (cfws_plain hp))
  have hlit : domainLiteral (a ++ s) = none := by
    obtain ⟨x, a', rfl⟩ := List.exists_cons_of_ne_nil ha
    rw [domainLiteral]
    refine thenIgnore_none ?_
    rw [ignoreThen_some (orNot_none (cfws_plain (startsPlain_alnum_append ha hat s))),
      delimitedBy, List.cons_append]
    exact ignoreThen_none (just_alnum (hat x (List.mem_cons_self x a')) _ (by decide))
  have hobs : obsDomain (a ++ s) = some (a, s) := by
    rw [obsDomain, chain_some hatom]
    simp [repeated_stop (dotTail_none hdot atom)]
  rw [domain, choice, or_none (dotAtom_alnum ha hat s hs hdot), choice, or_none hlit, choice,
    or_some hobs]

/-- **A domain of letters and digits** is `obs-domain`. -/
theorem domain_alnum (hs : s = []) : domain (a ++ s) = some (a, []) := by
  subst hs
  exact domain_alnum_of ha hat [] rfl rfl startsPlain_nil

end Word

/-! ### `addr_spec` -/

section AddrSpec

variable {a d : List Char} (ha : a ≠ []) (hat : ∀ x ∈ a, x.isAlphanum = true)
include ha hat

/-- Letters and digits, then CFWS that reads as `v` up to an `@`, then a domain of letters and
digits: `addr_spec` reads the local part `a ++ v`. -/
theorem addrSpec_alnum {s v : List Char} (hs : atext s = none) (hdot : just '.' s = none)
    (h : cfws.orEmpty s = some (v, '@' :: d)) (hd : d ≠ []) (hdt : ∀ x ∈ d, x.isAlphanum = true) :
    addrSpec (a ++ s) = some ((a ++ v, d), []) := by
  have hlocal : (localPart.thenIgnore (just '@')) (a ++ s) = some (a ++ v, d) := by
    rw [thenIgnore_some (localPart_alnum ha hat s hs hdot h rfl)]
    simp [just_cons]
  have hdom : domain d = some (d, []) := by simpa using domain_alnum hd hdt [] rfl
  rw [addrSpec, then_some hlocal, hdom]
  rfl

/-- Letters and digits, then CFWS that reads as `v` and is not followed by an `@`: `addr_spec`
fails. -/
theorem addrSpec_alnum_none {s v r : List Char} (hs : atext s = none) (hdot : just '.' s = none)
    (h : cfws.orEmpty s = some (v, r)) (hr : just '.' r = none) (hat' : just '@' r = none) :
    addrSpec (a ++ s) = none := by
  rw [addrSpec, then_none]
  rw [thenIgnore_some (localPart_alnum ha hat s hs hdot h hr), hat']
  rfl

/-- An address of letters and digits, `a@d`, before text that is no `atext`, no dot and no
CFWS. -/
theorem addrSpec_alnum_of {t : List Char} (hd : d ≠ []) (hdt : ∀ x ∈ d, x.isAlphanum = true)
    (ht : atext t = none) (htd : just '.' t = none) (htp : StartsPlain t) :
    addrSpec (a ++ '@' :: (d ++ t)) = some ((a, d), t) := by
  have hlocal : (localPart.thenIgnore (just '@')) (a ++ '@' :: (d ++ t)) = some (a, d ++ t) := by
    rw [thenIgnore_some (localPart_alnum ha hat ('@' :: (d ++ t)) rfl rfl
      (orEmpty_none (cfws_plain (startsPlain_at _))) rfl)]
    simp [just_cons]
  rw [addrSpec, then_some hlocal, domain_alnum_of hd hdt t ht htd htp]
  rfl

end AddrSpec

/-- **`addr_spec` keeps CFWS and rejects a comment before `@`.** For every nonempty `a`, `d` and
every `c` made of letters and digits: `a(c)@d`, a valid addr-spec whose local part is
`a` followed by a comment, is rejected; `a @d` is read with the local part `a ` and `a(c) @d`
with the local part `ac `, the comment's text and the space kept. -/
theorem addrSpec_cfws {a c d : List Char} (ha : a ≠ []) (hd : d ≠ [])
    (hat : ∀ x ∈ a, x.isAlphanum = true) (hct : ∀ x ∈ c, x.isAlphanum = true)
    (hdt : ∀ x ∈ d, x.isAlphanum = true) :
    addrSpec (a ++ '(' :: (c ++ ')' :: '@' :: d)) = none ∧
    addrSpec (a ++ ' ' :: '@' :: d) = some ((a ++ [' '], d), []) ∧
    addrSpec (a ++ '(' :: (c ++ ')' :: ' ' :: '@' :: d)) = some ((a ++ (c ++ [' ']), d), []) :=
  ⟨addrSpec_alnum_none ha hat rfl rfl
      (orEmpty_none (cfws_comment (startsPlain_at d) hct)) rfl rfl,
    addrSpec_alnum ha hat rfl rfl (orEmpty_some (cfws_space (startsPlain_at d))) hd hdt,
    addrSpec_alnum ha hat rfl rfl (orEmpty_some (cfws_comment_space (startsPlain_at d) hct))
      hd hdt⟩

/-- `a(x)@b` is rejected, `a @b` gives the local part `a `, and `a(x) @b` the local part
`ax `. -/
theorem addrSpec_cfws_a_x_b :
    addrSpec "a(x)@b".toList = none ∧ addrSpec "a @b".toList = some (("a ".toList, ['b']), []) ∧
      addrSpec "a(x) @b".toList = some (("ax ".toList, ['b']), []) :=
  addrSpec_cfws (a := ['a']) (c := ['x']) (d := ['b']) (by simp) (by simp) (by decide) (by decide)
    (by decide)

/-! ### Display names and mailboxes -/

theorem trimEnd_append_space (x : List Char) : trimEnd (x ++ [' ']) = trimEnd x := by
  simp [trimEnd, List.dropWhile_cons, isWhitespace]

theorem trimEnd_concat (y : List Char) {c : Char} (hc : isWhitespace c = false) :
    trimEnd (y ++ [c]) = y ++ [c] := by
  simp [trimEnd, List.dropWhile_cons, hc]

theorem startsPlain_lt (t : List Char) : StartsPlain ('<' :: t) := ⟨rfl, rfl, rfl⟩

theorem startsPlain_gt (t : List Char) : StartsPlain ('>' :: t) := ⟨rfl, rfl, rfl⟩

/-- Text that starts with neither white space, a comment, an `atext` nor a quote is no word. -/
theorem word_none {t : List Char} (ht : StartsPlain t) (ha : atext t = none)
    (hq : dquote t = none) : word t = none := by
  have hatom : atom t = none := by
    rw [atom]
    refine chain_none (chain_some (orEmpty_none (cfws_plain ht)) |>.trans ?_)
    simp [repeated_stop_succ ha]
  have hquoted : quotedString t = none := by
    rw [quotedString]
    refine thenIgnore_none ?_
    rw [chain_some (orEmpty_none (cfws_plain ht))]
    simp [thenIgnore_none, chain_none, ignoreThen_none hq]
  simp [word, choice, or_none hatom, or_none hquoted, fail]

theorem isWhitespace_alnum {x : Char} (hx : x.isAlphanum = true) : isWhitespace x = false := by
  have := toNat_of_isAlphanum hx
  simp [isWhitespace]
  omega

/-- The one-word items of a phrase: a word, a dot, or CFWS. -/
theorem phraseItem_lt (t : List Char) :
    choice [word, (just '.').exactlyOne, cfws] ('<' :: t) = none := by
  have hdot : (just '.').exactlyOne ('<' :: t) = none := rfl
  rw [choice, or_none (word_none (startsPlain_lt t) rfl rfl), choice, or_none hdot, choice,
    or_none (cfws_plain (startsPlain_lt t))]
  rfl

theorem spaced_eq {ws : List (List Char)} (hws : ws ≠ []) :
    (ws.map (· ++ [' '])).flatten = List.intercalate [' '] ws ++ [' '] := by
  induction ws with
  | nil => exact absurd rfl hws
  | cons w ws ih =>
    cases ws with
    | nil => simp [List.intercalate]
    | cons w' ws =>
      have := ih (List.cons_ne_nil _ _)
      simp only [List.intercalate, List.intersperse_cons₂, List.flatten_cons, List.map_cons]
        at this ⊢
      simp [this]

theorem word_alnum_space {w : List Char} (hne : w ≠ []) (hwt : ∀ x ∈ w, x.isAlphanum = true)
    {r : List Char} (hr : StartsPlain r) : word (w ++ ' ' :: r) = some (w ++ [' '], r) :=
  or_some (atom_alnum hne hwt (' ' :: r) rfl (orEmpty_some (cfws_space hr)))

section Words

variable {ws : List (List Char)} (hw : ∀ w ∈ ws, w ≠ [] ∧ ∀ x ∈ w, x.isAlphanum = true)
include hw

theorem intercalate_space_eq (hws : ws ≠ []) :
    ∃ y c, List.intercalate [' '] ws = y ++ [c] ∧ c.isAlphanum = true := by
  induction ws with
  | nil => exact absurd rfl hws
  | cons w ws ih =>
    obtain ⟨hne, hwt⟩ := hw w (List.mem_cons_self w ws)
    cases ws with
    | nil =>
      obtain ⟨y, c, rfl⟩ := (List.eq_nil_or_concat w).resolve_left hne
      exact ⟨y, c, by simp [List.intercalate], hwt c (by simp)⟩
    | cons w' ws =>
      obtain ⟨y, c, hy, hc⟩ := ih (fun v hv => hw v (List.mem_cons_of_mem w hv))
        (List.cons_ne_nil _ _)
      refine ⟨w ++ ' ' :: y, c, ?_, hc⟩
      simp only [List.intercalate, List.intersperse_cons₂, List.flatten_cons] at hy ⊢
      simp [hy]

theorem startsPlain_words (rest : List Char) :
    StartsPlain ((ws.map (· ++ [' '])).flatten ++ '<' :: rest) := by
  cases ws with
  | nil => exact startsPlain_lt rest
  | cons w ws =>
    simpa [List.append_assoc] using
      startsPlain_alnum_append (hw w (List.mem_cons_self w ws)).1 (hw w (List.mem_cons_self w ws)).2
        _

theorem just_words {c : Char} (hc : c.isAlphanum = false) (hlt : c ≠ '<') (rest : List Char) :
    just c ((ws.map (· ++ [' '])).flatten ++ '<' :: rest) = none := by
  cases ws with
  | nil => simp [just_cons, Ne.symm hlt]
  | cons w ws =>
    obtain ⟨x, w', rfl⟩ := List.exists_cons_of_ne_nil (hw w (List.mem_cons_self w ws)).1
    simpa using just_alnum ((hw _ (List.mem_cons_self _ ws)).2 x (List.mem_cons_self x w')) _ hc

/-- **An obsolete phrase of words.** Words of letters and digits, each followed by a space,
before `<`, read as one phrase, the spaces kept. -/
theorem obsPhrase_words (hws : ws ≠ []) (rest : List Char) :
    obsPhrase ((ws.map (· ++ [' '])).flatten ++ '<' :: rest) =
      some ((ws.map (· ++ [' '])).flatten, '<' :: rest) := by
  obtain ⟨w, ws', rfl⟩ := List.exists_cons_of_ne_nil hws
  obtain ⟨hne, hwt⟩ := hw w (List.mem_cons_self w ws')
  have hw' : ∀ v ∈ ws', v ≠ [] ∧ ∀ x ∈ v, x.isAlphanum = true :=
    fun v hv => hw v (List.mem_cons_of_mem w hv)
  have htail : (choice [word, (just '.').exactlyOne, cfws]).repeated 0
      ((ws'.map (· ++ [' '])).flatten ++ '<' :: rest) = some (ws'.map (· ++ [' ']), '<' :: rest) :=
    repeated_items (Q := StartsPlain) (fun v _ => by simp)
      (fun v hv r hr => or_some (by simpa using word_alnum_space (hw' v hv).1 (hw' v hv).2 hr))
      (fun v hv r => by simpa using startsPlain_alnum_append (hw' v hv).1 (hw' v hv).2 _)
      (startsPlain_lt rest) (phraseItem_lt rest) (Nat.zero_le _)
  rw [List.map_cons, List.flatten_cons, List.append_assoc, obsPhrase,
    chain_some (by simpa using word_alnum_space hne hwt (startsPlain_words hw' rest))]
  simp [htail]

theorem trimEnd_intercalate (hws : ws ≠ []) :
    trimEnd (List.intercalate [' '] ws ++ [' ']) = List.intercalate [' '] ws := by
  obtain ⟨y, c, hy, hc⟩ := intercalate_space_eq hw hws
  rw [trimEnd_append_space, hy, trimEnd_concat y (isWhitespace_alnum hc)]

end Words

/-- Where a mailbox of a list ends: at the end of the text, or before a comma. -/
def AtSeparator (t : List Char) : Prop := ∀ c ∈ t.head?, c = ','

theorem AtSeparator.plain {t : List Char} (ht : AtSeparator t) :
    atext t = none ∧ just '.' t = none ∧ StartsPlain t := by
  cases t with
  | nil => exact ⟨rfl, rfl, startsPlain_nil⟩
  | cons c r =>
    obtain rfl : c = ',' := ht c rfl
    exact ⟨rfl, rfl, ⟨rfl, rfl, rfl⟩⟩

section Mailbox

variable {l d : List Char} (hl : l ≠ []) (hlt : ∀ x ∈ l, x.isAlphanum = true) (hd : d ≠ [])
  (hdt : ∀ x ∈ d, x.isAlphanum = true)
include hl hlt hd hdt

theorem angleAddr_alnum {t : List Char} (ht : StartsPlain t) :
    angleAddr ('<' :: (l ++ '@' :: (d ++ '>' :: t))) = some ((l, d), t) := by
  have haddr : (addrSpec.thenIgnore (just '>')) (l ++ '@' :: (d ++ '>' :: t)) =
      some ((l, d), t) := by
    rw [thenIgnore_some
      (addrSpec_alnum_of hl hlt hd hdt (t := '>' :: t) rfl rfl (startsPlain_gt t))]
    simp [just_cons]
  rw [angleAddr, thenIgnore_some (by
    rw [ignoreThen_some (orNot_none (cfws_plain (startsPlain_lt _))), delimitedBy,
      ignoreThen_some (by simp [just_cons] : just '<' ('<' :: (l ++ '@' :: (d ++ '>' :: t))) =
        some ('<', l ++ '@' :: (d ++ '>' :: t))), haddr])]
  rw [orNot_none (cfws_plain ht)]
  rfl

/-- An address of letters and digits before a comma or the end is read as a bare address. -/
theorem mailbox_addr {t : List Char} (ht : AtSeparator t) :
    mailbox (l ++ '@' :: (d ++ t)) = some ((none, (l, d)), t) := by
  obtain ⟨hta, htd, htp⟩ := ht.plain
  simp [mailbox, choice, or_some, addrSpec_alnum_of hl hlt hd hdt hta htd htp]

/-- A name of words and an address in angle brackets are read as the name and the address. -/
theorem mailbox_nameAddr {ws : List (List Char)} (hws : ws ≠ [])
    (hw : ∀ w ∈ ws, w ≠ [] ∧ ∀ x ∈ w, x.isAlphanum = true) {t : List Char} (ht : StartsPlain t) :
    mailbox (List.intercalate [' '] ws ++ ' ' :: '<' :: (l ++ '@' :: (d ++ '>' :: t))) =
      some ((some (List.intercalate [' '] ws), (l, d)), t) := by
  have htext : List.intercalate [' '] ws ++ ' ' :: '<' :: (l ++ '@' :: (d ++ '>' :: t)) =
      (ws.map (· ++ [' '])).flatten ++ '<' :: (l ++ '@' :: (d ++ '>' :: t)) := by
    rw [spaced_eq hws, List.append_assoc]
    rfl
  obtain ⟨w, ws', rfl⟩ := List.exists_cons_of_ne_nil hws
  obtain ⟨hne, hwt⟩ := hw w (List.mem_cons_self w ws')
  have hw' : ∀ v ∈ ws', v ≠ [] ∧ ∀ x ∈ v, x.isAlphanum = true :=
    fun v hv => hw v (List.mem_cons_of_mem w hv)
  have haddr : addrSpec (((w :: ws').map (· ++ [' '])).flatten ++
      '<' :: (l ++ '@' :: (d ++ '>' :: t))) = none := by
    rw [List.map_cons, List.flatten_cons, List.append_assoc, List.append_assoc,
      List.singleton_append]
    exact addrSpec_alnum_none hne hwt rfl rfl (orEmpty_some (cfws_space (startsPlain_words hw' _)))
      (just_words hw' (by decide) (by decide) _) (just_words hw' (by decide) (by decide) _)
  have hname : (displayName.map trimEnd).orNot (((w :: ws').map (· ++ [' '])).flatten ++
      '<' :: (l ++ '@' :: (d ++ '>' :: t))) =
      some (some (List.intercalate [' '] (w :: ws')), '<' :: (l ++ '@' :: (d ++ '>' :: t))) := by
    rw [orNot_some (by
      rw [map_apply, displayName, phrase, choice, or_some (obsPhrase_words hw hws _)]
      rfl), spaced_eq hws, trimEnd_intercalate hw hws]
  rw [htext, mailbox, choice, or_none (by rw [map_apply, haddr]; rfl), choice, or_some (by
    rw [nameAddr, then_some hname, angleAddr_alnum hl hlt hd hdt ht]
    rfl)]

/-- **`mailbox` reads the two forms `Display for Mailbox` writes.** For a display name of words
of letters and digits separated by single spaces, and a local part and a domain of letters and
digits, `mailbox` reads `local@domain` as a bare address, and `name <local@domain>` as the name
and the address, each to the end of the text. -/
theorem mailbox_display {ws : List (List Char)} (hws : ws ≠ [])
    (hw : ∀ w ∈ ws, w ≠ [] ∧ ∀ x ∈ w, x.isAlphanum = true) :
    mailbox (l ++ '@' :: d) = some ((none, (l, d)), []) ∧
      mailbox (List.intercalate [' '] ws ++ ' ' :: '<' :: (l ++ '@' :: (d ++ ['>']))) =
        some ((some (List.intercalate [' '] ws), (l, d)), []) :=
  ⟨by simpa using mailbox_addr hl hlt hd hdt (t := []) (fun _ h => by cases h),
    mailbox_nameAddr hl hlt hd hdt hws hw startsPlain_nil⟩

end Mailbox

/-- `jd@example`, and `John Doe <jd@example>`. -/
theorem mailbox_display_john_doe :
    let l := "jd".toList
    let d := "example".toList
    let ws := ["John".toList, "Doe".toList]
    (l ≠ [] ∧ (∀ x ∈ l, x.isAlphanum = true) ∧ d ≠ [] ∧ (∀ x ∈ d, x.isAlphanum = true) ∧
      ws ≠ [] ∧ ∀ w ∈ ws, w ≠ [] ∧ ∀ x ∈ w, x.isAlphanum = true) ∧
    mailbox (l ++ '@' :: d) = some ((none, (l, d)), []) ∧
      mailbox (List.intercalate [' '] ws ++ ' ' :: '<' :: (l ++ '@' :: (d ++ ['>']))) =
        some ((some (List.intercalate [' '] ws), (l, d)), []) := by
  intro l d ws
  have hl : l ≠ [] := by decide
  have hlt : ∀ x ∈ l, x.isAlphanum = true := by decide
  have hd : d ≠ [] := by decide
  have hdt : ∀ x ∈ d, x.isAlphanum = true := by decide
  have hws : ws ≠ [] := by decide
  have hw : ∀ w ∈ ws, w ≠ [] ∧ ∀ x ∈ w, x.isAlphanum = true := by decide
  exact ⟨⟨hl, hlt, hd, hdt, hws, hw⟩, mailbox_display hl hlt hd hdt hws hw⟩

/-! ### Mailbox lists -/

/-- A text of letters and digits. -/
def AlnumWord (w : List Char) : Prop := w ≠ [] ∧ ∀ x ∈ w, x.isAlphanum = true

instance (w : List Char) : Decidable (AlnumWord w) :=
  decidable_of_iff (w ≠ [] ∧ w.all Char.isAlphanum = true)
    (and_congr_right fun _ => List.all_eq_true)

/-- A mailbox with a name given as its words, or with no name, as `Display for Mailbox` writes
it: the words joined by spaces, then the address in angle brackets; or the bare address. -/
def mailboxDisplay : Option (List (List Char)) × List Char × List Char → List Char
  | (some ws, l, d) => List.intercalate [' '] ws ++ ' ' :: '<' :: (l ++ '@' :: (d ++ ['>']))
  | (none, l, d) => l ++ '@' :: d

/-- `Display for Mailboxes`: the first mailbox, then `", "` before each of the others. -/
def mailboxesDisplay : List (Option (List (List Char)) × List Char × List Char) → List Char
  | [] => []
  | x :: xs => mailboxDisplay x ++ (xs.map fun y => ',' :: ' ' :: mailboxDisplay y).flatten

/-- A mailbox whose address is letters and digits and whose name, if any, is words of letters
and digits. -/
def Readable (x : Option (List (List Char)) × List Char × List Char) : Prop :=
  AlnumWord x.2.1 ∧ AlnumWord x.2.2 ∧ ∀ ws ∈ x.1, ws ≠ [] ∧ ∀ w ∈ ws, AlnumWord w

instance (x : Option (List (List Char)) × List Char × List Char) : Decidable (Readable x) :=
  inferInstanceAs (Decidable
    (AlnumWord x.2.1 ∧ AlnumWord x.2.2 ∧ ∀ ws ∈ x.1, ws ≠ [] ∧ ∀ w ∈ ws, AlnumWord w))

theorem mailbox_nil : mailbox [] = none := rfl

theorem mailbox_readable {x : Option (List (List Char)) × List Char × List Char}
    (hx : Readable x) {t : List Char} (ht : AtSeparator t) :
    mailbox (mailboxDisplay x ++ t) = some ((x.1.map (List.intercalate [' ']), x.2), t) := by
  obtain ⟨n, l, d⟩ := x
  obtain ⟨⟨hl, hlt⟩, ⟨hd, hdt⟩, hn⟩ := hx
  cases n with
  | none => simpa [mailboxDisplay] using mailbox_addr hl hlt hd hdt ht
  | some ws =>
    obtain ⟨hws, hw⟩ := hn ws rfl
    simpa [mailboxDisplay] using mailbox_nameAddr hl hlt hd hdt hws hw ht.plain.2.2

theorem intercalate_space_cons_cons (w w' : List Char) (ws : List (List Char)) :
    List.intercalate [' '] (w :: w' :: ws) = w ++ ' ' :: List.intercalate [' '] (w' :: ws) :=
  rfl

/-- The words of a name joined by spaces start with a letter or a digit. -/
theorem intercalate_space_head {ws : List (List Char)} (hws : ws ≠ [])
    (hw : ∀ w ∈ ws, AlnumWord w) :
    ∃ c r, List.intercalate [' '] ws = c :: r ∧ c.isAlphanum = true := by
  obtain ⟨w, ws', rfl⟩ := List.exists_cons_of_ne_nil hws
  obtain ⟨hne, hx⟩ := hw w (List.mem_cons_self w ws')
  obtain ⟨c, r, rfl⟩ := List.exists_cons_of_ne_nil hne
  cases ws' with
  | nil => exact ⟨c, r, by simp [List.intercalate], hx c (List.mem_cons_self c r)⟩
  | cons w' ws' =>
    exact ⟨c, _, by rw [intercalate_space_cons_cons]; rfl, hx c (List.mem_cons_self c r)⟩

/-- The words of a name joined by spaces end with a letter or a digit. -/
theorem intercalate_space_last : ∀ {ws : List (List Char)}, ws ≠ [] → (∀ w ∈ ws, AlnumWord w) →
    ∃ p d, List.intercalate [' '] ws = p ++ [d] ∧ d.isAlphanum = true
  | [], h, _ => absurd rfl h
  | [w], _, hw => by
    obtain ⟨hne, hx⟩ := hw w (List.mem_singleton_self w)
    rcases List.eq_nil_or_concat w with rfl | ⟨p, d, rfl⟩
    · exact absurd rfl hne
    · exact ⟨p, d, by simp [List.intercalate], hx d (by simp)⟩
  | w :: w' :: ws, _, hw => by
    obtain ⟨p, d, hp, hd⟩ := intercalate_space_last (List.cons_ne_nil w' ws)
      fun v hv => hw v (List.mem_cons_of_mem w hv)
    exact ⟨w ++ ' ' :: p, d, by rw [intercalate_space_cons_cons, hp]; simp, hd⟩

/-- A mailbox of this form starts with a letter or a digit. -/
theorem mailboxDisplay_head {x : Option (List (List Char)) × List Char × List Char}
    (hx : Readable x) : ∃ c r, mailboxDisplay x = c :: r ∧ c.isAlphanum = true := by
  obtain ⟨n, l, d⟩ := x
  obtain ⟨⟨hl, hlt⟩, -, hn⟩ := hx
  cases n with
  | none =>
    obtain ⟨c, r, rfl⟩ := List.exists_cons_of_ne_nil hl
    exact ⟨c, _, rfl, hlt c (List.mem_cons_self c r)⟩
  | some ws =>
    obtain ⟨c, r, hr, hc⟩ := intercalate_space_head (hn ws rfl).1 (hn ws rfl).2
    exact ⟨c, _, by rw [mailboxDisplay, hr]; rfl, hc⟩

/-- The separator `","` padded: the comma and the space after it. -/
theorem padded_comma {c : Char} (hc : c.isAlphanum = true) (r : List Char) :
    (just ',').padded (',' :: ' ' :: c :: r) = some (',', c :: r) := by
  have hskip : (filter isWhitespace).repeated 0 (' ' :: c :: r) = some ([' '], c :: r) :=
    @repeated_chars _ _ (c :: r) id [' '] (fun x hx r => by rw [List.mem_singleton.mp hx]; rfl)
      (filter_of_not (isWhitespace_alnum hc) r) 0 (Nat.zero_le _)
  rw [padded, thenIgnore_some (by
    rw [ignoreThen_some (repeated_stop (filter_of_not rfl _))]
    rfl), hskip]
  rfl

/-- `mailbox_list` reads the text of such mailboxes back as the list, each name with its words
joined by single spaces, to the end of the text. -/
theorem mailboxList_readable (items : List (Option (List (List Char)) × List Char × List Char))
    (hitems : ∀ x ∈ items, Readable x) :
    mailboxList (mailboxesDisplay items) =
      some (items.map fun x => (x.1.map (List.intercalate [' ']), x.2), []) := by
  cases items with
  | nil => exact separatedBy_none mailbox_nil
  | cons x xs =>
    have hxs : ∀ y ∈ xs, Readable y := fun y hy => hitems y (List.mem_cons_of_mem x hy)
    have htail : ((just ',').padded.ignoreThen mailbox).repeated 0
        ((xs.map fun y => ',' :: ' ' :: mailboxDisplay y).flatten ++ []) =
        some (xs.map fun x => (x.1.map (List.intercalate [' ']), x.2), []) :=
      repeated_items (Q := AtSeparator) (fun _ _ => List.cons_ne_nil _ _)
        (fun y hy r hr => by
          obtain ⟨c, r', he, hc⟩ := mailboxDisplay_head (hxs y hy)
          rw [List.cons_append, List.cons_append, he, List.cons_append,
            ignoreThen_some (padded_comma hc _), ← List.cons_append, ← he]
          exact mailbox_readable (hxs y hy) hr)
        (fun _ _ _ c hc => by cases hc; rfl) (fun _ h => by cases h) rfl (Nat.zero_le _)
    have hsep : AtSeparator (xs.map fun y => ',' :: ' ' :: mailboxDisplay y).flatten := by
      cases xs with
      | nil => exact fun _ h => by cases h
      | cons y ys => exact fun c hc => by cases hc; rfl
    rw [mailboxesDisplay, mailboxList, separatedBy_some
      (mailbox_readable (hitems x (List.mem_cons_self x xs)) hsep)]
    simpa using htail

/-! ### The same text as bytes

The texts above are `char`s, as `mailbox_list` reads them; `Display for Mailbox` writes bytes.
The two meet through UTF-8: the bytes of the text `mailboxesDisplay` writes are what
`Display for Mailboxes` of `Lettre.Message` writes for the same mailboxes. -/

/-- The UTF-8 bytes of a text of `char`s: `mailbox_list` reads the `char`s of a `&str`, and these
are its bytes. -/
def utf8Bytes (s : List Char) : List UInt8 := s.flatMap String.utf8EncodeChar

@[simp] theorem utf8Bytes_nil : utf8Bytes [] = [] := rfl

@[simp] theorem utf8Bytes_cons (c : Char) (s : List Char) :
    utf8Bytes (c :: s) = String.utf8EncodeChar c ++ utf8Bytes s :=
  List.flatMap_cons _ _ _

@[simp] theorem utf8Bytes_append (s t : List Char) :
    utf8Bytes (s ++ t) = utf8Bytes s ++ utf8Bytes t :=
  List.flatMap_append _ _ _

theorem utf8Bytes_flatten : ∀ L : List (List Char), utf8Bytes L.flatten = (L.map utf8Bytes).flatten
  | [] => rfl
  | s :: L => by rw [List.flatten_cons, utf8Bytes_append, utf8Bytes_flatten L]; rfl

/-- A letter or a digit is one visible ASCII byte. -/
theorem utf8EncodeChar_alnum {x : Char} (hx : x.isAlphanum = true) :
    String.utf8EncodeChar x = [x.val.toUInt8] ∧
      33 ≤ x.val.toUInt8.toNat ∧ x.val.toUInt8.toNat ≤ 126 := by
  have h := toNat_of_isAlphanum hx
  simp only [Char.toNat, UInt32.toNat] at h
  simp only [String.utf8EncodeChar, UInt32.le_def, BitVec.le_def, UInt32.toUInt8, UInt8.toNat,
    UInt32.toNat]
  generalize x.val.toBitVec.toNat = n at h ⊢
  have h127 : (UInt32.toBitVec 127).toNat = 127 := rfl
  rw [h127, if_pos (by omega)]
  refine ⟨rfl, ?_⟩
  simp only [Nat.toUInt8, UInt8.ofNat, BitVec.toNat_ofNat]
  omega

/-- `Display for Address`: the user, `@` and the domain. -/
def addrSpecDisplay (a : List Char × List Char) : List UInt8 := utf8Bytes (a.1 ++ '@' :: a.2)

/-- The `Mailbox` an item stands for: the words of its name joined by spaces, and its address. -/
def toMailbox (x : Option (List (List Char)) × List Char × List Char) :
    Mailbox (List Char × List Char) :=
  ⟨x.1.map fun ws => utf8Bytes (List.intercalate [' '] ws), x.2⟩

/-- **A name of words is kept by `trim`.** The words of letters and digits joined by spaces are
not empty, and start and end with a visible byte. -/
theorem trim_utf8Bytes_name {ws : List (List Char)} (hws : ws ≠ []) (hw : ∀ w ∈ ws, AlnumWord w) :
    utf8Bytes (List.intercalate [' '] ws) ≠ [] ∧
      Utf8.trim (utf8Bytes (List.intercalate [' '] ws)) =
        utf8Bytes (List.intercalate [' '] ws) := by
  obtain ⟨c, r, hcr, hc⟩ := intercalate_space_head hws hw
  obtain ⟨p, d, hpd, hd⟩ := intercalate_space_last hws hw
  obtain ⟨hc1, hc2⟩ := utf8EncodeChar_alnum hc
  obtain ⟨hd1, hd2⟩ := utf8EncodeChar_alnum hd
  have hfirst : utf8Bytes (List.intercalate [' '] ws) = c.val.toUInt8 :: utf8Bytes r := by
    rw [hcr, utf8Bytes_cons, hc1]; rfl
  have hlast : utf8Bytes (List.intercalate [' '] ws) = utf8Bytes p ++ [d.val.toUInt8] := by
    rw [hpd, utf8Bytes_append, utf8Bytes_cons, hd1]; rfl
  rw [hfirst]
  exact ⟨List.cons_ne_nil _ _, Utf8.trim_of_visible hc2 hd2 (hfirst ▸ hlast)⟩

/-- The bytes of a mailbox's text are what `Display for Mailbox` writes for it. -/
theorem utf8Bytes_mailboxDisplay {x : Option (List (List Char)) × List Char × List Char}
    (hx : Readable x) : utf8Bytes (mailboxDisplay x) = (toMailbox x).display addrSpecDisplay := by
  obtain ⟨n, l, d⟩ := x
  cases n with
  | none => rfl
  | some ws =>
    obtain ⟨hne, htrim⟩ := trim_utf8Bytes_name (hx.2.2 ws rfl).1 (hx.2.2 ws rfl).2
    have hm : toMailbox (some ws, l, d) = ⟨some (utf8Bytes (List.intercalate [' '] ws)), (l, d)⟩ :=
      rfl
    rw [hm, Mailbox.display_some addrSpecDisplay (l, d) hne htrim, mailboxDisplay, addrSpecDisplay]
    simp only [utf8Bytes_append, utf8Bytes_cons, utf8Bytes_nil, List.append_assoc, List.cons_append,
      List.append_nil]
    rfl

/-- The bytes of the text of a list of mailboxes are what `Display for Mailboxes` writes. -/
theorem utf8Bytes_mailboxesDisplay
    (items : List (Option (List (List Char)) × List Char × List Char))
    (hitems : ∀ x ∈ items, Readable x) :
    utf8Bytes (mailboxesDisplay items) =
      Mailboxes.display addrSpecDisplay (items.map toMailbox) := by
  cases items with
  | nil => rfl
  | cons x xs =>
    rw [mailboxesDisplay, List.map_cons, Mailboxes.display, utf8Bytes_append,
      utf8Bytes_mailboxDisplay (hitems x (List.mem_cons_self x xs)), utf8Bytes_flatten,
      List.map_map, List.map_map]
    refine congrArg _ (congrArg _ (List.map_congr_left fun y hy => ?_))
    simp only [Function.comp_apply, utf8Bytes_cons,
      ← utf8Bytes_mailboxDisplay (hitems y (List.mem_cons_of_mem x hy))]
    rfl

/-- **`mailbox_list` reads what `Display for Mailboxes` writes.** For every list of mailboxes
with addresses of letters and digits and names, if any, of words of letters and digits, the text
that joins them with `", "` is, as UTF-8, what `Display for Mailboxes` writes for them, and
`mailbox_list` reads it back as the list, each name with its words joined by single spaces, to
the end of the text. -/
theorem mailboxList_display (items : List (Option (List (List Char)) × List Char × List Char))
    (hitems : ∀ x ∈ items, Readable x) :
    utf8Bytes (mailboxesDisplay items) = Mailboxes.display addrSpecDisplay (items.map toMailbox) ∧
      mailboxList (mailboxesDisplay items) =
        some (items.map fun x => (x.1.map (List.intercalate [' ']), x.2), []) :=
  ⟨utf8Bytes_mailboxesDisplay items hitems, mailboxList_readable items hitems⟩

/-- `John Doe <jd@example>, jane@example`. -/
theorem mailboxList_display_john_jane :
    let items : List (Option (List (List Char)) × List Char × List Char) :=
      [(some ["John".toList, "Doe".toList], "jd".toList, "example".toList),
        (none, "jane".toList, "example".toList)]
    (∀ x ∈ items, Readable x) ∧
      utf8Bytes (mailboxesDisplay items) = Mailboxes.display addrSpecDisplay (items.map toMailbox) ∧
        mailboxList (mailboxesDisplay items) =
          some (items.map fun x => (x.1.map (List.intercalate [' ']), x.2), []) := by
  intro items
  have h : ∀ x ∈ items, Readable x := by decide
  exact ⟨h, mailboxList_display items h⟩

end Lettre.Message.Rfc2822
