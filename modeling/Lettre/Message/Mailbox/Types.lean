import Lettre.Utf8
import Mathlib.Algebra.Order.BigOperators.Group.List
import Mathlib.Algebra.Order.Ring.Nat

/-!
# Mailboxes as text

`message/mailbox/types.rs`: `Display for Mailbox` writes a mailbox as its trimmed name followed
by its address in angle brackets, or as the bare address when the name is missing or blank.
`Display for Mailboxes` joins mailboxes with `", "`. `FromStr for Mailboxes` reads a list back:
it splits the text at every comma, trims each piece, and reads it with `FromStr for Mailbox`,
which takes the name before the first `<` and the address between that and the first `>`.

`Address` with its `Display` and `FromStr`, and `utf8_b::decode`, live in modules that are not
part of the source, so they are parameters: `addressDisplay`, `addressFromStr` and `decode`.
Texts are their UTF-8 bytes; every cut `from_str` makes falls before an ASCII byte, so none of
its `split_at`s can panic.

* `Mailboxes.fromStr_length`: whatever the address parser, a list read back has one mailbox per
  comma of the text, and one more.
* `Mailboxes.count_comma_display`: the text of a list of mailboxes has one comma per separator
  and the commas written inside each mailbox.
* `Mailboxes.fromStr_display_comma`: so a name with a comma in it splits its mailbox in two,
  whatever the address model: the list read back is longer than the list written.
* `Mailboxes.fromStr_display_of_readable`: without commas, angle brackets and whitespace at the
  ends of names and address texts, and with an address parser that reads an address's text back,
  a list written and read back is the list itself.
-/

namespace Lettre.Message

open Lettre.Utf8

/-- `AddressError`, from the `address` module, which is not part of the source. Modelled from
the source's uses: the two variants `types.rs` returns, and the errors of `Address::from_str`,
which it passes on. -/
inductive AddressError
  | unbalanced
  | invalidUtf8b
  | parse
  deriving DecidableEq, Repr

/-- `Mailbox`: an optional name and an address. -/
structure Mailbox (Address : Type) where
  name : Option (List UInt8)
  email : Address
  deriving DecidableEq, Repr

section

variable {Address : Type} (addressDisplay : Address → List UInt8)
  (addressFromStr : List UInt8 → Except AddressError Address)
  (decode : List UInt8 → Option (List UInt8))

/-! ### Writing -/

/-- `Display for Mailbox`. -/
def Mailbox.display (m : Mailbox Address) : List UInt8 :=
  match m.name with
  | some name =>
    let name := trim name
    if name.isEmpty then addressDisplay m.email
    else name ++ ascii " <" ++ addressDisplay m.email ++ ascii ">"
  | none => addressDisplay m.email

/-- `Display for Mailboxes`: the first mailbox, then `", "` before each of the others. -/
def Mailboxes.display : List (Mailbox Address) → List UInt8
  | [] => []
  | m :: rest => m.display addressDisplay ++
      (rest.map fun m => ascii ", " ++ m.display addressDisplay).flatten

/-! ### Reading -/

/-- `FromStr for Mailbox`: the name before the first `<` and the address up to the first `>`
after it; with no `<`, the whole text is the address. -/
def Mailbox.fromStr (src : List UInt8) : Except AddressError (Mailbox Address) :=
  match src.findIdx? (· == 60), src.findIdx? (· == 62) with
  | some addrOpen, some addrClose =>
    if addrOpen < addrClose then do
      let name := src.take addrOpen
      let addr ← addressFromStr ((src.drop (addrOpen + 1)).take (addrClose - (addrOpen + 1)))
      let name := trim name
      pure ⟨if name.isEmpty then none else some name, addr⟩
    else .error .unbalanced
  | some _, _ => .error .unbalanced
  | none, _ => do
    let addr ← addressFromStr src
    pure ⟨none, addr⟩

/-- One piece of `FromStr for Mailboxes`: the trimmed piece read as a mailbox, its name passed
through `utf8_b::decode`. -/
def Mailboxes.fromStrPiece (m : List UInt8) : Except AddressError (Mailbox Address) := do
  let ⟨name, email⟩ ← Mailbox.fromStr addressFromStr (trim m)
  match name with
  | some name =>
    match decode name with
    | some name => .ok ⟨some name, email⟩
    | none => .error .invalidUtf8b
  | none => .ok ⟨none, email⟩

/-- `FromStr for Mailboxes`: the text split at every comma, each piece read, the first error
returned (`collect::<Result<Vec<_>, _>>()`). -/
def Mailboxes.fromStr (src : List UInt8) : Except AddressError (List (Mailbox Address)) :=
  (src.splitOn 44).mapM (Mailboxes.fromStrPiece addressFromStr decode)

/-! ### Commas -/

/-- `str::split(',')` gives one piece per comma, and one more. -/
theorem length_splitOn_comma : ∀ src : List UInt8, (src.splitOn 44).length = src.count 44 + 1
  | [] => rfl
  | x :: src => by
    have ih := length_splitOn_comma src
    simp only [List.splitOn] at ih ⊢
    rw [List.splitOnP_cons, List.count_cons]
    split <;> simp_all

/-- `collect::<Result<Vec<_>, _>>()` that succeeds keeps one result per item. -/
theorem length_of_mapM_eq_ok {α β : Type} {f : α → Except AddressError β} :
    ∀ {l : List α} {r : List β}, l.mapM f = .ok r → r.length = l.length
  | [], r, h => by
    cases h
    rfl
  | x :: l, r, h => by
    rw [List.mapM_cons] at h
    cases hf : f x with
    | error e => rw [hf] at h; cases h
    | ok b =>
      cases hl : l.mapM f with
      | error e => rw [hf, hl] at h; cases h
      | ok bs =>
        rw [hf, hl] at h
        cases h
        simp [length_of_mapM_eq_ok hl]

/-- **One mailbox per comma.** Whatever the address parser, a list read back with `from_str` has
one mailbox more than its text has commas. -/
theorem Mailboxes.fromStr_length {src : List UInt8} {l : List (Mailbox Address)}
    (h : Mailboxes.fromStr addressFromStr decode src = .ok l) : l.length = src.count 44 + 1 := by
  rw [length_of_mapM_eq_ok h, length_splitOn_comma]

theorem count_comma_separators (rest : List (Mailbox Address)) :
    ((rest.map fun m => ascii ", " ++ m.display addressDisplay).flatten).count 44 =
      rest.length + (rest.map fun m => (m.display addressDisplay).count 44).sum := by
  induction rest with
  | nil => rfl
  | cons m rest ih =>
    have hsep : (ascii ", ").count 44 = 1 := rfl
    simp only [List.map_cons, List.flatten_cons, List.count_append, hsep, ih, List.length_cons,
      List.sum_cons]
    omega

/-- The text of a list of mailboxes has one comma per separator, and the commas written inside
each mailbox. -/
theorem Mailboxes.count_comma_display (m : Mailbox Address) (rest : List (Mailbox Address)) :
    (Mailboxes.display addressDisplay (m :: rest)).count 44 =
      rest.length + ((m :: rest).map fun m => (m.display addressDisplay).count 44).sum := by
  simp only [Mailboxes.display, List.count_append, count_comma_separators, List.map_cons,
    List.sum_cons]
  omega

/-- A name that keeps a comma after trimming writes it. -/
theorem Mailbox.count_comma_display_pos {m : Mailbox Address} {name : List UInt8}
    (hname : m.name = some name) (hc : (44 : UInt8) ∈ trim name) :
    0 < (m.display addressDisplay).count 44 := by
  have hne : (trim name).isEmpty = false := by
    cases h : trim name with
    | nil => simp [h] at hc
    | cons _ _ => rfl
  have hpos : 0 < (trim name).count 44 := List.count_pos_iff.mpr hc
  simp only [Mailbox.display, hname, hne, Bool.false_eq_true, if_false, List.count_append]
  omega

/-- **A comma in a name splits its mailbox.** For every address model, when a name keeps a comma
after trimming, a list of mailboxes written and read back with `from_str` either fails or comes
back longer than it was written. -/
theorem Mailboxes.fromStr_display_comma (ms l : List (Mailbox Address))
    (hcomma : ∃ m ∈ ms, ∃ name, m.name = some name ∧ (44 : UInt8) ∈ trim name)
    (h : Mailboxes.fromStr addressFromStr decode (Mailboxes.display addressDisplay ms) = .ok l) :
    ms.length < l.length := by
  obtain ⟨m, hm, name, hname, hc⟩ := hcomma
  obtain ⟨m0, rest, rfl⟩ := List.exists_cons_of_ne_nil (List.ne_nil_of_mem hm)
  have hpos := Mailbox.count_comma_display_pos addressDisplay hname hc
  have hle : (m.display addressDisplay).count 44 ≤
      ((m0 :: rest).map fun m => (m.display addressDisplay).count 44).sum :=
    List.le_sum_of_mem (List.mem_map_of_mem _ hm)
  rw [Mailboxes.fromStr_length addressFromStr decode h, Mailboxes.count_comma_display,
    List.length_cons]
  omega

/-! ### Reading back what was written -/

/-- `str::find` of a byte the text does not hold. -/
theorem findIdx?_beq_eq_none {l : List UInt8} {c : UInt8} (h : c ∉ l) :
    l.findIdx? (· == c) = none :=
  List.findIdx?_eq_none_iff.mpr fun _ hx => beq_false_of_ne fun e => h (e ▸ hx)

/-- A mailbox's text, in the form `Display` writes it when the name is kept. -/
theorem Mailbox.display_some {n : List UInt8} (email : Address) (hn : n ≠ [])
    (htrim : trim n = n) :
    Mailbox.display addressDisplay ⟨some n, email⟩ =
      n ++ 32 :: 60 :: addressDisplay email ++ [62] := by
  have hopen : ascii " <" = [32, 60] := rfl
  have hclose : ascii ">" = [62] := rfl
  simp [Mailbox.display, htrim, List.isEmpty_eq_false.mpr hn, hopen, hclose]

/-- The first `c` of a text is after the bytes before it, when they hold none. -/
theorem findIdx?_beq_append {l t : List UInt8} {c : UInt8} (h : c ∉ l) :
    (l ++ c :: t).findIdx? (· == c) = some l.length := by
  simp [findIdx?_beq_eq_none h]

/-- **`from_str` reads back what `Display` wrote.** A mailbox whose address text reads back as
the address and holds no angle bracket, and whose name, if any, is not empty, is kept by `trim`
and holds no angle bracket, is read back by `FromStr for Mailbox` from its text. -/
theorem Mailbox.fromStr_display (m : Mailbox Address)
    (haddr : addressFromStr (addressDisplay m.email) = .ok m.email)
    (hbr : 60 ∉ addressDisplay m.email ∧ 62 ∉ addressDisplay m.email)
    (hname : ∀ n, m.name = some n → n ≠ [] ∧ trim n = n ∧ 60 ∉ n ∧ 62 ∉ n) :
    Mailbox.fromStr addressFromStr (m.display addressDisplay) = .ok m := by
  obtain ⟨name, email⟩ := m
  cases name with
  | none => simp [Mailbox.display, Mailbox.fromStr, findIdx?_beq_eq_none hbr.1, haddr]
  | some n =>
    obtain ⟨hn, htrim, h60, h62⟩ := hname n rfl
    -- `<` right after the name and its space, `>` at the end
    have hf60 : (n ++ 32 :: 60 :: addressDisplay email ++ [62]).findIdx? (· == 60) =
        some (n.length + 1) := by
      rw [show n ++ 32 :: 60 :: addressDisplay email ++ [62] =
          (n ++ [32]) ++ 60 :: (addressDisplay email ++ [62]) by simp,
        findIdx?_beq_append (by simp [h60]), List.length_append, List.length_singleton]
    have hf62 : (n ++ 32 :: 60 :: addressDisplay email ++ [62]).findIdx? (· == 62) =
        some (n.length + 2 + (addressDisplay email).length) := by
      rw [findIdx?_beq_append (by simp [h62, hbr.2])]
      exact congrArg some (by simp only [List.length_append, List.length_cons]; omega)
    have hname' : (n ++ 32 :: 60 :: addressDisplay email ++ [62]).take (n.length + 1) =
        n ++ [32] := by simp [List.take_append_eq_append_take]
    have haddr' : ((n ++ 32 :: 60 :: addressDisplay email ++ [62]).drop (n.length + 1 + 1)).take
        (n.length + 2 + (addressDisplay email).length - (n.length + 1 + 1)) =
        addressDisplay email := by
      rw [show n ++ 32 :: 60 :: addressDisplay email ++ [62] =
          (n ++ [32, 60]) ++ (addressDisplay email ++ [62]) by simp, List.drop_left' (by simp),
        Nat.add_sub_cancel_left, List.take_left]
    rw [Mailbox.display_some addressDisplay email hn htrim, Mailbox.fromStr, hf60, hf62]
    simp only [show n.length + 1 < n.length + 2 + (addressDisplay email).length by omega,
      ↓reduceIte, hname', haddr', haddr, trim_append_space htrim]
    simp [hn]

/-- The mailboxes whose text `FromStr for Mailboxes` reads back: the address text reads back as
the address, `trim` keeps it and it holds no comma and no angle bracket; a name is not empty,
`trim` keeps it, it holds no comma and no angle bracket, and `utf8_b::decode` keeps it. -/
structure Mailbox.Readable (m : Mailbox Address) : Prop where
  address : addressFromStr (addressDisplay m.email) = .ok m.email
  address_trim : trim (addressDisplay m.email) = addressDisplay m.email
  address_specials : 44 ∉ addressDisplay m.email ∧ 60 ∉ addressDisplay m.email ∧
    62 ∉ addressDisplay m.email
  name : ∀ n, m.name = some n →
    n ≠ [] ∧ trim n = n ∧ 44 ∉ n ∧ 60 ∉ n ∧ 62 ∉ n ∧ decode n = some n

variable {addressDisplay addressFromStr decode} in
theorem Mailbox.Readable.trim_display {m : Mailbox Address}
    (h : m.Readable addressDisplay addressFromStr decode) :
    trim (m.display addressDisplay) = m.display addressDisplay := by
  obtain ⟨name, email⟩ := m
  cases name with
  | none => exact h.address_trim
  | some n =>
    obtain ⟨hn, htrim, -⟩ := h.name n rfl
    rw [Mailbox.display_some addressDisplay email hn htrim]
    exact trim_space_append hn htrim (by decide)

variable {addressDisplay addressFromStr decode} in
theorem Mailbox.Readable.comma_not_mem {m : Mailbox Address}
    (h : m.Readable addressDisplay addressFromStr decode) : 44 ∉ m.display addressDisplay := by
  obtain ⟨name, email⟩ := m
  cases name with
  | none => exact h.address_specials.1
  | some n =>
    obtain ⟨hn, htrim, h44, -⟩ := h.name n rfl
    rw [Mailbox.display_some addressDisplay email hn htrim]
    simpa using ⟨h44, h.address_specials.1⟩

/-- A piece `split(',')` cuts from the text of a readable mailbox, with or without the space of
its separator, reads back as the mailbox. -/
theorem Mailboxes.fromStrPiece_display {m : Mailbox Address}
    (h : m.Readable addressDisplay addressFromStr decode) {piece : List UInt8}
    (hpiece : trim piece = m.display addressDisplay) :
    Mailboxes.fromStrPiece addressFromStr decode piece = .ok m := by
  have hread := Mailbox.fromStr_display addressDisplay addressFromStr m h.address
    h.address_specials.2 fun n hn => by
      obtain ⟨h1, h2, -, h4, h5, -⟩ := h.name n hn
      exact ⟨h1, h2, h4, h5⟩
  obtain ⟨name, email⟩ := m
  rw [Mailboxes.fromStrPiece, hpiece, hread]
  cases name with
  | none => rfl
  | some n =>
    obtain ⟨-, -, -, -, -, hdecode⟩ := h.name n rfl
    simp only [bind, Except.bind, hdecode]

/-- `split(',')` of `a` followed by `", "` and each of `ps`, none with a comma, gives `a`, then
each of `ps` after its space. -/
theorem splitOn_comma_separated {a : List UInt8} {ps : List (List UInt8)} (ha : 44 ∉ a)
    (hps : ∀ p ∈ ps, 44 ∉ p) :
    (a ++ (ps.map fun p => ascii ", " ++ p).flatten).splitOn 44 = a :: ps.map (32 :: ·) := by
  have hsep : ascii ", " = [44, 32] := rfl
  simp only [hsep, List.splitOn]
  induction ps generalizing a with
  | nil =>
    rw [List.map_nil, List.flatten_nil, List.append_nil, List.map_nil]
    exact List.splitOnP_eq_single _ _ fun x hx hx' => ha (beq_iff_eq.mp hx' ▸ hx)
  | cons p ps ih =>
    have hrest := ih (a := 32 :: p) (by simpa using hps p (by simp))
      fun q hq => hps q (by simp [hq])
    rw [List.map_cons, List.flatten_cons, List.map_cons,
      show a ++ ([44, 32] ++ p ++ (ps.map fun p => [44, 32] ++ p).flatten) =
        a ++ 44 :: (32 :: p ++ (ps.map fun p => [44, 32] ++ p).flatten) by simp,
      List.splitOnP_first (· == (44 : UInt8)) a (fun x hx hx' => ha (beq_iff_eq.mp hx' ▸ hx)) 44
        (by simp), hrest]

/-- The pieces after the first, each read back as its mailbox. -/
theorem Mailboxes.mapM_fromStrPiece_display :
    ∀ {rest : List (Mailbox Address)},
      (∀ m ∈ rest, m.Readable addressDisplay addressFromStr decode) →
      (rest.map fun m => 32 :: m.display addressDisplay).mapM
        (Mailboxes.fromStrPiece addressFromStr decode) = .ok rest
  | [], _ => rfl
  | m :: rest, h => by
    have hm := h m (List.mem_cons_self _ _)
    rw [List.map_cons, List.mapM_cons, Mailboxes.fromStrPiece_display addressDisplay addressFromStr
      decode hm (trim_space_cons hm.trim_display),
      Mailboxes.mapM_fromStrPiece_display fun m' hm' => h m' (List.mem_cons_of_mem _ hm')]
    rfl

/-- **`from_str` reads back the text `Display` writes.** A list of readable mailboxes, written
with `Display for Mailboxes` and read with `FromStr for Mailboxes`, comes back as it was. -/
theorem Mailboxes.fromStr_display_of_readable (ms : List (Mailbox Address)) (hms : ms ≠ [])
    (h : ∀ m ∈ ms, m.Readable addressDisplay addressFromStr decode) :
    Mailboxes.fromStr addressFromStr decode (Mailboxes.display addressDisplay ms) = .ok ms := by
  obtain ⟨m, rest, rfl⟩ := List.exists_cons_of_ne_nil hms
  have hm := h m (List.mem_cons_self _ _)
  have hrest : ∀ m ∈ rest, m.Readable addressDisplay addressFromStr decode :=
    fun m' hm' => h m' (List.mem_cons_of_mem _ hm')
  have hsplit := @splitOn_comma_separated _ (rest.map (Mailbox.display addressDisplay))
    hm.comma_not_mem (by
      simp only [List.mem_map]
      rintro _ ⟨m', hm', rfl⟩
      exact (hrest m' hm').comma_not_mem)
  simp only [List.map_map, Function.comp_def] at hsplit
  rw [Mailboxes.fromStr, Mailboxes.display, hsplit, List.mapM_cons,
    Mailboxes.fromStrPiece_display addressDisplay addressFromStr decode hm hm.trim_display,
    Mailboxes.mapM_fromStrPiece_display addressDisplay addressFromStr decode hrest]
  rfl

end

/-- `John Doe <john@example.com>, jane@example.com` reads back, with an address parser that takes
any text. -/
theorem fromStr_display_john_jane :
    let ms : List (Mailbox (List UInt8)) :=
      [⟨some (ascii "John Doe"), ascii "john@example.com"⟩, ⟨none, ascii "jane@example.com"⟩]
    ms ≠ [] ∧ (∀ m ∈ ms, m.Readable id Except.ok some) ∧
      Mailboxes.fromStr Except.ok some (Mailboxes.display id ms) = .ok ms := by
  intro ms
  have hread : ∀ m ∈ ms, m.Readable id Except.ok some := by
    simp only [ms, List.mem_cons, List.mem_singleton, List.not_mem_nil, or_false]
    rintro m (rfl | rfl)
    · exact ⟨rfl, by decide, by decide, fun n hn => by cases hn; decide⟩
    · exact ⟨rfl, by decide, by decide, fun n hn => by cases hn⟩
  exact ⟨List.cons_ne_nil _ _, hread,
    Mailboxes.fromStr_display_of_readable id Except.ok some ms (List.cons_ne_nil _ _) hread⟩

/-- `Doe, John <john@example.com>` reads back as two mailboxes, here with an address parser that
takes any text. -/
theorem fromStr_display_comma_doe :
    Mailboxes.fromStr Except.ok some (Mailboxes.display id
      [⟨some (ascii "Doe, John"), ascii "john@example.com"⟩]) =
      .ok [⟨none, ascii "Doe"⟩, ⟨some (ascii "John"), ascii "john@example.com"⟩] ∧
    [(⟨some (ascii "Doe, John"), ascii "john@example.com"⟩ : Mailbox (List UInt8))].length <
      2 :=
  ⟨rfl, Mailboxes.fromStr_display_comma id Except.ok some _
    [⟨none, ascii "Doe"⟩, ⟨some (ascii "John"), ascii "john@example.com"⟩]
    ⟨_, List.mem_singleton_self _, _, rfl, by decide⟩ rfl⟩

end Lettre.Message
