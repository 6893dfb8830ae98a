import Lettre.Bytes

/-!
# nom 4 over bytes

`parse_response` is written with nom 4's macros over `&[u8]`. Each macro is modelled here as a
function on `Parser α = List UInt8 → IResult α`, with nom 4's streaming reading of a byte slice:
input that runs out before a parser can decide gives `incomplete`, and only input it can tell is
wrong gives `error`. The combinators that recover from an `error` (`opt`, the branches of `alt`,
the loop of `many0`) pass an `incomplete` on, so on a byte slice `many0` only stops with success
where its next item visibly does not start.

* `IResult.bind` and the `@[simp]` lemmas that run the combinators;
* `many0Aux_items`: `many0` over items that its parser reads whole, stopped by input the parser
  rejects;
* `many0Aux_pair_prefix`: `many0` followed by another parser answers `incomplete` on the proper
  prefixes of what they read together;
* `many0Aux_inv`: what `many0` returned was read item by item.

nom's `Err::Failure` is left out: none of the macros used here raises it. So are the error
payloads (`ErrorKind`, the input position), which the client only prints.
-/

namespace Lettre.Nom

/-- nom's `IResult` on `&[u8]`: success with the rest of the input and the output, or
`Err::Incomplete`, or `Err::Error`. -/
inductive IResult (α : Type) where
  | ok (rest : List UInt8) (out : α)
  | incomplete
  | error
  deriving DecidableEq, Repr

/-- A nom parser over bytes. -/
def Parser (α : Type) : Type := List UInt8 → IResult α

namespace IResult

variable {α β : Type}

/-- Run the next step on the rest of the input; `incomplete` and `error` pass through. -/
def bind (x : IResult α) (f : List UInt8 → α → IResult β) : IResult β :=
  match x with
  | ok r a => f r a
  | incomplete => incomplete
  | error => error

@[simp] theorem bind_ok (r : List UInt8) (a : α) (f : List UInt8 → α → IResult β) :
    (ok r a).bind f = f r a := rfl

@[simp] theorem bind_incomplete (f : List UInt8 → α → IResult β) :
    (incomplete : IResult α).bind f = incomplete := rfl

@[simp] theorem bind_error (f : List UInt8 → α → IResult β) :
    (error : IResult α).bind f = error := rfl

theorem bind_eq_ok {x : IResult α} {f : List UInt8 → α → IResult β} {r : List UInt8} {b : β} :
    x.bind f = ok r b ↔ ∃ r' a, x = ok r' a ∧ f r' a = ok r b := by
  cases x with
  | ok r' a => exact ⟨fun h => ⟨r', a, rfl, h⟩, fun ⟨_, _, he, h⟩ => by cases he; exact h⟩
  | incomplete => simp [bind]
  | error => simp [bind]

end IResult

open IResult

namespace Parser

variable {α β γ : Type}

/-- `map!`. -/
def map (p : Parser α) (f : α → β) : Parser β := fun i => (p i).bind fun r a => ok r (f a)

/-- `tuple!(p, q)`. -/
def pair (p : Parser α) (q : Parser β) : Parser (α × β) :=
  fun i => (p i).bind fun r a => (q r).bind fun r' b => ok r' (a, b)

/-- `preceded!(p, q)`. -/
def preceded (p : Parser α) (q : Parser β) : Parser β := fun i => (p i).bind fun r _ => q r

/-- `terminated!(p, q)`. -/
def terminated (p : Parser α) (q : Parser β) : Parser α :=
  fun i => (p i).bind fun r a => (q r).bind fun r' _ => ok r' a

/-- `opt!(p)`: an error gives `none` on the same input; `incomplete` is passed on. -/
def opt (p : Parser α) : Parser (Option α) := fun i =>
  match p i with
  | ok r a => ok r (some a)
  | incomplete => incomplete
  | error => ok i none

/-- One `|` of `alt!`: the second branch runs only after an error of the first. -/
def orElse (p q : Parser α) : Parser α := fun i =>
  match p i with
  | error => q i
  | x => x

/-- `alt!(p₁ | p₂ | ⋯)`: an error when every branch fails. -/
def alt (ps : List (Parser α)) : Parser α := ps.foldr orElse fun _ => error

/-- `map_res!(p, f)`: an error where `f` fails. -/
def mapRes (p : Parser α) (f : α → Option β) : Parser β := fun i =>
  (p i).bind fun r a =>
    match f a with
    | some b => ok r b
    | none => error

/-- The loop of `many0!`: it stops at the item's first error, passes an `incomplete` on, and
refuses an item that consumed nothing. `fuel` bounds the rounds (see `many0`). -/
def many0Aux (p : Parser α) : Nat → List α → Parser (List α)
  | 0, _ => fun _ => error
  | fuel + 1, acc => fun i =>
    match p i with
    | ok r a => if r = i then error else many0Aux p fuel (acc ++ [a]) r
    | incomplete => incomplete
    | error => ok i acc

/-- `many0!(p)`. Every round that goes on consumes a byte, so `i.length + 1` rounds are never
all used up. -/
def many0 (p : Parser α) : Parser (List α) := fun i => many0Aux p (i.length + 1) [] i

/-- `tag!(t)`: nom compares `min(|i|, |t|)` bytes, and input that is a proper prefix of the tag
is `incomplete`. -/
def tag (t : List UInt8) : Parser (List UInt8) := fun i =>
  if t <+: i then ok (i.drop t.length) t else if i <+: t then incomplete else error

/-- `char!(c)`. -/
def char (c : UInt8) : Parser UInt8
  | [] => incomplete
  | b :: s => if b = c then ok s c else error

/-- `take_until!(t)`: the bytes before the first `t`, which is left in the input. -/
def takeUntil (t : List UInt8) : Parser (List UInt8) := fun i =>
  match findSubstring t i with
  | some n => ok (i.drop n) (i.take n)
  | none => incomplete

/-- `take_until_and_consume!(t)`: the bytes before the first `t`, which is consumed. -/
def takeUntilAndConsume (t : List UInt8) : Parser (List UInt8) := fun i =>
  match findSubstring t i with
  | some n => ok (i.drop (n + t.length)) (i.take n)
  | none => incomplete

/-- nom's `crlf`: it compares the input with `"\r\n"` as `tag!` does. -/
def crlf : Parser (List UInt8) := tag [13, 10]

/-! ### Running the combinators -/

@[simp] theorem map_apply (p : Parser α) (f : α → β) (i : List UInt8) :
    p.map f i = (p i).bind fun r a => ok r (f a) := rfl

@[simp] theorem pair_apply (p : Parser α) (q : Parser β) (i : List UInt8) :
    p.pair q i = (p i).bind fun r a => (q r).bind fun r' b => ok r' (a, b) := rfl

@[simp] theorem preceded_apply (p : Parser α) (q : Parser β) (i : List UInt8) :
    p.preceded q i = (p i).bind fun r _ => q r := rfl

@[simp] theorem terminated_apply (p : Parser α) (q : Parser β) (i : List UInt8) :
    p.terminated q i = (p i).bind fun r a => (q r).bind fun r' _ => ok r' a := rfl

@[simp] theorem mapRes_apply (p : Parser α) (f : α → Option β) (i : List UInt8) :
    p.mapRes f i = (p i).bind fun r a => match f a with | some b => ok r b | none => error := rfl

@[simp] theorem opt_ok {p : Parser α} {i r : List UInt8} {a : α} (h : p i = ok r a) :
    p.opt i = ok r (some a) := by simp [opt, h]

@[simp] theorem opt_incomplete {p : Parser α} {i : List UInt8} (h : p i = incomplete) :
    p.opt i = incomplete := by simp [opt, h]

@[simp] theorem opt_error {p : Parser α} {i : List UInt8} (h : p i = error) :
    p.opt i = ok i none := by simp [opt, h]

@[simp] theorem char_nil (c : UInt8) : char c [] = incomplete := rfl

@[simp] theorem char_cons (c b : UInt8) (s : List UInt8) :
    char c (b :: s) = if b = c then ok s c else error := rfl

theorem tag_append (t s : List UInt8) : tag t (t ++ s) = ok s t := by
  simp [tag]

theorem tag_prefix_incomplete {t i : List UInt8} (h : i <+: t) (hne : i ≠ t) :
    tag t i = incomplete := by
  have : ¬ t <+: i := fun h' => hne (h.eq_of_length (le_antisymm h.length_le h'.length_le))
  simp [tag, this, h]

theorem takeUntil_crlf {t : List UInt8} (rest : List UInt8) (ht : NoCRLF t) :
    takeUntil [13, 10] (t ++ 13 :: 10 :: rest) = ok (13 :: 10 :: rest) t := by
  simp [takeUntil, findSubstring_crlf rest ht]

theorem takeUntilAndConsume_crlf {t : List UInt8} (rest : List UInt8) (ht : NoCRLF t) :
    takeUntilAndConsume [13, 10] (t ++ 13 :: 10 :: rest) = ok rest t := by
  simp [takeUntilAndConsume, findSubstring_crlf rest ht]

theorem takeUntil_absent {t i : List UInt8} (h : ¬ t <:+: i) : takeUntil t i = incomplete := by
  simp [takeUntil, findSubstring_eq_none h]

theorem takeUntilAndConsume_absent {t i : List UInt8} (h : ¬ t <:+: i) :
    takeUntilAndConsume t i = incomplete := by
  simp [takeUntilAndConsume, findSubstring_eq_none h]

/-- What `take_until!` read: the bytes before the first `t`. -/
theorem takeUntil_eq_ok {t i r a : List UInt8} (h : takeUntil t i = ok r a) :
    i = a ++ r ∧ t <+: r ∧ ¬ t <:+: a := by
  unfold takeUntil at h
  split at h
  · next n hn =>
    cases h
    exact ⟨(List.take_append_drop n i).symm, (findSubstring_spec hn).2⟩
  · cases h

/-- What `take_until_and_consume!` read: the bytes before the first `t`, then `t`. -/
theorem takeUntilAndConsume_eq_ok {t i r a : List UInt8} (h : takeUntilAndConsume t i = ok r a) :
    i = a ++ t ++ r ∧ ¬ t <:+: a := by
  unfold takeUntilAndConsume at h
  split at h
  · next n hn =>
    cases h
    obtain ⟨-, ⟨u, hu⟩, hfree⟩ := findSubstring_spec hn
    refine ⟨?_, hfree⟩
    rw [← List.drop_drop, ← hu, List.drop_left, List.append_assoc, hu, List.take_append_drop]
  · cases h

theorem tag_eq_ok {t i r a : List UInt8} (h : tag t i = ok r a) : i = t ++ r ∧ a = t := by
  unfold tag at h
  split_ifs at h with h1
  cases h
  obtain ⟨u, rfl⟩ := h1
  simp

theorem char_eq_ok {c : UInt8} {i r : List UInt8} {a : UInt8} (h : char c i = ok r a) :
    i = c :: r ∧ a = c := by
  cases i with
  | nil => cases h
  | cons b s =>
    simp only [char_cons] at h
    split_ifs at h with hb
    cases h
    exact ⟨by rw [hb], rfl⟩

/-! ### `many0` -/

/-- **`many0` over whole items.** Items that `p` reads whole, each from a non-empty encoding,
followed by input `p` rejects: the loop returns the items and stops before that input. -/
theorem many0Aux_items (p : Parser α) (enc : α → List UInt8) (tail : List UInt8)
    (hstop : p tail = error) :
    ∀ (xs : List α) (acc : List α) (fuel : Nat),
      (∀ x ∈ xs, enc x ≠ [] ∧ ∀ w, p (enc x ++ w) = ok w x) →
      ((xs.map enc).flatten ++ tail).length < fuel →
      many0Aux p fuel acc ((xs.map enc).flatten ++ tail) = ok tail (acc ++ xs)
  | [], acc, fuel + 1, _, _ => by simp [many0Aux, hstop]
  | x :: xs, acc, fuel + 1, hx, hlen => by
    obtain ⟨hne, hread⟩ := hx x (List.mem_cons_self x xs)
    have hpos : 0 < (enc x).length := List.length_pos.mpr hne
    have hrest : (xs.map enc).flatten ++ tail ≠ enc x ++ ((xs.map enc).flatten ++ tail) :=
      fun h => hne (List.self_eq_append_left.mp h)
    simp only [List.map_cons, List.flatten_cons, List.append_assoc, many0Aux, hread, hrest,
      ↓reduceIte] at hlen ⊢
    rw [many0Aux_items p enc tail hstop xs (acc ++ [x]) fuel
      (fun y hy => hx y (List.mem_cons_of_mem x hy))
      (by simp only [List.length_append] at hlen ⊢; omega)]
    simp

/-- **`many0` followed by `q` never commits early.** On a proper prefix of items that `p` reads
whole and waits on the proper prefixes of, followed by a tail on whose proper prefixes `p` waits,
or rejects them and `q` waits, the pair answers `incomplete`. -/
theorem many0Aux_pair_prefix (p : Parser α) (q : Parser β) (enc : α → List UInt8)
    (tail : List UInt8)
    (htail : ∀ w, w <+: tail → w ≠ tail → p w = incomplete ∨ (p w = error ∧ q w = incomplete)) :
    ∀ (xs : List α) (acc : List α) (fuel : Nat) (i : List UInt8),
      (∀ x ∈ xs, enc x ≠ [] ∧ (∀ w, p (enc x ++ w) = ok w x) ∧
        ∀ w, w <+: enc x → w ≠ enc x → p w = incomplete) →
      i.length < fuel → i <+: (xs.map enc).flatten ++ tail → i ≠ (xs.map enc).flatten ++ tail →
      (many0Aux p fuel acc).pair q i = incomplete
  | [], acc, fuel + 1, i, _, _, hi, hne => by
    simp only [List.map_nil, List.flatten_nil, List.nil_append] at hi hne
    rcases htail i hi hne with h | ⟨h1, h2⟩
    · simp [many0Aux, h]
    · simp [many0Aux, h1, h2]
  | x :: xs, acc, fuel + 1, i, hx, hlen, hi, hne => by
    obtain ⟨hnil, hread, hwait⟩ := hx x (List.mem_cons_self x xs)
    simp only [List.map_cons, List.flatten_cons, List.append_assoc] at hi hne
    rcases prefix_append_cases hi with ⟨hi, hie⟩ | ⟨w, rfl, hw⟩
    · simp [many0Aux, hwait i hi hie]
    -- after a whole item the loop goes on with the rest of the prefix
    have hpos : 0 < (enc x).length := List.length_pos.mpr hnil
    have hw' : w ≠ enc x ++ w := fun h => hnil (List.self_eq_append_left.mp h)
    have hrest := many0Aux_pair_prefix p q enc tail htail xs (acc ++ [x]) fuel w
      (fun y hy => hx y (List.mem_cons_of_mem x hy))
      (by simp only [List.length_append] at hlen; omega) hw (fun h => hne (by rw [h]))
    simpa [many0Aux, hread, hw'] using hrest

/-- **What `many0` read.** When every success of `p` read an encoding of its output with
property `Q`, a success of the loop read its items one after another, each with `Q`, and stopped
at input `p` rejects. -/
theorem many0Aux_inv {p : Parser α} {enc : α → List UInt8} {Q : α → Prop}
    (hp : ∀ i r a, p i = ok r a → i = enc a ++ r ∧ Q a) :
    ∀ (fuel : Nat) (acc : List α) (i r : List UInt8) (out : List α),
      many0Aux p fuel acc i = ok r out →
      ∃ xs, out = acc ++ xs ∧ i = (xs.map enc).flatten ++ r ∧ (∀ x ∈ xs, Q x) ∧ p r = error
  | 0, _, _, _, _, h => by cases h
  | fuel + 1, acc, i, r, out, h => by
    simp only [many0Aux] at h
    split at h
    · next r' a ha =>
      split_ifs at h
      obtain ⟨xs, rfl, rfl, hq, hstop⟩ := many0Aux_inv hp fuel (acc ++ [a]) r' r out h
      obtain ⟨rfl, hqa⟩ := hp i _ a ha
      refine ⟨a :: xs, by simp, by simp, ?_, hstop⟩
      intro x hx
      rcases List.mem_cons.mp hx with rfl | hx
      · exact hqa
      · exact hq x hx
    · cases h
    · next hstop =>
      cases h
      exact ⟨[], by simp, by simp, by simp, hstop⟩

end Parser

end Lettre.Nom
