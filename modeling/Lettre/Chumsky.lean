import Mathlib.Data.List.Basic

/-!
# chumsky over characters

The mailbox parsers of `message/mailbox/parsers/rfc2822.rs` are written with the `chumsky`
crate, which is not part of the source. Each combinator they use is modelled here, from the
source's uses, as a function on `Parser α = List Char → Option (α × List Char)`: a parser
fails, or returns its output and the rest of the input. chumsky backtracks: `or` and `choice`
try each branch from the same place, `or_not` gives `None` and rewinds when its parser fails,
and `repeated` is greedy and rewinds its failed last try, failing only when it has fewer than
`at_least` items. chumsky panics when an iteration of `repeated` succeeds without consuming
input; the model fails there. `separated_by` reads an item, then a separator and an item as long
as both succeed, and `padded` skips the `char::is_whitespace` characters around its parser. The
error payloads (`Simple<char>`, the spans) are left out.

* `Parser.repeated_cons`, `Parser.repeated_stop`: one step of `repeated`, whatever the fuel;
* `Parser.repeated_chars`: `repeated` over a run of characters its parser takes one by one;
* `Parser.repeated_stopped`: where a `repeated` that succeeded stopped, its parser fails;
* `Parser.repeated_zero_isSome`: over a parser that reads a character whenever it succeeds,
  `repeated().at_least(0)` never fails.
-/

namespace Lettre.Chumsky

/-- A chumsky parser over `char`s: none when it fails, else its output and the rest. -/
def Parser (α : Type) : Type := List Char → Option (α × List Char)

/-- `filter(f)`: one character that `f` accepts. -/
def filter (f : Char → Bool) : Parser Char
  | c :: s => if f c then some (c, s) else none
  | [] => none

/-- `just(c)`. -/
def just (c : Char) : Parser Char := filter (· == c)

/-- `char::is_whitespace`: the Unicode `White_Space` characters, U+0009 to U+000D, U+0020,
U+0085, U+00A0, U+1680, U+2000 to U+200A, U+2028, U+2029, U+202F, U+205F and U+3000. -/
def isWhitespace (c : Char) : Bool :=
  (9 ≤ c.toNat && c.toNat ≤ 13) || c.toNat == 0x20 || c.toNat == 0x85 || c.toNat == 0xA0 ||
    c.toNat == 0x1680 || (0x2000 ≤ c.toNat && c.toNat ≤ 0x200A) || c.toNat == 0x2028 ||
    c.toNat == 0x2029 || c.toNat == 0x202F || c.toNat == 0x205F || c.toNat == 0x3000

@[simp] theorem filter_nil (f : Char → Bool) : filter f [] = none := rfl

theorem filter_cons (f : Char → Bool) (c : Char) (s : List Char) :
    filter f (c :: s) = if f c then some (c, s) else none := rfl

theorem filter_of {f : Char → Bool} {c : Char} (h : f c = true) (s : List Char) :
    filter f (c :: s) = some (c, s) := by
  simp [filter_cons, h]

theorem filter_of_not {f : Char → Bool} {c : Char} (h : f c = false) (s : List Char) :
    filter f (c :: s) = none := by
  simp [filter_cons, h]

@[simp] theorem just_nil (c : Char) : just c [] = none := rfl

theorem just_cons (c d : Char) (s : List Char) :
    just c (d :: s) = if d = c then some (d, s) else none := by
  simp [just, filter_cons]

namespace Parser

variable {α β : Type}

/-- A parser that always fails. -/
def fail : Parser α := fun _ => none

/-- `p.map(f)`. -/
def map (p : Parser α) (f : α → β) : Parser β := fun s => (p s).map fun (a, r) => (f a, r)

/-- `p.then(q)`. -/
def «then» (p : Parser α) (q : Parser β) : Parser (α × β) := fun s =>
  match p s with
  | none => none
  | some (a, r) => (q r).map fun (b, r') => ((a, b), r')

/-- `p.ignore_then(q)`. -/
def ignoreThen (p : Parser α) (q : Parser β) : Parser β := (p.then q).map Prod.snd

/-- `p.then_ignore(q)`. -/
def thenIgnore (p : Parser α) (q : Parser β) : Parser α := (p.then q).map Prod.fst

/-- `p.chain(q)`, on parsers whose outputs are `Vec`s: the two outputs joined. -/
def chain (p q : Parser (List α)) : Parser (List α) := (p.then q).map fun (a, b) => a ++ b

/-- `p.delimited_by(l, r)`. -/
def delimitedBy (p : Parser α) (l r : Parser β) : Parser α := l.ignoreThen (p.thenIgnore r)

/-- `p.or(q)`: `q` from the same place when `p` fails. -/
def or (p q : Parser α) : Parser α := fun s =>
  match p s with
  | none => q s
  | some r => some r

/-- `p.or_not()`: `None`, with nothing consumed, when `p` fails. -/
def orNot (p : Parser α) : Parser (Option α) := fun s =>
  match p s with
  | none => some (none, s)
  | some (a, r) => some (some a, r)

/-- `p.or_not().map(Option::unwrap_or_default)`, and `p.or_not().flatten()` on a `Vec`. -/
def orEmpty (p : Parser (List α)) : Parser (List α) := p.orNot.map (·.getD [])

/-- `p.repeated().exactly(1)`. -/
def exactlyOne (p : Parser α) : Parser (List α) := p.map ([·])

/-- The loop of `repeated` with room for `fuel` iterations. -/
def repeatedAux (p : Parser α) : Nat → Parser (List α)
  | 0 => fail
  | fuel + 1 => fun s =>
    match p s with
    | none => some ([], s)
    | some (a, r) =>
      if r.length < s.length then (repeatedAux p fuel r).map fun (as, r') => (a :: as, r')
      else none

/-- `p.repeated().at_least(n)`: `p` as often as it succeeds, then at least `n` items. Every
iteration consumes a character, so one more than the input's length is fuel enough. -/
def repeated (p : Parser α) (atLeast : Nat) : Parser (List α) := fun s =>
  match repeatedAux p (s.length + 1) s with
  | some (as, r) => if atLeast ≤ as.length then some (as, r) else none
  | none => none

/-- `p.padded()`: the white space before and after `p` skipped. -/
def padded (p : Parser α) : Parser α :=
  ((filter isWhitespace).repeated 0).ignoreThen p |>.thenIgnore ((filter isWhitespace).repeated 0)

/-- `p.separated_by(sep)`: `p`, then `sep` and `p` as long as both succeed. When the first `p`
fails there is no item and nothing is read; a separator with no item after it is given back. -/
def separatedBy (p : Parser α) (sep : Parser β) : Parser (List α) := fun s =>
  match p s with
  | none => some ([], s)
  | some (a, r) => ((sep.ignoreThen p).repeated 0 r).map fun (as, r') => (a :: as, r')

end Parser

/-- `choice((p, q, ...))`: the first branch that succeeds, each tried from the same place. -/
def choice {α : Type} : List (Parser α) → Parser α
  | [] => Parser.fail
  | p :: ps => p.or (choice ps)

namespace Parser

variable {α β : Type} {p : Parser α} {q : Parser β} {s r : List Char} {a : α}

/-! ### Running the combinators -/

@[simp] theorem map_apply (p : Parser α) (f : α → β) (s : List Char) :
    p.map f s = (p s).map fun (a, r) => (f a, r) := rfl

theorem then_some (h : p s = some (a, r)) :
    p.then q s = (q r).map fun (b, r') => ((a, b), r') := by
  simp [Parser.then, h]

theorem then_none (h : p s = none) : p.then q s = none := by
  simp [Parser.then, h]

theorem ignoreThen_some (h : p s = some (a, r)) : p.ignoreThen q s = q r := by
  cases hq : q r <;> simp [ignoreThen, then_some h, hq]

theorem ignoreThen_none (h : p s = none) : p.ignoreThen q s = none := by
  simp [ignoreThen, then_none h]

theorem thenIgnore_some (h : p s = some (a, r)) :
    p.thenIgnore q s = (q r).map fun (_, r') => (a, r') := by
  cases hq : q r <;> simp [thenIgnore, then_some h, hq]

theorem thenIgnore_none (h : p s = none) : p.thenIgnore q s = none := by
  simp [thenIgnore, then_none h]

theorem or_some {p' : Parser α} {x : α × List Char} (h : p s = some x) : p.or p' s = some x := by
  simp [Parser.or, h]

theorem or_none {p' : Parser α} (h : p s = none) : p.or p' s = p' s := by
  simp [Parser.or, h]

theorem orNot_some (h : p s = some (a, r)) : p.orNot s = some (some a, r) := by
  simp [orNot, h]

theorem orNot_none (h : p s = none) : p.orNot s = some (none, s) := by
  simp [orNot, h]

theorem orEmpty_some {p : Parser (List α)} {as : List α} (h : p s = some (as, r)) :
    p.orEmpty s = some (as, r) := by
  simp [orEmpty, orNot_some h]

theorem orEmpty_none {p : Parser (List α)} (h : p s = none) : p.orEmpty s = some ([], s) := by
  simp [orEmpty, orNot_none h]

theorem chain_some {p q : Parser (List α)} {as : List α} (h : p s = some (as, r)) :
    p.chain q s = (q r).map fun (bs, r') => (as ++ bs, r') := by
  simp only [chain, map_apply, then_some h, Option.map_map]
  rfl

theorem chain_none {p q : Parser (List α)} (h : p s = none) : p.chain q s = none := by
  simp [chain, then_none h]

/-! ### `repeated` -/

theorem repeatedAux_stop (h : p s = none) (fuel : Nat) :
    repeatedAux p (fuel + 1) s = some ([], s) := by
  simp [repeatedAux, h]

/-- With fuel beyond the input's length, `repeated`'s loop does not depend on the fuel. -/
theorem repeatedAux_fuel : ∀ {fuel fuel' : Nat} {s : List Char},
    s.length < fuel → s.length < fuel' → repeatedAux p fuel s = repeatedAux p fuel' s
  | 0, _, _, h, _ => absurd h (Nat.not_lt_zero _)
  | _, 0, _, _, h => absurd h (Nat.not_lt_zero _)
  | fuel + 1, fuel' + 1, s, h, h' => by
    simp only [repeatedAux]
    split
    · rfl
    · next a r _ =>
      split
      · next hr => rw [repeatedAux_fuel (by omega : r.length < fuel) (by omega : r.length < fuel')]
      · rfl

/-- **One step of `repeated`.** An item that consumes input is taken, and the loop goes on. -/
theorem repeated_cons (h : p s = some (a, r)) (hr : r.length < s.length) (n : Nat) :
    p.repeated n s = ((p.repeated (n - 1)) r).map fun (as, r') => (a :: as, r') := by
  have hstep : repeatedAux p (s.length + 1) s =
      (repeatedAux p s.length r).map fun x => (a :: x.1, x.2) := by
    simp only [repeatedAux, h, hr, if_true]
  rw [repeatedAux_fuel hr (Nat.lt_succ_self _)] at hstep
  simp only [repeated, hstep]
  cases repeatedAux p (r.length + 1) r with
  | none => rfl
  | some x =>
    obtain ⟨as, r'⟩ := x
    by_cases hn : n - 1 ≤ as.length
    · simp [hn, show n ≤ as.length + 1 by omega]
    · simp [hn, show ¬ n ≤ as.length + 1 by omega]

theorem separatedBy_none {sep : Parser β} (h : p s = none) :
    p.separatedBy sep s = some ([], s) := by
  simp [separatedBy, h]

theorem separatedBy_some {sep : Parser β} (h : p s = some (a, r)) :
    p.separatedBy sep s = ((sep.ignoreThen p).repeated 0 r).map fun (as, r') => (a :: as, r') := by
  simp [separatedBy, h]

/-- **`repeated` stops where its parser fails.** -/
theorem repeated_stop (h : p s = none) : p.repeated 0 s = some ([], s) := by
  simp [repeated, repeatedAux_stop h]

/-- Stopped before its first item, `repeated().at_least(n + 1)` fails. -/
theorem repeated_stop_succ (h : p s = none) (n : Nat) : p.repeated (n + 1) s = none := by
  simp [repeated, repeatedAux_stop h]

/-- `repeated` over characters its parser takes one at a time, stopped by input it rejects. -/
theorem repeated_chars {g : Char → α} {cs : List Char}
    (hp : ∀ c ∈ cs, ∀ r, p (c :: r) = some (g c, r)) (hs : p s = none) :
    ∀ {n : Nat}, n ≤ cs.length → p.repeated n (cs ++ s) = some (cs.map g, s) := by
  induction cs with
  | nil =>
    intro n hn
    simp [Nat.le_zero.mp hn, repeated_stop hs]
  | cons c cs ih =>
    intro n hn
    have hc := hp c (List.mem_cons_self c cs) (cs ++ s)
    rw [List.cons_append, repeated_cons hc (by simp) n,
      ih (fun c' hc' => hp c' (List.mem_cons_of_mem c hc')) (by simp at hn; omega)]
    rfl

/-- `repeated` over items its parser takes one whole text at a time, each text followed by input
of a kind `Q` the next item or the stop starts with. -/
theorem repeated_items {ι : Type} {enc : ι → List Char} {g : ι → α} {Q : List Char → Prop}
    {items : List ι} (hne : ∀ i ∈ items, enc i ≠ [])
    (hp : ∀ i ∈ items, ∀ r, Q r → p (enc i ++ r) = some (g i, r))
    (hQ : ∀ i ∈ items, ∀ r, Q (enc i ++ r)) (hQs : Q s) (hs : p s = none) :
    ∀ {n : Nat}, n ≤ items.length →
      p.repeated n ((items.map enc).flatten ++ s) = some (items.map g, s) := by
  induction items with
  | nil =>
    intro n hn
    simp [Nat.le_zero.mp hn, repeated_stop hs]
  | cons i items ih =>
    intro n hn
    have hrest : Q ((items.map enc).flatten ++ s) := by
      cases items with
      | nil => simpa using hQs
      | cons j items => simpa [List.append_assoc] using hQ j (by simp) _
    have hi := hp i (List.mem_cons_self i items) _ hrest
    have hlen : 0 < (enc i).length := List.length_pos.mpr (hne i (List.mem_cons_self i items))
    rw [List.map_cons, List.flatten_cons, List.append_assoc, repeated_cons hi (by simp; omega) n,
      ih (fun j hj => hne j (List.mem_cons_of_mem i hj))
        (fun j hj => hp j (List.mem_cons_of_mem i hj))
        (fun j hj => hQ j (List.mem_cons_of_mem i hj)) (by simp at hn; omega)]
    rfl

theorem repeatedAux_stopped : ∀ {fuel : Nat} {s r : List Char} {as : List α},
    repeatedAux p fuel s = some (as, r) → p r = none
  | 0, _, _, _, h => by cases h
  | fuel + 1, s, r, as, h => by
    simp only [repeatedAux] at h
    split at h
    · next hs =>
      cases h
      exact hs
    · split at h
      · obtain ⟨⟨bs, r'⟩, hx, he⟩ := Option.map_eq_some'.mp h
        simp only [Prod.mk.injEq] at he
        rw [← he.2]
        exact repeatedAux_stopped hx
      · cases h

/-- **Where `repeated` stopped, its parser fails.** -/
theorem repeated_stopped {n : Nat} {as : List α} (h : p.repeated n s = some (as, r)) :
    p r = none := by
  simp only [repeated] at h
  split at h
  · next hx =>
    split at h
    · cases h
      exact repeatedAux_stopped hx
    · cases h
  · cases h

/-! ### What a success was made of -/

theorem map_eq_some {f : α → β} {b : β} (h : p.map f s = some (b, r)) :
    ∃ a, p s = some (a, r) ∧ b = f a := by
  obtain ⟨⟨a, r'⟩, ha, he⟩ := Option.map_eq_some'.mp h
  cases he
  exact ⟨a, ha, rfl⟩

theorem chain_eq_some {p q : Parser (List α)} {v : List α} (h : p.chain q s = some (v, r)) :
    ∃ v₁ r₁ v₂, p s = some (v₁, r₁) ∧ q r₁ = some (v₂, r) ∧ v = v₁ ++ v₂ := by
  obtain ⟨⟨v₁, v₂⟩, hpq, rfl⟩ := map_eq_some h
  simp only [Parser.then] at hpq
  split at hpq
  · cases hpq
  · next v₁' r₁ hp =>
    obtain ⟨⟨v₂', r'⟩, hq, he⟩ := Option.map_eq_some'.mp hpq
    cases he
    exact ⟨_, _, _, hp, hq, rfl⟩

theorem repeatedAux_filter {f : Char → Bool} : ∀ {fuel : Nat} {s r cs : List Char},
    repeatedAux (filter f) fuel s = some (cs, r) → s = cs ++ r ∧ ∀ c ∈ cs, f c = true
  | 0, _, _, _, h => by cases h
  | fuel + 1, s, r, cs, h => by
    simp only [repeatedAux] at h
    split at h
    · cases h
      exact ⟨rfl, by simp⟩
    · next c r' hc =>
      split at h
      · obtain ⟨⟨cs', r''⟩, hcs, he⟩ := Option.map_eq_some'.mp h
        cases he
        obtain ⟨rfl, hall⟩ := repeatedAux_filter hcs
        cases s with
        | nil => cases hc
        | cons x s =>
          simp only [filter_cons] at hc
          split at hc
          · next hx =>
            cases hc
            exact ⟨rfl, by simpa [hx] using hall⟩
          · cases hc
      · cases h

/-- **What `repeated` over a filter read**: characters it accepts, at least `n` of them. -/
theorem repeated_filter {f : Char → Bool} {n : Nat} {cs : List Char}
    (h : (filter f).repeated n s = some (cs, r)) :
    s = cs ++ r ∧ n ≤ cs.length ∧ ∀ c ∈ cs, f c = true := by
  simp only [repeated] at h
  split at h
  · next hx =>
    split at h
    · next hn =>
      cases h
      exact ⟨(repeatedAux_filter hx).1, hn, (repeatedAux_filter hx).2⟩
    · cases h
  · cases h

/-! ### Reading forward -/

/-- A parser reads forward: what it leaves is a suffix of its input. -/
def Forward (p : Parser α) : Prop := ∀ s a r, p s = some (a, r) → r <:+ s

theorem filter_forward (f : Char → Bool) : Forward (filter f) := by
  intro s a r h
  cases s with
  | nil => cases h
  | cons c s =>
    simp only [filter_cons] at h
    split at h
    · cases h
      exact List.suffix_cons _ _
    · cases h

theorem map_forward {f : α → β} (hp : Forward p) : Forward (p.map f) := by
  intro s b r h
  obtain ⟨⟨a, r'⟩, ha, he⟩ := Option.map_eq_some'.mp h
  cases he
  exact hp _ _ _ ha

theorem then_forward (hp : Forward p) (hq : Forward q) : Forward (p.then q) := by
  intro s ab r h
  simp only [Parser.then] at h
  split at h
  · cases h
  · next a r' hpa =>
    obtain ⟨⟨b, r''⟩, hb, he⟩ := Option.map_eq_some'.mp h
    cases he
    exact (hq _ _ _ hb).trans (hp _ _ _ hpa)

theorem ignoreThen_forward (hp : Forward p) (hq : Forward q) : Forward (p.ignoreThen q) :=
  map_forward (then_forward hp hq)

theorem thenIgnore_forward (hp : Forward p) (hq : Forward q) : Forward (p.thenIgnore q) :=
  map_forward (then_forward hp hq)

theorem chain_forward {p q : Parser (List α)} (hp : Forward p) (hq : Forward q) :
    Forward (p.chain q) :=
  map_forward (then_forward hp hq)

theorem delimitedBy_forward {l r : Parser β} (hp : Forward p) (hl : Forward l)
    (hr : Forward r) : Forward (p.delimitedBy l r) :=
  ignoreThen_forward hl (thenIgnore_forward hp hr)

theorem or_forward {p' : Parser α} (hp : Forward p) (hp' : Forward p') : Forward (p.or p') := by
  intro s a r h
  simp only [Parser.or] at h
  split at h
  · exact hp' _ _ _ h
  · next x hx => cases h; exact hp _ _ _ hx

theorem orNot_forward (hp : Forward p) : Forward p.orNot := by
  intro s a r h
  simp only [orNot] at h
  split at h
  · cases h; exact List.suffix_refl s
  · next a' r' hx => cases h; exact hp _ _ _ hx

theorem orEmpty_forward {p : Parser (List α)} (hp : Forward p) : Forward p.orEmpty :=
  map_forward (orNot_forward hp)

theorem exactlyOne_forward (hp : Forward p) : Forward p.exactlyOne := map_forward hp

theorem repeatedAux_forward (hp : Forward p) : ∀ fuel, Forward (repeatedAux p fuel)
  | 0 => by intro s a r h; cases h
  | fuel + 1 => by
    intro s as r h
    simp only [repeatedAux] at h
    split at h
    · cases h; exact List.suffix_refl s
    · next a r' hpa =>
      split at h
      · obtain ⟨⟨bs, r''⟩, hb, he⟩ := Option.map_eq_some'.mp h
        cases he
        exact (repeatedAux_forward hp fuel _ _ _ hb).trans (hp _ _ _ hpa)
      · cases h

theorem repeated_forward (hp : Forward p) (n : Nat) : Forward (p.repeated n) := by
  intro s as r h
  simp only [repeated] at h
  split at h
  · next hx =>
    split at h
    · cases h; exact repeatedAux_forward hp _ _ _ _ hx
    · cases h
  · cases h

/-! ### Making progress -/

/-- A parser **makes progress** when what it leaves is shorter than its input: `repeated` over
it stops only where it fails. -/
def Progresses (p : Parser α) : Prop := ∀ s a r, p s = some (a, r) → r.length < s.length

theorem then_eq_some {x : α × β} (h : p.then q s = some (x, r)) :
    ∃ r₁, p s = some (x.1, r₁) ∧ q r₁ = some (x.2, r) := by
  simp only [Parser.then] at h
  split at h
  · cases h
  · next a r₁ hp =>
    obtain ⟨⟨b, r'⟩, hq, he⟩ := Option.map_eq_some'.mp h
    cases he
    exact ⟨r₁, hp, hq⟩

theorem filter_progresses (f : Char → Bool) : Progresses (filter f)
  | [], _, _, h => by cases h
  | c :: s, a, r, h => by
    rw [filter_cons] at h
    split at h
    · cases h; exact Nat.lt_succ_self _
    · cases h

theorem map_progresses {f : α → β} (hp : Progresses p) : Progresses (p.map f) := by
  intro s b r h
  obtain ⟨a, ha, -⟩ := map_eq_some h
  exact hp _ _ _ ha

theorem then_progresses_left (hp : Progresses p) (hq : Forward q) : Progresses (p.then q) := by
  intro s x r h
  obtain ⟨r₁, h₁, h₂⟩ := then_eq_some h
  exact lt_of_le_of_lt (hq _ _ _ h₂).length_le (hp _ _ _ h₁)

theorem then_progresses_right (hp : Forward p) (hq : Progresses q) : Progresses (p.then q) := by
  intro s x r h
  obtain ⟨r₁, h₁, h₂⟩ := then_eq_some h
  exact lt_of_lt_of_le (hq _ _ _ h₂) (hp _ _ _ h₁).length_le

theorem chain_progresses_left {p q : Parser (List α)} (hp : Progresses p) (hq : Forward q) :
    Progresses (p.chain q) :=
  map_progresses (then_progresses_left hp hq)

theorem chain_progresses_right {p q : Parser (List α)} (hp : Forward p) (hq : Progresses q) :
    Progresses (p.chain q) :=
  map_progresses (then_progresses_right hp hq)

theorem ignoreThen_progresses (hp : Progresses p) (hq : Forward q) :
    Progresses (p.ignoreThen q) :=
  map_progresses (then_progresses_left hp hq)

theorem thenIgnore_progresses (hp : Progresses p) (hq : Forward q) :
    Progresses (p.thenIgnore q) :=
  map_progresses (then_progresses_left hp hq)

theorem delimitedBy_progresses {l r : Parser β} (hp : Forward p) (hl : Progresses l)
    (hr : Forward r) : Progresses (p.delimitedBy l r) :=
  ignoreThen_progresses hl (thenIgnore_forward hp hr)

theorem or_progresses {p' : Parser α} (hp : Progresses p) (hp' : Progresses p') :
    Progresses (p.or p') := by
  intro s a r h
  simp only [Parser.or] at h
  split at h
  · exact hp' _ _ _ h
  · next x hx => cases h; exact hp _ _ _ hx

/-- `repeated` with at least one item makes progress: its first item does. -/
theorem repeated_progresses (hf : Forward p) (hp : Progresses p) (n : Nat) :
    Progresses (p.repeated (n + 1)) := by
  intro s as r h
  cases hs : p s with
  | none => rw [repeated_stop_succ hs] at h; cases h
  | some x =>
    obtain ⟨a, r₁⟩ := x
    have h₁ := hp _ _ _ hs
    rw [repeated_cons hs h₁] at h
    obtain ⟨⟨as', r'⟩, h₂, he⟩ := Option.map_eq_some'.mp h
    cases he
    exact lt_of_le_of_lt (repeated_forward hf _ _ _ _ h₂).length_le h₁

/-- **`repeated().at_least(0)` never fails** over a parser that makes progress. -/
theorem repeated_zero_isSome (hp : Progresses p) (s : List Char) : (p.repeated 0 s).isSome := by
  cases hs : p s with
  | none => simp [repeated_stop hs]
  | some x =>
    obtain ⟨a, r⟩ := x
    have hr := hp _ _ _ hs
    rw [repeated_cons hs hr]
    simpa using repeated_zero_isSome hp r
termination_by s.length

end Parser

theorem choice_forward {α : Type} : ∀ {ps : List (Parser α)}, (∀ p ∈ ps, p.Forward) →
    (choice ps).Forward
  | [], _ => by intro s a r h; cases h
  | p :: ps, h => Parser.or_forward (h p (List.mem_cons_self p ps))
      (choice_forward fun q hq => h q (List.mem_cons_of_mem p hq))

theorem choice_progresses {α : Type} : ∀ {ps : List (Parser α)}, (∀ p ∈ ps, p.Progresses) →
    (choice ps).Progresses
  | [], _ => by intro s a r h; cases h
  | p :: ps, h => Parser.or_progresses (h p (List.mem_cons_self p ps))
      (choice_progresses fun q hq => h q (List.mem_cons_of_mem p hq))

end Lettre.Chumsky
