import Lettre.Message.Header

/-!
# The header store

`message/header/mod.rs`: `Headers` keeps its headers in a `Vec`, and every operation finds a
header the same way, as the first one whose name equals the name asked for up to ASCII case
(`find_header`, `find_header_mut`, `find_header_index`). `insert_raw` overwrites that header in
place, or pushes the new one after the others when there is none; `remove_raw` takes it out and
returns it; `clear` empties the store. The typed `get`, `set` and `remove` go through these with
the name, `parse` and `display` of a `Header` type.

Read through `find_header`, a store is a map from names up to ASCII case to headers
(`HeaderMap`). `insert_raw` updates that map, whatever the store; `clear` empties it; and on a
store where no two headers share a name up to case (`Distinct`), `remove_raw` erases the name.
The three operations keep `Distinct`, so a store built from `Headers::new` by any run of them is
exactly the map the same run builds.

* `getRaw_insertRaw`: on every store, after `insert_raw`, the value's name finds the value's
  raw text, and every other name finds what it found before.
* `removeRaw_getRaw`: `remove_raw` returns the header `find_header` finds, and on a `Distinct`
  store no header of that name is left, the others untouched.
* `run_findHeader`: every run of operations from a `Distinct` store keeps it `Distinct` and acts
  on the map as the run of updates, erasures and emptyings.
* `get_set`: a typed header set is read back by `get`, when its type's `parse` reads back its
  `display`, and on a `Distinct` store `remove` then takes it out for good.
-/

namespace Lettre.Message

/-! ### ASCII case as an equivalence -/

theorem eqIgnoreAsciiCase_iff {a b : List UInt8} :
    eqIgnoreAsciiCase a b = true ↔ toLowercase a = toLowercase b := by
  simp [eqIgnoreAsciiCase]

theorem eqIgnoreAsciiCase_comm (a b : List UInt8) :
    eqIgnoreAsciiCase a b = eqIgnoreAsciiCase b a := by
  simp only [eqIgnoreAsciiCase, eq_comm]

@[simp] theorem eqIgnoreAsciiCase_self (a : List UInt8) : eqIgnoreAsciiCase a a = true := by
  simp [eqIgnoreAsciiCase]

/-- A name that matches `b` matches nothing `b` does not match. -/
theorem eqIgnoreAsciiCase_false_left {a b c : List UInt8} (hc : eqIgnoreAsciiCase c b = true)
    (hb : eqIgnoreAsciiCase b a = false) : eqIgnoreAsciiCase c a = false := by
  simp only [eqIgnoreAsciiCase, decide_eq_true_eq, decide_eq_false_iff_not] at *
  exact hc ▸ hb

/-- A name that does not match `b` matches nothing that matches `b`. -/
theorem eqIgnoreAsciiCase_false_right {a b c : List UInt8} (hc : eqIgnoreAsciiCase c b = false)
    (hb : eqIgnoreAsciiCase b a = true) : eqIgnoreAsciiCase c a = false := by
  simp only [eqIgnoreAsciiCase, decide_eq_true_eq, decide_eq_false_iff_not] at *
  exact hb ▸ hc

/-! ### The operations -/

/-- `Headers::find_header_index`: the index of the first header whose name equals `name` up to
ASCII case. -/
def Headers.findHeaderIndex (self : Headers) (name : List UInt8) : Option Nat :=
  self.headers.findIdx? fun value => eqIgnoreAsciiCase name value.name.name

/-- `Headers::find_header_mut`: the header `find_header_index` finds, as the place it borrows. -/
def Headers.findHeaderMut (self : Headers) (name : List UInt8) : Option Nat :=
  self.findHeaderIndex name

/-- `Headers::insert_raw`: the header `find_header_mut` finds for the value's name overwritten
with the value, or the value pushed after the others when there is none. -/
def Headers.insertRaw (self : Headers) (value : HeaderValue) : Headers :=
  match self.findHeaderMut value.name.name with
  | some i => ⟨self.headers.set i value⟩
  | none => ⟨self.headers ++ [value]⟩

/-- `Headers::remove_raw`: the header `find_header_index` finds, taken out by `Vec::remove`, and
the store left. -/
def Headers.removeRaw (self : Headers) (name : List UInt8) : Option HeaderValue × Headers :=
  match self.findHeaderIndex name with
  | some i => (self.headers[i]?, ⟨self.headers.eraseIdx i⟩)
  | none => (none, self)

/-- `Headers::clear`. -/
def Headers.clear (_self : Headers) : Headers := ⟨[]⟩

/-- The `Header` trait: a header type's name, its `parse`, whose error every caller drops with
`.ok()`, and its `display`. -/
structure Header (H : Type) where
  name : HeaderName
  parse : List UInt8 → Option H
  display : H → HeaderValue

/-- `Headers::get`: the raw value of the type's name, parsed. -/
def Headers.get {H : Type} (header : Header H) (self : Headers) : Option H :=
  (self.getRaw header.name.name).bind header.parse

/-- `Headers::set`: the header's display inserted. -/
def Headers.set {H : Type} (header : Header H) (self : Headers) (h : H) : Headers :=
  self.insertRaw (header.display h)

/-- `Headers::remove`: the header of the type's name removed, and its raw value parsed. -/
def Headers.remove {H : Type} (header : Header H) (self : Headers) : Option H × Headers :=
  let (value, self) := self.removeRaw header.name.name
  (value.bind fun value => header.parse value.rawValue, self)

/-! ### The map a store is read as -/

/-- A map from header names, up to ASCII case, to headers: what a store answers for each name. -/
def HeaderMap : Type := List UInt8 → Option HeaderValue

/-- The map with no header. -/
def HeaderMap.empty : HeaderMap := fun _ => none

/-- The map with `value` under its name. -/
def HeaderMap.update (m : HeaderMap) (value : HeaderValue) : HeaderMap := fun name =>
  if eqIgnoreAsciiCase name value.name.name then some value else m name

/-- The map with nothing under `name`. -/
def HeaderMap.erase (m : HeaderMap) (name : List UInt8) : HeaderMap := fun name' =>
  if eqIgnoreAsciiCase name' name then none else m name'

/-- Headers none of which is named `name` hold none named like it. -/
theorem find?_eq_none_of_named {l : List HeaderValue} {name name' : List UInt8}
    (hl : ∀ a ∈ l, eqIgnoreAsciiCase name a.name.name = false)
    (h : eqIgnoreAsciiCase name' name = true) :
    l.find? (fun a => eqIgnoreAsciiCase name' a.name.name) = none :=
  List.find?_eq_none.mpr fun a ha => by simp [eqIgnoreAsciiCase_false_left h (hl a ha)]

/-- **`insert_raw` updates the map.** On every store, after `insert_raw value`, a name equal to
the value's name up to ASCII case finds the value, and every other name finds what it found
before. -/
theorem findHeader_insertRaw (self : Headers) (value : HeaderValue) (name : List UInt8) :
    (self.insertRaw value).findHeader name = HeaderMap.update self.findHeader value name := by
  unfold Headers.insertRaw Headers.findHeaderMut Headers.findHeaderIndex HeaderMap.update
  split
  · next i hi =>
    obtain ⟨u, x, w, hs, rfl, hu, hx⟩ := findIdx?_eq_some_split hi
    simp only [Headers.findHeader, hs, List.set_append_right _ _ (Nat.le_refl _), Nat.sub_self,
      List.set_cons_zero, List.find?_append, List.find?_cons]
    cases hn : eqIgnoreAsciiCase name value.name.name
    · simp [eqIgnoreAsciiCase_false_right hn hx]
    · simp [find?_eq_none_of_named hu hn]
  · next hi =>
    have hall := List.findIdx?_eq_none_iff.mp hi
    simp only [Headers.findHeader, List.find?_append, List.find?_singleton]
    cases hn : eqIgnoreAsciiCase name value.name.name
    · simp
    · simp [find?_eq_none_of_named hall hn]

/-- **`get_raw` after `insert_raw`.** On every store, the raw value of a name equal to the
inserted value's name up to ASCII case is the value's, and every other name keeps its raw value. -/
theorem getRaw_insertRaw (self : Headers) (value : HeaderValue) (name : List UInt8) :
    (self.insertRaw value).getRaw name =
      if eqIgnoreAsciiCase name value.name.name then some value.rawValue else self.getRaw name := by
  rw [Headers.getRaw, findHeader_insertRaw, HeaderMap.update]
  split <;> rfl

/-- **`remove_raw` returns what `find_header` finds.** -/
theorem removeRaw_fst (self : Headers) (name : List UInt8) :
    (self.removeRaw name).1 = self.findHeader name := by
  unfold Headers.removeRaw Headers.findHeaderIndex Headers.findHeader
  split
  · next i hi =>
    obtain ⟨u, x, w, hs, rfl, hu, hx⟩ := findIdx?_eq_some_split hi
    rw [hs, List.getElem?_append_right (Nat.le_refl _), Nat.sub_self, List.getElem?_cons_zero,
      List.find?_append, find?_eq_none_of_named hu (eqIgnoreAsciiCase_self name)]
    simp [hx]
  · next hi =>
    exact (find?_eq_none_of_named (List.findIdx?_eq_none_iff.mp hi)
      (eqIgnoreAsciiCase_self name)).symm

/-! ### Stores with one header per name -/

/-- No two headers of the store have names equal up to ASCII case. -/
def Headers.Distinct (self : Headers) : Prop :=
  self.headers.Pairwise fun a b => eqIgnoreAsciiCase a.name.name b.name.name = false

instance (self : Headers) : Decidable self.Distinct :=
  inferInstanceAs (Decidable (List.Pairwise _ _))

/-- **`remove_raw` erases the name from a store with one header per name.** -/
theorem findHeader_removeRaw {self : Headers} (hd : self.Distinct) (name name' : List UInt8) :
    (self.removeRaw name).2.findHeader name' = HeaderMap.erase self.findHeader name name' := by
  unfold Headers.removeRaw Headers.findHeaderIndex HeaderMap.erase
  split
  · next i hi =>
    obtain ⟨u, x, w, hs, rfl, hu, hx⟩ := findIdx?_eq_some_split hi
    have hxw : ∀ b ∈ w, eqIgnoreAsciiCase x.name.name b.name.name = false := by
      have := hd
      rw [Headers.Distinct, hs, List.pairwise_append, List.pairwise_cons] at this
      exact this.2.1.1
    simp only [Headers.findHeader, hs, List.eraseIdx_append_of_length_le (Nat.le_refl _),
      Nat.sub_self, List.eraseIdx_cons_zero, List.find?_append, List.find?_cons]
    cases hn : eqIgnoreAsciiCase name' name
    · simp [eqIgnoreAsciiCase_false_right hn hx]
    · simp [find?_eq_none_of_named hu hn,
        find?_eq_none_of_named (fun b hb => eqIgnoreAsciiCase_false_left hx (hxw b hb)) hn]
  · next hi =>
    cases hn : eqIgnoreAsciiCase name' name
    · rfl
    · exact find?_eq_none_of_named (List.findIdx?_eq_none_iff.mp hi) hn

/-- **What `remove_raw` takes out.** On every store, `remove_raw` returns the header
`find_header` finds; on a store with one header per name, no header of that name is left after
it, and every other name keeps its raw value. -/
theorem removeRaw_getRaw (self : Headers) (name name' : List UInt8) :
    (self.removeRaw name).1 = self.findHeader name ∧
      (self.Distinct → (self.removeRaw name).2.getRaw name' =
        if eqIgnoreAsciiCase name' name then none else self.getRaw name') := by
  refine ⟨removeRaw_fst self name, fun hd => ?_⟩
  rw [Headers.getRaw, findHeader_removeRaw hd, HeaderMap.erase]
  split <;> rfl

/-- A `Subject` header inserted is removed as `SUBJECT`, and `subject` then finds nothing. -/
theorem removeRaw_getRaw_subject :
    let subject : HeaderValue := ⟨⟨ascii "Subject", by decide⟩, ascii "hi", ascii "hi"⟩
    (Headers.new.insertRaw subject).Distinct ∧
      ((Headers.new.insertRaw subject).removeRaw (ascii "SUBJECT")).1 = some subject ∧
      ((Headers.new.insertRaw subject).removeRaw (ascii "SUBJECT")).2.getRaw (ascii "subject") =
        none :=
  have hd : (Headers.new.insertRaw
      ⟨⟨ascii "Subject", by decide⟩, ascii "hi", ascii "hi"⟩).Distinct := by decide
  have h := removeRaw_getRaw (Headers.new.insertRaw
    ⟨⟨ascii "Subject", by decide⟩, ascii "hi", ascii "hi"⟩) (ascii "SUBJECT") (ascii "subject")
  ⟨hd, h.1.trans rfl, (h.2 hd).trans rfl⟩

theorem Headers.Distinct.insertRaw {self : Headers} (hd : self.Distinct) (value : HeaderValue) :
    (self.insertRaw value).Distinct := by
  unfold Headers.insertRaw Headers.findHeaderMut Headers.findHeaderIndex Headers.Distinct
  split
  · next i hi =>
    obtain ⟨u, x, w, hs, rfl, hu, hx⟩ := findIdx?_eq_some_split hi
    rw [Headers.Distinct, hs, List.pairwise_append, List.pairwise_cons] at hd
    obtain ⟨hpu, ⟨hxw, hpw⟩, hcross⟩ := hd
    simp only [hs, List.set_append_right _ _ (Nat.le_refl _), Nat.sub_self, List.set_cons_zero,
      List.pairwise_append, List.pairwise_cons, List.mem_cons, forall_eq_or_imp]
    refine ⟨hpu, ⟨fun b hb => eqIgnoreAsciiCase_false_left hx (hxw b hb), hpw⟩,
      fun a ha => ⟨(eqIgnoreAsciiCase_comm _ _).trans (hu a ha), fun b hb => hcross a ha b ?_⟩⟩
    exact List.mem_cons_of_mem _ hb
  · next hi =>
    have hall := List.findIdx?_eq_none_iff.mp hi
    simp only [List.pairwise_append, List.pairwise_singleton, List.mem_singleton, forall_eq]
    exact ⟨hd, trivial, fun a ha => (eqIgnoreAsciiCase_comm _ _).trans (hall a ha)⟩

theorem Headers.Distinct.removeRaw {self : Headers} (hd : self.Distinct) (name : List UInt8) :
    (self.removeRaw name).2.Distinct := by
  unfold Headers.removeRaw
  split
  · exact hd.sublist (List.eraseIdx_sublist _ _)
  · exact hd

theorem Headers.distinct_clear (self : Headers) : self.clear.Distinct := List.Pairwise.nil

theorem Headers.distinct_new : Headers.new.Distinct := List.Pairwise.nil

/-! ### Runs of operations -/

/-- The operations that change a store. -/
inductive HeadersOp
  | insertRaw (value : HeaderValue)
  | removeRaw (name : List UInt8)
  | clear

/-- One operation on a store. -/
def Headers.apply (self : Headers) : HeadersOp → Headers
  | .insertRaw value => self.insertRaw value
  | .removeRaw name => (self.removeRaw name).2
  | .clear => self.clear

/-- The operation on the map. -/
def HeaderMap.apply (m : HeaderMap) : HeadersOp → HeaderMap
  | .insertRaw value => m.update value
  | .removeRaw name => m.erase name
  | .clear => HeaderMap.empty

/-- A run of operations on a store. -/
def Headers.run (self : Headers) (ops : List HeadersOp) : Headers := ops.foldl Headers.apply self

/-- A run of operations on the map. -/
def HeaderMap.run (m : HeaderMap) (ops : List HeadersOp) : HeaderMap := ops.foldl HeaderMap.apply m

/-- One operation keeps a store `Distinct` and acts on its map as on the abstract one. -/
theorem Headers.Distinct.apply {self : Headers} (hd : self.Distinct) (op : HeadersOp) :
    (self.apply op).Distinct ∧ (self.apply op).findHeader = HeaderMap.apply self.findHeader op := by
  cases op with
  | insertRaw value => exact ⟨hd.insertRaw value, funext (findHeader_insertRaw self value)⟩
  | removeRaw name => exact ⟨hd.removeRaw name, funext (findHeader_removeRaw hd name)⟩
  | clear => exact ⟨self.distinct_clear, rfl⟩

/-- **A store is the map it is read as.** Every run of `insert_raw`, `remove_raw` and `clear`
from a store with one header per name leaves a store with one header per name, and what
`find_header` then finds for every name is what the run of updates, erasures and emptyings
makes of the map the store started as. -/
theorem run_findHeader : ∀ (ops : List HeadersOp) {self : Headers}, self.Distinct →
    (self.run ops).Distinct ∧ (self.run ops).findHeader = HeaderMap.run self.findHeader ops
  | [], _, hd => ⟨hd, rfl⟩
  | op :: ops, self, hd => by
    obtain ⟨hd', hmap⟩ := hd.apply op
    have := run_findHeader ops hd'
    rw [hmap] at this
    exact this

/-- From `Headers::new`: `Subject` inserted, overwritten as `SUBJECT`, then removed. -/
theorem run_findHeader_new :
    let subject : HeaderValue := ⟨⟨ascii "Subject", by decide⟩, ascii "hi", ascii "hi"⟩
    let upper : HeaderValue := ⟨⟨ascii "SUBJECT", by decide⟩, ascii "ho", ascii "ho"⟩
    let ops := [HeadersOp.insertRaw subject, .insertRaw upper, .removeRaw (ascii "subject")]
    Headers.new.Distinct ∧ (Headers.new.run ops).Distinct ∧
      (Headers.new.run ops).findHeader = HeaderMap.run Headers.new.findHeader ops :=
  ⟨Headers.distinct_new, run_findHeader _ Headers.distinct_new⟩

/-! ### Typed headers -/

section Typed

variable {H : Type} (header : Header H) (self : Headers) (h : H)

/-- **`get` reads back what `set` wrote.** When a header's display carries its type's name and
the type's `parse` reads back the display's raw value, `get` after `set` returns the header, on
every store; and on a store with one header per name, `remove` then returns it and leaves no
header of that type for `get`. -/
theorem get_set (hname : eqIgnoreAsciiCase header.name.name (header.display h).name.name = true)
    (hparse : header.parse (header.display h).rawValue = some h) :
    (self.set header h).get header = some h ∧
      (self.Distinct → ((self.set header h).remove header).1 = some h ∧
        ((self.set header h).remove header).2.get header = none) := by
  have hfind : (self.set header h).findHeader header.name.name = some (header.display h) := by
    rw [Headers.set, findHeader_insertRaw, HeaderMap.update, if_pos hname]
  refine ⟨by simp [Headers.get, Headers.getRaw, hfind, hparse], fun hd => ⟨?_, ?_⟩⟩
  · simp [Headers.remove, removeRaw_fst, hfind, hparse]
  · have hd' : (self.set header h).Distinct := hd.insertRaw _
    simp [Headers.get, Headers.getRaw, Headers.remove, findHeader_removeRaw hd', HeaderMap.erase]

end Typed

/-- A `Subject` header type that keeps its text as it is. -/
theorem get_set_subject :
    let subject : HeaderName := ⟨ascii "Subject", by decide⟩
    let header : Header (List UInt8) := ⟨subject, some, fun text => ⟨subject, text, text⟩⟩
    eqIgnoreAsciiCase header.name.name (header.display (ascii "hi")).name.name = true ∧
      header.parse (header.display (ascii "hi")).rawValue = some (ascii "hi") ∧
      (Headers.new.set header (ascii "hi")).get header = some (ascii "hi") ∧
      (Headers.new.Distinct → ((Headers.new.set header (ascii "hi")).remove header).1 =
          some (ascii "hi") ∧
        ((Headers.new.set header (ascii "hi")).remove header).2.get header = none) :=
  ⟨by decide, rfl, get_set ⟨⟨ascii "Subject", by decide⟩, some, fun text =>
    ⟨⟨ascii "Subject", by decide⟩, text, text⟩⟩ Headers.new (ascii "hi") (by decide) rfl⟩

end Lettre.Message
