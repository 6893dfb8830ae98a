import Lettre.Utf8

/-!
# The socket and `BufReader`

The client writes to its socket directly and reads it through a `BufReader`: `BufReader` in
`SmtpConnection`, the `bufstream` crate's `BufStream` in `Client`, which reads the same way.
What each `read` call on the socket returns, and whether each write goes through, is up to the
network and the peer, so a `NetworkStream` holds both as scripts, and every result about the
client holds for every script.

`readLine` is `BufRead::read_line`: it takes bytes from the reader's buffer and, when that runs
dry, from one more `read` of the socket, until it has taken an LF or the socket reports the end
of the stream (a read of no bytes) or an error. It appends what it took to the caller's `String`
when that is UTF-8, and fails with `InvalidData` otherwise; either way, what it took is gone from
the reader.

* `pending_readLine`: a line `readLine` returns is taken from the front of the bytes the reader
  holds and the socket will still deliver, and nothing else is.
* `readLine_line`: when those bytes start with a UTF-8 line ending in LF and every read delivers
  some bytes, `readLine` returns exactly that line, however the reads split it.

The `BufReader` capacity (8 KiB) bounds how much one `read` returns; a script's reads are what
the socket returned, so they already respect it.
-/

namespace Lettre.Io

/-- What one `read` call on the socket returns: some bytes, none at the end of the stream, or an
error. (A read interrupted by a signal is retried by `read_until` and is not a step here.) -/
inductive Recv
  | data (bytes : List UInt8)
  | fail
  deriving DecidableEq, Repr

/-- The bytes a read delivers. -/
def Recv.bytes : Recv → List UInt8
  | .data b => b
  | .fail => []

/-- The `io::Error`s the client can see. -/
inductive IoError
  /-- A `read` failed. -/
  | read
  /-- A `write_all` or `flush` failed. -/
  | write
  /-- `read_line` read bytes that are not UTF-8 (`ErrorKind::InvalidData`). -/
  | invalidData
  deriving DecidableEq, Repr

/-- `NetworkStream`: a TCP socket, upgraded in place to TLS by `upgrade_tls`. -/
structure NetworkStream where
  /-- Whether `upgrade_tls` has run; reads then come from the TLS session. -/
  encrypted : Bool
  /-- What each `read` of the plaintext socket returns, in order; after the last, the end of the
  stream. -/
  plain : List Recv
  /-- What each `read` of the TLS session returns, in order. -/
  tls : List Recv
  /-- Whether the TLS handshake of `upgrade_tls` succeeds. -/
  handshake : Bool
  /-- Whether each write succeeds, in order; after the last, every write succeeds. -/
  writes : List Bool
  /-- Every write, in order, with the bytes it was given, whether it succeeded or not. -/
  sent : List (List UInt8)
  /-- Whether `shutdown` has been called. -/
  shut : Bool
  deriving DecidableEq, Repr

namespace NetworkStream

/-- The reads still to come on the channel in use. -/
def reads (s : NetworkStream) : List Recv := if s.encrypted then s.tls else s.plain

/-- The channel in use, with its reads replaced. -/
def setReads (s : NetworkStream) (r : List Recv) : NetworkStream :=
  if s.encrypted then { s with tls := r } else { s with plain := r }

@[simp] theorem reads_setReads (s : NetworkStream) (r : List Recv) : (s.setReads r).reads = r := by
  unfold reads setReads; split <;> simp_all

@[simp] theorem encrypted_setReads (s : NetworkStream) (r : List Recv) :
    (s.setReads r).encrypted = s.encrypted := by
  unfold setReads; split <;> rfl

@[simp] theorem sent_setReads (s : NetworkStream) (r : List Recv) :
    (s.setReads r).sent = s.sent := by
  unfold setReads; split <;> rfl

@[simp] theorem writes_setReads (s : NetworkStream) (r : List Recv) :
    (s.setReads r).writes = s.writes := by
  unfold setReads; split <;> rfl

@[simp] theorem shut_setReads (s : NetworkStream) (r : List Recv) :
    (s.setReads r).shut = s.shut := by
  unfold setReads; split <;> rfl

@[simp] theorem handshake_setReads (s : NetworkStream) (r : List Recv) :
    (s.setReads r).handshake = s.handshake := by
  unfold setReads; split <;> rfl

@[simp] theorem setReads_reads (s : NetworkStream) : s.setReads s.reads = s := by
  obtain ⟨_ | _, _, _, _, _, _, _⟩ := s <;> rfl

@[simp] theorem setReads_setReads (s : NetworkStream) (r r' : List Recv) :
    (s.setReads r).setReads r' = s.setReads r' := by
  obtain ⟨_ | _, _, _, _, _, _, _⟩ := s <;> rfl

/-- `write_all` then `flush`: the bytes are sent, and the next entry of the script says whether
that worked. -/
def write (s : NetworkStream) (bytes : List UInt8) : Bool × NetworkStream :=
  (s.writes.headD true, { s with writes := s.writes.tail, sent := s.sent ++ [bytes] })

@[simp] theorem reads_write (s : NetworkStream) (bytes : List UInt8) :
    (s.write bytes).2.reads = s.reads := rfl

/-- `upgrade_tls`: the TLS handshake on the socket; when it succeeds, every later read is of the
TLS session. Modelled from the source's uses: `net.rs` is not part of the source. -/
def upgradeTls (s : NetworkStream) : Option NetworkStream :=
  if s.handshake then some { s with encrypted := true } else none

end NetworkStream

/-! ### `read_line` -/

/-- The bytes up to and with the first LF, and the bytes after it; none without an LF. -/
def splitLine : List UInt8 → Option (List UInt8 × List UInt8)
  | [] => none
  | b :: s => if b = 10 then some ([10], s) else (splitLine s).map fun r => (b :: r.1, r.2)

/-- The loop of `read_until(b'\n')` once the reader's buffer is empty: one `read` per step. It
returns the bytes taken, with the error that stopped it if any, then the reader's buffer and the
reads left. -/
def readUntilAux (acc : List UInt8) :
    List Recv → (List UInt8 × Option IoError) × List UInt8 × List Recv
  | [] => ((acc, none), [], [])
  | .fail :: rs => ((acc, some .read), [], rs)
  | .data d :: rs =>
    if d = [] then ((acc, none), [], rs)
    else match splitLine d with
      | some (l, rest) => ((acc ++ l, none), rest, rs)
      | none => readUntilAux (acc ++ d) rs

/-- `BufRead::read_until(b'\n')`: first from the reader's buffer, then from the socket. -/
def readUntil (buf : List UInt8) (reads : List Recv) :
    (List UInt8 × Option IoError) × List UInt8 × List Recv :=
  match splitLine buf with
  | some (l, rest) => ((l, none), rest, reads)
  | none => readUntilAux buf reads

/-- `BufRead::read_line`: `read_until`, then the UTF-8 check of what it read. -/
def readLine (buf : List UInt8) (reads : List Recv) : Except IoError Str × List UInt8 × List Recv :=
  match readUntil buf reads with
  | ((_, some e), buf', reads') => (.error e, buf', reads')
  | ((bytes, none), buf', reads') =>
    match fromUtf8 bytes with
    | some line => (.ok line, buf', reads')
    | none => (.error .invalidData, buf', reads')

/-- A `BufReader` over the socket: the bytes it has read and not handed out, and the socket. -/
structure BufReader where
  buf : List UInt8
  inner : NetworkStream
  deriving DecidableEq, Repr

/-- `read_line` on the reader, reading the channel in use. -/
def BufReader.readLine (r : BufReader) : Except IoError Str × BufReader :=
  match Io.readLine r.buf r.inner.reads with
  | (res, buf, reads) => (res, ⟨buf, r.inner.setReads reads⟩)

/-- The bytes a reader will still hand out: its buffer, then what the socket will deliver. -/
def pending (buf : List UInt8) (reads : List Recv) : List UInt8 :=
  buf ++ (reads.map Recv.bytes).flatten

/-- The bytes the reader will still hand out. -/
def BufReader.pending (r : BufReader) : List UInt8 := Io.pending r.buf r.inner.reads

@[simp] theorem BufReader.sent_readLine (r : BufReader) :
    r.readLine.2.inner.sent = r.inner.sent := by
  simp [BufReader.readLine]

/-- Every read delivers some bytes: no error and no end of stream. -/
def AllData (reads : List Recv) : Prop := ∀ r ∈ reads, ∃ d, d ≠ [] ∧ r = .data d

/-! ### What `read_line` takes -/

/-- A text holding an LF has a first one. -/
theorem exists_first_lf : ∀ {u : List UInt8}, (10 : UInt8) ∈ u →
    ∃ l w, u = l ++ 10 :: w ∧ (10 : UInt8) ∉ l
  | [], h => absurd h (List.not_mem_nil _)
  | x :: u, h => by
    by_cases hx : x = 10
    · exact ⟨[], u, by rw [hx]; rfl, List.not_mem_nil _⟩
    · obtain ⟨l, w, rfl, hl⟩ := exists_first_lf ((List.mem_cons.mp h).resolve_left (Ne.symm hx))
      exact ⟨x :: l, w, rfl, by simp [Ne.symm hx, hl]⟩

theorem splitLine_eq_none {s : List UInt8} (h : (10 : UInt8) ∉ s) : splitLine s = none := by
  induction s with
  | nil => rfl
  | cons b s ih =>
    simp only [List.mem_cons, not_or] at h
    simp [splitLine, Ne.symm h.1, ih h.2]

theorem splitLine_line {l : List UInt8} (h : (10 : UInt8) ∉ l) (w : List UInt8) :
    splitLine (l ++ 10 :: w) = some (l ++ [10], w) := by
  induction l with
  | nil => simp [splitLine]
  | cons b l ih =>
    simp only [List.mem_cons, not_or] at h
    simp [splitLine, Ne.symm h.1, ih h.2]

theorem splitLine_eq_some {s l r : List UInt8} (h : splitLine s = some (l, r)) : s = l ++ r := by
  induction s generalizing l with
  | nil => cases h
  | cons b s ih =>
    simp only [splitLine] at h
    split_ifs at h with hb
    · cases h; simp [hb]
    · obtain ⟨⟨l', r'⟩, h', he⟩ := Option.map_eq_some'.mp h
      cases he
      simp [ih h']

theorem readUntilAux_pending :
    ∀ (acc : List UInt8) (reads : List Recv) {bytes buf' : List UInt8} {reads' : List Recv},
      readUntilAux acc reads = ((bytes, none), buf', reads') →
      acc ++ pending [] reads = bytes ++ pending buf' reads' ∧ reads'.length ≤ reads.length
  | acc, [], _, _, _, h => by cases h; simp [pending]
  | acc, .fail :: rs, _, _, _, h => by cases h
  | acc, .data d :: rs, bytes, buf', reads', h => by
    simp only [readUntilAux] at h
    split_ifs at h with hd
    · cases h; simp [pending, Recv.bytes, hd]
    · split at h
      · next l rest hs =>
        cases h
        simp [pending, Recv.bytes, splitLine_eq_some hs]
      · obtain ⟨h1, h2⟩ := readUntilAux_pending (acc ++ d) rs h
        refine ⟨?_, by simp; omega⟩
        simpa [pending, Recv.bytes] using h1

theorem readUntilAux_drop : ∀ (acc : List UInt8) (reads : List Recv),
    ∃ k, (readUntilAux acc reads).2.2 = reads.drop k
  | _, [] => ⟨0, rfl⟩
  | _, .fail :: _ => ⟨1, rfl⟩
  | acc, .data d :: rs => by
    simp only [readUntilAux]
    split_ifs
    · exact ⟨1, rfl⟩
    · split
      · exact ⟨1, rfl⟩
      · obtain ⟨k, hk⟩ := readUntilAux_drop (acc ++ d) rs
        exact ⟨k + 1, hk⟩

/-- `read_line` only ever takes reads from the front of the script. -/
theorem readLine_drop (buf : List UInt8) (reads : List Recv) :
    ∃ k, (readLine buf reads).2.2 = reads.drop k := by
  obtain ⟨k, hk⟩ : ∃ k, (readUntil buf reads).2.2 = reads.drop k := by
    simp only [readUntil]
    split
    · exact ⟨0, rfl⟩
    · exact readUntilAux_drop buf reads
  refine ⟨k, ?_⟩
  simp only [readLine]
  split
  · simpa [*] using hk
  · split <;> simpa [*] using hk

/-- **What `read_line` takes.** A line it returns is taken from the front of the pending bytes,
and no read is given back. -/
theorem pending_readLine {buf buf' : List UInt8} {reads reads' : List Recv} {line : Str}
    (h : readLine buf reads = (.ok line, buf', reads')) :
    pending buf reads = line.bytes ++ pending buf' reads' ∧ reads'.length ≤ reads.length := by
  simp only [readLine] at h
  split at h
  · cases h
  · next bytes b r hu =>
    split at h
    · next s hs =>
      cases h
      rw [fromUtf8_eq_some hs]
      simp only [readUntil] at hu
      split at hu
      · next l rest hl =>
        cases hu
        simp [pending, splitLine_eq_some hl]
      · simpa [pending] using readUntilAux_pending buf reads hu
    · cases h

/-- Where the first LF of `d ++ r` lies, when it comes after `l`: after `d`, or inside it. -/
theorem append_eq_line {d r l w : List UInt8} (hl : (10 : UInt8) ∉ l) (h : d ++ r = l ++ 10 :: w) :
    ((10 : UInt8) ∉ d ∧ ∃ a, l = d ++ a ∧ r = a ++ 10 :: w) ∨
      ∃ c, d = l ++ 10 :: c ∧ w = c ++ r := by
  rcases List.append_eq_append_iff.mp h with ⟨a, rfl, ha⟩ | ⟨c, rfl, hc⟩
  · exact .inl ⟨fun h => hl (by simp [h]), a, rfl, ha⟩
  · rcases c with _ | ⟨c0, c⟩
    · simp only [List.append_nil, List.nil_append] at hc ⊢
      exact .inl ⟨hl, [], by simp, hc.symm⟩
    · simp only [List.cons_append, List.cons.injEq] at hc
      obtain ⟨rfl, rfl⟩ := hc
      exact .inr ⟨c, rfl, rfl⟩

theorem readUntilAux_line {w : List UInt8} :
    ∀ {l : List UInt8} (acc : List UInt8) (reads : List Recv), (10 : UInt8) ∉ l → AllData reads →
      (reads.map Recv.bytes).flatten = l ++ 10 :: w →
      ∃ buf' reads', readUntilAux acc reads = ((acc ++ l ++ [10], none), buf', reads') ∧
        pending buf' reads' = w ∧ AllData reads' ∧ reads'.length < reads.length
  | _, acc, [], _, _, h => by simp at h
  | l, acc, r :: rs, hl, hall, h => by
    obtain ⟨d, hd, rfl⟩ := hall r (List.mem_cons_self r rs)
    have hrs : AllData rs := fun x hx => hall x (List.mem_cons_of_mem _ hx)
    simp only [List.map_cons, Recv.bytes, List.flatten_cons] at h
    rcases append_eq_line hl h with ⟨hd10, a, rfl, ha⟩ | ⟨c, rfl, rfl⟩
    · obtain ⟨buf', reads', h1, h2, h3, h4⟩ :=
        readUntilAux_line (acc ++ d) rs (fun h => hl (by simp [h])) hrs ha
      refine ⟨buf', reads', ?_, h2, h3, by simp; omega⟩
      rw [readUntilAux, if_neg hd, splitLine_eq_none hd10, h1]
      simp
    · refine ⟨c, rs, ?_, by simp [pending], hrs, by simp⟩
      rw [readUntilAux, if_neg hd, splitLine_line hl]
      simp

/-- **`read_line` returns the next line.** When the pending bytes start with a UTF-8 line that
ends in LF and holds no other LF, and every read delivers bytes, `read_line` returns that line
and leaves the rest pending, however the reads split it. -/
theorem readLine_line {buf : List UInt8} {reads : List Recv} {l w : List UInt8}
    (hl : (10 : UInt8) ∉ l) (hv : Utf8.valid (l ++ [10]) = true) (hall : AllData reads)
    (h : pending buf reads = l ++ 10 :: w) :
    ∃ buf' reads', readLine buf reads = (.ok ⟨l ++ [10], hv⟩, buf', reads') ∧
      pending buf' reads' = w ∧ AllData reads' ∧ reads'.length ≤ reads.length := by
  have hfrom : fromUtf8 (l ++ [10]) = some ⟨l ++ [10], hv⟩ := by simp [fromUtf8, hv]
  rcases append_eq_line hl h with ⟨hb10, a, rfl, ha⟩ | ⟨c, rfl, rfl⟩
  · obtain ⟨buf', reads', h1, h2, h3, h4⟩ :=
      readUntilAux_line buf reads (fun h => hl (by simp [h])) hall ha
    refine ⟨buf', reads', ?_, h2, h3, h4.le⟩
    simp only [readLine, readUntil, splitLine_eq_none hb10, h1, hfrom]
  · refine ⟨c, reads, ?_, by simp [pending], hall, le_refl _⟩
    rw [readLine, readUntil, splitLine_line hl]
    simp only [hfrom]

/-- `readLine_line` on a `BufReader`. -/
theorem BufReader.readLine_line {r : BufReader} {l w : List UInt8} (hl : (10 : UInt8) ∉ l)
    (hv : Utf8.valid (l ++ [10]) = true) (hall : AllData r.inner.reads)
    (h : r.pending = l ++ 10 :: w) :
    ∃ line r', r.readLine = (.ok line, r') ∧ line.bytes = l ++ [10] ∧ r'.pending = w ∧
      AllData r'.inner.reads := by
  obtain ⟨buf', reads', hread, hw, hall', -⟩ := Io.readLine_line hl hv hall h
  exact ⟨_, _, by rw [BufReader.readLine, hread], rfl, by simpa [BufReader.pending] using hw,
    by simpa using hall'⟩

end Lettre.Io
