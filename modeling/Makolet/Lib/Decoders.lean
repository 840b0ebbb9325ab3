import Makolet.Lib.Encodings

/-!
# Incremental decoders

A decoder is fed a document in chunks and keeps what is not yet a character. `Decoder.Splits` says
that it does not matter where a chunk ends; then a decoder makes of the chunks what it makes of the
document (`decode_chunks`). A decoder that chooses its reader by the beginning, and then reads one
character after the other, splits (`Header.splits`), and gives the text of some of the document
(`Header.exists_decode_of_feed`).
-/

set_option autoImplicit false

namespace Makolet.Lib

/-! ## Decoders -/

/-- The state of a decoder in front of a chunk; an error is `none`. -/
structure Decoder (σ : Type) where
  start : σ
  feed : σ → Bytes → Option (List Char × σ)
  finish : σ → Option (List Char)

namespace Decoder

variable {σ : Type} {d : Decoder σ} {P : σ → Prop} {s : σ}

def run (d : Decoder σ) : σ → List Bytes → Option (List Char × σ)
  | s, [] => some ([], s)
  | s, chunk :: chunks =>
    (d.feed s chunk).bind fun first => (d.run first.2 chunks).map fun rest =>
      (first.1 ++ rest.1, rest.2)

/-- All chunks and the end of the document. -/
def decode (d : Decoder σ) (chunks : List Bytes) : Option (List Char) :=
  (d.run d.start chunks).bind fun read => (d.finish read.2).map fun rest => read.1 ++ rest

/-- In the states `P` it does not matter where a chunk ends. -/
structure Splits (d : Decoder σ) (P : σ → Prop) : Prop where
  start : P d.start
  feed_nil : ∀ {s}, P s → d.feed s [] = some ([], s)
  keeps : ∀ {s chunk text s'}, P s → d.feed s chunk = some (text, s') → P s'
  feed_append : ∀ {s} (chunk more : Bytes), P s → d.feed s (chunk ++ more) =
    (d.feed s chunk).bind fun first => (d.feed first.2 more).map fun rest =>
      (first.1 ++ rest.1, rest.2)

theorem run_eq_feed (h : d.Splits P) (hs : P s) (chunks : List Bytes) :
    d.run s chunks = d.feed s chunks.flatten := by
  induction chunks generalizing s with
  | nil => exact (h.feed_nil hs).symm
  | cons chunk chunks ih =>
    rw [run, List.flatten_cons, h.feed_append _ _ hs]
    cases hfirst : d.feed s chunk with
    | none => rfl
    | some first =>
      rw [Option.bind_some, Option.bind_some, ih (h.keeps hs hfirst)]

theorem decode_chunks (h : d.Splits P) (chunks : List Bytes) :
    d.decode chunks = d.decode [chunks.flatten] := by
  rw [decode, decode, run_eq_feed h h.start, run_eq_feed h h.start, List.flatten_singleton]

end Decoder

/-! ## One character after the other -/

/-- What a document begins with. -/
inductive Reading
  | character (c : Char) (size : Nat)
  | incomplete
  | invalid
  deriving DecidableEq, Repr

/-- A reader of one character, which does not look behind it. -/
structure CharReader where
  read : Bytes → Reading
  read_nil : read [] = .incomplete
  size_pos : ∀ {bytes c n}, read bytes = .character c n → 0 < n ∧ n ≤ bytes.length
  character_append : ∀ {bytes c n} (more : Bytes), read bytes = .character c n →
    read (bytes ++ more) = .character c n
  invalid_append : ∀ {bytes} (more : Bytes), read bytes = .invalid →
    read (bytes ++ more) = .invalid

namespace CharReader

variable (r : CharReader)

/-- The characters and what remains behind them. -/
def scan : Nat → Bytes → Option (List Char × Bytes)
  | 0, bytes => some ([], bytes)
  | fuel + 1, bytes =>
    match r.read bytes with
    | .character c n => (scan fuel (bytes.drop n)).map fun rest => (c :: rest.1, rest.2)
    | .incomplete => some ([], bytes)
    | .invalid => none

def scanAll (bytes : Bytes) : Option (List Char × Bytes) := r.scan bytes.length bytes

/-- A character has a byte at least, so there is enough fuel. -/
theorem scan_of_le {fuel : Nat} {bytes : Bytes} (h : bytes.length ≤ fuel) :
    r.scan fuel bytes = r.scanAll bytes := by
  have hall : ∀ fuel fuel' (bytes : Bytes), bytes.length ≤ fuel → bytes.length ≤ fuel' →
      r.scan fuel bytes = r.scan fuel' bytes := by
    intro fuel
    induction fuel with
    | zero =>
      intro fuel' bytes hfuel _
      obtain rfl := List.length_eq_zero_iff.mp (Nat.le_zero.mp hfuel)
      cases fuel' with
      | zero => rfl
      | succ fuel' => rw [scan, scan, r.read_nil]
    | succ fuel ih =>
      intro fuel' bytes hfuel hfuel'
      cases fuel' with
      | zero =>
        obtain rfl := List.length_eq_zero_iff.mp (Nat.le_zero.mp hfuel')
        rw [scan, scan, r.read_nil]
      | succ fuel' =>
        rw [scan, scan]
        cases hread : r.read bytes with
        | incomplete => rfl
        | invalid => rfl
        | character c n =>
          have hsize := r.size_pos hread
          have hdrop : (bytes.drop n).length < bytes.length := by
            rw [List.length_drop]
            omega
          show (r.scan fuel (bytes.drop n)).map _ = (r.scan fuel' (bytes.drop n)).map _
          rw [ih fuel' (bytes.drop n) (by omega) (by omega)]
  exact hall fuel bytes.length bytes h (Nat.le_refl _)

/-- More bytes are read behind what remains of the first ones. -/
theorem scanAll_append (bytes more : Bytes) :
    r.scanAll (bytes ++ more) = (r.scanAll bytes).bind fun first =>
      (r.scanAll (first.2 ++ more)).map fun rest => (first.1 ++ rest.1, rest.2) := by
  induction hn : bytes.length using Nat.strong_induction_on generalizing bytes with
  | _ n ih =>
    have hback : ∀ scanned : Option (List Char × Bytes),
        (scanned.map fun rest => (([] : List Char) ++ rest.1, rest.2)) = scanned := by
      intro scanned
      cases scanned <;> rfl
    cases bytes with
    | nil => exact (hback _).symm
    | cons b rest =>
      rw [scanAll, scanAll, List.cons_append, List.length_cons, List.length_cons, scan, scan]
      cases hread : r.read (b :: rest) with
      | character c size =>
        have hsize := r.size_pos hread
        have happend := r.character_append more hread
        have hdrop : (b :: (rest ++ more)).drop size = (b :: rest).drop size ++ more := by
          rw [← List.cons_append]
          exact List.drop_append_of_le_length hsize.2
        have hlength : ((b :: rest).drop size).length < n := by
          rw [List.length_drop, hn]
          omega
        have hlong : ((b :: rest).drop size ++ more).length ≤ (rest ++ more).length := by
          rw [List.length_append, List.length_append, List.length_drop, List.length_cons]
          omega
        have hshort : ((b :: rest).drop size).length ≤ rest.length := by
          rw [List.length_drop, List.length_cons]
          omega
        rw [List.cons_append] at happend
        rw [happend]
        show (r.scan _ ((b :: (rest ++ more)).drop size)).map _ = ((r.scan _ _).map _).bind _
        rw [hdrop, r.scan_of_le hlong, r.scan_of_le hshort, ih _ hlength _ rfl]
        cases r.scanAll ((b :: rest).drop size) with
        | none => rfl
        | some first =>
          simp only [Option.bind_some, Option.map_some, Option.map_map]
          rfl
      | incomplete => exact (hback _).symm
      | invalid =>
        have happend := r.invalid_append more hread
        rw [List.cons_append] at happend
        rw [happend]
        rfl

/-- What remains is no character yet. -/
theorem scanAll_rest {bytes rest : Bytes} {text : List Char}
    (h : r.scanAll bytes = some (text, rest)) : r.scanAll rest = some ([], rest) := by
  induction hn : bytes.length using Nat.strong_induction_on generalizing bytes text with
  | _ n ih =>
    cases bytes with
    | nil =>
      cases h
      rfl
    | cons b tail =>
      rw [scanAll, List.length_cons, scan] at h
      cases hread : r.read (b :: tail) with
      | character c size =>
        have hsize := r.size_pos hread
        have hshort : ((b :: tail).drop size).length ≤ tail.length := by
          rw [List.length_drop, List.length_cons]
          omega
        rw [hread] at h
        obtain ⟨⟨text', rest'⟩, hscan, heq⟩ := Option.map_eq_some_iff.mp h
        rw [r.scan_of_le hshort] at hscan
        obtain rfl := (Prod.mk.inj heq).2
        refine ih _ ?_ hscan rfl
        rw [← hn, List.length_cons]
        omega
      | incomplete =>
        rw [hread] at h
        obtain rfl := (Prod.mk.inj (Option.some.inj h)).2
        rw [scanAll, List.length_cons, scan, hread]
      | invalid =>
        rw [hread] at h
        cases h

/-- The characters of a reader are those of an encoding. -/
def Reads (e : Encoding) : Prop :=
  ∀ {bytes c n}, r.read bytes = .character c n → ∀ {rest text}, e.decode rest = some text →
    e.decode (bytes.take n ++ rest) = some (c :: text)

variable {r}

/-- What was scanned is the text of what does not remain. -/
theorem Reads.exists_decode {e : Encoding} (hr : r.Reads e) {bytes rest : Bytes} {text : List Char}
    (h : r.scanAll bytes = some (text, rest)) :
    ∃ seen, bytes = seen ++ rest ∧ e.decode seen = some text := by
  have hnil : e.decode [] = some [] := by
    cases e with
    | utf8 => exact ofUtf8_utf8 []
    | windows1255 => rfl
    | utf16 littleEndian => rfl
  induction hn : bytes.length using Nat.strong_induction_on generalizing bytes text with
  | _ n ih =>
    cases bytes with
    | nil =>
      cases h
      exact ⟨[], rfl, hnil⟩
    | cons b tail =>
      rw [scanAll, List.length_cons, scan] at h
      cases hread : r.read (b :: tail) with
      | character c size =>
        have hsize := r.size_pos hread
        have hshort : ((b :: tail).drop size).length ≤ tail.length := by
          rw [List.length_drop, List.length_cons]
          omega
        rw [hread] at h
        obtain ⟨⟨text', rest'⟩, hscan, heq⟩ := Option.map_eq_some_iff.mp h
        rw [r.scan_of_le hshort] at hscan
        obtain ⟨rfl, rfl⟩ := Prod.mk.inj heq
        obtain ⟨seen, hseen, hdecode⟩ := ih _
          (by rw [← hn, List.length_cons]; exact Nat.lt_succ_of_le hshort) hscan rfl
        refine ⟨(b :: tail).take size ++ seen, ?_, hr hread hdecode⟩
        rw [List.append_assoc, ← hseen, List.take_append_drop]
      | incomplete =>
        rw [hread] at h
        obtain ⟨rfl, rfl⟩ := Prod.mk.inj (Option.some.inj h)
        exact ⟨[], rfl, hnil⟩
      | invalid =>
        rw [hread] at h
        cases h

end CharReader

/-! ## The beginning of a document -/

/-- What the beginning of a document says: nothing yet, that it cannot be read, or which reader
reads on and how many bytes that one does not see. -/
inductive Choice (ι : Type)
  | undecided
  | refused
  | reads (i : ι) (skip : Nat)
  deriving DecidableEq, Repr

/-- A decoder that chooses its reader at the beginning, unless it has one from the start. -/
structure Header (ι : Type) where
  reader : ι → CharReader
  start : Option ι
  choose : Bytes → Choice ι
  /-- Whether the document may end before the choice. -/
  acceptsEnd : Bytes → Bool
  choose_nil : start = none → choose [] = .undecided
  choose_append : ∀ {data} (more : Bytes), choose data ≠ .undecided →
    choose (data ++ more) = choose data
  skip_le : ∀ {data i n}, choose data = .reads i n → n ≤ data.length

/-- The chosen reader and the bytes that are no character yet. -/
structure Headed (ι : Type) where
  chosen : Option ι
  buffer : Bytes
  deriving DecidableEq, Repr

namespace Header

variable {ι : Type} (h : Header ι)

def readOn (i : ι) (data : Bytes) : Option (List Char × Headed ι) :=
  ((h.reader i).scanAll data).map fun read => (read.1, ⟨some i, read.2⟩)

def feed (s : Headed ι) (chunk : Bytes) : Option (List Char × Headed ι) :=
  match s.chosen with
  | some i => h.readOn i (s.buffer ++ chunk)
  | none =>
    match h.choose (s.buffer ++ chunk) with
    | .undecided => some ([], ⟨none, s.buffer ++ chunk⟩)
    | .refused => none
    | .reads i n => h.readOn i ((s.buffer ++ chunk).drop n)

def decoder : Decoder (Headed ι) where
  start := ⟨h.start, []⟩
  feed := h.feed
  finish := fun s =>
    match s.chosen with
    | some _ => if s.buffer = [] then some [] else none
    | none => if h.acceptsEnd s.buffer then some [] else none

/-- What the buffer can hold. -/
def Held (s : Headed ι) : Prop :=
  match s.chosen with
  | some i => (h.reader i).scanAll s.buffer = some ([], s.buffer)
  | none => h.choose s.buffer = .undecided

theorem held_of_readOn {i : ι} {data : Bytes} {text : List Char} {s : Headed ι}
    (hread : h.readOn i data = some (text, s)) : h.Held s := by
  obtain ⟨⟨text', rest⟩, hscan, heq⟩ := Option.map_eq_some_iff.mp hread
  obtain rfl := (Prod.mk.inj heq).2
  exact (h.reader i).scanAll_rest hscan

theorem readOn_append (i : ι) (data more : Bytes) :
    h.readOn i (data ++ more) = (h.readOn i data).bind fun first =>
      (h.feed first.2 more).map fun rest => (first.1 ++ rest.1, rest.2) := by
  rw [readOn, readOn, CharReader.scanAll_append]
  cases (h.reader i).scanAll data with
  | none => rfl
  | some read =>
    show Option.map _ (Option.map _ _) = Option.map _ (Option.map _ _)
    rw [Option.map_map, Option.map_map]
    rfl

theorem splits : h.decoder.Splits h.Held where
  start := by
    show h.Held ⟨h.start, []⟩
    cases hstart : h.start with
    | some i => rfl
    | none => exact h.choose_nil hstart
  feed_nil := fun {s} hs => by
    obtain ⟨chosen, buffer⟩ := s
    cases chosen with
    | some i =>
      have hscan : (h.reader i).scanAll buffer = some ([], buffer) := hs
      show h.readOn i (buffer ++ []) = _
      rw [readOn, List.append_nil, hscan]
      rfl
    | none =>
      have hchoose : h.choose (buffer ++ []) = .undecided := by
        rw [List.append_nil]
        exact hs
      show h.feed ⟨none, buffer⟩ [] = _
      simp only [feed, hchoose]
      rw [List.append_nil]
  keeps := fun {s chunk text s'} _ hfeed => by
    have hfeed : h.feed s chunk = some (text, s') := hfeed
    rw [feed] at hfeed
    split at hfeed
    · exact h.held_of_readOn hfeed
    · split at hfeed
      · rename_i hchoose
        obtain rfl := (Prod.mk.inj (Option.some.inj hfeed)).2
        exact hchoose
      · cases hfeed
      · exact h.held_of_readOn hfeed
  feed_append := fun {s} chunk more _ => by
    show h.feed s (chunk ++ more) = (h.feed s chunk).bind fun first =>
      (h.feed first.2 more).map fun rest => (first.1 ++ rest.1, rest.2)
    obtain ⟨chosen, buffer⟩ := s
    cases chosen with
    | some i =>
      show h.readOn i (buffer ++ (chunk ++ more)) = (h.readOn i (buffer ++ chunk)).bind _
      rw [← List.append_assoc]
      exact h.readOn_append i (buffer ++ chunk) more
    | none =>
      have hassoc : buffer ++ (chunk ++ more) = buffer ++ chunk ++ more :=
        (List.append_assoc _ _ _).symm
      cases hchoose : h.choose (buffer ++ chunk) with
      | undecided =>
        simp only [feed, hchoose, hassoc, Option.bind_some]
        exact Option.map_id'.symm
      | refused =>
        have hlonger := h.choose_append more fun hnone => by rw [hchoose] at hnone; cases hnone
        simp only [feed, hassoc, hlonger, hchoose, Option.bind_none]
      | reads i n =>
        have hlonger := h.choose_append more fun hnone => by rw [hchoose] at hnone; cases hnone
        have hdrop : (buffer ++ chunk ++ more).drop n = (buffer ++ chunk).drop n ++ more :=
          List.drop_append_of_le_length (h.skip_le hchoose)
        have hread := h.readOn_append i ((buffer ++ chunk).drop n) more
        simp only [feed, hassoc, hlonger, hchoose, hdrop]
        exact hread

/-- What a decoder gave so far is the text of some of the document. -/
theorem exists_decode_of_feed (hreads : ∀ i, ∃ e, (h.reader i).Reads e) {document : Bytes}
    {text : List Char} {s : Headed ι} (hfeed : h.feed ⟨h.start, []⟩ document = some (text, s)) :
    ∃ e before seen after, document = before ++ (seen ++ after) ∧
      Encoding.decode e seen = some text := by
  have hread : ∀ {i data}, h.readOn i data = some (text, s) →
      ∀ {before}, document = before ++ data → ∃ e before seen after,
        document = before ++ (seen ++ after) ∧ Encoding.decode e seen = some text := by
    intro i data hreadOn before hdocument
    obtain ⟨e, he⟩ := hreads i
    obtain ⟨⟨text', rest⟩, hscan, heq⟩ := Option.map_eq_some_iff.mp hreadOn
    obtain rfl := (Prod.mk.inj heq).1
    obtain ⟨seen, rfl, hseen⟩ := he.exists_decode hscan
    exact ⟨e, before, seen, rest, hdocument, hseen⟩
  rw [feed] at hfeed
  split at hfeed
  · exact hread hfeed (List.nil_append document).symm
  · split at hfeed
    · obtain rfl := (Prod.mk.inj (Option.some.inj hfeed)).1
      exact ⟨.utf16 true, [], [], document, rfl, rfl⟩
    · cases hfeed
    · rename_i i n _
      exact hread hfeed (List.take_append_drop n document).symm

end Header

/-! ## UTF-8 -/

/-- The payload of a lead byte, and the ranges of the bytes that must follow. -/
def utf8Lead (b : Nat) : Option (Nat × List (Nat × Nat)) :=
  if b < 0x80 then some (b, [])
  else if b < 0xC2 then none
  else if b < 0xE0 then some (b - 0xC0, [(0x80, 0xBF)])
  else if b = 0xE0 then some (0, [(0xA0, 0xBF), (0x80, 0xBF)])
  else if b = 0xED then some (0xD, [(0x80, 0x9F), (0x80, 0xBF)])
  else if b < 0xF0 then some (b - 0xE0, [(0x80, 0xBF), (0x80, 0xBF)])
  else if b = 0xF0 then some (0, [(0x90, 0xBF), (0x80, 0xBF), (0x80, 0xBF)])
  else if b < 0xF4 then some (b - 0xF0, [(0x80, 0xBF), (0x80, 0xBF), (0x80, 0xBF)])
  else if b = 0xF4 then some (4, [(0x80, 0x8F), (0x80, 0xBF), (0x80, 0xBF)])
  else none

/-- The bytes that must follow, with the value and the number of the bytes so far. -/
def utf8Tail : List (Nat × Nat) → Bytes → Nat → Nat → Reading
  | [], _, value, size => .character (Char.ofNat value) size
  | _ :: _, [], _, _ => .incomplete
  | range :: ranges, b :: rest, value, size =>
    if range.1 ≤ b.toNat ∧ b.toNat ≤ range.2 then
      utf8Tail ranges rest (value * 64 + (b.toNat - 0x80)) (size + 1)
    else .invalid

def readUtf8 : Bytes → Reading
  | [] => .incomplete
  | b :: rest =>
    match utf8Lead b.toNat with
    | none => .invalid
    | some lead => utf8Tail lead.2 rest lead.1 1

theorem utf8Tail_size {ranges : List (Nat × Nat)} {bytes : Bytes} {value size n : Nat} {c : Char}
    (h : utf8Tail ranges bytes value size = .character c n) :
    size ≤ n ∧ n ≤ size + bytes.length := by
  induction ranges generalizing bytes value size with
  | nil =>
    cases h
    exact ⟨Nat.le_refl _, Nat.le_add_right _ _⟩
  | cons range ranges ih =>
    cases bytes with
    | nil => cases h
    | cons b rest =>
      rw [utf8Tail] at h
      split at h
      · have hrest := ih h
        rw [List.length_cons]
        omega
      · cases h

theorem utf8Tail_append {ranges : List (Nat × Nat)} {bytes : Bytes} {value size : Nat}
    {reading : Reading} (h : utf8Tail ranges bytes value size = reading)
    (hdecided : reading ≠ .incomplete) (more : Bytes) :
    utf8Tail ranges (bytes ++ more) value size = reading := by
  induction ranges generalizing bytes value size with
  | nil => exact h
  | cons range ranges ih =>
    cases bytes with
    | nil => exact absurd h.symm hdecided
    | cons b rest =>
      rw [utf8Tail] at h
      rw [List.cons_append, utf8Tail]
      split at h
      · rename_i hrange
        rw [if_pos hrange]
        exact ih h
      · rename_i hrange
        rw [if_neg hrange]
        exact h

theorem readUtf8_append {bytes : Bytes} {reading : Reading} (h : readUtf8 bytes = reading)
    (hdecided : reading ≠ .incomplete) (more : Bytes) : readUtf8 (bytes ++ more) = reading := by
  cases bytes with
  | nil => exact absurd h.symm hdecided
  | cons b rest =>
    rw [readUtf8] at h
    rw [List.cons_append, readUtf8]
    cases hlead : utf8Lead b.toNat with
    | none =>
      rw [hlead] at h
      exact h
    | some lead =>
      rw [hlead] at h
      exact utf8Tail_append h hdecided more

def utf8Reader : CharReader where
  read := readUtf8
  read_nil := rfl
  size_pos := fun {bytes c n} h => by
    cases bytes with
    | nil => cases h
    | cons b rest =>
      rw [readUtf8] at h
      cases hlead : utf8Lead b.toNat with
      | none =>
        rw [hlead] at h
        cases h
      | some lead =>
        rw [hlead] at h
        have hsize := utf8Tail_size h
        rw [List.length_cons]
        omega
  character_append := fun more h => readUtf8_append h (fun heq => by cases heq) more
  invalid_append := fun more h => readUtf8_append h (fun heq => by cases heq) more

theorem val_ofNat {n : Nat} (h : n < 0xD800 ∨ 0xDFFF < n ∧ n < 0x110000) :
    (Char.ofNat n).val.toNat = n :=
  toNat_ofNat_of_valid h

theorem ofNat_eq {n : Nat} {b : UInt8} (h : n = b.toNat) : UInt8.ofNat n = b := by
  rw [h, UInt8.ofNat_toNat]

/-- A continuation byte. -/
def Continues (b : UInt8) : Prop := 0x80 ≤ b.toNat ∧ b.toNat ≤ 0xBF

theorem utf8EncodeChar_two {b x : UInt8} (hb : 0xC2 ≤ b.toNat) (hb' : b.toNat < 0xE0)
    (hx : Continues x) :
    String.utf8EncodeChar (Char.ofNat ((b.toNat - 0xC0) * 64 + (x.toNat - 0x80))) = [b, x] := by
  obtain ⟨hx, hx'⟩ := hx
  rw [String.utf8EncodeChar, val_ofNat (.inl (by omega)), if_neg (by omega), if_pos (by omega),
    ofNat_eq (b := b) (by omega), ofNat_eq (b := x) (by omega)]

theorem utf8EncodeChar_three {b x y : UInt8} (hb : 0xE0 ≤ b.toNat) (hb' : b.toNat < 0xF0)
    (hx : Continues x) (hy : Continues y)
    (hlow : b.toNat = 0xE0 → 0xA0 ≤ x.toNat) (hhigh : b.toNat = 0xED → x.toNat ≤ 0x9F) :
    String.utf8EncodeChar
      (Char.ofNat (((b.toNat - 0xE0) * 64 + (x.toNat - 0x80)) * 64 + (y.toNat - 0x80))) =
        [b, x, y] := by
  obtain ⟨hx, hx'⟩ := hx
  obtain ⟨hy, hy'⟩ := hy
  rw [String.utf8EncodeChar, val_ofNat (by omega), if_neg (by omega), if_neg (by omega),
    if_pos (by omega), ofNat_eq (b := b) (by omega), ofNat_eq (b := x) (by omega),
    ofNat_eq (b := y) (by omega)]

theorem utf8EncodeChar_four {b x y z : UInt8} (hb : 0xF0 ≤ b.toNat) (hb' : b.toNat ≤ 0xF4)
    (hx : Continues x) (hy : Continues y) (hz : Continues z)
    (hlow : b.toNat = 0xF0 → 0x90 ≤ x.toNat) (hhigh : b.toNat = 0xF4 → x.toNat ≤ 0x8F) :
    String.utf8EncodeChar
      (Char.ofNat ((((b.toNat - 0xF0) * 64 + (x.toNat - 0x80)) * 64 + (y.toNat - 0x80)) * 64 +
        (z.toNat - 0x80))) = [b, x, y, z] := by
  obtain ⟨hx, hx'⟩ := hx
  obtain ⟨hy, hy'⟩ := hy
  obtain ⟨hz, hz'⟩ := hz
  rw [String.utf8EncodeChar, val_ofNat (by omega), if_neg (by omega), if_neg (by omega),
    if_neg (by omega), ofNat_eq (b := b) (by omega), ofNat_eq (b := x) (by omega),
    ofNat_eq (b := y) (by omega), ofNat_eq (b := z) (by omega)]

theorem utf8Tail_cons {range : Nat × Nat} {ranges : List (Nat × Nat)} {bytes : Bytes}
    {value size n : Nat} {c : Char}
    (h : utf8Tail (range :: ranges) bytes value size = .character c n) :
    ∃ x rest, bytes = x :: rest ∧ (range.1 ≤ x.toNat ∧ x.toNat ≤ range.2) ∧
      utf8Tail ranges rest (value * 64 + (x.toNat - 0x80)) (size + 1) = .character c n := by
  cases bytes with
  | nil => cases h
  | cons x rest =>
    rw [utf8Tail] at h
    split at h
    · rename_i hrange
      exact ⟨x, rest, rfl, hrange, h⟩
    · cases h

/-- The lead bytes by the number of the bytes that must follow. -/
theorem utf8Lead_cases {b : Nat} {lead : Nat × List (Nat × Nat)} (h : utf8Lead b = some lead) :
    (b < 0x80 ∧ lead = (b, [])) ∨
    ((0xC2 ≤ b ∧ b < 0xE0) ∧ lead = (b - 0xC0, [(0x80, 0xBF)])) ∨
    (∃ low high, (0xE0 ≤ b ∧ b < 0xF0) ∧
      (0x80 ≤ low ∧ high ≤ 0xBF ∧ (b = 0xE0 → 0xA0 ≤ low) ∧ (b = 0xED → high ≤ 0x9F)) ∧
      lead = (b - 0xE0, [(low, high), (0x80, 0xBF)])) ∨
    ∃ low high, (0xF0 ≤ b ∧ b ≤ 0xF4) ∧
      (0x80 ≤ low ∧ high ≤ 0xBF ∧ (b = 0xF0 → 0x90 ≤ low) ∧ (b = 0xF4 → high ≤ 0x8F)) ∧
      lead = (b - 0xF0, [(low, high), (0x80, 0xBF), (0x80, 0xBF)]) := by
  rw [utf8Lead] at h
  split_ifs at h
  · obtain rfl := Option.some.inj h
    exact .inl ⟨by omega, rfl⟩
  · obtain rfl := Option.some.inj h
    exact .inr (.inl ⟨by omega, rfl⟩)
  · obtain rfl := Option.some.inj h
    exact .inr (.inr (.inl ⟨0xA0, 0xBF, by omega, by omega, by simp [*]⟩))
  · obtain rfl := Option.some.inj h
    exact .inr (.inr (.inl ⟨0x80, 0x9F, by omega, by omega, by simp [*]⟩))
  · obtain rfl := Option.some.inj h
    exact .inr (.inr (.inl ⟨0x80, 0xBF, by omega, by omega, rfl⟩))
  · obtain rfl := Option.some.inj h
    exact .inr (.inr (.inr ⟨0x90, 0xBF, by omega, by omega, by simp [*]⟩))
  · obtain rfl := Option.some.inj h
    exact .inr (.inr (.inr ⟨0x80, 0xBF, by omega, by omega, rfl⟩))
  · obtain rfl := Option.some.inj h
    exact .inr (.inr (.inr ⟨0x80, 0x8F, by omega, by omega, by simp [*]⟩))

/-- The bytes of a character that was read are those of the character. -/
theorem take_of_readUtf8 {bytes : Bytes} {c : Char} {n : Nat}
    (h : readUtf8 bytes = .character c n) : bytes.take n = String.utf8EncodeChar c := by
  cases bytes with
  | nil => cases h
  | cons b rest =>
    rw [readUtf8] at h
    split at h
    · cases h
    · rename_i lead hlead
      rcases utf8Lead_cases hlead with ⟨hb, rfl⟩ | ⟨hb, rfl⟩ | ⟨low, high, hb, hrange, rfl⟩ |
        ⟨low, high, hb, hrange, rfl⟩
      · obtain ⟨rfl, rfl⟩ := Reading.character.inj h
        rw [String.utf8EncodeChar, val_ofNat (.inl (by omega)), if_pos (by omega),
          ofNat_eq (b := b) rfl]
        rfl
      · obtain ⟨x, rest, rfl, hx, h⟩ := utf8Tail_cons h
        obtain ⟨rfl, rfl⟩ := Reading.character.inj h
        exact (utf8EncodeChar_two hb.1 hb.2 hx).symm
      · obtain ⟨x, rest, rfl, hx, h⟩ := utf8Tail_cons h
        obtain ⟨y, rest, rfl, hy, h⟩ := utf8Tail_cons h
        obtain ⟨rfl, rfl⟩ := Reading.character.inj h
        exact (utf8EncodeChar_three hb.1 hb.2 (by constructor <;> omega) hy (by omega)
          (by omega)).symm
      · obtain ⟨x, rest, rfl, hx, h⟩ := utf8Tail_cons h
        obtain ⟨y, rest, rfl, hy, h⟩ := utf8Tail_cons h
        obtain ⟨z, rest, rfl, hz, h⟩ := utf8Tail_cons h
        obtain ⟨rfl, rfl⟩ := Reading.character.inj h
        exact (utf8EncodeChar_four hb.1 hb.2 (by constructor <;> omega) hy hz (by omega)
          (by omega)).symm

theorem reads_utf8 : utf8Reader.Reads .utf8 := by
  intro bytes c n h rest text hrest
  show ofUtf8 (bytes.take n ++ rest) = some (c :: text)
  rw [take_of_readUtf8 h, utf8_of_ofUtf8 hrest]
  exact ofUtf8_utf8 (c :: text)

/-! ## Windows-1255 and UTF-16 -/

def readWindows1255 : Bytes → Reading
  | [] => .incomplete
  | b :: _ =>
    match windows1255 b with
    | some c => .character c 1
    | none => .invalid

theorem readWindows1255_append {bytes : Bytes} {reading : Reading}
    (h : readWindows1255 bytes = reading) (hdecided : reading ≠ .incomplete) (more : Bytes) :
    readWindows1255 (bytes ++ more) = reading := by
  cases bytes with
  | nil => exact absurd h.symm hdecided
  | cons b rest => exact h

def windows1255Reader : CharReader where
  read := readWindows1255
  read_nil := rfl
  size_pos := fun {bytes c n} h => by
    cases bytes with
    | nil => cases h
    | cons b rest =>
      rw [readWindows1255] at h
      split at h
      · cases h
        rw [List.length_cons]
        omega
      · cases h
  character_append := fun more h => readWindows1255_append h Reading.noConfusion more
  invalid_append := fun more h => readWindows1255_append h Reading.noConfusion more

theorem reads_windows1255 : windows1255Reader.Reads .windows1255 := by
  intro bytes c n h rest text hrest
  cases bytes with
  | nil => cases h
  | cons b tail =>
    have h : readWindows1255 (b :: tail) = .character c n := h
    have hrest : rest.mapM windows1255 = some text := hrest
    rw [readWindows1255] at h
    split at h
    · rename_i c' hb
      cases h
      show (b :: rest).mapM windows1255 = _
      rw [List.mapM_cons, hb, hrest]
      rfl
    · cases h

/-- The second code unit of a pair. -/
def readLow (littleEndian : Bool) (unit : Nat) : Bytes → Reading
  | [] => .incomplete
  | [_] => .incomplete
  | c :: d :: _ =>
    let low := codeUnit littleEndian c d
    if 0xDC00 ≤ low ∧ low ≤ 0xDFFF then
      .character (Char.ofNat (0x10000 + (unit - 0xD800) * 0x400 + (low - 0xDC00))) 4
    else .invalid

def readUtf16 (littleEndian : Bool) : Bytes → Reading
  | [] => .incomplete
  | [_] => .incomplete
  | a :: b :: rest =>
    let unit := codeUnit littleEndian a b
    if unit < 0xD800 ∨ 0xDFFF < unit then .character (Char.ofNat unit) 2
    else if 0xDC00 ≤ unit then .invalid
    else readLow littleEndian unit rest

theorem readUtf16_append {littleEndian : Bool} {bytes : Bytes} {reading : Reading}
    (h : readUtf16 littleEndian bytes = reading) (hdecided : reading ≠ .incomplete)
    (more : Bytes) : readUtf16 littleEndian (bytes ++ more) = reading := by
  rcases bytes with _ | ⟨a, _ | ⟨b, rest⟩⟩
  · exact absurd h.symm hdecided
  · exact absurd h.symm hdecided
  · rw [readUtf16] at h
    rw [List.cons_append, List.cons_append, readUtf16]
    split_ifs at h ⊢
    · exact h
    · exact h
    · rcases rest with _ | ⟨c, _ | ⟨d, rest⟩⟩
      · exact absurd h.symm hdecided
      · exact absurd h.symm hdecided
      · exact h

/-- A character is one code unit, or a pair of them. -/
theorem readUtf16_eq_character {littleEndian : Bool} {bytes : Bytes} {c : Char} {n : Nat}
    (h : readUtf16 littleEndian bytes = .character c n) :
    (n = 2 ∧ 2 ≤ bytes.length ∨ n = 4 ∧ 4 ≤ bytes.length) ∧ ∀ rest,
      decodeUtf16 littleEndian (bytes.take n ++ rest) =
        (decodeUtf16 littleEndian rest).map (c :: ·) := by
  rcases bytes with _ | ⟨a, _ | ⟨b, tail⟩⟩
  · cases h
  · cases h
  · rw [readUtf16] at h
    split at h
    · rename_i hunit
      cases h
      refine ⟨.inl ⟨rfl, Nat.le_add_left 2 tail.length⟩, fun rest => ?_⟩
      show decodeUtf16 littleEndian (a :: b :: rest) = _
      rw [decodeUtf16.eq_def]
      exact if_pos hunit
    · rename_i hunit
      split at h
      · cases h
      · rename_i hlow
        rcases tail with _ | ⟨c', _ | ⟨d, tail⟩⟩
        · cases h
        · cases h
        · rw [readLow] at h
          split at h
          · rename_i hpair
            obtain ⟨rfl, rfl⟩ := Reading.character.inj h
            refine ⟨.inr ⟨rfl, Nat.le_add_left 4 tail.length⟩, fun rest => ?_⟩
            show decodeUtf16 littleEndian (a :: b :: c' :: d :: rest) = _
            rw [decodeUtf16.eq_def]
            exact (if_neg hunit).trans ((if_neg hlow).trans (if_pos hpair))
          · cases h

def utf16Reader (littleEndian : Bool) : CharReader where
  read := readUtf16 littleEndian
  read_nil := rfl
  size_pos := fun h => by
    have hsize := (readUtf16_eq_character h).1
    omega
  character_append := fun more h => readUtf16_append h Reading.noConfusion more
  invalid_append := fun more h => readUtf16_append h Reading.noConfusion more

theorem reads_utf16 (littleEndian : Bool) :
    (utf16Reader littleEndian).Reads (.utf16 littleEndian) := by
  intro bytes c n h rest text hrest
  have hrest : decodeUtf16 littleEndian rest = some text := hrest
  show decodeUtf16 littleEndian (bytes.take n ++ rest) = some (c :: text)
  rw [(readUtf16_eq_character h).2, hrest, Option.map_some]

/-- The reader of an encoding. -/
def Encoding.reader : Encoding → CharReader
  | .utf8 => utf8Reader
  | .windows1255 => windows1255Reader
  | .utf16 littleEndian => utf16Reader littleEndian

theorem Encoding.reads_reader (e : Encoding) : e.reader.Reads e := by
  cases e with
  | utf8 => exact reads_utf8
  | windows1255 => exact reads_windows1255
  | utf16 littleEndian => exact reads_utf16 littleEndian

end Makolet.Lib
