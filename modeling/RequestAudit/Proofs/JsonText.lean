import Mathlib.Data.List.Basic
import RequestAudit.Json.Places
import RequestAudit.Json.Writer
import RequestAudit.Proofs.ShownData

/-!
# Written JSON read back

What is written of data on one line reads as the value that stands for the data, whatever
characters its texts hold, and has no line break. Only a number of more than 64 bits would read
as another value.
-/

namespace RequestAudit.Json

open Document

/-- The value that stands for data. -/
def ofDatum : Datum → Json
  | .flag b => bool b
  | .number n => number (.natural n)
  | .text s => string s
  | .list ds => array (ds.map ofDatum)
  | .record fs => object (fs.map fun f => (string f.1, ofDatum f.2))
decreasing_by
  · decreasing_tactic
  · have hmem := List.sizeOf_lt_of_mem ‹f ∈ fs›
    obtain ⟨k, d⟩ := f
    simp only [Prod.mk.sizeOf_spec] at hmem
    simp only [Datum.record.sizeOf_spec]
    omega

/-- Data whose numbers have 64 bits. -/
inductive Fits : Datum → Prop where
  | flag (b : Bool) : Fits (.flag b)
  | number {n : ℕ} (h : n ≤ wordMax) : Fits (.number n)
  | text (s : String) : Fits (.text s)
  | list {ds : List Datum} (h : ∀ d ∈ ds, Fits d) : Fits (.list ds)
  | record {fs : List (String × Datum)} (h : ∀ f ∈ fs, Fits f.2) : Fits (.record fs)

theorem fits_map {α : Type} {g : α → Datum} (xs : List α) (h : ∀ a, Fits (g a)) :
    Fits (.list (xs.map g)) :=
  .list (List.forall_mem_map.mpr fun a _ => h a)

/-! ## Strings -/

theorem hexDigits_control : ∀ n < 0x20, (Text.hexDigits 4 n).length = 4 ∧
    hexNumber? (Text.hexDigits 4 n) = some n ∧ pieceOf n = .char (Char.ofNat n) := by
  decide

theorem pieces?_hexDigits {c : Char} (hc : c.toNat < 0x20) (rest : List Char) :
    pieces? ('\\' :: 'u' :: (Text.hexDigits 4 c.toNat ++ rest)) =
      (pieces? rest).map fun q => (.char c :: q.1, q.2) := by
  obtain ⟨hlength, hnumber, hpiece⟩ := hexDigits_control c.toNat hc
  obtain ⟨x, y, z, w, hdigits⟩ : ∃ x y z w, Text.hexDigits 4 c.toNat = [x, y, z, w] := by
    match hd : Text.hexDigits 4 c.toNat, hlength with
    | [x, y, z, w], _ => exact ⟨x, y, z, w, rfl⟩
  rw [hdigits] at hnumber ⊢
  rw [Char.ofNat_toNat] at hpiece
  simp only [List.cons_append, List.nil_append, pieces?, hnumber, Option.bind_eq_bind,
    Option.bind_some, hpiece]
  cases pieces? rest <;> rfl

theorem pieces?_plain {c : Char} (hquote : c ≠ '"') (hslash : c ≠ '\\') (hc : ¬c.toNat < 0x20)
    (rest : List Char) :
    pieces? (c :: rest) = (pieces? rest).map fun q => (.char c :: q.1, q.2) := by
  rw [pieces?]
  · rw [if_neg (by simp [hc, hslash])]
    cases pieces? rest <;> rfl
  · exact hquote
  · exact fun _ _ _ _ _ h _ => hslash h
  · exact fun _ _ h _ => hslash h

theorem pieces?_short {x c : Char} (hx : x ≠ 'u') (h : shortEscape? x = some c)
    (rest : List Char) :
    pieces? ('\\' :: x :: rest) = (pieces? rest).map fun q => (.char c :: q.1, q.2) := by
  rw [pieces?]
  · rw [h]
    cases pieces? rest <;> rfl
  · rintro _ _ _ _ _ rfl
    exact absurd rfl hx

theorem pieces?_escapeChar (c : Char) (rest : List Char) :
    pieces? (escapeChar c ++ rest) = (pieces? rest).map fun q => (.char c :: q.1, q.2) := by
  unfold escapeChar
  split_ifs with hquote hslash hb hf hn hr ht hc
  case pos | pos | pos | pos | pos | pos | pos =>
    subst c
    exact pieces?_short (by decide) (by decide) rest
  case pos => exact pieces?_hexDigits hc rest
  case neg => exact pieces?_plain hquote hslash hc rest

theorem pieces?_flatMap_escapeChar (cs rest : List Char) :
    pieces? (cs.flatMap escapeChar ++ '"' :: rest) = some (cs.map .char, rest) := by
  induction cs with
  | nil => rw [List.flatMap_nil, List.nil_append, pieces?]; rfl
  | cons c cs ih => rw [List.flatMap_cons, List.append_assoc, pieces?_escapeChar, ih]; rfl

theorem join?_map_char (cs : List Char) : join? (cs.map .char) = some cs := by
  induction cs with
  | nil => rfl
  | cons c cs ih => rw [List.map_cons, join?, ih]; rfl

theorem readString_flatMap_escapeChar (s : String) (rest : List Char) :
    readString (s.toList.flatMap escapeChar ++ '"' :: rest) = (string s, rest) := by
  simp only [readString, pieces?_flatMap_escapeChar, join?_map_char, String.ofList_toList]

/-! ## Numbers -/

/-- No number goes on at the front of the text. -/
def EndsNumber (rest : List Char) : Prop :=
  ∀ c ∈ rest.head?, c.isDigit = false ∧ c ≠ '.' ∧ c ≠ 'e' ∧ c ≠ 'E'

theorem endsNumber_cons {c : Char} {rest : List Char}
    (h : c.isDigit = false ∧ c ≠ '.' ∧ c ≠ 'e' ∧ c ≠ 'E') : EndsNumber (c :: rest) := by
  simpa [EndsNumber] using h

theorem spanDigits_append {ds rest : List Char} (hds : ∀ c ∈ ds, c.isDigit = true)
    (hrest : EndsNumber rest) : spanDigits (ds ++ rest) = (ds, rest) := by
  rw [spanDigits, List.takeWhile_append_of_pos hds, List.dropWhile_append_of_pos hds]
  cases rest with
  | nil => simp
  | cons c rest => simp [(hrest c rfl).1]

theorem fraction?_of_ends {rest : List Char} (h : EndsNumber rest) :
    fraction? rest = some ([], rest) := by
  unfold fraction?
  split
  · exact absurd rfl (h '.' rfl).2.1
  · rfl

theorem exponent?_of_ends {rest : List Char} (h : EndsNumber rest) :
    exponent? rest = some (none, rest) := by
  cases rest with
  | nil => rfl
  | cons c rest =>
      obtain ⟨-, -, he, hE⟩ := h c rfl
      have hnot : (c == 'e' || c == 'E') = false := by simp [he, hE]
      simp only [exponent?, hnot, Bool.false_eq_true, if_false]

theorem digitValue_digitChar : ∀ d < 10, digitValue (Nat.digitChar d) = d := by decide

/-- Digits are taken up to the number that they spell as long as it has 64 bits. -/
theorem foldl_whole_toDigits {n : ℕ} (h : n ≤ wordMax) :
    (Nat.toDigits 10 n).foldl Significand.whole {} = { value := n } := by
  have step : ∀ m d, d < 10 → 10 * m + d ≤ wordMax →
      Significand.whole { value := m } (Nat.digitChar d) = { value := 10 * m + d } := by
    intro m d hd hle
    simp only [Significand.whole, digitValue_digitChar d hd, Bool.false_eq_true, if_false]
    rw [if_neg (by omega)]
  induction n using Nat.strongRecOn with
  | ind n ih =>
      by_cases hn : n < 10
      · rw [Nat.toDigits_of_lt_base hn, List.foldl_cons, List.foldl_nil]
        simpa using step 0 n hn (by omega)
      · have hdiv : n / 10 < n := by omega
        rw [Nat.toDigits_of_base_le (by omega) (by omega), List.foldl_append,
          ih (n / 10) hdiv (by omega), List.foldl_cons, List.foldl_nil,
          step (n / 10) (n % 10) (by omega) (by omega)]
        congr 1
        omega

theorem headD_toDigits {n : ℕ} (hn : n ≠ 0) : (Nat.toDigits 10 n).headD '0' ≠ '0' := by
  induction n using Nat.strongRecOn with
  | ind n ih =>
      by_cases hlt : n < 10
      · have hdigit : ∀ d < 10, d ≠ 0 → Nat.digitChar d ≠ '0' := by decide
        rw [Nat.toDigits_of_lt_base hlt]
        exact hdigit n hlt hn
      · have hhead := ih (n / 10) (by omega) (by omega)
        rw [Nat.toDigits_of_base_le (by omega) (by omega)]
        cases hds : Nat.toDigits 10 (n / 10) with
        | nil => exact absurd hds Nat.toDigits_ne_nil
        | cons d ds => rwa [hds] at hhead

theorem isDigit_toDigits {n : ℕ} : ∀ c ∈ Nat.toDigits 10 n, c.isDigit = true :=
  fun _ hc => Nat.isDigit_of_mem_toDigits (by decide) (by decide) hc

theorem readNumber_toDigits {n : ℕ} (h : n ≤ wordMax) {rest : List Char}
    (hrest : EndsNumber rest) :
    readNumber (Nat.toDigits 10 n ++ rest) = (number (.natural n), rest) := by
  have hspan := spanDigits_append (isDigit_toDigits (n := n)) hrest
  have hlead : (Nat.toDigits 10 n).headD '0' = '0' → (Nat.toDigits 10 n).length ≤ 1 := by
    intro hzero
    have hn : n = 0 := by
      by_contra hn
      exact headD_toDigits hn hzero
    rw [hn]
    decide
  have hminus : ∀ cs, Nat.toDigits 10 n ++ rest ≠ '-' :: cs := by
    intro cs heq
    cases hds : Nat.toDigits 10 n with
    | nil => exact absurd hds Nat.toDigits_ne_nil
    | cons d ds =>
        have hd : d.isDigit = true := isDigit_toDigits d (by rw [hds]; exact List.mem_cons_self)
        rw [hds] at heq
        cases heq
        exact absurd hd (by decide)
  have hgood : ((Nat.toDigits 10 n).isEmpty || ((Nat.toDigits 10 n).headD '0' == '0' &&
      decide (1 < (Nat.toDigits 10 n).length))) = false := by
    simp only [Bool.or_eq_false_iff, List.isEmpty_eq_false_iff, Bool.and_eq_false_iff,
      beq_eq_false_iff_ne, decide_eq_false_iff_not]
    refine ⟨Nat.toDigits_ne_nil, ?_⟩
    by_cases hzero : (Nat.toDigits 10 n).headD '0' = '0'
    · exact .inr (Nat.not_lt.mpr (hlead hzero))
    · exact .inl hzero
  unfold readNumber
  split
  next minus unsigned hsign =>
    split at hsign
    · next heq => exact absurd heq (hminus _)
    · cases hsign
      simp only [hspan, hgood, Bool.false_eq_true, if_false, fraction?_of_ends hrest,
        exponent?_of_ends hrest]
      simp [numeralOf, foldl_whole_toDigits h]

/-! ## Values -/

theorem skipSpace_of_not {c : Char} (hc : isSpace c = false) (cs : List Char) :
    skipSpace (c :: cs) = c :: cs := by
  simp [skipSpace, hc]

theorem isSpace_of_isDigit {c : Char} (hc : c.isDigit = true) : isSpace c = false := by
  rw [← Bool.not_eq_true]
  intro h
  simp only [isSpace, Bool.or_eq_true, beq_iff_eq] at h
  rcases h with ((rfl | rfl) | rfl) | rfl <;> exact absurd hc (by decide)

theorem readValue_digit {c : Char} (hc : c.isDigit = true) (fuel : ℕ) (cs : List Char) :
    readValue (fuel + 1) (c :: cs) = readNumber (c :: cs) := by
  rw [readValue, skipSpace_of_not (isSpace_of_isDigit hc)]
  split
  case h_7 => rfl
  all_goals
    next heq =>
      cases heq
      exact absurd hc (by decide)

/-- Data begin with a character that is no blank and closes nothing. -/
theorem write_begins (d : Datum) :
    ∃ c cs, write d = c :: cs ∧ isSpace c = false ∧ c ≠ ']' := by
  match d with
  | .flag true | .flag false => exact ⟨_, _, rfl, by decide⟩
  | .text s => exact ⟨_, _, rfl, by decide⟩
  | .list [] | .list (_ :: _) => exact ⟨_, _, rfl, by decide⟩
  | .record [] | .record (_ :: _) => exact ⟨_, _, rfl, by decide⟩
  | .number n =>
      obtain ⟨c, cs, hds⟩ := List.exists_cons_of_ne_nil (Nat.toDigits_ne_nil (b := 10) (n := n))
      have hc : c.isDigit = true := isDigit_toDigits c (by rw [hds]; exact List.mem_cons_self)
      refine ⟨c, cs, hds, isSpace_of_isDigit hc, ?_⟩
      rintro rfl
      exact absurd hc (by decide)

/-- What is written of the data is read at the front of a text, with steps to spare. -/
def ReadsBack (d : Datum) : Prop :=
  ∀ fuel rest, 2 * (write d).length ≤ fuel → EndsNumber rest →
    readValue fuel (write d ++ rest) = (ofDatum d, rest)

theorem readsBack_of_succ {d : Datum} (h : ∀ k rest, 2 * (write d).length ≤ k + 1 →
    EndsNumber rest → readValue (k + 1) (write d ++ rest) = (ofDatum d, rest)) : ReadsBack d := by
  intro fuel rest hfuel hrest
  obtain ⟨c, cs, hbegins, -⟩ := write_begins d
  cases fuel with
  | zero => simp [hbegins] at hfuel
  | succ k => exact h k rest hfuel hrest

theorem readsBack_flag (b : Bool) : ReadsBack (.flag b) :=
  readsBack_of_succ fun k rest _ _ => by
    rw [ofDatum]
    cases b <;> rfl

theorem readsBack_number {n : ℕ} (h : n ≤ wordMax) : ReadsBack (.number n) := by
  refine readsBack_of_succ fun k rest _ hrest => ?_
  obtain ⟨c, cs, hds⟩ := List.exists_cons_of_ne_nil (Nat.toDigits_ne_nil (b := 10) (n := n))
  have hc : c.isDigit = true := isDigit_toDigits c (by rw [hds]; exact List.mem_cons_self)
  rw [write, ofDatum, ← readNumber_toDigits h hrest, hds]
  exact readValue_digit hc k _

theorem readsBack_text (s : String) : ReadsBack (.text s) := by
  refine readsBack_of_succ fun k rest _ _ => ?_
  rw [ofDatum, write, writeString, List.append_assoc, List.cons_append, readValue,
    skipSpace_of_not (by decide)]
  exact readString_flatMap_escapeChar s rest

theorem readItems_write {d : Datum} {ds : List Datum} (hd : ReadsBack d)
    (hds : ∀ x ∈ ds, ReadsBack x) (fuel : ℕ) (rest : List Char)
    (hfuel : 2 * (write d ++ writeTail ds).length < fuel) :
    readItems fuel (write d ++ (writeTail ds ++ rest)) = ((d :: ds).map ofDatum, rest) := by
  induction ds generalizing d fuel with
  | nil =>
      obtain ⟨k, rfl⟩ := Nat.exists_eq_add_one_of_ne_zero (Nat.ne_zero_of_lt hfuel)
      simp only [writeTail, List.length_append, List.length_cons, List.length_nil] at hfuel
      have hvalue := hd k (']' :: rest) (by omega) (endsNumber_cons (by decide))
      simp only [writeTail, List.singleton_append, readItems, hvalue,
        skipSpace_of_not (c := ']') (by decide)]
      rfl
  | cons x xs ih =>
      obtain ⟨k, rfl⟩ := Nat.exists_eq_add_one_of_ne_zero (Nat.ne_zero_of_lt hfuel)
      obtain ⟨hx, hxs⟩ := List.forall_mem_cons.mp hds
      simp only [writeTail, List.length_append, List.length_cons] at hfuel
      have hvalue := hd k (',' :: (write x ++ (writeTail xs ++ rest))) (by omega)
        (endsNumber_cons (by decide))
      have hrest := ih hx hxs k (by rw [List.length_append]; omega)
      simp only [writeTail, List.cons_append, List.append_assoc, readItems, hvalue,
        skipSpace_of_not (c := ',') (by decide), hrest]
      rfl

theorem readsBack_list {ds : List Datum} (h : ∀ d ∈ ds, ReadsBack d) : ReadsBack (.list ds) := by
  refine readsBack_of_succ fun k rest hfuel _ => ?_
  rw [ofDatum]
  cases ds with
  | nil => rfl
  | cons d ds =>
      obtain ⟨hd, hds⟩ := List.forall_mem_cons.mp h
      obtain ⟨c, cs, hbegins, hspace, hopen⟩ := write_begins d
      have hskip : skipSpace (write d ++ (writeTail ds ++ rest)) =
          write d ++ (writeTail ds ++ rest) := by
        rw [hbegins]
        exact skipSpace_of_not hspace _
      simp only [write, List.length_cons] at hfuel
      have hitems := readItems_write hd hds k rest (by omega)
      simp only [write, List.cons_append, List.append_assoc, readValue,
        skipSpace_of_not (c := '[') (by decide), hskip]
      split
      · next heq =>
          rw [hbegins] at heq
          cases heq
          exact absurd rfl hopen
      · rw [hitems]

theorem readEntries_write (key : String) {d : Datum} {fs : List (String × Datum)}
    (hd : ReadsBack d) (hfs : ∀ f ∈ fs, ReadsBack f.2) (fuel : ℕ) (rest : List Char)
    (hfuel : 2 * (writeString key ++ ':' :: (write d ++ writeFields fs)).length < fuel) :
    readEntries fuel (writeString key ++ ':' :: (write d ++ (writeFields fs ++ rest))) =
      (((key, d) :: fs).map fun f => (string f.1, ofDatum f.2), rest) := by
  induction fs generalizing key d fuel with
  | nil =>
      obtain ⟨k, rfl⟩ := Nat.exists_eq_add_one_of_ne_zero (Nat.ne_zero_of_lt hfuel)
      simp only [writeFields, List.length_append, List.length_cons, List.length_nil] at hfuel
      have hkey := readsBack_text key k (':' :: (write d ++ '\x7d' :: rest))
        (by rw [write]; omega) (endsNumber_cons (by decide))
      rw [write, ofDatum] at hkey
      have hvalue := hd k ('\x7d' :: rest) (by omega) (endsNumber_cons (by decide))
      simp only [writeFields, List.singleton_append, readEntries, hkey, hvalue,
        skipSpace_of_not (c := ':') (by decide), skipSpace_of_not (c := '\x7d') (by decide)]
      rfl
  | cons f fs ih =>
      obtain ⟨k, rfl⟩ := Nat.exists_eq_add_one_of_ne_zero (Nat.ne_zero_of_lt hfuel)
      obtain ⟨key', x⟩ := f
      obtain ⟨hx, hxs⟩ := List.forall_mem_cons.mp hfs
      simp only [writeFields, List.length_append, List.length_cons] at hfuel
      have hkey := readsBack_text key k (':' :: (write d ++ ',' :: (writeString key' ++ ':' ::
        (write x ++ (writeFields fs ++ rest))))) (by rw [write]; omega)
        (endsNumber_cons (by decide))
      rw [write, ofDatum] at hkey
      have hvalue := hd k (',' :: (writeString key' ++ ':' ::
        (write x ++ (writeFields fs ++ rest)))) (by omega) (endsNumber_cons (by decide))
      have hrest := ih key' hx hxs k (by
        simp only [List.length_append, List.length_cons]
        omega)
      simp only [writeFields, List.cons_append, List.append_assoc, readEntries, hkey, hvalue,
        skipSpace_of_not (c := ':') (by decide), skipSpace_of_not (c := ',') (by decide), hrest]
      rfl

theorem readsBack_record {fs : List (String × Datum)} (h : ∀ f ∈ fs, ReadsBack f.2) :
    ReadsBack (.record fs) := by
  refine readsBack_of_succ fun k rest hfuel _ => ?_
  rw [ofDatum]
  cases fs with
  | nil => rfl
  | cons f fs =>
      obtain ⟨key, d⟩ := f
      obtain ⟨hd, hfs⟩ := List.forall_mem_cons.mp h
      have hfuel' : 2 * (writeString key ++ ':' :: (write d ++ writeFields fs)).length < k := by
        simp only [write, List.length_cons] at hfuel
        omega
      have hentries := readEntries_write key (d := d) hd hfs k rest hfuel'
      have hskip : skipSpace (writeString key ++ ':' :: (write d ++ (writeFields fs ++ rest))) =
          writeString key ++ ':' :: (write d ++ (writeFields fs ++ rest)) := rfl
      simp only [write, List.cons_append, List.append_assoc, readValue,
        skipSpace_of_not (c := '\x7b') (by decide), hskip]
      split
      · next heq => cases heq
      · rw [hentries]

theorem readsBack {d : Datum} (h : Fits d) : ReadsBack d := by
  induction h with
  | flag b => exact readsBack_flag b
  | number h => exact readsBack_number h
  | text s => exact readsBack_text s
  | list _ ih => exact readsBack_list ih
  | record _ ih => exact readsBack_record ih

/-- The text of data reads as the data. -/
theorem ofText_render {d : Datum} (h : Fits d) : ofText (render d) = ⟨ofDatum d, true⟩ := by
  have hread := readsBack h (2 * (write d).length + 2) [] (by omega) (by simp [EndsNumber])
  rw [List.append_nil] at hread
  simp only [ofText, render, String.toList_ofList, hread]
  rfl

/-! ## Lines -/

theorem lineFeed_notMem_of_isDigit {cs : List Char} (h : ∀ c ∈ cs, c.isDigit = true) :
    '\n' ∉ cs := fun hmem => absurd (h _ hmem) (by decide)

theorem lineFeed_notMem_escapeChar (c : Char) : '\n' ∉ escapeChar c := by
  have hcontrol : ∀ n < 0x20, '\n' ∉ Text.hexDigits 4 n := by decide
  unfold escapeChar
  split_ifs with hquote hslash hb hf hn hr ht hc
  case pos | pos | pos | pos | pos | pos | pos => decide
  case pos => simpa using hcontrol c.toNat hc
  case neg => simpa using Ne.symm hn

theorem lineFeed_notMem_writeString (s : String) : '\n' ∉ writeString s := by
  simp [writeString, lineFeed_notMem_escapeChar]

theorem lineFeed_notMem_writeTail {ds : List Datum} (h : ∀ d ∈ ds, '\n' ∉ write d) :
    '\n' ∉ writeTail ds := by
  induction ds with
  | nil => simp [writeTail]
  | cons d ds ih =>
      obtain ⟨hd, hds⟩ := List.forall_mem_cons.mp h
      simp [writeTail, hd, ih hds]

theorem lineFeed_notMem_writeFields {fs : List (String × Datum)}
    (h : ∀ f ∈ fs, '\n' ∉ write f.2) : '\n' ∉ writeFields fs := by
  induction fs with
  | nil => simp [writeFields]
  | cons f fs ih =>
      obtain ⟨hf, hfs⟩ := List.forall_mem_cons.mp h
      simp [writeFields, lineFeed_notMem_writeString, hf, ih hfs]

theorem lineFeed_notMem_write {d : Datum} (h : Fits d) : '\n' ∉ write d := by
  induction h with
  | flag b => cases b <;> decide
  | number _ => exact lineFeed_notMem_of_isDigit isDigit_toDigits
  | text s => exact lineFeed_notMem_writeString s
  | list _ ih =>
      rename_i ds _
      cases ds with
      | nil => decide
      | cons d ds =>
          obtain ⟨hd, hds⟩ := List.forall_mem_cons.mp ih
          simp [write, hd, lineFeed_notMem_writeTail hds]
  | record _ ih =>
      rename_i fs _
      cases fs with
      | nil => decide
      | cons f fs =>
          obtain ⟨hf, hfs⟩ := List.forall_mem_cons.mp ih
          simp [write, lineFeed_notMem_writeString, hf, lineFeed_notMem_writeFields hfs]

/-! ## Typed values -/

instance : ShowingSource Place (Except Fault) where
  Shows p d := p.value = ofDatum d
  follow _ := rfl
  text {p s} h _ := by
    rw [ofDatum] at h
    simp only [Source.text, h]
    rfl
  flag {p b} h := by
    rw [ofDatum] at h
    simp only [Source.flag, h]
    rfl
  optional {p d} h := by
    cases d <;> rw [ofDatum] at h <;> simp only [Source.optional, h] <;> rfl
  items {p ds} h := by
    rw [ofDatum] at h
    refine ⟨ds.map fun d => ⟨p.origin, ofDatum d⟩, ?_, ?_⟩
    · simp only [Source.items, h, List.map_map]
      rfl
    · rw [List.forall₂_map_left_iff, List.forall₂_same]
      exact fun _ _ => rfl
  choice {p s} h names hs := by
    rw [ofDatum] at h
    simp only [Source.choice, h, choiceOf, nameOf, List.contains_iff_mem.mpr hs, if_true]
    rfl
  layout {p fs} h _ := by
    rw [ofDatum] at h
    refine ⟨fs.map fun f => (⟨p.origin, string f.1⟩, ⟨p.origin, ofDatum f.2⟩), ?_, ?_⟩
    · simp only [Source.layout, h, List.map_map]
      rfl
    · rw [List.forall₂_map_left_iff, List.forall₂_same]
      exact fun _ _ => ⟨rfl, rfl⟩

theorem shows_iff {p : Place} {d : Datum} : ShowingSource.Shows p d ↔ p.value = ofDatum d :=
  Iff.rfl

theorem reads_index (n : ℕ) : Reads (Source.index : Place → Except Fault ℕ) (.number n) n := by
  intro p h
  rw [shows_iff, ofDatum] at h
  simp only [Source.index, h]
  rfl

/-- What reads back from data reads back from the text of the data. -/
theorem decodeText_render {α : Type} {read : Place → Except Fault α} {d : Datum} {a : α}
    (hread : Reads read d a) (h : Fits d) : decodeText read (render d) = .ok a := by
  simp only [decodeText, ofText_render h]
  rw [hread ⟨.text, ofDatum d⟩ rfl]
  rfl

end RequestAudit.Json
